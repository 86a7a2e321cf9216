import Mathlib.Data.List.DropRight
import DalvikHorn.Proofs.MethodReferences
import DalvikHorn.Proofs.MoreSources

/-!
# References and their texts

Call sites, definitions and configured signatures meet in the hashes of texts only, so
a reference must not lose anything of the text that it is read from.  This file states
the grammar of references on its own and shows that the scanners read exactly the texts
of the grammar: a text, without the white space at its ends, is read as a reference if
and only if it is the text of this reference and all parts are well formed.

Nothing in the grammar excludes the separators from the parts before them: the name of
a class may contain an arrow or a parenthesis, and so may a return type.  A text has
one reading nevertheless, because every part but the last ends before a character that
the part cannot contain.

## Strategy

* **Scanners.**  Each scanner has an equivalence: it reads `part` and leaves `rest` if and
  only if `part` has its form and the text is `part ++ rest`, with the separator between
  the two if there is one.
* **Descriptors.**  The splitter of parameter lists is a machine with the descriptor at
  hand as its state.  What is at hand can always be completed (`Completes`), so what is
  split off is a descriptor; and it passes over any descriptor in one go
  (`splitDescriptors_append`), so every list of descriptors is found.
* **References.**  The equivalences are put together in the order of the parts.
-/

namespace DalvikHorn

/-! ## White space -/

/-- The ends of a trimmed text are not white space. -/
theorem trimBlanks_trimBlanks (text : List Char) :
    trimBlanks (trimBlanks text) = trimBlanks text := by
  have hstart : (trimBlanks text).dropWhile isBlank = trimBlanks text := by
    rw [List.dropWhile_eq_self_iff]
    intro hpos hblank
    have hleading : trimBlanks text <+: text.dropWhile isBlank := List.rdropWhile_prefix _ _
    have hsame := List.dropWhile_idempotent (p := isBlank) text
    rw [List.dropWhile_eq_self_iff] at hsame
    rw [hleading.getElem hpos] at hblank
    exact hsame (hpos.trans_le hleading.length_le) hblank
  calc trimBlanks (trimBlanks text)
      = ((trimBlanks text).dropWhile isBlank).rdropWhile isBlank := rfl
    _ = (trimBlanks text).rdropWhile isBlank := by rw [hstart]
    _ = trimBlanks text := List.rdropWhile_idempotent _ _

/-! ## The grammar -/

/-- The descriptor of a type: a primitive, a class, or an array. -/
inductive IsDescriptor : List Char → Prop
  | primitive {c : Char} (h : isPrimitiveLetter c = true) : IsDescriptor [c]
  | reference {name : List Char} (h : ';' ∉ name) : IsDescriptor ('L' :: (name ++ [';']))
  | array {element : List Char} (h : IsDescriptor element) : IsDescriptor ('[' :: element)

/-- The descriptor of a class whose name is not empty. -/
def IsClassName (text : List Char) : Prop :=
  ∃ name, name ≠ [] ∧ ';' ∉ name ∧ text = 'L' :: (name ++ [';'])

/-- The descriptor of a class, or of an array. -/
inductive IsOwner : List Char → Prop
  | className {text : List Char} (h : IsClassName text) : IsOwner text
  | primitives {c : Char} (h : isPrimitiveLetter c = true) : IsOwner ['[', c]
  | array {element : List Char} (h : IsOwner element) : IsOwner ('[' :: element)

/-- A name that `stop` ends. -/
def IsName (stop : Char) (name : List Char) : Prop :=
  name ≠ [] ∧ ∀ c ∈ name, c ≠ stop ∧ isBlank c = false

/-- The type at the end of a reference, of which no more is asked than that it has no white
space. -/
def IsType (text : List Char) : Prop :=
  text ≠ [] ∧ ∀ c ∈ text, isBlank c = false

/-- The parts of a method reference have their forms. -/
structure MethodRef.WellFormed (method : MethodRef) : Prop where
  owner : IsOwner method.owner.toList
  name : IsName '(' method.name.toList
  parameters : ∀ descriptor ∈ method.parameters,
    IsDescriptor descriptor.toList ∧ ')' ∉ descriptor.toList
  returnType : IsType method.returnType.toList

/-- The parts of a field reference have their forms. -/
structure FieldRef.WellFormed (field : FieldRef) : Prop where
  owner : IsClassName field.owner.toList
  name : IsName ':' field.name.toList
  type : IsType field.type.toList

/-- A field without its class. -/
def FieldRef.signature (field : FieldRef) : String :=
  field.name ++ ":" ++ field.type

/-- The text of a field reference. -/
def FieldRef.text (field : FieldRef) : String :=
  field.owner ++ "->" ++ field.signature

/-! ## Scanners -/

/-- A text is cut where a predicate fails for the first time. -/
theorem takeWhile_dropWhile_of_stop {p : Char → Bool} {part rest : List Char} {stop : Char}
    (hpart : ∀ c ∈ part, p c = true) (hstop : p stop = false) :
    (part ++ stop :: rest).takeWhile p = part ∧
      (part ++ stop :: rest).dropWhile p = stop :: rest := by
  have hneg : ¬ p stop = true := by simp [hstop]
  rw [List.takeWhile_append_of_pos hpart, List.dropWhile_append_of_pos hpart,
    List.takeWhile_cons_of_neg hneg, List.dropWhile_cons_of_neg hneg, List.append_nil]
  exact ⟨rfl, rfl⟩

variable {text part rest : List Char}

theorem scanClassName?_eq_some_iff :
    scanClassName? text = some (part, rest) ↔ IsClassName part ∧ text = part ++ rest := by
  constructor
  · intro h
    unfold scanClassName? at h
    -- a name ends at the first semicolon, and is not empty
    split at h
    · rename_i inner
      dsimp only at h
      split at h
      · rename_i after hdrop
        split at h
        · cases h
        · rename_i hsome
          cases h
          refine ⟨⟨inner.takeWhile (· != ';'), by simpa using hsome, fun hmem => ?_, rfl⟩, ?_⟩
          · simpa using List.all_eq_true.mp List.all_takeWhile _ hmem
          · calc 'L' :: inner
                = 'L' :: (inner.takeWhile (· != ';') ++ inner.dropWhile (· != ';')) := by
                  rw [List.takeWhile_append_dropWhile]
              _ = 'L' :: inner.takeWhile (· != ';') ++ [';'] ++ rest := by simp [hdrop]
      · cases h
    · cases h
  · rintro ⟨⟨name, hsome, hclosed, rfl⟩, rfl⟩
    have hcut : (name ++ ';' :: rest).takeWhile (· != ';') = name ∧
        (name ++ ';' :: rest).dropWhile (· != ';') = ';' :: rest :=
      takeWhile_dropWhile_of_stop
        (fun c hc => bne_iff_ne.mpr (ne_of_mem_of_not_mem hc hclosed)) (by simp)
    have htext : 'L' :: (name ++ [';']) ++ rest = 'L' :: (name ++ ';' :: rest) := by simp
    rw [htext, scanClassName?, hcut.1, hcut.2]
    simp [hsome]

/-- A bracket stands before an owner whenever there may be one. -/
theorem scanOwner?_bracket (h : scanOwner? text = some (part, rest)) :
    scanOwner? ('[' :: text) = some ('[' :: part, rest) := by
  unfold scanOwner? at h ⊢
  dsimp only at h ⊢
  rw [List.takeWhile_cons_of_pos (by simp), List.dropWhile_cons_of_pos (by simp)]
  split at h
  · cases h
    simp
  · split at h
    · rename_i hprimitive
      cases h
      have hletter := (Bool.and_eq_true_iff.mp hprimitive).2
      simp [hletter]
    · cases h
  · cases h

theorem scanOwner?_append (h : IsOwner part) : scanOwner? (part ++ rest) = some (part, rest) := by
  -- a class name is read up to its semicolon, so what follows it does not matter
  induction h with
  | className hclass =>
      rename_i name
      have hread : scanClassName? (name ++ rest) = some (name, rest) :=
        scanClassName?_eq_some_iff.mpr ⟨hclass, rfl⟩
      obtain ⟨inner, -, -, rfl⟩ := hclass
      rw [List.cons_append] at hread ⊢
      unfold scanOwner?
      rw [List.takeWhile_cons_of_neg (by simp), List.dropWhile_cons_of_neg (by simp)]
      dsimp only
      rw [hread]
      rfl
  | primitives hletter =>
      rename_i c
      have hbracket : c ≠ '[' := fun heq => by simp [heq, isPrimitiveLetter] at hletter
      have hclass : scanClassName? (c :: rest) = none := by
        unfold scanClassName?
        split
        · rename_i heq
          cases heq
          simp [isPrimitiveLetter] at hletter
        · rfl
      simp [scanOwner?, hbracket, hclass, hletter]
  | array _ ih => exact scanOwner?_bracket ih

theorem IsOwner.of_brackets {brackets element : List Char} (h : IsOwner element)
    (hbrackets : ∀ c ∈ brackets, c = '[') : IsOwner (brackets ++ element) := by
  induction brackets with
  | nil => exact h
  | cons c rest ih =>
      obtain ⟨rfl, hrest⟩ := List.forall_mem_cons.mp hbrackets
      exact .array (ih hrest)

/-- At least one bracket makes an owner of a primitive. -/
theorem isOwner_primitives {brackets : List Char} {c : Char} (hletter : isPrimitiveLetter c = true)
    (hsome : brackets ≠ []) (hbrackets : ∀ c ∈ brackets, c = '[') : IsOwner (brackets ++ [c]) := by
  obtain ⟨front, last, rfl⟩ := List.eq_nil_or_concat' brackets |>.resolve_left hsome
  obtain ⟨hfront, hlast⟩ := List.forall_mem_append.mp hbrackets
  rw [List.forall_mem_singleton.mp hlast, List.append_assoc]
  exact (IsOwner.primitives hletter).of_brackets hfront

theorem scanOwner?_eq_some_iff :
    scanOwner? text = some (part, rest) ↔ IsOwner part ∧ text = part ++ rest := by
  constructor
  · intro h
    -- the brackets in front belong to arrays, and what follows them is the element
    have hbrackets : ∀ c ∈ text.takeWhile (· == '['), c = '[' := fun c hc =>
      beq_iff_eq.mp (List.all_eq_true.mp List.all_takeWhile c hc)
    have htext : text.takeWhile (· == '[') ++ text.dropWhile (· == '[') = text :=
      List.takeWhile_append_dropWhile
    unfold scanOwner? at h
    dsimp only at h
    split at h
    · rename_i hclass
      cases h
      obtain ⟨hname, helement⟩ := scanClassName?_eq_some_iff.mp hclass
      exact ⟨(IsOwner.className hname).of_brackets hbrackets, by
        rw [List.append_assoc, ← helement, htext]⟩
    · rename_i helement
      split at h
      · rename_i hprimitive
        cases h
        obtain ⟨hsome, hletter⟩ := Bool.and_eq_true_iff.mp hprimitive
        refine ⟨isOwner_primitives hletter (by simpa using hsome) hbrackets, ?_⟩
        rw [List.append_assoc, List.singleton_append, ← helement, htext]
      · cases h
    · cases h
  · rintro ⟨howner, rfl⟩
    exact scanOwner?_append howner

/-- A text is cut behind an owner in one way, whatever follows. -/
theorem IsOwner.append_inj {first second after : List Char} (hfirst : IsOwner first)
    (hsecond : IsOwner second) (h : first ++ rest = second ++ after) :
    first = second ∧ rest = after := by
  have hscan : scanOwner? (first ++ rest) = some (first, rest) := scanOwner?_append hfirst
  rw [h, scanOwner?_append hsecond] at hscan
  obtain ⟨hpart, hrest⟩ := Prod.mk.inj (Option.some.inj hscan)
  exact ⟨hpart.symm, hrest.symm⟩

theorem skipArrow?_eq_some_iff : skipArrow? text = some rest ↔ text = '-' :: '>' :: rest := by
  unfold skipArrow?
  split
  · simp
  · rename_i hnone
    exact ⟨nofun, fun heq => absurd heq (hnone rest)⟩

theorem scanName?_eq_some_iff {stop : Char} :
    scanName? stop text = some (part, rest) ↔ IsName stop part ∧ text = part ++ stop :: rest := by
  constructor
  · intro h
    unfold scanName? at h
    dsimp only at h
    split at h
    · rename_i c after hdrop
      split at h
      · rename_i hfound
        cases h
        obtain ⟨hstop, hsome⟩ := Bool.and_eq_true_iff.mp hfound
        rw [beq_iff_eq.mp hstop] at hdrop
        refine ⟨⟨by simpa using hsome, fun c hc => ?_⟩, ?_⟩
        · simpa using List.all_eq_true.mp List.all_takeWhile c hc
        · rw [← hdrop, List.takeWhile_append_dropWhile]
      · cases h
    · cases h
  · rintro ⟨⟨hsome, hname⟩, rfl⟩
    have hinName : ∀ c ∈ part, (c != stop && !isBlank c) = true := fun c hc => by
      simpa using hname c hc
    have hcut : (part ++ stop :: rest).takeWhile (fun c => c != stop && !isBlank c) = part ∧
        (part ++ stop :: rest).dropWhile (fun c => c != stop && !isBlank c) = stop :: rest :=
      takeWhile_dropWhile_of_stop hinName (by simp)
    rw [scanName?, hcut.1, hcut.2]
    simp [hsome]

theorem scanDescriptor?_eq_some_iff :
    scanDescriptor? text = some part ↔ IsType part ∧ text = part := by
  have htype : (text.isEmpty || text.any isBlank) = false ↔ IsType text := by
    rw [Bool.or_eq_false_iff, List.isEmpty_eq_false_iff, List.any_eq_false]
    simp [IsType]
  unfold scanDescriptor?
  cases hbad : text.isEmpty || text.any isBlank with
  | false =>
      rw [if_neg Bool.false_ne_true, Option.some.injEq]
      constructor
      · rintro rfl
        exact ⟨htype.mp hbad, rfl⟩
      · exact And.right
  | true =>
      rw [if_pos rfl]
      refine ⟨nofun, ?_⟩
      rintro ⟨hpart, rfl⟩
      exact absurd (htype.mpr hpart) (by simp [hbad])

/-! ## Parameter lists -/

/-- Whatever is at hand can be completed to a descriptor: by any descriptor as long as there are
only brackets, and by the rest of a name in a class. -/
def Completes (pending : List Char) (inClass : Bool) : Prop :=
  match inClass with
  | false => ∀ element, IsDescriptor element → IsDescriptor (pending.reverse ++ element)
  | true => ∀ name, ';' ∉ name → IsDescriptor (pending.reverse ++ (name ++ [';']))

theorem completes_nil : Completes [] false :=
  fun _ helement => helement

/-- What is split off is a descriptor. -/
theorem isDescriptor_of_splitDescriptors {pending : List Char} {inClass : Bool}
    (hpending : Completes pending inClass) {descriptors : List String}
    (h : splitDescriptors pending inClass text = .ok descriptors) :
    ∀ descriptor ∈ descriptors, IsDescriptor descriptor.toList := by
  induction text generalizing pending inClass descriptors with
  | nil =>
      rw [splitDescriptors] at h
      split at h
      · cases h
      · split at h
        · cases h
          exact List.forall_mem_nil _
        · cases h
  | cons c rest ih =>
      -- behind a descriptor that ends here the splitter starts afresh
      have hclosed : ∀ {closed : List Char}, IsDescriptor closed →
          (splitDescriptors [] false rest).map (String.ofList closed :: ·) = .ok descriptors →
            ∀ descriptor ∈ descriptors, IsDescriptor descriptor.toList := by
        intro closed hdescriptor h
        obtain ⟨others, hothers, rfl⟩ := exists_cons_of_map_eq_ok h
        refine List.forall_mem_cons.mpr ⟨?_, ih completes_nil hothers⟩
        rwa [String.toList_ofList]
      rw [splitDescriptors] at h
      cases inClass with
      | true =>
          rw [if_pos rfl] at h
          split at h
          · rename_i hstop
            refine hclosed ?_ h
            simpa [hstop] using hpending [] List.not_mem_nil
          · rename_i hinner
            refine ih ?_ h
            intro name hname
            have hnames : ';' ∉ c :: name := by simp [Ne.symm hinner, hname]
            simpa using hpending (c :: name) hnames
      | false =>
          rw [if_neg Bool.false_ne_true] at h
          split at h
          · rename_i hbracket
            refine ih ?_ h
            intro element helement
            simpa [hbracket] using hpending ('[' :: element) (.array helement)
          · split at h
            · rename_i hclass
              refine ih ?_ h
              intro name hname
              simpa [hclass] using hpending _ (.reference hname)
            · split at h
              · rename_i hletter
                refine hclosed ?_ h
                simpa using hpending [c] (.primitive hletter)
              · cases h

/-- The rest of a class name is passed over. -/
theorem splitDescriptors_inClass {pending name : List Char} (hname : ';' ∉ name) :
    splitDescriptors pending true (name ++ ';' :: rest) =
      (splitDescriptors [] false rest).map
        (String.ofList (pending.reverse ++ (name ++ [';'])) :: ·) := by
  induction name generalizing pending with
  | nil => simp [splitDescriptors]
  | cons c name ih =>
      obtain ⟨hne, hname⟩ := not_or.mp (mt List.mem_cons.mpr hname)
      rw [List.cons_append, splitDescriptors, if_pos rfl, if_neg (Ne.symm hne), ih hname]
      simp

/-- A descriptor is split off in one go. -/
theorem splitDescriptors_append {pending descriptor : List Char} (h : IsDescriptor descriptor) :
    splitDescriptors pending false (descriptor ++ rest) =
      (splitDescriptors [] false rest).map (String.ofList (pending.reverse ++ descriptor) :: ·) := by
  induction h generalizing pending with
  | primitive hletter =>
      rename_i c
      have hbracket : c ≠ '[' := fun heq => by simp [heq, isPrimitiveLetter] at hletter
      have hclass : c ≠ 'L' := fun heq => by simp [heq, isPrimitiveLetter] at hletter
      simp [splitDescriptors, hbracket, hclass, hletter]
  | reference hname =>
      rename_i name
      have htext : 'L' :: (name ++ [';']) ++ rest = 'L' :: (name ++ ';' :: rest) := by simp
      rw [htext, splitDescriptors, if_neg Bool.false_ne_true, if_neg (by decide), if_pos rfl,
        splitDescriptors_inClass hname]
      simp
  | array _ ih =>
      rw [List.cons_append, splitDescriptors, if_neg Bool.false_ne_true, if_pos rfl, ih]
      simp

theorem splitDescriptors_flatMap {descriptors : List String}
    (h : ∀ descriptor ∈ descriptors, IsDescriptor descriptor.toList) :
    splitDescriptors [] false (descriptors.flatMap String.toList) = .ok descriptors := by
  induction descriptors with
  | nil => rfl
  | cons first others ih =>
      obtain ⟨hfirst, hothers⟩ := List.forall_mem_cons.mp h
      rw [List.flatMap_cons, splitDescriptors_append hfirst, ih hothers]
      simp [Except.map]

/-- A parameter list is split into descriptors that make it up, and there is only one way to do
that. -/
theorem splitParameters_eq_ok_iff {parameters : String} {descriptors : List String} :
    splitParameters parameters = .ok descriptors ↔
      (∀ descriptor ∈ descriptors, IsDescriptor descriptor.toList) ∧
        String.join descriptors = parameters := by
  constructor
  · intro h
    refine ⟨?_, String.toList_inj.mp (toList_join_of_splitParameters h)⟩
    unfold splitParameters at h
    split at h
    · rename_i hfound
      cases h
      exact isDescriptor_of_splitDescriptors completes_nil hfound
    · cases h
    · cases h
  · rintro ⟨hdescriptors, rfl⟩
    rw [splitParameters, String.toList_join, splitDescriptors_flatMap hdescriptors]

/-! ## References -/

/-- A parameter list ends at the first parenthesis, and the type behind it is not empty, so there is
one. -/
theorem parameters_and_type_iff {parameters returnType : List Char} :
    text.takeWhile (· != ')') = parameters ∧
        scanDescriptor? ((text.dropWhile (· != ')')).drop 1) = some returnType ↔
      ')' ∉ parameters ∧ IsType returnType ∧ text = parameters ++ ')' :: returnType := by
  rw [scanDescriptor?_eq_some_iff]
  constructor
  · rintro ⟨rfl, htype, hbehind⟩
    refine ⟨fun hmem => ?_, htype, ?_⟩
    · simpa using List.all_eq_true.mp List.all_takeWhile _ hmem
    · -- a type is not empty, so the closing parenthesis is there
      cases hdrop : text.dropWhile (· != ')') with
      | nil =>
          rw [hdrop] at hbehind
          exact absurd hbehind.symm htype.1
      | cons c behind =>
          have hclosing := List.head?_dropWhile_not (· != ')') text
          rw [hdrop] at hbehind hclosing
          obtain rfl : c = ')' := by simpa using hclosing
          obtain rfl : behind = returnType := hbehind
          rw [← hdrop, List.takeWhile_append_dropWhile]
  · rintro ⟨hopen, htype, rfl⟩
    have hcut : (parameters ++ ')' :: returnType).takeWhile (· != ')') = parameters ∧
        (parameters ++ ')' :: returnType).dropWhile (· != ')') = ')' :: returnType :=
      takeWhile_dropWhile_of_stop
        (fun c hc => bne_iff_ne.mpr (ne_of_mem_of_not_mem hc hopen)) (by simp)
    rw [hcut.1, hcut.2]
    exact ⟨rfl, htype, rfl⟩

/-- The parts of a method reference and their separators. -/
theorem MethodRef.parts?_eq_some_iff {owner name parameters returnType : List Char} :
    parts? text = some (owner, name, parameters, returnType) ↔
      IsOwner owner ∧ IsName '(' name ∧ ')' ∉ parameters ∧ IsType returnType ∧
        text = owner ++ '-' :: '>' :: (name ++ '(' :: (parameters ++ ')' :: returnType)) := by
  simp only [parts?, Option.bind_eq_bind, Option.bind_eq_some_iff, Option.pure_def,
    Option.some.injEq, Prod.mk.injEq, Prod.exists, scanOwner?_eq_some_iff,
    skipArrow?_eq_some_iff, scanName?_eq_some_iff]
  constructor
  · rintro ⟨_, _, ⟨howner, rfl⟩, _, rfl, _, rest, ⟨hname, rfl⟩, _, hbehind, rfl, rfl,
      hparameters, rfl⟩
    obtain ⟨hopen, htype, rfl⟩ := parameters_and_type_iff.mp ⟨hparameters, hbehind⟩
    exact ⟨howner, hname, hopen, htype, rfl⟩
  · rintro ⟨howner, hname, hopen, htype, rfl⟩
    obtain ⟨hparameters, hbehind⟩ := parameters_and_type_iff.mpr ⟨hopen, htype, rfl⟩
    exact ⟨owner, _, ⟨howner, rfl⟩, _, rfl, name, _, ⟨hname, rfl⟩, returnType, hbehind, rfl, rfl,
      hparameters, rfl⟩

theorem FieldRef.parts?_eq_some_iff {owner name type : List Char} :
    parts? text = some (owner, name, type) ↔
      IsClassName owner ∧ IsName ':' name ∧ IsType type ∧
        text = owner ++ '-' :: '>' :: (name ++ ':' :: type) := by
  simp only [parts?, Option.bind_eq_bind, Option.bind_eq_some_iff, Option.pure_def,
    Option.some.injEq, Prod.mk.injEq, Prod.exists, scanClassName?_eq_some_iff,
    skipArrow?_eq_some_iff, scanName?_eq_some_iff, scanDescriptor?_eq_some_iff]
  constructor
  · rintro ⟨_, rest, ⟨howner, rfl⟩, _, rfl, _, _, ⟨hname, rfl⟩, _, ⟨htype, rfl⟩, rfl, rfl, rfl⟩
    exact ⟨howner, hname, htype, rfl⟩
  · rintro ⟨howner, hname, htype, rfl⟩
    exact ⟨owner, _, ⟨howner, rfl⟩, _, rfl, name, _, ⟨hname, rfl⟩, type, ⟨htype, rfl⟩, rfl, rfl, rfl⟩

namespace MethodRef

theorem toList_text (method : MethodRef) :
    method.text.toList = method.owner.toList ++ '-' :: '>' :: (method.name.toList ++
      '(' :: (method.parameters.flatMap String.toList ++ ')' :: method.returnType.toList)) := by
  simp [text, signature, String.toList_join]

/-- A reference is read from its own text and from nothing else. -/
theorem parse_eq_ok_iff {text : String} {method : MethodRef} :
    parse text = .ok method ↔
      method.WellFormed ∧ method.text.toList = trimBlanks text.toList := by
  constructor
  · intro h
    unfold parse at h
    split at h
    · cases h
    · rename_i owner name parameters returnType hparts
      obtain ⟨howner, hname, hopen, htype, htext⟩ := parts?_eq_some_iff.mp hparts
      cases hsplit : splitParameters (String.ofList parameters) with
      | error fault =>
          rw [hsplit] at h
          cases h
      | ok descriptors =>
          rw [hsplit] at h
          cases h
          obtain ⟨hdescriptors, hjoin⟩ := splitParameters_eq_ok_iff.mp hsplit
          have hflat : descriptors.flatMap String.toList = parameters := by
            rw [← String.toList_join, hjoin, String.toList_ofList]
          refine ⟨⟨?_, ?_, fun descriptor hmem => ⟨hdescriptors descriptor hmem, fun hc => ?_⟩,
            ?_⟩, ?_⟩
          · rwa [String.toList_ofList]
          · rwa [String.toList_ofList]
          · -- every parameter stands in front of the first closing parenthesis
            exact hopen (hflat ▸ List.mem_flatMap.mpr ⟨descriptor, hmem, hc⟩)
          · rwa [String.toList_ofList]
          · rw [toList_text, htext]
            simp [hflat]
  · rintro ⟨hmethod, htext⟩
    have hopen : ')' ∉ method.parameters.flatMap String.toList := by
      intro hmem
      obtain ⟨descriptor, hdescriptor, hc⟩ := List.mem_flatMap.mp hmem
      exact (hmethod.parameters descriptor hdescriptor).2 hc
    have hparts := parts?_eq_some_iff.mpr
      ⟨hmethod.owner, hmethod.name, hopen, hmethod.returnType, method.toList_text⟩
    have hsplit : splitParameters (String.ofList (method.parameters.flatMap String.toList)) =
        .ok method.parameters := by
      refine splitParameters_eq_ok_iff.mpr
        ⟨fun descriptor hmem => (hmethod.parameters descriptor hmem).1, ?_⟩
      rw [← String.toList_join, String.ofList_toList]
    rw [parse, ← htext, hparts]
    dsimp only
    rw [hsplit]
    simp [Except.map]

/-- What has been read is read again from its text. -/
theorem parse_text_of_parse {text : String} {method : MethodRef} (h : parse text = .ok method) :
    parse method.text = .ok method := by
  rw [parse_eq_ok_iff] at h ⊢
  obtain ⟨hmethod, htext⟩ := h
  exact ⟨hmethod, by rw [htext, trimBlanks_trimBlanks]⟩

/-- Texts that differ in white space at their ends are read alike. -/
theorem parse_of_trimBlanks_eq {text other : String} {method : MethodRef}
    (htrim : trimBlanks other.toList = trimBlanks text.toList) (h : parse text = .ok method) :
    parse other = .ok method := by
  rw [parse_eq_ok_iff] at h ⊢
  exact ⟨h.1, h.2.trans htrim.symm⟩

/-- The identifiers of a reference are the hashes of the two sides of its arrow. -/
theorem ids_of_parse {text : String} {method : MethodRef} (h : parse text = .ok method)
    {owner signature : List Char} (howner : IsOwner owner)
    (hsides : trimBlanks text.toList = owner ++ '-' :: '>' :: signature) :
    method.classId = textHash (String.ofList owner) ∧
      method.methodId = textHash (String.ofList signature) := by
  rw [parse_eq_ok_iff] at h
  obtain ⟨hmethod, htext⟩ := h
  have harrow : owner ++ '-' :: '>' :: signature =
      method.owner.toList ++ '-' :: '>' :: method.signature.toList := by
    rw [← hsides, ← htext]
    simp [MethodRef.text]
  obtain ⟨rfl, hbehind⟩ := howner.append_inj hmethod.owner harrow
  obtain rfl : signature = method.signature.toList := by simpa using hbehind
  rw [String.ofList_toList, String.ofList_toList]
  exact ⟨rfl, rfl⟩

end MethodRef

namespace FieldRef

theorem toList_text (field : FieldRef) :
    field.text.toList = field.owner.toList ++ '-' :: '>' :: (field.name.toList ++
      ':' :: field.type.toList) := by
  simp [text, signature]

theorem parse_eq_ok_iff {text : String} {field : FieldRef} :
    parse text = .ok field ↔ field.WellFormed ∧ field.text.toList = trimBlanks text.toList := by
  constructor
  · intro h
    unfold parse at h
    split at h
    · cases h
    · rename_i hparts
      cases h
      obtain ⟨howner, hname, htype, htext⟩ := parts?_eq_some_iff.mp hparts
      refine ⟨⟨?_, ?_, ?_⟩, ?_⟩
      · rwa [String.toList_ofList]
      · rwa [String.toList_ofList]
      · rwa [String.toList_ofList]
      · rw [toList_text, htext]
        simp
  · rintro ⟨hfield, htext⟩
    have hparts := parts?_eq_some_iff.mpr
      ⟨hfield.owner, hfield.name, hfield.type, field.toList_text⟩
    rw [parse, ← htext, hparts]
    simp

theorem parse_text_of_parse {text : String} {field : FieldRef} (h : parse text = .ok field) :
    parse field.text = .ok field := by
  rw [parse_eq_ok_iff] at h ⊢
  obtain ⟨hfield, htext⟩ := h
  exact ⟨hfield, by rw [htext, trimBlanks_trimBlanks]⟩

theorem ids_of_parse {text : String} {field : FieldRef} (h : parse text = .ok field)
    {owner signature : List Char} (howner : IsClassName owner)
    (hsides : trimBlanks text.toList = owner ++ '-' :: '>' :: signature) :
    field.classId = textHash (String.ofList owner) ∧
      field.fieldId = textHash (String.ofList signature) := by
  rw [parse_eq_ok_iff] at h
  obtain ⟨hfield, htext⟩ := h
  have harrow : owner ++ '-' :: '>' :: signature =
      field.owner.toList ++ '-' :: '>' :: field.signature.toList := by
    rw [← hsides, ← htext]
    simp [FieldRef.text]
  obtain ⟨rfl, hbehind⟩ :=
    (IsOwner.className howner).append_inj (.className hfield.owner) harrow
  obtain rfl : signature = field.signature.toList := by simpa using hbehind
  rw [String.ofList_toList, String.ofList_toList]
  exact ⟨rfl, rfl⟩

end FieldRef

/-! ## Sources and sinks -/

/-- Configured signatures have been read. -/
theorem Labels.exists_parse_of_methodsOf {signatures : List String}
    {methods : List (ClassId × MethodId)} (hmethods : methodsOf signatures = .ok methods)
    {signature : String} (hsignature : signature ∈ signatures) :
    ∃ method, MethodRef.parse signature = .ok method ∧
      (method.classId, method.methodId) ∈ methods := by
  obtain ⟨parsed, hparsed, -⟩ := bind_eq_ok_iff.mp hmethods
  have hok : parseSignature signature ∈ parsed.map Except.ok :=
    mapM_eq_ok_iff.mp hparsed ▸ List.mem_map_of_mem hsignature
  obtain ⟨ids, -, hids⟩ := List.mem_map.mp hok
  cases hparse : MethodRef.parse signature with
  | error fault =>
      rw [parseSignature, hparse] at hids
      cases hids
  | ok method =>
      have hmethod : parseSignature signature = .ok (method.classId, method.methodId) := by
        rw [parseSignature, hparse]
        rfl
      exact ⟨method, rfl, (mem_methodsOf hmethods _).mpr ⟨signature, hsignature, hmethod⟩⟩

/-- A call names a configured method when its reference has the same text, up to white space at
the ends. -/
theorem CallSite.exists_ofInstruction {signatures : List String}
    {methods : List (ClassId × MethodId)} (hmethods : Labels.methodsOf signatures = .ok methods)
    {instruction : Instruction} {kind : InvokeKind} {reference signature : String}
    (hreference : instruction.reference = some reference) (hsignature : signature ∈ signatures)
    (htrim : trimBlanks reference.toList = trimBlanks signature.toList) :
    ∃ call, ofInstruction instruction kind = .ok call ∧
      (call.classId, call.methodId) ∈ methods := by
  obtain ⟨method, hparse, hmem⟩ := Labels.exists_parse_of_methodsOf hmethods hsignature
  have hsame := MethodRef.parse_of_trimBlanks_eq htrim hparse
  refine ⟨{ kind := kind, target := method, arguments := instruction.argumentRegisters }, ?_, hmem⟩
  rw [ofInstruction, Instruction.getReference, hreference]
  simp only [Bind.bind, Except.bind, hsame, Except.mapError]
  rfl

/-- References are read from the texts of the grammar and from no others, they are read again
from their own text, and their identifiers are the hashes of the sides of the arrow.  Parameter
lists have one decomposition into descriptors.  So a call is one of a source or a sink whenever
its reference has the text of a configured signature. -/
theorem references_are_exact :
    (∀ (text : String) (method : MethodRef), MethodRef.parse text = .ok method ↔
      method.WellFormed ∧ method.text.toList = trimBlanks text.toList) ∧
    (∀ (text : String) (method : MethodRef), MethodRef.parse text = .ok method →
      MethodRef.parse method.text = .ok method ∧
      ∀ owner signature, IsOwner owner →
        trimBlanks text.toList = owner ++ '-' :: '>' :: signature →
        method.classId = textHash (String.ofList owner) ∧
          method.methodId = textHash (String.ofList signature)) ∧
    (∀ (parameters : String) (descriptors : List String),
      splitParameters parameters = .ok descriptors ↔
        (∀ descriptor ∈ descriptors, IsDescriptor descriptor.toList) ∧
          String.join descriptors = parameters) ∧
    (∀ (text : String) (field : FieldRef), FieldRef.parse text = .ok field ↔
      field.WellFormed ∧ field.text.toList = trimBlanks text.toList) ∧
    (∀ (text : String) (field : FieldRef), FieldRef.parse text = .ok field →
      FieldRef.parse field.text = .ok field ∧
      ∀ owner signature, IsClassName owner →
        trimBlanks text.toList = owner ++ '-' :: '>' :: signature →
        field.classId = textHash (String.ofList owner) ∧
          field.fieldId = textHash (String.ofList signature)) ∧
    ∀ (sources sinks : List String) (labels : Labels),
      Labels.ofSignatures sources sinks = .ok labels →
      ∀ (instruction : Instruction) (kind : InvokeKind) (reference signature : String),
        instruction.reference = some reference →
        trimBlanks reference.toList = trimBlanks signature.toList →
        (signature ∈ sources → ∃ call, CallSite.ofInstruction instruction kind = .ok call ∧
          labels.isSource call.classId call.methodId = true) ∧
        (signature ∈ sinks → ∃ call, CallSite.ofInstruction instruction kind = .ok call ∧
          labels.isSink call.classId call.methodId = true) := by
  refine ⟨fun _ _ => MethodRef.parse_eq_ok_iff, fun _ _ hparse => ?_,
    fun _ _ => splitParameters_eq_ok_iff, fun _ _ => FieldRef.parse_eq_ok_iff,
    fun _ _ hparse => ?_, ?_⟩
  · exact ⟨MethodRef.parse_text_of_parse hparse, fun _ _ => MethodRef.ids_of_parse hparse⟩
  · exact ⟨FieldRef.parse_text_of_parse hparse, fun _ _ => FieldRef.ids_of_parse hparse⟩
  · intro sources sinks labels hlabels instruction kind reference signature hreference htrim
    obtain ⟨sourceMethods, hsources, hlabels⟩ := bind_eq_ok_iff.mp hlabels
    obtain ⟨sinkMethods, hsinks, hlabels⟩ := bind_eq_ok_iff.mp hlabels
    cases hlabels
    constructor
    · intro hsignature
      obtain ⟨call, hcall, hmem⟩ :=
        CallSite.exists_ofInstruction hsources hreference hsignature htrim
      exact ⟨call, hcall, List.contains_iff_mem.mpr hmem⟩
    · intro hsignature
      obtain ⟨call, hcall, hmem⟩ :=
        CallSite.exists_ofInstruction hsinks hreference hsignature htrim
      exact ⟨call, hcall, List.contains_iff_mem.mpr hmem⟩

/-- A method of a class with an arrow in its name. -/
def arrowMethod : MethodRef where
  owner := "La->b;"
  name := "f"
  parameters := ["I", "[LA;"]
  returnType := "V"

/-- A call of this method, with white space around its name. -/
def arrowCall : Instruction where
  pc := 0
  mnemonic := "invoke-static"
  registers := [0, 1]
  reference := some " La->b;->f(I[LA;)V\n"

def arrowField : FieldRef where
  owner := "La->b;"
  name := "x"
  type := "[I"

/-- The first arrow of the text belongs to the name of the class. -/
theorem references_are_exact_arrow :
    MethodRef.parse " La->b;->f(I[LA;)V\n" = .ok arrowMethod ∧
      arrowMethod.classId = textHash "La->b;" ∧ arrowMethod.methodId = textHash "f(I[LA;)V" ∧
      splitParameters "I[LA;" = .ok ["I", "[LA;"] ∧
      FieldRef.parse "La->b;->x:[I " = .ok arrowField ∧ arrowField.fieldId = textHash "x:[I" ∧
      ∃ labels call, Labels.ofSignatures ["La->b;->f(I[LA;)V"] [] = .ok labels ∧
        CallSite.ofInstruction arrowCall .static = .ok call ∧
        labels.isSource call.classId call.methodId = true := by
  obtain ⟨hmethod, hmethodIds, hsplit, hfield, hfieldIds, hlabels⟩ := references_are_exact
  have hname : IsClassName "La->b;".toList :=
    ⟨"a->b".toList, by decide, by decide, by decide⟩
  have hint : IsDescriptor "I".toList := .primitive (by decide)
  have harray : IsDescriptor "[LA;".toList := .array (@IsDescriptor.reference ['A'] (by decide))
  have hparse : MethodRef.parse " La->b;->f(I[LA;)V\n" = .ok arrowMethod := by
    refine (hmethod _ _).mpr ⟨⟨.className hname, ⟨by decide, ?_⟩, ?_, by decide, ?_⟩,
      by decide +kernel⟩
    · exact List.forall_mem_singleton.mpr (by decide)
    · exact List.forall_mem_cons.mpr
        ⟨⟨hint, by decide⟩, List.forall_mem_singleton.mpr ⟨harray, by decide⟩⟩
    · exact List.forall_mem_singleton.mpr (by decide)
  have hparameters : splitParameters "I[LA;" = .ok ["I", "[LA;"] :=
    (hsplit _ _).mpr ⟨List.forall_mem_cons.mpr ⟨hint, List.forall_mem_singleton.mpr harray⟩,
      by decide⟩
  have hparseField : FieldRef.parse "La->b;->x:[I " = .ok arrowField :=
    (hfield _ _).mpr ⟨⟨hname, ⟨by decide, List.forall_mem_singleton.mpr (by decide)⟩, by decide,
      List.forall_mem_cons.mpr ⟨by decide, List.forall_mem_singleton.mpr (by decide)⟩⟩,
      by decide +kernel⟩
  obtain ⟨hclass, hmethodId⟩ := (hmethodIds _ _ hparse).2 "La->b;".toList "f(I[LA;)V".toList
    (.className hname) (by decide +kernel)
  obtain ⟨-, hfieldId⟩ := (hfieldIds _ _ hparseField).2 "La->b;".toList "x:[I".toList hname
    (by decide +kernel)
  have hsource : Labels.ofSignatures ["La->b;->f(I[LA;)V"] [] =
      .ok { sources := [(arrowMethod.classId, arrowMethod.methodId)], sinks := [] } := by
    decide +kernel
  obtain ⟨call, hcall, hmem⟩ := (hlabels _ _ _ hsource arrowCall .static _ "La->b;->f(I[LA;)V" rfl
    (by decide +kernel)).1 (List.mem_singleton_self _)
  exact ⟨hparse, hclass, hmethodId, hparameters, hparseField, hfieldId, _, call, hsource, hcall,
    hmem⟩

end DalvikHorn
