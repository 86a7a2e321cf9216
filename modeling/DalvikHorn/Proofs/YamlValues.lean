import DalvikHorn.Proofs.Decimals
import DalvikHorn.Proofs.YamlNodes
import DalvikHorn.Yaml.Value
import Mathlib.Data.List.Forall2

/-!
# What documents say

A scalar has a meaning if it is plain, and is text otherwise.  A text that is written
as it is must therefore mean nothing but itself, which its style is chosen for
(`gives_item`); and the numeral of a number means the number (`ofText_toString`).  A
document of entries with different keys says what each of them means
(`ofDocument_documentTokens`), and its fields can be looked up.

## Strategy

* **Readers.**  `Gives` says that a reader of values gives one and follows no alias, so the
  anchors of a document and the limit on aliases do not matter.
* **Keys.**  Different texts are different keys, so no entry is refused as a second one
  (`gives_entries`).
-/

namespace DalvikHorn.Yaml

open Lexer

/-! ## Documents -/

/-- A document of a block mapping, all tokens of which are read. -/
theorem ofTokens_of_takes {more : List Token} {root : Node}
    (h : Takes (ReadNode.readRoot false (4 * (Token.blockMapping :: more).length + 4))
      (.blockMapping :: more) root []) :
    ∃ document, Document.ofTokens (.blockMapping :: more) = some document ∧
      document.root = root := by
  obtain ⟨size, hread⟩ :=
    h { tokens := .blockMapping :: more, handles := [] ++ defaultHandles } rfl
  have hdirectives : readDirectives false [] (.blockMapping :: more) =
      some ([], .blockMapping :: more) := rfl
  rw [Document.ofTokens, hdirectives, Option.bind_eq_bind, Option.bind_some]
  simp only [if_true, hread, Option.bind_eq_bind, Option.bind_some]
  exact ⟨_, rfl, rfl⟩

theorem length_le_length_entryTokens (entries : List (String × Content)) :
    entries.length ≤ (entries.flatMap entryTokens).length := by
  induction entries with
  | nil => exact Nat.le_refl _
  | cons entry entries ih =>
      rw [List.flatMap_cons, List.length_append, List.length_cons]
      have hentry : 3 ≤ (entryTokens entry).length := Nat.le_add_left _ _
      omega

/-- The tokens of a document make up the document. -/
theorem ofTokens_documentTokens (before : List (String × Content)) (key : String)
    (entries : List (String × Content)) :
    ∃ document, Document.ofTokens (documentTokens before key entries) = some document ∧
      document.root = ReadNode.documentNode before key entries := by
  have hlength : (before.flatMap entryTokens).length + (entries.flatMap entryTokens).length + 7 =
      (documentTokens before key entries).length := by
    simp [documentTokens]
    omega
  have hbefore := length_le_length_entryTokens before
  have hentries := length_le_length_entryTokens entries
  have hnode : Takes (ReadNode.readRoot false (4 * (documentTokens before key entries).length + 4))
      (documentTokens before key entries) (ReadNode.documentNode before key entries) [] :=
    .bind .peek (ReadNode.takes_document (by omega))
  exact ofTokens_of_takes hnode

/-! ## Numerals -/

namespace Scalar

variable {value : Nat}

theorem numeral?_of_isDigit {digits : List Char} (hne : digits ≠ [])
    (h : ∀ c ∈ digits, c.isDigit = true) : numeral? 10 digits = some (digitsValue digits) := by
  -- the digits of base ten are read as their distance from zero
  have hdigit : ∀ c : Char, c.isDigit = true → digit? 10 c = some (c.toNat - '0'.toNat) := by
    intro c hc
    simp only [Char.isDigit, Bool.and_eq_true, decide_eq_true_eq] at hc
    have hrange : '0' ≤ c ∧ c ≤ '9' := hc
    have hvalue : c.toNat ≤ 57 := UInt32.le_iff_toNat_le.mp hc.2
    rw [digit?, hexDigit?, if_pos hrange, Option.filter_some, if_pos]
    have : '0'.toNat = 48 := rfl
    rw [decide_eq_true_eq]
    omega
  -- the value is that of the digits read so far, ten times, and the next digit
  have hfold : ∀ value, digits.foldlM (fun value c => (digit? 10 c).map (value * 10 + ·)) value =
      some (digits.foldl (fun value digit => value * 10 + (digit.toNat - '0'.toNat)) value) := by
    clear hne
    induction digits with
    | nil => exact fun _ => rfl
    | cons c digits ih =>
        intro value
        obtain ⟨hc, hdigits⟩ := List.forall_mem_cons.mp h
        rw [List.foldlM_cons, hdigit c hc]
        exact ih hdigits _
  rw [numeral?, if_neg (by simpa using hne), hfold, digitsValue]

theorem ne_of_mem_toDigits {c mark : Char} (hc : c ∈ Nat.toDigits 10 value)
    (hmark : mark.isDigit = false) : c ≠ mark := by
  rintro rfl
  rw [isDigit_of_mem_digits hc] at hmark
  cases hmark

/-- A number has no leading zeros. -/
theorem isPadded_toDigits : isPadded (Nat.toDigits 10 value) = false := by
  have hsign : dropSign (Nat.toDigits 10 value) = Nat.toDigits 10 value := by
    cases hdigits : Nat.toDigits 10 value with
    | nil => rfl
    | cons c rest =>
        have hc : c ∈ Nat.toDigits 10 value := hdigits ▸ List.mem_cons_self
        exact dropSign.eq_3 _ (fun _ h => ne_of_mem_toDigits hc rfl (List.cons.inj h).1)
          fun _ h => ne_of_mem_toDigits hc rfl (List.cons.inj h).1
  rw [isPadded, hsign]
  split
  · rename_i rest hdigits
    -- only zero itself starts with a zero, and it has no further digits
    have hvalue : value = 0 := eq_zero_of_head?_toDigits (by rw [hdigits]; rfl)
    subst hvalue
    obtain rfl : [] = rest := (List.cons.inj hdigits).2
    rfl
  · rfl

/-- The digits of a number are a whole number. -/
theorem integer?_toDigits : integer? (Nat.toDigits 10 value) = some (value : Int) := by
  have hradix : radixed? (Nat.toDigits 10 value) = none := by
    unfold radixed?
    split
    case h_4 => rfl
    all_goals
      rename_i digits hdigits
      have hmark := hdigits ▸ List.mem_cons_of_mem _ List.mem_cons_self
      exact absurd rfl (ne_of_mem_toDigits hmark rfl)
  have hunsigned : unsigned? (Nat.toDigits 10 value) = some value := by
    rw [unsigned?, hradix, isPadded_toDigits, Option.none_or, if_neg Bool.false_ne_true,
      numeral?_of_isDigit Nat.toDigits_ne_nil fun _ => isDigit_of_mem_digits, digitsValue_toDigits]
  unfold integer?
  split
  case h_3 =>
    rw [hunsigned]
    rfl
  all_goals
    rename_i rest hdigits
    exact absurd rfl (ne_of_mem_toDigits (hdigits ▸ List.mem_cons_self) rfl)

/-- A word with a letter or a mark is not the numeral of a number. -/
theorem ofList_toDigits_ne {word : String} (h : word.toList.any (!·.isDigit) = true) :
    String.ofList (Nat.toDigits 10 value) ≠ word := by
  rintro rfl
  obtain ⟨c, hc, hmark⟩ := List.any_eq_true.mp h
  rw [String.toList_ofList] at hc
  exact ne_of_mem_toDigits hc (by simpa using hmark) rfl

/-- The numeral of a number that fits into 64 bits means this number. -/
theorem ofText_toString (h : value < UInt64.size) :
    ofText (toString value) = .integer value := by
  have hcharacters : (toString value).toList = Nat.toDigits 10 value := Nat.toList_repr
  have hnull : isNull (Nat.toDigits 10 value) = false := by
    have hne := fun word => @ofList_toDigits_ne value word
    simp [isNull, hne]
  have hbool : bool? (Nat.toDigits 10 value) = none := by
    unfold bool?
    split
    case h_7 => rfl
    all_goals exact absurd ‹_› (ofList_toDigits_ne (by decide))
  have hinteger : ofInteger? (Nat.toDigits 10 value) = some (.integer value) := by
    rw [ofInteger?, integer?_toDigits]
    have hsize : UInt64.size = Nat.pow 2 64 := rfl
    have hsign : ¬ (value : Int) < 0 := by omega
    simp only [hsign, if_false, Int.natAbs_natCast]
    rw [if_pos (hsize ▸ h)]
  have hempty : (Nat.toDigits 10 value).isEmpty = false := by
    simp
  simp only [ofText, hcharacters, hnull, hbool, hinteger, hempty, Bool.or_self, Bool.false_eq_true,
    if_false]

end Scalar

/-! ## Values -/

namespace Value

/-- A reader of values that gives one and follows no alias. -/
def Gives {α : Type} (read : ReadValue α) (value : α) : Prop :=
  ∀ left, read.run left = some (value, left)

namespace Gives

variable {α β : Type} {read : ReadValue α} {value : α}

theorem pure (value : α) : Gives (Pure.pure value) value :=
  fun _ => rfl

theorem bind {next : α → ReadValue β} {result : β} (h : Gives read value)
    (hnext : Gives (next value) result) : Gives (read >>= next) result := by
  intro left
  rw [StateT.run_bind, h left]
  exact hnext left

theorem map (f : α → β) (h : Gives read value) : Gives (f <$> read) (f value) := by
  rw [map_eq_pure_bind]
  exact h.bind (pure _)

theorem mapM {γ : Type} {read : γ → ReadValue α} {node : β → γ} {value : β → α} {items : List β}
    (h : ∀ item ∈ items, Gives (read (node item)) (value item)) :
    Gives ((items.map node).mapM read) (items.map value) := by
  induction items with
  | nil => exact pure _
  | cons item items ih =>
      obtain ⟨hitem, hitems⟩ := List.forall_mem_cons.mp h
      rw [List.map_cons, List.mapM_cons]
      exact hitem.bind ((ih hitems).bind (pure _))

end Gives

variable {anchored : List (Nat × Node)} {depth : Nat}

/-! ## Nodes -/

theorem ofNode_scalar (tag : Option Tag) (plain : Bool) (text : String) :
    ofNode anchored depth (.scalar tag plain text) = StateT.lift (ofScalar plain text tag) := by
  cases depth <;> rfl

theorem ofNode_sequence (tag : Option Tag) (items : List Node) :
    ofNode anchored (depth + 1) (.sequence tag items) =
      (withTag tag ∘ .sequence) <$> items.mapM (ofNode anchored depth) :=
  rfl

theorem ofNode_mapping (tag : Option Tag) (entries : List (Node × Node)) :
    ofNode anchored (depth + 1) (.mapping tag entries) =
      (withTag tag ∘ .mapping) <$> readEntries (ofNode anchored depth) [] entries :=
  rfl

theorem gives_scalar {plain : Bool} {text : String} {value : Value}
    (h : ofUntagged plain text = some value) :
    Gives (ofNode anchored depth (.scalar none plain text)) value := by
  intro left
  rw [ofNode_scalar, StateT.run_lift, ofScalar, h]
  rfl

/-- A text that is written as it is means nothing else. -/
theorem gives_item (text : String) :
    Gives (ofNode anchored depth (ReadNode.itemNode text)) (.string text) := by
  refine gives_scalar ?_
  by_cases hstyle : TextStyle.ofText text.toList = .plain
  · -- the style was chosen because the text has no other meaning
    obtain ⟨hambiguous, -⟩ := ofText_plain hstyle
    have hmeaning : Scalar.ofText text = .string := by
      have hfirst := (Bool.or_eq_false_iff.mp hambiguous).1
      simpa using hfirst
    rw [decide_eq_true hstyle, ofUntagged, if_pos rfl, ofPlain, hmeaning]
  · rw [decide_eq_false hstyle]
    rfl

/-- What a content means: a word has the meaning of a plain scalar, and the entries of a
sequence are texts. -/
inductive Means : Content → Value → Prop where
  | word {text : String} {value : Value} (h : ofPlain text = some value) :
      Means (.word text) value
  | sequence (items : List String) : Means (.sequence items) (.sequence (items.map .string))

theorem gives_content {content : Content} {value : Value} (h : Means content value) :
    Gives (ofNode anchored (depth + 1) (ReadNode.contentNode content)) value := by
  cases h with
  | word h => exact gives_scalar h
  | sequence items =>
      rw [ReadNode.contentNode, ofNode_sequence]
      exact .map _ (.mapM fun text _ => gives_item text)

/-! ## Mappings -/

/-- A key and its value are read as an entry. -/
structure GivesEntry (read : Node → ReadValue Value) (node : Node × Node) (entry : Value × Value) :
    Prop where
  key : Gives (read node.1) entry.1
  value : Gives (read node.2) entry.2

/-- The keys of two entries are not the same. -/
def Differ (first second : Value × Value) : Prop :=
  first.1.same second.1 = false

/-- Entries with different keys after some others. -/
theorem gives_entries {read : Node → ReadValue Value} (before : List (Value × Value))
    {entries : List (Value × Value)} {nodes : List (Node × Node)}
    (hread : List.Forall₂ (GivesEntry read) nodes entries)
    (hdiffer : (before ++ entries).Pairwise Differ) :
    Gives (readEntries read before.reverse nodes) (before ++ entries) := by
  induction hread generalizing before with
  | nil => simpa [readEntries] using Gives.pure _
  | @cons node entry nodes entries hentry _ ih =>
      -- the key is none of those that have been read
      have hnew : before.reverse.any (·.1.same entry.1) = false := by
        rw [List.any_reverse, List.any_eq_false]
        intro other hother
        have hother := (List.pairwise_append.mp hdiffer).2.2 other hother entry List.mem_cons_self
        simpa [Differ] using hother
      have hmore := ih (before ++ [entry]) (by simpa using hdiffer)
      rw [readEntries]
      refine hentry.key.bind ?_
      rw [hnew, if_neg Bool.false_ne_true]
      exact hentry.value.bind (by simpa using hmore)

/-- A mapping whose keys are texts. -/
def ofFields (fields : List (String × Value)) : Value :=
  .mapping (fields.map fun field => (.string field.1, field.2))

/-- What an entry means. -/
structure EntryMeans (entry : String × Content) (field : String × Value) : Prop where
  key : entry.1 = field.1
  text : Scalar.ofText entry.1 = .string
  content : Means entry.2 field.2

theorem gives_key {key : String} (h : Scalar.ofText key = .string) :
    Gives (ofNode anchored depth (.scalar none true key)) (.string key) :=
  gives_scalar (by rw [ofUntagged, if_pos rfl, ofPlain, h])

/-- The entry of a field is read. -/
def GivesField (read : Node → ReadValue Value) (node : Node × Node) (field : String × Value) :
    Prop :=
  GivesEntry read node (.string field.1, field.2)

theorem givesField_entryNode {entry : String × Content} {field : String × Value}
    (h : EntryMeans entry field) :
    GivesField (ofNode anchored (depth + 1)) (ReadNode.entryNode entry) field :=
  ⟨h.key ▸ gives_key h.text, gives_content h.content⟩

/-- Fields with different names are read as a mapping. -/
theorem gives_fields {nodes : List (Node × Node)} {fields : List (String × Value)}
    (hread : List.Forall₂ (GivesField (ofNode anchored depth)) nodes fields)
    (hnames : (fields.map (·.1)).Nodup) :
    Gives (ofNode anchored (depth + 1) (.mapping none nodes)) (ofFields fields) := by
  have hdiffer : (fields.map fun field => (Value.string field.1, field.2)).Pairwise Differ := by
    rw [List.pairwise_map]
    refine (List.pairwise_map.mp hnames).imp fun hne => ?_
    simpa [Differ, same] using hne
  rw [ofNode_mapping]
  exact .map _ (gives_entries [] (List.forall₂_map_right_iff.mpr hread) hdiffer)

/-- A document says what its entries mean. -/
theorem gives_document {before entries : List (String × Content)}
    {outer inner : List (String × Value)} {key : String}
    (hbefore : List.Forall₂ EntryMeans before outer)
    (hentries : List.Forall₂ EntryMeans entries inner) (hkey : Scalar.ofText key = .string)
    (hnames : (outer.map (·.1) ++ [key]).Nodup) (hinner : (inner.map (·.1)).Nodup) :
    Gives (ofNode anchored (depth + 3) (ReadNode.documentNode before key entries))
      (ofFields (outer ++ [(key, ofFields inner)])) := by
  have hread : ∀ depth entries fields, List.Forall₂ EntryMeans entries fields →
      List.Forall₂ (GivesField (ofNode anchored (depth + 1))) (entries.map ReadNode.entryNode)
        fields := fun _ _ _ h =>
    List.forall₂_map_left_iff.mpr (h.imp fun _ _ => givesField_entryNode)
  have hnested := gives_fields (hread depth _ _ hentries) hinner
  exact gives_fields (List.rel_append (hread (depth + 1) _ _ hbefore)
    (.cons ⟨gives_key hkey, hnested⟩ .nil)) (by simpa using hnames)

/-- The tokens of a document make up a document that says what its entries mean. -/
theorem ofDocument_documentTokens {before entries : List (String × Content)}
    {outer inner : List (String × Value)} {key : String}
    (hbefore : List.Forall₂ EntryMeans before outer)
    (hentries : List.Forall₂ EntryMeans entries inner) (hkey : Scalar.ofText key = .string)
    (hnames : (outer.map (·.1) ++ [key]).Nodup) (hinner : (inner.map (·.1)).Nodup) :
    (Document.ofTokens (documentTokens before key entries)).bind ofDocument =
      some (ofFields (outer ++ [(key, ofFields inner)])) := by
  obtain ⟨document, hdocument, hroot⟩ := ofTokens_documentTokens before key entries
  -- a sequence in a mapping in a mapping is far from the limit on depth
  have hgives := @gives_document document.anchored 125 _ _ _ _ _ hbefore hentries hkey hnames hinner
  rw [hdocument, Option.bind_some, ofDocument, StateT.run'_eq, hroot, maxDepth, hgives]
  rfl

/-! ## Fields -/

theorem lookup_of_mem {fields : List (String × Value)} (hnames : (fields.map (·.1)).Nodup)
    {field : String × Value} (h : field ∈ fields) : fields.lookup field.1 = some field.2 := by
  induction fields with
  | nil => cases h
  | cons other fields ih =>
      obtain ⟨hnew, hrest⟩ := List.nodup_cons.mp hnames
      rcases List.mem_cons.mp h with rfl | h
      · rw [List.lookup_cons, BEq.rfl]
      · have hne : (field.1 == other.1) = false := by
          rw [beq_eq_false_iff_ne]
          intro heq
          exact hnew (List.mem_map.mpr ⟨field, h, heq⟩)
        rw [List.lookup_cons, hne]
        exact ih hrest h

theorem get?_ofFields (fields : List (String × Value)) (name : String) :
    (ofFields fields).get? name = fields.lookup name := by
  have hmapping : (ofFields fields).mapping?.getD [] =
      fields.map fun field => (.string field.1, field.2) := rfl
  rw [get?, hmapping]
  induction fields with
  | nil => rfl
  | cons field fields ih =>
      rw [List.map_cons, List.findSome?_cons, List.lookup_cons, ← ih rfl]
      have hsame : (Value.string field.1).same (.string name) = decide (field.1 = name) := by
        rw [same]
      have hfirst : (if (Value.string field.1).same (.string name) = true then some field.2
          else none) = if name = field.1 then some field.2 else none := by
        rw [hsame]
        simp [eq_comm]
      simp only [hfirst]
      by_cases hname : name = field.1
      · simp [hname]
      · simp [hname, beq_false_of_ne hname]

/-- A mapping has all the fields that it is made of. -/
theorem fields?_ofFields {fields : List (String × Value)} (hnames : (fields.map (·.1)).Nodup) :
    (ofFields fields).fields? (fields.map (·.1)) = some (fields.map (some ·.2)) := by
  -- the fields are written in order, and each has a string for its name
  have hnamed : ∀ fields : List (String × Value),
      (fields.map fun field => (Value.string field.1, field.2)).mapM
        (fun entry => (entry.1.string?).map (·, entry.2)) = some fields := by
    intro fields
    induction fields with
    | nil => rfl
    | cons field fields ih =>
        rw [List.map_cons, List.mapM_cons, ih]
        rfl
  -- every field is one of those asked for, and none is there twice
  have hknown : (fields.all fun field => (fields.map (·.1)).contains field.1) = true := by
    rw [List.all_eq_true]
    intro field hfield
    simpa using ⟨field.2, hfield⟩
  have hlookup : (fields.map (·.1)).map (fun name => fields.lookup name) =
      fields.map (some ·.2) := by
    rw [List.map_map]
    exact List.map_congr_left fun field hfield => lookup_of_mem hnames hfield
  have huntagged : (ofFields fields).untagged = ofFields fields := rfl
  rw [fields?, huntagged, ofFields]
  simp only [hnamed, Option.bind_eq_bind, Option.bind_some, hknown, hnames, decide_true,
    Bool.and_self, if_true, hlookup, Option.pure_def]

end Value

end DalvikHorn.Yaml
