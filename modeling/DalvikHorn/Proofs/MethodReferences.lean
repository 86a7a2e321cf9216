import DalvikHorn.Proofs.CallHandlers
import DalvikHorn.Proofs.Frames

/-!
# What calls know about their targets

A call finds the method that it names by the hash of a signature, and it takes
from the signature whether a result comes back.  When signatures do not collide,
both sides of a call agree on that: a method whose signature returns nothing is
never the target of a call that waits for a result (`not_awaits_of_returnsVoid`).
-/

namespace DalvikHorn

/-! ## The text of a signature -/

/-- A list of descriptors that starts with a given one goes on with descriptors. -/
theorem exists_cons_of_map_eq_ok {outcome : Except ParameterFault (List String)} {first : String}
    {descriptors : List String} (h : outcome.map (first :: ·) = .ok descriptors) :
    ∃ others, outcome = .ok others ∧ descriptors = first :: others := by
  cases outcome with
  | error fault => cases h
  | ok others =>
      cases h
      exact ⟨others, rfl, rfl⟩

/-- A descriptor that ends with a character makes up its text, and the others the rest. -/
theorem flatMap_of_closed {pending rest : List Char} {c : Char} {descriptors : List String}
    (hrest : ∀ {others}, splitDescriptors [] false rest = .ok others →
      others.flatMap String.toList = rest)
    (h : (splitDescriptors [] false rest).map (String.ofList (c :: pending).reverse :: ·) =
      .ok descriptors) :
    descriptors.flatMap String.toList = pending.reverse ++ c :: rest := by
  obtain ⟨others, hothers, rfl⟩ := exists_cons_of_map_eq_ok h
  rw [List.flatMap_cons, hrest hothers]
  simp

/-- The descriptors of a parameter list make up its text. -/
theorem flatMap_of_splitDescriptors {pending : List Char} {inClass : Bool} {text : List Char}
    {descriptors : List String} (h : splitDescriptors pending inClass text = .ok descriptors) :
    descriptors.flatMap String.toList = pending.reverse ++ text := by
  induction text generalizing pending inClass descriptors with
  | nil =>
      rw [splitDescriptors] at h
      split at h
      · cases h
      · split at h
        · rename_i hempty
          cases h
          simpa using hempty
        · cases h
  | cons c rest ih =>
      rw [splitDescriptors] at h
      -- Either a descriptor ends here, or the character joins the one at hand.
      split at h
      · split at h
        · exact flatMap_of_closed ih h
        · simpa using ih h
      · split at h
        · simpa using ih h
        · split at h
          · simpa using ih h
          · split at h
            · exact flatMap_of_closed ih h
            · cases h

/-- The descriptors of a parameter list, joined, give the list back. -/
theorem toList_join_of_splitParameters {text : String} {descriptors : List String}
    (h : splitParameters text = .ok descriptors) :
    (String.join descriptors).toList = text.toList := by
  unfold splitParameters at h
  split at h
  · rename_i found hfound
    cases h
    rw [String.toList_join, flatMap_of_splitDescriptors hfound]
    rfl
  · cases h
  · cases h

/-- A name ends before the character that it is read up to. -/
theorem ne_of_mem_scanName? {stop : Char} {text name rest : List Char}
    (h : scanName? stop text = some (name, rest)) : ∀ c ∈ name, c ≠ stop := by
  unfold scanName? at h
  dsimp only at h
  split at h
  · split at h
    · cases h
      intro c hc hstop
      have hname := List.all_eq_true.mp List.all_takeWhile c hc
      simp [hstop] at hname
    · cases h
  · cases h

namespace MethodRef

/-- The signature of a reference is a name, a parameter list and a return type, with the first
opening parenthesis behind the name and the first closing one after it behind the
parameters. -/
theorem toList_signature_of_parse {text : String} {method : MethodRef}
    (h : parse text = .ok method) :
    ∃ name parameters : List Char, (∀ c ∈ name, c ≠ '(') ∧ (∀ c ∈ parameters, c ≠ ')') ∧
      method.signature.toList = name ++ '(' :: (parameters ++ ')' :: method.returnType.toList) := by
  unfold parse at h
  split at h
  · cases h
  · rename_i owner name parameters returnType hparts
    simp only [parts?, Option.bind_eq_bind, Option.bind_eq_some_iff, Option.pure_def,
      Option.some.injEq, Prod.mk.injEq, Prod.exists] at hparts
    obtain ⟨_, _, -, _, -, _, rest, hname, _, -, -, rfl, rfl, rfl⟩ := hparts
    refine ⟨_, rest.takeWhile (· != ')'), ne_of_mem_scanName? hname, fun c hc => ?_, ?_⟩
    · simpa using List.all_eq_true.mp List.all_takeWhile c hc
    · cases hsplit : splitParameters (String.ofList (rest.takeWhile (· != ')'))) with
      | error fault =>
          rw [hsplit] at h
          cases h
      | ok descriptors =>
          rw [hsplit] at h
          cases h
          have hjoin := toList_join_of_splitParameters hsplit
          rw [String.toList_ofList] at hjoin
          simp [signature, hjoin]

end MethodRef

/-! ## Void methods -/

/-- What follows the parameter list of a signature, with its closing parenthesis. -/
def Method.behindParameters (method : Method) : List Char :=
  (method.name.toList.dropWhile (· != '(')).dropWhile (· != ')')

/-- The signature of a method returns nothing: `V` is all that follows its parameter list.  A
name without a parameter list returns nothing either. -/
def Method.ReturnsVoid (method : Method) : Prop :=
  method.behindParameters = [] ∨ method.behindParameters = [')', 'V']

instance (method : Method) : Decidable method.ReturnsVoid :=
  inferInstanceAs (Decidable (_ ∨ _))

/-- References to a void method return nothing. -/
theorem Method.ReturnsVoid.returnType_eq {method : Method} (h : method.ReturnsVoid) {text : String}
    {target : MethodRef} (htarget : MethodRef.parse text = .ok target)
    (hname : target.signature = method.name) : target.returnType = "V" := by
  obtain ⟨name, parameters, hopening, hclosing, hsignature⟩ :=
    MethodRef.toList_signature_of_parse htarget
  have hbehind : method.behindParameters = ')' :: target.returnType.toList := by
    rw [behindParameters, ← hname, hsignature,
      List.dropWhile_append_of_pos (by simpa using hopening), List.dropWhile_cons_of_neg (by simp),
      ← List.cons_append, List.dropWhile_append_of_pos, List.dropWhile_cons_of_neg (by simp)]
    rintro c hc
    rcases List.mem_cons.mp hc with rfl | hc
    · rfl
    · simpa using hclosing c hc
  rcases h with h | h
  · rw [hbehind] at h
    cases h
  · rw [hbehind, List.cons.injEq] at h
    rw [← String.toList_inj, h.2]
    rfl

namespace Program

variable (program : Program)

/-- Methods that return without a value have a signature that says so. -/
def VoidReturns : Prop :=
  ∀ entry ∈ program.methods, ∀ instruction ∈ entry.2.instructions,
    instruction.opcode = .returnVoid → entry.2.ReturnsVoid

instance : Decidable program.VoidReturns :=
  inferInstanceAs (Decidable (∀ entry ∈ program.methods, ∀ instruction ∈ entry.2.instructions,
    instruction.opcode = .returnVoid → entry.2.ReturnsVoid))

end Program

/-! ## Signatures that occur in a program -/

/-- The call that an instruction makes, if it makes one. -/
def Instruction.call? (instruction : Instruction) : Option CallSite :=
  match instruction.opcode with
  | .invoke kind _ => (CallSite.ofInstruction instruction kind).toOption
  | _ => none

theorem Instruction.call?_eq_some_iff {instruction : Instruction} {call : CallSite} :
    instruction.call? = some call ↔ instruction.Calls call := by
  unfold call?
  constructor
  · intro h
    split at h
    · rename_i kind range hopcode
      cases hsite : CallSite.ofInstruction instruction kind with
      | error fault =>
          rw [hsite] at h
          cases h
      | ok found =>
          rw [hsite] at h
          cases h
          exact ⟨kind, range, hopcode, hsite⟩
    · cases h
  · rintro ⟨kind, range, hopcode, hsite⟩
    rw [hopcode]
    dsimp only
    rw [hsite]
    rfl

namespace Program

variable (program : Program)

/-- The calls of a program. -/
def calls : List CallSite :=
  program.methods.flatMap fun entry => entry.2.instructions.filterMap Instruction.call?

/-- The signatures that a program declares or calls. -/
def signatures : List String :=
  program.methods.map (·.2.name) ++ program.calls.map (·.target.signature)

/-- Different signatures of a program have different hashes. -/
def SignaturesDiffer : Prop :=
  ∀ first ∈ program.signatures, ∀ second ∈ program.signatures,
    textHash first = textHash second → first = second

instance : Decidable program.SignaturesDiffer :=
  inferInstanceAs (Decidable (∀ first ∈ program.signatures, ∀ second ∈ program.signatures,
    textHash first = textHash second → first = second))

/-- Some call of the program names the method and waits for its result. -/
def Awaits (method : MethodId) : Prop :=
  ∃ call ∈ program.calls, call.methodId = method ∧ call.returnKind.returnsValue

variable {program}

theorem mem_calls {owner : Class} {method : Method} {instruction : Instruction} {call : CallSite}
    (hmem : (owner, method) ∈ program.methods) (hinstruction : instruction ∈ method.instructions)
    (hcall : instruction.Calls call) : call ∈ program.calls :=
  List.mem_flatMap.mpr ⟨_, hmem, List.mem_filterMap.mpr
    ⟨instruction, hinstruction, Instruction.call?_eq_some_iff.mpr hcall⟩⟩

/-- What a call of a program names has been read from a reference. -/
theorem exists_parse_of_mem_calls {call : CallSite} (h : call ∈ program.calls) :
    ∃ text, MethodRef.parse text = .ok call.target := by
  obtain ⟨entry, -, h⟩ := List.mem_flatMap.mp h
  obtain ⟨instruction, -, h⟩ := List.mem_filterMap.mp h
  obtain ⟨kind, -, -, hsite⟩ := Instruction.call?_eq_some_iff.mp h
  obtain ⟨-, text, -, htext⟩ := (CallSite.ofInstruction_yields _ _).result call hsite
  exact ⟨text, htext⟩

/-- No call waits for the result of a void method. -/
theorem not_awaits_of_returnsVoid (hsignatures : program.SignaturesDiffer) {owner : Class}
    {method : Method} (hmem : (owner, method) ∈ program.methods) (hvoid : method.ReturnsVoid) :
    ¬ program.Awaits method.id := by
  rintro ⟨call, hcall, hid, hreturns⟩
  obtain ⟨text, htext⟩ := exists_parse_of_mem_calls hcall
  have hname : call.target.signature = method.name :=
    hsignatures _ (List.mem_append_right _ (List.mem_map_of_mem hcall)) _
      (List.mem_append_left _ (List.mem_map_of_mem hmem)) hid
  have hreturn := hvoid.returnType_eq htext hname
  rw [CallSite.returnKind, MethodRef.returnKind, hreturn] at hreturns
  cases hreturns

/-- The targets of a call have the signature that the call names. -/
theorem method_of_mem_targets {labels : Labels} {call : CallSite} {target : CallTarget}
    (h : target ∈ call.targets (program.oracle labels)) : target.method = call.methodId := by
  obtain ⟨found, hfound, implementation, hmem, rfl⟩ | ⟨found, hfound, definition, hmem, rfl⟩ :=
    CallSite.mem_targets_cases h
  · exact (ClassTable.of_mem_resolveVirtual hfound hmem).1
  · obtain ⟨⟨owner, shape⟩, -, rfl⟩ := Option.map_eq_some_iff.mp hfound
    rw [List.mem_singleton.mp hmem]

end Program

end DalvikHorn
