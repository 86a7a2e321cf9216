import DalvikHorn.Proofs.Lifting
import Mathlib.Data.List.InsertIdx

/-!
# Local objects that escape

A reference to the local heap escapes when it is stored into an array, into a static
field or into an object on the global heap, and when an unknown method gets it.  Then
the whole local heap moves: the instruction goes on in a state without local
references and with an empty local heap, and the contents of every occupied site are
facts of the global heap.

## Strategy

The five instructions (`EscapeTrigger`) build their lift under different guards and
change the lifted state in different ways.  Each of them is shown to lift
(`StepContext.LiftsTo`) in every state in which it fires; what a lift derives is known
from `Proofs/Lifting.lean`.  Labels may be raised after the lift, for the same register
more than once, so that change is described as a whole (`StateValue.Raises`).
-/

namespace DalvikHorn

/-! ## Flags and labels of states -/

namespace StateValue

/-- Whether a register has a flag. -/
def flagged (flag : CellValue → Bool) (state : StateValue) (r : Nat) : Bool :=
  state.registers[r]?.any flag

/-- A state differs from another one only in labels that have been raised. -/
structure Raises (raised : Nat → Bool) (state after : StateValue) : Prop where
  registers : ∀ r, after.registers[r]? =
    state.registers[r]?.map fun (cell : CellValue) =>
      { cell with high := cell.high || raised r }
  heap : after.heap = state.heap

variable {raised more : Nat → Bool} {state middle after : StateValue}

theorem raises_refl : state.Raises (fun _ => false) state where
  registers := fun r => by simp
  heap := rfl

theorem raises_raise (state : StateValue) (r : Nat) (flag : Bool) :
    state.Raises (fun slot => decide (r = slot) && flag) (state.raise r flag) where
  registers := by
    intro slot
    rw [raise, List.getElem?_modify]
    by_cases hr : r = slot
    · simp [hr]
    · simp [hr]
  heap := rfl

theorem Raises.trans (h : state.Raises raised middle) (hmore : middle.Raises more after) :
    state.Raises (fun r => raised r || more r) after where
  registers := by
    intro r
    rw [hmore.registers, h.registers, Option.map_map]
    simp only [Function.comp_def, Bool.or_assoc]
  heap := hmore.heap.trans h.heap

theorem Raises.length_eq (h : state.Raises raised after) :
    after.registers.length = state.registers.length := by
  have hiff : ∀ r, after.registers.length ≤ r ↔ state.registers.length ≤ r := by
    intro r
    rw [← List.getElem?_eq_none_iff, ← List.getElem?_eq_none_iff, h.registers,
      Option.map_eq_none_iff]
  exact Nat.le_antisymm ((hiff _).mpr (Nat.le_refl _)) ((hiff _).mp (Nat.le_refl _))

/-- A raised label leaves the other flags alone. -/
theorem Raises.flagged_isGlobal (h : state.Raises raised after) (r : Nat) :
    after.flagged (·.isGlobal) r = state.flagged (·.isGlobal) r := by
  rw [flagged, flagged, h.registers]
  cases state.registers[r]? <;> rfl

/-- All references of an escaped state are global. -/
theorem flagged_escaped (state : StateValue) {numRegisters r : Nat} (hr : r ≤ numRegisters) :
    (state.escaped numRegisters).flagged (·.isGlobal) r =
      state.flagged (fun cell => cell.isGlobal || cell.isLocal) r := by
  rw [flagged, flagged, getElem?_escaped]
  cases state.registers[r]? with
  | none => rfl
  | some cell => simp [Nat.lt_succ_of_le hr]

/-- A state with a result in a slot, if there is a result. -/
def returning (slot : Nat) (result : Option CellValue) (state : StateValue) : StateValue :=
  match result with
  | some cell => { state with registers := state.registers.set slot cell }
  | none => state

end StateValue

/-- A disjunction of formulas with values has one. -/
theorem Formula.eval_any_map {α : Type} {env : Valuation} {formula : α → Formula}
    {holds : α → Bool} {items : List α}
    (h : ∀ item ∈ items, (formula item).eval env = some (holds item)) :
    (Formula.any (items.map formula)).eval env = some (items.any holds) := by
  rw [eval_any]
  induction items with
  | nil => rfl
  | cons item rest ih =>
      rw [List.map_cons, evalAny, h item List.mem_cons_self,
        ih fun other hother => h other (List.mem_cons_of_mem _ hother), List.any_cons]
      cases holds item <;> rfl

/-! ## Triggers -/

/-- An instruction that can let the local heap escape, with the registers that it names. -/
inductive EscapeTrigger where
  | arrayPut (source array index : UInt32)
  | instancePut (source object : UInt32)
  | staticPut (source : UInt32)
  | filledNewArray (elements : List UInt32)
  | unknownCall (call : CallSite)

namespace EscapeTrigger

/-- The instruction of a context has the operands of a trigger. -/
def Matches (cx : StepContext) : EscapeTrigger → Prop
  | .arrayPut source array index =>
      cx.instruction.opcode = .arrayPut ∧ cx.instruction.registers[0]? = some source ∧
        cx.instruction.registers[1]? = some array ∧ cx.instruction.registers[2]? = some index
  | .instancePut source object =>
      cx.instruction.opcode = .instancePut ∧ cx.instruction.registers[0]? = some source ∧
        cx.instruction.registers[1]? = some object ∧ ∃ field, cx.fieldReference = .ok field
  | .staticPut source =>
      cx.instruction.opcode = .staticPut ∧ cx.instruction.registers[0]? = some source ∧
        ∃ field, cx.fieldReference = .ok field
  | .filledNewArray elements =>
      (∃ range, cx.instruction.opcode = .filledNewArray range) ∧
        cx.instruction.argumentRegisters = elements ∧
        ∃ reference, cx.instruction.reference = some reference
  | .unknownCall call =>
      cx.instruction.Calls call ∧
        call.linkage cx.oracle cx.env.config.intentSummaries = .unknown

/-- A trigger stores a local reference where it escapes. -/
def Fires (before : StateValue) : EscapeTrigger → Prop
  | .arrayPut source _ _ => before.flagged (·.isLocal) source.toNat
  | .instancePut source object =>
      before.flagged (·.isLocal) source.toNat ∧ before.flagged (·.isGlobal) object.toNat
  | .staticPut source => before.flagged (·.isLocal) source.toNat
  | .filledNewArray elements => ∃ r ∈ elements, before.flagged (·.isLocal) r.toNat
  | .unknownCall call => ∃ r ∈ call.arguments, before.flagged (·.isLocal) r.toNat

/-- Whether a trigger raises the label of a register: that of an array or object to the one of
what is stored, and that of an argument that is a reference to those of the others. -/
def raises (before : StateValue) (r : Nat) : EscapeTrigger → Bool
  | .arrayPut source array _ => decide (array.toNat = r) && before.flagged (·.high) source.toNat
  | .instancePut source object =>
      decide (object.toNat = r) && before.flagged (·.high) source.toNat
  | .staticPut _ => false
  | .filledNewArray _ => false
  | .unknownCall call =>
      call.arguments.zipIdx.any fun (argument, i) =>
        decide (argument.toNat = r) &&
          (before.flagged (fun cell => cell.isGlobal || cell.isLocal) r &&
            (call.arguments.eraseIdx i).any fun other => before.flagged (·.high) other.toNat)

/-- Whether a trigger leaves a result in the return slot. -/
def returnsResult : EscapeTrigger → Bool
  | .filledNewArray _ => true
  | .unknownCall call => call.returnKind ≠ .void
  | _ => false

/-- The state that a trigger goes on with: no register refers to the local heap any more, and
the local heap is empty. -/
structure Leaves (cx : StepContext) (trigger : EscapeTrigger) (before after : StateValue) :
    Prop where
  registers : ∀ r old, before.registers[r]? = some old → r ≤ cx.shape.numRegisters →
    ∃ new, after.registers[r]? = some new ∧ new.isLocal = false ∧
      (trigger.returnsResult = false ∨ r ≠ cx.shape.returnSlot →
        new = ⟨old.value, old.high || trigger.raises before r, false,
          old.isGlobal || old.isLocal⟩)
  heap : after.heap = List.replicate cx.layout.size ⟨⟨0, false, false, false⟩, true⟩

variable {cx : StepContext} {trigger : EscapeTrigger} {before shared : StateValue}

theorem leaves_of_raises (hheap : before.heap.length = cx.layout.size) {raised : Nat → Bool}
    (h : (before.escaped cx.shape.numRegisters).Raises raised shared)
    (hraised : ∀ r ≤ cx.shape.numRegisters, raised r = trigger.raises before r)
    (result : Option CellValue) (hresult : ∀ cell ∈ result, cell.isLocal = false)
    (hreturns : result.isSome = trigger.returnsResult) :
    trigger.Leaves cx before (shared.returning cx.shape.returnSlot result) where
  registers := by
    intro r old hold hr
    have hshared : shared.registers[r]? = some ⟨old.value, old.high || trigger.raises before r,
        false, old.isGlobal || old.isLocal⟩ := by
      rw [h.registers, StateValue.getElem?_escaped, hold, hraised r hr]
      simp [Nat.lt_succ_of_le hr]
    cases result with
    | none => exact ⟨_, hshared, rfl, fun _ => rfl⟩
    | some cell =>
        rw [StateValue.returning]
        dsimp only
        -- the return slot is one of the registers that are freed of local references
        by_cases hreturn : cx.shape.returnSlot = r
        · obtain ⟨hlt, -⟩ := List.getElem?_eq_some_iff.mp hshared
          refine ⟨cell, ?_, hresult cell rfl, ?_⟩
          · rw [hreturn, List.getElem?_set_self hlt]
          · rintro (hnone | hother)
            · rw [← hreturns] at hnone
              cases hnone
            · exact absurd hreturn.symm hother
        · refine ⟨_, ?_, rfl, fun _ => rfl⟩
          rw [List.getElem?_set_ne hreturn, hshared]
  heap := by
    have hshared :
        shared.heap = List.replicate cx.layout.size ⟨⟨0, false, false, false⟩, true⟩ := by
      rw [h.heap, StateValue.escaped, ← hheap]
      exact List.map_const'
    cases result with
    | none => exact hshared
    | some cell => exact hshared

end EscapeTrigger

/-! ## Reading a state -/

namespace StepContext

variable {cx : StepContext} {before : StateValue}

/-- The flags of a canonical register are those of the state. -/
theorem eval_flags_of_denotes {env : Valuation} (hstate : cx.pre.Denotes env before) {r : Nat}
    (hr : r < cx.shape.slotCount) :
    (Cell.register r cx.width).high.eval env = some (before.flagged (·.high) r) ∧
      (Cell.register r cx.width).isLocal.eval env = some (before.flagged (·.isLocal) r) ∧
      (Cell.register r cx.width).isGlobal.eval env = some (before.flagged (·.isGlobal) r) := by
  have hlength : before.registers.length = cx.shape.slotCount := by
    rw [length_eq_of_map_eq hstate.registers, cx.sorted_pre.registers_length]
  have hcell := List.getElem?_eq_getElem (hlength ▸ hr : r < before.registers.length)
  obtain ⟨-, hhigh, hlocal, hglobal⟩ :=
    Cell.eval_eq_some_iff.mp (eval_register_of_denotes hstate hcell)
  simp only [StateValue.flagged, hcell, Option.any_some]
  exact ⟨hhigh, hlocal, hglobal⟩

theorem Fits.eval_flags (hfits : cx.Fits before) {r : Nat} (hr : r < cx.shape.slotCount) :
    (Cell.register r cx.width).high.eval (stateValuation before) =
        some (before.flagged (·.high) r) ∧
      (Cell.register r cx.width).isLocal.eval (stateValuation before) =
        some (before.flagged (·.isLocal) r) ∧
      (Cell.register r cx.width).isGlobal.eval (stateValuation before) =
        some (before.flagged (·.isGlobal) r) :=
  eval_flags_of_denotes hfits.denotes_pre hr

theorem Fits.denotes_promoted (hfits : cx.Fits before) :
    (cx.pre.promote cx.layout cx.width cx.shape.numRegisters).Denotes (stateValuation before)
      (before.escaped cx.shape.numRegisters) :=
  hfits.denotes_pre.promote hfits.heap_length cx.width cx.shape.numRegisters

theorem Fits.length_escaped (hfits : cx.Fits before) :
    (before.escaped cx.shape.numRegisters).registers.length = cx.shape.slotCount := by
  rw [StateValue.escaped, List.length_mapIdx, hfits.registers_length]

/-- A sorted cell has a value in every state that fits. -/
theorem Fits.exists_eval (hfits : cx.Fits before) {cell : Cell} (hcell : cell.Sorted cx.width) :
    ∃ value, cell.eval (stateValuation before) = some value := by
  obtain ⟨word, hword⟩ := BvExpr.exists_eval cell.value hcell.value.applications
    (hfits.inRange.admits hcell.value.vars)
  obtain ⟨high, hhigh⟩ := Formula.exists_eval cell.high hcell.high.applications
    (hfits.inRange.admits hcell.high.vars)
  obtain ⟨isLocal, hlocal⟩ := Formula.exists_eval cell.isLocal hcell.isLocal.applications
    (hfits.inRange.admits hcell.isLocal.vars)
  obtain ⟨isGlobal, hglobal⟩ := Formula.exists_eval cell.isGlobal hcell.isGlobal.applications
    (hfits.inRange.admits hcell.isGlobal.vars)
  exact ⟨⟨word, high, isLocal, isGlobal⟩,
    Cell.eval_eq_some_iff.mpr ⟨hword, hhigh, hlocal, hglobal⟩⟩

/-- A result that does not refer to the local heap. -/
theorem Fits.exists_result (hfits : cx.Fits before) {cell : Cell} (hcell : cell.Sorted cx.width)
    (hlocal : cell.isLocal = .ff) :
    ∃ value, cell.eval (stateValuation before) = some value ∧ value.isLocal = false := by
  obtain ⟨value, hvalue⟩ := hfits.exists_eval hcell
  obtain ⟨-, -, hflag, -⟩ := Cell.eval_eq_some_iff.mp hvalue
  rw [hlocal, Formula.ff, Formula.eval] at hflag
  exact ⟨value, hvalue, (Option.some.inj hflag).symm⟩

/-! ## Lifts that fire -/

section Lifts

variable (hlayout : cx.layout.Registered) (hfits : cx.Fits before) {after : StateValue}
  {guards : List Formula} (hguards : cx.Enables before guards)
  (update : State → Except Error State)
  (hupdate : ∃ post, update (cx.pre.promote cx.layout cx.width cx.shape.numRegisters) = .ok post ∧
    post.Denotes (stateValuation before) after)

include hlayout hguards hupdate

theorem exists_liftsTo :
    ∃ clauses, cx.lift guards update = .ok clauses ∧ cx.LiftsTo before after clauses := by
  obtain ⟨post, hpost, hafter⟩ := hupdate
  obtain ⟨clauses, hclauses, hlifts⟩ := exists_lift hlayout hpost
  exact ⟨clauses, hclauses, guards, post, hlifts, hguards, hafter⟩

include hfits

theorem exists_liftIfLocal {r : UInt32} (hr : r.toNat < cx.shape.slotCount)
    (hlocal : before.flagged (·.isLocal) r.toNat = true) :
    ∃ clauses, cx.liftIfLocal r guards update = .ok clauses ∧ cx.LiftsTo before after clauses := by
  obtain ⟨-, hflag, -⟩ := hfits.eval_flags hr
  rw [hlocal] at hflag
  obtain ⟨clauses, hclauses, hlifts⟩ := exists_liftsTo hlayout
    (hguards.concat (Cell.sorted_register r.toNat).isLocal hflag) update hupdate
  refine ⟨clauses, ?_, hlifts⟩
  rw [liftIfLocal, register_eq hr]
  exact hclauses

theorem exists_liftIfAnyLocal {registers : List UInt32}
    (hregisters : ∀ r ∈ registers, r.toNat < cx.shape.slotCount)
    (hlocal : ∃ r ∈ registers, before.flagged (·.isLocal) r.toNat = true) :
    ∃ clauses, cx.liftIfAnyLocal (registers.map fun r => .register r.toNat cx.width) guards update =
        .ok clauses ∧ cx.LiftsTo before after clauses := by
  have hescaping : (Formula.any ((registers.map fun r => Cell.register r.toNat cx.width).map
      (·.isLocal))).eval (stateValuation before) = some true := by
    have hany := Formula.eval_any_map fun r hr => (hfits.eval_flags (hregisters r hr)).2.1
    rw [List.any_eq_true.mpr hlocal] at hany
    rw [List.map_map]
    exact hany
  have hsorted : (Formula.any ((registers.map fun r => Cell.register r.toNat cx.width).map
      (·.isLocal))).Sorted cx.width := by
    refine Formula.sorted_any fun part hpart => ?_
    obtain ⟨cell, hcell, rfl⟩ := List.mem_map.mp hpart
    obtain ⟨r, -, rfl⟩ := List.mem_map.mp hcell
    exact (Cell.sorted_register r.toNat).isLocal
  obtain ⟨clauses, hclauses, hlifts⟩ :=
    exists_liftsTo hlayout (hguards.concat hsorted hescaping) update hupdate
  refine ⟨clauses, ?_, hlifts⟩
  -- a disjunction that is true in some state is not folded to false
  have hfolded : ¬ (Formula.any ((registers.map fun r => Cell.register r.toNat cx.width).map
      (·.isLocal))).isFalse = true := by
    intro hfalse
    cases hescaping.symm.trans (Formula.eval_of_isFalse _ hfalse)
  rw [liftIfAnyLocal, if_neg hfolded]
  exact hclauses

end Lifts

/-! ## Stores -/

section Triggers

variable (hlayout : cx.layout.Registered) (hfits : cx.Fits before)
  (hoperands : ∀ r ∈ cx.instruction.operands, r.toNat < cx.shape.slotCount)

include hfits in
/-- The label of a holder covers the label of what is stored into it. -/
theorem exists_covered {source holder : UInt32} (hsource : source.toNat < cx.shape.slotCount)
    (hholder : holder.toNat < cx.shape.slotCount) {value : StateValue}
    (hlength : value.registers.length = cx.shape.slotCount) {state : State}
    (hstate : state.Denotes (stateValuation before) value) :
    ∃ post, state.taint holder.toNat (Cell.register source.toNat cx.width).high = .ok post ∧
      post.Denotes (stateValuation before)
        (value.raise holder.toNat (before.flagged (·.high) source.toNat)) :=
  hstate.taint (hlength ▸ hholder) (hfits.eval_flags hsource).1

include hoperands in
theorem operand_lt {index : Nat} {r : UInt32} (hr : cx.instruction.registers[index]? = some r) :
    r.toNat < cx.shape.slotCount :=
  hoperands r (List.mem_append_left _ (List.mem_of_getElem? hr))

include hlayout hfits hoperands

theorem escapes_arrayPut {source array index : UInt32}
    (hmatches : (EscapeTrigger.arrayPut source array index).Matches cx)
    (hfires : (EscapeTrigger.arrayPut source array index).Fires before) :
    ∃ clauses after, cx.compileArrayPut = .ok clauses ∧ cx.LiftsTo before after clauses ∧
      (EscapeTrigger.arrayPut source array index).Leaves cx before after := by
  obtain ⟨-, hsource, harray, hindex⟩ := hmatches
  have hsourceLt := operand_lt hoperands hsource
  have harrayLt := operand_lt hoperands harray
  obtain ⟨plain, hplain, -⟩ :=
    exists_covered hfits hsourceLt harrayLt hfits.registers_length hfits.denotes_pre
  obtain ⟨lifted, hlifted, hlifts⟩ := exists_liftIfLocal hlayout hfits enables_nil
    (State.taint · array.toNat (Cell.register source.toNat cx.width).high)
    (exists_covered hfits hsourceLt harrayLt hfits.length_escaped hfits.denotes_promoted)
    hsourceLt hfires
  have hhandler : ∃ store, cx.compileArrayPut = .ok (cx.step [] plain :: store :: lifted) := by
    simp only [compileArrayPut, operand_eq hsource hsourceLt, operand_eq harray harrayLt,
      operand_eq hindex (operand_lt hoperands hindex), instructionRegister_eq hsource,
      instructionRegister_eq harray, hplain, hlifted, Bind.bind, Except.bind]
    exact ⟨_, rfl⟩
  obtain ⟨store, hhandler⟩ := hhandler
  refine ⟨_, _, hhandler, hlifts.mono fun clause hclause => ?_, ?_⟩
  · exact List.mem_cons_of_mem _ (List.mem_cons_of_mem _ hclause)
  · exact EscapeTrigger.leaves_of_raises hfits.heap_length (StateValue.raises_raise _ _ _)
      (fun _ _ => rfl) none (by simp) rfl

theorem escapes_staticPut {source : UInt32}
    (hmatches : (EscapeTrigger.staticPut source).Matches cx)
    (hfires : (EscapeTrigger.staticPut source).Fires before) :
    ∃ clauses after, cx.compileStaticPut = .ok clauses ∧ cx.LiftsTo before after clauses ∧
      (EscapeTrigger.staticPut source).Leaves cx before after := by
  obtain ⟨-, hsource, field, hfield⟩ := hmatches
  have hsourceLt := operand_lt hoperands hsource
  obtain ⟨lifted, hlifted, hlifts⟩ := exists_liftIfLocal hlayout hfits enables_nil .ok
    ⟨_, rfl, hfits.denotes_promoted⟩ hsourceLt hfires
  have hhandler : ∃ store, cx.compileStaticPut = .ok (cx.identity :: store :: lifted) := by
    simp only [compileStaticPut, operand_eq hsource hsourceLt, instructionRegister_eq hsource,
      hfield, hlifted, Bind.bind, Except.bind]
    exact ⟨_, rfl⟩
  obtain ⟨store, hhandler⟩ := hhandler
  refine ⟨_, _, hhandler, hlifts.mono fun clause hclause => ?_, ?_⟩
  · exact List.mem_cons_of_mem _ (List.mem_cons_of_mem _ hclause)
  · exact EscapeTrigger.leaves_of_raises hfits.heap_length StateValue.raises_refl
      (fun _ _ => rfl) none (by simp) rfl

omit hfits hoperands in
/-- The stores into the local heap do not fail. -/
theorem exists_storeLocal {object : UInt32} (hobject : object.toNat < cx.shape.slotCount)
    (field : FieldId) (source : Cell) (guards : AllocationSite → List Formula) :
    ∃ clauses, (cx.layout.sitesWithField field).mapM (fun (site, k) => do
        let stored ← cx.pre.setSlot k ⟨source, .ff⟩
        let post ← stored.taint object.toNat source.high
        return cx.step (guards site) post) = .ok clauses := by
  have hstore : ∀ entry ∈ cx.layout.sitesWithField field, ∃ clause, (do
      let stored ← cx.pre.setSlot entry.2 ⟨source, .ff⟩
      let post ← stored.taint object.toNat source.high
      return cx.step (guards entry.1) post) = Except.ok clause := by
    intro entry hentry
    have hslot : entry.2 < cx.pre.heap.length := by
      rw [cx.sorted_pre.heap_length]
      exact hlayout.lt_of_mem_sitesWithField hentry
    have hlength : object.toNat < cx.pre.registers.length := by
      rw [cx.sorted_pre.registers_length]
      exact hobject
    rw [State.setSlot, if_pos hslot]
    simp only [State.taint, State.register, State.set, getElem?_pre hobject, if_pos hlength,
      Bind.bind, Except.bind]
    exact ⟨_, rfl⟩
  obtain ⟨clauses, hclauses, -⟩ := exists_mapM_eq_ok hstore
  exact ⟨clauses, hclauses⟩

theorem escapes_instancePut {source object : UInt32}
    (hmatches : (EscapeTrigger.instancePut source object).Matches cx)
    (hfires : (EscapeTrigger.instancePut source object).Fires before) :
    ∃ clauses after, cx.compileInstancePut = .ok clauses ∧ cx.LiftsTo before after clauses ∧
      (EscapeTrigger.instancePut source object).Leaves cx before after := by
  obtain ⟨-, hsource, hobject, reference, hreference⟩ := hmatches
  obtain ⟨hlocal, hglobal⟩ := hfires
  have hsourceLt := operand_lt hoperands hsource
  have hobjectLt := operand_lt hoperands hobject
  obtain ⟨plain, hplain, -⟩ :=
    exists_covered hfits hsourceLt hobjectLt hfits.registers_length hfits.denotes_pre
  -- the lift is guarded by the object being on the global heap
  have hguard : cx.Enables before [(Cell.register object.toNat cx.width).isGlobal] := by
    refine enables_nil.concat (Cell.sorted_register object.toNat).isGlobal ?_
    rw [(hfits.eval_flags hobjectLt).2.2, hglobal]
  obtain ⟨lifted, hlifted, hlifts⟩ := exists_liftIfLocal hlayout hfits hguard
    (State.taint · object.toNat (Cell.register source.toNat cx.width).high)
    (exists_covered hfits hsourceLt hobjectLt hfits.length_escaped hfits.denotes_promoted)
    hsourceLt hlocal
  obtain ⟨toLocal, htoLocal⟩ := exists_storeLocal hlayout hobjectLt reference.fieldId
    (.register source.toNat cx.width) (cx.refersTo (.register object.toNat cx.width))
  have hhandler : ∃ toGlobal, cx.compileInstancePut =
      .ok (cx.step [] plain :: toGlobal :: lifted ++ toLocal) := by
    simp only [compileInstancePut, operand_eq hsource hsourceLt, operand_eq hobject hobjectLt,
      instructionRegister_eq hsource, instructionRegister_eq hobject, hreference, hplain, hlifted,
      Bind.bind, Except.bind] at htoLocal ⊢
    simp only [htoLocal]
    exact ⟨_, rfl⟩
  obtain ⟨toGlobal, hhandler⟩ := hhandler
  refine ⟨_, _, hhandler, hlifts.mono fun clause hclause => ?_, ?_⟩
  · exact List.mem_cons_of_mem _ (List.mem_cons_of_mem _ (List.mem_append_left _ hclause))
  · exact EscapeTrigger.leaves_of_raises hfits.heap_length (StateValue.raises_raise _ _ _)
      (fun _ _ => rfl) none (by simp) rfl

omit hlayout hfits hoperands in
theorem returnSlot_lt : cx.shape.returnSlot < cx.shape.slotCount := by
  rw [FrameShape.returnSlot, FrameShape.slotCount]
  omega

theorem escapes_filledNewArray {elements : List UInt32}
    (hmatches : (EscapeTrigger.filledNewArray elements).Matches cx)
    (hfires : (EscapeTrigger.filledNewArray elements).Fires before) :
    ∃ clauses after, cx.compileFilledNewArray = .ok clauses ∧ cx.LiftsTo before after clauses ∧
      (EscapeTrigger.filledNewArray elements).Leaves cx before after := by
  obtain ⟨-, rfl, reference, hreference⟩ := hmatches
  -- the elements are the registers of the call, and all of them are slots
  have hregisters : ∀ r ∈ cx.instruction.argumentRegisters, r.toNat < cx.shape.slotCount :=
    fun r hr => hoperands r (mem_operands_of_mem_arguments hr)
  obtain ⟨result, hresult, hlocal⟩ := hfits.exists_result
    (Cell.sorted_globalRef (sorted_idLiteral cx.allocation) (Formula.sorted_const false)) rfl
  have hreturnLt : ∀ {value : StateValue}, value.registers.length = cx.shape.slotCount →
      cx.shape.returnSlot < value.registers.length := fun hlength => hlength ▸ returnSlot_lt
  obtain ⟨plain, hplain, -⟩ :=
    hfits.denotes_pre.set (hreturnLt hfits.registers_length) hresult
  obtain ⟨lifted, hlifted, hlifts⟩ := exists_liftIfAnyLocal hlayout hfits enables_nil
    (State.set · cx.shape.returnSlot (.globalRef (cx.idLiteral cx.allocation) .ff))
    (hfits.denotes_promoted.set (hreturnLt hfits.length_escaped) hresult) hregisters hfires
  -- the stores of the elements are emitted in front, and none of them is needed below
  have hhandler : ∃ stores, cx.compileFilledNewArray =
      .ok (stores ++ [cx.step [] plain] ++ lifted) := by
    simp only [compileFilledNewArray, Instruction.getReference, hreference,
      registers_eq hregisters, returns, Bind.bind, Except.bind] at hlifted ⊢
    simp only [hplain, hlifted]
    exact ⟨_, rfl⟩
  obtain ⟨stores, hhandler⟩ := hhandler
  refine ⟨_, _, hhandler, hlifts.mono fun clause hclause => ?_, ?_⟩
  · exact List.mem_append_right _ hclause
  · refine EscapeTrigger.leaves_of_raises hfits.heap_length StateValue.raises_refl
      (fun _ _ => rfl) (some result) ?_ rfl
    rintro cell ⟨⟩
    exact hlocal

end Triggers

/-! ## Unknown calls -/

/-- The update of an unknown call with the arguments processed in some order. -/
def shareInOrder (cx : StepContext) (order : List (UInt32 × Nat)) (arguments : List Cell)
    (result : Option Cell) (state : State) : Except Error State := do
  let shared ← order.foldlM
    (fun (post : State) (r, index) => do
      let cell ← post.register r.toNat
      post.taint r.toNat (cell.isGlobal.both (labelOfOthers arguments index)))
    state
  match result with
  | some cell => shared.set cx.shape.returnSlot cell
  | none => return shared

/-- The call processes its arguments from the first to the last. -/
theorem shareArguments_eq (call : CallSite) (arguments : List Cell) (result : Option Cell)
    (state : State) :
    cx.shareArguments call arguments result state =
      cx.shareInOrder call.arguments.zipIdx arguments result state := rfl

section Sharing

variable {arguments : List Cell} {env : Valuation} {others : Nat → Bool}
  (hothers : ∀ i, (labelOfOthers arguments i).eval env = some (others i))

include hothers

/-- The labels of shared arguments are raised, each as often as it is passed. -/
theorem exists_shared (items : List (UInt32 × Nat)) {state : State} {value : StateValue}
    (hstate : state.Denotes env value)
    (hitems : ∀ item ∈ items, item.1.toNat < value.registers.length) :
    ∃ post shared, items.foldlM (fun (post : State) (r, index) => do
        let cell ← post.register r.toNat
        post.taint r.toNat (cell.isGlobal.both (labelOfOthers arguments index))) state = .ok post ∧
      post.Denotes env shared ∧
      value.Raises (fun r => items.any fun item => decide (item.1.toNat = r) &&
        (value.flagged (·.isGlobal) r && others item.2)) shared := by
  induction items generalizing state value with
  | nil => exact ⟨state, value, rfl, hstate, StateValue.raises_refl⟩
  | cons item rest ih =>
      obtain ⟨r, index⟩ := item
      have hr : r.toNat < value.registers.length := hitems _ List.mem_cons_self
      have hcell := List.getElem?_eq_getElem hr
      -- the register of the first argument holds what the state says it does
      obtain ⟨cell, hregister, heval⟩ := exists_getElem?_of_map_eq hstate.registers hcell
      obtain ⟨-, -, -, hglobal⟩ := Cell.eval_eq_some_iff.mp heval
      have htaint : (cell.isGlobal.both (labelOfOthers arguments index)).eval env =
          some (value.flagged (·.isGlobal) r.toNat && others index) := by
        rw [Formula.eval_both, hglobal, hothers, StateValue.flagged, hcell, Option.any_some]
        cases value.registers[r.toNat].isGlobal <;> rfl
      obtain ⟨next, hnext, hdenotes⟩ := hstate.taint hr htaint
      have hraises :=
        value.raises_raise r.toNat (value.flagged (·.isGlobal) r.toNat && others index)
      obtain ⟨post, shared, hpost, hshared, hmore⟩ := ih hdenotes fun other hother => by
        rw [hraises.length_eq]
        exact hitems other (List.mem_cons_of_mem _ hother)
      refine ⟨post, shared, ?_, hshared, ?_⟩
      · -- one step for the first argument, and the others from the state behind it
        rw [List.foldlM_cons, ← hpost]
        simp only [State.register, hregister, Bind.bind, Except.bind, hnext]
      · -- the global flags are the same before and after, so all arguments see those of the start
        have hall := hraises.trans hmore
        simp only [hraises.flagged_isGlobal] at hall
        convert hall using 2 with slot
        by_cases hslot : r.toNat = slot
        · subst hslot
          rfl
        · simp [hslot]

/-- After an unknown call the labels of its arguments have been raised, and there may be a
result. -/
theorem exists_shareInOrder {cx : StepContext} {order : List (UInt32 × Nat)} {state : State}
    {value : StateValue} (hstate : state.Denotes env value)
    (hlength : value.registers.length = cx.shape.slotCount)
    (horder : ∀ item ∈ order, item.1.toNat < cx.shape.slotCount) {result : Option Cell}
    {returned : Option CellValue} (hresult : result.map (Cell.eval env) = returned.map some) :
    ∃ post shared, cx.shareInOrder order arguments result state = .ok post ∧
      post.Denotes env (shared.returning cx.shape.returnSlot returned) ∧
      value.Raises (fun r => order.any fun item =>
        decide (item.1.toNat = r) && (value.flagged (·.isGlobal) r && others item.2)) shared := by
  obtain ⟨post, shared, hpost, hshared, hraises⟩ :=
    exists_shared hothers order hstate fun item hitem => by
      rw [hlength]
      exact horder item hitem
  cases result with
  | none =>
      cases returned with
      | some new => cases hresult
      | none =>
          exact ⟨post, shared, bind_eq_ok_iff.mpr ⟨post, hpost, rfl⟩, hshared, hraises⟩
  | some cell =>
      cases returned with
      | none => cases hresult
      | some new =>
          have hreturn : cx.shape.returnSlot < shared.registers.length := by
            rw [hraises.length_eq, hlength]
            exact returnSlot_lt
          obtain ⟨final, hfinal, hdenotes⟩ := hshared.set hreturn (Option.some.inj hresult)
          exact ⟨final, shared, bind_eq_ok_iff.mpr ⟨post, hpost, hfinal⟩, hdenotes, hraises⟩

end Sharing

section UnknownCall

variable {call : CallSite} (hlayout : cx.layout.Registered) (hfits : cx.Fits before)
  (hoperands : ∀ r ∈ cx.instruction.operands, r.toNat < cx.shape.slotCount)

theorem eval_labelOfOthers {env : Valuation} (hstate : cx.pre.Denotes env before)
    (hregisters : ∀ r ∈ call.arguments, r.toNat < cx.shape.slotCount) (i : Nat) :
    (labelOfOthers (call.arguments.map fun r => .register r.toNat cx.width) i).eval env =
      some ((call.arguments.eraseIdx i).any fun other => before.flagged (·.high) other.toNat) := by
  rw [labelOfOthers, List.eraseIdx_map, List.map_map]
  exact Formula.eval_any_map fun r hr =>
    (eval_flags_of_denotes hstate (hregisters r (List.mem_of_mem_eraseIdx hr))).1

/-- The result of an unknown call does not refer to the local heap. -/
theorem Fits.exists_unknownResult (hfits : cx.Fits before) (call : CallSite) {label : Formula}
    (hlabel : label.Sorted cx.width) :
    ∃ returned : Option CellValue,
      (cx.unknownResult call label).2.map (Cell.eval (stateValuation before)) =
        returned.map some ∧
      (∀ cell ∈ returned, cell.isLocal = false) ∧
      returned.isSome = decide (call.returnKind ≠ .void) := by
  obtain ⟨-, hcells⟩ := cx.unknownResult_emitted call hlabel
  have hsome : (cx.unknownResult call label).2.isSome = decide (call.returnKind ≠ .void) := by
    unfold unknownResult
    cases call.returnKind <;> rfl
  cases hresult : (cx.unknownResult call label).2 with
  | none => exact ⟨none, rfl, by simp, by rw [← hsome, hresult]; rfl⟩
  | some cell =>
      obtain ⟨hsorted, hff⟩ := hcells cell hresult
      obtain ⟨value, hvalue, hlocal⟩ := hfits.exists_result hsorted hff
      refine ⟨some value, congrArg some hvalue, ?_, by rw [← hsome, hresult]; rfl⟩
      rintro other ⟨⟩
      exact hlocal

include hlayout hfits hoperands

theorem escapes_unknownCall (hmatches : (EscapeTrigger.unknownCall call).Matches cx)
    (hfires : (EscapeTrigger.unknownCall call).Fires before) :
    ∃ clauses after, cx.compileUnknownCall call = .ok clauses ∧
      cx.LiftsTo before after clauses ∧
      (EscapeTrigger.unknownCall call).Leaves cx before after := by
  obtain ⟨hcall, -⟩ := hmatches
  have hregisters : ∀ r ∈ call.arguments, r.toNat < cx.shape.slotCount := fun r hr =>
    hoperands r (CallSite.mem_operands_of_calls hcall r hr)
  have hsorted : ∀ cell ∈ call.arguments.map fun r => Cell.register r.toNat cx.width,
      cell.Sorted cx.width := by
    intro cell hcell
    obtain ⟨r, -, rfl⟩ := List.mem_map.mp hcell
    exact Cell.sorted_register r.toNat
  -- the labels of the other arguments are those in front of the call
  have hothers := eval_labelOfOthers hfits.denotes_pre hregisters
  have hlabel : (cx.resultLabel call (call.arguments.map fun r =>
      Cell.register r.toNat cx.width)).Sorted cx.width := sorted_resultLabel hsorted
  obtain ⟨returned, hresult, hlocal, hreturns⟩ := hfits.exists_unknownResult call hlabel
  have hitems : ∀ item ∈ call.arguments.zipIdx, item.1.toNat < cx.shape.slotCount :=
    fun item hitem => hregisters item.1 (List.fst_mem_of_mem_zipIdx hitem)
  obtain ⟨plain, -, hplain, -, -⟩ := exists_shareInOrder hothers hfits.denotes_pre
    hfits.registers_length hitems hresult
  obtain ⟨post, shared, hpost, hshared, hraises⟩ := exists_shareInOrder hothers
    hfits.denotes_promoted hfits.length_escaped hitems hresult
  rw [← shareArguments_eq] at hplain hpost
  obtain ⟨lifted, hlifted, hlifts⟩ := exists_liftIfAnyLocal hlayout hfits enables_nil _
    ⟨post, hpost, hshared⟩ hregisters hfires
  -- what the result is on the heap is stated in front, and is not needed below
  have hhandler : ∃ stated, cx.compileUnknownCall call =
      .ok (stated ++ cx.step [] plain :: lifted) := by
    simp only [compileUnknownCall, registers_eq hregisters, Bind.bind, Except.bind, hplain, hlifted]
    exact ⟨_, rfl⟩
  obtain ⟨stated, hhandler⟩ := hhandler
  refine ⟨_, _, hhandler, hlifts.mono fun clause hclause => ?_, ?_⟩
  · exact List.mem_append_right _ (List.mem_cons_of_mem _ hclause)
  · refine EscapeTrigger.leaves_of_raises hfits.heap_length hraises (fun r hr => ?_) returned
      hlocal hreturns
    rw [EscapeTrigger.raises, StateValue.flagged_escaped before hr]

end UnknownCall

/-! ## All triggers -/

theorem hasSite_of_opcode_ne (h : cx.instruction.opcode ≠ .newInstance) : cx.HasSite := by
  intro typeName hallocation
  rw [Instruction.localAllocation?, if_neg h] at hallocation
  cases hallocation

/-- A handler that lifts makes its instruction lift. -/
theorem exists_escape_of_handler {trigger : EscapeTrigger}
    {handler : Except Error (List Clause)} (hopcode : cx.instruction.opcode ≠ .newInstance)
    (hcompile : cx.compile = handler.map Emission.ofClauses)
    (h : ∃ clauses after, handler = .ok clauses ∧ cx.LiftsTo before after clauses ∧
      trigger.Leaves cx before after) :
    ∃ emission clauses after, cx.compileOrSkip = .ok emission ∧
      emission.clauses = (Emission.ofClauses clauses).clauses ∧ cx.HasSite ∧
      cx.LiftsTo before after clauses ∧ trigger.Leaves cx before after := by
  obtain ⟨clauses, after, rfl, hlifts, hleaves⟩ := h
  refine ⟨.ofClauses clauses, clauses, after, ?_, rfl, hasSite_of_opcode_ne hopcode, hlifts,
    hleaves⟩
  rw [compileOrSkip, hcompile]
  rfl

section Contributions

variable {call : CallSite} (hcall : cx.instruction.Calls call)
  (hregisters : ∀ r ∈ call.arguments, r.toNat < cx.shape.slotCount)

include hregisters

theorem exists_sinkQueries : ∃ queries, cx.sinkQueries call = .ok queries := by
  unfold sinkQueries
  split
  · have hquery : ∀ r ∈ call.arguments, ∃ query,
        (do return cx.sinkQuery call r (← cx.register r)) = Except.ok query := by
      intro r hr
      rw [register_eq (hregisters r hr)]
      exact ⟨_, rfl⟩
    obtain ⟨queries, hqueries, -⟩ := exists_mapM_eq_ok hquery
    exact ⟨queries, hqueries⟩
  · exact ⟨[], rfl⟩

include hcall

/-- A call of an unknown method contributes its clauses, next to the queries of a sink. -/
theorem exists_compileOrSkip_of_unknown
    (hlinkage : call.linkage cx.oracle cx.env.config.intentSummaries = .unknown)
    {clauses : List Clause} (hclauses : cx.compileUnknownCall call = .ok clauses) :
    ∃ queries, cx.compileOrSkip = .ok { Emission.ofClauses clauses with
      queries := queries, callsSink := cx.callsSink call } := by
  -- the queries come first and could make the whole call be skipped
  obtain ⟨queries, hqueries⟩ := exists_sinkQueries hregisters
  obtain ⟨kind, range, hopcode, hsite⟩ := hcall
  have hlinked : cx.compileCall call = .ok clauses := by
    rw [compileCall, hlinkage]
    exact hclauses
  refine ⟨queries, ?_⟩
  simp only [compileOrSkip, compile, hopcode, compileInvoke, hsite, hqueries, hlinked, Bind.bind,
    Except.bind]
  rfl

end Contributions

section All

variable (hlayout : cx.layout.Registered) (hfits : cx.Fits before)
  (hoperands : ∀ r ∈ cx.instruction.operands, r.toNat < cx.shape.slotCount)

include hlayout hfits hoperands

/-- A trigger that fires compiles to clauses that lift. -/
theorem exists_escape {trigger : EscapeTrigger} (hmatches : trigger.Matches cx)
    (hfires : trigger.Fires before) :
    ∃ emission clauses after, cx.compileOrSkip = .ok emission ∧
      emission.clauses = (Emission.ofClauses clauses).clauses ∧ cx.HasSite ∧
      cx.LiftsTo before after clauses ∧ trigger.Leaves cx before after := by
  cases trigger with
  | arrayPut source array index =>
      exact exists_escape_of_handler (by rw [hmatches.1]; decide) (by rw [compile, hmatches.1])
        (escapes_arrayPut hlayout hfits hoperands hmatches hfires)
  | instancePut source object =>
      exact exists_escape_of_handler (by rw [hmatches.1]; decide) (by rw [compile, hmatches.1])
        (escapes_instancePut hlayout hfits hoperands hmatches hfires)
  | staticPut source =>
      exact exists_escape_of_handler (by rw [hmatches.1]; decide) (by rw [compile, hmatches.1])
        (escapes_staticPut hlayout hfits hoperands hmatches hfires)
  | filledNewArray elements =>
      obtain ⟨range, hopcode⟩ := hmatches.1
      exact exists_escape_of_handler (by simp [hopcode]) (by rw [compile, hopcode])
        (escapes_filledNewArray hlayout hfits hoperands hmatches hfires)
  | unknownCall call =>
      obtain ⟨clauses, after, hhandler, hlifts, hleaves⟩ :=
        escapes_unknownCall hlayout hfits hoperands hmatches hfires
      obtain ⟨hcall, hlinkage⟩ := hmatches
      obtain ⟨queries, hcompile⟩ := exists_compileOrSkip_of_unknown hcall
        (fun r hr => hoperands r (CallSite.mem_operands_of_calls hcall r hr)) hlinkage hhandler
      obtain ⟨kind, range, hopcode, -⟩ := hcall
      exact ⟨_, clauses, after, hcompile, rfl, hasSite_of_opcode_ne (by rw [hopcode]; simp), hlifts,
        hleaves⟩

end All

/-- A call of an unknown method that passes one register twice. -/
def sampleUnknownCall : CallSite where
  kind := .static
  target :=
    { owner := "Lc;", name := "keep", parameters := ["Lb;", "Lb;", "Lb;"], returnType := "Lb;" }
  arguments := [0, 1, 0]

def sampleEscape : StepContext where
  env := Program.sample.environment Program.sampleConfig {}
  owner := { name := "La;" }
  method := { name := "start(I)V", numRegisters := 2, numArguments := 1, isStatic := true }
  instruction :=
    { pc := 2, mnemonic := "invoke-static", registers := [0, 1, 0],
      reference := some "Lc;->keep(Lb;Lb;Lb;)Lb;" }
  nextPc := 5
  allocation := 0

/-- Two local references, one of them secret, and an object whose field holds the secret one. -/
def sampleLocals : StateValue where
  registers := [⟨7, false, true, false⟩, ⟨9, true, true, false⟩, ⟨0, false, false, false⟩,
    ⟨4, true, false, true⟩]
  heap := [⟨⟨9, true, true, false⟩, false⟩, ⟨⟨0, false, false, false⟩, false⟩]

end StepContext

end DalvikHorn
