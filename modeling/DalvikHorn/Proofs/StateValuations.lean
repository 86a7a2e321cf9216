import DalvikHorn.Proofs.Adequacy

/-!
# The valuation of a state

The clauses of an instruction are over the canonical variables of the state before
it.  `stateValuation` gives these variables the values of a state with registers and
a local heap, and all other names some value of their sort.  Under it the symbolic
state before an instruction has that state as its value (`StepContext.Fits.denotes_pre`),
and every sorted term has a value.
-/

namespace DalvikHorn

/-- The slot whose number stands at the end of a name. -/
def numberedSlot (heap : List SlotValue) (digits : List Char) : SlotValue :=
  heap.getD (Nat.ofDigitChars 10 digits 0) ⟨⟨0, false, false, false⟩, true⟩

/-- The valuation under which the canonical variables have the values of a state. -/
def stateValuation (state : StateValue) : Valuation := fun name =>
  match name.toList with
  | 'l' :: 'h' :: 'v' :: digits => some (.bits (numberedSlot state.heap digits).cell.value)
  | 'l' :: 'h' :: 'h' :: digits => some (.bool (numberedSlot state.heap digits).cell.high)
  | 'l' :: 'h' :: 'l' :: digits => some (.bool (numberedSlot state.heap digits).cell.isLocal)
  | 'l' :: 'h' :: 'g' :: digits => some (.bool (numberedSlot state.heap digits).cell.isGlobal)
  | 'l' :: 'h' :: 'f' :: digits => some (.bool (numberedSlot state.heap digits).free)
  | _ => frameValuation state.registers name

variable {state : StateValue}

/-! ## Registers -/

/-- A number does not start with a letter, so `l3` is read as a register. -/
theorem stateValuation_isLocal (i : Nat) :
    stateValuation state (Names.isLocal i) = frameValuation state.registers (Names.isLocal i) := by
  have hdigit : ∀ c ∈ Nat.toDigits 10 i, c.isDigit = true := fun c hc =>
    Nat.isDigit_of_mem_toDigits (by decide) (by decide) hc
  unfold stateValuation
  rw [Names.toList_isLocal]
  cases hdigits : Nat.toDigits 10 i with
  | nil => rfl
  | cons c rest =>
      have hne : c ≠ 'h' := by
        rintro rfl
        simp [hdigits] at hdigit
      simp [hne]

theorem eval_register_stateValuation {i : Nat} {cell : CellValue}
    (hcell : state.registers[i]? = some cell) (width : Nat) :
    (Cell.register i width).eval (stateValuation state) = some cell := by
  obtain ⟨hvalue, hhigh, hlocal, hglobal⟩ :=
    Cell.eval_eq_some_iff.mp (eval_register_frameValuation hcell width)
  have hval : stateValuation state (Names.value i) =
      frameValuation state.registers (Names.value i) := by
    simp [stateValuation, Names.toList_value]
  have hlabel : stateValuation state (Names.high i) =
      frameValuation state.registers (Names.high i) := by
    simp [stateValuation, Names.toList_high]
  have hflag : stateValuation state (Names.isGlobal i) =
      frameValuation state.registers (Names.isGlobal i) := by
    simp [stateValuation, Names.toList_isGlobal]
  refine Cell.eval_eq_some_iff.mpr ⟨?_, ?_, ?_, ?_⟩
  · simpa only [Cell.register, BvExpr.eval, Valuation.bits?, hval] using hvalue
  · simpa only [Cell.register, Formula.eval, Valuation.bool?, hlabel] using hhigh
  · simpa only [Cell.register, Formula.eval, Valuation.bool?, stateValuation_isLocal] using hlocal
  · simpa only [Cell.register, Formula.eval, Valuation.bool?, hflag] using hglobal

/-! ## Slots -/

theorem numberedSlot_toDigits {heap : List SlotValue} {k : Nat} {slot : SlotValue}
    (hslot : heap[k]? = some slot) : numberedSlot heap (Nat.toDigits 10 k) = slot := by
  rw [numberedSlot, Nat.ofDigitChars_toDigits (by decide) (by decide), List.getD_eq_getElem?_getD,
    hslot]
  rfl

/-- The slot of a number that is too large is empty. -/
theorem numberedSlot_lt {width : Nat} {heap : List SlotValue}
    (h : ∀ slot ∈ heap, slot.cell.value < valueCount width) (digits : List Char) :
    (numberedSlot heap digits).cell.value < valueCount width := by
  rw [numberedSlot, List.getD_eq_getElem?_getD]
  cases hslot : heap[Nat.ofDigitChars 10 digits 0]? with
  | none => exact Nat.two_pow_pos _
  | some slot => exact h slot (List.mem_of_getElem? hslot)

theorem eval_slot_stateValuation {k : Nat} {slot : SlotValue} (hslot : state.heap[k]? = some slot)
    (width : Nat) :
    (HeapSlot.canonical Names.ownHeap k width).eval (stateValuation state) = some slot := by
  have hnumber := numberedSlot_toDigits hslot
  refine HeapSlot.eval_eq_some_iff.mpr ⟨Cell.eval_eq_some_iff.mpr ⟨?_, ?_, ?_, ?_⟩, ?_⟩
  · simp [HeapSlot.canonical, BvExpr.eval, Valuation.bits?, stateValuation, Names.slotValue,
      Names.ownHeap, toString, hnumber]
  · simp [HeapSlot.canonical, Formula.eval, Valuation.bool?, stateValuation, Names.slotHigh,
      Names.ownHeap, toString, hnumber]
  · simp [HeapSlot.canonical, Formula.eval, Valuation.bool?, stateValuation, Names.slotLocal,
      Names.ownHeap, toString, hnumber]
  · simp [HeapSlot.canonical, Formula.eval, Valuation.bool?, stateValuation, Names.slotGlobal,
      Names.ownHeap, toString, hnumber]
  · simp [HeapSlot.canonical, Formula.eval, Valuation.bool?, stateValuation, Names.slotFree,
      Names.ownHeap, toString, hnumber]

/-! ## States -/

/-- The values of a state fit into a width. -/
structure StateValue.InRange (width : Nat) (state : StateValue) : Prop where
  registers : ∀ cell ∈ state.registers, cell.value < valueCount width
  heap : ∀ slot ∈ state.heap, slot.cell.value < valueCount width

/-- Every name has a value of its sort. -/
theorem StateValue.InRange.complete {width : Nat} (h : state.InRange width) :
    (stateValuation state).Complete width := by
  intro name
  unfold stateValuation
  -- the names of a heap slot come first, and the third letter tells their sort
  split
  · rename_i digits heq
    exact ⟨_, rfl, by rw [Names.sort, heq]; exact numberedSlot_lt h.heap digits⟩
  · rename_i heq
    exact ⟨_, rfl, by rw [Names.sort, heq]; trivial⟩
  · rename_i heq
    exact ⟨_, rfl, by rw [Names.sort, heq]; trivial⟩
  · rename_i heq
    exact ⟨_, rfl, by rw [Names.sort, heq]; trivial⟩
  · rename_i heq
    exact ⟨_, rfl, by rw [Names.sort, heq]; trivial⟩
  · exact complete_frameValuation h.registers name

theorem StateValue.InRange.admits {width : Nat} (h : state.InRange width)
    {vars : List (String × TermSort)} (hvars : Names.Respected width vars) :
    (stateValuation state).Admits vars :=
  h.complete.admits hvars

namespace StepContext

/-- A state that an instruction can be reached in: as many registers and slots as its frame and
the layout have, with values of its width. -/
structure Fits (cx : StepContext) (state : StateValue) : Prop where
  registers_length : state.registers.length = cx.shape.slotCount
  heap_length : state.heap.length = cx.layout.size
  inRange : state.InRange cx.width

theorem Fits.denotes_pre {cx : StepContext} (h : cx.Fits state) :
    cx.pre.Denotes (stateValuation state) state where
  registers := by
    refine List.ext_getElem? fun r => ?_
    rw [pre, State.canonical, List.map_map, List.getElem?_map, List.getElem?_map]
    -- a register or slot within the state is read back, and there is none behind it
    cases hcell : state.registers[r]? with
    | none =>
        have hout : cx.shape.slotCount ≤ r :=
          h.registers_length ▸ List.getElem?_eq_none_iff.mp hcell
        rw [List.getElem?_eq_none (by simpa using hout)]
        rfl
    | some cell =>
        obtain ⟨hr, -⟩ := List.getElem?_eq_some_iff.mp hcell
        rw [List.getElem?_range (h.registers_length ▸ hr)]
        exact congrArg some (eval_register_stateValuation hcell cx.width)
  heap := by
    refine List.ext_getElem? fun k => ?_
    rw [pre, State.canonical, canonicalHeap, List.map_map, List.getElem?_map, List.getElem?_map]
    cases hslot : state.heap[k]? with
    | none =>
        have hout : cx.layout.size ≤ k := h.heap_length ▸ List.getElem?_eq_none_iff.mp hslot
        rw [List.getElem?_eq_none (by simpa using hout)]
        rfl
    | some slot =>
        obtain ⟨hk, -⟩ := List.getElem?_eq_some_iff.mp hslot
        rw [List.getElem?_range (h.heap_length ▸ hk)]
        exact congrArg some (eval_slot_stateValuation hslot cx.width)

/-- A valuation with the same canonical variables has the same state. -/
theorem Fits.denotes_pre_of_eval {cx : StepContext} (h : cx.Fits state) {env : Valuation}
    (hregisters : ∀ r, (Cell.register r cx.width).eval env =
      (Cell.register r cx.width).eval (stateValuation state))
    (hslots : ∀ k, (HeapSlot.canonical Names.ownHeap k cx.width).eval env =
      (HeapSlot.canonical Names.ownHeap k cx.width).eval (stateValuation state)) :
    cx.pre.Denotes env state where
  registers := by
    rw [← h.denotes_pre.registers]
    refine List.map_congr_left fun cell hcell => ?_
    obtain ⟨r, -, rfl⟩ := List.mem_map.mp hcell
    exact hregisters r
  heap := by
    rw [← h.denotes_pre.heap]
    refine List.map_congr_left fun slot hslot => ?_
    obtain ⟨k, -, rfl⟩ := List.mem_map.mp hslot
    exact hslots k

end StepContext

end DalvikHorn
