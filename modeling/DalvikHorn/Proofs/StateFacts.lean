import DalvikHorn.Proofs.LeastModel
import DalvikHorn.Proofs.Signatures

/-!
# Facts about states

The facts of a point relation are states with values in place of terms, and those
of an exit relation are arguments, a result and a heap.  An atom over a symbolic
state denotes exactly the facts of the states that the symbolic state evaluates to
(`denotes_pointAtom_iff`, `denotes_exitAtom_iff`), and a fact determines its state
once the size of the frame is known (`pointFact_injective`).
-/

namespace DalvikHorn

/-! ## Values of states -/

/-- The value of a cell. -/
@[ext] structure CellValue where
  value : Nat
  high : Bool
  isLocal : Bool
  isGlobal : Bool
  deriving DecidableEq, Repr

/-- The value of a heap slot. -/
@[ext] structure SlotValue where
  cell : CellValue
  free : Bool
  deriving DecidableEq, Repr

/-- The value of a state. -/
@[ext] structure StateValue where
  registers : List CellValue
  heap : List SlotValue
  deriving DecidableEq, Repr

/-- The value of a cell under a valuation. -/
def Cell.eval (env : Valuation) (cell : Cell) : Option CellValue :=
  (cell.value.eval env).bind fun value =>
    (cell.high.eval env).bind fun high =>
      (cell.isLocal.eval env).bind fun isLocal =>
        (cell.isGlobal.eval env).map fun isGlobal => ⟨value, high, isLocal, isGlobal⟩

/-- The value of a heap slot under a valuation. -/
def HeapSlot.eval (env : Valuation) (slot : HeapSlot) : Option SlotValue :=
  (slot.cell.eval env).bind fun cell => (slot.free.eval env).map fun free => ⟨cell, free⟩

/-- A symbolic state has a value under a valuation. -/
structure State.Denotes (env : Valuation) (state : State) (value : StateValue) : Prop where
  registers : state.registers.map (Cell.eval env) = value.registers.map some
  heap : state.heap.map (HeapSlot.eval env) = value.heap.map some

theorem Cell.eval_eq_some_iff {env : Valuation} {cell : Cell} {value : CellValue} :
    cell.eval env = some value ↔
      cell.value.eval env = some value.value ∧ cell.high.eval env = some value.high ∧
        cell.isLocal.eval env = some value.isLocal ∧ cell.isGlobal.eval env = some value.isGlobal := by
  unfold eval
  constructor
  · intro h
    obtain ⟨word, hword, h⟩ := Option.bind_eq_some_iff.mp h
    obtain ⟨high, hhigh, h⟩ := Option.bind_eq_some_iff.mp h
    obtain ⟨isLocal, hlocal, h⟩ := Option.bind_eq_some_iff.mp h
    obtain ⟨isGlobal, hglobal, rfl⟩ := Option.map_eq_some_iff.mp h
    exact ⟨hword, hhigh, hlocal, hglobal⟩
  · rintro ⟨hword, hhigh, hlocal, hglobal⟩
    rw [hword, hhigh, hlocal, hglobal]
    rfl

theorem HeapSlot.eval_eq_some_iff {env : Valuation} {slot : HeapSlot} {value : SlotValue} :
    slot.eval env = some value ↔
      slot.cell.eval env = some value.cell ∧ slot.free.eval env = some value.free := by
  unfold eval
  constructor
  · intro h
    obtain ⟨cell, hcell, h⟩ := Option.bind_eq_some_iff.mp h
    obtain ⟨free, hfree, rfl⟩ := Option.map_eq_some_iff.mp h
    exact ⟨hcell, hfree⟩
  · rintro ⟨hcell, hfree⟩
    rw [hcell, hfree]
    rfl

/-! ## Lists of results -/

section Lists

variable {α β γ : Type}

/-- When every element has a result there is a list of results. -/
theorem exists_map_eq_map_some {f : α → Option β} {items : List α}
    (h : ∀ item ∈ items, ∃ result, f item = some result) :
    ∃ results : List β, items.map f = results.map some := by
  induction items with
  | nil => exact ⟨[], rfl⟩
  | cons item rest ih =>
      obtain ⟨result, hresult⟩ := h item List.mem_cons_self
      obtain ⟨results, hresults⟩ := ih fun other hother => h other (List.mem_cons_of_mem _ hother)
      exact ⟨result :: results, by rw [List.map_cons, List.map_cons, hresult, hresults]⟩

theorem exists_eq_some_of_map_eq {f : α → Option β} {items : List α} {results : List β}
    (h : items.map f = results.map some) {item : α} (hitem : item ∈ items) :
    ∃ result, f item = some result := by
  have hmem : f item ∈ results.map some := h ▸ List.mem_map_of_mem hitem
  obtain ⟨result, -, hresult⟩ := List.mem_map.mp hmem
  exact ⟨result, hresult.symm⟩

/-- What follows from the result of one element follows for the whole list. -/
theorem map_eq_map_of_results {f : α → Option β} {g : α → γ} {k : β → γ} {items : List α}
    {results : List β} (h : items.map f = results.map some)
    (hg : ∀ item result, f item = some result → g item = k result) :
    items.map g = results.map k := by
  induction items generalizing results with
  | nil =>
      cases results with
      | nil => rfl
      | cons result rest => cases h
  | cons item rest ih =>
      cases results with
      | nil => cases h
      | cons result others =>
          rw [List.map_cons, List.map_cons, List.cons.injEq] at h
          rw [List.map_cons, List.map_cons, hg item result h.1, ih h.2]

theorem getElem?_of_map_eq {f : α → Option β} {items : List α} {results : List β}
    (h : items.map f = results.map some) {i : Nat} {item : α} (hitem : items[i]? = some item) :
    ∃ result, results[i]? = some result ∧ f item = some result := by
  have hat := congrArg (·[i]?) h
  simp only [List.getElem?_map, hitem, Option.map_some] at hat
  obtain ⟨result, hresult, heq⟩ := Option.map_eq_some_iff.mp hat.symm
  exact ⟨result, hresult, heq.symm⟩

theorem exists_getElem?_of_map_eq {f : α → Option β} {items : List α} {results : List β}
    (h : items.map f = results.map some) {i : Nat} {result : β} (hresult : results[i]? = some result) :
    ∃ item, items[i]? = some item ∧ f item = some result := by
  have hat := congrArg (·[i]?) h
  simp only [List.getElem?_map, hresult, Option.map_some] at hat
  exact Option.map_eq_some_iff.mp hat

theorem length_eq_of_map_eq {f : α → Option β} {items : List α} {results : List β}
    (h : items.map f = results.map some) : results.length = items.length := by
  simpa using (congrArg List.length h).symm

theorem map_some_injective {first second : List β} (h : first.map some = second.map some) :
    first = second :=
  (List.map_inj_right fun _ _ => Option.some.inj).mp h

end Lists

/-- A symbolic state has one value under a valuation. -/
theorem State.Denotes.unique {env : Valuation} {state : State} {first second : StateValue}
    (hfirst : state.Denotes env first) (hsecond : state.Denotes env second) : first = second :=
  StateValue.ext (map_some_injective (hfirst.registers.symm.trans hsecond.registers))
    (map_some_injective (hfirst.heap.symm.trans hsecond.heap))

/-! ## Columns -/

/-- The columns of a frame with values. -/
def frameValues (registers : List CellValue) : List Value :=
  registers.map (fun cell => .bits cell.value) ++
    registers.map (fun cell => .bool cell.high) ++
    registers.map (fun cell => .bool cell.isLocal) ++
    registers.map (fun cell => .bool cell.isGlobal)

/-- The columns of a heap with values. -/
def heapValues (heap : List SlotValue) : List Value :=
  frameValues (heap.map (·.cell)) ++ heap.map fun slot => .bool slot.free

@[simp] theorem length_frameValues (registers : List CellValue) :
    (frameValues registers).length = 4 * registers.length := by
  simp [frameValues]
  omega

theorem frameValues_injective {first second : List CellValue}
    (h : frameValues first = frameValues second) : first = second := by
  have hlength : first.length = second.length := by
    have := congrArg List.length h
    simp only [length_frameValues] at this
    omega
  unfold frameValues at h
  obtain ⟨h, hglobal⟩ := List.append_inj' h (by simpa using hlength)
  obtain ⟨h, hlocal⟩ := List.append_inj' h (by simpa using hlength)
  obtain ⟨hvalue, hhigh⟩ := List.append_inj' h (by simpa using hlength)
  -- the four columns of a slot are the four components of its cell
  refine List.ext_getElem hlength fun i hi hi' => ?_
  have hcolumn : ∀ {component : CellValue → Value}, first.map component = second.map component →
      component first[i] = component second[i] := by
    intro component hmap
    simpa [hi, hi'] using congrArg (·[i]?) hmap
  exact CellValue.ext (Value.bits.inj (hcolumn hvalue)) (Value.bool.inj (hcolumn hhigh))
    (Value.bool.inj (hcolumn hlocal)) (Value.bool.inj (hcolumn hglobal))

theorem heapValues_injective {first second : List SlotValue}
    (h : heapValues first = heapValues second) : first = second := by
  have hlength : first.length = second.length := by
    have := congrArg List.length h
    simp only [heapValues, List.length_append, length_frameValues, List.length_map] at this
    omega
  obtain ⟨hcells, hfree⟩ := List.append_inj' h (by simpa using hlength)
  have hcells := frameValues_injective hcells
  refine List.ext_getElem hlength fun i hi hi' => ?_
  have hcell : first[i].cell = second[i].cell := by
    simpa [hi, hi'] using congrArg (·[i]?) hcells
  have hflag : first[i].free = second[i].free := by
    simpa [hi, hi'] using congrArg (·[i]?) hfree
  exact SlotValue.ext hcell hflag

theorem eval_frameColumns {env : Valuation} {registers : List Cell} {values : List CellValue}
    (h : registers.map (Cell.eval env) = values.map some) :
    (frameColumns registers).map (Term.eval env) = (frameValues values).map some := by
  unfold frameColumns frameValues
  simp only [List.map_append, List.map_map]
  congr 1
  · congr 1
    · congr 1
      · refine map_eq_map_of_results h fun cell value hcell => ?_
        simp [Term.eval, (Cell.eval_eq_some_iff.mp hcell).1]
      · refine map_eq_map_of_results h fun cell value hcell => ?_
        simp [Term.eval, (Cell.eval_eq_some_iff.mp hcell).2.1]
    · refine map_eq_map_of_results h fun cell value hcell => ?_
      simp [Term.eval, (Cell.eval_eq_some_iff.mp hcell).2.2.1]
  · refine map_eq_map_of_results h fun cell value hcell => ?_
    simp [Term.eval, (Cell.eval_eq_some_iff.mp hcell).2.2.2]

theorem eval_heapColumns {env : Valuation} {heap : List HeapSlot} {values : List SlotValue}
    (h : heap.map (HeapSlot.eval env) = values.map some) :
    (heapColumns heap).map (Term.eval env) = (heapValues values).map some := by
  have hcells : (heap.map (·.cell)).map (Cell.eval env) = (values.map (·.cell)).map some := by
    simp only [List.map_map]
    exact map_eq_map_of_results h fun slot value hslot => (HeapSlot.eval_eq_some_iff.mp hslot).1
  unfold heapColumns heapValues
  rw [List.map_append, List.map_append, eval_frameColumns hcells]
  congr 1
  simp only [List.map_map]
  refine map_eq_map_of_results h fun slot value hslot => ?_
  simp [Term.eval, (HeapSlot.eval_eq_some_iff.mp hslot).2]

/-- Cells whose columns all have values have values. -/
theorem exists_eval_of_frameColumns {env : Valuation} {registers : List Cell}
    (h : ∀ column ∈ frameColumns registers, ∃ value, column.eval env = some value) :
    ∃ values : List CellValue, registers.map (Cell.eval env) = values.map some := by
  refine exists_map_eq_map_some fun cell hcell => ?_
  have hcolumn : ∀ column ∈ cell.terms, ∃ value, column.eval env = some value := by
    intro column hmem
    refine h column ?_
    simp only [Cell.terms, List.mem_cons, List.not_mem_nil, or_false] at hmem
    simp only [frameColumns, List.mem_append, List.mem_map]
    rcases hmem with rfl | rfl | rfl | rfl
    · exact .inl (.inl (.inl ⟨cell, hcell, rfl⟩))
    · exact .inl (.inl (.inr ⟨cell, hcell, rfl⟩))
    · exact .inl (.inr ⟨cell, hcell, rfl⟩)
    · exact .inr ⟨cell, hcell, rfl⟩
  simp only [Cell.terms, List.mem_cons, List.not_mem_nil, or_false, forall_eq_or_imp, forall_eq,
    Term.eval, Option.map_eq_some_iff] at hcolumn
  obtain ⟨⟨-, word, hword, -⟩, ⟨-, high, hhigh, -⟩, ⟨-, isLocal, hlocal, -⟩, -, isGlobal, hglobal, -⟩ :=
    hcolumn
  exact ⟨⟨word, high, isLocal, isGlobal⟩, Cell.eval_eq_some_iff.mpr ⟨hword, hhigh, hlocal, hglobal⟩⟩

theorem exists_eval_of_heapColumns {env : Valuation} {heap : List HeapSlot}
    (h : ∀ column ∈ heapColumns heap, ∃ value, column.eval env = some value) :
    ∃ values : List SlotValue, heap.map (HeapSlot.eval env) = values.map some := by
  obtain ⟨cells, hcells⟩ := exists_eval_of_frameColumns fun column hcolumn =>
    h column (List.mem_append_left _ hcolumn)
  refine exists_map_eq_map_some fun slot hslot => ?_
  obtain ⟨cell, hcell⟩ := exists_eq_some_of_map_eq hcells (List.mem_map_of_mem hslot)
  obtain ⟨free, hfree⟩ := h (.bool slot.free)
    (List.mem_append_right _ (List.mem_map.mpr ⟨slot, hslot, rfl⟩))
  obtain ⟨flag, hflag, -⟩ := Option.map_eq_some_iff.mp hfree
  exact ⟨⟨cell, flag⟩, HeapSlot.eval_eq_some_iff.mpr ⟨hcell, hflag⟩⟩

/-! ## Facts -/

/-- The fact that a state is reachable at a point. -/
def pointFact (position : ProgramPoint) (state : StateValue) : Fact where
  relation := position.relationName
  args := frameValues state.registers ++ heapValues state.heap

/-- The fact that a method exits with a result and a heap when called with some arguments. -/
def exitFact (owner : ClassId) (method : MethodId) (arguments : List CellValue) (result : CellValue)
    (heap : List SlotValue) : Fact where
  relation := exitRelationName owner method
  args := frameValues (arguments ++ [result]) ++ heapValues heap

theorem pointFact_injective {position position' : ProgramPoint} {state state' : StateValue}
    (hlength : state.registers.length = state'.registers.length)
    (h : pointFact position state = pointFact position' state') :
    position = position' ∧ state = state' := by
  simp only [pointFact, Fact.mk.injEq] at h
  obtain ⟨hregisters, hheap⟩ := List.append_inj h.2 (by simp [hlength])
  exact ⟨ProgramPoint.relationName_injective h.1,
    StateValue.ext (frameValues_injective hregisters) (heapValues_injective hheap)⟩

theorem exitFact_injective {owner owner' : ClassId} {method method' : MethodId}
    {arguments arguments' : List CellValue} {result result' : CellValue}
    {heap heap' : List SlotValue} (hlength : arguments.length = arguments'.length)
    (h : exitFact owner method arguments result heap =
      exitFact owner' method' arguments' result' heap') :
    (owner = owner' ∧ method = method') ∧ arguments = arguments' ∧ result = result' ∧
      heap = heap' := by
  simp only [exitFact, Fact.mk.injEq] at h
  obtain ⟨hcells, hheap⟩ := List.append_inj h.2 (by simp [hlength])
  obtain ⟨harguments, hresult⟩ := List.append_inj (frameValues_injective hcells) hlength
  exact ⟨exitRelationName_injective h.1, harguments, by simpa using hresult,
    heapValues_injective hheap⟩

/-- The facts of a point atom are the values of its state. -/
theorem denotes_pointAtom_iff {env : Valuation} {position : ProgramPoint} {state : State}
    {fact : Fact} :
    (pointAtom position state).Denotes env fact ↔
      ∃ value, state.Denotes env value ∧ fact = pointFact position value := by
  constructor
  · rintro ⟨hrelation, hargs⟩
    have hcolumns : ∀ column ∈ (pointAtom position state).args, ∃ value,
        column.eval env = some value := fun column hcolumn => exists_eq_some_of_map_eq hargs hcolumn
    obtain ⟨registers, hregisters⟩ := exists_eval_of_frameColumns fun column hcolumn =>
      hcolumns column (List.mem_append_left _ hcolumn)
    obtain ⟨heap, hheap⟩ := exists_eval_of_heapColumns fun column hcolumn =>
      hcolumns column (List.mem_append_right _ hcolumn)
    refine ⟨⟨registers, heap⟩, ⟨hregisters, hheap⟩, ?_⟩
    rw [pointAtom, List.map_append, eval_frameColumns hregisters, eval_heapColumns hheap,
      ← List.map_append] at hargs
    cases fact
    exact Fact.mk.injEq .. ▸ ⟨hrelation.symm, (map_some_injective hargs).symm⟩
  · rintro ⟨value, hstate, rfl⟩
    refine ⟨rfl, ?_⟩
    rw [pointAtom, pointFact, List.map_append, List.map_append, eval_frameColumns hstate.registers,
      eval_heapColumns hstate.heap]

/-- The facts of an exit atom are the values of its arguments, its result and its heap. -/
theorem denotes_exitAtom_iff {env : Valuation} {owner : ClassId} {method : MethodId}
    {arguments : List Cell} {result : Cell} {heap : List HeapSlot} {fact : Fact} :
    (exitAtom owner method arguments result heap).Denotes env fact ↔
      ∃ argumentValues resultValue heapValue,
        arguments.map (Cell.eval env) = argumentValues.map some ∧
          result.eval env = some resultValue ∧
          heap.map (HeapSlot.eval env) = heapValue.map some ∧
          fact = exitFact owner method argumentValues resultValue heapValue := by
  constructor
  · rintro ⟨hrelation, hargs⟩
    have hcolumns : ∀ column ∈ (exitAtom owner method arguments result heap).args, ∃ value,
        column.eval env = some value := fun column hcolumn => exists_eq_some_of_map_eq hargs hcolumn
    -- the columns are those of the arguments and the result, and of the heap
    obtain ⟨cells, hcells⟩ := exists_eval_of_frameColumns fun column hcolumn =>
      hcolumns column (List.mem_append_left _ hcolumn)
    obtain ⟨values, hheap⟩ := exists_eval_of_heapColumns fun column hcolumn =>
      hcolumns column (List.mem_append_right _ hcolumn)
    obtain ⟨argumentValues, harguments⟩ := exists_map_eq_map_some fun cell hcell =>
      exists_eq_some_of_map_eq hcells (List.mem_append_left [result] hcell)
    obtain ⟨resultValue, hresult⟩ :=
      exists_eq_some_of_map_eq hcells (List.mem_append_right arguments (List.mem_singleton_self _))
    refine ⟨argumentValues, resultValue, values, harguments, hresult, hheap, ?_⟩
    -- the result is the last cell in front of the heap
    have hall : (arguments ++ [result]).map (Cell.eval env) =
        (argumentValues ++ [resultValue]).map some := by
      rw [List.map_append, List.map_append, harguments, List.map_singleton, hresult,
        List.map_singleton]
    rw [exitAtom, List.map_append, eval_frameColumns hall, eval_heapColumns hheap,
      ← List.map_append] at hargs
    cases fact
    exact Fact.mk.injEq .. ▸ ⟨hrelation.symm, (map_some_injective hargs).symm⟩
  · rintro ⟨argumentValues, resultValue, values, harguments, hresult, hheap, rfl⟩
    refine ⟨rfl, ?_⟩
    have hall : (arguments ++ [result]).map (Cell.eval env) =
        (argumentValues ++ [resultValue]).map some := by
      rw [List.map_append, List.map_append, harguments, List.map_singleton, hresult,
        List.map_singleton]
    rw [exitAtom, exitFact, List.map_append, List.map_append, eval_frameColumns hall,
      eval_heapColumns hheap]

end DalvikHorn
