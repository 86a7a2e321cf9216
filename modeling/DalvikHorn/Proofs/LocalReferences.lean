import DalvikHorn.Proofs.ArgumentCopies
import DalvikHorn.Proofs.MethodReferences

/-!
# References to the local heap

A register whose local flag is set refers to an object on the local heap.  Every
site of the layout holds one object at most, and the header of the site tells
whether it holds one.  In every state that can be reached, a register that refers
to the local heap holds the identifier of a site whose header is occupied.

The argument copies behind the return slot do not have this property: the local
heap moves to the global one without them.  Exits have it for their results as
long as somebody waits for the result.
-/

namespace DalvikHorn

/-! ## Housed cells -/

/-- A value that refers to the local heap is the identifier of a site whose header is
occupied. -/
def CellValue.Housed (layout : HeapLayout) (width : Nat) (heap : List SlotValue)
    (cell : CellValue) : Prop :=
  cell.isLocal = true → ∃ site ∈ layout.sites, cell.value = twosComplement site.id.toInt width ∧
    ∃ slot, heap[site.headerSlot]? = some slot ∧ slot.free = false

/-- A cell whose value is housed, as far as its terms have values. -/
def Cell.Housed (layout : HeapLayout) (width : Nat) (valuation : Valuation) (heap : List HeapSlot)
    (cell : Cell) : Prop :=
  cell.isLocal.eval valuation = some true → ∃ site ∈ layout.sites,
    cell.value.eval valuation = some (twosComplement site.id.toInt width) ∧
      ∃ slot, heap[site.headerSlot]? = some slot ∧ slot.free.eval valuation = some false

/-- All registers up to the return slot are housed. -/
def State.Housed (layout : HeapLayout) (width numRegisters : Nat) (valuation : Valuation)
    (state : State) : Prop :=
  ∀ r ≤ numRegisters, ∀ cell, state.registers[r]? = some cell →
    cell.Housed layout width valuation state.heap

/-- All registers of a state up to the return slot are housed. -/
def StateValue.Housed (layout : HeapLayout) (width numRegisters : Nat) (state : StateValue) :
    Prop :=
  ∀ r ≤ numRegisters, ∀ cell, state.registers[r]? = some cell →
    cell.Housed layout width state.heap

variable {layout : HeapLayout} {width : Nat} {valuation : Valuation}

theorem Cell.housed_iff {heap : List HeapSlot} {values : List SlotValue} {cell : Cell}
    {value : CellValue} (hheap : heap.map (HeapSlot.eval valuation) = values.map some)
    (hcell : cell.eval valuation = some value) :
    cell.Housed layout width valuation heap ↔ value.Housed layout width values := by
  obtain ⟨hword, -, hlocal, -⟩ := Cell.eval_eq_some_iff.mp hcell
  unfold Cell.Housed CellValue.Housed
  rw [hlocal, hword]
  constructor
  · intro h hset
    obtain ⟨site, hsite, hid, slot, hslot, hfree⟩ := h (by rw [hset])
    obtain ⟨result, hresult, heval⟩ := getElem?_of_map_eq hheap hslot
    have hflag := (HeapSlot.eval_eq_some_iff.mp heval).2
    rw [hfree] at hflag
    exact ⟨site, hsite, Option.some.inj hid, result, hresult, (Option.some.inj hflag).symm⟩
  · intro h hset
    obtain ⟨site, hsite, hid, result, hresult, hfree⟩ := h (Option.some.inj hset)
    obtain ⟨slot, hslot, heval⟩ := exists_getElem?_of_map_eq hheap hresult
    have hflag := (HeapSlot.eval_eq_some_iff.mp heval).2
    exact ⟨site, hsite, by rw [hid], slot, hslot, by rw [hflag, hfree]⟩

theorem State.Denotes.housed_iff {state : State} {value : StateValue}
    (h : state.Denotes valuation value) {numRegisters : Nat} :
    state.Housed layout width numRegisters valuation ↔ value.Housed layout width numRegisters := by
  constructor
  · intro hhoused r hr result hresult
    obtain ⟨cell, hcell, heval⟩ := exists_getElem?_of_map_eq h.registers hresult
    exact (Cell.housed_iff h.heap heval).mp (hhoused r hr cell hcell)
  · intro hhoused r hr cell hcell
    obtain ⟨result, hresult, heval⟩ := getElem?_of_map_eq h.registers hcell
    exact (Cell.housed_iff h.heap heval).mpr (hhoused r hr result hresult)

/-- Every occupied slot of a heap is occupied in another one. -/
def KeepsOccupied (valuation : Valuation) (heap later : List HeapSlot) : Prop :=
  ∀ (k : Nat) (slot : HeapSlot), heap[k]? = some slot → slot.free.eval valuation = some false →
    ∃ kept : HeapSlot, later[k]? = some kept ∧ kept.free.eval valuation = some false

theorem Cell.Housed.keepsOccupied {heap later : List HeapSlot} {cell : Cell}
    (h : cell.Housed layout width valuation heap) (hkept : KeepsOccupied valuation heap later) :
    cell.Housed layout width valuation later := by
  intro hlocal
  obtain ⟨site, hsite, hid, slot, hslot, hfree⟩ := h hlocal
  exact ⟨site, hsite, hid, hkept _ slot hslot hfree⟩

/-- A cell that does not refer to the local heap is housed. -/
theorem Cell.housed_of_not_local {heap : List HeapSlot} {cell : Cell} (hlocal : cell.isLocal = .ff) :
    cell.Housed layout width valuation heap := by
  intro hset
  rw [hlocal, Formula.eval] at hset
  cases hset

/-! ## Updates keep cells housed -/

namespace State

variable {numRegisters : Nat} {state : State}

theorem Housed.set (h : state.Housed layout width numRegisters valuation) {r : Nat} {cell : Cell}
    (hcell : cell.Housed layout width valuation state.heap) :
    State.Housed layout width numRegisters valuation
      { state with registers := state.registers.set r cell } := by
  intro other hother found hfound
  rw [List.getElem?_set] at hfound
  split at hfound
  · split at hfound
    · cases hfound
      exact hcell
    · cases hfound
  · exact h other hother found hfound

theorem Housed.mapRegisters (h : state.Housed layout width numRegisters valuation) {count : Nat}
    {change : Nat → Cell → Cell}
    (hchange : ∀ i cell, cell.Housed layout width valuation state.heap →
      (change i cell).Housed layout width valuation state.heap) :
    (state.mapRegisters count change).Housed layout width numRegisters valuation := by
  intro r hr found hfound
  rw [getElem?_mapRegisters] at hfound
  obtain ⟨cell, hcell, rfl⟩ := Option.map_eq_some_iff.mp hfound
  split
  · exact hchange r cell (h r hr cell hcell)
  · exact h r hr cell hcell

/-- Once the local heap has moved, no register up to the return slot refers to it. -/
theorem housed_promote : (state.promote layout width numRegisters).Housed layout width numRegisters
    valuation := by
  intro r hr found hfound
  rw [getElem?_promote] at hfound
  obtain ⟨cell, hcell, rfl⟩ := Option.map_eq_some_iff.mp hfound
  rw [if_pos (Nat.lt_succ_of_le hr)]
  exact Cell.housed_of_not_local rfl

/-- An object gets a register and the slots of its site. -/
theorem Housed.allocate (h : state.Housed layout width numRegisters valuation)
    {site : AllocationSite} (hsite : site ∈ layout.sites) {r : Nat} {post : State}
    (hpost : Cleared width site.slots
      { state with
        registers := state.registers.set r (.localRef (GlobalHeap.idLiteral width site.id)) }
      post) :
    post.Housed layout width numRegisters valuation := by
  have hheader : site.headerSlot ∈ site.slots := by
    rw [AllocationSite.slots, AllocationSite.headerSlot, List.mem_range'_1]
    omega
  have hkept : KeepsOccupied valuation state.heap post.heap := by
    intro k slot hslot hfree
    have hlength : k < post.heap.length := by
      rw [hpost.heap_length]
      exact (List.getElem?_eq_some_iff.mp hslot).1
    refine ⟨_, List.getElem?_eq_getElem hlength, ?_⟩
    -- A slot of the site is occupied now, and every other slot is what it was.
    rcases hpost.slot_eq k _ (List.getElem?_eq_getElem hlength) with hallocated | hsame
    · rw [hallocated]
      rfl
    · rw [show post.heap[k] = slot from Option.some.inj (hsame.symm.trans hslot)]
      exact hfree
  intro other hother found hfound
  rw [hpost.registers_eq, List.getElem?_set] at hfound
  split at hfound
  · split at hfound
    · cases hfound
      intro _
      exact ⟨site, hsite, rfl, _, hpost.allocated _ hheader, rfl⟩
    · cases hfound
  · exact (h other hother found hfound).keepsOccupied hkept

end State

namespace StepContext

variable {cx : StepContext}

theorem Updated.housed (haccesses : ∀ r, cx.Accesses r → r ≤ cx.shape.numRegisters)
    (hpre : cx.pre.Housed cx.layout cx.width cx.shape.numRegisters valuation) {state : State}
    (h : cx.Updated state) :
    state.Housed cx.layout cx.width cx.shape.numRegisters valuation := by
  induction h with
  | pre => exact hpre
  | promote _ _ => exact State.housed_promote
  | write _ _ _ hlocal ih => exact ih.set (Cell.housed_of_not_local hlocal)
  | @copy state r source cell high _ _ hsource hcell _ ih =>
      have hhoused : cell.Housed cx.layout cx.width valuation state.heap :=
        ih source (haccesses source hsource) cell hcell
      exact ih.set hhoused
  | @store state k source cell _ hsource hcell ih =>
      have hkept : KeepsOccupied valuation state.heap
          (state.heap.set k { cell := cell, free := .ff }) := by
        intro j slot hslot hfree
        have hlength : j < state.heap.length := (List.getElem?_eq_some_iff.mp hslot).1
        by_cases hj : k = j
        · exact ⟨_, by rw [hj, List.getElem?_set_self hlength], rfl⟩
        · exact ⟨slot, by rw [List.getElem?_set_ne hj, hslot], hfree⟩
      exact fun r hr found hfound => (ih r hr found hfound).keepsOccupied hkept
  | release _ _ ih =>
      refine ih.mapRegisters fun _ cell hcell hlocal => ?_
      -- A register that still refers to the local heap did so before.
      rw [Cell.release, Formula.eval_both, kleeneAnd_eq_true_iff] at hlocal
      exact hcell hlocal.1
  | allocate _ _ hsite hpost ih =>
      exact ih.allocate hsite ((State.clearSite_yields _ _ _).result _ hpost)

theorem Reads.housed (haccesses : ∀ r, cx.Accesses r → r ≤ cx.shape.numRegisters)
    (hpre : cx.pre.Housed cx.layout cx.width cx.shape.numRegisters valuation) {cell : Cell}
    (h : cx.Reads cell) : cell.Housed cx.layout cx.width valuation cx.pre.heap := by
  obtain ⟨r, hr, hcell⟩ := h
  exact hpre r (haccesses r hr) cell hcell

/-- A method is entered with the heap of the caller and with registers of the caller. -/
theorem Entered.housed (haccesses : ∀ r, cx.Accesses r → r ≤ cx.shape.numRegisters)
    (hpre : cx.pre.Housed cx.layout cx.width cx.shape.numRegisters valuation)
    {shape : FrameShape} {entry : State} (h : cx.Entered shape entry) :
    entry.Housed cx.layout cx.width shape.numRegisters valuation := by
  intro r hr cell hcell
  rw [h.heap_eq]
  rcases h.registers cell (List.mem_of_getElem? hcell) with rfl | hreads
  · exact Cell.housed_of_not_local rfl
  · exact hreads.housed haccesses hpre

/-! ## Returns -/

theorem length_returnedHeap : cx.returnedHeap.length = cx.pre.heap.length := by
  simp [returnedHeap, pre, State.canonical, canonicalHeap]

theorem getElem?_heap_afterReturn (result : Option Cell) {k : Nat} {callee own : HeapSlot}
    (hcallee : cx.returnedHeap[k]? = some callee) (hown : cx.pre.heap[k]? = some own) :
    (cx.afterReturn result).heap[k]? = some { callee with free := callee.free.both own.free } := by
  have hzip : (cx.returnedHeap.zip cx.pre.heap)[k]? = some (callee, own) :=
    List.getElem?_zip_eq_some.mpr ⟨hcallee, hown⟩
  rw [afterReturn, List.getElem?_map, hzip]
  rfl

/-- A slot that is occupied before a call is occupied after it. -/
theorem keepsOccupied_own (result : Option Cell) :
    KeepsOccupied valuation cx.pre.heap (cx.afterReturn result).heap := by
  intro k own hown hfree
  have hlength : k < cx.returnedHeap.length := by
    rw [length_returnedHeap]
    exact (List.getElem?_eq_some_iff.mp hown).1
  refine ⟨_, getElem?_heap_afterReturn result (List.getElem?_eq_getElem hlength) hown, ?_⟩
  rw [Formula.eval_both, hfree, kleeneAnd_false]

/-- A slot that is occupied at the exit is occupied after the call. -/
theorem keepsOccupied_returned (result : Option Cell) :
    KeepsOccupied valuation cx.returnedHeap (cx.afterReturn result).heap := by
  intro k callee hcallee hfree
  have hlength : k < cx.pre.heap.length := by
    rw [← length_returnedHeap]
    exact (List.getElem?_eq_some_iff.mp hcallee).1
  refine ⟨_, getElem?_heap_afterReturn result hcallee (List.getElem?_eq_getElem hlength), ?_⟩
  rw [Formula.eval_both, hfree, false_kleeneAnd]

theorem housed_afterReturn
    (hpre : cx.pre.Housed cx.layout cx.width cx.shape.numRegisters valuation)
    {result : Option Cell}
    (hresult : ∀ cell ∈ result, cell.Housed cx.layout cx.width valuation cx.returnedHeap) :
    (cx.afterReturn result).Housed cx.layout cx.width cx.shape.numRegisters valuation := by
  -- A call leaves the values and the local flags of the registers as they are.
  have hregisters : (cx.pre.mapRegisters (cx.shape.numRegisters + 1) fun _ =>
      afterCall cx.occupiedSites).Housed cx.layout cx.width cx.shape.numRegisters valuation :=
    hpre.mapRegisters fun _ cell hcell => hcell
  have hkept : State.Housed cx.layout cx.width cx.shape.numRegisters valuation
      { cx.afterReturn result with
        registers := (cx.pre.mapRegisters (cx.shape.numRegisters + 1) fun _ =>
          afterCall cx.occupiedSites).registers } :=
    fun r hr cell hcell => (hregisters r hr cell hcell).keepsOccupied (keepsOccupied_own result)
  cases result with
  | none => exact hkept
  | some cell =>
      exact hkept.set ((hresult cell rfl).keepsOccupied (keepsOccupied_returned (some cell)))

end StepContext

/-- No parameter of an entry point refers to the local heap. -/
theorem Environment.startCell_isLocal {env : Environment} (receiver : InstanceId) (method : Method)
    (count slot : Nat) : (env.startCell receiver method count slot).isLocal = .ff := by
  unfold startCell
  split
  · split
    · unfold parameterCell
      split <;> rfl
    · rfl
  · rfl

/-! ## The invariant -/

variable {program : Program} {config : Config} {labels : Labels}

/-- Registers of states are housed, and so are results that some call waits for. -/
def housedProperty (program : Program) (width : Nat) : Property where
  point := fun _ shape state => state.Housed program.layout width shape.numRegisters
  exit := fun _ method _ result heap =>
    program.Awaits method → result.Housed program.layout width heap

/-- The state before an instruction is housed when its value is. -/
theorem Program.HasStep.housed_pre {cx : StepContext}
    (h : program.HasStep (program.environment config labels) cx) {before : StateValue}
    (hbefore : cx.pre.Denotes valuation before)
    (hpoint : (housedProperty program config.width).point cx.point cx.shape before) :
    cx.pre.Housed cx.layout cx.width cx.shape.numRegisters valuation := by
  rw [h.layout_eq, h.width_eq]
  exact hbefore.housed_iff.mpr hpoint

theorem housed_invariant (hoperands : program.OperandsFit) (hvoid : program.VoidReturns)
    (hsignatures : program.SignaturesDiffer) :
    Invariant program (program.environment config labels)
      (housedProperty program config.width) where
  start := by
    intro owner method valuation state hentry hstate hfact
    refine hstate.housed_iff.mp fun r hr cell hcell => ?_
    obtain ⟨slot, -, rfl⟩ := List.mem_map.mp (List.mem_of_getElem? hcell)
    exact Cell.housed_of_not_local (Environment.startCell_isLocal _ _ _ _)
  step := by
    intro cx valuation before after post pc hstep hbefore hpoint hpost hafter
    have hpre := hstep.housed_pre hbefore hpoint
    have hhoused := hpost.housed (fun r hr => hoperands.le_of_accesses hstep hr) hpre
    rw [hstep.layout_eq, hstep.width_eq] at hhoused
    exact hafter.housed_iff.mp hhoused
  enter := by
    intro cx valuation before after owner method shape entry hstep hbefore hpoint hentry hafter hfact
    have hpre := hstep.housed_pre hbefore hpoint
    have hhoused := hentry.housed (fun r hr => hoperands.le_of_accesses hstep hr) hpre
    rw [hstep.layout_eq, hstep.width_eq] at hhoused
    exact hafter.housed_iff.mp hhoused
  leave := by
    intro cx valuation before after call target arguments result heap high hstep hbefore hpoint hcall
      htarget hresult hheap hexit hafter
    have hpre := hstep.housed_pre hbefore hpoint
    have hreturned : ∀ cell ∈ (if call.returnKind.returnsValue then
        some (cx.resultCell.withHigh high) else none),
        cell.Housed cx.layout cx.width valuation cx.returnedHeap := by
      intro cell hcell
      split at hcell
      · rename_i hreturns
        cases hcell
        -- The call waits for the result, so the exit has housed it.
        rw [hstep.oracle_eq] at htarget
        have hawaits : program.Awaits target.method :=
          ⟨call, Program.mem_calls hstep.mem hstep.instruction hcall,
            (Program.method_of_mem_targets htarget).symm, hreturns⟩
        have hhoused := (Cell.housed_iff hheap hresult).mpr (hexit hawaits)
        rw [hstep.layout_eq, hstep.width_eq]
        exact hhoused
      · cases hcell
    have hhoused := StepContext.housed_afterReturn hpre hreturned
    rw [hstep.layout_eq, hstep.width_eq] at hhoused
    exact hafter.housed_iff.mp hhoused
  exit := by
    intro cx valuation before cell result hstep hbefore hpoint hcell hresult hawaits
    have hpre := hstep.housed_pre hbefore hpoint
    rcases hcell with ⟨-, hopcode⟩ | hreads
    -- A method that returns without a value leaves any result, but none is awaited.
    · have hreturns := hvoid _ hstep.mem _ hstep.instruction hopcode
      exact absurd hawaits (Program.not_awaits_of_returnsVoid hsignatures hstep.mem hreturns)
    · have hhoused := hreads.housed (fun r hr => hoperands.le_of_accesses hstep hr) hpre
      rw [hstep.layout_eq, hstep.width_eq] at hhoused
      exact (Cell.housed_iff hbefore.heap hresult).mp hhoused

/-- In every state that can be reached, a register that refers to the local heap holds the
identifier of a site whose header is occupied. -/
theorem Program.local_references_occupied (hshapes : program.ShapesAgree)
    (hoperands : program.OperandsFit) (hvoid : program.VoidReturns)
    (hsignatures : program.SignaturesDiffer) (hvalid : config.validate = .ok ()) :
    ∃ compilation, program.compile config = .ok compilation ∧
      ∀ (position : ProgramPoint) (fact : Fact), fact.relation = position.relationName →
        Derivable compilation.store.clauses fact →
        ∃ shape state, program.Frame position.owner position.method shape ∧
          fact = pointFact position state ∧ state.registers.length = shape.slotCount ∧
          ∀ r ≤ shape.numRegisters, ∀ cell, state.registers[r]? = some cell →
            cell.isLocal = true →
            ∃ site ∈ program.layout.sites,
              cell.value = twosComplement site.id.toInt config.width ∧
              ∃ slot, state.heap[site.headerSlot]? = some slot ∧ slot.free = false := by
  obtain ⟨labels, compilation, hcompile, -, hclauses, -, -⟩ := compile_eq hshapes hvalid
  refine ⟨compilation, hcompile, fun position fact hname hfact => ?_⟩
  rw [hclauses] at hfact
  obtain ⟨shape, state, hframe, hlength, rfl, hhoused⟩ :=
    (housed_invariant hoperands hvoid hsignatures).holds hshapes hfact (.point position) hname
  exact ⟨shape, state, hframe, rfl, hlength, hhoused⟩

theorem Program.local_references_occupied_sample :
    sample.ShapesAgree ∧ sample.OperandsFit ∧ sample.VoidReturns ∧ sample.SignaturesDiffer ∧
      sampleConfig.validate = .ok () ∧
      ∃ compilation, sample.compile sampleConfig = .ok compilation ∧
        ∀ fact, fact.relation =
            ProgramPoint.relationName ⟨textHash "La;", textHash "start()V", 6⟩ →
          Derivable compilation.store.clauses fact →
          ∃ state, fact = pointFact ⟨textHash "La;", textHash "start()V", 6⟩ state ∧
            ∀ cell, state.registers[0]? = some cell → cell.isLocal = true →
              ∃ site ∈ sample.layout.sites, cell.value = twosComplement site.id.toInt 32 := by
  have hshapes : sample.ShapesAgree := by decide +kernel
  have hoperands : sample.OperandsFit := by decide +kernel
  have hvoid : sample.VoidReturns := by decide +kernel
  have hsignatures : sample.SignaturesDiffer := by decide +kernel
  have hvalid : sampleConfig.validate = .ok () := by decide +kernel
  obtain ⟨compilation, hcompile, hfacts⟩ :=
    local_references_occupied hshapes hoperands hvoid hsignatures hvalid
  refine ⟨hshapes, hoperands, hvoid, hsignatures, hvalid, compilation, hcompile, ?_⟩
  intro fact hname hfact
  obtain ⟨shape, state, -, hstate, -, hregisters⟩ := hfacts _ fact hname hfact
  refine ⟨state, hstate, fun cell hcell hlocal => ?_⟩
  obtain ⟨site, hsite, hvalue, -⟩ := hregisters 0 (Nat.zero_le _) cell hcell hlocal
  exact ⟨site, hsite, hvalue⟩

end DalvikHorn
