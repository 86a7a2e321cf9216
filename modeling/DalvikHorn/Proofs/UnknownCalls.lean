import DalvikHorn.Proofs.Escapes
import DalvikHorn.Proofs.Successors

/-!
# Labels after a call of an unknown method

A call of an unknown method joins labels one argument after the other, in a state that may
just have been lifted.  Seen from the outside all arguments are treated at once: the label
of an argument on the global heap covers the labels that the other arguments had before
the call, and no label that has been raised meanwhile (`StepContext.JoinsLabels`).

## Strategy

* **One argument.**  Raising a label changes no flag, and the labels that are joined are read
  off the state before the call.  So an argument is treated alike whichever arguments have
  been treated before it (`exists_shared`).
* **All arguments.**  What a register gains is a disjunction over the positions at which it
  is passed.  This does not depend on the order of the positions, and a state is determined by
  what each register gains (`StateValue.Raises.unique`).
* **Two transitions.**  The plain one starts from the state before the call, and the lifted one
  from this state after its references have become global (`StateValue.escaped`).  The labels
  are the same in both, and the flags are not.
-/

namespace DalvikHorn

/-! ## Labels of arguments -/

/-- The label that a register takes over: whether, for a position at which it is passed, one of the
arguments at the other positions is secret. -/
def CallSite.othersHigh (call : CallSite) (before : StateValue) (r : Nat) : Bool :=
  call.arguments.zipIdx.any fun (argument, i) =>
    decide (argument.toNat = r) &&
      (call.arguments.eraseIdx i).any fun other => before.flagged (·.high) other.toNat

theorem CallSite.othersHigh_of_notMem {call : CallSite} {before : StateValue} {r : Nat}
    (h : ∀ argument ∈ call.arguments, argument.toNat ≠ r) : call.othersHigh before r = false := by
  refine List.any_eq_false.mpr fun ⟨argument, i⟩ hitem => ?_
  have hargument := h argument (List.fst_mem_of_mem_zipIdx hitem)
  simp [hargument]

/-- What registers gain determines the state. -/
theorem StateValue.Raises.unique {raised : Nat → Bool} {state first second : StateValue}
    (hfirst : state.Raises raised first) (hsecond : state.Raises raised second) :
    first = second := by
  apply StateValue.ext
  · exact List.ext_getElem? fun r => (hfirst.registers r).trans (hsecond.registers r).symm
  · exact hfirst.heap.trans hsecond.heap.symm

namespace StepContext

variable {cx : StepContext} {call : CallSite} {before : StateValue}

/-- The state that an unknown call makes of the state `base` that a transition starts from. -/
structure JoinsLabels (cx : StepContext) (call : CallSite) (before base : StateValue)
    (returned : Option CellValue) (after : StateValue) : Prop where
  /-- An argument that is not overwritten by a result covers the labels of the others when it is a
  reference to the global heap. -/
  arguments : ∀ r ∈ call.arguments, returned = none ∨ r.toNat ≠ cx.shape.returnSlot →
    ∀ cell, base.registers[r.toNat]? = some cell →
      after.registers[r.toNat]? = some { cell with
        high := before.flagged (·.high) r.toNat ||
          (cell.isGlobal && call.othersHigh before r.toNat) }
  /-- Whatever is neither passed nor returned is as it was. -/
  others : ∀ r, (∀ argument ∈ call.arguments, argument.toNat ≠ r) →
    returned = none ∨ r ≠ cx.shape.returnSlot → after.registers[r]? = base.registers[r]?
  result : ∀ cell, returned = some cell → after.registers[cx.shape.returnSlot]? = some cell
  heap : after.heap = base.heap

/-- The cells of the arguments. -/
def argumentCells (cx : StepContext) (call : CallSite) : List Cell :=
  call.arguments.map fun r => .register r.toNat cx.width

/-- Raised arguments and a result are what a call leaves. -/
theorem joinsLabels_of_raises {base shared : StateValue}
    (hlength : base.registers.length = cx.shape.slotCount)
    (hhigh : ∀ r, base.flagged (·.high) r = before.flagged (·.high) r)
    (h : base.Raises (fun r => base.flagged (·.isGlobal) r && call.othersHigh before r) shared)
    (returned : Option CellValue) :
    cx.JoinsLabels call before base returned
      (shared.returning cx.shape.returnSlot returned) := by
  -- a result replaces the return slot only
  have hother : ∀ r, returned = none ∨ r ≠ cx.shape.returnSlot →
      (shared.returning cx.shape.returnSlot returned).registers[r]? = shared.registers[r]? := by
    intro r hr
    cases returned with
    | none => rfl
    | some cell =>
        obtain hnone | hne := hr
        · cases hnone
        · exact List.getElem?_set_ne hne.symm
  refine ⟨fun r _ hreturn cell hcell => ?_, fun r hnone hreturn => ?_, fun cell hcell => ?_, ?_⟩
  · have hcellHigh : cell.high = before.flagged (·.high) r.toNat := by
      rw [← hhigh, StateValue.flagged, hcell, Option.any_some]
    rw [hother _ hreturn, h.registers, hcell, ← hcellHigh, StateValue.flagged, hcell]
    rfl
  · rw [hother r hreturn, h.registers, CallSite.othersHigh_of_notMem hnone]
    simp
  · cases hcell
    have hlt : cx.shape.returnSlot < shared.registers.length := by
      rw [h.length_eq, hlength]
      exact returnSlot_lt
    exact List.getElem?_set_self hlt
  · cases returned with
    | none => exact h.heap
    | some cell => exact h.heap

section Orders

variable {env : Valuation} {base : StateValue} {state : State}
  (hpre : cx.pre.Denotes env before) (hstate : state.Denotes env base)
  (hlength : base.registers.length = cx.shape.slotCount)
  (hregisters : ∀ r ∈ call.arguments, r.toNat < cx.shape.slotCount)

include hpre hstate hlength hregisters

/-- In whatever order the arguments are processed, their labels gain the same. -/
theorem exists_shared_inOrder {result : Option Cell} {returned : Option CellValue}
    (hresult : result.map (Cell.eval env) = returned.map some) {order : List (UInt32 × Nat)}
    (horder : order.Perm call.arguments.zipIdx) :
    ∃ post shared, cx.shareInOrder order (cx.argumentCells call) result state = .ok post ∧
      post.Denotes env (shared.returning cx.shape.returnSlot returned) ∧
      base.Raises (fun r => base.flagged (·.isGlobal) r && call.othersHigh before r) shared := by
  obtain ⟨post, shared, hpost, hshared, hraises⟩ :=
    exists_shareInOrder (fun i => eval_labelOfOthers hpre hregisters i) hstate hlength
      (fun item hitem => hregisters item.1 (List.fst_mem_of_mem_zipIdx (horder.mem_iff.mp hitem)))
      hresult
  refine ⟨post, shared, hpost, hshared, ?_⟩
  convert hraises using 2 with r
  rw [CallSite.othersHigh, ← horder.any_eq]
  cases base.flagged (·.isGlobal) r <;> simp

/-- There is one state that the call leaves, and every order of the arguments leads to it. -/
theorem exists_joinsLabels {result : Option Cell} {returned : Option CellValue}
    (hhigh : ∀ r, base.flagged (·.high) r = before.flagged (·.high) r)
    (hresult : result.map (Cell.eval env) = returned.map some) :
    ∃ after, cx.JoinsLabels call before base returned after ∧
      ∀ order, order.Perm call.arguments.zipIdx → ∃ post,
        cx.shareInOrder order (cx.argumentCells call) result state = .ok post ∧
          post.Denotes env after := by
  obtain ⟨-, shared, -, -, hraises⟩ :=
    exists_shared_inOrder hpre hstate hlength hregisters hresult (List.Perm.refl _)
  refine ⟨_, joinsLabels_of_raises hlength hhigh hraises returned, fun order horder => ?_⟩
  obtain ⟨post, other, hpost, hdenotes, hother⟩ :=
    exists_shared_inOrder hpre hstate hlength hregisters hresult horder
  cases hother.unique hraises
  exact ⟨post, hpost, hdenotes⟩

end Orders

/-! ## The result -/

/-- What a call leaves as its result: a cell under a label, and facts about it under the same
label. -/
structure Summarizes (cx : StepContext) (call : CallSite) (label : Formula) (facts : List Clause)
    (result : Option Cell) : Prop where
  isSome : result.isSome = decide (call.returnKind ≠ .void)
  high : ∀ cell ∈ result, cell.high = label
  isLocal : ∀ cell ∈ result, cell.isLocal = .ff
  facts : ∀ clause ∈ facts, ∃ cell ∈ result, ∃ classKey field value blocked,
    clause = cx.derive [] (GlobalHeap.object classKey cell.value field value label blocked)
  /-- The label is that of a source, or joins those of the arguments. -/
  eval_label : ∀ before env, cx.pre.Denotes env before →
    label.eval env = some (cx.callsSource call ||
      call.arguments.any fun r => before.flagged (·.high) r.toNat)

theorem eval_resultLabel {env : Valuation} (hpre : cx.pre.Denotes env before)
    (hregisters : ∀ r ∈ call.arguments, r.toNat < cx.shape.slotCount) :
    (cx.resultLabel call (cx.argumentCells call)).eval env = some (cx.callsSource call ||
      call.arguments.any fun r => before.flagged (·.high) r.toNat) := by
  unfold resultLabel
  by_cases hsource : cx.callsSource call = true
  · rw [if_pos hsource, hsource, Bool.true_or]
    rfl
  · rw [if_neg hsource, Bool.eq_false_of_not_eq_true hsource, Bool.false_or, argumentCells,
      List.map_map]
    exact Formula.eval_any_map fun r hr => (eval_flags_of_denotes hpre (hregisters r hr)).1

theorem summarizes_unknownResult
    (hregisters : ∀ r ∈ call.arguments, r.toNat < cx.shape.slotCount) :
    let label := cx.resultLabel call (cx.argumentCells call)
    cx.Summarizes call label (cx.unknownResult call label).1 (cx.unknownResult call label).2 := by
  intro label
  have hlabel : ∀ before env, cx.pre.Denotes env before → label.eval env = some _ :=
    fun before env hpre => eval_resultLabel hpre hregisters
  unfold unknownResult
  -- of the kinds of results, objects and arrays alone are recorded on the heap
  cases hkind : call.returnKind with
  | void => exact ⟨by simp [hkind], nofun, nofun, nofun, hlabel⟩
  | string =>
      exact ⟨by simp [hkind], by simp [Cell.globalRef], by simp [Cell.globalRef], nofun, hlabel⟩
  | primitive =>
      exact ⟨by simp [hkind], by simp [Cell.scalar], by simp [Cell.scalar], nofun, hlabel⟩
  | object =>
      refine ⟨by simp [hkind], by simp [Cell.globalRef], by simp [Cell.globalRef], ?_, hlabel⟩
      intro clause hclause
      dsimp only at hclause
      split at hclause
      · rw [List.mem_singleton.mp hclause]
        exact ⟨_, rfl, _, _, _, _, rfl⟩
      · obtain ⟨field, -, rfl⟩ := List.mem_map.mp hclause
        exact ⟨_, rfl, _, _, _, _, rfl⟩
  | array =>
      refine ⟨by simp [hkind], by simp [Cell.globalRef], by simp [Cell.globalRef], ?_, hlabel⟩
      intro clause hclause
      rw [List.mem_singleton.mp hclause]
      exact ⟨_, rfl, _, _, _, _, rfl⟩

/-! ## The two transitions -/

/-- A clause of a call goes on with the joined labels, in whatever order the arguments are
processed.  It starts from `base`, whose value is that of the state before the call or of this
state after a lift. -/
structure JoinsFrom (cx : StepContext) (call : CallSite) (base : State)
    (baseValue : StateValue → StateValue) (result : Option Cell) (clause : Clause) : Prop where
  starts : clause.body.head? = some cx.current.toFormula
  joins : ∀ before env, env.Complete cx.width → cx.pre.Denotes env before →
    base.Denotes env (baseValue before) ∧
    ∃ returned after, result.map (Cell.eval env) = returned.map some ∧
      clause.head.Denotes env (pointFact (cx.pointAt cx.nextPc) after) ∧
      cx.JoinsLabels call before (baseValue before) returned after ∧
      ∀ order, order.Perm call.arguments.zipIdx → ∃ post,
        cx.shareInOrder order (cx.argumentCells call) result base = .ok post ∧
          post.Denotes env after

/-- A complete valuation gives a value to a cell. -/
theorem exists_eval_of_complete {env : Valuation} (hcomplete : env.Complete cx.width) {cell : Cell}
    (hcell : cell.Sorted cx.width) : ∃ value, cell.eval env = some value := by
  obtain ⟨word, hword⟩ := BvExpr.exists_eval cell.value hcell.value.applications
    (hcomplete.admits hcell.value.vars)
  obtain ⟨high, hhigh⟩ := Formula.exists_eval cell.high hcell.high.applications
    (hcomplete.admits hcell.high.vars)
  obtain ⟨isLocal, hlocal⟩ := Formula.exists_eval cell.isLocal hcell.isLocal.applications
    (hcomplete.admits hcell.isLocal.vars)
  obtain ⟨isGlobal, hglobal⟩ := Formula.exists_eval cell.isGlobal hcell.isGlobal.applications
    (hcomplete.admits hcell.isGlobal.vars)
  exact ⟨⟨word, high, isLocal, isGlobal⟩,
    Cell.eval_eq_some_iff.mpr ⟨hword, hhigh, hlocal, hglobal⟩⟩

section Transitions

variable (hregisters : ∀ r ∈ call.arguments, r.toNat < cx.shape.slotCount) {result : Option Cell}
  (hresult : ∀ cell ∈ result, cell.Sorted cx.width)

include hregisters hresult

theorem exists_joinsFrom {base : State} {baseValue : StateValue → StateValue}
    (hsized : base.Sized cx.shape.slotCount)
    (hbase : ∀ before env, cx.pre.Denotes env before → base.Denotes env (baseValue before))
    (hhigh : ∀ before r, (baseValue before).flagged (·.high) r = before.flagged (·.high) r) :
    ∃ post, cx.shareArguments call (cx.argumentCells call) result base = .ok post ∧
      ∀ guards, cx.JoinsFrom call base baseValue result (cx.step guards post) := by
  obtain ⟨post, hpost, -⟩ := gives_shareArguments hregisters (cx.argumentCells call) result hsized
  refine ⟨post, hpost, fun guards => ⟨rfl, fun before env hcomplete hpre => ?_⟩⟩
  have hstate := hbase before env hpre
  have hlength : (baseValue before).registers.length = cx.shape.slotCount :=
    (length_eq_of_map_eq hstate.registers).trans hsized
  obtain ⟨returned, hreturned⟩ : ∃ returned : Option CellValue,
      result.map (Cell.eval env) = returned.map some := by
    cases result with
    | none => exact ⟨none, rfl⟩
    | some cell =>
        obtain ⟨value, hvalue⟩ := exists_eval_of_complete hcomplete (hresult cell rfl)
        exact ⟨some value, congrArg some hvalue⟩
  obtain ⟨after, hjoins, horders⟩ :=
    exists_joinsLabels hpre hstate hlength hregisters (hhigh before) hreturned
  refine ⟨hstate, returned, after, hreturned, ?_, hjoins, horders⟩
  -- the clause has been built in one of the orders
  obtain ⟨built, hbuilt, hdenotes⟩ := horders _ (List.Perm.refl _)
  cases hpost.symm.trans hbuilt
  exact denotes_pointAtom_iff.mpr ⟨after, hdenotes, rfl⟩

theorem exists_plain :
    ∃ post, cx.shareArguments call (cx.argumentCells call) result cx.pre = .ok post ∧
      ∀ guards, cx.JoinsFrom call cx.pre id result (cx.step guards post) :=
  exists_joinsFrom hregisters hresult sized_pre (fun _ _ hpre => hpre) fun _ _ => rfl

/-- A lift changes no label. -/
theorem exists_lifted :
    ∃ post, cx.shareArguments call (cx.argumentCells call) result
        (cx.pre.promote cx.layout cx.width cx.shape.numRegisters) = .ok post ∧
      ∀ guards, cx.JoinsFrom call (cx.pre.promote cx.layout cx.width cx.shape.numRegisters)
        (·.escaped cx.shape.numRegisters) result (cx.step guards post) := by
  apply exists_joinsFrom hregisters hresult sized_promoted
  · intro before env hpre
    have hheap : before.heap.length = cx.layout.size :=
      (length_eq_of_map_eq hpre.heap).trans cx.sorted_pre.heap_length
    exact hpre.promote hheap cx.width cx.shape.numRegisters
  · intro before r
    rw [StateValue.flagged, StateValue.flagged, StateValue.getElem?_escaped]
    cases before.registers[r]? with
    | none => rfl
    | some cell =>
        dsimp only [Option.map_some, Option.any_some]
        split <;> rfl

end Transitions

/-- The condition under which a call lifts: one of its arguments is local. -/
def escapingLabel (cx : StepContext) (call : CallSite) : Formula :=
  .any ((cx.argumentCells call).map (·.isLocal))

theorem eval_escapingLabel {env : Valuation} (hpre : cx.pre.Denotes env before)
    (hregisters : ∀ r ∈ call.arguments, r.toNat < cx.shape.slotCount) :
    (cx.escapingLabel call).eval env =
      some (call.arguments.any fun r => before.flagged (·.isLocal) r.toNat) := by
  rw [escapingLabel, argumentCells, List.map_map]
  exact Formula.eval_any_map fun r hr => (eval_flags_of_denotes hpre (hregisters r hr)).2.1

/-- Before anything is known the condition is not false, unless there are no arguments. -/
theorem undecided_escapingLabel (h : call.arguments ≠ []) :
    Undecided [cx.escapingLabel call] := by
  refine List.forall_mem_singleton.mpr fun hfalse => ?_
  rw [escapingLabel, argumentCells, List.map_map, Formula.eval_any,
    Formula.evalAny_eq_false_iff] at hfalse
  obtain ⟨r, hr⟩ := List.exists_mem_of_ne_nil _ h
  cases hfalse _ (List.mem_map_of_mem hr)

/-- The clauses that move the local heap.  A call without arguments has none. -/
def movingClauses (cx : StepContext) (call : CallSite) : List Clause :=
  if call.arguments = [] then [] else
    (cx.layout.sites.map (·.records cx.width (cx.body [cx.escapingLabel call]) cx.pre)).flatten

/-- The clauses that go on after the local heap has moved. -/
def liftedClauses (cx : StepContext) (call : CallSite) (post : State) : List Clause :=
  if call.arguments = [] then [] else [cx.step [cx.escapingLabel call] post]

theorem mem_liftedClauses_iff {post : State} {clause : Clause} :
    clause ∈ cx.liftedClauses call post ↔
      call.arguments ≠ [] ∧ clause = cx.step [cx.escapingLabel call] post := by
  unfold liftedClauses
  by_cases hnone : call.arguments = []
  · simp [hnone]
  · simp [hnone]

theorem liftIfAnyLocal_eq (call : CallSite) (hlayout : cx.layout.Registered)
    {update : State → Except Error State} {post : State}
    (hpost : update (cx.pre.promote cx.layout cx.width cx.shape.numRegisters) = .ok post) :
    cx.liftIfAnyLocal (cx.argumentCells call) [] update =
      .ok (cx.movingClauses call ++ cx.liftedClauses call post) := by
  unfold liftIfAnyLocal movingClauses liftedClauses
  by_cases hnone : call.arguments = []
  · have hfalse : (cx.escapingLabel call).isFalse = true := by
      rw [escapingLabel, argumentCells, hnone]
      rfl
    rw [if_pos hnone, if_pos hnone]
    exact if_pos hfalse
  · have hopen : ¬ (cx.escapingLabel call).isFalse = true := fun hfalse =>
      undecided_escapingLabel hnone _ (List.mem_singleton_self _)
        (Formula.eval_of_isFalse _ hfalse)
    rw [if_neg hnone, if_neg hnone]
    exact (if_neg hopen).trans (lift_eq hlayout _ hpost)

theorem enabled_lifted_iff {env : Valuation} {post : State} :
    (cx.step [cx.escapingLabel call] post).Enabled env ↔
      (cx.escapingLabel call).eval env = some true := by
  have hsorted : (cx.escapingLabel call).Sorted cx.width := by
    refine Formula.sorted_any fun part hpart => ?_
    obtain ⟨cell, hcell, rfl⟩ := List.mem_map.mp hpart
    obtain ⟨r, -, rfl⟩ := List.mem_map.mp hcell
    exact (Cell.sorted_register r.toNat).isLocal
  rw [step, jump, enabled_derive_iff (List.forall_mem_singleton.mpr hsorted.applications)]
  exact List.forall_mem_singleton

/-- The clauses that move the local heap are facts of the global heap, and none is dropped. -/
theorem kept_of_mem_movingClauses (hlayout : cx.layout.Registered) {clause : Clause}
    (hclause : clause ∈ cx.movingClauses call) :
    clause.head.relation = GlobalHeap.objectRelation ∧ clause.isVacuous = false := by
  unfold movingClauses at hclause
  split at hclause
  · cases hclause
  rename_i hsome
  obtain ⟨records, hrecords, hclause⟩ := List.mem_flatten.mp hclause
  obtain ⟨site, hsite, rfl⟩ := List.mem_map.mp hrecords
  -- records with and without fields apply the same relation
  constructor
  · unfold AllocationSite.records at hclause
    dsimp only at hclause
    split at hclause
    · obtain ⟨entry, -, rfl⟩ := List.mem_map.mp hclause
      rfl
    · rw [List.mem_singleton.mp hclause]
      rfl
  · have hheader : cx.pre.heap.getD site.headerSlot default =
        .canonical Names.ownHeap site.headerSlot cx.width := by
      have hslot := slot_eq (hlayout.headerSlot_lt hsite)
      rw [State.slot_eq_getD (cx.sorted_pre.heap_length ▸ hlayout.headerSlot_lt hsite)] at hslot
      exact Except.ok.inj hslot
    have hfree : (HeapSlot.canonical Names.ownHeap site.headerSlot cx.width).free.eval .empty =
        none := rfl
    -- no part is false under the empty valuation
    apply Clause.isVacuous_eq_false .empty
    rw [AllocationSite.body_of_mem_records hclause, hheader]
    refine List.forall_mem_append.mpr ⟨List.forall_mem_cons.mpr ⟨?_, ?_⟩, ?_⟩
    · exact undecided_atom cx.current _ (List.mem_singleton_self _)
    · exact undecided_escapingLabel hsome
    · rw [List.forall_mem_singleton, Formula.eval_negate, hfree]
      simp

/-- The clauses of a call. -/
theorem compileUnknownCall_eq (hlayout : cx.layout.Registered)
    (hregisters : ∀ r ∈ call.arguments, r.toNat < cx.shape.slotCount) {plain post : State}
    {label : Formula} (hlabel : label = cx.resultLabel call (cx.argumentCells call))
    (hplain : cx.shareArguments call (cx.argumentCells call) (cx.unknownResult call label).2
      cx.pre = .ok plain)
    (hpost : cx.shareArguments call (cx.argumentCells call) (cx.unknownResult call label).2
      (cx.pre.promote cx.layout cx.width cx.shape.numRegisters) = .ok post) :
    cx.compileUnknownCall call = .ok ((cx.unknownResult call label).1 ++
      cx.step [] plain :: (cx.movingClauses call ++ cx.liftedClauses call post)) := by
  subst hlabel
  have hlift := liftIfAnyLocal_eq call hlayout hpost
  rw [compileUnknownCall, registers_eq hregisters]
  rw [argumentCells] at hplain hlift
  simp only [Bind.bind, Except.bind, argumentCells, hplain, hlift]
  rfl

/-- A call without a result that passes the return slot of a method with one register. -/
def passing : Instruction where
  pc := 0
  mnemonic := "invoke-static"
  registers := [1, 0]
  reference := some "Lc;->keep(II)V"

def passingMethod : Method where
  name := "f()V"
  numRegisters := 1
  numArguments := 0
  isStatic := true
  instructions := [passing, { pc := 3, mnemonic := "return-void" }]

def passingClass : Class where
  name := "La;"
  methods := [passingMethod]

def passingContext : StepContext :=
  (Program.environment { classes := [passingClass] } Program.sampleConfig {}).stepContext 0
    passingClass passingMethod 0 passing

def passingCall : CallSite where
  kind := .static
  target := { owner := "Lc;", name := "keep", parameters := ["I", "I"], returnType := "V" }
  arguments := [1, 0]

/-- A state with a secret in the register, and a reference to the global heap in the return slot. -/
def passingState : StateValue where
  registers := [⟨5, true, false, false⟩, ⟨7, false, false, true⟩]
  heap := []

end StepContext

end DalvikHorn
