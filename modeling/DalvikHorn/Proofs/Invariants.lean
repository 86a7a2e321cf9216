import DalvikHorn.Proofs.Compiled
import DalvikHorn.Proofs.StateFacts

/-!
# Invariants of reachable states

The clauses of a program derive the states that can be reached at its points, and
the exits of its methods.  A property of both is an invariant when the start of an
entry point has it and every kind of clause keeps it (`Invariant`).  The induction
over derivations is done here once: `Invariant.holds`.

It needs that a fact determines its state.  The relation of a point has the columns
of one frame only, because the shapes of the program agree.
-/

namespace DalvikHorn

/-- A property of states at points of a program and one of exits. -/
structure Property where
  point : ProgramPoint → FrameShape → StateValue → Prop
  exit : ClassId → MethodId → List CellValue → CellValue → List SlotValue → Prop

/-- A fact that is a state or an exit of a frame of the program and has a property.  Facts of
the other relations are not restricted. -/
def Program.Describes (program : Program) (property : Property) (fact : Fact) : Relation → Prop
  | .point position =>
      ∃ shape state, program.Frame position.owner position.method shape ∧
        state.registers.length = shape.slotCount ∧ fact = pointFact position state ∧
        property.point position shape state
  | .exit owner method =>
      ∃ shape arguments result heap, program.Frame owner method shape ∧
        arguments.length = shape.numArguments ∧ fact = exitFact owner method arguments result heap ∧
        property.exit owner method arguments result heap
  | _ => True

/-- A fact that has a property, whichever relation it belongs to. -/
def Program.Described (program : Program) (property : Property) (fact : Fact) : Prop :=
  ∀ relation : Relation, fact.relation = relation.name → program.Describes property fact relation

/-- A property that every kind of clause of a program keeps. -/
structure Invariant (program : Program) (env : Environment) (property : Property) : Prop where
  /-- An entry point starts. -/
  start : ∀ {owner : Class} {method : Method} {valuation : Valuation} {state : StateValue},
    (owner, method) ∈ program.entryPoints →
    (env.startFrame (siteHash owner.id 0 0) method).Denotes valuation state →
    Derivable (program.clauses env) (pointFact ⟨owner.id, method.id, 0⟩ state) →
    property.point ⟨owner.id, method.id, 0⟩ method.shape state
  /-- An instruction goes on in its method. -/
  step : ∀ {cx : StepContext} {valuation : Valuation} {before after : StateValue} {post : State}
    {pc : UInt32},
    program.HasStep env cx → cx.pre.Denotes valuation before →
    property.point cx.point cx.shape before → cx.Updated post → post.Denotes valuation after →
    property.point (cx.pointAt pc) cx.shape after
  /-- An instruction enters a method. -/
  enter : ∀ {cx : StepContext} {valuation : Valuation} {before after : StateValue}
    {owner : ClassId} {method : MethodId} {shape : FrameShape} {entry : State},
    program.HasStep env cx → cx.pre.Denotes valuation before →
    property.point cx.point cx.shape before → cx.Entered shape entry →
    entry.Denotes valuation after →
    Derivable (program.clauses env) (pointFact ⟨owner, method, 0⟩ after) →
    property.point ⟨owner, method, 0⟩ shape after
  /-- A call goes on at an exit of its target. -/
  leave : ∀ {cx : StepContext} {valuation : Valuation} {before after : StateValue}
    {call : CallSite} {target : CallTarget} {arguments : List CellValue} {result : CellValue}
    {heap : List SlotValue} {high : Formula},
    program.HasStep env cx → cx.pre.Denotes valuation before →
    property.point cx.point cx.shape before →
    cx.instruction.Calls call → target ∈ call.targets cx.oracle →
    cx.resultCell.eval valuation = some result →
    cx.returnedHeap.map (HeapSlot.eval valuation) = heap.map some →
    property.exit target.owner target.method arguments result heap →
    (cx.afterReturn (if call.returnKind.returnsValue then some (cx.resultCell.withHigh high)
      else none)).Denotes valuation after →
    property.point (cx.pointAt cx.nextPc) cx.shape after
  /-- A method exits. -/
  exit : ∀ {cx : StepContext} {valuation : Valuation} {before : StateValue} {cell : Cell}
    {result : CellValue},
    program.HasStep env cx → cx.pre.Denotes valuation before →
    property.point cx.point cx.shape before →
    (cell = cx.resultCell ∧ cx.instruction.opcode = .returnVoid ∨ cx.Reads cell) →
    cell.eval valuation = some result →
    property.exit cx.owner.id cx.method.id (before.registers.drop (cx.shape.numRegisters + 1)) result
      before.heap

variable {program : Program} {config : Config} {labels : Labels} {property : Property}

/-! ## Bodies and heads -/

theorem State.Denotes.registers_length {valuation : Valuation} {state : State} {value : StateValue}
    (h : state.Denotes valuation value) : value.registers.length = state.registers.length :=
  length_eq_of_map_eq h.registers

/-- The relation of a fact decides which description it needs. -/
theorem describes_of_name {fact : Fact} (relation : Relation) (hname : fact.relation = relation.name)
    (h : program.Describes property fact relation) :
    program.Described property fact := by
  intro other hother
  have hsame : relation = other := Relation.name_injective (by rw [← hname, hother])
  exact hsame ▸ h

theorem describes_point {position : ProgramPoint} {shape : FrameShape} {state : StateValue}
    (hframe : program.Frame position.owner position.method shape)
    (hlength : state.registers.length = shape.slotCount)
    (h : property.point position shape state) :
    program.Described property (pointFact position state) :=
  describes_of_name (.point position) rfl ⟨shape, state, hframe, hlength, rfl, h⟩

/-- Facts of the global relations are not restricted. -/
theorem describes_of_global (relation : Relation) (hglobal : relation.isGlobal) {fact : Fact}
    (hname : fact.relation = relation.name) : program.Described property fact := by
  refine describes_of_name relation hname ?_
  cases relation with
  | point position => cases hglobal
  | exit owner method => cases hglobal
  | _ => trivial

theorem describes_of_isFact {width : Nat} {atom : Atom} (hatom : GlobalHeap.IsFact width atom)
    {valuation : Valuation} {fact : Fact} (h : atom.Denotes valuation fact) :
    program.Described property fact := by
  have hrelation := h.relation_eq.symm
  cases hatom with
  | object => exact describes_of_global .object rfl hrelation
  | extra => exact describes_of_global .extra rfl hrelation
  | launch => exact describes_of_global .launch rfl hrelation
  | static => exact describes_of_global .static rfl hrelation

/-- The state that the body of a clause starts from has the property. -/
theorem exists_before (hshapes : program.ShapesAgree) {cx : StepContext}
    (hstep : program.HasStep (program.environment config labels) cx) {clauses : List Clause}
    {valuation : Valuation} {guards : List Formula}
    (hbody : ∀ part ∈ cx.body guards, part.Holds
      (fun premise => Derivable clauses premise ∧ program.Described property premise) valuation) :
    ∃ before, cx.pre.Denotes valuation before ∧ property.point cx.point cx.shape before := by
  obtain ⟨fact, ⟨-, hdescribed⟩, hdenotes⟩ :=
    Formula.holds_atom.mp (hbody cx.current.toFormula List.mem_cons_self)
  obtain ⟨before, hbefore, rfl⟩ := denotes_pointAtom_iff.mp hdenotes
  obtain ⟨shape, state, hframe, hlength, hfact, hpoint⟩ :=
    hdescribed (.point cx.point) rfl
  have hsame : shape = cx.shape := hframe.unique hshapes hstep.frame
  subst hsame
  have hcolumns : before.registers.length = cx.shape.slotCount := by
    rw [hbefore.registers_length, cx.sorted_pre.registers_length]
  obtain ⟨-, rfl⟩ := pointFact_injective (hcolumns.trans hlength.symm) hfact
  exact ⟨before, hbefore, hpoint⟩

/-! ## The induction -/

theorem Invariant.emitted (hshapes : program.ShapesAgree)
    (hinvariant : Invariant program (program.environment config labels) property)
    {cx : StepContext} (hstep : program.HasStep (program.environment config labels) cx)
    {clause : Clause} (hclause : cx.Emitted clause) {valuation : Valuation} {fact : Fact}
    (hfact : Derivable (program.clauses (program.environment config labels)) fact)
    (hbody : ∀ part ∈ clause.body, part.Holds
      (fun premise => Derivable (program.clauses (program.environment config labels)) premise ∧
        program.Described property premise) valuation)
    (hhead : clause.head.Denotes valuation fact) :
    program.Described property fact := by
  cases hclause with
  | step hguards hpost =>
      obtain ⟨before, hbefore, hpoint⟩ := exists_before hshapes hstep hbody
      obtain ⟨after, hafter, rfl⟩ := denotes_pointAtom_iff.mp hhead
      refine describes_point hstep.frame ?_ (hinvariant.step hstep hbefore hpoint hpost hafter)
      rw [hafter.registers_length, hpost.sorted.registers_length]
  | fact hguards hatom => exact describes_of_isFact hatom hhead
  | enter hguards htarget hshape hentry =>
      obtain ⟨before, hbefore, hpoint⟩ := exists_before hshapes hstep hbody
      obtain ⟨after, hafter, rfl⟩ := denotes_pointAtom_iff.mp hhead
      rw [hstep.oracle_eq] at htarget
      refine describes_point (.inl (Program.declares_of_targets htarget)) ?_
        (hinvariant.enter hstep hbefore hpoint hentry hafter hfact)
      rw [hafter.registers_length, hentry.registers_length]
  | @leave call target guards arguments high hcall htarget hguards hlength harguments hhigh =>
      obtain ⟨before, hbefore, hpoint⟩ := exists_before hshapes hstep hbody
      obtain ⟨after, hafter, rfl⟩ := denotes_pointAtom_iff.mp hhead
      -- the exit that the call goes on from
      obtain ⟨exit, ⟨-, hdescribed⟩, hexit⟩ :=
        Formula.holds_atom.mp (hbody _ (List.mem_cons_of_mem _ List.mem_cons_self))
      obtain ⟨passed, result, heap, hpassed, hresult, hheap, rfl⟩ := denotes_exitAtom_iff.mp hexit
      obtain ⟨shape, arguments', result', heap', hframe, hlength', heq, hproperty⟩ :=
        hdescribed (.exit target.owner target.method) rfl
      obtain ⟨hfound, -⟩ := CallSite.targets_of_mem_targets htarget
      rw [hstep.oracle_eq] at hfound
      have hsame : shape = target.shape :=
        hframe.unique hshapes (.inl (Program.declares_of_targets hfound))
      have hcount : passed.length = arguments'.length := by
        rw [length_eq_of_map_eq hpassed, hlength, hlength', hsame]
      obtain ⟨-, rfl, rfl, rfl⟩ := exitFact_injective hcount heq
      refine describes_point hstep.frame ?_ (hinvariant.leave hstep hbefore hpoint hcall htarget
        hresult hheap hproperty hafter)
      rw [hafter.registers_length]
      exact (StepContext.sorted_afterReturn_result hhigh).registers_length
  | @startInitializer owner shape hinitializer hshape =>
      obtain ⟨before, hbefore, hpoint⟩ := exists_before hshapes hstep hbody
      obtain ⟨after, hafter, rfl⟩ := denotes_pointAtom_iff.mp hhead
      rw [hstep.oracle_eq] at hinitializer hshape
      refine describes_point (Program.frame_of_initializer hshapes hinitializer hshape) ?_
        (hinvariant.enter hstep hbefore hpoint (StepContext.entered_zeroed shape) hafter hfact)
      have hentry : cx.Entered shape (.zeroed shape cx.pre.heap cx.width) :=
        StepContext.entered_zeroed shape
      rw [hafter.registers_length, hentry.registers_length]
  | @exit result hresult =>
      obtain ⟨before, hbefore, hpoint⟩ := exists_before hshapes hstep hbody
      obtain ⟨arguments, value, heap, harguments, hvalue, hheap, rfl⟩ :=
        denotes_exitAtom_iff.mp hhead
      have hheap' : heap = before.heap := map_some_injective (by rw [← hheap, hbefore.heap])
      have hkept : arguments = before.registers.drop (cx.shape.numRegisters + 1) := by
        refine map_some_injective ?_
        rw [← harguments, List.map_drop, hbefore.registers, List.map_drop]
      subst hheap' hkept
      refine describes_of_name (.exit cx.owner.id cx.method.id) rfl
        ⟨cx.shape, _, value, before.heap, hstep.frame, ?_, rfl,
          hinvariant.exit hstep hbefore hpoint hresult hvalue⟩
      rw [List.length_drop, hbefore.registers_length, cx.sorted_pre.registers_length,
        FrameShape.slotCount]
      omega

theorem Invariant.fact (hinvariant : Invariant program (program.environment config labels) property)
    {clause : Clause} (hclause : clause ∈ (program.environment config labels).factClauses program)
    {valuation : Valuation} {fact : Fact}
    (hfact : Derivable (program.clauses (program.environment config labels)) fact)
    (hhead : clause.head.Denotes valuation fact) :
    program.Described property fact := by
  rcases Environment.factClause_cases hclause with ⟨relation, hglobal, hname⟩ |
    ⟨⟨owner, method⟩, hentry, rfl⟩
  · exact describes_of_global relation hglobal (hhead.relation_eq.symm.trans hname)
  · -- an entry point starts
    obtain ⟨state, hstate, rfl⟩ := denotes_pointAtom_iff.mp hhead
    obtain ⟨hmem, hfits⟩ := List.mem_filter.mp hentry
    simp only [Bool.and_eq_true, decide_eq_true_eq] at hfits
    refine describes_point (Program.frame_of_mem hmem hfits.2) ?_
      (hinvariant.start hentry hstate hfact)
    rw [hstate.registers_length]
    exact (Environment.sorted_startFrame _ _).registers_length

/-- An invariant holds of everything that can be derived. -/
theorem Invariant.holds (hshapes : program.ShapesAgree)
    (hinvariant : Invariant program (program.environment config labels) property) {fact : Fact}
    (h : Derivable (program.clauses (program.environment config labels)) fact) :
    program.Described property fact := by
  refine h.induct (motive := program.Described property) ?_
  intro clause hclause valuation fact hadmits hbody hhead
  have hfact : Derivable (program.clauses (program.environment config labels)) fact := by
    refine derivable_models _ clause hclause valuation fact hadmits (fun part hpart => ?_) hhead
    exact Formula.Holds.mono (fun _ hpremise => hpremise.1) part (hbody part hpart)
  rcases List.mem_append.mp hclause with hmem | hmem
  · exact hinvariant.fact hmem hfact hhead
  · obtain ⟨cx, hcx, hmem⟩ := List.mem_flatMap.mp hmem
    have hstep := Program.hasStep_of_mem_contexts hcx
    exact hinvariant.emitted hshapes hstep (hstep.emitted hmem) hfact hbody hhead

end DalvikHorn
