import DalvikHorn.Proofs.RaisedFacts

/-!
# Instructions raise labels

No handler of an instruction asks for a label: guards compare values and flags, and
what is read from a heap is read with any label.  Labels only go from cells to cells
and to the labels of facts, and only joins are taken of them.  So the clauses of every
instruction that makes no call rise (`StepContext.Raises`).

The proofs follow the `do` blocks of the handlers.  They also record which heap
relations the clauses apply: instructions that do not touch objects apply the relation
of static fields only, unless they lift a local heap that has sites.
-/

namespace DalvikHorn

namespace StepContext

variable {cx : StepContext} {allowed : Relation → Prop}

/-! ## Guards, states and clauses -/

/-- Guards that raised labels do not disturb: fixed conditions, or one reading of a heap. -/
def Steady (cx : StepContext) (allowed : Relation → Prop) (guards : List Formula) : Prop :=
  (∀ guard ∈ guards, guard.Fixed cx.width) ∨
    ∃ (atom : Atom) (label : String), guards = [atom.toFormula] ∧
      atom.ReadsLabel cx.width allowed label

/-- States that an instruction can go on with, of which the second covers the labels of the
first. -/
structure RisenTo (cx : StepContext) (state state' : State) : Prop where
  rises : state.RisesTo cx.width state'
  heap_length : state.heap.length = cx.layout.size

/-- A state with rising labels that an instruction can go on with. -/
def Risen (cx : StepContext) (state : State) : Prop :=
  cx.RisenTo state state

/-- Clauses of an instruction with the same steady guards, of which the second derives what the
first one does with labels that cover the first ones. -/
inductive RisesTo (cx : StepContext) (allowed : Relation → Prop) : Clause → Clause → Prop
  | derive {guards : List Formula} (hguards : cx.Steady allowed guards) {head head' : Atom}
      (hhead : head.RisesTo cx.width cx.layout.size allowed head') :
      RisesTo cx allowed (cx.derive guards head) (cx.derive guards head')

/-- A clause that rises. -/
def Rises (cx : StepContext) (allowed : Relation → Prop) (clause : Clause) : Prop :=
  cx.RisesTo allowed clause clause

/-- Every clause of a handler rises, and its errors do not end the run. -/
def Raises (cx : StepContext) (allowed : Relation → Prop) (outcome : Except Error (List Clause)) :
    Prop :=
  Yields outcome fun clauses => ∀ clause ∈ clauses, cx.Rises allowed clause

/-- Two handlers end in the same way, and every clause of the first one rises to the one of the
second. -/
def RaisesTo (cx : StepContext) (allowed : Relation → Prop)
    (outcome outcome' : Except Error (List Clause)) : Prop :=
  Parallel (List.Forall₂ (cx.RisesTo allowed)) outcome outcome'

theorem Raises.raisesTo {outcome : Except Error (List Clause)} (h : cx.Raises allowed outcome) :
    cx.RaisesTo allowed outcome outcome := by
  cases outcome with
  | error cause => exact .error cause
  | ok clauses => exact .ok (List.forall₂_same.mpr (h.result clauses rfl))

/-- Clauses that rise to each other have the same body. -/
theorem RisesTo.isVacuous_eq {clause clause' : Clause} (h : cx.RisesTo allowed clause clause') :
    clause.isVacuous = clause'.isVacuous := by
  cases h
  rfl

theorem RisesTo.parallel {clause clause' : Clause} (h : cx.RisesTo allowed clause clause')
    (hrespected : Names.Respected cx.width clause.vars)
    (hrespected' : Names.Respected cx.width clause'.vars) :
    clause.Parallel cx.width (Fact.Raised cx.layout.size) clause' := by
  cases h with
  | derive hguards hhead =>
      have hcurrent := absorbs_current cx
      rcases hguards with hfixed | ⟨atom, label, rfl, hatom⟩
      · exact Clause.parallel_of_absorbs hrespected hrespected' rfl
          (hcurrent.append (absorbs_fixed hfixed) fun _ _ => id) hhead
      · refine Clause.parallel_of_absorbs hrespected hrespected' rfl
          (hcurrent.append (absorbs_read hatom) ?_) hhead
        -- what is read has a label of its own, which is none of the state
        rintro name hname rfl
        rw [Names.isStateLabel_of_mem hatom.mem] at hname
        cases hname

/-! ## Terms of a context -/

theorem fixed_literal (value : Int) : (cx.literal value).Fixed cx.width :=
  BvExpr.fixed_ofInt _

theorem fixed_idLiteral (id : Int32) : (cx.idLiteral id).Fixed cx.width :=
  BvExpr.fixed_ofInt _

theorem fixed_classLiteral (name : String) : (cx.classLiteral name).Fixed cx.width :=
  BvExpr.fixed_ofInt _

theorem fixed_namedKey (name : String) : (cx.namedKey name).Fixed cx.width :=
  BvExpr.fixed_ofInt _

theorem fixed_variable {name : String} [Names.AuxiliaryValue name] :
    (cx.variable_ name).Fixed cx.width :=
  BvExpr.fixed_auxiliary

theorem fixed_fieldBlocked : (Formula.var Names.fieldBlocked).Fixed cx.width :=
  Formula.fixed_var (Names.isVariable_auxiliaryFlag _ _) (by decide)

theorem fixed_readBlocked : (Formula.var Names.readBlocked).Fixed cx.width :=
  Formula.fixed_var (Names.isVariable_auxiliaryFlag _ _) (by decide)

theorem fixed_anyBlocked : (Formula.var Names.anyBlocked).Fixed cx.width :=
  Formula.fixed_var (Names.isVariable_auxiliaryFlag _ _) (by decide)

theorem rises_fieldHigh :
    (Formula.var Names.fieldHigh).RisesTo cx.width (.var Names.fieldHigh) :=
  Formula.rises_readLabel (by decide)

theorem rises_readHigh : (Formula.var Names.readHigh).RisesTo cx.width (.var Names.readHigh) :=
  Formula.rises_readLabel (by decide)

/-! ## Reading operands -/

theorem risen_pre : cx.Risen cx.pre :=
  ⟨State.rises_canonical _ _ _, cx.sorted_pre.heap_length⟩

theorem Reads.rises {cell : Cell} (h : cx.Reads cell) : cell.Rises cx.width := by
  obtain ⟨r, -, hcell⟩ := h
  exact State.Rises.register risen_pre.rises hcell

theorem pre_slot_rises (k : Nat) : Yields (cx.pre.slot k) (HeapSlot.Rises cx.width) :=
  (State.slot_yields _ _).mono fun _ hslot => State.Rises.slot risen_pre.rises hslot

theorem fixed_refersTo {object : Cell} (h : object.Rises cx.width) (site : AllocationSite) :
    ∀ guard ∈ cx.refersTo object site, guard.Fixed cx.width :=
  List.forall_mem_cons.mpr ⟨h.isLocal, List.forall_mem_singleton.mpr
    (h.value.eqTo (fixed_idLiteral _))⟩

/-! ## Updating states -/

theorem RisenTo.set {state state' : State} (h : cx.RisenTo state state') {cell cell' : Cell}
    (hcell : cell.RisesTo cx.width cell') (r : Nat) :
    Parallel cx.RisenTo (state.set r cell) (state'.set r cell') := by
  unfold State.set
  rw [← h.rises.registers.length_eq]
  split
  · exact .ok ⟨h.rises.set hcell r, h.heap_length⟩
  · exact .error _

theorem Risen.set {state : State} (h : cx.Risen state) {cell : Cell}
    (hcell : cell.Rises cx.width) (r : Nat) : Yields (state.set r cell) cx.Risen := by
  refine (State.set_yields _ _ _).mono ?_
  rintro post ⟨-, rfl⟩
  exact ⟨h.rises.set hcell r, h.heap_length⟩

theorem Risen.taint {state : State} (h : cx.Risen state) {taint : Formula}
    (htaint : taint.RisesTo cx.width taint) (r : Nat) : Yields (state.taint r taint) cx.Risen := by
  refine .bind (State.register_yields _ _) fun cell hcell => ?_
  exact h.set (Cell.RisesTo.taint (State.Rises.register h.rises hcell) htaint) r

theorem Risen.promote {state : State} (h : cx.Risen state) :
    cx.Risen (state.promote cx.layout cx.width cx.shape.numRegisters) :=
  ⟨State.Rises.promote h.rises _ _, List.length_replicate⟩

/-! ## Heads and readings -/

theorem risesTo_object (hobject : allowed .object) {classKey id field value : BvExpr}
    (hclass : classKey.Fixed cx.width) (hid : id.Fixed cx.width) (hfield : field.Fixed cx.width)
    (hvalue : value.Fixed cx.width) {high high' blocked : Formula}
    (hhigh : high.RisesTo cx.width high') (hblocked : blocked.Fixed cx.width) :
    (GlobalHeap.object classKey id field value high blocked).RisesTo cx.width cx.layout.size allowed
      (GlobalHeap.object classKey id field value high' blocked) :=
  @Atom.RisesTo.held _ _ _ .object rfl hobject [.bv classKey, .bv id, .bv field, .bv value]
    (by simp [hclass.term, hid.term, hfield.term, hvalue.term]) _ _ hhigh _ hblocked

theorem risesTo_extra (hextra : allowed .extra) {intent key value : BvExpr}
    (hintent : intent.Fixed cx.width) (hkey : key.Fixed cx.width) (hvalue : value.Fixed cx.width)
    {high high' blocked : Formula} (hhigh : high.RisesTo cx.width high')
    (hblocked : blocked.Fixed cx.width) :
    (GlobalHeap.extra intent key value high blocked).RisesTo cx.width cx.layout.size allowed
      (GlobalHeap.extra intent key value high' blocked) :=
  @Atom.RisesTo.held _ _ _ .extra rfl hextra [.bv intent, .bv key, .bv value]
    (by simp [hintent.term, hkey.term, hvalue.term]) _ _ hhigh _ hblocked

theorem risesTo_launch (hlaunch : allowed .launch) {component caller value : BvExpr}
    (hcomponent : component.Fixed cx.width) (hcaller : caller.Fixed cx.width)
    (hvalue : value.Fixed cx.width) {high high' blocked : Formula}
    (hhigh : high.RisesTo cx.width high') (hblocked : blocked.Fixed cx.width) :
    (GlobalHeap.launch component caller value high blocked).RisesTo cx.width cx.layout.size allowed
      (GlobalHeap.launch component caller value high' blocked) :=
  @Atom.RisesTo.held _ _ _ .launch rfl hlaunch [.bv component, .bv caller, .bv value]
    (by simp [hcomponent.term, hcaller.term, hvalue.term]) _ _ hhigh _ hblocked

theorem risesTo_static (hstatic : allowed .static) (owner field : Int) {value : BvExpr}
    (hvalue : value.Fixed cx.width) {high high' blocked : Formula}
    (hhigh : high.RisesTo cx.width high') (hblocked : blocked.Fixed cx.width) :
    (GlobalHeap.static (.lit owner) (.lit field) value high blocked).RisesTo cx.width
      cx.layout.size allowed (GlobalHeap.static (.lit owner) (.lit field) value high' blocked) :=
  @Atom.RisesTo.held _ _ _ .static rfl hstatic [.int (.lit owner), .int (.lit field), .bv value]
    (by simp [Term.fixed_int, hvalue.term]) _ _ hhigh _ hblocked

theorem steady_nil : cx.Steady allowed [] :=
  .inl (by simp)

theorem steady_object (hobject : allowed .object) {classKey id field value : BvExpr}
    (hclass : classKey.Fixed cx.width) (hid : id.Fixed cx.width) (hfield : field.Fixed cx.width)
    (hvalue : value.Fixed cx.width) {label : String} (hlabel : label ∈ Names.readLabels)
    {blocked : Formula} (hblocked : blocked.Fixed cx.width) :
    cx.Steady allowed
      [(GlobalHeap.object classKey id field value (.var label) blocked).toFormula] :=
  .inr ⟨_, label, rfl, hlabel, .object, [.bv classKey, .bv id, .bv field, .bv value], blocked, rfl,
    hobject, by simp [hclass.term, hid.term, hfield.term, hvalue.term], hblocked, rfl⟩

theorem steady_extra (hextra : allowed .extra) {intent key value : BvExpr}
    (hintent : intent.Fixed cx.width) (hkey : key.Fixed cx.width) (hvalue : value.Fixed cx.width)
    {label : String} (hlabel : label ∈ Names.readLabels) {blocked : Formula}
    (hblocked : blocked.Fixed cx.width) :
    cx.Steady allowed [(GlobalHeap.extra intent key value (.var label) blocked).toFormula] :=
  .inr ⟨_, label, rfl, hlabel, .extra, [.bv intent, .bv key, .bv value], blocked, rfl, hextra,
    by simp [hintent.term, hkey.term, hvalue.term], hblocked, rfl⟩

theorem steady_static (hstatic : allowed .static) (owner field : Int) {value : BvExpr}
    (hvalue : value.Fixed cx.width) {label : String} (hlabel : label ∈ Names.readLabels)
    {blocked : Formula} (hblocked : blocked.Fixed cx.width) :
    cx.Steady allowed
      [(GlobalHeap.static (.lit owner) (.lit field) value (.var label) blocked).toFormula] :=
  .inr ⟨_, label, rfl, hlabel, .static, [.int (.lit owner), .int (.lit field), .bv value], blocked,
    rfl, hstatic, by simp [Term.fixed_int, hvalue.term], hblocked, rfl⟩

/-! ## Clauses -/

section Clauses

variable {guards : List Formula} {update : State → Except Error State}

theorem risesTo_jump (pc : UInt32) (hguards : cx.Steady allowed guards) {post post' : State}
    (hpost : cx.RisenTo post post') :
    cx.RisesTo allowed (cx.jump pc guards post) (cx.jump pc guards post') :=
  .derive hguards (.point _ hpost.heap_length hpost.rises)

theorem rises_identity : cx.Rises allowed cx.identity :=
  risesTo_jump _ steady_nil risen_pre

theorem rises_initializerEntry (owner : ClassId) :
    ∀ clause ∈ cx.initializerEntry owner, cx.Rises allowed clause := by
  unfold initializerEntry
  split
  · dsimp only
    split
    · refine List.forall_mem_singleton.mpr (.derive steady_nil (.point _ risen_pre.heap_length ?_))
      refine ⟨List.forall₂_same.mpr fun cell hcell => ?_, risen_pre.rises.heap, rfl⟩
      rw [List.eq_of_mem_replicate hcell]
      exact Cell.rises_zero
    · simp
  · simp

theorem raises_identity : cx.Raises allowed (.ok [cx.identity]) :=
  .ok (List.forall_mem_singleton.mpr rises_identity)

theorem raises_assign (r : UInt32) (hguards : cx.Steady allowed guards) {cell : Cell}
    (hcell : cell.Rises cx.width) : cx.Raises allowed (cx.assign r guards cell) :=
  .bind (risen_pre.set hcell _) fun _ hpost =>
    .pure (List.forall_mem_singleton.mpr (risesTo_jump _ hguards hpost))

theorem raises_returns (hguards : cx.Steady allowed guards) {cell : Cell}
    (hcell : cell.Rises cx.width) : cx.Raises allowed (cx.returns guards cell) :=
  .bind (risen_pre.set hcell _) fun _ hpost =>
    .pure (List.forall_mem_singleton.mpr (risesTo_jump _ hguards hpost))

theorem raisesTo_returns (hguards : cx.Steady allowed guards) {cell cell' : Cell}
    (hcell : cell.RisesTo cx.width cell') :
    cx.RaisesTo allowed (cx.returns guards cell) (cx.returns guards cell') := by
  refine .bind (RisenTo.set risen_pre hcell _) fun post post' hpost => .pure ?_
  have hstep : cx.RisesTo allowed (cx.step guards post) (cx.step guards post') :=
    risesTo_jump _ hguards hpost
  exact .cons hstep .nil

section Lifts

variable (hguards : ∀ guard ∈ guards, guard.Fixed cx.width)

include hguards

theorem fixed_anyLocal {cells : List Cell} (hcells : ∀ cell ∈ cells, cell.Rises cx.width) :
    ∀ guard ∈ guards ++ [Formula.any (cells.map (·.isLocal))], guard.Fixed cx.width := by
  refine List.forall_mem_append.mpr ⟨hguards, List.forall_mem_singleton.mpr ?_⟩
  refine Formula.fixed_any fun part hpart => ?_
  obtain ⟨cell, hcell, rfl⟩ := List.mem_map.mp hpart
  exact (hcells cell hcell).isLocal

theorem raises_flushSite (hobject : allowed .object) (site : AllocationSite) :
    cx.Raises allowed (flushSite cx.width site (cx.body guards) cx.pre) := by
  refine .bind (pre_slot_rises _) fun header hheader => ?_
  have hall : cx.Steady allowed (guards ++ [header.free.negate]) :=
    .inl (List.forall_mem_append.mpr ⟨hguards, List.forall_mem_singleton.mpr hheader.free.negate⟩)
  dsimp only
  split
  · refine .mapM ?_
    rintro ⟨⟨field, primitive⟩, k⟩ -
    refine .bind (pre_slot_rises k) fun slot hslot => .pure (.derive hall ?_)
    exact risesTo_object hobject (fixed_idLiteral _) (fixed_idLiteral _) (fixed_idLiteral _)
      hslot.cell.value hslot.cell.high hslot.cell.blocked
  · refine .pure (List.forall_mem_singleton.mpr (.derive hall ?_))
    exact risesTo_object hobject (fixed_idLiteral _) (fixed_idLiteral _) fixed_variable
      BvExpr.fixed_zero (Formula.rises_const _) fixed_fieldBlocked

variable (hsites : ∀ site ∈ cx.layout.sites, allowed .object)

include hsites

theorem raises_flushAll :
    cx.Raises allowed (flushAll cx.layout cx.width (cx.body guards) cx.pre) :=
  .bind (.mapM_flatten fun site hsite => raises_flushSite hguards (hsites site hsite) site)
    fun _ hclauses => .pure hclauses

theorem raises_lift (hupdate : ∀ state, cx.Risen state → Yields (update state) cx.Risen) :
    cx.Raises allowed (cx.lift guards update) := by
  refine .bind (raises_flushAll hguards hsites) fun facts hfacts => ?_
  refine .bind (hupdate _ risen_pre.promote) fun post hpost => .pure ?_
  exact List.forall_mem_append.mpr
    ⟨hfacts, List.forall_mem_singleton.mpr (risesTo_jump _ (.inl hguards) hpost)⟩

theorem raises_liftIfLocal {r : UInt32} (hr : r ∈ cx.instruction.operands)
    (hupdate : ∀ state, cx.Risen state → Yields (update state) cx.Risen) :
    cx.Raises allowed (cx.liftIfLocal r guards update) := by
  refine .bind (register_yields hr) fun cell hcell => ?_
  exact raises_lift (List.forall_mem_append.mpr
    ⟨hguards, List.forall_mem_singleton.mpr hcell.rises.isLocal⟩) hsites hupdate

/-- Both sides lift, and go on with updated states. -/
theorem raisesTo_lift {update' : State → Except Error State}
    (hupdate : ∀ state, cx.Risen state → Parallel cx.RisenTo (update state) (update' state)) :
    cx.RaisesTo allowed (cx.lift guards update) (cx.lift guards update') := by
  refine .bind_same (raises_flushAll hguards hsites) fun facts hfacts => ?_
  refine .bind (hupdate _ risen_pre.promote) fun post post' hpost => .pure ?_
  have hstep : cx.RisesTo allowed (cx.step guards post) (cx.step guards post') :=
    risesTo_jump _ (.inl hguards) hpost
  have hflushed : List.Forall₂ (cx.RisesTo allowed) facts facts := List.forall₂_same.mpr hfacts
  exact List.rel_append hflushed (.cons hstep .nil)

theorem raises_liftIfAnyLocal {cells : List Cell} (hcells : ∀ cell ∈ cells, cell.Rises cx.width)
    (hupdate : ∀ state, cx.Risen state → Yields (update state) cx.Risen) :
    cx.Raises allowed (cx.liftIfAnyLocal cells guards update) := by
  unfold liftIfAnyLocal
  dsimp only
  split
  · exact .ok (by simp)
  · exact raises_lift (fixed_anyLocal hguards hcells) hsites hupdate

theorem raisesTo_liftIfAnyLocal {cells : List Cell}
    (hcells : ∀ cell ∈ cells, cell.Rises cx.width) {update' : State → Except Error State}
    (hupdate : ∀ state, cx.Risen state → Parallel cx.RisenTo (update state) (update' state)) :
    cx.RaisesTo allowed (cx.liftIfAnyLocal cells guards update)
      (cx.liftIfAnyLocal cells guards update') := by
  unfold liftIfAnyLocal
  dsimp only
  split
  · exact .ok .nil
  · exact raisesTo_lift (fixed_anyLocal hguards hcells) hsites hupdate

end Lifts

end Clauses

/-! ## Moves, constants and returns -/

theorem raises_compileMove : cx.Raises allowed cx.compileMove := by
  refine .bind (Instruction.register_yields 0) fun destination _ => ?_
  refine .bind (operand_yields 1) fun source hsource => ?_
  exact raises_assign destination steady_nil hsource.rises

theorem raises_compileMoveResult : cx.Raises allowed cx.compileMoveResult := by
  refine .bind (Instruction.register_yields 0) fun destination _ => ?_
  refine .bind (State.register_yields _ _) fun result hresult => ?_
  exact raises_assign destination steady_nil (State.Rises.register risen_pre.rises hresult)

theorem raises_compileConst (kind : ConstKind) : cx.Raises allowed (cx.compileConst kind) := by
  refine .bind (Instruction.register_yields 0) fun destination _ => ?_
  have hassign : ∀ value : BvExpr, value.Fixed cx.width →
      cx.Raises allowed (cx.assign destination [] (.scalar value .ff)) := fun value hvalue =>
    raises_assign destination steady_nil (Cell.risesTo_scalar hvalue (Formula.rises_const _))
  cases kind with
  | literal =>
      exact .bind Instruction.getLiteral_yields fun _ _ => .bind (.pure (fixed_literal _)) hassign
  | string =>
      exact .bind Instruction.getReference_yields fun _ _ =>
        .bind (.pure (fixed_classLiteral _)) hassign
  | class_ =>
      exact .bind Instruction.getReference_yields fun _ _ =>
        .bind (.pure (fixed_classLiteral _)) hassign

/-- The columns of an exit are sorted, and no more is said about them. -/
theorem raises_compileReturn (void : Bool) : cx.Raises allowed (cx.compileReturn void) := by
  refine .bind argumentCopies_yields ?_
  rintro arguments rfl
  -- the exit applies the same relation whatever the result
  have hexit : ∀ result : Cell, result.Sorted cx.width →
      cx.Rises allowed (cx.derive [] (exitAtom cx.owner.id cx.method.id
        (cx.pre.registers.drop (cx.shape.numRegisters + 1)) result cx.pre.heap)) := by
    intro result hresult
    have hcolumns : ∀ arg ∈ (exitAtom cx.owner.id cx.method.id
        (cx.pre.registers.drop (cx.shape.numRegisters + 1)) result cx.pre.heap).args,
        arg.Sorted cx.width :=
      sorted_args_exitAtom
        (fun cell hcell => cx.sorted_pre.registers cell (List.mem_of_mem_drop hcell))
        hresult cx.sorted_pre.heap
    exact .derive steady_nil (.exit _ _ hcolumns)
  cases void with
  | true =>
      -- a method without a result leaves the result to the caller
      refine .pure (List.forall_mem_singleton.mpr (hexit cx.resultCell ?_))
      exact ⟨sorted_variable, sorted_flag, sorted_flag, sorted_flag⟩
  | false =>
      refine .bind (operand_yields 0) fun result hresult => ?_
      exact .pure (List.forall_mem_singleton.mpr (hexit result hresult.sorted))

/-! ## Arithmetic -/

theorem raises_compileUnary (op : UnaryOp) : cx.Raises allowed (cx.compileUnary op) := by
  refine .bind (Instruction.register_yields 0) fun destination _ => ?_
  refine .bind (operand_yields 1) fun source hsource => ?_
  refine raises_assign destination steady_nil (Cell.risesTo_scalar ?_ hsource.rises.high)
  cases op with
  | neg => exact hsource.rises.value.unary
  | not => exact hsource.rises.value.unary
  | convert => exact hsource.rises.value

theorem rises_operation {left right : Cell} (hleft : cx.Reads left) (hright : cx.Reads right)
    (op : BvBinary) :
    Cell.Rises cx.width
      (.scalar (.binary op left.value right.value) (left.high.either right.high)) :=
  Cell.risesTo_scalar (hleft.rises.value.binary hright.rises.value)
    (hleft.rises.high.either hright.rises.high)

theorem raises_compileBinary (op : BinaryOp) (form : OperandForm) :
    cx.Raises allowed (cx.compileBinary op form) := by
  refine .bind (Instruction.register_yields 0) fun destination _ => ?_
  have hassign : ∀ result : Cell, result.Rises cx.width →
      cx.Raises allowed (cx.assign destination [] result) :=
    fun _ hresult => raises_assign destination steady_nil hresult
  -- the forms differ in where the operands are read
  cases form with
  | three =>
      refine .bind (operand_yields 1) fun left hleft => ?_
      refine .bind (operand_yields 2) fun right hright => ?_
      exact .bind (.pure (rises_operation hleft hright _)) hassign
  | twoAddress =>
      refine .bind (operand_yields 0) fun left hleft => ?_
      refine .bind (operand_yields 1) fun right hright => ?_
      exact .bind (.pure (rises_operation hleft hright _)) hassign
  | literal =>
      refine .bind (operand_yields 1) fun operand hoperand => ?_
      refine .bind Instruction.getLiteral_yields fun literal _ => ?_
      refine hassign _ (Cell.risesTo_scalar ?_ hoperand.rises.high)
      split
      · exact (fixed_literal _).binary hoperand.rises.value
      · exact hoperand.rises.value.binary (fixed_literal _)

theorem raises_compileCompare : cx.Raises allowed cx.compileCompare := by
  refine .bind (Instruction.register_yields 0) fun destination _ => ?_
  refine .bind (operand_yields 1) fun left hleft => ?_
  refine .bind (operand_yields 2) fun right hright => ?_
  have hl := hleft.rises
  have hr := hright.rises
  refine raises_assign destination steady_nil (Cell.risesTo_scalar ?_ (hl.high.either hr.high))
  exact .select (hl.value.eqTo hr.value) (fixed_literal _)
    (.select (hl.value.compare hr.value) (fixed_literal _) (fixed_literal _))

/-! ## Branches -/

theorem raises_compileGoto : cx.Raises allowed cx.compileGoto :=
  .bind Instruction.branchTarget_yields fun _ _ =>
    .pure (List.forall_mem_singleton.mpr (risesTo_jump _ steady_nil risen_pre))

theorem raises_branchEdges (target : UInt32) {comparison : BvCompare} {negated : Bool}
    {left right : BvExpr} (hleft : left.Fixed cx.width) (hright : right.Fixed cx.width) :
    cx.Raises allowed
      (let holds := Formula.compare comparison left right
       let guard := if negated then holds.negate else holds
       pure [cx.jump target [guard] cx.pre, cx.step [guard.negate] cx.pre]) := by
  have hholds : (Formula.compare comparison left right).Fixed cx.width := hleft.compare hright
  have hguard : (if negated = true then (Formula.compare comparison left right).negate
      else Formula.compare comparison left right).Fixed cx.width := by
    split
    · exact hholds.negate
    · exact hholds
  refine .pure (List.forall_mem_cons.mpr ⟨?_, List.forall_mem_singleton.mpr ?_⟩)
  · exact risesTo_jump _ (.inl (List.forall_mem_singleton.mpr hguard)) risen_pre
  · exact risesTo_jump _ (.inl (List.forall_mem_singleton.mpr hguard.negate)) risen_pre

theorem raises_compileBranch (condition : BranchCondition) (againstZero : Bool) :
    cx.Raises allowed (cx.compileBranch condition againstZero) := by
  refine .bind Instruction.branchTarget_yields fun target _ => ?_
  refine .bind (operand_yields 0) fun left hleft => ?_
  dsimp only
  split
  · refine .bind (.pure (fixed_literal 0)) fun right hright => ?_
    exact raises_branchEdges target hleft.rises.value hright
  · refine .bind (operand_yields 1) fun other hother => ?_
    refine .bind (.pure hother.rises.value) fun right hright => ?_
    exact raises_branchEdges target hleft.rises.value hright

theorem fixed_switchCases {scrutinee : BvExpr} (hscrutinee : scrutinee.Fixed cx.width)
    (entries : List (Int32 × Int32)) :
    ∀ case ∈ cx.switchCases scrutinee entries, case.1.Fixed cx.width := by
  rintro ⟨guard, target⟩ hcase
  obtain ⟨entry, -, -, rfl⟩ := mem_switchCases.mp hcase
  exact hscrutinee.eqTo (fixed_literal _)

theorem raises_compileSwitch : cx.Raises allowed cx.compileSwitch := by
  refine .bind (operand_yields 0) fun scrutinee hscrutinee => ?_
  dsimp only
  split
  · exact raises_identity
  · rename_i entries _
    have hcases := fixed_switchCases hscrutinee.rises.value entries
    refine .pure (List.forall_mem_append.mpr ⟨fun clause hclause => ?_,
      List.forall_mem_singleton.mpr ?_⟩)
    · obtain ⟨case, hcase, rfl⟩ := List.mem_map.mp hclause
      exact risesTo_jump _ (.inl (List.forall_mem_singleton.mpr (hcases case hcase))) risen_pre
    · have hany : (Formula.any ((cx.switchCases scrutinee.value entries).map (·.1))).Fixed
          cx.width := by
        refine Formula.fixed_any fun part hpart => ?_
        obtain ⟨case, hcase, rfl⟩ := List.mem_map.mp hpart
        exact hcases case hcase
      exact risesTo_jump _ (.inl (List.forall_mem_singleton.mpr hany.negate)) risen_pre

/-! ## Arrays -/

theorem fixed_elementField {index : BvExpr} (hindex : index.Fixed cx.width) :
    (cx.elementField index).Fixed cx.width := by
  unfold elementField
  split
  · exact hindex
  · exact fixed_literal _

theorem rises_readCell : cx.readCell.Rises cx.width :=
  Cell.rises_mk fixed_variable rises_readHigh (Formula.fixed_const _) fixed_readBlocked

theorem raises_compileArrayLength : cx.Raises allowed cx.compileArrayLength :=
  .bind (Instruction.register_yields 0) fun destination _ =>
    raises_assign destination steady_nil
      (Cell.risesTo_scalar fixed_variable (Formula.rises_const _))

section Objects

variable (hobject : allowed .object)

include hobject

theorem raises_compileNewArray : cx.Raises allowed cx.compileNewArray := by
  refine .bind (Instruction.register_yields 0) fun destination _ => ?_
  refine .bind (operand_yields 1) fun size hsize => ?_
  refine .bind Instruction.getReference_yields fun reference _ => ?_
  have helement : ∀ (guards : List Formula) (field : BvExpr),
      (∀ guard ∈ guards, guard.Fixed cx.width) → field.Fixed cx.width →
        cx.Rises allowed (cx.derive guards (GlobalHeap.object (cx.classLiteral reference)
          (cx.idLiteral cx.allocation) field (.zero cx.width) .ff .ff)) :=
    fun guards field hguards hfield => .derive (.inl hguards) (risesTo_object hobject
      (fixed_classLiteral _) (fixed_idLiteral _) hfield BvExpr.fixed_zero (Formula.rises_const _)
      (Formula.fixed_const _))
  refine .bind (raises_assign destination steady_nil
    (Cell.risesTo_globalRef (fixed_idLiteral _) (Formula.rises_const _)))
    fun steps hsteps => .pure (List.forall_mem_cons.mpr ⟨?_, hsteps⟩)
  dsimp only
  split
  · have hfield : (cx.variable_ Names.field).Fixed cx.width := fixed_variable
    refine helement _ _ (List.forall_mem_cons.mpr ⟨(fixed_literal _).compare hfield,
      List.forall_mem_singleton.mpr (hfield.compare hsize.rises.value)⟩) hfield
  · exact helement _ _ (by simp) (fixed_literal _)

theorem raises_compileFilledNewArray : cx.Raises allowed cx.compileFilledNewArray := by
  refine .bind Instruction.getReference_yields fun reference _ => ?_
  refine .bind (.mapM fun r hr => register_yields (mem_operands_of_mem_arguments hr))
    fun elements helements => ?_
  have harray : (Cell.globalRef (cx.idLiteral cx.allocation) .ff).Rises cx.width :=
    Cell.risesTo_globalRef (fixed_idLiteral _) (Formula.rises_const _)
  have hreturns : cx.Raises allowed
      (cx.returns [] (.globalRef (cx.idLiteral cx.allocation) .ff)) :=
    raises_returns steady_nil harray
  refine .bind hreturns fun plain hplain => ?_
  refine .bind (raises_liftIfAnyLocal (List.forall_mem_nil _) (fun _ _ => hobject)
    (fun cell hcell => (helements cell hcell).rises) fun state hstate => hstate.set harray _)
    fun lifted hlifted => .pure ?_
  refine List.forall_mem_append.mpr ⟨List.forall_mem_append.mpr ⟨fun clause hclause => ?_, hplain⟩,
    hlifted⟩
  obtain ⟨k, hk, rfl⟩ := List.mem_mapIdx.mp hclause
  have hcell := (helements _ (List.getElem_mem hk)).rises
  exact .derive steady_nil (risesTo_object hobject (fixed_classLiteral _) (fixed_idLiteral _)
    (fixed_elementField (fixed_literal _)) hcell.value hcell.high hcell.blocked)

theorem raises_compileFillArrayData : cx.Raises allowed cx.compileFillArrayData := by
  refine .bind (operand_yields 0) fun array harray => ?_
  dsimp only
  split
  · exact raises_identity
  · refine .pure (List.forall_mem_append.mpr ⟨fun clause hclause => ?_,
      List.forall_mem_singleton.mpr rises_identity⟩)
    obtain ⟨k, hk, rfl⟩ := List.mem_mapIdx.mp hclause
    exact .derive (steady_object hobject fixed_variable harray.rises.value fixed_variable
      fixed_variable (by decide) fixed_fieldBlocked) (risesTo_object hobject fixed_variable
        harray.rises.value (fixed_elementField (fixed_literal _)) (fixed_literal _)
        (Formula.rises_const _) (Formula.fixed_const _))

theorem raises_compileArrayGet : cx.Raises allowed cx.compileArrayGet := by
  refine .bind (Instruction.register_yields 0) fun destination _ => ?_
  refine .bind (operand_yields 1) fun array harray => ?_
  refine .bind (operand_yields 2) fun index hindex => ?_
  exact raises_assign destination (steady_object hobject fixed_variable harray.rises.value
    (fixed_elementField hindex.rises.value) fixed_variable (by decide) fixed_readBlocked)
    rises_readCell

theorem raises_compileArrayPut : cx.Raises allowed cx.compileArrayPut := by
  refine .bind (operand_yields 0) fun source hsource => ?_
  refine .bind (Instruction.register_yields 1) fun arrayRegister _ => ?_
  refine .bind (operand_yields 1) fun array harray => ?_
  refine .bind (operand_yields 2) fun index hindex => ?_
  have hupdate : ∀ state, cx.Risen state →
      Yields (state.taint arrayRegister.toNat source.high) cx.Risen :=
    fun state hstate => hstate.taint hsource.rises.high _
  refine .bind (hupdate _ risen_pre) fun plain hplain => ?_
  refine .bind (Instruction.register_yields 0) fun sourceRegister hregister => ?_
  refine .bind (raises_liftIfLocal (List.forall_mem_nil _) (fun _ _ => hobject) hregister hupdate)
    fun lifted hlifted => .pure ?_
  refine List.forall_mem_cons.mpr ⟨risesTo_jump _ steady_nil hplain, List.forall_mem_cons.mpr
    ⟨.derive (steady_object hobject fixed_variable harray.rises.value fixed_variable
      fixed_variable (by decide) fixed_anyBlocked) ?_, hlifted⟩⟩
  exact risesTo_object hobject fixed_variable harray.rises.value
    (fixed_elementField hindex.rises.value) hsource.rises.value hsource.rises.high
    hsource.rises.blocked

/-! ## Fields of objects -/

theorem raises_compileInstanceGet : cx.Raises allowed cx.compileInstanceGet := by
  refine .bind (Instruction.register_yields 0) fun destination _ => ?_
  refine .bind (operand_yields 1) fun object hread => ?_
  refine .bind fieldReference_yields fun reference _ => ?_
  refine .bind (raises_assign destination (steady_object hobject fixed_variable hread.rises.value
    (fixed_idLiteral _) fixed_variable (by decide) fixed_readBlocked) rises_readCell)
    fun fromGlobal hglobal => ?_
  refine .bind (.mapM_flatten ?_) fun fromLocal hlocal =>
    .pure (List.forall_mem_append.mpr ⟨hglobal, hlocal⟩)
  rintro ⟨site, k⟩ -
  refine .bind (pre_slot_rises k) fun slot hslot => ?_
  refine raises_assign destination (.inl (fixed_refersTo hread.rises site)) ?_
  exact Cell.rises_mk hslot.cell.value hslot.cell.high (Formula.fixed_const _) hslot.cell.isGlobal

theorem raises_compileInstancePut : cx.Raises allowed cx.compileInstancePut := by
  refine .bind (operand_yields 0) fun source hsource => ?_
  refine .bind (Instruction.register_yields 1) fun objectRegister _ => ?_
  refine .bind (operand_yields 1) fun object hread => ?_
  refine .bind fieldReference_yields fun reference _ => ?_
  -- the update raises the label of the object by that of the source
  have hupdate : ∀ state, cx.Risen state →
      Yields (state.taint objectRegister.toNat source.high) cx.Risen :=
    fun state hstate => hstate.taint hsource.rises.high _
  refine .bind (hupdate _ risen_pre) fun plain hplain => ?_
  refine .bind (Instruction.register_yields 0) fun sourceRegister hregister => ?_
  have hglobal : ∀ guard ∈ [object.isGlobal], guard.Fixed cx.width :=
    List.forall_mem_singleton.mpr hread.rises.isGlobal
  refine .bind (raises_liftIfLocal hglobal (fun _ _ => hobject) hregister hupdate)
    fun lifted hlifted => ?_
  refine .bind (.mapM ?_) fun toLocal htoLocal => .pure (List.forall_mem_cons.mpr
    ⟨risesTo_jump _ steady_nil hplain, List.forall_mem_append.mpr ⟨List.forall_mem_cons.mpr
      ⟨.derive (.inl hglobal) ?_, hlifted⟩, htoLocal⟩⟩)
  · -- one clause for each site, and one for the heap all sites share
    rintro ⟨site, k⟩ -
    refine .bind (State.setSlot_yields _ _ _) ?_
    rintro stored ⟨-, rfl⟩
    have hstored : cx.Risen { cx.pre with
        heap := cx.pre.heap.set k { cell := source, free := .ff } } :=
      ⟨State.Rises.setSlot risen_pre.rises ⟨hsource.rises, Formula.fixed_const _⟩ k,
        by simpa using risen_pre.heap_length⟩
    refine .bind (hupdate _ hstored) fun post hpost => .pure ?_
    exact risesTo_jump _ (.inl (fixed_refersTo hread.rises site)) hpost
  · exact risesTo_object hobject (fixed_idLiteral _) hread.rises.value (fixed_idLiteral _)
      hsource.rises.value hsource.rises.high hsource.rises.blocked

/-! ## Objects -/

theorem raises_compileNewInstance (hopcode : cx.instruction.opcode = .newInstance)
    (hsite : cx.HasSite) : cx.Raises allowed cx.compileNewInstance := by
  refine .bind Instruction.getReference_yields fun typeName hreference => ?_
  dsimp only
  split
  · exact raises_identity
  rename_i hintent
  refine .bind (Instruction.register_yields 0) fun destination _ => ?_
  -- the layout has the site of every class but the intents
  split
  · exact absurd ‹_› (hsite.site?_ne_none hopcode hreference hintent)
  rename_i site hfound
  have hallocate : ∀ state, cx.Risen state → Yields
      (do
        let assigned ← state.set destination.toNat (.localRef (cx.idLiteral cx.allocation))
        assigned.clearSite cx.width site) cx.Risen := by
    intro state hstate
    refine .bind (hstate.set (Cell.rises_localRef (fixed_idLiteral _)) _)
      fun assigned hassigned => ?_
    refine (State.clearSite_yields _ _ _).mono fun post hcleared => ?_
    refine ⟨⟨hcleared.registers_eq ▸ hassigned.rises.registers, fun slot hslot => ?_, rfl⟩,
      hcleared.heap_length.trans hassigned.heap_length⟩
    obtain ⟨k, hk⟩ := List.mem_iff_getElem?.mp hslot
    -- a slot is one of the site, and then cleared, or it is as before
    rcases hcleared.slot_eq k slot hk with rfl | hold
    · exact HeapSlot.rises_allocated
    · exact State.Rises.slot hassigned.rises hold
  have hreleased : cx.Risen (cx.pre.mapRegisters (cx.shape.numRegisters + 1) fun _ cell =>
      cell.release (cx.idLiteral cx.allocation)) :=
    ⟨State.Rises.mapRegisters risen_pre.rises (fun _ _ hcell =>
      Cell.RisesTo.release hcell (fixed_idLiteral _)) _, risen_pre.heap_length⟩
  refine .bind (hallocate _ hreleased) fun plain hplain => ?_
  refine .bind (pre_slot_rises _) fun header hheader => ?_
  refine .bind (raises_flushSite (List.forall_mem_nil _) hobject site) fun flushed hflushed => ?_
  refine .bind (.mapM fun k _ => .bind (pre_slot_rises k) fun slot hslot => .pure hslot.cell)
    fun fields hfields => ?_
  -- the plain step, the facts of the flushed site, the lift and the initializer
  refine .bind (raises_liftIfAnyLocal (List.forall_mem_singleton.mpr hheader.free.negate)
    (fun _ _ => hobject) hfields hallocate) fun lifted hlifted => .pure ?_
  exact List.forall_mem_cons.mpr ⟨risesTo_jump _ steady_nil hplain, List.forall_mem_append.mpr
    ⟨List.forall_mem_append.mpr ⟨hflushed, hlifted⟩, rises_initializerEntry _⟩⟩

end Objects

theorem raises_compileCheckCast : cx.Raises allowed cx.compileCheckCast := by
  refine .bind (operand_yields 0) fun object hobject => .pure ?_
  have hnonNull : (Formula.compare .ugt object.value (cx.literal 0)).Fixed cx.width :=
    hobject.rises.value.compare (fixed_literal _)
  refine List.forall_mem_cons.mpr ⟨risesTo_jump _ (.inl ?_) risen_pre,
    List.forall_mem_singleton.mpr (risesTo_jump _ (.inl ?_) risen_pre)⟩
  · exact List.forall_mem_cons.mpr
      ⟨hobject.rises.isGlobal, List.forall_mem_singleton.mpr hnonNull⟩
  · exact List.forall_mem_cons.mpr
      ⟨hobject.rises.isLocal, List.forall_mem_singleton.mpr hnonNull⟩

theorem raises_compileInstanceOf : cx.Raises allowed cx.compileInstanceOf := by
  refine .bind (Instruction.register_yields 0) fun destination _ => ?_
  have hassign : ∀ value,
      cx.Raises allowed (cx.assign destination [] (.scalar (cx.literal value) .ff)) := fun value =>
    raises_assign destination steady_nil
      (Cell.risesTo_scalar (fixed_literal _) (Formula.rises_const _))
  refine .bind (hassign 0) fun no hno => ?_
  refine .bind (hassign 1) fun yes hyes => ?_
  exact .pure (List.forall_mem_append.mpr ⟨hno, hyes⟩)

/-! ## Static fields -/

section Statics

variable (hstatic : allowed .static)

include hstatic

theorem raises_compileStaticGet : cx.Raises allowed cx.compileStaticGet := by
  refine .bind (Instruction.register_yields 0) fun destination _ => ?_
  refine .bind fieldReference_yields fun reference _ => ?_
  have hzero : Cell.Rises cx.width ⟨cx.literal 0, .ff, .ff, .var Names.fieldBlocked⟩ :=
    Cell.rises_mk (fixed_literal _) (Formula.rises_const _) (Formula.fixed_const _)
      fixed_fieldBlocked
  have hassign : cx.Raises allowed (cx.assign destination [] _) :=
    raises_assign destination steady_nil hzero
  refine .bind hassign fun unset hunset => ?_
  refine .bind (raises_assign destination (steady_static hstatic _ _ fixed_variable (by decide)
    fixed_fieldBlocked) (Cell.rises_mk fixed_variable rises_fieldHigh (Formula.fixed_const _)
      fixed_fieldBlocked)) fun loaded hloaded => ?_
  exact .pure (List.forall_mem_append.mpr ⟨hunset, hloaded⟩)

theorem raises_compileStaticPut (hsites : ∀ site ∈ cx.layout.sites, allowed .object) :
    cx.Raises allowed cx.compileStaticPut := by
  refine .bind (Instruction.register_yields 0) fun sourceRegister hregister => ?_
  refine .bind (operand_yields 0) fun source hsource => ?_
  refine .bind fieldReference_yields fun reference _ => ?_
  refine .bind (raises_liftIfLocal (List.forall_mem_nil _) hsites hregister
    fun state hstate => .ok hstate) fun lifted hlifted => .pure ?_
  exact List.forall_mem_cons.mpr ⟨rises_identity, List.forall_mem_cons.mpr
    ⟨.derive steady_nil (risesTo_static hstatic _ _ hsource.rises.value hsource.rises.high
      hsource.rises.blocked), hlifted⟩⟩

end Statics

end StepContext

end DalvikHorn
