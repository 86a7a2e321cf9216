import DalvikHorn.Proofs.KeptRegisters
import DalvikHorn.Proofs.StateValuations

/-!
# Registers that an instruction does not write

When control goes on in the method, a register that the instruction does not write
keeps its value, stays a reference or no reference, and does not lose a label.  An
argument copy that the instruction does not name is not touched at all.

## Strategy

A handler frames its clauses (`StepContext.Frames`) when each of them that goes on in
the method goes on with a state that keeps the bystanders, unless it enters a method.
The handlers are walked through one by one, as in `Proofs/Handlers.lean` and
`Proofs/LibraryHandlers.lean`, and the states are evaluated at the very end.
-/

namespace DalvikHorn

/-- A remapped call passes on arguments of its own. -/
theorem CallSite.mem_arguments_of_remapped {call : CallSite} {oracle : Oracle}
    {libraryRulesUsed : Bool} {arguments : List UInt32} {implementations : List Implementation}
    (h : call.linkage oracle libraryRulesUsed = .remapped arguments implementations) :
    ∀ r ∈ arguments, r ∈ call.arguments := by
  unfold linkage at h
  split at h
  · rename_i hremapped
    cases h
    exact (remapped?_eq_some hremapped).1
  · dsimp only at h
    split at h
    · split at h <;> cases h
    · cases h

namespace StepContext

variable {cx : StepContext}

/-- A clause that enters a method, or goes on at most with a state that keeps the bystanders. -/
def Framed (cx : StepContext) (clause : Clause) : Prop :=
  ∀ pc, clause.head.relation = (cx.pointAt pc).relationName →
    cx.Enters clause ∨ ∃ guards post, clause = cx.jump pc guards post ∧ cx.Keeps post

/-- Every clause of a handler is framed, and its errors do not end the run. -/
def Frames (cx : StepContext) (outcome : Except Error (List Clause)) : Prop :=
  Yields outcome fun clauses => ∀ clause ∈ clauses, cx.Framed clause

/-! ## Clauses -/

theorem framed_jump {pc : UInt32} {guards : List Formula} {post : State} (h : cx.Keeps post) :
    cx.Framed (cx.jump pc guards post) := by
  intro other hrelation
  have hpoint : cx.pointAt pc = cx.pointAt other := ProgramPoint.relationName_injective hrelation
  have hpc : pc = other := congrArg ProgramPoint.pc hpoint
  exact .inr ⟨guards, post, by rw [hpc], h⟩

theorem framed_step {guards : List Formula} {post : State} (h : cx.Keeps post) :
    cx.Framed (cx.step guards post) :=
  framed_jump h

theorem framed_identity : cx.Framed cx.identity :=
  framed_step keeps_pre

/-- A clause of another relation does not go on in the method. -/
theorem framed_derive (relation : Relation) {guards : List Formula} {head : Atom}
    (hname : head.relation = relation.name) (hpoint : ∀ position, relation ≠ .point position) :
    cx.Framed (cx.derive guards head) := by
  intro pc hrelation
  have hsame : relation = .point (cx.pointAt pc) :=
    Relation.name_injective (hname.symm.trans hrelation)
  exact absurd hsame (hpoint _)

theorem framed_object {guards : List Formula} {classKey id field value : BvExpr}
    {high blocked : Formula} :
    cx.Framed (cx.derive guards (GlobalHeap.object classKey id field value high blocked)) :=
  framed_derive .object rfl nofun

theorem framed_extra {guards : List Formula} {intent key value : BvExpr} {high blocked : Formula} :
    cx.Framed (cx.derive guards (GlobalHeap.extra intent key value high blocked)) :=
  framed_derive .extra rfl nofun

theorem frames_identity : cx.Frames (.ok [cx.identity]) :=
  .ok (List.forall_mem_singleton.mpr framed_identity)

variable {guards : List Formula} {update : State → Except Error State}

theorem frames_assign {r : UInt32} {cell : Cell} (hr : cx.Writes r.toNat) :
    cx.Frames (cx.assign r guards cell) :=
  .bind (keeps_pre.set hr cell) fun _ hpost =>
    .pure (List.forall_mem_singleton.mpr (framed_step hpost))

theorem frames_returns {cell : Cell} (hopcode : cx.instruction.opcode.writesResult = true) :
    cx.Frames (cx.returns guards cell) :=
  .bind (keeps_pre.set (writes_returnSlot hopcode) cell) fun _ hpost =>
    .pure (List.forall_mem_singleton.mpr (framed_step hpost))

theorem frames_flushSite (site : AllocationSite) :
    cx.Frames (flushSite cx.width site (cx.body guards) cx.pre) := by
  refine .bind (pre_slot_yields _) fun header _ => ?_
  dsimp only
  split
  · refine .mapM ?_
    rintro ⟨⟨field, primitive⟩, k⟩ -
    exact .bind (pre_slot_yields k) fun slot _ => .pure framed_object
  · exact .pure (List.forall_mem_singleton.mpr framed_object)

theorem frames_flushAll : cx.Frames (flushAll cx.layout cx.width (cx.body guards) cx.pre) :=
  .bind (.mapM_flatten fun site _ => frames_flushSite site) fun _ hclauses => .pure hclauses

theorem frames_lift (hupdate : ∀ state, cx.Keeps state → Yields (update state) cx.Keeps) :
    cx.Frames (cx.lift guards update) := by
  refine .bind frames_flushAll fun facts hfacts => ?_
  refine .bind (hupdate _ keeps_promote) fun post hpost => .pure ?_
  exact List.forall_mem_append.mpr ⟨hfacts, List.forall_mem_singleton.mpr (framed_step hpost)⟩

theorem frames_liftIfLocal {r : UInt32}
    (hupdate : ∀ state, cx.Keeps state → Yields (update state) cx.Keeps) :
    cx.Frames (cx.liftIfLocal r guards update) :=
  .bind (State.register_yields _ _) fun _ _ => frames_lift hupdate

theorem frames_liftIfAnyLocal {cells : List Cell}
    (hupdate : ∀ state, cx.Keeps state → Yields (update state) cx.Keeps) :
    cx.Frames (cx.liftIfAnyLocal cells guards update) := by
  unfold liftIfAnyLocal
  dsimp only
  split
  · exact .ok (by simp)
  · exact frames_lift hupdate

/-! ## Instructions that write a register -/

/-- The destination of an instruction that writes its first operand. -/
theorem destination_yields (hopcode : cx.instruction.opcode.writesOperand = true) :
    Yields (cx.instruction.register 0) fun destination => cx.Writes destination.toNat := by
  unfold Instruction.register
  split
  · exact .ok (writes_destination hopcode (by assumption))
  · exact .error rfl

section Destination

variable (hopcode : cx.instruction.opcode.writesOperand = true)

include hopcode

theorem frames_compileMove : cx.Frames cx.compileMove := by
  refine .bind (destination_yields hopcode) fun destination hdestination => ?_
  exact .bind (operand_yields 1) fun _ _ => frames_assign hdestination

theorem frames_compileMoveResult : cx.Frames cx.compileMoveResult := by
  refine .bind (destination_yields hopcode) fun destination hdestination => ?_
  exact .bind (State.register_yields _ _) fun _ _ => frames_assign hdestination

theorem frames_compileConst (kind : ConstKind) : cx.Frames (cx.compileConst kind) := by
  refine .bind (destination_yields hopcode) fun destination hdestination => ?_
  have hassign (value : BvExpr) (_ : True) :
      cx.Frames (cx.assign destination [] (.scalar value .ff)) :=
    frames_assign hdestination
  cases kind with
  | literal => exact .bind Instruction.getLiteral_yields fun _ _ => .bind (.pure trivial) hassign
  | string => exact .bind Instruction.getReference_yields fun _ _ => .bind (.pure trivial) hassign
  | class_ => exact .bind Instruction.getReference_yields fun _ _ => .bind (.pure trivial) hassign

theorem frames_compileUnary (op : UnaryOp) : cx.Frames (cx.compileUnary op) := by
  refine .bind (destination_yields hopcode) fun destination hdestination => ?_
  exact .bind (operand_yields 1) fun _ _ => frames_assign hdestination

theorem frames_compileBinary (op : BinaryOp) (form : OperandForm) :
    cx.Frames (cx.compileBinary op form) := by
  refine .bind (destination_yields hopcode) fun destination hdestination => ?_
  have hassign : ∀ result : Cell, True → cx.Frames (cx.assign destination [] result) :=
    fun _ _ => frames_assign hdestination
  cases form with
  | three =>
      refine .bind (operand_yields 1) fun _ _ => .bind (operand_yields 2) fun _ _ => ?_
      exact .bind (.pure trivial) hassign
  | twoAddress =>
      refine .bind (operand_yields 0) fun _ _ => .bind (operand_yields 1) fun _ _ => ?_
      exact .bind (.pure trivial) hassign
  | literal =>
      refine .bind (operand_yields 1) fun _ _ => .bind Instruction.getLiteral_yields fun _ _ => ?_
      exact .bind (.pure trivial) hassign

theorem frames_compileCompare : cx.Frames cx.compileCompare := by
  refine .bind (destination_yields hopcode) fun destination hdestination => ?_
  refine .bind (operand_yields 1) fun _ _ => .bind (operand_yields 2) fun _ _ => ?_
  exact frames_assign hdestination

theorem frames_compileInstanceOf : cx.Frames cx.compileInstanceOf := by
  refine .bind (destination_yields hopcode) fun destination hdestination => ?_
  refine .bind (frames_assign hdestination) fun no hno => ?_
  refine .bind (frames_assign hdestination) fun yes hyes => ?_
  exact .pure (List.forall_mem_append.mpr ⟨hno, hyes⟩)

theorem frames_compileNewArray : cx.Frames cx.compileNewArray := by
  refine .bind (destination_yields hopcode) fun destination hdestination => ?_
  refine .bind (operand_yields 1) fun size _ => ?_
  refine .bind Instruction.getReference_yields fun reference _ => ?_
  refine .bind (frames_assign hdestination) fun steps hsteps => .pure ?_
  refine List.forall_mem_cons.mpr ⟨?_, hsteps⟩
  dsimp only
  split
  · exact framed_object
  · exact framed_object

theorem frames_compileArrayGet : cx.Frames cx.compileArrayGet := by
  refine .bind (destination_yields hopcode) fun destination hdestination => ?_
  refine .bind (operand_yields 1) fun _ _ => .bind (operand_yields 2) fun _ _ => ?_
  exact frames_assign hdestination

theorem frames_compileArrayLength : cx.Frames cx.compileArrayLength :=
  .bind (destination_yields hopcode) fun _ hdestination => frames_assign hdestination

theorem frames_compileInstanceGet : cx.Frames cx.compileInstanceGet := by
  refine .bind (destination_yields hopcode) fun destination hdestination => ?_
  refine .bind (operand_yields 1) fun object _ => ?_
  refine .bind fieldReference_yields fun reference _ => ?_
  refine .bind (frames_assign hdestination) fun fromGlobal hglobal => ?_
  refine .bind (.mapM_flatten ?_) fun fromLocal hlocal =>
    .pure (List.forall_mem_append.mpr ⟨hglobal, hlocal⟩)
  rintro ⟨site, k⟩ -
  exact .bind (pre_slot_yields k) fun _ _ => frames_assign hdestination

theorem frames_compileStaticGet : cx.Frames cx.compileStaticGet := by
  refine .bind (destination_yields hopcode) fun destination hdestination => ?_
  refine .bind fieldReference_yields fun reference _ => ?_
  refine .bind (frames_assign hdestination) fun unset hunset => ?_
  refine .bind (frames_assign hdestination) fun loaded hloaded => ?_
  exact .pure (List.forall_mem_append.mpr ⟨hunset, hloaded⟩)

end Destination

/-- An allocation writes its destination after the flags of all registers have changed. -/
theorem frames_compileNewInstance (hopcode : cx.instruction.opcode = .newInstance)
    (hsite : cx.HasSite) : cx.Frames cx.compileNewInstance := by
  refine .bind Instruction.getReference_yields fun typeName hreference => ?_
  dsimp only
  split
  · exact frames_identity
  rename_i hintent
  refine .bind (destination_yields (by rw [hopcode]; rfl)) fun destination hdestination => ?_
  split
  · -- an allocation without a site is the one error that ends the run
    exact absurd ‹_› (hsite.site?_ne_none hopcode hreference hintent)
  rename_i site hfound
  have hallocate : ∀ state, cx.Keeps state → Yields
      (do
        let assigned ← state.set destination.toNat (.localRef (cx.idLiteral cx.allocation))
        assigned.clearSite cx.width site) cx.Keeps := by
    intro state hstate
    refine .bind (hstate.set hdestination _) fun assigned hassigned => ?_
    exact (State.clearSite_yields _ _ _).mono fun post hpost =>
      hassigned.of_registers_eq hpost.registers_eq
  -- The site is reused: references to the object that it held become global.
  have hreleased : cx.Keeps (cx.pre.mapRegisters (cx.shape.numRegisters + 1) fun _ cell =>
      cell.release (cx.idLiteral cx.allocation)) :=
    keeps_mapRegisters fun r => keepsRegister_release cx.width r _
  refine .bind (hallocate _ hreleased) fun plain hplain => ?_
  refine .bind (pre_slot_yields _) fun header _ => ?_
  refine .bind (frames_flushSite site) fun flushed hflushed => ?_
  refine .bind (.mapM fun k _ => .bind (pre_slot_yields k) fun slot hslot => .pure hslot.cell)
    fun fields _ => ?_
  refine .bind (frames_liftIfAnyLocal hallocate) fun lifted hlifted => .pure ?_
  refine List.forall_mem_cons.mpr ⟨framed_step hplain, List.forall_mem_append.mpr
    ⟨List.forall_mem_append.mpr ⟨hflushed, hlifted⟩, fun clause hclause pc _ => ?_⟩⟩
  exact .inl (.initializer hopcode hreference hclause)

/-! ## Instructions that write nothing or the heap -/

theorem frames_compileReturn (void : Bool) : cx.Frames (cx.compileReturn void) := by
  refine .bind argumentCopies_yields fun arguments _ => ?_
  cases void with
  | true =>
      exact .pure (List.forall_mem_singleton.mpr
        (framed_derive (.exit cx.owner.id cx.method.id) rfl nofun))
  | false =>
      refine .bind (operand_yields 0) fun result _ => .pure ?_
      exact List.forall_mem_singleton.mpr
        (framed_derive (.exit cx.owner.id cx.method.id) rfl nofun)

theorem frames_compileGoto : cx.Frames cx.compileGoto :=
  .bind Instruction.branchTarget_yields fun _ _ =>
    .pure (List.forall_mem_singleton.mpr (framed_jump keeps_pre))

theorem frames_compileBranch (condition : BranchCondition) (againstZero : Bool) :
    cx.Frames (cx.compileBranch condition againstZero) := by
  have hedges : ∀ (target : UInt32) (guard other : Formula),
      cx.Frames (pure [cx.jump target [guard] cx.pre, cx.step [other] cx.pre]) :=
    fun target guard other => .pure (List.forall_mem_cons.mpr
      ⟨framed_jump keeps_pre, List.forall_mem_singleton.mpr (framed_step keeps_pre)⟩)
  refine .bind Instruction.branchTarget_yields fun target _ => ?_
  refine .bind (operand_yields 0) fun left _ => ?_
  dsimp only
  split
  · exact .bind (.pure trivial) fun right (_ : True) => hedges _ _ _
  · refine .bind (operand_yields 1) fun other _ => ?_
    exact .bind (.pure trivial) fun right (_ : True) => hedges _ _ _

theorem frames_compileSwitch : cx.Frames cx.compileSwitch := by
  refine .bind (operand_yields 0) fun scrutinee _ => ?_
  dsimp only
  split
  · exact frames_identity
  · refine .pure (List.forall_mem_append.mpr
      ⟨fun clause hclause => ?_, List.forall_mem_singleton.mpr (framed_step keeps_pre)⟩)
    obtain ⟨case, -, rfl⟩ := List.mem_map.mp hclause
    exact framed_jump keeps_pre

theorem frames_compileCheckCast : cx.Frames cx.compileCheckCast :=
  .bind (operand_yields 0) fun _ _ => .pure (List.forall_mem_cons.mpr
    ⟨framed_step keeps_pre, List.forall_mem_singleton.mpr (framed_step keeps_pre)⟩)

theorem frames_compileFillArrayData : cx.Frames cx.compileFillArrayData := by
  refine .bind (operand_yields 0) fun array _ => ?_
  dsimp only
  split
  · exact frames_identity
  · refine .pure (List.forall_mem_append.mpr
      ⟨fun clause hclause => ?_, List.forall_mem_singleton.mpr framed_identity⟩)
    obtain ⟨k, hk, rfl⟩ := List.mem_mapIdx.mp hclause
    exact framed_object

theorem frames_compileFilledNewArray (hopcode : cx.instruction.opcode.writesResult = true) :
    cx.Frames cx.compileFilledNewArray := by
  refine .bind Instruction.getReference_yields fun reference _ => ?_
  refine .bind (.mapM fun r hr => register_yields (mem_operands_of_mem_arguments hr))
    fun elements _ => ?_
  refine .bind (frames_returns hopcode) fun plain hplain => ?_
  refine .bind (frames_liftIfAnyLocal fun state hstate =>
    hstate.set (writes_returnSlot hopcode) _) fun lifted hlifted => .pure ?_
  refine List.forall_mem_append.mpr ⟨List.forall_mem_append.mpr ⟨?_, hplain⟩, hlifted⟩
  intro clause hclause
  obtain ⟨k, hk, rfl⟩ := List.mem_mapIdx.mp hclause
  exact framed_object

theorem frames_compileArrayPut : cx.Frames cx.compileArrayPut := by
  refine .bind (operand_yields 0) fun source _ => ?_
  refine .bind (Instruction.register_yields 1) fun arrayRegister hregister => ?_
  refine .bind (operand_yields 1) fun array _ => .bind (operand_yields 2) fun index _ => ?_
  have hupdate : ∀ state, cx.Keeps state →
      Yields (state.taint arrayRegister.toNat source.high) cx.Keeps := fun state hstate =>
    hstate.taint (accesses_operand hregister) _
  refine .bind (hupdate _ keeps_pre) fun plain hplain => ?_
  refine .bind (Instruction.register_yields 0) fun sourceRegister _ => ?_
  refine .bind (frames_liftIfLocal hupdate) fun lifted hlifted => .pure ?_
  exact List.forall_mem_cons.mpr ⟨framed_step hplain,
    List.forall_mem_cons.mpr ⟨framed_object, hlifted⟩⟩

theorem frames_compileInstancePut : cx.Frames cx.compileInstancePut := by
  refine .bind (operand_yields 0) fun source _ => ?_
  refine .bind (Instruction.register_yields 1) fun objectRegister hregister => ?_
  refine .bind (operand_yields 1) fun object _ => .bind fieldReference_yields fun reference _ => ?_
  have hupdate : ∀ state, cx.Keeps state →
      Yields (state.taint objectRegister.toNat source.high) cx.Keeps := fun state hstate =>
    hstate.taint (accesses_operand hregister) _
  refine .bind (hupdate _ keeps_pre) fun plain hplain => ?_
  refine .bind (Instruction.register_yields 0) fun sourceRegister _ => ?_
  refine .bind (frames_liftIfLocal hupdate) fun lifted hlifted => ?_
  refine .bind (.mapM ?_) fun toLocal htoLocal => .pure (List.forall_mem_cons.mpr
    ⟨framed_step hplain, List.forall_mem_append.mpr
      ⟨List.forall_mem_cons.mpr ⟨framed_object, hlifted⟩, htoLocal⟩⟩)
  rintro ⟨site, k⟩ -
  refine .bind (State.setSlot_yields _ _ _) ?_
  rintro stored ⟨-, rfl⟩
  exact .bind (hupdate _ (keeps_pre.of_registers_eq rfl)) fun post hpost =>
    .pure (framed_step hpost)

theorem frames_compileStaticPut : cx.Frames cx.compileStaticPut := by
  refine .bind (Instruction.register_yields 0) fun sourceRegister _ => ?_
  refine .bind (operand_yields 0) fun source _ => .bind fieldReference_yields fun reference _ => ?_
  refine .bind (frames_liftIfLocal fun state hstate => .ok hstate) fun lifted hlifted => .pure ?_
  exact List.forall_mem_cons.mpr ⟨framed_identity, List.forall_mem_cons.mpr
    ⟨framed_derive .static rfl nofun, hlifted⟩⟩

/-! ## Calls -/

section Calls

variable {call : CallSite}

theorem writesResult_of_calls (hcall : cx.instruction.Calls call) :
    cx.instruction.opcode.writesResult = true := by
  obtain ⟨kind, range, hopcode, -⟩ := hcall
  rw [hopcode]
  rfl

theorem enter_self {arguments : List UInt32}
    (harguments : ∀ r ∈ arguments, r ∈ cx.instruction.operands) (owner : ClassId)
    (method : MethodId) (shape : FrameShape) (guards : List Formula) :
    Yields (cx.enter arguments owner method shape guards) fun clause =>
      cx.enter arguments owner method shape guards = .ok clause := by
  have hyields : Yields (cx.enter arguments owner method shape guards) fun _ => True :=
    .bind (entryState_yields harguments shape) fun _ _ => .pure trivial
  exact hyields.self

/-- A call goes on with the registers of the caller. -/
theorem leave_framed (hcall : cx.instruction.Calls call) (target : CallTarget)
    (guards : List Formula) : Yields (cx.leave call target guards) cx.Framed := by
  have hkept : cx.Keeps (cx.pre.mapRegisters (cx.shape.numRegisters + 1) fun _ =>
      afterCall cx.occupiedSites) :=
    keeps_mapRegisters fun r => keepsRegister_afterCall cx.width r _
  refine .bind (passedArguments_yields (CallSite.mem_operands_of_calls hcall) _)
    fun arguments _ => ?_
  dsimp only
  split
  · refine .bind (hkept.set (writes_returnSlot (writesResult_of_calls hcall)) _)
      fun post hpost => .pure ?_
    exact framed_step (hpost.of_registers_eq rfl)
  · exact .bind (.ok hkept) fun post hpost => .pure (framed_step (hpost.of_registers_eq rfl))

theorem frames_linkTarget {targets : List CallTarget} {target : CallTarget}
    (hcall : cx.instruction.Calls call)
    (hlinkage : call.linkage cx.oracle cx.env.config.intentSummaries = .resolved targets)
    (htarget : target ∈ targets) : cx.Frames (cx.linkTarget call target) := by
  have harguments := CallSite.mem_operands_of_calls hcall
  refine .bind (receiverGuards_yields harguments _) fun alternatives _ => ?_
  refine .bind (.mapM_flatten fun guards _ => ?_) fun clauses hclauses => .pure hclauses
  refine .bind (enter_self harguments _ _ _ _) fun entry hentry => ?_
  refine .bind (leave_framed hcall target guards) fun exit hexit => .pure ?_
  refine List.forall_mem_cons.mpr ⟨fun pc _ => ?_, List.forall_mem_singleton.mpr hexit⟩
  exact .inl (.target hcall hlinkage htarget hentry)

theorem frames_startThreads {arguments : List UInt32} {implementations : List Implementation}
    (hcall : cx.instruction.Calls call)
    (hlinkage : call.linkage cx.oracle cx.env.config.intentSummaries =
      .remapped arguments implementations)
    (harguments : ∀ r ∈ arguments, r ∈ cx.instruction.operands) :
    cx.Frames (cx.startThreads arguments implementations) := by
  refine .bind (State.register_yields _ _) fun receiver _ => ?_
  refine .bind (.mapM_flatten fun implementation himplementation => .mapM fun id _ => ?_)
    fun entries hentries => .pure (List.forall_mem_append.mpr
      ⟨hentries, List.forall_mem_singleton.mpr framed_identity⟩)
  refine (enter_self harguments _ _ _ _).mono fun clause hclause pc _ => ?_
  exact .inl (.thread hcall hlinkage (List.mem_filter.mp himplementation).1 hclause)

theorem frames_compileUnknownCall (hcall : cx.instruction.Calls call) :
    cx.Frames (cx.compileUnknownCall call) := by
  have harguments := CallSite.mem_operands_of_calls hcall
  refine .bind (.mapM fun r hr => register_yields (harguments r hr)) fun arguments _ => ?_
  have hfacts : ∀ clause ∈ (cx.unknownResult call (cx.resultLabel call arguments)).1,
      cx.Framed clause := by
    unfold unknownResult
    dsimp only
    cases call.returnKind with
    | void => simp
    | string => simp
    | primitive => simp
    | object =>
        dsimp only
        split
        · exact List.forall_mem_singleton.mpr framed_object
        · intro clause hclause
          obtain ⟨⟨field, primitive⟩, -, rfl⟩ := List.mem_map.mp hclause
          exact framed_object
    | array => exact List.forall_mem_singleton.mpr framed_object
  have hupdate : ∀ state, cx.Keeps state → Yields (cx.shareArguments call arguments
      (cx.unknownResult call (cx.resultLabel call arguments)).2 state) cx.Keeps := by
    intro state hstate
    -- one argument after another is raised, and each time the bystanders are kept
    refine .bind (.foldlM hstate ?_) fun shared hshared => ?_
    · rintro ⟨r, index⟩ hmem post hpost
      refine .bind (State.register_yields _ _) fun cell _ => ?_
      exact hpost.taint (accesses_operand (harguments r (List.fst_mem_of_mem_zipIdx hmem))) _
    · cases (cx.unknownResult call (cx.resultLabel call arguments)).2 with
      | none => exact .pure hshared
      | some cell => exact hshared.set (writes_returnSlot (writesResult_of_calls hcall)) cell
  refine .bind (hupdate _ keeps_pre) fun plain hplain => ?_
  refine .bind (frames_liftIfAnyLocal hupdate) fun lifted hlifted => .pure ?_
  exact List.forall_mem_append.mpr
    ⟨hfacts, List.forall_mem_cons.mpr ⟨framed_step hplain, hlifted⟩⟩

end Calls

/-! ## Library methods -/

section Library

variable {call : CallSite} (hcall : cx.instruction.Calls call)

include hcall

/-- The receiver of a call whose rule replaces it. -/
theorem receiver_yields {effect : LibraryEffect}
    (hlinkage : call.linkage cx.oracle cx.env.config.intentSummaries = .library effect)
    (heffect : effect.writesReceiver = true) :
    Yields (call.argument 0) fun receiver => cx.Writes receiver.toNat := by
  unfold CallSite.argument
  split
  · rename_i receiver hreceiver
    exact .ok (.inr (.inr ⟨call, effect, receiver, hcall, hlinkage, heffect, hreceiver, rfl⟩))
  · exact .error rfl

theorem argument_accesses (index : Nat) :
    Yields (call.argument index) fun r => cx.Accesses r.toNat :=
  (argument_yields (CallSite.mem_operands_of_calls hcall) index).mono
    fun _ hr => accesses_operand hr

theorem argumentCell_reads (index : Nat) : Yields (cx.argumentCell call index) cx.Reads :=
  argumentCell_yields (CallSite.mem_operands_of_calls hcall) index

theorem frames_result {cell : Cell} (guards : List Formula) : cx.Frames (cx.returns guards cell) :=
  frames_returns (writesResult_of_calls hcall)

omit hcall in
theorem frames_initIntent (hreceiver : Yields (call.argument 0) fun receiver =>
      cx.Writes receiver.toNat) (key : BvExpr) : cx.Frames (cx.initIntent call key) := by
  refine .bind hreceiver fun receiver hwrites => ?_
  refine .bind (State.register_yields _ _) fun intent _ => ?_
  refine .bind (frames_assign hwrites) fun steps hsteps => .pure ?_
  exact List.forall_mem_cons.mpr ⟨framed_extra, hsteps⟩

omit hcall in
/-- A rule that records a fact of an object and goes on. -/
theorem frames_recorded {guards : List Formula} {classKey id field value : BvExpr}
    {high blocked : Formula} :
    cx.Frames (pure [cx.derive guards (GlobalHeap.object classKey id field value high blocked),
      cx.identity]) :=
  .pure (List.forall_mem_cons.mpr ⟨framed_object, List.forall_mem_singleton.mpr framed_identity⟩)

omit hcall in
theorem frames_store {fact : Clause} {r : UInt32} (hfact : cx.Framed fact) :
    cx.Frames (cx.store fact r) := by
  refine .bind (frames_liftIfLocal fun state hstate => .ok hstate) fun lifted hlifted => .pure ?_
  exact List.forall_mem_cons.mpr ⟨hfact, List.forall_mem_cons.mpr ⟨framed_identity, hlifted⟩⟩

omit hcall in
theorem frames_updateAndLift {r : UInt32} {update : State → Except Error State}
    (hupdate : ∀ state, cx.Keeps state → Yields (update state) cx.Keeps) :
    cx.Frames (cx.updateAndLift r update) := by
  refine .bind (hupdate _ keeps_pre) fun plain hplain => ?_
  refine .bind (frames_liftIfLocal hupdate) fun lifted hlifted => .pure ?_
  exact List.forall_mem_cons.mpr ⟨framed_step hplain, hlifted⟩

theorem frames_putExtra : cx.Frames (LibraryEffect.putExtra.compile cx call) := by
  refine .bind (argument_accesses hcall 0) fun receiver hreceiver => ?_
  refine .bind (argument_accesses hcall 1) fun keyRegister _ => ?_
  refine .bind (argument_accesses hcall 2) fun valueRegister _ => ?_
  refine .bind (State.register_yields _ _) fun intent _ => ?_
  refine .bind (State.register_yields _ _) fun key _ => ?_
  refine .bind (State.register_yields _ _) fun value _ => ?_
  refine .bind (frames_updateAndLift fun state hstate => ?_) fun steps hsteps =>
    .pure (List.forall_mem_cons.mpr ⟨framed_extra, hsteps⟩)
  refine .bind (hstate.taint hreceiver _) fun tainted htainted => ?_
  refine .bind (State.register_yields _ _) fun cell _ => ?_
  exact htainted.set (writes_returnSlot (writesResult_of_calls hcall)) cell

theorem frames_putEntry : cx.Frames (LibraryEffect.putEntry.compile cx call) := by
  refine .bind (argument_accesses hcall 0) fun mapRegister _ => ?_
  refine .bind (argument_accesses hcall 1) fun keyRegister _ => ?_
  refine .bind (argument_accesses hcall 2) fun valueRegister _ => ?_
  refine .bind (State.register_yields _ _) fun map _ => ?_
  refine .bind (State.register_yields _ _) fun key _ => ?_
  refine .bind (State.register_yields _ _) fun value _ => ?_
  refine .bind (frames_updateAndLift fun state hstate =>
    hstate.set (writes_returnSlot (writesResult_of_calls hcall)) _) fun steps hsteps => ?_
  exact .pure (List.forall_mem_cons.mpr ⟨framed_object, hsteps⟩)

/-- Rules that store an argument in a field of another one. -/
theorem frames_storeHolding {classKey field : BvExpr} :
    cx.Frames (do
      let holder ← call.argument 0
      let stored ← call.argument 1
      let object ← cx.register holder
      let value ← cx.register stored
      cx.store (cx.derive [] (GlobalHeap.holding classKey object.value field value)) stored) := by
  refine .bind (argument_accesses hcall 0) fun holder _ => ?_
  refine .bind (argument_accesses hcall 1) fun stored _ => ?_
  refine .bind (State.register_yields _ _) fun object _ => ?_
  refine .bind (State.register_yields _ _) fun value _ => ?_
  exact frames_store framed_object

theorem frames_libraryEffect {effect : LibraryEffect}
    (hlinkage : call.linkage cx.oracle cx.env.config.intentSummaries = .library effect) :
    cx.Frames (effect.compile cx call) := by
  have hcell := argumentCell_reads hcall
  have hresult : ∀ {cell : Cell} (guards : List Formula), cx.Frames (cx.returns guards cell) :=
    frames_result hcall
  -- a result goes into the return slot, a receiver is named by its register
  cases effect with
  | newIntentForAction =>
      exact .bind (hcell 1) fun _ _ =>
        frames_initIntent (receiver_yields hcall hlinkage rfl) _
  | newIntentForComponent =>
      exact .bind (hcell 2) fun _ _ =>
        frames_initIntent (receiver_yields hcall hlinkage rfl) _
  | newIntent => exact frames_initIntent (receiver_yields hcall hlinkage rfl) _
  | putExtra => exact frames_putExtra hcall
  | getAction => exact .bind (hcell 0) fun _ _ => hresult _
  | getExtra => exact .bind (hcell 0) fun _ _ => hresult _
  | retargetIntent =>
      refine .bind (argument_accesses hcall 0) fun receiver _ => ?_
      refine .bind (argument_accesses hcall _) fun componentRegister _ => ?_
      refine .bind (State.register_yields _ _) fun intent _ => ?_
      refine .bind (State.register_yields _ _) fun component _ => ?_
      refine .bind (hresult _) fun steps hsteps => ?_
      exact .pure (List.forall_mem_cons.mpr ⟨framed_extra, hsteps⟩)
  | startActivity =>
      refine .bind (hcell 1) fun intent _ => .pure ?_
      exact List.forall_mem_cons.mpr ⟨framed_derive .launch rfl nofun, List.forall_mem_cons.mpr
        ⟨framed_object, List.forall_mem_cons.mpr
          ⟨framed_object, List.forall_mem_singleton.mpr framed_identity⟩⟩⟩
  | setResult => exact .bind (hcell 2) fun _ _ => frames_recorded
  | getIntent => exact hresult _
  | marshallParcel => exact .bind (hcell 0) fun _ _ => hresult _
  | unmarshallParcel =>
      refine .bind (receiver_yields hcall hlinkage rfl) fun receiver hreceiver => ?_
      exact .bind (hcell 1) fun _ _ => frames_assign hreceiver
  | writeParcel => exact frames_storeHolding hcall
  | readParcel => exact .bind (hcell 0) fun _ _ => hresult _
  | newException => exact frames_storeHolding hcall
  | getMessage => exact .bind (hcell 0) fun _ _ => hresult _
  | systemObject =>
      refine .bind (hresult _) fun steps hsteps => ?_
      exact .pure (List.forall_mem_cons.mpr ⟨framed_object, hsteps⟩)
  | newPoint =>
      refine .bind (hcell 0) fun point _ => ?_
      refine .bind (hcell 1) fun x _ => .bind (hcell 2) fun y _ => .pure ?_
      exact List.forall_mem_cons.mpr ⟨framed_object, List.forall_mem_cons.mpr
        ⟨framed_object, List.forall_mem_singleton.mpr framed_identity⟩⟩
  | putEntry => exact frames_putEntry hcall
  | getEntry => exact .bind (hcell 0) fun _ _ => .bind (hcell 1) fun _ _ => hresult _
  | copyChars => exact .bind (hcell 0) fun _ _ => .bind (hcell 3) fun _ _ => frames_recorded
  | newFormatter => exact .bind (hcell 0) fun _ _ => .bind (hcell 1) fun _ _ => frames_recorded
  | format =>
      refine .bind (hcell 0) fun formatter _ => ?_
      refine .bind (hcell 1) fun pattern _ => .bind (hcell 2) fun values _ => ?_
      refine .bind (hresult _) fun steps hsteps => ?_
      exact .pure (List.forall_mem_cons.mpr ⟨framed_object, hsteps⟩)
  | bufferText =>
      refine .bind (hcell 0) fun buffer _ => ?_
      refine .bind (hresult _) fun formatted hformatted => ?_
      refine .bind (hresult _) fun plain hplain => ?_
      exact .pure (List.forall_mem_append.mpr ⟨hformatted, hplain⟩)
  | copyArray => exact .bind (hcell 0) fun _ _ => .bind (hcell 2) fun _ _ => frames_recorded
  | getHint =>
      refine .bind (hcell 0) fun view _ => ?_
      refine .bind (hresult _) fun stored hstored => ?_
      refine .bind (hresult _) fun unset hunset => ?_
      exact .pure (List.forall_mem_append.mpr ⟨hstored, hunset⟩)
  | setHint => exact frames_storeHolding hcall

theorem frames_compileCall : cx.Frames (cx.compileCall call) := by
  have harguments := CallSite.mem_operands_of_calls hcall
  unfold compileCall
  cases hlinkage : call.linkage cx.oracle cx.env.config.intentSummaries with
  | remapped arguments implementations =>
      exact frames_startThreads hcall hlinkage fun r hr =>
        harguments r (CallSite.mem_arguments_of_remapped hlinkage r hr)
  | resolved targets =>
      exact .bind (.mapM_flatten fun target htarget => frames_linkTarget hcall hlinkage htarget)
        fun _ hclauses => .pure hclauses
  | library effect => exact frames_libraryEffect hcall hlinkage
  | unknown => exact frames_compileUnknownCall hcall

end Library

/-! ## All instructions -/

/-- An emission of which every clause is framed. -/
def FramesAll (cx : StepContext) (emission : Emission) : Prop :=
  ∀ clause ∈ emission.clauses, cx.Framed clause

theorem framesAll_ofClauses {clauses : List Clause} (h : ∀ clause ∈ clauses, cx.Framed clause) :
    cx.FramesAll (.ofClauses clauses) :=
  fun clause hclause => h clause (Emission.mem_of_mem_ofClauses hclause)

theorem frames_steps {outcome : Except Error (List Clause)} (h : cx.Frames outcome) :
    Yields (outcome.map Emission.ofClauses) cx.FramesAll :=
  .map (h.mono fun _ hclauses => framesAll_ofClauses hclauses)

theorem frames_compileInvoke {kind : InvokeKind} {range : Bool}
    (hopcode : cx.instruction.opcode = .invoke kind range) :
    Yields (cx.compileInvoke kind) cx.FramesAll := by
  refine .bind (CallSite.ofInstruction_yields _ _).self fun call hsite => ?_
  have hcall : cx.instruction.Calls call := ⟨kind, range, hopcode, hsite⟩
  refine .bind (sinkQueries_yields (CallSite.mem_operands_of_calls hcall)) fun queries _ => ?_
  exact .bind (frames_compileCall hcall) fun _ hclauses => .pure (framesAll_ofClauses hclauses)

theorem frames_compile (hsite : cx.HasSite) : Yields cx.compile cx.FramesAll := by
  unfold compile
  dsimp only
  cases hopcode : cx.instruction.opcode with
  | nop => exact frames_steps frames_identity
  | monitor => exact frames_steps frames_identity
  | moveException => exact frames_steps frames_identity
  | throw => exact frames_steps frames_identity
  | payload => exact frames_steps frames_identity
  | unsupported => exact frames_steps frames_identity
  | move => exact frames_steps (frames_compileMove (by rw [hopcode]; rfl))
  | moveResult => exact frames_steps (frames_compileMoveResult (by rw [hopcode]; rfl))
  | return_ => exact frames_steps (frames_compileReturn false)
  | returnVoid => exact frames_steps (frames_compileReturn true)
  | const kind => exact frames_steps (frames_compileConst (by rw [hopcode]; rfl) kind)
  | checkCast => exact frames_steps frames_compileCheckCast
  | instanceOf => exact frames_steps (frames_compileInstanceOf (by rw [hopcode]; rfl))
  | arrayLength => exact frames_steps (frames_compileArrayLength (by rw [hopcode]; rfl))
  | newInstance => exact frames_steps (frames_compileNewInstance hopcode hsite)
  | newArray => exact frames_steps (frames_compileNewArray (by rw [hopcode]; rfl))
  | filledNewArray range =>
      exact frames_steps (frames_compileFilledNewArray (by rw [hopcode]; rfl))
  | fillArrayData => exact frames_steps frames_compileFillArrayData
  | goto => exact frames_steps frames_compileGoto
  | switch _ => exact frames_steps frames_compileSwitch
  | compare => exact frames_steps (frames_compileCompare (by rw [hopcode]; rfl))
  | branch condition againstZero => exact frames_steps (frames_compileBranch condition againstZero)
  | arrayGet => exact frames_steps (frames_compileArrayGet (by rw [hopcode]; rfl))
  | arrayPut => exact frames_steps frames_compileArrayPut
  | instanceGet => exact frames_steps (frames_compileInstanceGet (by rw [hopcode]; rfl))
  | instancePut => exact frames_steps frames_compileInstancePut
  | staticGet => exact frames_steps (frames_compileStaticGet (by rw [hopcode]; rfl))
  | staticPut => exact frames_steps frames_compileStaticPut
  | unary op => exact frames_steps (frames_compileUnary (by rw [hopcode]; rfl) op)
  | binary op form => exact frames_steps (frames_compileBinary (by rw [hopcode]; rfl) op form)
  | invoke kind range => exact frames_compileInvoke hopcode

/-- Without a site for its object an allocation ends the run, or it is skipped because it has no
destination. -/
theorem emission_eq_of_not_hasSite {emission : Emission} (hsite : ¬ cx.HasSite)
    (h : cx.compileOrSkip = .ok emission) : emission = .ofClauses [cx.identity] := by
  simp only [HasSite, not_forall] at hsite
  obtain ⟨typeName, hallocation, hnone⟩ := hsite
  have hnone : cx.layout.site? cx.allocation = none := by
    simpa [← Option.ne_none_iff_exists'] using hnone
  unfold Instruction.localAllocation? at hallocation
  split at hallocation
  · rename_i hopcode
    obtain ⟨hreference, hintent⟩ : cx.instruction.reference = some typeName ∧
        typeName ≠ intentClass := by simpa using hallocation
    have hcompile : cx.compile = cx.compileNewInstance.map Emission.ofClauses := by
      rw [compile, hopcode]
    have hhandler : cx.compileNewInstance = cx.instruction.register 0 >>= fun _ =>
        .error (.inconsistentAllocation cx.allocation cx.owner.name cx.method.name
          cx.instruction.pc) := by
      unfold compileNewInstance Instruction.getReference
      rw [hreference]
      dsimp only [Bind.bind, Except.bind]
      rw [if_neg hintent, hnone]
      rfl
    rw [compileOrSkip, hcompile, hhandler] at h
    -- The destination is read first, so an instruction without one is skipped all the same.
    cases hregister : cx.instruction.register 0 with
    | ok destination =>
        rw [hregister] at h
        cases h
    | error cause =>
        have hrecovers := (Instruction.register_yields 0).recovers cause hregister
        rw [hregister] at h
        dsimp only [Bind.bind, Except.bind, Except.map] at h
        rw [hrecovers] at h
        exact (Except.ok.inj h).symm
  · cases hallocation

/-- Whatever an instruction contributes is one of the listed forms, and framed. -/
theorem emitted_and_framed {emission : Emission} {clause : Clause}
    (h : cx.compileOrSkip = .ok emission) (hclause : clause ∈ emission.clauses) :
    cx.Emitted clause ∧ cx.Framed clause := by
  have hidentity : clause ∈ (Emission.ofClauses [cx.identity]).clauses →
      cx.Emitted clause ∧ cx.Framed clause := by
    intro hmem
    rw [List.mem_singleton.mp (Emission.mem_of_mem_ofClauses hmem)]
    exact ⟨emitted_identity, framed_identity⟩
  by_cases hsite : cx.HasSite
  · obtain ⟨other, hother, hcontributes⟩ := compileOrSkip_contributes hsite
    have hsame : emission = other := Except.ok.inj (h.symm.trans hother)
    refine ⟨hcontributes.clauses clause (hsame ▸ hclause), ?_⟩
    -- either the handler succeeds, or its clauses are replaced by the one that goes on
    unfold compileOrSkip at h
    split at h
    · rename_i hcompile
      cases h
      exact (frames_compile hsite).result _ hcompile clause hclause
    · split at h
      · cases h
      · cases h
        exact (hidentity hclause).2
  · exact hidentity (emission_eq_of_not_hasSite hsite h ▸ hclause)

/-- A method is entered at its first position. -/
theorem Enters.relation_eq {clause : Clause} (h : cx.Enters clause) :
    ∃ owner method, clause.head.relation = ProgramPoint.relationName ⟨owner, method, 0⟩ := by
  have henter : ∀ {arguments owner method shape guards},
      cx.enter arguments owner method shape guards = .ok clause →
        clause.head.relation = ProgramPoint.relationName ⟨owner, method, 0⟩ := by
    intro arguments owner method shape guards heq
    obtain ⟨entry, -, heq⟩ := bind_eq_ok_iff.mp heq
    cases heq
    rfl
  cases h with
  | target hcall hlinkage htarget heq => exact ⟨_, _, henter heq⟩
  | thread hcall hlinkage himplementation heq => exact ⟨_, _, henter heq⟩
  | initializer hopcode hreference hclause =>
      unfold initializerEntry at hclause
      split at hclause
      · dsimp only at hclause
        split at hclause
        · exact ⟨_, _, by rw [List.mem_singleton.mp hclause]; rfl⟩
        · cases hclause
      · cases hclause

/-- What goes on behind the first position does not enter a method. -/
theorem not_enters_of_relation {clause : Clause} {pc : UInt32} (hpc : pc ≠ 0)
    (hhead : clause.head.relation = (cx.pointAt pc).relationName) : ¬ cx.Enters clause := by
  intro henters
  obtain ⟨owner, method, hentry⟩ := henters.relation_eq
  have hpoint := ProgramPoint.relationName_injective (hhead.symm.trans hentry)
  exact hpc (congrArg ProgramPoint.pc hpoint)

/-- The registers of a state that keeps the bystanders, before and after. -/
theorem Keeps.kept {post : State} (h : cx.Keeps post) {env : Valuation}
    {before after : StateValue} (hbefore : cx.pre.Denotes env before)
    (hafter : post.Denotes env after) {r : Nat} {old new : CellValue}
    (hold : before.registers[r]? = some old) (hnew : after.registers[r]? = some new) :
    (¬ cx.Writes r → old.Kept new) ∧
      (cx.shape.numRegisters < r → ¬ cx.Accesses r → new = old) := by
  obtain ⟨cell, hcell, heval⟩ := exists_getElem?_of_map_eq hbefore.registers hold
  obtain ⟨cell', hcell', heval'⟩ := exists_getElem?_of_map_eq hafter.registers hnew
  have hr : r < cx.shape.slotCount := by
    obtain ⟨hlt, -⟩ := List.getElem?_eq_some_iff.mp hcell
    rwa [cx.sorted_pre.registers_length] at hlt
  rw [getElem?_pre hr] at hcell
  cases hcell
  constructor
  · intro hwrites
    obtain ⟨kept, hkept, hkeeps⟩ := h.registers r hr hwrites
    cases hcell'.symm.trans hkept
    exact hkeeps.kept heval heval'
  · intro hcopy haccess
    cases hcell'.symm.trans (h.copies r hr hcopy haccess)
    exact Option.some.inj (heval'.symm.trans heval)

/-- When control goes on in the method, the registers that an instruction does not write keep
their values, stay references or not, and lose no label.  Argument copies that it does not name
are unchanged. -/
theorem registers_kept {emission : Emission} {clause : Clause} {pc : UInt32} {env : Valuation}
    (hcompile : cx.compileOrSkip = .ok emission) (hclause : clause ∈ emission.clauses)
    (henters : ¬ cx.Enters clause) (hhead : clause.head.relation = (cx.pointAt pc).relationName)
    (henv : env.Admits clause.vars) :
    ∃ guards before after, clause.body = cx.body guards ∧ cx.pre.Denotes env before ∧
      clause.head.Denotes env (pointFact (cx.pointAt pc) after) ∧
      before.registers.length = cx.shape.slotCount ∧
      after.registers.length = cx.shape.slotCount ∧
      ∀ r old new, before.registers[r]? = some old → after.registers[r]? = some new →
        (¬ cx.Writes r → new.value = old.value ∧
          (new.isLocal || new.isGlobal) = (old.isLocal || old.isGlobal) ∧
          (old.high = true → new.high = true)) ∧
        (cx.shape.numRegisters < r →
          (∀ operand ∈ cx.instruction.operands, operand.toNat ≠ r) → new = old) := by
  obtain ⟨hemitted, hframed⟩ := emitted_and_framed hcompile hclause
  obtain ⟨guards, post, rfl, hkeeps⟩ := (hframed pc hhead).resolve_left henters
  -- Body and head of the clause are sorted, so the valuation gives both of them a state.
  obtain ⟨hbody, hvars⟩ := henv.append
  have hcurrent : env.Admits cx.current.vars := by
    refine hbody.mono fun v hv =>
      Formula.mem_varsList.mpr ⟨cx.current.toFormula, List.mem_cons_self, ?_⟩
    simpa [Atom.toFormula, Formula.vars, Atom.vars] using hv
  obtain ⟨fact, hfact⟩ := Atom.exists_denotes (sorted_args_pointAtom cx.sorted_pre) hcurrent
  obtain ⟨before, hbefore, -⟩ := denotes_pointAtom_iff.mp hfact
  obtain ⟨fact', hfact'⟩ := Atom.exists_denotes hemitted.sorted_head hvars
  obtain ⟨after, hafter, rfl⟩ := denotes_pointAtom_iff.mp hfact'
  have hlength : before.registers.length = cx.shape.slotCount := by
    rw [hbefore.registers_length, cx.sorted_pre.registers_length]
  have hlength' : after.registers.length = cx.shape.slotCount := by
    rw [hafter.registers_length, hkeeps.length_eq]
  refine ⟨guards, before, after, rfl, hbefore, hfact', hlength, hlength', ?_⟩
  intro r old new hold hnew
  obtain ⟨hkept, hcopy⟩ := hkeeps.kept hbefore hafter hold hnew
  refine ⟨fun hwrites => ?_, fun hr hoperands => hcopy hr ?_⟩
  · obtain ⟨hvalue, hreference, hhigh⟩ := hkept hwrites
    exact ⟨hvalue, hreference, hhigh⟩
  · -- argument copies come after the return slot
    rintro (hreturn | ⟨operand, hoperand, heq⟩)
    · exact absurd hreturn (Nat.ne_of_gt hr)
    · exact hoperands operand hoperand heq

/-- A call that passes a register and awaits a result. -/
def sampleCall : StepContext where
  env := Program.sample.environment Program.sampleConfig {}
  owner := { name := "La;" }
  method := { name := "start(I)V", numRegisters := 2, numArguments := 1, isStatic := true }
  instruction :=
    { pc := 2, mnemonic := "invoke-static", registers := [0],
      reference := some "Lb;->keep(Lb;)Lb;" }
  nextPc := 5
  allocation := 0

/-- A state before the call in which register 1 holds a secret local reference. -/
def sampleBefore : StateValue where
  registers := [⟨7, false, true, false⟩, ⟨9, true, true, false⟩, ⟨0, false, false, false⟩,
    ⟨4, true, false, true⟩]
  heap := [⟨⟨7, false, true, false⟩, false⟩, ⟨⟨0, false, false, false⟩, false⟩]

theorem operands_sampleCall : sampleCall.instruction.operands = [0, 0] := by decide +kernel

theorem not_writes_sampleCall : ¬ sampleCall.Writes 1 := by
  have hopcode : sampleCall.instruction.opcode = .invoke .static false := by decide +kernel
  rintro (⟨hwrites, -⟩ | ⟨-, hreturn⟩ | ⟨call, effect, receiver, hcall, -, -, hreceiver, hone⟩)
  · rw [hopcode] at hwrites
    cases hwrites
  · revert hreturn
    decide
  · have hpassed := CallSite.mem_operands_of_calls hcall receiver (List.mem_of_getElem? hreceiver)
    have hzero : receiver = 0 := by simpa [operands_sampleCall] using hpassed
    rw [hzero] at hone
    cases hone

theorem fits_sampleBefore : sampleCall.Fits sampleBefore where
  registers_length := by decide
  heap_length := by decide +kernel
  inRange := ⟨by decide +kernel, by decide +kernel⟩

/-- The call goes on with register 1 and the argument copy as they were. -/
theorem registers_kept_sampleCall :
    ∃ emission clause after, sampleCall.compileOrSkip = .ok emission ∧ clause ∈ emission.clauses ∧
      ¬ sampleCall.Enters clause ∧
      clause.head.Denotes (stateValuation sampleBefore) (pointFact (sampleCall.pointAt 5) after) ∧
      ∃ new, after.registers[1]? = some new ∧ new.value = 9 ∧ new.high = true ∧
        (new.isLocal || new.isGlobal) = true ∧
        after.registers[3]? = some ⟨4, true, false, true⟩ := by
  have hsite : sampleCall.HasSite := by
    have hnone : sampleCall.instruction.localAllocation? = none := by decide +kernel
    intro typeName hallocation
    rw [hnone] at hallocation
    cases hallocation
  have hstep : sampleCall.emission.clauses.any (fun clause =>
      clause.head.relation == (sampleCall.pointAt 5).relationName) = true := by decide +kernel
  obtain ⟨emission, hcompile, hcontributes⟩ := compileOrSkip_contributes hsite
  rw [StepContext.emission, hcompile] at hstep
  obtain ⟨clause, hclause, hhead⟩ := List.any_eq_true.mp hstep
  have hhead : clause.head.relation = (sampleCall.pointAt 5).relationName := by simpa using hhead
  have henters : ¬ sampleCall.Enters clause := not_enters_of_relation (by decide) hhead
  have henv : (stateValuation sampleBefore).Admits clause.vars :=
    fits_sampleBefore.inRange.admits (hcontributes.clauses clause hclause).respected
  obtain ⟨guards, before, after, -, hbefore, hafter, -, hlength, hkept⟩ :=
    registers_kept hcompile hclause henters hhead henv
  have hslots : sampleCall.shape.slotCount = 4 := by decide
  have hsame : before = sampleBefore := hbefore.unique fits_sampleBefore.denotes_pre
  subst hsame
  have hone := List.getElem?_eq_getElem (show 1 < after.registers.length by omega)
  have hthree := List.getElem?_eq_getElem (show 3 < after.registers.length by omega)
  obtain ⟨hvalue, hreference, hhigh⟩ := (hkept 1 _ _ rfl hone).1 not_writes_sampleCall
  have hcopy := (hkept 3 _ _ rfl hthree).2 (by decide) (by simp [operands_sampleCall])
  exact ⟨emission, clause, after, hcompile, hclause, henters, hafter, _, hone, hvalue, hhigh rfl,
    hreference, hthree.trans (congrArg some hcopy)⟩

end StepContext

end DalvikHorn
