import DalvikHorn.Proofs.Handlers

/-!
# The clauses of calls

A call emits clauses of the forms that `StepContext.Emitted` lists, whichever way
it is linked.
-/

namespace DalvikHorn

/-! ## Call sites -/

namespace CallSite

/-- A call passes the arguments of its instruction to the method that the instruction
refers to. -/
theorem ofInstruction_yields (instruction : Instruction) (kind : InvokeKind) :
    Yields (ofInstruction instruction kind) fun call =>
      call.arguments = instruction.argumentRegisters ∧
        ∃ reference, instruction.reference = some reference ∧
          MethodRef.parse reference = .ok call.target :=
  .bind Instruction.getReference_yields fun reference hreference =>
    .bind (.mapError fun _ => rfl) fun _ htarget => .pure ⟨rfl, reference, hreference, htarget⟩

theorem mem_operands_of_calls {instruction : Instruction} {call : CallSite}
    (hcall : instruction.Calls call) : ∀ r ∈ call.arguments, r ∈ instruction.operands := by
  obtain ⟨kind, -, -, hcall⟩ := hcall
  rw [((ofInstruction_yields _ _).result call hcall).1]
  exact fun r hr => List.mem_append_right _ hr

theorem mem_arguments_of_receiver? {call : CallSite} {r : UInt32}
    (hreceiver : call.receiver? = some r) : r ∈ call.arguments := by
  unfold receiver? at hreceiver
  split at hreceiver
  · cases hreceiver
  · exact List.mem_of_mem_head? hreceiver

/-- The register that stands for the receiver of a call with arguments is one of them. -/
theorem headD_mem {arguments : List UInt32} (hne : arguments ≠ []) :
    arguments.headD 0 ∈ arguments := by
  cases arguments with
  | nil => exact absurd rfl hne
  | cons first rest => exact List.mem_cons_self

/-- What a remapped call starts: an answer of the oracle, with the last of its arguments. -/
theorem remapped?_eq_some {call : CallSite} {oracle : Oracle} {arguments : List UInt32}
    {implementations : List Implementation}
    (h : call.remapped? oracle = some (arguments, implementations)) :
    (∀ r ∈ arguments, r ∈ call.arguments) ∧ arguments ≠ [] ∧
      ∃ owner method, oracle.resolveVirtual owner method = some implementations := by
  simp only [remapped?, Option.bind_eq_bind, Option.bind_eq_some_iff] at h
  obtain ⟨remap, -, h⟩ := h
  split at h
  · simp at h
  · rename_i hne
    obtain ⟨found, hfound, h⟩ := Option.bind_eq_some_iff.mp h
    cases h
    exact ⟨fun r hr => List.mem_of_mem_drop hr, by simpa using hne, _, _, hfound⟩

/-- A target of a call stands in the answer of the oracle, to a virtual call or to a direct one. -/
theorem mem_targets_cases {call : CallSite} {oracle : Oracle} {target : CallTarget}
    (h : target ∈ call.targets oracle) :
    (∃ found, oracle.resolveVirtual call.classId call.methodId = some found ∧
      ∃ implementation ∈ found, target = ⟨implementation.owner, implementation.method,
        implementation.shape, some implementation.receivers⟩) ∨
    ∃ found, oracle.resolveStatic call.classId call.methodId = some found ∧
      ∃ definition ∈ found,
        target = ⟨definition.owner, definition.method, definition.shape, none⟩ := by
  obtain ⟨hmem, -⟩ := List.mem_filter.mp h
  split at hmem
  · obtain ⟨implementation, himplementation, rfl⟩ := List.mem_map.mp hmem
    cases hfound : oracle.resolveVirtual call.classId call.methodId with
    | none => simp [hfound] at himplementation
    | some found =>
        rw [hfound] at himplementation
        exact .inl ⟨found, rfl, implementation, himplementation, rfl⟩
  · obtain ⟨definition, hdefinition, rfl⟩ := List.mem_map.mp hmem
    cases hfound : oracle.resolveStatic call.classId call.methodId with
    | none => simp [hfound] at hdefinition
    | some found =>
        rw [hfound] at hdefinition
        exact .inr ⟨found, rfl, definition, hdefinition, rfl⟩

/-- A target of a call is an answer of the oracle that fits into its registers. -/
theorem targets_of_mem_targets {call : CallSite} {oracle : Oracle} {target : CallTarget}
    (h : target ∈ call.targets oracle) :
    oracle.Targets target.owner target.method target.shape ∧ target.shape.WellFormed := by
  refine ⟨?_, by simpa using (List.mem_filter.mp h).2⟩
  obtain ⟨found, hfound, implementation, hmem, rfl⟩ | ⟨found, hfound, definition, hmem, rfl⟩ :=
    mem_targets_cases h
  · exact .inl ⟨_, _, found, hfound, implementation, hmem, rfl, rfl, rfl⟩
  · exact .inr ⟨_, _, found, hfound, definition, hmem, rfl, rfl, rfl⟩

end CallSite

namespace StepContext

variable {cx : StepContext} {call : CallSite}

/-! ## Unknown methods -/

theorem sorted_resultLabel {arguments : List Cell}
    (harguments : ∀ cell ∈ arguments, cell.Sorted cx.width) :
    (cx.resultLabel call arguments).Sorted cx.width := by
  unfold resultLabel
  split
  · exact Formula.sorted_const _
  · refine Formula.sorted_any fun part hpart => ?_
    obtain ⟨cell, hcell, rfl⟩ := List.mem_map.mp hpart
    exact (harguments cell hcell).high

theorem sorted_labelOfOthers {arguments : List Cell}
    (harguments : ∀ cell ∈ arguments, cell.Sorted cx.width) (index : Nat) :
    (labelOfOthers arguments index).Sorted cx.width := by
  refine Formula.sorted_any fun part hpart => ?_
  obtain ⟨cell, hcell, rfl⟩ := List.mem_map.mp hpart
  exact (harguments cell (List.mem_of_mem_eraseIdx hcell)).high

/-- The facts about the result of an unknown method, and the result itself. -/
theorem unknownResult_emitted (cx : StepContext) (call : CallSite) {label : Formula}
    (hlabel : label.Sorted cx.width) :
    (∀ clause ∈ (cx.unknownResult call label).1, cx.Emitted clause) ∧
      ∀ cell ∈ (cx.unknownResult call label).2, cell.Sorted cx.width ∧ cell.isLocal = .ff := by
  unfold unknownResult
  dsimp only
  -- the value may be anything of its kind, with the label of the call
  cases call.returnKind with
  | void => exact ⟨by simp, by simp⟩
  | string =>
      refine ⟨by simp, ?_⟩
      rintro cell ⟨⟩
      exact ⟨Cell.sorted_globalRef sorted_variable hlabel, rfl⟩
  | primitive =>
      refine ⟨by simp, ?_⟩
      rintro cell ⟨⟩
      exact ⟨Cell.sorted_scalar sorted_variable hlabel, rfl⟩
  | object =>
      refine ⟨?_, ?_⟩
      · -- each of the facts names a field, which is known or a variable
        have hfact : ∀ field blocked, field.Sorted cx.width → blocked.Sorted cx.width →
            cx.Emitted (cx.derive [] (GlobalHeap.object (cx.classLiteral call.target.returnType)
              (cx.variable_ Names.anyField) field (cx.variable_ Names.anyValue) label blocked)) :=
          fun field blocked hfield hblocked => .fact forall_isGuard_nil
            (.object (sorted_classLiteral _) sorted_variable hfield sorted_variable hlabel hblocked)
        dsimp only
        split
        · exact List.forall_mem_singleton.mpr (hfact _ _ sorted_variable sorted_flag)
        · intro clause hclause
          obtain ⟨⟨field, primitive⟩, -, rfl⟩ := List.mem_map.mp hclause
          exact hfact _ _ (sorted_idLiteral _) (Formula.sorted_const _)
      · rintro cell ⟨⟩
        exact ⟨Cell.sorted_globalRef sorted_variable hlabel, rfl⟩
  | array =>
      refine ⟨List.forall_mem_singleton.mpr (.fact forall_isGuard_nil ?_), ?_⟩
      · exact .object (sorted_classLiteral _) (sorted_idLiteral _) sorted_variable sorted_variable
          hlabel sorted_flag
      · rintro cell ⟨⟩
        exact ⟨Cell.sorted_globalRef (sorted_idLiteral _) hlabel, rfl⟩

theorem updated_shareArguments {arguments : List Cell} {result : Option Cell} {state : State}
    (hcall : ∀ r ∈ call.arguments, r ∈ cx.instruction.operands)
    (harguments : ∀ cell ∈ arguments, cell.Sorted cx.width)
    (hresult : ∀ cell ∈ result, cell.Sorted cx.width ∧ cell.isLocal = .ff)
    (hstate : cx.Updated state) :
    Yields (cx.shareArguments call arguments result state) cx.Updated := by
  refine .bind (.foldlM hstate ?_) fun shared hshared => ?_
  · rintro ⟨r, index⟩ hmem post hpost
    refine .bind (State.register_yields _ _) fun cell hcell => ?_
    refine updated_taint hpost (accesses_operand (hcall r (List.fst_mem_of_mem_zipIdx hmem))) ?_
    exact (hpost.sorted.register hcell).isGlobal.both (sorted_labelOfOthers harguments index)
  · cases result with
    | none => exact .pure hshared
    | some cell =>
        obtain ⟨hcell, hlocal⟩ := hresult cell rfl
        exact updated_set hshared accesses_returnSlot hcell hlocal

theorem emits_compileUnknownCall (hcall : ∀ r ∈ call.arguments, r ∈ cx.instruction.operands) :
    cx.Emits (cx.compileUnknownCall call) := by
  refine .bind (.mapM fun r hr => register_yields (hcall r hr)) fun arguments harguments => ?_
  have hsorted : ∀ cell ∈ arguments, cell.Sorted cx.width := fun cell hcell =>
    (harguments cell hcell).sorted
  have hlabel : (cx.resultLabel call arguments).Sorted cx.width := sorted_resultLabel hsorted
  obtain ⟨hfacts, hresult⟩ := cx.unknownResult_emitted call hlabel
  have hupdate : ∀ state, cx.Updated state → Yields (cx.shareArguments call arguments
      (cx.unknownResult call (cx.resultLabel call arguments)).2 state) cx.Updated :=
    fun state hstate => updated_shareArguments hcall hsorted hresult hstate
  refine .bind (hupdate _ .pre) fun plain hplain => ?_
  refine .bind (emits_liftIfAnyLocal hsorted forall_isGuard_nil hupdate) fun lifted hlifted => ?_
  exact .pure (List.forall_mem_append.mpr ⟨hfacts, List.forall_mem_cons.mpr
    ⟨.step forall_isGuard_nil hplain, hlifted⟩⟩)

/-! ## Resolved and remapped calls -/

theorem receiverGuards_yields (hcall : ∀ r ∈ call.arguments, r ∈ cx.instruction.operands)
    (receivers : Option (List InstanceId)) :
    Yields (cx.receiverGuards call.receiver? receivers) fun alternatives =>
      ∀ guards ∈ alternatives, ∀ guard ∈ guards, guard.Sorted cx.width := by
  unfold receiverGuards
  split
  · rename_i r ids hreceiver
    have hr : r ∈ cx.instruction.operands :=
      hcall r (CallSite.mem_arguments_of_receiver? hreceiver)
    refine .bind (register_yields hr) fun cell hcell => .pure fun guards hguards => ?_
    obtain ⟨id, -, rfl⟩ := List.mem_map.mp hguards
    exact List.forall_mem_singleton.mpr (hcell.sorted.value.eqTo (sorted_idLiteral _))
  · exact .ok (by simp)

theorem entered_zeroed (shape : FrameShape) :
    cx.Entered shape (.zeroed shape cx.pre.heap cx.width) where
  registers_length := by simp [State.zeroed]
  registers := fun _ hcell => .inl (List.eq_of_mem_replicate hcell)
  heap_eq := rfl

theorem Entered.set {shape : FrameShape} {entry : State} (hentry : cx.Entered shape entry) (r : Nat)
    {cell : Cell} (hcell : cx.Reads cell) :
    Yields (entry.set r cell) (cx.Entered shape) := by
  refine (State.set_yields _ _ _).mono ?_
  rintro post ⟨-, rfl⟩
  refine ⟨by simpa using hentry.registers_length, fun other hother => ?_, hentry.heap_eq⟩
  rcases List.mem_or_eq_of_mem_set hother with hmem | rfl
  · exact hentry.registers other hmem
  · exact .inr hcell

theorem entryState_yields {arguments : List UInt32}
    (harguments : ∀ r ∈ arguments, r ∈ cx.instruction.operands) (shape : FrameShape) :
    Yields (cx.entryState shape arguments) (cx.Entered shape) := by
  refine .foldlM (entered_zeroed shape) ?_
  rintro ⟨r, i⟩ hmem entry hentry
  have hr : r ∈ cx.instruction.operands :=
    harguments r (List.mem_of_mem_take (List.fst_mem_of_mem_zipIdx hmem))
  refine .bind (register_yields hr) fun argument hargument => ?_
  split
  · exact .error rfl
  · exact .bind (hentry.set _ hargument) fun entered hentered => hentered.set _ hargument

theorem enter_yields {arguments : List UInt32} {owner : ClassId} {method : MethodId}
    {shape : FrameShape} {guards : List Formula}
    (harguments : ∀ r ∈ arguments, r ∈ cx.instruction.operands)
    (hguards : ∀ guard ∈ guards, guard.Sorted cx.width)
    (htarget : cx.oracle.Targets owner method shape) (hshape : shape.WellFormed) :
    Yields (cx.enter arguments owner method shape guards) cx.Emitted :=
  .bind (entryState_yields harguments shape) fun _ hentry =>
    .pure (.enter hguards htarget hshape hentry)

/-- The arguments that a call passes to a target: missing ones are zero. -/
theorem passedArguments_yields (hcall : ∀ r ∈ call.arguments, r ∈ cx.instruction.operands)
    (count : Nat) :
    Yields
      ((List.range count).mapM fun i =>
        match call.arguments[i]? with
        | some r => cx.register r
        | none => .ok (.zero cx.width))
      fun arguments => arguments.length = count ∧
        ∀ cell ∈ arguments, cell = .zero cx.width ∨ cx.Reads cell := by
  have hpassed : ∀ i ∈ List.range count, Yields
      (match call.arguments[i]? with
        | some r => cx.register r
        | none => .ok (.zero cx.width))
      fun cell => cell = .zero cx.width ∨ cx.Reads cell := by
    intro i _
    split
    · exact (register_yields (hcall _ (List.mem_of_getElem? (by assumption)))).mono fun _ => .inr
    · exact .ok (.inl rfl)
  have hyields := Yields.mapM hpassed
  refine ⟨fun arguments harguments => ⟨?_, hyields.result arguments harguments⟩, hyields.recovers⟩
  simpa using (congrArg List.length (mapM_eq_ok_iff.mp harguments)).symm

theorem leave_yields {target : CallTarget} {guards : List Formula}
    (hcall : cx.instruction.Calls call) (htarget : target ∈ call.targets cx.oracle)
    (hguards : ∀ guard ∈ guards, guard.Sorted cx.width) :
    Yields (cx.leave call target guards) cx.Emitted := by
  refine .bind (passedArguments_yields (CallSite.mem_operands_of_calls hcall) _) ?_
  rintro arguments ⟨hlength, harguments⟩
  have hform : ∀ high : Formula, high.Sorted cx.width → cx.Emitted (cx.step
      ((exitAtom target.owner target.method arguments cx.resultCell cx.returnedHeap).toFormula ::
        guards)
      (cx.afterReturn
        (if call.returnKind.returnsValue then some (cx.resultCell.withHigh high) else none))) :=
    fun high hhigh => .leave hcall htarget hguards hlength harguments hhigh
  -- a source labels its result, and any other call passes the label on
  have hhigh : (if cx.callsSource call = true then cx.resultCell.withHigh .tt else cx.resultCell) =
      cx.resultCell.withHigh (if cx.callsSource call then .tt else .var Names.resultHigh) := by
    split <;> rfl
  have hsorted : (if cx.callsSource call then .tt else .var Names.resultHigh :
      Formula).Sorted cx.width := by
    split
    · exact Formula.sorted_const _
    · exact sorted_flag
  have hclause := hform _ hsorted
  dsimp only
  rw [hhigh]
  -- a call without a result leaves the return slot as it is
  split
  · rename_i hreturns
    refine .bind (State.set_yields _ _ _) ?_
    rintro post ⟨-, rfl⟩
    rw [if_pos hreturns] at hclause
    exact .pure hclause
  · rename_i hreturns
    rw [if_neg hreturns] at hclause
    exact .bind (.ok rfl) fun post hpost => .pure (hpost ▸ hclause)

theorem emits_linkTarget {target : CallTarget} (hcall : cx.instruction.Calls call)
    (htarget : target ∈ call.targets cx.oracle) : cx.Emits (cx.linkTarget call target) := by
  have harguments := CallSite.mem_operands_of_calls hcall
  obtain ⟨hfound, hshape⟩ := CallSite.targets_of_mem_targets htarget
  refine .bind (receiverGuards_yields harguments _) fun alternatives halternatives => ?_
  refine .bind (.mapM_flatten fun guards hguards => ?_) fun clauses hclauses => .pure hclauses
  have hsorted := halternatives guards hguards
  refine .bind (enter_yields harguments hsorted hfound hshape) fun entry hentry => ?_
  refine .bind (leave_yields hcall htarget hsorted) fun exit hexit => .pure ?_
  exact List.forall_mem_cons.mpr ⟨hentry, List.forall_mem_singleton.mpr hexit⟩

theorem emits_startThreads {arguments : List UInt32} {implementations : List Implementation}
    {owner : ClassId} {method : MethodId}
    (harguments : ∀ r ∈ arguments, r ∈ cx.instruction.operands) (hne : arguments ≠ [])
    (hfound : cx.oracle.resolveVirtual owner method = some implementations) :
    cx.Emits (cx.startThreads arguments implementations) := by
  have hhead : arguments.headD 0 ∈ cx.instruction.operands :=
    harguments _ (CallSite.headD_mem hne)
  refine .bind (register_yields hhead) fun receiver hreceiver => ?_
  have hentry : ∀ implementation ∈ implementations.filter (·.shape.WellFormed), ∀ id,
      Yields (cx.enter arguments implementation.owner implementation.method implementation.shape
        [receiver.value.eqTo (cx.idLiteral id)]) cx.Emitted := by
    intro implementation himplementation id
    obtain ⟨hmem, hshape⟩ := List.mem_filter.mp himplementation
    refine enter_yields harguments (List.forall_mem_singleton.mpr ?_)
      (.inl ⟨_, _, _, hfound, implementation, hmem, rfl, rfl, rfl⟩) (by simpa using hshape)
    exact hreceiver.sorted.value.eqTo (sorted_idLiteral _)
  refine .bind (.mapM_flatten fun implementation himplementation =>
    .mapM fun id _ => hentry implementation himplementation id) fun entries hentries => .pure ?_
  exact List.forall_mem_append.mpr ⟨hentries, List.forall_mem_singleton.mpr emitted_identity⟩

end StepContext

end DalvikHorn
