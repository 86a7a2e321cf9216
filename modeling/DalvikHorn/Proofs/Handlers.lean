import DalvikHorn.Proofs.Emitted

/-!
# The clauses of instructions

Every handler of an instruction that makes no call emits clauses of the forms that
`StepContext.Emitted` lists.  Each proof walks along the `do` block of its
handler: operands are cells that the instruction reads, their components are
sorted, and what is left is to name the form of every clause.
-/

namespace DalvikHorn.StepContext

variable {cx : StepContext}

/-! ## Moves, constants and returns -/

theorem emits_compileMove : cx.Emits cx.compileMove := by
  refine .bind (Instruction.register_yields 0) fun destination hdestination => ?_
  refine .bind (operand_yields 1) fun source hsource => ?_
  exact emits_assign hdestination forall_isGuard_nil (.inr hsource)

theorem emits_compileMoveResult : cx.Emits cx.compileMoveResult := by
  refine .bind (Instruction.register_yields 0) fun destination hdestination => ?_
  refine .bind (State.register_yields _ _) fun result hresult => ?_
  exact emits_assign hdestination forall_isGuard_nil (.inr ⟨_, accesses_returnSlot, hresult⟩)

theorem emits_compileConst (kind : ConstKind) : cx.Emits (cx.compileConst kind) := by
  refine .bind (Instruction.register_yields 0) fun destination hdestination => ?_
  have hassign : ∀ value : BvExpr, value.Sorted cx.width →
      cx.Emits (cx.assign destination [] (.scalar value .ff)) := fun value hvalue =>
    emits_assign hdestination forall_isGuard_nil
      (isResult_scalar hvalue (Formula.sorted_const _))
  cases kind with
  | literal =>
      exact .bind Instruction.getLiteral_yields fun _ _ => .bind (.pure (sorted_literal _)) hassign
  | string =>
      exact .bind Instruction.getReference_yields fun _ _ => .bind (.pure (sorted_classLiteral _)) hassign
  | class_ =>
      exact .bind Instruction.getReference_yields fun _ _ => .bind (.pure (sorted_classLiteral _)) hassign

/-- The arguments of an exit are the copies that the frame has kept. -/
theorem argumentCopies_yields :
    Yields
      ((List.range cx.shape.numArguments).mapM fun i =>
        cx.pre.register (cx.shape.argumentCopy i))
      (· = cx.pre.registers.drop (cx.shape.numRegisters + 1)) := by
  have hyields : Yields ((List.range cx.shape.numArguments).mapM fun i =>
      cx.pre.register (cx.shape.argumentCopy i)) fun _ => True :=
    (Yields.mapM fun i _ => (State.register_yields _ _).mono fun _ _ => trivial).mono
      fun _ (_ : ∀ cell ∈ _, True) => trivial
  refine hyields.self.mono fun arguments hresult => ?_
  rw [mapM_eq_ok_iff] at hresult
  have hlength : cx.shape.numArguments = arguments.length := by
    simpa using congrArg List.length hresult
  refine List.ext_getElem? fun i => ?_
  by_cases hi : i < arguments.length
  · have hcell := congrArg (·[i]?) hresult
    simp only [List.getElem?_map, List.getElem?_range (hlength ▸ hi), Option.map_some,
      List.getElem?_eq_getElem hi] at hcell
    rw [List.getElem?_drop, List.getElem?_eq_getElem hi]
    exact ((State.register_yields _ _).result _ (Option.some.inj hcell)).symm
  · rw [List.getElem?_eq_none (by omega), List.getElem?_eq_none]
    rw [List.length_drop, cx.sorted_pre.registers_length, FrameShape.slotCount]
    omega

theorem emits_compileReturn {void : Bool}
    (hvoid : void = true → cx.instruction.opcode = .returnVoid) :
    cx.Emits (cx.compileReturn void) := by
  refine .bind argumentCopies_yields ?_
  rintro arguments rfl
  cases void with
  | true => exact .pure (List.forall_mem_singleton.mpr (.exit (.inl ⟨rfl, hvoid rfl⟩)))
  | false =>
      refine .bind (operand_yields 0) fun result hresult => ?_
      exact .pure (List.forall_mem_singleton.mpr (.exit (.inr hresult)))

/-! ## Arithmetic -/

theorem emits_compileUnary (op : UnaryOp) : cx.Emits (cx.compileUnary op) := by
  refine .bind (Instruction.register_yields 0) fun destination hdestination => ?_
  refine .bind (operand_yields 1) fun source hsource => ?_
  refine emits_assign hdestination forall_isGuard_nil (isResult_scalar ?_ hsource.sorted.high)
  cases op with
  | neg => exact hsource.sorted.value.unary
  | not => exact hsource.sorted.value.unary
  | convert => exact hsource.sorted.value

theorem isResult_binary {op : BvBinary} {left right : Cell} (hleft : cx.Reads left)
    (hright : cx.Reads right) :
    cx.IsResult (.scalar (.binary op left.value right.value) (left.high.either right.high)) :=
  isResult_scalar (hleft.sorted.value.binary hright.sorted.value)
    (hleft.sorted.high.either hright.sorted.high)

theorem emits_compileBinary (op : BinaryOp) (form : OperandForm) :
    cx.Emits (cx.compileBinary op form) := by
  refine .bind (Instruction.register_yields 0) fun destination hdestination => ?_
  have hassign : ∀ result, cx.IsResult result → cx.Emits (cx.assign destination [] result) :=
    fun _ hresult => emits_assign hdestination forall_isGuard_nil hresult
  cases form with
  | three =>
      refine .bind (operand_yields 1) fun left hleft => ?_
      refine .bind (operand_yields 2) fun right hright => ?_
      exact .bind (.pure (isResult_binary hleft hright)) hassign
  | twoAddress =>
      refine .bind (operand_yields 0) fun left hleft => ?_
      refine .bind (operand_yields 1) fun right hright => ?_
      exact .bind (.pure (isResult_binary hleft hright)) hassign
  | literal =>
      refine .bind (operand_yields 1) fun operand hoperand => ?_
      refine .bind Instruction.getLiteral_yields fun literal _ => ?_
      refine .bind (.pure (isResult_scalar ?_ hoperand.sorted.high)) hassign
      split
      · exact (sorted_literal _).binary hoperand.sorted.value
      · exact hoperand.sorted.value.binary (sorted_literal _)

theorem emits_compileCompare : cx.Emits cx.compileCompare := by
  refine .bind (Instruction.register_yields 0) fun destination hdestination => ?_
  refine .bind (operand_yields 1) fun left hleft => ?_
  refine .bind (operand_yields 2) fun right hright => ?_
  have hl := hleft.sorted
  have hr := hright.sorted
  refine emits_assign hdestination forall_isGuard_nil (isResult_scalar ?_ (hl.high.either hr.high))
  exact .select (hl.value.eqTo hr.value) (sorted_literal _)
    (.select (hl.value.compare hr.value) (sorted_literal _) (sorted_literal _))

/-! ## Branches -/

theorem emits_compileGoto : cx.Emits cx.compileGoto := by
  refine .bind Instruction.branchTarget_yields fun target _ => .pure ?_
  simpa using .step forall_isGuard_nil .pre

/-- Both edges of a branch, whatever the condition is compared with. -/
theorem emits_branchEdges (target : UInt32) {comparison : BvCompare} {negated : Bool}
    {left right : BvExpr} (hleft : left.Sorted cx.width) (hright : right.Sorted cx.width) :
    cx.Emits
      (let holds := Formula.compare comparison left right
       let guard := if negated then holds.negate else holds
       pure [cx.jump target [guard] cx.pre, cx.step [guard.negate] cx.pre]) := by
  have hholds : (Formula.compare comparison left right).Sorted cx.width := hleft.compare hright
  have hguard : (if negated = true then (Formula.compare comparison left right).negate
      else Formula.compare comparison left right).Sorted cx.width := by
    split
    · exact hholds.negate
    · exact hholds
  refine .pure (List.forall_mem_cons.mpr ⟨?_, List.forall_mem_singleton.mpr ?_⟩)
  · exact .step (forall_isGuard_singleton (isGuard_of_sorted hguard)) .pre
  · exact .step (forall_isGuard_singleton (isGuard_of_sorted hguard.negate)) .pre

theorem emits_compileBranch (condition : BranchCondition) (againstZero : Bool) :
    cx.Emits (cx.compileBranch condition againstZero) := by
  refine .bind Instruction.branchTarget_yields fun target _ => ?_
  refine .bind (operand_yields 0) fun left hleft => ?_
  dsimp only
  split
  · refine .bind (.pure (sorted_literal 0)) fun right hright => ?_
    exact emits_branchEdges target hleft.sorted.value hright
  · refine .bind (operand_yields 1) fun other hother => ?_
    refine .bind (.pure hother.sorted.value) fun right hright => ?_
    exact emits_branchEdges target hleft.sorted.value hright

theorem mem_switchCases {scrutinee : BvExpr} {entries : List (Int32 × Int32)} {guard : Formula}
    {target : UInt32} :
    (guard, target) ∈ cx.switchCases scrutinee entries ↔
      ∃ entry ∈ entries, relativePc cx.instruction.pc entry.2 = .ok target ∧
        guard = scrutinee.eqTo (cx.literal entry.1.toInt) := by
  unfold switchCases
  rw [List.mem_filterMap]
  constructor
  · rintro ⟨⟨key, offset⟩, hentry, hcase⟩
    refine ⟨(key, offset), hentry, ?_⟩
    dsimp only at hcase
    split at hcase
    · rename_i found hfound
      cases hcase
      exact ⟨hfound, rfl⟩
    · cases hcase
  · rintro ⟨⟨key, offset⟩, hentry, hrelative, rfl⟩
    refine ⟨(key, offset), hentry, ?_⟩
    dsimp only at hrelative ⊢
    rw [hrelative]

theorem sorted_switchCases {scrutinee : BvExpr} (hscrutinee : scrutinee.Sorted cx.width)
    (entries : List (Int32 × Int32)) :
    ∀ case ∈ cx.switchCases scrutinee entries, case.1.Sorted cx.width := by
  rintro ⟨guard, target⟩ hcase
  obtain ⟨entry, -, -, rfl⟩ := mem_switchCases.mp hcase
  exact hscrutinee.eqTo (sorted_literal _)

theorem emits_compileSwitch : cx.Emits cx.compileSwitch := by
  refine .bind (operand_yields 0) fun scrutinee hscrutinee => ?_
  dsimp only
  split
  · exact emits_identity
  · rename_i entries _
    refine .pure ?_
    have hcases := sorted_switchCases hscrutinee.sorted.value entries
    intro clause hclause
    rcases List.mem_append.mp hclause with hmem | hmem
    · obtain ⟨case, hcase, rfl⟩ := List.mem_map.mp hmem
      exact .step (forall_isGuard_singleton (isGuard_of_sorted (hcases case hcase))) .pre
    · rw [List.mem_singleton.mp hmem]
      have hany : (Formula.any ((cx.switchCases scrutinee.value entries).map (·.1))).Sorted
          cx.width := by
        refine Formula.sorted_any fun part hpart => ?_
        obtain ⟨case, hcase, rfl⟩ := List.mem_map.mp hpart
        exact hcases case hcase
      exact .step (forall_isGuard_singleton (isGuard_of_sorted hany.negate)) .pre

/-! ## Arrays -/

theorem sorted_elementField {index : BvExpr} (hindex : index.Sorted cx.width) :
    (cx.elementField index).Sorted cx.width := by
  unfold elementField
  split
  · exact hindex
  · exact sorted_literal _

theorem emits_compileNewArray : cx.Emits cx.compileNewArray := by
  refine .bind (Instruction.register_yields 0) fun destination hdestination => ?_
  refine .bind (operand_yields 1) fun size hsize => ?_
  refine .bind Instruction.getReference_yields fun reference _ => ?_
  have helement : ∀ field : BvExpr, field.Sorted cx.width →
      GlobalHeap.IsFact cx.width (GlobalHeap.object (cx.classLiteral reference)
        (cx.idLiteral cx.allocation) field (.zero cx.width) .ff .ff) := fun field hfield =>
    .object (sorted_classLiteral _) (sorted_idLiteral _) hfield BvExpr.sorted_zero
      (Formula.sorted_const _) (Formula.sorted_const _)
  refine .bind (emits_assign hdestination forall_isGuard_nil
    (isResult_globalRef (sorted_idLiteral _) (Formula.sorted_const _))) fun steps hsteps => .pure ?_
  refine List.forall_mem_cons.mpr ⟨?_, hsteps⟩
  dsimp only
  split
  · have hfield : (cx.variable_ Names.field).Sorted cx.width := sorted_variable
    refine .fact (List.forall_mem_cons.mpr ⟨?_, forall_isGuard_singleton ?_⟩) (helement _ hfield)
    · exact isGuard_of_sorted ((sorted_literal _).compare hfield)
    · exact isGuard_of_sorted (hfield.compare hsize.sorted.value)
  · exact .fact forall_isGuard_nil (helement _ (sorted_literal _))

theorem emits_compileFilledNewArray : cx.Emits cx.compileFilledNewArray := by
  refine .bind Instruction.getReference_yields fun reference _ => ?_
  refine .bind (.mapM fun r hr => register_yields (mem_operands_of_mem_arguments hr))
    fun elements helements => ?_
  have harray : (Cell.globalRef (cx.idLiteral cx.allocation) .ff).Sorted cx.width :=
    Cell.sorted_globalRef (sorted_idLiteral _) (Formula.sorted_const _)
  refine .bind (emits_returns forall_isGuard_nil (.inl ⟨harray, rfl⟩)) fun plain hplain => ?_
  refine .bind (emits_liftIfAnyLocal (fun cell hcell => (helements cell hcell).sorted)
    forall_isGuard_nil fun state hstate => updated_set hstate accesses_returnSlot harray rfl)
    fun lifted hlifted => .pure ?_
  refine List.forall_mem_append.mpr ⟨List.forall_mem_append.mpr ⟨?_, hplain⟩, hlifted⟩
  intro clause hclause
  obtain ⟨k, hk, rfl⟩ := List.mem_mapIdx.mp hclause
  have hcell := (helements _ (List.getElem_mem hk)).sorted
  exact .fact forall_isGuard_nil (.object (sorted_classLiteral _) (sorted_idLiteral _)
    (sorted_elementField (sorted_literal _)) hcell.value hcell.high hcell.blocked)

theorem emits_compileFillArrayData : cx.Emits cx.compileFillArrayData := by
  refine .bind (operand_yields 0) fun array harray => ?_
  dsimp only
  split
  · exact emits_identity
  · refine .pure (List.forall_mem_append.mpr ⟨?_, List.forall_mem_singleton.mpr emitted_identity⟩)
    intro clause hclause
    obtain ⟨k, hk, rfl⟩ := List.mem_mapIdx.mp hclause
    refine .fact (forall_isGuard_singleton (isGuard_of_isFact ?_)) ?_
    · exact .object sorted_variable harray.sorted.value sorted_variable sorted_variable sorted_flag
        sorted_flag
    · exact .object sorted_variable harray.sorted.value (sorted_elementField (sorted_literal _))
        (sorted_literal _) (Formula.sorted_const _) (Formula.sorted_const _)

theorem isResult_readCell : cx.IsResult cx.readCell :=
  .inl ⟨⟨sorted_variable, sorted_flag, Formula.sorted_const _, sorted_flag⟩, rfl⟩

theorem emits_compileArrayGet : cx.Emits cx.compileArrayGet := by
  refine .bind (Instruction.register_yields 0) fun destination hdestination => ?_
  refine .bind (operand_yields 1) fun array harray => ?_
  refine .bind (operand_yields 2) fun index hindex => ?_
  refine emits_assign hdestination (forall_isGuard_singleton (isGuard_of_isFact ?_))
    isResult_readCell
  exact .object sorted_variable harray.sorted.value (sorted_elementField hindex.sorted.value)
    sorted_variable sorted_flag sorted_flag

theorem emits_compileArrayPut : cx.Emits cx.compileArrayPut := by
  refine .bind (operand_yields 0) fun source hsource => ?_
  refine .bind (Instruction.register_yields 1) fun arrayRegister hregister => ?_
  refine .bind (operand_yields 1) fun array harray => ?_
  refine .bind (operand_yields 2) fun index hindex => ?_
  have hupdate : ∀ state, cx.Updated state →
      Yields (state.taint arrayRegister.toNat source.high) cx.Updated := fun state hstate =>
    updated_taint hstate (accesses_operand hregister) hsource.sorted.high
  refine .bind (hupdate _ .pre) fun plain hplain => ?_
  refine .bind (Instruction.register_yields 0) fun sourceRegister hsourceRegister => ?_
  refine .bind (emits_liftIfLocal hsourceRegister forall_isGuard_nil hupdate)
    fun lifted hlifted => .pure ?_
  refine List.forall_mem_cons.mpr ⟨.step forall_isGuard_nil hplain, List.forall_mem_cons.mpr
    ⟨.fact (forall_isGuard_singleton (isGuard_of_isFact ?_)) ?_, hlifted⟩⟩
  · exact .object sorted_variable harray.sorted.value sorted_variable sorted_variable sorted_flag
      sorted_flag
  · exact .object sorted_variable harray.sorted.value (sorted_elementField hindex.sorted.value)
      hsource.sorted.value hsource.sorted.high hsource.sorted.blocked

theorem emits_compileArrayLength : cx.Emits cx.compileArrayLength := by
  refine .bind (Instruction.register_yields 0) fun destination hdestination => ?_
  exact emits_assign hdestination forall_isGuard_nil
    (isResult_scalar sorted_variable (Formula.sorted_const _))

/-! ## Fields -/

theorem forall_isGuard_refersTo {object : Cell} (hobject : object.Sorted cx.width)
    (site : AllocationSite) : ∀ guard ∈ cx.refersTo object site, cx.IsGuard guard :=
  List.forall_mem_cons.mpr ⟨isGuard_of_sorted hobject.isLocal,
    forall_isGuard_singleton (isGuard_of_sorted (hobject.value.eqTo (sorted_idLiteral _)))⟩

theorem emits_compileInstanceGet : cx.Emits cx.compileInstanceGet := by
  refine .bind (Instruction.register_yields 0) fun destination hdestination => ?_
  refine .bind (operand_yields 1) fun object hobject => ?_
  refine .bind fieldReference_yields fun reference _ => ?_
  refine .bind (emits_assign hdestination (forall_isGuard_singleton (isGuard_of_isFact
    (.object sorted_variable hobject.sorted.value (sorted_idLiteral _) sorted_variable sorted_flag
      sorted_flag))) isResult_readCell) fun fromGlobal hglobal => ?_
  refine .bind (.mapM_flatten ?_) fun fromLocal hlocal =>
    .pure (List.forall_mem_append.mpr ⟨hglobal, hlocal⟩)
  rintro ⟨site, k⟩ -
  refine .bind (pre_slot_yields k) fun slot hslot => ?_
  refine emits_assign hdestination (forall_isGuard_refersTo hobject.sorted site) (.inl ⟨?_, rfl⟩)
  exact ⟨hslot.cell.value, hslot.cell.high, Formula.sorted_const _, hslot.cell.isGlobal⟩

theorem emits_compileInstancePut : cx.Emits cx.compileInstancePut := by
  refine .bind (operand_yields 0) fun source hsource => ?_
  obtain ⟨sourceSlot, hsourceSlot, hsourceCell⟩ := hsource
  have hsourceSorted : source.Sorted cx.width := cx.sorted_pre.register hsourceCell
  refine .bind (Instruction.register_yields 1) fun objectRegister hregister => ?_
  refine .bind (operand_yields 1) fun object hobject => ?_
  refine .bind fieldReference_yields fun reference _ => ?_
  -- the label of the source raises the register of the object
  have hupdate : ∀ state, cx.Updated state →
      Yields (state.taint objectRegister.toNat source.high) cx.Updated := fun state hstate =>
    updated_taint hstate (accesses_operand hregister) hsourceSorted.high
  refine .bind (hupdate _ .pre) fun plain hplain => ?_
  refine .bind (Instruction.register_yields 0) fun sourceRegister hsourceRegister => ?_
  have hobjectGlobal : ∀ guard ∈ [object.isGlobal], cx.IsGuard guard :=
    forall_isGuard_singleton (isGuard_of_sorted hobject.sorted.isGlobal)
  refine .bind (emits_liftIfLocal hsourceRegister hobjectGlobal hupdate) fun lifted hlifted => ?_
  refine .bind (.mapM ?_) fun toLocal htoLocal => .pure (List.forall_mem_cons.mpr
    ⟨.step forall_isGuard_nil hplain, List.forall_mem_append.mpr ⟨List.forall_mem_cons.mpr
      ⟨.fact hobjectGlobal ?_, hlifted⟩, htoLocal⟩⟩)
  · -- the source is stored into one slot, which is where it came from
    rintro ⟨site, k⟩ -
    refine .bind (State.setSlot_yields _ _ _) ?_
    rintro stored ⟨-, rfl⟩
    refine .bind (hupdate _ (.store .pre hsourceSlot hsourceCell)) fun post hpost => .pure ?_
    exact .step (forall_isGuard_refersTo hobject.sorted site) hpost
  · exact .object (sorted_idLiteral _) hobject.sorted.value (sorted_idLiteral _)
      hsourceSorted.value hsourceSorted.high hsourceSorted.blocked

theorem emits_compileStaticGet : cx.Emits cx.compileStaticGet := by
  refine .bind (Instruction.register_yields 0) fun destination hdestination => ?_
  refine .bind fieldReference_yields fun reference _ => ?_
  refine .bind (emits_assign hdestination forall_isGuard_nil (.inl ⟨?_, rfl⟩)) fun unset hunset => ?_
  · exact ⟨sorted_literal _, Formula.sorted_const _, Formula.sorted_const _, sorted_flag⟩
  refine .bind (emits_assign hdestination (forall_isGuard_singleton (isGuard_of_isFact
    (.static sorted_variable sorted_flag sorted_flag))) (.inl ⟨?_, rfl⟩)) fun loaded hloaded => ?_
  · exact ⟨sorted_variable, sorted_flag, Formula.sorted_const _, sorted_flag⟩
  exact .pure (List.forall_mem_append.mpr ⟨hunset, hloaded⟩)

theorem emits_compileStaticPut : cx.Emits cx.compileStaticPut := by
  refine .bind (Instruction.register_yields 0) fun sourceRegister hregister => ?_
  refine .bind (operand_yields 0) fun source hsource => ?_
  refine .bind fieldReference_yields fun reference _ => ?_
  refine .bind (emits_liftIfLocal hregister forall_isGuard_nil fun state hstate => .ok hstate)
    fun lifted hlifted => .pure ?_
  have hsorted := hsource.sorted
  exact List.forall_mem_cons.mpr ⟨emitted_identity, List.forall_mem_cons.mpr
    ⟨.fact forall_isGuard_nil (.static hsorted.value hsorted.high hsorted.blocked), hlifted⟩⟩

/-! ## Objects -/

/-- The object that an instruction allocates on the local heap has a site there. -/
def HasSite (cx : StepContext) : Prop :=
  ∀ typeName, cx.instruction.localAllocation? = some typeName →
    ∃ site, cx.layout.site? cx.allocation = some site

/-- An allocation on the local heap finds its site. -/
theorem HasSite.site?_ne_none (hsite : cx.HasSite) {typeName : String}
    (hopcode : cx.instruction.opcode = .newInstance)
    (hreference : cx.instruction.reference = some typeName) (hintent : typeName ≠ intentClass) :
    cx.layout.site? cx.allocation ≠ none := by
  obtain ⟨site, hfound⟩ := hsite typeName (by
    simp [Instruction.localAllocation?, hopcode, hreference, hintent])
  simp [hfound]

theorem emitted_initializerEntry (owner : ClassId) :
    ∀ clause ∈ cx.initializerEntry owner, cx.Emitted clause := by
  unfold initializerEntry
  split
  · dsimp only
    split
    · exact List.forall_mem_singleton.mpr (.startInitializer (by assumption) (by assumption))
    · simp
  · simp

theorem emits_compileNewInstance (hopcode : cx.instruction.opcode = .newInstance)
    (hsite : cx.HasSite) : cx.Emits cx.compileNewInstance := by
  refine .bind Instruction.getReference_yields fun typeName hreference => ?_
  dsimp only
  split
  · exact emits_identity
  rename_i hintent
  refine .bind (Instruction.register_yields 0) fun destination hdestination => ?_
  split
  · exact absurd ‹_› (hsite.site?_ne_none hopcode hreference hintent)
  rename_i site hfound
  have hsite : site ∈ cx.layout.sites := List.mem_of_find?_eq_some hfound
  have hid : site.id = cx.allocation := by simpa using List.find?_some hfound
  have hallocate : ∀ state, cx.Updated state → Yields
      (do
        let assigned ← state.set destination.toNat (.localRef (cx.idLiteral cx.allocation))
        assigned.clearSite cx.width site) cx.Updated := by
    intro state hstate
    refine .bind (State.set_yields _ _ _) ?_
    rintro assigned ⟨-, rfl⟩
    rw [← hid]
    -- clearing the slots of the site is the update the step allows
    exact (State.clearSite_yields _ _ _).self.mono fun post hpost =>
      .allocate hstate (accesses_operand hdestination) hsite hpost
  refine .bind (hallocate _ (.release .pre (sorted_idLiteral _))) fun plain hplain => ?_
  refine .bind (pre_slot_yields _) fun header hheader => ?_
  refine .bind (emits_flushSite site forall_isGuard_nil) fun flushed hflushed => ?_
  refine .bind (.mapM fun k _ => .bind (pre_slot_yields k) fun slot hslot => .pure hslot.cell)
    fun fields hfields => ?_
  refine .bind (emits_liftIfAnyLocal hfields
    (forall_isGuard_singleton (isGuard_of_sorted hheader.free.negate)) hallocate)
    fun lifted hlifted => .pure ?_
  refine List.forall_mem_cons.mpr ⟨.step forall_isGuard_nil hplain, List.forall_mem_append.mpr
    ⟨List.forall_mem_append.mpr ⟨hflushed, hlifted⟩, emitted_initializerEntry _⟩⟩

theorem emits_compileCheckCast : cx.Emits cx.compileCheckCast := by
  refine .bind (operand_yields 0) fun object hobject => .pure ?_
  have hsorted := hobject.sorted
  have hnonNull : cx.IsGuard (.compare .ugt object.value (cx.literal 0)) :=
    isGuard_of_sorted (hsorted.value.compare (sorted_literal _))
  refine List.forall_mem_cons.mpr ⟨.step ?_ .pre, List.forall_mem_singleton.mpr (.step ?_ .pre)⟩
  · exact List.forall_mem_cons.mpr
      ⟨isGuard_of_sorted hsorted.isGlobal, forall_isGuard_singleton hnonNull⟩
  · exact List.forall_mem_cons.mpr
      ⟨isGuard_of_sorted hsorted.isLocal, forall_isGuard_singleton hnonNull⟩

theorem emits_compileInstanceOf : cx.Emits cx.compileInstanceOf := by
  refine .bind (Instruction.register_yields 0) fun destination hdestination => ?_
  have hassign : ∀ value, cx.Emits (cx.assign destination [] (.scalar (cx.literal value) .ff)) :=
    fun value => emits_assign hdestination forall_isGuard_nil
      (isResult_scalar (sorted_literal _) (Formula.sorted_const _))
  refine .bind (hassign 0) fun no hno => ?_
  refine .bind (hassign 1) fun yes hyes => ?_
  exact .pure (List.forall_mem_append.mpr ⟨hno, hyes⟩)

end DalvikHorn.StepContext
