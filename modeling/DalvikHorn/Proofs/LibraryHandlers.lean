import DalvikHorn.Proofs.CallHandlers

/-!
# The clauses of library methods and of all instructions

Every library rule emits clauses of the forms that `StepContext.Emitted` lists.
With the rules of the other calls and of the remaining instructions this gives the
statement that the invariants of compiled programs start from,
`compileOrSkip_contributes`: every instruction contributes something, and all of it
has one of those forms.
-/

namespace DalvikHorn

namespace StepContext

variable {cx : StepContext} {call : CallSite}

/-! ## Parts of effects -/

theorem argument_yields (hcall : ∀ r ∈ call.arguments, r ∈ cx.instruction.operands) (index : Nat) :
    Yields (call.argument index) (· ∈ cx.instruction.operands) := by
  unfold CallSite.argument
  split
  · exact .ok (hcall _ (List.mem_of_getElem? (by assumption)))
  · exact .error rfl

theorem argumentCell_yields (hcall : ∀ r ∈ call.arguments, r ∈ cx.instruction.operands)
    (index : Nat) : Yields (cx.argumentCell call index) cx.Reads :=
  .bind (argument_yields hcall index) fun _ hr => register_yields hr

theorem isResult_loaded {name : String} [Names.AuxiliaryValue name] :
    cx.IsResult (cx.loaded name) :=
  .inl ⟨⟨sorted_variable, sorted_flag, Formula.sorted_const _, sorted_flag⟩, rfl⟩

theorem isFact_loadedFrom {name : String} {classKey id field : BvExpr}
    (hclass : classKey.Sorted cx.width) (hid : id.Sorted cx.width) (hfield : field.Sorted cx.width)
    [Names.AuxiliaryValue name] :
    GlobalHeap.IsFact cx.width (cx.loadedFrom name classKey id field) :=
  .object hclass hid hfield sorted_variable sorted_flag sorted_flag

theorem forall_isGuard_anyExtra {intent : BvExpr} (hintent : intent.Sorted cx.width) :
    ∀ guard ∈ [(cx.anyExtra intent).toFormula], cx.IsGuard guard :=
  forall_isGuard_singleton (isGuard_of_isFact
    (.extra hintent sorted_variable sorted_variable sorted_flag sorted_flag))

theorem forall_isGuard_loadedFrom {name : String} {classKey id field : BvExpr}
    (hclass : classKey.Sorted cx.width) (hid : id.Sorted cx.width) (hfield : field.Sorted cx.width)
    [Names.AuxiliaryValue name] :
    ∀ guard ∈ [(cx.loadedFrom name classKey id field).toFormula], cx.IsGuard guard :=
  forall_isGuard_singleton (isGuard_of_isFact (isFact_loadedFrom hclass hid hfield))

theorem sorted_activity : cx.activity.Sorted cx.width :=
  sorted_idLiteral _

theorem emits_store {fact : Clause} {r : UInt32} (hr : r ∈ cx.instruction.operands)
    (hfact : cx.Emitted fact) : cx.Emits (cx.store fact r) := by
  refine .bind (emits_liftIfLocal hr forall_isGuard_nil fun state hstate => .ok hstate)
    fun lifted hlifted => .pure ?_
  exact List.forall_mem_cons.mpr ⟨hfact, List.forall_mem_cons.mpr ⟨emitted_identity, hlifted⟩⟩

/-- An instruction that records a fact and goes on. -/
theorem emits_recorded {guards : List Formula} {head : Atom}
    (hguards : ∀ guard ∈ guards, cx.IsGuard guard) (hhead : GlobalHeap.IsFact cx.width head) :
    cx.Emits (pure [cx.derive guards head, cx.identity]) :=
  .pure (List.forall_mem_cons.mpr
    ⟨.fact hguards hhead, List.forall_mem_singleton.mpr emitted_identity⟩)

theorem emits_updateAndLift {r : UInt32} {update : State → Except Error State}
    (hr : r ∈ cx.instruction.operands)
    (hupdate : ∀ state, cx.Updated state → Yields (update state) cx.Updated) :
    cx.Emits (cx.updateAndLift r update) := by
  refine .bind (hupdate _ .pre) fun plain hplain => ?_
  refine .bind (emits_liftIfLocal hr forall_isGuard_nil hupdate) fun lifted hlifted => .pure ?_
  exact List.forall_mem_cons.mpr ⟨.step forall_isGuard_nil hplain, hlifted⟩

theorem emits_initIntent (hcall : ∀ r ∈ call.arguments, r ∈ cx.instruction.operands) {key : BvExpr}
    (hkey : key.Sorted cx.width) : cx.Emits (cx.initIntent call key) := by
  refine .bind (argument_yields hcall 0) fun receiver hreceiver => ?_
  refine .bind (register_yields hreceiver) fun intent hintent => ?_
  refine .bind (emits_assign hreceiver forall_isGuard_nil
    (isResult_globalRef hintent.sorted.value (Formula.sorted_const _))) fun steps hsteps => .pure ?_
  exact List.forall_mem_cons.mpr ⟨.fact forall_isGuard_nil (.extra hintent.sorted.value hkey
    (sorted_literal _) (Formula.sorted_const _) (Formula.sorted_const _)), hsteps⟩

/-! ## Effects -/

theorem emits_putExtra (hcall : ∀ r ∈ call.arguments, r ∈ cx.instruction.operands) :
    cx.Emits (LibraryEffect.putExtra.compile cx call) := by
  refine .bind (argument_yields hcall 0) fun receiver hreceiver => ?_
  refine .bind (argument_yields hcall 1) fun keyRegister hkeyRegister => ?_
  refine .bind (argument_yields hcall 2) fun valueRegister hvalueRegister => ?_
  refine .bind (register_yields hreceiver) fun intent hintent => ?_
  refine .bind (register_yields hkeyRegister) fun key hkey => ?_
  refine .bind (register_yields hvalueRegister) fun value hvalue => ?_
  have hv := hvalue.sorted
  refine .bind (emits_updateAndLift hvalueRegister fun state hstate => ?_)
    fun steps hsteps => .pure (List.forall_mem_cons.mpr ⟨.fact (forall_isGuard_anyExtra
      hintent.sorted.value) (.extra hintent.sorted.value hkey.sorted.value hv.value hv.high
        hv.blocked), hsteps⟩)
  have haccess := accesses_operand hreceiver
  refine .bind (updated_taint hstate haccess hv.high) fun tainted htainted => ?_
  refine .bind (State.register_yields _ _) fun cell hcell => ?_
  refine (State.set_yields _ _ _).mono ?_
  rintro post ⟨-, rfl⟩
  exact .copy htainted accesses_returnSlot haccess hcell (htainted.sorted.register hcell).high

theorem emits_startActivity (hcall : ∀ r ∈ call.arguments, r ∈ cx.instruction.operands) :
    cx.Emits (LibraryEffect.startActivity.compile cx call) := by
  refine .bind (argumentCell_yields hcall 1) fun intent hintent => .pure ?_
  have hguards := forall_isGuard_anyExtra hintent.sorted.value
  have hlaunched : (cx.variable_ Names.field).Sorted cx.width := sorted_variable
  refine List.forall_mem_cons.mpr ⟨.fact hguards ?_, List.forall_mem_cons.mpr
    ⟨.fact hguards ?_, List.forall_mem_cons.mpr ⟨.fact hguards ?_,
      List.forall_mem_singleton.mpr emitted_identity⟩⟩⟩
  · exact .launch hlaunched sorted_activity sorted_variable sorted_flag sorted_flag
  · exact .object hlaunched hlaunched (sorted_namedKey _) sorted_activity (Formula.sorted_const _)
      (Formula.sorted_const _)
  · exact .object hlaunched hlaunched (sorted_namedKey _) hintent.sorted.value
      (Formula.sorted_const _) (Formula.sorted_const _)

theorem emits_retargetIntent (hcall : ∀ r ∈ call.arguments, r ∈ cx.instruction.operands) :
    cx.Emits (LibraryEffect.retargetIntent.compile cx call) := by
  refine .bind (argument_yields hcall 0) fun receiver hreceiver => ?_
  refine .bind (argument_yields hcall _) fun componentRegister hregister => ?_
  refine .bind (register_yields hreceiver) fun intent hintent => ?_
  refine .bind (register_yields hregister) fun component hcomponent => ?_
  refine .bind (emits_returns forall_isGuard_nil (.inr hintent)) fun steps hsteps => .pure ?_
  exact List.forall_mem_cons.mpr ⟨.fact (forall_isGuard_anyExtra hintent.sorted.value)
    (.extra hintent.sorted.value hcomponent.sorted.value sorted_variable sorted_flag sorted_flag),
    hsteps⟩

theorem emits_putEntry (hcall : ∀ r ∈ call.arguments, r ∈ cx.instruction.operands) :
    cx.Emits (LibraryEffect.putEntry.compile cx call) := by
  refine .bind (argument_yields hcall 0) fun mapRegister hmapRegister => ?_
  refine .bind (argument_yields hcall 1) fun keyRegister hkeyRegister => ?_
  refine .bind (argument_yields hcall 2) fun valueRegister hvalueRegister => ?_
  refine .bind (register_yields hmapRegister) fun map hmap => ?_
  refine .bind (register_yields hkeyRegister) fun key hkey => ?_
  refine .bind (register_yields hvalueRegister) fun value hvalue => ?_
  refine .bind (emits_updateAndLift hvalueRegister fun state hstate =>
    updated_set hstate accesses_returnSlot Cell.sorted_zero rfl) fun steps hsteps => .pure ?_
  exact List.forall_mem_cons.mpr ⟨.fact forall_isGuard_nil (GlobalHeap.isFact_holding
    (sorted_classLiteral _) hmap.sorted.value hkey.sorted.value hvalue.sorted), hsteps⟩

theorem emits_format (hcall : ∀ r ∈ call.arguments, r ∈ cx.instruction.operands) :
    cx.Emits (LibraryEffect.format.compile cx call) := by
  refine .bind (argumentCell_yields hcall 0) fun formatter hformatter => ?_
  refine .bind (argumentCell_yields hcall 1) fun pattern hpattern => ?_
  refine .bind (argumentCell_yields hcall 2) fun values hvalues => ?_
  refine .bind (emits_returns forall_isGuard_nil (.inr hformatter)) fun steps hsteps => .pure ?_
  refine List.forall_mem_cons.mpr ⟨.fact (forall_isGuard_singleton (isGuard_of_isFact ?_)) ?_, hsteps⟩
  · exact .object (sorted_classLiteral _) sorted_variable (sorted_literal _)
      hformatter.sorted.value sorted_flag sorted_flag
  · exact .object (sorted_classLiteral _) sorted_variable (sorted_literal _)
      hformatter.sorted.value (hpattern.sorted.high.either hvalues.sorted.high)
      (Formula.sorted_const _)

theorem emits_bufferText (hcall : ∀ r ∈ call.arguments, r ∈ cx.instruction.operands) :
    cx.Emits (LibraryEffect.bufferText.compile cx call) := by
  refine .bind (argumentCell_yields hcall 0) fun buffer hbuffer => ?_
  refine .bind (emits_returns (forall_isGuard_loadedFrom (sorted_classLiteral _)
    hbuffer.sorted.value (sorted_literal _)) (.inl ⟨?_, rfl⟩)) fun formatted hformatted => ?_
  · exact ⟨sorted_variable, sorted_flag, Formula.sorted_const _, sorted_flag⟩
  refine .bind (emits_returns forall_isGuard_nil
    (isResult_globalRef sorted_variable hbuffer.sorted.high)) fun plain hplain => ?_
  exact .pure (List.forall_mem_append.mpr ⟨hformatted, hplain⟩)

/-- Rules that store an argument in a field of another one. -/
theorem emits_storeHolding (hcall : ∀ r ∈ call.arguments, r ∈ cx.instruction.operands)
    {classKey field : BvExpr} (hclass : classKey.Sorted cx.width) (hfield : field.Sorted cx.width) :
    cx.Emits (do
      let holder ← call.argument 0
      let stored ← call.argument 1
      let object ← cx.register holder
      let value ← cx.register stored
      cx.store (cx.derive [] (GlobalHeap.holding classKey object.value field value)) stored) := by
  refine .bind (argument_yields hcall 0) fun holder hholder => ?_
  refine .bind (argument_yields hcall 1) fun stored hstored => ?_
  refine .bind (register_yields hholder) fun object hobject => ?_
  refine .bind (register_yields hstored) fun value hvalue => ?_
  exact emits_store hstored (.fact forall_isGuard_nil
    (GlobalHeap.isFact_holding hclass hobject.sorted.value hfield hvalue.sorted))

/-- Rules that load a field of the receiver. -/
theorem emits_loadField (hcall : ∀ r ∈ call.arguments, r ∈ cx.instruction.operands)
    {classKey field : BvExpr} (hclass : classKey.Sorted cx.width) (hfield : field.Sorted cx.width) :
    cx.Emits (do
      let object ← cx.argumentCell call 0
      cx.returns [cx.loadedFrom Names.field classKey object.value field]
        (cx.loaded Names.field)) := by
  refine .bind (argumentCell_yields hcall 0) fun object hobject => ?_
  exact emits_returns (forall_isGuard_loadedFrom hclass hobject.sorted.value hfield) isResult_loaded

theorem emits_libraryEffect (hcall : ∀ r ∈ call.arguments, r ∈ cx.instruction.operands)
    (effect : LibraryEffect) : cx.Emits (effect.compile cx call) := by
  cases effect with
  | newIntentForAction =>
      exact .bind (argumentCell_yields hcall 1) fun _ hkey =>
        emits_initIntent hcall hkey.sorted.value
  | newIntentForComponent =>
      exact .bind (argumentCell_yields hcall 2) fun _ hkey =>
        emits_initIntent hcall hkey.sorted.value
  | newIntent => exact emits_initIntent hcall sorted_variable
  | putExtra => exact emits_putExtra hcall
  | getAction =>
      refine .bind (argumentCell_yields hcall 0) fun intent hintent => ?_
      refine emits_returns (forall_isGuard_anyExtra hintent.sorted.value) (.inl ⟨?_, rfl⟩)
      exact ⟨sorted_variable, Formula.sorted_const _, Formula.sorted_const _, sorted_flag⟩
  | getExtra =>
      refine .bind (argumentCell_yields hcall 0) fun intent hintent => ?_
      refine emits_returns (forall_isGuard_anyExtra hintent.sorted.value) ?_
      split
      · exact .inl ⟨⟨sorted_variable, Formula.sorted_const _, Formula.sorted_const _, sorted_flag⟩,
          rfl⟩
      · exact isResult_loaded
  | retargetIntent => exact emits_retargetIntent hcall
  | startActivity => exact emits_startActivity hcall
  | setResult =>
      refine .bind (argumentCell_yields hcall 2) fun intent hintent => ?_
      exact emits_recorded (forall_isGuard_anyExtra hintent.sorted.value)
        (GlobalHeap.isFact_holding sorted_activity sorted_activity (sorted_namedKey _)
          hintent.sorted)
  | getIntent =>
      exact emits_returns (forall_isGuard_loadedFrom sorted_activity sorted_activity
        (sorted_namedKey _)) isResult_loaded
  | marshallParcel =>
      exact .bind (argumentCell_yields hcall 0) fun _ hparcel =>
        emits_returns forall_isGuard_nil (.inr hparcel)
  | unmarshallParcel =>
      refine .bind (argument_yields hcall 0) fun receiver hreceiver => ?_
      exact .bind (argumentCell_yields hcall 1) fun _ hbytes =>
        emits_assign hreceiver forall_isGuard_nil (.inr hbytes)
  | writeParcel => exact emits_storeHolding hcall (sorted_classLiteral _) (sorted_literal _)
  | readParcel => exact emits_loadField hcall (sorted_classLiteral _) (sorted_literal _)
  | newException => exact emits_storeHolding hcall (sorted_classLiteral _) (sorted_namedKey _)
  | getMessage => exact emits_loadField hcall (sorted_classLiteral _) (sorted_namedKey _)
  | systemObject =>
      refine .bind (emits_returns forall_isGuard_nil
        (isResult_globalRef (sorted_idLiteral _) (Formula.sorted_const _)))
        fun steps hsteps => .pure ?_
      exact List.forall_mem_cons.mpr ⟨.fact forall_isGuard_nil (.object (sorted_classLiteral _)
        (sorted_idLiteral _) sorted_variable sorted_variable (Formula.sorted_const _) sorted_flag),
        hsteps⟩
  | newPoint =>
      refine .bind (argumentCell_yields hcall 0) fun point hpoint => ?_
      refine .bind (argumentCell_yields hcall 1) fun x hx => ?_
      refine .bind (argumentCell_yields hcall 2) fun y hy => .pure ?_
      have hcoordinate : ∀ (name : String) (value : Cell), value.Sorted cx.width →
          cx.Emitted (cx.derive [] (GlobalHeap.holding (cx.classLiteral pointClass) point.value
            (GlobalHeap.fieldKey cx.width name "F") value)) := fun name value hvalue =>
        .fact forall_isGuard_nil (GlobalHeap.isFact_holding (sorted_classLiteral _)
          hpoint.sorted.value (GlobalHeap.sorted_idLiteral _) hvalue)
      exact List.forall_mem_cons.mpr ⟨hcoordinate "x" x hx.sorted, List.forall_mem_cons.mpr
        ⟨hcoordinate "y" y hy.sorted, List.forall_mem_singleton.mpr emitted_identity⟩⟩
  | putEntry => exact emits_putEntry hcall
  | getEntry =>
      refine .bind (argumentCell_yields hcall 0) fun map hmap => ?_
      refine .bind (argumentCell_yields hcall 1) fun key hkey => ?_
      exact emits_returns (forall_isGuard_loadedFrom (sorted_classLiteral _) hmap.sorted.value
        hkey.sorted.value) isResult_loaded
  | copyChars =>
      refine .bind (argumentCell_yields hcall 0) fun text htext => ?_
      refine .bind (argumentCell_yields hcall 3) fun chars hchars => ?_
      refine emits_recorded (forall_isGuard_loadedFrom (sorted_classLiteral _)
        hchars.sorted.value (sorted_literal _)) ?_
      exact .object (sorted_classLiteral _) hchars.sorted.value (sorted_literal _) sorted_variable
        htext.sorted.high htext.sorted.blocked
  | newFormatter =>
      refine .bind (argumentCell_yields hcall 0) fun formatter hformatter => ?_
      refine .bind (argumentCell_yields hcall 1) fun buffer hbuffer => ?_
      exact emits_recorded forall_isGuard_nil (.object (sorted_classLiteral _)
        hbuffer.sorted.value (sorted_literal _) hformatter.sorted.value (Formula.sorted_const _)
        (Formula.sorted_const _))
  | format => exact emits_format hcall
  | bufferText => exact emits_bufferText hcall
  | copyArray =>
      refine .bind (argumentCell_yields hcall 0) fun source hsource => ?_
      refine .bind (argumentCell_yields hcall 2) fun target htarget => ?_
      exact emits_recorded (forall_isGuard_loadedFrom sorted_variable hsource.sorted.value
        sorted_variable) (isFact_loadedFrom sorted_variable htarget.sorted.value sorted_variable)
  | getHint =>
      refine .bind (argumentCell_yields hcall 0) fun view hview => ?_
      refine .bind (emits_returns (forall_isGuard_loadedFrom (sorted_classLiteral _)
        hview.sorted.value (sorted_namedKey _)) isResult_loaded) fun stored hstored => ?_
      refine .bind (emits_returns forall_isGuard_nil
        (isResult_globalRef (sorted_literal _) (Formula.sorted_const _))) fun unset hunset => ?_
      exact .pure (List.forall_mem_append.mpr ⟨hstored, hunset⟩)
  | setHint => exact emits_storeHolding hcall (sorted_classLiteral _) (sorted_namedKey _)

/-! ## All instructions -/

theorem emits_compileCall (hcall : cx.instruction.Calls call) :
    cx.Emits (cx.compileCall call) := by
  have harguments := CallSite.mem_operands_of_calls hcall
  unfold compileCall CallSite.linkage
  -- a call that starts a thread, else one with targets, else a known or an unknown one
  cases hremapped : call.remapped? cx.oracle with
  | some started =>
      obtain ⟨arguments, implementations⟩ := started
      obtain ⟨hsub, hne, owner, method, hfound⟩ := CallSite.remapped?_eq_some hremapped
      exact emits_startThreads (fun r hr => harguments r (hsub r hr)) hne hfound
  | none =>
      by_cases hempty : (call.targets cx.oracle).isEmpty = true
      · simp only [hempty, if_true]
        -- a call without targets is not linked
        split
        · rename_i heq
          split at heq <;> cases heq
        · rename_i heq
          split at heq <;> cases heq
        · exact emits_libraryEffect harguments _
        · exact emits_compileUnknownCall harguments
      · simp only [hempty]
        exact .bind (.mapM_flatten fun target htarget => emits_linkTarget hcall htarget)
          fun _ hclauses => .pure hclauses

end StepContext

/-! ## Emissions -/

/-- The clauses of an emission are among those that it was made of. -/
theorem Emission.mem_of_mem_ofClauses {clauses : List Clause} {clause : Clause}
    (h : clause ∈ (Emission.ofClauses clauses).clauses) : clause ∈ clauses :=
  (List.mem_filter.mp h).1

namespace StepContext

/-- A query that an instruction can ask: whether a cell that it reads is secret. -/
def Asked (cx : StepContext) (query : Query) : Prop :=
  ∃ cell, cx.Reads cell ∧ query.condition = .all [cx.current, cell.high]

/-- An emission of which every part is one that an instruction can contribute. -/
structure Contributes (cx : StepContext) (emission : Emission) : Prop where
  clauses : ∀ clause ∈ emission.clauses, cx.Emitted clause
  queries : ∀ query ∈ emission.queries, cx.Asked query

variable {cx : StepContext}

theorem contributes_ofClauses {clauses : List Clause} (h : ∀ clause ∈ clauses, cx.Emitted clause) :
    cx.Contributes (.ofClauses clauses) where
  clauses := fun clause hclause => h clause (Emission.mem_of_mem_ofClauses hclause)
  queries := by simp [Emission.ofClauses]

theorem emits_steps {outcome : Except Error (List Clause)} (h : cx.Emits outcome) :
    Yields (outcome.map Emission.ofClauses) cx.Contributes :=
  .map (h.mono fun _ hclauses => contributes_ofClauses hclauses)

theorem sinkQueries_yields {call : CallSite}
    (hcall : ∀ r ∈ call.arguments, r ∈ cx.instruction.operands) :
    Yields (cx.sinkQueries call) fun queries => ∀ query ∈ queries, cx.Asked query := by
  unfold sinkQueries
  split
  · refine .mapM fun r hr => .bind (register_yields (hcall r hr)) fun cell hcell => ?_
    exact .pure ⟨cell, hcell, rfl⟩
  · exact .ok (by simp)

theorem emits_compileInvoke {kind : InvokeKind} {range : Bool}
    (hopcode : cx.instruction.opcode = .invoke kind range) :
    Yields (cx.compileInvoke kind) cx.Contributes := by
  refine .bind (CallSite.ofInstruction_yields _ _).self fun call hsite => ?_
  have hcall : cx.instruction.Calls call := ⟨kind, range, hopcode, hsite⟩
  refine .bind (sinkQueries_yields (CallSite.mem_operands_of_calls hcall))
    fun queries hqueries => ?_
  refine .bind (emits_compileCall hcall) fun clauses hclauses => .pure ?_
  exact ⟨(contributes_ofClauses hclauses).clauses, hqueries⟩

theorem emits_compile (hsite : cx.HasSite) : Yields cx.compile cx.Contributes := by
  -- one case for each opcode, in the order of the definition
  unfold compile
  dsimp only
  split
  · exact emits_steps emits_identity
  · exact emits_steps emits_identity
  · exact emits_steps emits_identity
  · exact emits_steps emits_identity
  · exact emits_steps emits_identity
  · exact emits_steps emits_identity
  · exact emits_steps emits_compileMove
  · exact emits_steps emits_compileMoveResult
  · exact emits_steps (emits_compileReturn (by simp))
  · exact emits_steps (emits_compileReturn fun _ => by assumption)
  · exact emits_steps (emits_compileConst _)
  · exact emits_steps emits_compileCheckCast
  · exact emits_steps emits_compileInstanceOf
  · exact emits_steps emits_compileArrayLength
  · exact emits_steps (emits_compileNewInstance (by assumption) hsite)
  · exact emits_steps emits_compileNewArray
  · exact emits_steps emits_compileFilledNewArray
  · exact emits_steps emits_compileFillArrayData
  · exact emits_steps emits_compileGoto
  · exact emits_steps emits_compileSwitch
  · exact emits_steps emits_compileCompare
  · exact emits_steps (emits_compileBranch _ _)
  · exact emits_steps emits_compileArrayGet
  · exact emits_steps emits_compileArrayPut
  · exact emits_steps emits_compileInstanceGet
  · exact emits_steps emits_compileInstancePut
  · exact emits_steps emits_compileStaticGet
  · exact emits_steps emits_compileStaticPut
  · exact emits_steps (emits_compileUnary _)
  · exact emits_steps (emits_compileBinary _ _)
  · exact emits_compileInvoke (by assumption)

/-- Every instruction whose object has a site contributes something, and only parts of the
listed forms; the clause that replaces those of a failed handler is a step as well. -/
theorem compileOrSkip_contributes (hsite : cx.HasSite) :
    ∃ emission, cx.compileOrSkip = .ok emission ∧ cx.Contributes emission := by
  have hcompile := emits_compile hsite
  unfold compileOrSkip
  cases hresult : cx.compile with
  | ok emission => exact ⟨emission, rfl, hcompile.result emission hresult⟩
  | error cause =>
      dsimp only
      rw [hcompile.recovers cause hresult]
      exact ⟨_, rfl, contributes_ofClauses (List.forall_mem_singleton.mpr emitted_identity)⟩

end StepContext

end DalvikHorn
