import DalvikHorn.Proofs.RisingHandlers

/-!
# Calls raise labels

A call that enters no method of the program only joins labels: the result of an unknown
method has the label of its arguments, arguments are tainted by each other, and library
methods pass labels on.  A call of a source adds a label.  So the clauses of such a call
rise to those of the same call in a context with more sources
(`StepContext.raisesTo_compileCall`), and with them those of every instruction
(`StepContext.raisesTo_compile`).
-/

namespace DalvikHorn

/-- Whether an instruction reads or writes objects of the global heap. -/
def Opcode.touchesObjects : Opcode → Bool
  | .newInstance | .newArray | .filledNewArray _ | .fillArrayData | .arrayGet | .arrayPut
  | .instanceGet | .instancePut => true
  | _ => false

theorem CallSite.remapped?_of_linkage {call : CallSite} {oracle : Oracle} {libraryRulesUsed : Bool}
    {arguments : List UInt32} {implementations : List Implementation}
    (h : call.linkage oracle libraryRulesUsed = .remapped arguments implementations) :
    call.remapped? oracle = some (arguments, implementations) := by
  unfold linkage at h
  split at h
  · cases h
    assumption
  · dsimp only at h
    split at h
    · split at h <;> cases h
    · cases h

namespace StepContext

variable {cx : StepContext} {allowed : Relation → Prop} {call : CallSite}

/-! ## Other sources -/

/-- The same context with other sources. -/
def withSources (cx : StepContext) (sources : List String) (isSource : ClassId → MethodId → Bool) :
    StepContext :=
  { cx with
    env := { cx.env with
      config := { cx.env.config with sources := sources }
      oracle := { cx.env.oracle with isSource := isSource } } }

variable {sources : List String} {isSource : ClassId → MethodId → Bool}

/-! ## Unknown methods -/

theorem rises_labelOfOthers {arguments : List Cell}
    (harguments : ∀ cell ∈ arguments, cell.Rises cx.width) (index : Nat) :
    (labelOfOthers arguments index).RisesTo cx.width (labelOfOthers arguments index) := by
  refine Formula.rises_any fun part hpart => ?_
  obtain ⟨cell, hcell, rfl⟩ := List.mem_map.mp hpart
  exact (harguments cell (List.mem_of_mem_eraseIdx hcell)).high

theorem risesTo_resultLabel {arguments : List Cell}
    (harguments : ∀ cell ∈ arguments, cell.Rises cx.width)
    (hmore : cx.callsSource call = true → isSource call.classId call.methodId = true) :
    (cx.resultLabel call arguments).RisesTo cx.width
      ((cx.withSources sources isSource).resultLabel call arguments) := by
  have hjoin : (Formula.any (arguments.map (·.high))).RisesTo cx.width
      (Formula.any (arguments.map (·.high))) := by
    refine Formula.rises_any fun part hpart => ?_
    obtain ⟨cell, hcell, rfl⟩ := List.mem_map.mp hpart
    exact (harguments cell hcell).high
  have hsource : (cx.withSources sources isSource).callsSource call =
      isSource call.classId call.methodId := rfl
  unfold resultLabel
  rw [hsource]
  by_cases hsecret : isSource call.classId call.methodId = true
  · rw [if_pos hsecret]
    split
    · exact Formula.rises_const _
    · exact hjoin.sorted.risesTo_true
  · rw [if_neg hsecret, if_neg fun hcalls => hsecret (hmore hcalls)]
    exact hjoin

/-- The facts about the result of an unknown method rise with its label, as does the result. -/
theorem risesTo_unknownResult (hobject : allocatesResult call = true → allowed .object)
    {label label' : Formula} (hlabel : label.RisesTo cx.width label') :
    List.Forall₂ (cx.RisesTo allowed) (cx.unknownResult call label).1
        (cx.unknownResult call label').1 ∧
      Option.Rel (Cell.RisesTo cx.width) (cx.unknownResult call label).2
        (cx.unknownResult call label').2 := by
  unfold allocatesResult at hobject
  unfold unknownResult
  dsimp only
  -- only objects and arrays are recorded, and each field with the same label
  cases hkind : call.returnKind with
  | void => exact ⟨.nil, .none⟩
  | string => exact ⟨.nil, .some (Cell.risesTo_globalRef fixed_variable hlabel)⟩
  | primitive => exact ⟨.nil, .some (Cell.risesTo_scalar fixed_variable hlabel)⟩
  | object =>
      have hallowed : allowed .object := hobject (by simp [hkind])
      refine ⟨?_, .some (Cell.risesTo_globalRef fixed_variable hlabel)⟩
      have hfact : ∀ field blocked, field.Fixed cx.width → blocked.Fixed cx.width →
          cx.RisesTo allowed
            (cx.derive [] (GlobalHeap.object (cx.classLiteral call.target.returnType)
              (cx.variable_ Names.anyField) field (cx.variable_ Names.anyValue) label blocked))
            (cx.derive [] (GlobalHeap.object (cx.classLiteral call.target.returnType)
              (cx.variable_ Names.anyField) field (cx.variable_ Names.anyValue) label' blocked)) :=
        fun field blocked hfield hblocked => .derive steady_nil (risesTo_object hallowed
          (fixed_classLiteral _) fixed_variable hfield fixed_variable hlabel hblocked)
      dsimp only
      -- without fields one record stands for all of them
      split
      · exact .cons (hfact _ _ fixed_variable fixed_fieldBlocked) .nil
      · rw [List.forall₂_map_left_iff, List.forall₂_map_right_iff]
        exact List.forall₂_same.mpr fun field _ =>
          hfact _ _ (fixed_idLiteral _) (Formula.fixed_const _)
  | array =>
      have hallowed : allowed .object := hobject (by simp [hkind])
      refine ⟨.cons (.derive steady_nil ?_) .nil,
        .some (Cell.risesTo_globalRef (fixed_idLiteral _) hlabel)⟩
      exact risesTo_object hallowed (fixed_classLiteral _) (fixed_idLiteral _) fixed_variable
        fixed_variable hlabel fixed_fieldBlocked

theorem raisesTo_shareArguments {arguments : List Cell}
    (harguments : ∀ cell ∈ arguments, cell.Rises cx.width) {result result' : Option Cell}
    (hresult : Option.Rel (Cell.RisesTo cx.width) result result') {state : State}
    (hstate : cx.Risen state) :
    Parallel cx.RisenTo (cx.shareArguments call arguments result state)
      (cx.shareArguments call arguments result' state) := by
  have hshare : Yields (call.arguments.zipIdx.foldlM (fun (post : State) entry => do
      let cell ← post.register entry.1.toNat
      post.taint entry.1.toNat (cell.isGlobal.both (labelOfOthers arguments entry.2))) state)
      cx.Risen := by
    refine .foldlM hstate fun entry _ post hpost => ?_
    refine .bind (State.register_yields _ _) fun cell hcell => ?_
    have hflag := (State.Rises.register hpost.rises hcell).isGlobal.rises
    exact hpost.taint (hflag.both (rises_labelOfOthers harguments entry.2)) _
  refine .bind_same hshare fun shared hshared => ?_
  cases hresult with
  | none => exact .pure hshared
  | some hcell => exact RisenTo.set hshared hcell _

theorem raisesTo_compileUnknownCall
    (hcall : ∀ r ∈ call.arguments, r ∈ cx.instruction.operands)
    (hmore : cx.callsSource call = true → isSource call.classId call.methodId = true)
    (hobject : allocatesResult call = true → allowed .object)
    (hsites : ∀ site ∈ cx.layout.sites, allowed .object) :
    cx.RaisesTo allowed (cx.compileUnknownCall call)
      ((cx.withSources sources isSource).compileUnknownCall call) := by
  refine .bind_same (.mapM fun r hr => register_yields (hcall r hr)) fun arguments hreads => ?_
  have harguments : ∀ cell ∈ arguments, cell.Rises cx.width := fun cell hcell =>
    (hreads cell hcell).rises
  obtain ⟨hfacts, hresult⟩ := risesTo_unknownResult hobject
    (@risesTo_resultLabel cx call sources isSource arguments harguments hmore)
  have hupdate : ∀ state, cx.Risen state → Parallel cx.RisenTo
      (cx.shareArguments call arguments
        (cx.unknownResult call (cx.resultLabel call arguments)).2 state)
      (cx.shareArguments call arguments
        (cx.unknownResult call
          ((cx.withSources sources isSource).resultLabel call arguments)).2 state) :=
    fun state hstate => raisesTo_shareArguments harguments hresult hstate
  refine .bind (hupdate _ risen_pre) fun plain plain' hplain => ?_
  refine .bind (raisesTo_liftIfAnyLocal (List.forall_mem_nil _) hsites harguments hupdate)
    fun lifted lifted' hlifted => .pure ?_
  have hstep : cx.RisesTo allowed (cx.step [] plain) (cx.step [] plain') :=
    risesTo_jump _ steady_nil hplain
  exact List.rel_append hfacts (.cons hstep hlifted)

/-! ## Methods on other threads -/

theorem Entered.rises {shape : FrameShape} {entry : State} (h : cx.Entered shape entry) :
    entry.Rises cx.width where
  registers := by
    refine List.forall₂_same.mpr fun cell hcell => ?_
    rcases h.registers cell hcell with rfl | hreads
    · exact Cell.rises_zero
    · exact hreads.rises
  heap := h.heap_eq ▸ risen_pre.rises.heap
  heap_eq := rfl

theorem raises_startThreads {arguments : List UInt32} {implementations : List Implementation}
    (harguments : ∀ r ∈ arguments, r ∈ cx.instruction.operands) (hne : arguments ≠ []) :
    cx.Raises allowed (cx.startThreads arguments implementations) := by
  have hhead : arguments.headD 0 ∈ cx.instruction.operands :=
    harguments _ (CallSite.headD_mem hne)
  refine .bind (register_yields hhead) fun receiver hreceiver => ?_
  have hentry : ∀ implementation : Implementation, ∀ id,
      Yields (cx.enter arguments implementation.owner implementation.method implementation.shape
        [receiver.value.eqTo (cx.idLiteral id)]) (cx.Rises allowed) := by
    intro implementation id
    refine .bind (entryState_yields harguments _) fun entry hentered => .pure ?_
    refine .derive (.inl (List.forall_mem_singleton.mpr ?_)) (.point _ ?_ hentered.rises)
    · exact hreceiver.rises.value.eqTo (fixed_idLiteral _)
    · exact hentered.heap_eq ▸ risen_pre.heap_length
  refine .bind (.mapM_flatten fun implementation _ => .mapM fun id _ => hentry implementation id)
    fun entries hentries => .pure ?_
  exact List.forall_mem_append.mpr ⟨hentries, List.forall_mem_singleton.mpr rises_identity⟩

/-! ## Library methods -/

theorem rises_loaded {name : String} [Names.AuxiliaryValue name] :
    (cx.loaded name).Rises cx.width :=
  Cell.rises_mk fixed_variable rises_fieldHigh (Formula.fixed_const _) fixed_fieldBlocked

section Library

variable (hall : ∀ relation, allowed relation)

include hall

theorem risesTo_holding {classKey id field : BvExpr} (hclass : classKey.Fixed cx.width)
    (hid : id.Fixed cx.width) (hfield : field.Fixed cx.width) {cell : Cell}
    (hcell : cell.Rises cx.width) :
    (GlobalHeap.holding classKey id field cell).RisesTo cx.width cx.layout.size allowed
      (GlobalHeap.holding classKey id field cell) :=
  risesTo_object (hall _) hclass hid hfield hcell.value hcell.high hcell.blocked

theorem steady_loadedFrom {name : String} {classKey id field : BvExpr}
    (hclass : classKey.Fixed cx.width) (hid : id.Fixed cx.width) (hfield : field.Fixed cx.width)
    [Names.AuxiliaryValue name] :
    cx.Steady allowed [(cx.loadedFrom name classKey id field).toFormula] :=
  steady_object (hall _) hclass hid hfield fixed_variable (by decide) fixed_fieldBlocked

theorem steady_anyExtra {intent : BvExpr} (hintent : intent.Fixed cx.width) :
    cx.Steady allowed [(cx.anyExtra intent).toFormula] :=
  steady_extra (hall _) hintent fixed_variable fixed_variable (by decide) fixed_fieldBlocked

theorem raises_store {fact : Clause} {r : UInt32} (hr : r ∈ cx.instruction.operands)
    (hfact : cx.Rises allowed fact) : cx.Raises allowed (cx.store fact r) := by
  refine .bind (raises_liftIfLocal (List.forall_mem_nil _) (fun _ _ => hall _) hr
    fun state hstate => .ok hstate) fun lifted hlifted => .pure ?_
  exact List.forall_mem_cons.mpr ⟨hfact, List.forall_mem_cons.mpr ⟨rises_identity, hlifted⟩⟩

theorem raises_updateAndLift {r : UInt32} {update : State → Except Error State}
    (hr : r ∈ cx.instruction.operands)
    (hupdate : ∀ state, cx.Risen state → Yields (update state) cx.Risen) :
    cx.Raises allowed (cx.updateAndLift r update) := by
  refine .bind (hupdate _ risen_pre) fun plain hplain => ?_
  refine .bind (raises_liftIfLocal (List.forall_mem_nil _) (fun _ _ => hall _) hr hupdate)
    fun lifted hlifted => .pure ?_
  exact List.forall_mem_cons.mpr ⟨risesTo_jump _ steady_nil hplain, hlifted⟩

variable (hcall : ∀ r ∈ call.arguments, r ∈ cx.instruction.operands)

include hcall

theorem raises_initIntent {key : BvExpr} (hkey : key.Fixed cx.width) :
    cx.Raises allowed (cx.initIntent call key) := by
  refine .bind (argument_yields hcall 0) fun receiver hreceiver => ?_
  refine .bind (register_yields hreceiver) fun intent hintent => ?_
  have hassign : cx.Raises allowed (cx.assign receiver [] (.globalRef intent.value .ff)) :=
    raises_assign receiver steady_nil
      (Cell.risesTo_globalRef hintent.rises.value (Formula.rises_const _))
  refine .bind hassign fun steps hsteps => .pure (List.forall_mem_cons.mpr ⟨?_, hsteps⟩)
  exact .derive steady_nil (risesTo_extra (hall _) hintent.rises.value hkey (fixed_literal _)
    (Formula.rises_const _) (Formula.fixed_const _))

theorem raises_putExtra : cx.Raises allowed (LibraryEffect.putExtra.compile cx call) := by
  refine .bind (argument_yields hcall 0) fun receiver hreceiver => ?_
  refine .bind (argument_yields hcall 1) fun keyRegister hkeyRegister => ?_
  refine .bind (argument_yields hcall 2) fun valueRegister hvalueRegister => ?_
  refine .bind (register_yields hreceiver) fun intent hintent => ?_
  refine .bind (register_yields hkeyRegister) fun key hkey => ?_
  refine .bind (register_yields hvalueRegister) fun value hvalue => ?_
  have hv := hvalue.rises
  refine .bind (raises_updateAndLift hall hvalueRegister fun state hstate => ?_)
    fun steps hsteps => .pure (List.forall_mem_cons.mpr ⟨.derive
      (steady_anyExtra hall hintent.rises.value) (risesTo_extra (hall _) hintent.rises.value
        hkey.rises.value hv.value hv.high hv.blocked), hsteps⟩)
  refine .bind (hstate.taint hv.high _) fun tainted htainted => ?_
  refine .bind (State.register_yields _ _) fun cell hcell => ?_
  exact htainted.set (State.Rises.register htainted.rises hcell) _

theorem raises_startActivity :
    cx.Raises allowed (LibraryEffect.startActivity.compile cx call) := by
  refine .bind (argumentCell_yields hcall 1) fun intent hintent => .pure ?_
  have hguard : cx.Steady allowed [(cx.anyExtra intent.value).toFormula] :=
    steady_anyExtra hall hintent.rises.value
  have hlaunched : (cx.variable_ Names.field).Fixed cx.width := fixed_variable
  have hactivity : cx.activity.Fixed cx.width := fixed_idLiteral _
  have hfact : ∀ name value, value.Fixed cx.width → cx.Rises allowed
      (cx.derive [(cx.anyExtra intent.value).toFormula] (GlobalHeap.object
        (cx.variable_ Names.field) (cx.variable_ Names.field) (cx.namedKey name) value .ff .tt)) :=
    fun name value hvalue => .derive hguard (risesTo_object (hall _) hlaunched hlaunched
      (fixed_namedKey _) hvalue (Formula.rises_const _) (Formula.fixed_const _))
  refine List.forall_mem_cons.mpr ⟨.derive hguard ?_, List.forall_mem_cons.mpr
    ⟨hfact _ _ hactivity, List.forall_mem_cons.mpr ⟨hfact _ _ hintent.rises.value,
      List.forall_mem_singleton.mpr rises_identity⟩⟩⟩
  exact risesTo_launch (hall _) hlaunched hactivity fixed_variable rises_fieldHigh
    fixed_fieldBlocked

theorem raises_retargetIntent :
    cx.Raises allowed (LibraryEffect.retargetIntent.compile cx call) := by
  refine .bind (argument_yields hcall 0) fun receiver hreceiver => ?_
  refine .bind (argument_yields hcall _) fun componentRegister hregister => ?_
  refine .bind (register_yields hreceiver) fun intent hintent => ?_
  refine .bind (register_yields hregister) fun component hcomponent => ?_
  have hreturns : cx.Raises allowed (cx.returns [] intent) :=
    raises_returns steady_nil hintent.rises
  refine .bind hreturns fun steps hsteps => .pure (List.forall_mem_cons.mpr ⟨?_, hsteps⟩)
  exact .derive (steady_anyExtra hall hintent.rises.value) (risesTo_extra (hall _)
    hintent.rises.value hcomponent.rises.value fixed_variable rises_fieldHigh fixed_fieldBlocked)

theorem raises_putEntry : cx.Raises allowed (LibraryEffect.putEntry.compile cx call) := by
  refine .bind (argument_yields hcall 0) fun mapRegister hmapRegister => ?_
  refine .bind (argument_yields hcall 1) fun keyRegister hkeyRegister => ?_
  refine .bind (argument_yields hcall 2) fun valueRegister hvalueRegister => ?_
  refine .bind (register_yields hmapRegister) fun map hmap => ?_
  refine .bind (register_yields hkeyRegister) fun key hkey => ?_
  refine .bind (register_yields hvalueRegister) fun value hvalue => ?_
  refine .bind (raises_updateAndLift hall hvalueRegister fun state hstate =>
    hstate.set Cell.rises_zero _) fun steps hsteps => .pure ?_
  exact List.forall_mem_cons.mpr ⟨.derive steady_nil (risesTo_holding hall (fixed_classLiteral _)
    hmap.rises.value hkey.rises.value hvalue.rises), hsteps⟩

theorem raises_format : cx.Raises allowed (LibraryEffect.format.compile cx call) := by
  refine .bind (argumentCell_yields hcall 0) fun formatter hformatter => ?_
  refine .bind (argumentCell_yields hcall 1) fun pattern hpattern => ?_
  refine .bind (argumentCell_yields hcall 2) fun values hvalues => ?_
  have hreturns : cx.Raises allowed (cx.returns [] formatter) :=
    raises_returns steady_nil hformatter.rises
  refine .bind hreturns fun steps hsteps => .pure (List.forall_mem_cons.mpr ⟨?_, hsteps⟩)
  refine .derive (steady_object (hall _) (fixed_classLiteral _) fixed_variable (fixed_literal _)
    hformatter.rises.value (by decide) fixed_fieldBlocked) ?_
  exact risesTo_object (hall _) (fixed_classLiteral _) fixed_variable (fixed_literal _)
    hformatter.rises.value (hpattern.rises.high.either hvalues.rises.high) (Formula.fixed_const _)

theorem raises_bufferText : cx.Raises allowed (LibraryEffect.bufferText.compile cx call) := by
  refine .bind (argumentCell_yields hcall 0) fun buffer hbuffer => ?_
  have htext : (cx.variable_ Names.anyField).Fixed cx.width := fixed_variable
  refine .bind (raises_returns (steady_loadedFrom hall (fixed_classLiteral _) hbuffer.rises.value
    (fixed_literal _)) (Cell.rises_mk htext rises_fieldHigh (Formula.fixed_const _)
      fixed_fieldBlocked)) fun formatted hformatted => ?_
  have hplain : cx.Raises allowed (cx.returns [] (.globalRef _ buffer.high)) :=
    raises_returns steady_nil (Cell.risesTo_globalRef htext hbuffer.rises.high)
  refine .bind hplain fun plain hplain => ?_
  exact .pure (List.forall_mem_append.mpr ⟨hformatted, hplain⟩)

/-- Rules that store an argument in a field of another one. -/
theorem raises_storeHolding {classKey field : BvExpr} (hclass : classKey.Fixed cx.width)
    (hfield : field.Fixed cx.width) :
    cx.Raises allowed (do
      let holder ← call.argument 0
      let stored ← call.argument 1
      let object ← cx.register holder
      let value ← cx.register stored
      cx.store (cx.derive [] (GlobalHeap.holding classKey object.value field value)) stored) := by
  refine .bind (argument_yields hcall 0) fun holder hholder => ?_
  refine .bind (argument_yields hcall 1) fun stored hstored => ?_
  refine .bind (register_yields hholder) fun object hobject => ?_
  refine .bind (register_yields hstored) fun value hvalue => ?_
  exact raises_store hall hstored (.derive steady_nil
    (risesTo_holding hall hclass hobject.rises.value hfield hvalue.rises))

/-- Rules that load a field of the receiver. -/
theorem raises_loadField {classKey field : BvExpr} (hclass : classKey.Fixed cx.width)
    (hfield : field.Fixed cx.width) :
    cx.Raises allowed (do
      let object ← cx.argumentCell call 0
      cx.returns [cx.loadedFrom Names.field classKey object.value field]
        (cx.loaded Names.field)) := by
  refine .bind (argumentCell_yields hcall 0) fun object hobject => ?_
  exact raises_returns (steady_loadedFrom hall hclass hobject.rises.value hfield) rises_loaded

/-- A library method that looks no source up. -/
theorem raises_libraryEffect {effect : LibraryEffect} (heffect : effect ≠ .getExtra) :
    cx.Raises allowed (effect.compile cx call) := by
  have hactivity : cx.activity.Fixed cx.width := fixed_idLiteral _
  -- one case for each effect; most return a value or store one
  cases effect with
  | newIntentForAction =>
      exact .bind (argumentCell_yields hcall 1) fun _ hkey =>
        raises_initIntent hall hcall hkey.rises.value
  | newIntentForComponent =>
      exact .bind (argumentCell_yields hcall 2) fun _ hkey =>
        raises_initIntent hall hcall hkey.rises.value
  | newIntent => exact raises_initIntent hall hcall fixed_variable
  | putExtra => exact raises_putExtra hall hcall
  | getAction =>
      refine .bind (argumentCell_yields hcall 0) fun intent hintent => ?_
      exact raises_returns (steady_anyExtra hall hintent.rises.value)
        (Cell.RisesTo.withHigh rises_loaded (Formula.rises_const _))
  | getExtra => exact absurd rfl heffect
  | retargetIntent => exact raises_retargetIntent hall hcall
  | startActivity => exact raises_startActivity hall hcall
  | setResult =>
      refine .bind (argumentCell_yields hcall 2) fun intent hintent => .pure ?_
      exact List.forall_mem_cons.mpr ⟨.derive (steady_anyExtra hall hintent.rises.value)
        (risesTo_holding hall hactivity hactivity (fixed_namedKey _) hintent.rises),
        List.forall_mem_singleton.mpr rises_identity⟩
  | getIntent =>
      exact raises_returns (steady_loadedFrom hall hactivity hactivity (fixed_namedKey _))
        rises_loaded
  | marshallParcel =>
      exact .bind (argumentCell_yields hcall 0) fun _ hparcel =>
        raises_returns steady_nil hparcel.rises
  | unmarshallParcel =>
      refine .bind (argument_yields hcall 0) fun receiver hreceiver => ?_
      exact .bind (argumentCell_yields hcall 1) fun _ hbytes =>
        raises_assign receiver steady_nil hbytes.rises
  | writeParcel => exact raises_storeHolding hall hcall (fixed_classLiteral _) (fixed_literal _)
  | readParcel => exact raises_loadField hall hcall (fixed_classLiteral _) (fixed_literal _)
  | newException => exact raises_storeHolding hall hcall (fixed_classLiteral _) (fixed_namedKey _)
  | getMessage => exact raises_loadField hall hcall (fixed_classLiteral _) (fixed_namedKey _)
  | systemObject =>
      have hreturns : cx.Raises allowed
          (cx.returns [] (.globalRef (cx.idLiteral cx.allocation) .ff)) :=
        raises_returns steady_nil
          (Cell.risesTo_globalRef (fixed_idLiteral _) (Formula.rises_const _))
      refine .bind hreturns fun steps hsteps => .pure (List.forall_mem_cons.mpr ⟨?_, hsteps⟩)
      exact .derive steady_nil (risesTo_object (hall _) (fixed_classLiteral _)
        (fixed_idLiteral _) fixed_variable fixed_variable (Formula.rises_const _)
        fixed_fieldBlocked)
  | newPoint =>
      refine .bind (argumentCell_yields hcall 0) fun point hpoint => ?_
      refine .bind (argumentCell_yields hcall 1) fun x hx => ?_
      refine .bind (argumentCell_yields hcall 2) fun y hy => .pure ?_
      have hcoordinate : ∀ (name : String) (value : Cell), value.Rises cx.width →
          cx.Rises allowed (cx.derive [] (GlobalHeap.holding (cx.classLiteral pointClass)
            point.value (GlobalHeap.fieldKey cx.width name "F") value)) :=
        fun name value hvalue => .derive steady_nil (risesTo_holding hall (fixed_classLiteral _)
          hpoint.rises.value (BvExpr.fixed_ofInt _) hvalue)
      exact List.forall_mem_cons.mpr ⟨hcoordinate "x" x hx.rises, List.forall_mem_cons.mpr
        ⟨hcoordinate "y" y hy.rises, List.forall_mem_singleton.mpr rises_identity⟩⟩
  | putEntry => exact raises_putEntry hall hcall
  | getEntry =>
      refine .bind (argumentCell_yields hcall 0) fun map hmap => ?_
      refine .bind (argumentCell_yields hcall 1) fun key hkey => ?_
      exact raises_returns (steady_loadedFrom hall (fixed_classLiteral _) hmap.rises.value
        hkey.rises.value) rises_loaded
  | copyChars =>
      refine .bind (argumentCell_yields hcall 0) fun text htext => ?_
      refine .bind (argumentCell_yields hcall 3) fun chars hchars => .pure ?_
      exact List.forall_mem_cons.mpr ⟨.derive (steady_loadedFrom hall (fixed_classLiteral _)
        hchars.rises.value (fixed_literal _)) (risesTo_object (hall _) (fixed_classLiteral _)
          hchars.rises.value (fixed_literal _) fixed_variable htext.rises.high
          htext.rises.blocked), List.forall_mem_singleton.mpr rises_identity⟩
  | newFormatter =>
      refine .bind (argumentCell_yields hcall 0) fun formatter hformatter => ?_
      refine .bind (argumentCell_yields hcall 1) fun buffer hbuffer => .pure ?_
      exact List.forall_mem_cons.mpr ⟨.derive steady_nil (risesTo_object (hall _)
        (fixed_classLiteral _) hbuffer.rises.value (fixed_literal _) hformatter.rises.value
        (Formula.rises_const _) (Formula.fixed_const _)),
        List.forall_mem_singleton.mpr rises_identity⟩
  | format => exact raises_format hall hcall
  | bufferText => exact raises_bufferText hall hcall
  | copyArray =>
      refine .bind (argumentCell_yields hcall 0) fun source hsource => ?_
      refine .bind (argumentCell_yields hcall 2) fun target htarget => .pure ?_
      exact List.forall_mem_cons.mpr ⟨.derive (steady_loadedFrom hall fixed_variable
        hsource.rises.value fixed_variable) (risesTo_object (hall _) fixed_variable
          htarget.rises.value fixed_variable fixed_variable rises_fieldHigh fixed_fieldBlocked),
        List.forall_mem_singleton.mpr rises_identity⟩
  | getHint =>
      refine .bind (argumentCell_yields hcall 0) fun view hview => ?_
      refine .bind (raises_returns (steady_loadedFrom hall (fixed_classLiteral _)
        hview.rises.value (fixed_namedKey _)) rises_loaded) fun stored hstored => ?_
      have hunset : cx.Raises allowed (cx.returns [] (.globalRef (cx.literal 0) .ff)) :=
        raises_returns steady_nil (Cell.risesTo_globalRef (fixed_literal _) (Formula.rises_const _))
      refine .bind hunset fun unset hunset => ?_
      exact .pure (List.forall_mem_append.mpr ⟨hstored, hunset⟩)
  | setHint => exact raises_storeHolding hall hcall (fixed_classLiteral _) (fixed_namedKey _)

/-- An extra that is read by a source is secret, whatever label it has been stored with. -/
theorem raisesTo_getExtra
    (hmore : cx.callsSource call = true → isSource call.classId call.methodId = true) :
    cx.RaisesTo allowed (LibraryEffect.getExtra.compile cx call)
      (LibraryEffect.getExtra.compile (cx.withSources sources isSource) call) := by
  refine .bind_same (argumentCell_yields hcall 0) fun intent hintent => ?_
  have hread : (cx.loaded Names.read).Rises cx.width := rises_loaded
  have hresult : Cell.RisesTo cx.width
      (if cx.callsSource call then (cx.loaded Names.read).withHigh .tt else cx.loaded Names.read)
      (if isSource call.classId call.methodId then (cx.loaded Names.read).withHigh .tt
        else cx.loaded Names.read) := by
    by_cases hsecret : isSource call.classId call.methodId = true
    · rw [if_pos hsecret]
      split
      · exact hread.withHigh (Formula.rises_const _)
      · exact hread.withHigh hread.high.sorted.risesTo_true
    · rw [if_neg hsecret, if_neg fun hcalls => hsecret (hmore hcalls)]
      exact hread
  exact raisesTo_returns (steady_anyExtra hall hintent.rises.value) hresult

end Library

/-! ## All instructions -/

/-- A call that enters no method of the program rises to the same call with more sources. -/
theorem raisesTo_compileCall (hall : ∀ relation, allowed relation)
    (hcall : cx.instruction.Calls call)
    (hlinkage : ∀ targets,
      call.linkage cx.oracle cx.env.config.intentSummaries ≠ .resolved targets)
    (hmore : cx.callsSource call = true → isSource call.classId call.methodId = true) :
    cx.RaisesTo allowed (cx.compileCall call)
      ((cx.withSources sources isSource).compileCall call) := by
  have harguments := CallSite.mem_operands_of_calls hcall
  have hsame : call.linkage (cx.withSources sources isSource).oracle
      (cx.withSources sources isSource).env.config.intentSummaries =
        call.linkage cx.oracle cx.env.config.intentSummaries := rfl
  unfold compileCall
  rw [hsame]
  cases hlink : call.linkage cx.oracle cx.env.config.intentSummaries with
  | remapped arguments implementations =>
      obtain ⟨hsub, hne, -⟩ := CallSite.remapped?_eq_some (CallSite.remapped?_of_linkage hlink)
      have hraises : cx.Raises allowed (cx.startThreads arguments implementations) :=
        raises_startThreads (fun r hr => harguments r (hsub r hr)) hne
      exact hraises.raisesTo
  | resolved targets => exact absurd hlink (hlinkage targets)
  | library effect =>
      by_cases heffect : effect = .getExtra
      · rw [heffect]
        exact raisesTo_getExtra hall harguments hmore
      · have hraises : cx.Raises allowed (effect.compile cx call) :=
          raises_libraryEffect hall harguments heffect
        have heq : effect.compile (cx.withSources sources isSource) call =
            effect.compile cx call := by
          cases effect with
          | getExtra => exact absurd rfl heffect
          | _ => rfl
        dsimp only
        rw [heq]
        exact hraises.raisesTo
  | unknown =>
      exact raisesTo_compileUnknownCall harguments hmore (fun _ => hall _) fun _ _ => hall _

/-! ## Emissions -/

theorem matched_of_risesTo {clauses clauses' : List Clause}
    (h : List.Forall₂ (cx.RisesTo allowed) clauses clauses') :
    (Emission.ofClauses clauses).Matched (cx.RisesTo allowed) (.ofClauses clauses') :=
  Emission.matched_ofClauses (fun _ _ hclause => hclause.isVacuous_eq) h

theorem Raises.matched {outcome : Except Error (List Clause)} (h : cx.Raises allowed outcome) :
    Parallel (Emission.Matched (cx.RisesTo allowed)) (outcome.map Emission.ofClauses)
      (outcome.map Emission.ofClauses) :=
  h.raisesTo.map fun _ _ hclauses => matched_of_risesTo hclauses

/-- An instruction that cannot be compiled in one context cannot be compiled in the other, and is
passed over both times. -/
theorem matched_of_compile {cx' : StepContext} {pairs : Clause → Clause → Prop}
    (hsite : cx.HasSite) (h : Parallel (Emission.Matched pairs) cx.compile cx'.compile)
    (hpairs : ∀ clause clause', pairs clause clause' → clause.isVacuous = clause'.isVacuous)
    (hidentity : pairs cx.identity cx'.identity) : cx.emission.Matched pairs cx'.emission := by
  have hrecovers := (emits_compile hsite).recovers
  unfold emission compileOrSkip
  generalize cx.compile = outcome at h hrecovers ⊢
  generalize cx'.compile = outcome' at h ⊢
  cases h with
  | ok hemissions => exact hemissions
  | error cause =>
      dsimp only
      rw [hrecovers cause rfl]
      exact Emission.matched_ofClauses hpairs (.cons hidentity .nil)

section Instructions

variable (hcalls : ∀ call, cx.instruction.Calls call → cx.RaisesTo allowed (cx.compileCall call)
  ((cx.withSources sources isSource).compileCall call))

include hcalls

theorem raisesTo_compileInvoke {kind : InvokeKind} {range : Bool}
    (hopcode : cx.instruction.opcode = .invoke kind range) :
    Parallel (Emission.Matched (cx.RisesTo allowed)) (cx.compileInvoke kind)
      ((cx.withSources sources isSource).compileInvoke kind) := by
  refine .bind_same (CallSite.ofInstruction_yields _ _).self fun call hsite => ?_
  have hcall : cx.instruction.Calls call := ⟨kind, range, hopcode, hsite⟩
  refine .bind_same (sinkQueries_yields (CallSite.mem_operands_of_calls hcall))
    fun queries _ => ?_
  refine .bind (hcalls call hcall) fun clauses clauses' hclauses => .pure ?_
  exact ⟨(matched_of_risesTo hclauses).clauses, rfl, rfl⟩

/-- Every instruction rises to itself with other sources when its call does. -/
theorem raisesTo_compile (hsite : cx.HasSite) (hstatic : allowed .static)
    (hobject : cx.instruction.opcode.touchesObjects = true → allowed .object)
    (hsites : ∀ site ∈ cx.layout.sites, allowed .object) :
    Parallel (Emission.Matched (cx.RisesTo allowed)) cx.compile
      (cx.withSources sources isSource).compile := by
  have hobjects : ∀ opcode, cx.instruction.opcode = opcode → opcode.touchesObjects = true →
      allowed .object := by
    rintro opcode rfl htouches
    exact hobject htouches
  have hinvoke : ∀ kind range, cx.instruction.opcode = .invoke kind range →
      Parallel (Emission.Matched (cx.RisesTo allowed)) (cx.compileInvoke kind)
        ((cx.withSources sources isSource).compileInvoke kind) := fun _ _ hopcode =>
    raisesTo_compileInvoke hcalls hopcode
  have hopcode : (cx.withSources sources isSource).instruction.opcode = cx.instruction.opcode := rfl
  unfold compile
  dsimp only
  rw [hopcode]
  cases hcase : cx.instruction.opcode with
  | nop => exact raises_identity.matched
  | monitor => exact raises_identity.matched
  | moveException => exact raises_identity.matched
  | throw => exact raises_identity.matched
  | payload => exact raises_identity.matched
  | unsupported => exact raises_identity.matched
  | move => exact raises_compileMove.matched
  | moveResult => exact raises_compileMoveResult.matched
  | return_ => exact (raises_compileReturn _).matched
  | returnVoid => exact (raises_compileReturn _).matched
  | const kind => exact (raises_compileConst kind).matched
  | checkCast => exact raises_compileCheckCast.matched
  | instanceOf => exact raises_compileInstanceOf.matched
  | arrayLength => exact raises_compileArrayLength.matched
  | newInstance =>
      exact (raises_compileNewInstance (hobjects _ hcase rfl) hcase hsite).matched
  | newArray => exact (raises_compileNewArray (hobjects _ hcase rfl)).matched
  | filledNewArray range =>
      exact (raises_compileFilledNewArray (hobjects _ hcase rfl)).matched
  | fillArrayData => exact (raises_compileFillArrayData (hobjects _ hcase rfl)).matched
  | goto => exact raises_compileGoto.matched
  | switch kind => exact raises_compileSwitch.matched
  | compare => exact raises_compileCompare.matched
  | branch condition againstZero => exact (raises_compileBranch _ _).matched
  | arrayGet => exact (raises_compileArrayGet (hobjects _ hcase rfl)).matched
  | arrayPut => exact (raises_compileArrayPut (hobjects _ hcase rfl)).matched
  | instanceGet => exact (raises_compileInstanceGet (hobjects _ hcase rfl)).matched
  | instancePut => exact (raises_compileInstancePut (hobjects _ hcase rfl)).matched
  | staticGet => exact (raises_compileStaticGet hstatic).matched
  | staticPut => exact (raises_compileStaticPut hstatic hsites).matched
  | unary op => exact (raises_compileUnary op).matched
  | binary op form => exact (raises_compileBinary op form).matched
  | invoke kind range => exact hinvoke kind range hcase

/-- An instruction that touches objects only as allowed rises to itself with other sources. -/
theorem matched_emission (hsite : cx.HasSite) (hstatic : allowed .static)
    (hobject : cx.instruction.opcode.touchesObjects = true → allowed .object)
    (hsites : ∀ site ∈ cx.layout.sites, allowed .object) :
    cx.emission.Matched (cx.RisesTo allowed) (cx.withSources sources isSource).emission :=
  matched_of_compile hsite (raisesTo_compile hcalls hsite hstatic hobject hsites)
    (fun _ _ hclause => hclause.isVacuous_eq) rises_identity

end Instructions

end StepContext

end DalvikHorn
