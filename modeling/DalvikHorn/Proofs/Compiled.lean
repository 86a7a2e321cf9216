import DalvikHorn.Proofs.LibraryHandlers
import DalvikHorn.Proofs.Starts
import DalvikHorn.Proofs.Stored

/-!
# Compiled programs

Under a valid configuration a program whose shapes agree compiles, and what is
stored can be listed: its facts, then what every instruction of every method
whose arguments fit contributes (`Program.compile_eq`).  Nothing is lost to a
conflict, and only the methods whose arguments do not fit are skipped.

Everything that is stored is admissible, because every clause of an instruction is
(`StepContext.Emitted.admissible`).
-/

namespace DalvikHorn

/-! ## The layout -/

namespace HeapLayout

variable {layout : HeapLayout}

theorem site?_addSite_of_some {id other : InstanceId} {site : AllocationSite}
    (h : layout.site? id = some site) (typeName : String) (classId : ClassId)
    (fields : List (FieldId × Bool)) :
    (layout.addSite other typeName classId fields).site? id = some site := by
  unfold addSite
  split
  · exact h
  · unfold site? at h ⊢
    rw [List.find?_append, h]
    rfl

theorem site?_addSite_self (id : InstanceId) (typeName : String) (classId : ClassId)
    (fields : List (FieldId × Bool)) :
    ∃ site, (layout.addSite id typeName classId fields).site? id = some site := by
  unfold addSite
  split
  · rename_i site hsite
    exact ⟨site, hsite⟩
  · rename_i hnone
    rw [← Option.isSome_iff_exists]
    unfold site? at hnone ⊢
    rw [List.find?_append, hnone, Option.none_or, List.find?_singleton]
    simp

end HeapLayout

/-- What a fold establishes at one element and keeps at all others holds in the end. -/
theorem foldl_of_mem {σ τ : Type} (holds : σ → Prop) {f : σ → τ → σ} {items : List τ} {item : τ}
    (hkeep : ∀ state other, holds state → holds (f state other))
    (hitem : ∀ state, holds (f state item)) (hmem : item ∈ items) (start : σ) :
    holds (items.foldl f start) := by
  obtain ⟨before, after, rfl⟩ := List.append_of_mem hmem
  rw [List.foldl_append, List.foldl_cons]
  exact List.foldlRecOn after f (hitem _) fun state hstate other _ => hkeep state other hstate

namespace Program

variable {program : Program}

/-- Every object that is allocated on the local heap has a site, named after its position. -/
theorem site?_layout {point : ProgramPoint} {typeName : String}
    (h : (point, typeName) ∈ program.localAllocations) :
    ∃ site, program.layout.site? (siteHash point.owner point.method point.pc) = some site := by
  obtain ⟨index, hindex⟩ := List.mem_iff_getElem?.mp h
  have hmem : ((point, typeName), index) ∈ program.localAllocations.zipIdx := by
    rw [List.mem_zipIdx_iff_getElem?]
    exact hindex
  -- Sites are only added, so it is enough that the site is there right after its own turn.
  refine foldl_of_mem (fun layout : HeapLayout =>
    ∃ site, layout.site? (siteHash point.owner point.method point.pc) = some site) ?_ ?_ hmem _
  · rintro layout ⟨⟨other, name⟩, request⟩ ⟨site, hsite⟩
    exact ⟨site, HeapLayout.site?_addSite_of_some hsite _ _ _⟩
  · intro layout
    exact HeapLayout.site?_addSite_self _ _ _ _

end Program

/-! ## Contexts -/

namespace Program

variable (program : Program) (config : Config) (labels : Labels)

/-- What the instructions of a program are compiled with. -/
def environment : Environment where
  config := config
  oracle := program.oracle labels
  layout := program.layout

/-- The contexts of the instructions of a method. -/
def methodContexts (env : Environment) (owner : Class) (method : Method) : List StepContext :=
  if method.shape.WellFormed then
    method.instructions.mapIdx fun index instruction =>
      env.stepContext 0 owner method index instruction
  else
    []

/-- The contexts of all instructions of a program. -/
def contexts (env : Environment) : List StepContext :=
  program.methods.flatMap fun entry => methodContexts env entry.1 entry.2

end Program

/-- What an instruction contributes, when it does. -/
def StepContext.emission (cx : StepContext) : Emission :=
  match cx.compileOrSkip with
  | .ok emission => emission
  | .error _ => {}

namespace Program

variable {program : Program} {config : Config} {labels : Labels}

/-- The clauses that a program is compiled to. -/
def clauses (program : Program) (env : Environment) : List Clause :=
  env.factClauses program ++ (program.contexts env).flatMap (·.emission.clauses)

/-- The queries that a program is compiled to. -/
def queries (program : Program) (env : Environment) : List Query :=
  (program.contexts env).flatMap (·.emission.queries)

/-- An instruction of a method whose arguments fit into its registers. -/
structure HasStep (program : Program) (env : Environment) (cx : StepContext) : Prop where
  env_eq : cx.env = env
  mem : (cx.owner, cx.method) ∈ program.methods
  wellFormed : cx.shape.WellFormed
  instruction : cx.instruction ∈ cx.method.instructions
  allocation_eq : cx.allocation = siteHash cx.owner.id cx.method.id cx.instruction.pc

theorem hasStep_of_mem_contexts {cx : StepContext}
    (h : cx ∈ program.contexts (program.environment config labels)) :
    program.HasStep (program.environment config labels) cx := by
  obtain ⟨⟨owner, method⟩, hmem, hcx⟩ := List.mem_flatMap.mp h
  dsimp only [methodContexts] at hcx
  split at hcx
  · rename_i hshape
    obtain ⟨index, hindex, rfl⟩ := List.mem_mapIdx.mp hcx
    exact ⟨rfl, hmem, hshape, List.getElem_mem hindex, rfl⟩
  · cases hcx

theorem HasStep.layout_eq {cx : StepContext}
    (h : program.HasStep (program.environment config labels) cx) :
    cx.layout = program.layout := by
  rw [StepContext.layout, h.env_eq]
  rfl

theorem HasStep.oracle_eq {cx : StepContext}
    (h : program.HasStep (program.environment config labels) cx) :
    cx.oracle = program.oracle labels := by
  rw [StepContext.oracle, h.env_eq]
  rfl

theorem HasStep.width_eq {cx : StepContext}
    (h : program.HasStep (program.environment config labels) cx) : cx.width = config.width := by
  rw [StepContext.width, h.env_eq]
  rfl

theorem HasStep.hasSite {cx : StepContext}
    (h : program.HasStep (program.environment config labels) cx) : cx.HasSite := by
  intro typeName hallocation
  have hmem : (⟨cx.owner.id, cx.method.id, cx.instruction.pc⟩, typeName) ∈
      program.localAllocations := by
    refine List.mem_flatMap.mpr ⟨(cx.owner, cx.method), h.mem, ?_⟩
    refine List.mem_filterMap.mpr ⟨cx.instruction, h.instruction, ?_⟩
    rw [hallocation]
    rfl
  obtain ⟨site, hsite⟩ := site?_layout hmem
  refine ⟨site, ?_⟩
  rw [h.layout_eq, h.allocation_eq]
  exact hsite

theorem HasStep.compileOrSkip_eq {cx : StepContext}
    (h : program.HasStep (program.environment config labels) cx) :
    cx.compileOrSkip = .ok cx.emission ∧ cx.Contributes cx.emission := by
  obtain ⟨emission, heq, hcontributes⟩ := StepContext.compileOrSkip_contributes h.hasSite
  have hemission : cx.emission = emission := by rw [StepContext.emission, heq]
  exact ⟨heq.trans (by rw [hemission]), hemission ▸ hcontributes⟩

/-- Every clause that an instruction of a program contributes is one that it can contribute. -/
theorem HasStep.emitted {cx : StepContext}
    (h : program.HasStep (program.environment config labels) cx) {clause : Clause}
    (hclause : clause ∈ cx.emission.clauses) : cx.Emitted clause :=
  h.compileOrSkip_eq.2.clauses clause hclause

theorem HasStep.asked {cx : StepContext}
    (h : program.HasStep (program.environment config labels) cx) {query : Query}
    (hquery : query ∈ cx.emission.queries) : cx.Asked query :=
  h.compileOrSkip_eq.2.queries query hquery

theorem HasStep.frame {cx : StepContext}
    (h : program.HasStep (program.environment config labels) cx) :
    program.Frame cx.owner.id cx.method.id cx.shape :=
  frame_of_mem h.mem h.wellFormed

end Program

/-! ## Variables of clauses -/

theorem Atom.respected {width : Nat} {atom : Atom} (h : ∀ arg ∈ atom.args, arg.Sorted width) :
    Names.Respected width atom.toFormula.vars := by
  intro v hv
  obtain ⟨arg, harg, hmem⟩ :=
    Term.mem_varsList.mp (by simpa [Atom.toFormula, Formula.vars] using hv)
  exact (h arg harg).vars v hmem

theorem Clause.respected {width : Nat} {clause : Clause}
    (hbody : ∀ part ∈ clause.body, Names.Respected width part.vars)
    (hhead : Names.Respected width clause.head.toFormula.vars) :
    Names.Respected width clause.vars := by
  refine Names.respected_append.mpr ⟨fun v hv => ?_, ?_⟩
  · obtain ⟨part, hpart, hmem⟩ := Formula.mem_varsList.mp hv
    exact hbody part hpart v hmem
  · simpa [Atom.toFormula, Formula.vars, Atom.vars] using hhead

/-! ## Admissible contributions -/

namespace StepContext

variable {cx : StepContext} {program : Program} {config : Config} {labels : Labels}

theorem IsGuard.admissible {guard : Formula} (h : cx.IsGuard guard) :
    guard.Admissible program cx.width := by
  rcases h with h | ⟨atom, rfl, h⟩
  · exact h.admissible
  · exact h.admissible

/-- What a register of an entered method holds. -/
theorem sorted_of_eq_zero_or_reads {cell : Cell} (h : cell = .zero cx.width ∨ cx.Reads cell) :
    cell.Sorted cx.width := by
  rcases h with rfl | hreads
  · exact Cell.sorted_zero
  · exact hreads.sorted

theorem Entered.sorted {shape : FrameShape} {entry : State} (h : cx.Entered shape entry) :
    entry.Sorted shape cx.layout.size cx.width where
  registers_length := h.registers_length
  registers := by
    intro cell hcell
    exact sorted_of_eq_zero_or_reads (h.registers cell hcell)
  heap_length := h.heap_eq ▸ cx.sorted_pre.heap_length
  heap := h.heap_eq ▸ cx.sorted_pre.heap

theorem sorted_resultCell : cx.resultCell.Sorted cx.width :=
  ⟨sorted_variable, sorted_flag, sorted_flag, sorted_flag⟩

/-- What a method exits with. -/
theorem sorted_of_eq_resultCell_or_reads {result : Cell}
    (h : result = cx.resultCell ∧ cx.instruction.opcode = .returnVoid ∨ cx.Reads result) :
    result.Sorted cx.width := by
  rcases h with ⟨rfl, -⟩ | hreads
  · exact sorted_resultCell
  · exact hreads.sorted

/-- The exit that a call waits for is over sorted terms. -/
theorem sorted_args_awaitedExit {owner : ClassId} {method : MethodId} {arguments : List Cell}
    (harguments : ∀ cell ∈ arguments, cell = .zero cx.width ∨ cx.Reads cell) :
    ∀ arg ∈ (exitAtom owner method arguments cx.resultCell cx.returnedHeap).args,
      arg.Sorted cx.width :=
  sorted_args_exitAtom (fun cell hcell => sorted_of_eq_zero_or_reads (harguments cell hcell))
    sorted_resultCell (sorted_canonicalHeap Names.isHeap_returnedHeap _)

/-- The state in which a static initialiser starts. -/
theorem sorted_zeroed_pre (shape : FrameShape) :
    (State.zeroed shape cx.pre.heap cx.width).Sorted shape cx.layout.size cx.width := by
  have hzeroed := State.sorted_zeroed shape cx.sorted_pre.heap
  rw [cx.sorted_pre.heap_length] at hzeroed
  exact hzeroed

theorem sorted_afterCall {cell : Cell} (hcell : cell.Sorted cx.width) :
    (afterCall cx.occupiedSites cell).Sorted cx.width := by
  refine ⟨hcell.value, hcell.high, hcell.isLocal, hcell.isGlobal.either (hcell.isLocal.both ?_)⟩
  refine Formula.sorted_any fun part hpart => ?_
  obtain ⟨⟨id, live⟩, hmem, rfl⟩ := List.mem_map.mp hpart
  obtain ⟨site, -, heq⟩ := List.mem_map.mp hmem
  cases heq
  have hheader : (HeapSlot.canonical Names.returnedHeap site.headerSlot cx.width).Sorted cx.width :=
    HeapSlot.sorted_canonical Names.isHeap_returnedHeap _
  exact hheader.free.negate.both (hcell.value.eqTo (sorted_idLiteral _))

theorem sorted_afterReturn {result : Option Cell} (hresult : ∀ cell ∈ result, cell.Sorted cx.width) :
    (cx.afterReturn result).Sorted cx.shape cx.layout.size cx.width := by
  have hkept : (cx.pre.mapRegisters (cx.shape.numRegisters + 1) fun _ =>
      afterCall cx.occupiedSites).Sorted cx.shape cx.layout.size cx.width :=
    cx.sorted_pre.mapRegisters fun _ _ hcell => sorted_afterCall hcell
  have hheap : ∀ slot ∈ (cx.afterReturn result).heap, slot.Sorted cx.width := by
    intro slot hslot
    obtain ⟨⟨callee, own⟩, hmem, rfl⟩ := List.mem_map.mp hslot
    have hcallee := sorted_canonicalHeap Names.isHeap_returnedHeap _ callee (List.of_mem_zip hmem).1
    have hown := cx.sorted_pre.heap own (List.of_mem_zip hmem).2
    exact ⟨hcallee.cell, hcallee.free.both hown.free⟩
  have hlength : (cx.afterReturn result).heap.length = cx.layout.size := by
    simp [afterReturn, returnedHeap, cx.sorted_pre.heap_length]
  cases result with
  | none => exact hkept.withHeap hlength hheap
  | some cell => exact (hkept.set (hresult cell rfl)).withHeap hlength hheap

/-- The state after a call is sorted, whichever label its result has. -/
theorem sorted_afterReturn_result {returns : Bool} {high : Formula} (hhigh : high.Sorted cx.width) :
    (cx.afterReturn (if returns then some (cx.resultCell.withHigh high) else none)).Sorted
      cx.shape cx.layout.size cx.width := by
  refine sorted_afterReturn fun cell hcell => ?_
  cases returns with
  | true => cases hcell; exact sorted_resultCell.withHigh hhigh
  | false => cases hcell

/-- The head of a clause that an instruction can contribute is over sorted terms. -/
theorem Emitted.sorted_head {clause : Clause} (h : cx.Emitted clause) :
    ∀ arg ∈ clause.head.args, arg.Sorted cx.width := by
  cases h with
  | step hguards hpost => exact sorted_args_pointAtom hpost.sorted
  | fact hguards hhead => exact hhead.sorted_args
  | enter hguards htarget hshape hentry => exact sorted_args_pointAtom hentry.sorted
  | leave hcall htarget hguards hlength harguments hhigh =>
      exact sorted_args_pointAtom (sorted_afterReturn_result hhigh)
  | @startInitializer owner shape hinitializer hshape =>
      exact sorted_args_pointAtom (sorted_zeroed_pre shape)
  | exit hresult =>
      exact sorted_args_exitAtom
        (fun cell hcell => cx.sorted_pre.registers cell (List.mem_of_mem_drop hcell))
        (sorted_of_eq_resultCell_or_reads hresult) cx.sorted_pre.heap

/-- Every clause that an instruction can contribute uses its variables at their sorts, whatever
the frames of the other methods are. -/
theorem Emitted.respected {clause : Clause} (h : cx.Emitted clause) :
    Names.Respected cx.width clause.vars := by
  have hhead : Names.Respected cx.width clause.head.toFormula.vars := Atom.respected h.sorted_head
  -- a guard is made of registers and slots, or applies a relation to such
  have hguard : ∀ {guard : Formula}, cx.IsGuard guard → Names.Respected cx.width guard.vars := by
    rintro guard (hsorted | ⟨atom, rfl, hatom⟩)
    · exact hsorted.vars
    · exact Atom.respected hatom.sorted_args
  have hcurrent : Names.Respected cx.width cx.current.toFormula.vars :=
    Atom.respected (sorted_args_pointAtom cx.sorted_pre)
  refine Clause.respected ?_ hhead
  -- one case for each kind of clause; they differ in the parts of the body
  cases h with
  | step hguards hpost =>
      exact List.forall_mem_cons.mpr ⟨hcurrent, fun guard hmem => hguard (hguards guard hmem)⟩
  | fact hguards _ =>
      exact List.forall_mem_cons.mpr ⟨hcurrent, fun guard hmem => hguard (hguards guard hmem)⟩
  | enter hguards _ _ hentry =>
      exact List.forall_mem_cons.mpr ⟨hcurrent, fun guard hmem => (hguards guard hmem).vars⟩
  | @leave call target guards arguments high hcall htarget hguards hlength harguments hhigh =>
      have hexit : Names.Respected cx.width (exitAtom target.owner target.method arguments
          cx.resultCell cx.returnedHeap).toFormula.vars :=
        Atom.respected (sorted_args_awaitedExit harguments)
      exact List.forall_mem_cons.mpr ⟨hcurrent, List.forall_mem_cons.mpr
        ⟨hexit, fun guard hmem => (hguards guard hmem).vars⟩⟩
  | startInitializer _ _ => exact List.forall_mem_singleton.mpr hcurrent
  | exit _ => exact List.forall_mem_singleton.mpr hcurrent

/-- Every clause that an instruction of a program can contribute is admissible. -/
theorem Emitted.admissible (hshapes : program.ShapesAgree)
    (hstep : program.HasStep (program.environment config labels) cx) {clause : Clause}
    (h : cx.Emitted clause) : clause.Admissible program cx.width := by
  have hlayout := hstep.layout_eq
  have horacle := hstep.oracle_eq
  -- a point of the own method is a relation of the program
  have hpoint : ∀ {pc : UInt32} {state : State},
      state.Sorted cx.shape cx.layout.size cx.width →
        (pointAtom (cx.pointAt pc) state).toFormula.Admissible program cx.width :=
    fun hstate => admissible_pointAtom hstep.frame (hlayout ▸ hstate)
  have hbody : ∀ {guards : List Formula},
      (∀ guard ∈ guards, guard.Admissible program cx.width) →
        ∀ part ∈ cx.body guards, part.Admissible program cx.width :=
    fun hguards => List.forall_mem_cons.mpr ⟨hpoint cx.sorted_pre, hguards⟩
  -- one case for each kind of clause; they differ in the relation of the head
  cases h with
  | step hguards hpost =>
      exact Clause.admissible (hbody fun guard hguard => (hguards guard hguard).admissible)
        (hpoint hpost.sorted)
  | fact hguards hhead =>
      exact Clause.admissible (hbody fun guard hguard => (hguards guard hguard).admissible)
        hhead.admissible
  | enter hguards htarget hshape hentry =>
      refine Clause.admissible (hbody fun guard hguard => (hguards guard hguard).admissible) ?_
      rw [horacle] at htarget
      exact admissible_pointAtom (.inl (Program.declares_of_targets htarget))
        (hlayout ▸ hentry.sorted)
  | @leave call target guards arguments high hcall htarget hguards hlength harguments hhigh =>
      obtain ⟨hfound, -⟩ := CallSite.targets_of_mem_targets htarget
      -- the frame of the target is that of a method the oracle has found
      rw [horacle] at hfound
      have hcells : ∀ cell ∈ arguments, cell.Sorted cx.width :=
        fun cell hcell => sorted_of_eq_zero_or_reads (harguments cell hcell)
      have hexit : (exitAtom target.owner target.method arguments cx.resultCell
          cx.returnedHeap).toFormula.Admissible program cx.width :=
        admissible_exitAtom (.inl (Program.declares_of_targets hfound)) hlength hcells
          sorted_resultCell (by rw [returnedHeap, length_canonicalHeap, hlayout])
          (sorted_canonicalHeap Names.isHeap_returnedHeap _)
      exact Clause.admissible (hbody (List.forall_mem_cons.mpr
        ⟨hexit, fun guard hguard => (hguards guard hguard).admissible⟩))
        (hpoint (sorted_afterReturn_result hhigh))
  | @startInitializer owner shape hinitializer hshape =>
      rw [horacle] at hinitializer hshape
      exact Clause.admissible (hbody (by simp)) (admissible_pointAtom
        (Program.frame_of_initializer hshapes hinitializer hshape)
        (hlayout ▸ sorted_zeroed_pre shape))
  | exit hresult =>
      -- the exit keeps the registers behind the return slot, which are the copies
      refine Clause.admissible (hbody (by simp)) (admissible_exitAtom hstep.frame ?_ ?_ ?_
        (hlayout ▸ cx.sorted_pre.heap_length) cx.sorted_pre.heap)
      · rw [List.length_drop, cx.sorted_pre.registers_length, FrameShape.slotCount]
        omega
      · exact fun cell hcell => cx.sorted_pre.registers cell (List.mem_of_mem_drop hcell)
      · exact sorted_of_eq_resultCell_or_reads hresult

theorem Asked.admissible (hstep : program.HasStep (program.environment config labels) cx)
    {query : Query} (h : cx.Asked query) : query.condition.Admissible program cx.width := by
  obtain ⟨cell, hcell, hcondition⟩ := h
  have hlayout := hstep.layout_eq
  rw [hcondition]
  refine Formula.admissible_all (List.forall_mem_cons.mpr
    ⟨admissible_pointAtom hstep.frame (hlayout ▸ cx.sorted_pre), List.forall_mem_singleton.mpr ?_⟩)
  exact hcell.sorted.high.admissible

end StepContext

/-! ## Methods -/

namespace Environment

variable {env : Environment}

/-- Identifiers are names of program points, so the contexts of a method do not depend on how
many have been asked for. -/
theorem contextsFrom_eq (hnames : ∀ request, env.oracle.allocationId request = siteHash)
    (owner : Class) (method : Method) (instructions : List Instruction) (requests index : Nat) :
    (env.contextsFrom owner method requests index instructions).1 =
      instructions.mapIdx fun offset instruction =>
        env.stepContext 0 owner method (index + offset) instruction := by
  have hcontext : ∀ requests index instruction,
      env.stepContext requests owner method index instruction =
        env.stepContext 0 owner method index instruction := by
    intro requests index instruction
    simp only [stepContext, hnames]
  induction instructions generalizing requests index with
  | nil => rfl
  | cons instruction rest ih =>
      rw [contextsFrom]
      dsimp only
      rw [ih, List.mapIdx_cons, hcontext requests]
      simp only [Nat.add_zero, Nat.add_assoc, Nat.add_comm 1]

theorem contexts_eq (hnames : ∀ request, env.oracle.allocationId request = siteHash)
    (requests : Nat) (owner : Class) (method : Method) :
    (env.contexts requests owner method).1 = Program.methodContexts env owner method := by
  unfold contexts Program.methodContexts
  split
  · rw [contextsFrom_eq hnames]
    simp only [Nat.zero_add]
  · rfl

/-- A method whose arguments fit contributes what its instructions do. -/
theorem compileMethod_eq (hnames : ∀ request, env.oracle.allocationId request = siteHash)
    {owner : Class} {method : Method} (hshape : method.shape.WellFormed)
    (hcontexts : ∀ cx ∈ Program.methodContexts env owner method,
      cx.compileOrSkip = .ok cx.emission) (requests : Nat) :
    env.compileMethod requests owner method =
      .ok (.join ((Program.methodContexts env owner method).map (·.emission))) := by
  have hemissions : (Program.methodContexts env owner method).mapM StepContext.compileOrSkip =
      .ok ((Program.methodContexts env owner method).map (·.emission)) := by
    rw [mapM_eq_ok_iff, List.map_map]
    exact List.map_congr_left hcontexts
  unfold compileMethod checkShape
  rw [if_pos hshape, contexts_eq hnames]
  dsimp only [Bind.bind, Except.bind]
  rw [hemissions]
  rfl

end Environment

/-! ## Programs -/

namespace Program

variable {program : Program} {config : Config} {labels : Labels}

theorem hasStep_of_mem_methodContexts {owner : Class} {method : Method}
    (hmem : (owner, method) ∈ program.methods) {cx : StepContext}
    (hcx : cx ∈ methodContexts (program.environment config labels) owner method) :
    program.HasStep (program.environment config labels) cx :=
  hasStep_of_mem_contexts (List.mem_flatMap.mpr ⟨(owner, method), hmem, hcx⟩)

/-- A method whose arguments fit contributes one part for each of its instructions. -/
theorem exists_contributions (config : Config) (labels : Labels) (requests : Nat) {owner : Class}
    {method : Method} (hmem : (owner, method) ∈ program.methods)
    (hshape : method.shape.WellFormed) :
    ∃ contributions : List Emission,
      (program.environment config labels).compileMethod requests owner method =
        .ok (.join contributions) ∧
      contributions.length = method.instructions.length ∧
      ∀ index instruction emission, method.instructions[index]? = some instruction →
        contributions[index]? = some emission →
        program.HasStep (program.environment config labels)
            ((program.environment config labels).stepContext requests owner method index
              instruction) ∧
          ((program.environment config labels).stepContext requests owner method index
            instruction).compileOrSkip = .ok emission := by
  have hstep : ∀ cx ∈ methodContexts (program.environment config labels) owner method,
      program.HasStep (program.environment config labels) cx :=
    fun cx hcx => hasStep_of_mem_methodContexts hmem hcx
  refine ⟨_, Environment.compileMethod_eq (fun _ => rfl) hshape
    (fun cx hcx => (hstep cx hcx).compileOrSkip_eq.1) requests, ?_, ?_⟩
  · rw [List.length_map, methodContexts, if_pos hshape, List.length_mapIdx]
  · intro index instruction emission hinstruction hemission
    obtain ⟨cx, hcx, rfl⟩ := (List.getElem?_map ▸ Option.map_eq_some_iff).mp hemission
    have hcompiled := hstep cx (List.mem_of_getElem? hcx)
    rw [methodContexts, if_pos hshape, List.getElem?_mapIdx, hinstruction] at hcx
    cases hcx
    exact ⟨hcompiled, hcompiled.compileOrSkip_eq.1⟩

/-- What a method of a program contributes is admissible. -/
theorem admissible_methodEmission (labels : Labels) (hshapes : program.ShapesAgree) {owner : Class}
    {method : Method} (hmem : (owner, method) ∈ program.methods) :
    (Emission.join ((methodContexts (program.environment config labels) owner method).map
      (·.emission))).Admissible program config.width where
  clauses := by
    rw [Emission.clauses_join, List.flatMap_map]
    intro clause hclause
    obtain ⟨cx, hcx, hclause⟩ := List.mem_flatMap.mp hclause
    have hstep := hasStep_of_mem_methodContexts hmem hcx
    exact hstep.width_eq ▸ (hstep.emitted hclause).admissible hshapes hstep
  queries := by
    rw [Emission.queries_join, List.flatMap_map]
    intro query hquery
    obtain ⟨cx, hcx, hquery⟩ := List.mem_flatMap.mp hquery
    have hstep := hasStep_of_mem_methodContexts hmem hcx
    exact hstep.width_eq ▸ (hstep.asked hquery).admissible hstep

/-- A method whose arguments do not fit is skipped; the others are stored one after the
other. -/
theorem compileMethods_eq (labels : Labels) (hshapes : program.ShapesAgree)
    {methods : List (Class × Method)}
    (hmethods : ∀ entry ∈ methods, entry ∈ program.methods) (requests : Nat) (tally : Tally)
    {store : Store} (hstore : store.Admissible program config.width) :
    ∃ (final : Tally) (next : Store),
      (program.environment config labels).compileMethods .together requests tally store methods =
        .ok (final, next) ∧
      final.methodsSkipped =
        tally.methodsSkipped + methods.countP (fun entry => !decide entry.2.shape.WellFormed) ∧
      next.Admissible program config.width ∧
      next.clauses = store.clauses ++ (methods.flatMap fun entry =>
        methodContexts (program.environment config labels) entry.1 entry.2).flatMap
          (·.emission.clauses) ∧
      next.queries = store.queries ++ (methods.flatMap fun entry =>
        methodContexts (program.environment config labels) entry.1 entry.2).flatMap
          (·.emission.queries) := by
  have hnames : ∀ request,
      (program.environment config labels).oracle.allocationId request = siteHash := fun _ => rfl
  induction methods generalizing requests tally store with
  | nil => exact ⟨tally, store, rfl, by simp, hstore, by simp, by simp⟩
  | cons entry rest ih =>
      obtain ⟨owner, method⟩ := entry
      have hmem : (owner, method) ∈ program.methods := hmethods _ List.mem_cons_self
      have hrest : ∀ other ∈ rest, other ∈ program.methods := fun other hother =>
        hmethods other (List.mem_cons_of_mem _ hother)
      by_cases hshape : method.shape.WellFormed
      · -- each instruction yields the emission of its context, and the store takes it
        have hcompiled := Environment.compileMethod_eq hnames hshape
          (fun cx hcx => (hasStep_of_mem_methodContexts hmem hcx).compileOrSkip_eq.1) requests
        obtain ⟨stored, hstored, hadmissible, hclauses, hqueries⟩ :=
          (admissible_methodEmission labels hshapes hmem).store hshapes hstore owner.id method.id
        obtain ⟨final, next, hnext, hskipped, hadmissible', hclauses', hqueries'⟩ :=
          ih hrest _ (tally.compiled _) hadmissible
        refine ⟨final, next, ?_, ?_, hadmissible', ?_, ?_⟩
        · simp only [Environment.compileMethods, hcompiled, hstored]
          exact hnext
        · rw [hskipped, List.countP_cons_of_neg (by simpa using hshape)]
          rfl
        · rw [hclauses', hclauses, Emission.clauses_join, List.flatMap_map, List.append_assoc,
            List.flatMap_cons, List.flatMap_append]
        · rw [hqueries', hqueries, Emission.queries_join, List.flatMap_map, List.append_assoc,
            List.flatMap_cons, List.flatMap_append]
      · -- the method is counted and nothing is stored
        obtain ⟨final, next, hnext, hskipped, hadmissible, hclauses, hqueries⟩ :=
          ih hrest _ tally.skipped hstore
        have hnone : methodContexts (program.environment config labels) owner method = [] :=
          if_neg hshape
        have hcount : tally.skipped.methodsSkipped = tally.methodsSkipped + 1 := rfl
        refine ⟨final, next, ?_, ?_, hadmissible, ?_, ?_⟩
        · simp only [Environment.compileMethods, Environment.compileMethod,
            Environment.checkShape, if_neg hshape]
          exact hnext
        · rw [hskipped, List.countP_cons_of_pos (by simpa using hshape), hcount]
          omega
        · rw [hclauses, List.flatMap_cons, hnone, List.nil_append]
        · rw [hqueries, List.flatMap_cons, hnone, List.nil_append]

/-- The sources and sinks of a valid configuration can be read. -/
theorem labels_of_validate (hvalid : config.validate = .ok ()) :
    ∃ labels, config.labels = .ok labels := by
  have hparsed : ∃ parsed, (config.sources ++ config.sinks).mapM parseSignature = .ok parsed := by
    cases hmap : (config.sources ++ config.sinks).mapM parseSignature with
    | ok parsed => exact ⟨parsed, rfl⟩
    | error cause =>
        -- one signature that is not read would have failed the validation
        simp only [Config.validate, hmap] at hvalid
        split at hvalid
        · cases hvalid
        · split at hvalid
          · cases hvalid
          · cases hvalid
  obtain ⟨parsed, hparsed⟩ := hparsed
  -- both lists were read together, so each of them is read
  rw [List.mapM_append] at hparsed
  cases hsources : config.sources.mapM parseSignature with
  | error cause =>
      rw [hsources] at hparsed
      cases hparsed
  | ok sources =>
      cases hsinks : config.sinks.mapM parseSignature with
      | error cause =>
          rw [hsources, hsinks] at hparsed
          cases hparsed
      | ok sinks =>
          refine ⟨{ sources := sources.eraseDups, sinks := sinks.eraseDups }, ?_⟩
          unfold Config.labels Labels.ofSignatures Labels.methodsOf
          rw [hsources, hsinks]
          rfl

/-- Stores the facts of a program and then its methods in an order. -/
def fill (program : Program) (env : Environment) (order : List (Class × Method)) :
    Except Error Compilation := do
  let layoutRequests := program.localAllocations.length
  let facts ← env.facts layoutRequests program
  match Store.empty.addClauses facts with
  | (_, some conflict) => throw conflict
  | (store, none) =>
      let (tally, store) ←
        env.compileMethods .together (layoutRequests + Environment.factRequests program)
          (Tally.record {} { clauses := facts }) store order
      return { store := store, report := tally.report }

theorem compile_eq_fill (hvalid : config.validate = .ok ()) (hlabels : config.labels = .ok labels) :
    program.compile config = program.fill (program.environment config labels) program.methods := by
  change (do
    config.validate.mapError Error.config
    let labels ← config.labels.mapError Error.reference
    program.compileWith config (program.oracle labels) .together) = _
  rw [hvalid, hlabels]
  change program.compileWith config (program.oracle labels) .together = _
  unfold compileWith
  rw [hvalid]
  rfl

/-- A program whose shapes agree compiles under a valid configuration.  Nothing but the methods
whose arguments do not fit is left out. -/
theorem compile_eq (hshapes : program.ShapesAgree) (hvalid : config.validate = .ok ()) :
    ∃ (labels : Labels) (compilation : Compilation),
      program.compile config = .ok compilation ∧
      compilation.store.Admissible program config.width ∧
      compilation.store.clauses = program.clauses (program.environment config labels) ∧
      compilation.store.queries = program.queries (program.environment config labels) ∧
      compilation.report.methodsSkipped =
        program.methods.countP (fun entry => !decide entry.2.shape.WellFormed) := by
  obtain ⟨labels, hlabels⟩ := labels_of_validate hvalid
  have hnames : ∀ request,
      (program.environment config labels).oracle.allocationId request = siteHash := fun _ => rfl
  have hfacts := Environment.facts_eq hnames program.localAllocations.length program
  have hfactClauses : ∀ clause ∈ (program.environment config labels).factClauses program,
      clause.Admissible program config.width := admissible_factClauses rfl
  -- the facts are stored first, and then one method after the other
  obtain ⟨initial, hinitial, hadmissible, hclauses, hqueries⟩ :=
    Store.admissible_empty.addClauses hshapes hfactClauses
  obtain ⟨final, next, hnext, hskipped, hadmissible', hclauses', hqueries'⟩ :=
    compileMethods_eq labels hshapes (fun _ hentry => hentry)
      (program.localAllocations.length + Environment.factRequests program)
      (Tally.record {} { clauses := (program.environment config labels).factClauses program })
      hadmissible
  refine ⟨labels, ⟨next, final.report⟩, ?_, hadmissible', ?_, ?_, ?_⟩
  · rw [compile_eq_fill hvalid hlabels]
    unfold fill
    simp only [hfacts, Bind.bind, Except.bind, hinitial, hnext]
    rfl
  · rw [hclauses', hclauses]
    rfl
  · rw [hqueries', hqueries]
    rfl
  · rw [Tally.report, hskipped]
    simp [Tally.record]

end Program

end DalvikHorn
