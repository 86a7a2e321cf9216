import DalvikHorn.Proofs.FlushOrder
import DalvikHorn.Proofs.MethodReferences
import DalvikHorn.Proofs.RisingCalls

/-!
# More sources

A configuration with more sources finds every leak that one with fewer sources finds, as
long as no call enters a method of the program (`Program.leaks_kept`).  The facts of the
first compilation are raised to facts of the second: instructions raise labels, and so
do the facts of a program.  A query asks for a label to be true, so it stays satisfiable.

A call that enters a method is left out because its exit is looked up by the labels of the
arguments that it was entered with, and these may be covered by larger ones.
-/

namespace DalvikHorn

/-! ## Facts of a program -/

section Facts

variable {width heapSize : Nat} {program : Program} {env : Environment}

theorem unchanged_reach : Unchanged (Fact.Raised heapSize) Relation.reach.name := by
  rintro ⟨name, args⟩ fact' rfl hraised
  exact hraised.of_reach

/-- The three values that the rule for the results of activities reads have different labels. -/
theorem parallel_activityResultRule :
    (GlobalHeap.activityResultRule width).Parallel width (Fact.Raised heapSize)
      (GlobalHeap.activityResultRule width) := by
  have hrespected : Names.Respected width (GlobalHeap.activityResultRule width).vars :=
    (@admissible_activityResultRule ⟨[]⟩ width).vars
  have hvalue : ∀ name [Names.AuxiliaryValue name], (Term.bv (.var name width)).Fixed width :=
    fun _ _ => BvExpr.fixed_auxiliary.term
  have hkey : ∀ name, (Term.bv (GlobalHeap.namedKey width name)).Fixed width :=
    fun _ => (BvExpr.fixed_ofInt _).term
  have hblocked : ∀ name [Names.AuxiliaryFlag name], Names.isLabel name = false →
      (Formula.var name).Fixed width := fun name _ hname =>
    Formula.fixed_var (Names.isVariable_auxiliaryFlag _ _) hname
  -- each application of the body reads a label of its own
  have hparent := @absorbs_read width heapSize (fun _ => True) Names.fieldHigh
    (heldAtom .object [.bv (.var Names.className width), .bv (.var Names.className width),
      .bv (GlobalHeap.namedKey width GlobalHeap.parentField), .bv (.var Names.field width)]
      (.var Names.fieldHigh) (.var Names.fieldBlocked))
    ⟨by decide, .object, _, _, rfl, trivial, by simp [hvalue, hkey],
      hblocked _ (by decide), rfl⟩
  have hresult := @absorbs_read width heapSize (fun _ => True) Names.readHigh
    (heldAtom .object [.bv (.var Names.className width), .bv (.var Names.className width),
      .bv (GlobalHeap.namedKey width GlobalHeap.resultField), .bv (.var Names.read width)]
      (.var Names.readHigh) (.var Names.readBlocked))
    ⟨by decide, .object, _, _, rfl, trivial, by simp [hvalue, hkey],
      hblocked _ (by decide), rfl⟩
  have hany := @absorbs_read width heapSize (fun _ => True) Names.anyHigh
    (heldAtom .object [.bv (.var Names.field width), .bv (.var Names.field width),
      .bv (.var Names.anyField width), .bv (.var Names.anyValue width)]
      (.var Names.anyHigh) (.var Names.anyBlocked))
    ⟨by decide, .object, _, _, rfl, trivial, by simp [hvalue],
      hblocked _ (by decide), rfl⟩
  -- no label is read by two of the applications
  have hbody := hparent.append (hresult.append hany (by rintro _ rfl; decide))
    (by rintro _ rfl; decide)
  refine @Clause.parallel_of_absorbs width heapSize (fun _ => True) _ _ _ hrespected hrespected
    rfl hbody ?_
  exact @Atom.RisesTo.held _ _ _ .object rfl trivial [.bv (.var Names.field width),
    .bv (.var Names.field width), .bv (GlobalHeap.namedKey width GlobalHeap.resultField),
    .bv (.var Names.read width)] (by simp [hvalue, hkey]) _ _
    (Formula.rises_readLabel (by decide)) _ (hblocked Names.readBlocked (by decide))

theorem rises_startFrame (receiver : InstanceId) (method : Method) :
    (env.startFrame receiver method).Rises env.width where
  registers := by
    refine List.forall₂_same.mpr fun cell hcell => ?_
    obtain ⟨slot, -, rfl⟩ := List.mem_map.mp hcell
    unfold Environment.startCell
    split
    · split
      · unfold Environment.parameterCell
        split
        · exact Cell.risesTo_globalRef (BvExpr.fixed_ofInt _) (Formula.rises_const _)
        · exact Cell.rises_mk ⟨BvExpr.sorted_var (Names.isVariable_value _ _),
            by simpa using Names.isLabel_value _⟩ (Formula.rises_const _) (Formula.fixed_const _)
            (Formula.fixed_var (Names.isVariable_isGlobal _ _) (Names.isLabel_isGlobal _))
      · exact Cell.rises_zero
    · exact Cell.rises_zero
  heap := by
    intro slot hslot
    rw [List.eq_of_mem_replicate hslot]
    exact HeapSlot.rises_empty
  heap_eq := rfl

theorem parallel_startClause {owner : Class} {method : Method}
    (hrespected : Names.Respected env.width (env.startClause owner method).vars) :
    (env.startClause owner method).Parallel env.width (Fact.Raised env.layout.size)
      (env.startClause owner method) := by
  have hhead : (env.startClause owner method).head.RisesTo env.width env.layout.size
      (fun _ => True) (env.startClause owner method).head :=
    .point _ List.length_replicate (rises_startFrame _ _)
  have hbody : ∃ owned, Absorbs env.layout.size owned (env.startClause owner method).body := by
    unfold Environment.startClause
    dsimp only
    split
    · exact ⟨_, @absorbs_fixed env.width _ _ (List.forall_mem_nil _)⟩
    · refine ⟨_, @absorbs_read env.width _ (fun _ => True) Names.fieldHigh (env.launchGuard owner)
        ⟨by decide, .launch, [.bv (GlobalHeap.idLiteral env.width owner.id),
          .bv (.var Names.anyValue env.width), .bv (.var Names.read env.width)], _, rfl, trivial,
          ?_, Formula.fixed_var (Names.isVariable_auxiliaryFlag _ _) (by decide), rfl⟩⟩
      exact List.forall_mem_cons.mpr ⟨(BvExpr.fixed_ofInt _).term, List.forall_mem_cons.mpr
        ⟨BvExpr.fixed_auxiliary.term, List.forall_mem_singleton.mpr BvExpr.fixed_auxiliary.term⟩⟩
  obtain ⟨owned, hbody⟩ := hbody
  exact Clause.parallel_of_absorbs hrespected hrespected rfl hbody hhead

theorem parallel_staticInitialValues :
    ∀ clause ∈ env.staticInitialValues program,
      clause.Parallel env.width (Fact.Raised heapSize) clause := by
  intro clause hclause
  have hrespected := (admissible_staticInitialValues env clause hclause).vars
  obtain ⟨decl, -, hclause⟩ := List.mem_flatMap.mp hclause
  obtain ⟨field, -, hclause⟩ := List.mem_filterMap.mp hclause
  obtain ⟨value, -, rfl⟩ := Option.map_eq_some_iff.mp hclause
  refine @Clause.parallel_of_absorbs env.width heapSize (fun _ => True) _ _ _ hrespected hrespected
    rfl (@absorbs_fixed env.width _ _ (List.forall_mem_nil _)) ?_
  exact @Atom.RisesTo.held _ _ _ .static rfl trivial [.int (.lit decl.id.toInt),
    .int (.lit field.id.toInt), .bv (.ofInt value.toInt env.width)]
    (by simp [Term.fixed_int, (BvExpr.fixed_ofInt _).term]) _ _ (Formula.rises_const _) _
    (Formula.fixed_const _)

theorem parallel_factClauses (hlayout : env.layout = program.layout) :
    List.Forall₂ (Clause.Parallel env.width (Fact.Raised env.layout.size))
      (env.factClauses program) (env.factClauses program) := by
  refine List.forall₂_same.mpr fun clause hclause => ?_
  have hrespected := (admissible_factClauses hlayout clause hclause).vars
  simp only [Environment.factClauses, List.mem_append] at hclause
  rcases hclause with ((hclause | hclause) | hclause) | hclause
  · split at hclause
    · rw [List.mem_singleton.mp hclause]
      exact parallel_activityResultRule
    · cases hclause
  · exact parallel_staticInitialValues clause hclause
  · split at hclause
    · have hrules : ∀ clause ∈ reachabilityRules env.layout env.width,
          clause.Admissible program env.width := hlayout ▸ admissible_reachabilityRules
      refine parallel_reachabilityRules unchanged_reach ?_
        (fun other hother => (hrules other hother).vars) clause hclause
      rintro relation hrelation ⟨name, args⟩ rfl
      exact .reach hrelation args
    · cases hclause
  · obtain ⟨⟨owner, method⟩, -, rfl⟩ := List.mem_map.mp hclause
    exact parallel_startClause hrespected

end Facts

/-! ## Queries -/

theorem Valuation.Admits.raise {env : Valuation} {vars : List (String × TermSort)}
    (h : env.Admits vars) (labels : String → Bool) : (env.raise labels).Admits vars := by
  intro v hv
  obtain ⟨value, hvalue, hsort⟩ := h v hv
  unfold Valuation.raise
  split
  · exact ⟨value.raise (labels v.1), by rw [hvalue]; rfl, hsort.raise _⟩
  · exact ⟨value, hvalue, hsort⟩

namespace StepContext

variable {cx : StepContext}

/-- A register that can be secret can be secret for raised facts. -/
theorem kept_of_mem_queries {query : Query} (h : query ∈ cx.emission.queries) :
    query.Kept (Fact.Raised cx.layout.size) := by
  obtain ⟨call, r, cell, hcell, rfl⟩ := exists_sinkQuery h
  rintro facts facts' hcovers ⟨env, hadmits, hholds⟩
  rw [condition_sinkQuery hcell, Formula.Holds, Formula.HoldAll, Formula.HoldAll,
    Formula.HoldAll] at hholds
  obtain ⟨hcurrent, hsecret, -⟩ := hholds
  obtain ⟨labels, hlabels⟩ := absorbs_current cx facts facts' hcovers env
    (List.forall_mem_singleton.mpr hcurrent)
  refine ⟨env.raise labels, hadmits.raise labels, ?_⟩
  rw [condition_sinkQuery hcell, Formula.Holds, Formula.HoldAll, Formula.HoldAll, Formula.HoldAll]
  refine ⟨hlabels labels (fun _ _ => rfl) _ (List.mem_singleton_self _), ?_, trivial⟩
  rw [Formula.Holds] at hsecret ⊢
  rw [Valuation.bool?_raise (Names.isLabel_of_isStateLabel (Names.isStateLabel_high _)) hsecret,
    Bool.true_or]

end StepContext

/-! ## Labels -/

namespace Labels

theorem mem_methodsOf {signatures : List String} {methods : List (ClassId × MethodId)}
    (h : methodsOf signatures = .ok methods) (method : ClassId × MethodId) :
    method ∈ methods ↔ ∃ signature ∈ signatures, parseSignature signature = .ok method := by
  obtain ⟨parsed, hparsed, hmethods⟩ := bind_eq_ok_iff.mp h
  cases hmethods
  rw [List.mem_eraseDups]
  have hmap := mapM_eq_ok_iff.mp hparsed
  constructor
  · intro hmem
    have hok : Except.ok method ∈ signatures.map parseSignature :=
      hmap ▸ List.mem_map_of_mem hmem
    obtain ⟨signature, hsignature, heq⟩ := List.mem_map.mp hok
    exact ⟨signature, hsignature, heq⟩
  · rintro ⟨signature, hsignature, heq⟩
    have hok : parseSignature signature ∈ parsed.map Except.ok :=
      hmap ▸ List.mem_map_of_mem hsignature
    obtain ⟨other, hother, hsame⟩ := List.mem_map.mp hok
    cases hsame.trans heq
    exact hother

/-- More signatures of sources give more sources, and the same sinks. -/
theorem isSource_mono {sources more sinks : List String} {labels labels' : Labels}
    (h : ofSignatures sources sinks = .ok labels) (h' : ofSignatures more sinks = .ok labels')
    (hsub : sources ⊆ more) :
    labels'.sinks = labels.sinks ∧
      ∀ owner method, labels.isSource owner method = true →
        labels'.isSource owner method = true := by
  obtain ⟨found, hfound, h⟩ := bind_eq_ok_iff.mp h
  obtain ⟨asked, hasked, h⟩ := bind_eq_ok_iff.mp h
  obtain ⟨found', hfound', h'⟩ := bind_eq_ok_iff.mp h'
  obtain ⟨asked', hasked', h'⟩ := bind_eq_ok_iff.mp h'
  cases h
  cases h'
  refine ⟨Except.ok.inj (hasked'.symm.trans hasked), fun owner method hsource => ?_⟩
  simp only [isSource, List.contains_iff_mem] at hsource ⊢
  obtain ⟨signature, hsignature, hparse⟩ := (mem_methodsOf hfound _).mp hsource
  exact (mem_methodsOf hfound' _).mpr ⟨signature, hsub hsignature, hparse⟩

end Labels

/-! ## Programs -/

namespace Program

variable {program : Program} {config : Config} {labels labels' : Labels} {sources : List String}

/-- No call of a program enters a method of the program, unless on another thread. -/
def EntersNoMethod (program : Program) : Prop :=
  ∀ call ∈ program.calls, call.remapped? (program.oracle {}) = none →
    call.targets (program.oracle {}) = []

instance (program : Program) : Decidable program.EntersNoMethod :=
  inferInstanceAs (Decidable (∀ call ∈ program.calls, call.remapped? (program.oracle {}) = none →
    call.targets (program.oracle {}) = []))

theorem EntersNoMethod.linkage_ne (h : program.EntersNoMethod) {call : CallSite}
    (hcall : call ∈ program.calls) (libraryRulesUsed : Bool) (targets : List CallTarget) :
    call.linkage (program.oracle labels) libraryRulesUsed ≠ .resolved targets := by
  intro hlinkage
  unfold CallSite.linkage at hlinkage
  split at hlinkage
  · cases hlinkage
  · rename_i hremapped
    have hnone : call.targets (program.oracle labels) = [] := h call hcall hremapped
    simp only [hnone, List.isEmpty_nil, if_true] at hlinkage
    split at hlinkage <;> cases hlinkage

/-- What an instruction contributes is raised when there are more sources. -/
theorem parallel_emission (hcalls : program.EntersNoMethod)
    (hsinks : labels'.sinks = labels.sinks)
    (hmore : ∀ owner method, labels.isSource owner method = true →
      labels'.isSource owner method = true)
    {entry : Class × Method} (hentry : entry ∈ program.methods)
    (hshape : entry.2.shape.WellFormed) {index : Nat} {instruction : Instruction}
    (hinstruction : entry.2.instructions[index]? = some instruction) :
    ((program.environment config labels).stepContext 0 entry.1 entry.2 index
        instruction).emission.Parallel config.width (Fact.Raised program.layout.size)
      ((program.environment { config with sources := sources } labels').stepContext 0 entry.1
        entry.2 index instruction).emission := by
  obtain ⟨found', sinks'⟩ := labels'
  cases hsinks
  let cx := (program.environment config labels).stepContext 0 entry.1 entry.2 index instruction
  have hmem : instruction ∈ entry.2.instructions := List.mem_of_getElem? hinstruction
  -- the step is one of the program under either list of sources
  have hstep : program.HasStep (program.environment config labels) cx :=
    ⟨rfl, hentry, hshape, hmem, rfl⟩
  have hstep' : program.HasStep
      (program.environment { config with sources := sources } ⟨found', labels.sinks⟩)
      (cx.withSources sources (Labels.isSource ⟨found', labels.sinks⟩)) :=
    ⟨rfl, hentry, hshape, hmem, rfl⟩
  -- more sources can only raise the result of a call
  have hcall : ∀ call, cx.instruction.Calls call → cx.RaisesTo (fun _ => True)
      (cx.compileCall call) ((cx.withSources sources
        (Labels.isSource ⟨found', labels.sinks⟩)).compileCall call) := fun call hcall =>
    StepContext.raisesTo_compileCall (fun _ => trivial) hcall
      (hcalls.linkage_ne (mem_calls hentry hmem hcall) _) (hmore _ _)
  have hmatched := StepContext.matched_emission hcall hstep.hasSite trivial
    (fun _ => trivial) (fun _ _ => trivial)
  refine hmatched.parallel (fun clause hclause clause' hclause' hrises => ?_)
    fun query hquery => StepContext.kept_of_mem_queries hquery
  exact hrises.parallel (hstep.emitted hclause).respected (hstep'.emitted hclause').respected

/-- A program that sends what it has asked two services for. -/
def asking : Program where
  classes :=
    [{ name := "La;"
       methods :=
         [{ name := "start()V", numRegisters := 2, numArguments := 0, isStatic := true,
            entryPoint := true
            instructions :=
              [{ pc := 0, mnemonic := "invoke-static", reference := some "Lb;->first()I" },
                { pc := 3, mnemonic := "move-result", registers := [0] },
                { pc := 4, mnemonic := "invoke-static", reference := some "Lb;->second()I" },
                { pc := 7, mnemonic := "move-result", registers := [1] },
                { pc := 8, mnemonic := "invoke-static", registers := [0, 1],
                  reference := some "Lc;->send(II)V" },
                { pc := 11, mnemonic := "return-void" }] }] }]

/-- One of the two services is a source. -/
def askingConfig : Config :=
  { Config.ofPreset .precise with
    bitvectorSize := 32, sources := ["Lb;->first()I"], sinks := ["Lc;->send(II)V"] }

end Program

end DalvikHorn
