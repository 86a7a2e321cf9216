import DalvikHorn.Proofs.Signatures

/-!
# Facts of a program

The facts of a program do not depend on how many identifiers have been asked for
when every object is named after its program point, and computing them does not
fail.  `Environment.factClauses` lists them; the entry points among them start in
the frames that `Environment.startFrame` describes slot by slot.
-/

namespace DalvikHorn

/-! ## Parameters -/

namespace FrameShape

variable {shape : FrameShape}

/-- The parameter that a slot holds on entry: in its register, or as its copy. -/
def parameterAt? (shape : FrameShape) (slot : Nat) : Option Nat :=
  if slot < shape.numRegisters then
    if shape.numRegisters - shape.numArguments ≤ slot then
      some (slot - (shape.numRegisters - shape.numArguments))
    else
      none
  else if slot = shape.numRegisters then none
  else some (slot - (shape.numRegisters + 1))

theorem parameterAt?_eq_some_iff (hshape : shape.WellFormed) {slot i : Nat}
    (hslot : slot < shape.slotCount) :
    shape.parameterAt? slot = some i ↔
      i < shape.numArguments ∧
        (slot = shape.argumentCopy i ∨ slot = shape.numRegisters - shape.numArguments + i) := by
  have hfits : shape.numArguments ≤ shape.numRegisters := hshape
  have hbound : slot < shape.numRegisters + shape.numArguments + 1 := hslot
  unfold parameterAt? argumentCopy
  split
  · split
    · rw [Option.some.injEq]
      omega
    · simp only [reduceCtorEq, false_iff]
      omega
  · split
    · simp only [reduceCtorEq, false_iff]
      omega
    · rw [Option.some.injEq]
      omega

end FrameShape

/-! ## Frames that parameters are passed in -/

/-- Writing one slot of a tabulated frame. -/
theorem set_map_range {α : Type} (f : Nat → α) (count r : Nat) (a : α) :
    ((List.range count).map f).set r a =
      (List.range count).map fun j => if j = r then a else f j := by
  refine List.ext_getElem? fun j => ?_
  rw [List.getElem?_set]
  by_cases hj : j < count
  · by_cases hr : r = j
    · simp [hr, hj]
    · simp [hr, Ne.symm hr, hj]
  · have hnone : (List.range count)[j]? = none := List.getElem?_eq_none (by simpa using hj)
    by_cases hr : r = j
    · simp [hr, hj]
    · simp [hr, hnone]

/-- A fold over the first numbers, when its state is known at each of them. -/
theorem foldlM_range_eq {σ : Type} {f : σ → Nat → Except Error σ} (state : Nat → σ) {count : Nat}
    (h : ∀ i < count, f (state i) i = .ok (state (i + 1))) :
    (List.range count).foldlM f (state 0) = .ok (state count) := by
  induction count with
  | zero => rfl
  | succ count ih =>
      rw [List.range_succ, List.foldlM_append, ih fun i hi => h i (Nat.lt_succ_of_lt hi)]
      change [count].foldlM f (state count) = _
      rw [List.foldlM_cons, h count (Nat.lt_succ_self count)]
      rfl

namespace FrameShape

variable {α : Type} {shape : FrameShape}

/-- The cell of a slot when the first `count` parameters of a frame have been passed. -/
def passedCell (shape : FrameShape) (zero : α) (argument : Nat → α) (count slot : Nat) : α :=
  match shape.parameterAt? slot with
  | some i => if i < count then argument i else zero
  | none => zero

/-- A frame in which the first `count` parameters have been passed, and all else is zero. -/
def passedFrame (shape : FrameShape) (zero : α) (argument : Nat → α) (count : Nat) : List α :=
  (List.range shape.slotCount).map (shape.passedCell zero argument count)

@[simp] theorem length_passedFrame (zero : α) (argument : Nat → α) (count : Nat) :
    (shape.passedFrame zero argument count).length = shape.slotCount := by
  rw [passedFrame, List.length_map, List.length_range]

theorem passedFrame_zero (zero : α) (argument : Nat → α) :
    shape.passedFrame zero argument 0 = List.replicate shape.slotCount zero := by
  have hcell : ∀ slot, shape.passedCell zero argument 0 slot = zero := by
    intro slot
    unfold passedCell
    split
    · rw [if_neg (Nat.not_lt_zero _)]
    · rfl
  rw [passedFrame, List.map_congr_left fun slot _ => hcell slot, List.map_const',
    List.length_range]

theorem passedCell_succ (zero : α) (argument : Nat → α) (hshape : shape.WellFormed)
    {count slot : Nat} (hslot : slot < shape.slotCount) (hcount : count < shape.numArguments) :
    shape.passedCell zero argument (count + 1) slot =
      if slot = shape.argumentCopy count then argument count
      else if slot = shape.numRegisters - shape.numArguments + count then argument count
      else shape.passedCell zero argument count slot := by
  have hhere := parameterAt?_eq_some_iff hshape hslot (i := count)
  -- only the slots of this one parameter differ
  by_cases hpassed : slot = shape.argumentCopy count ∨
      slot = shape.numRegisters - shape.numArguments + count
  · rw [passedCell, hhere.mpr ⟨hcount, hpassed⟩]
    dsimp only
    rw [if_pos (Nat.lt_succ_self count)]
    rcases hpassed with h | h
    · rw [if_pos h]
    · rw [if_pos h, ite_self]
  · rw [if_neg fun h => hpassed (.inl h), if_neg fun h => hpassed (.inr h)]
    unfold passedCell
    split
    · rename_i i hi
      have hne : i ≠ count := by
        rintro rfl
        exact hpassed (hhere.mp hi).2
      -- the other parameters are passed before or after, as they were
      by_cases hlt : i < count
      · rw [if_pos hlt, if_pos (Nat.lt_succ_of_lt hlt)]
      · rw [if_neg hlt, if_neg (by omega)]
    · rfl

/-- Passing one more parameter writes its register and its copy, which both exist. -/
theorem passedFrame_succ (argument : Nat → Cell) (zero : Cell) (hshape : shape.WellFormed)
    {count : Nat} (hcount : count < shape.numArguments) (heap : List HeapSlot) :
    ∃ r, shape.parameterRegister? count = some r ∧ ∃ entered,
      State.set ⟨shape.passedFrame zero argument count, heap⟩ r (argument count) = .ok entered ∧
        entered.set (shape.argumentCopy count) (argument count) =
          .ok ⟨shape.passedFrame zero argument (count + 1), heap⟩ := by
  have hfits : shape.numArguments ≤ shape.numRegisters := hshape
  have hregister : shape.numRegisters - shape.numArguments + count < shape.slotCount := by
    rw [slotCount]
    omega
  have hcopy : shape.argumentCopy count < shape.slotCount := by
    rw [slotCount, argumentCopy]
    omega
  refine ⟨_, if_pos hshape, _, if_pos (by rwa [length_passedFrame]), ?_⟩
  rw [State.set, if_pos (by rwa [List.length_set, length_passedFrame]), passedFrame,
    set_map_range, set_map_range, passedFrame,
    List.map_congr_left fun slot hslot =>
      passedCell_succ zero argument hshape (List.mem_range.mp hslot) hcount]

end FrameShape

/-! ## Start frames -/

namespace Environment

variable (env : Environment)

/-- The cell of a slot when the first `count` parameters of an entry point have been passed. -/
def startCell (receiver : InstanceId) (method : Method) (count slot : Nat) : Cell :=
  match method.shape.parameterAt? slot with
  | some i =>
      if i < count then
        env.parameterCell receiver method i
          (method.shape.numRegisters - method.shape.numArguments + i)
      else .zero env.width
  | none => .zero env.width

/-- The state in which an entry point starts: its parameters, zero elsewhere, and an empty
local heap. -/
def startFrame (receiver : InstanceId) (method : Method) : State where
  registers := (List.range method.shape.slotCount).map
    (env.startCell receiver method method.shape.numArguments)
  heap := List.replicate env.layout.size (.empty env.width)

variable {env}

/-- An entry point whose arguments fit into its registers starts. -/
theorem startState_eq (receiver : InstanceId) (owner : Class) {method : Method}
    (hshape : method.shape.WellFormed) :
    env.startState receiver owner method = .ok (env.startFrame receiver method) := by
  let argument := fun i => env.parameterCell receiver method i
    (method.shape.numRegisters - method.shape.numArguments + i)
  let frame := fun count => State.mk
    (method.shape.passedFrame (.zero env.width) argument count)
    (List.replicate env.layout.size (.empty env.width))
  have hzero : State.zeroed method.shape (List.replicate env.layout.size (.empty env.width))
      env.width = frame 0 :=
    congrArg (State.mk · _) (FrameShape.passedFrame_zero _ _).symm
  rw [startState, hzero]
  refine foldlM_range_eq frame fun count hcount => ?_
  obtain ⟨r, hr, entered, hregister, hcopy⟩ := FrameShape.passedFrame_succ argument
    (.zero env.width) hshape hcount (List.replicate env.layout.size (.empty env.width))
  have hcell : env.parameterCell receiver method count r = argument count := by
    rw [← Option.some.inj ((if_pos hshape).symm.trans hr)]
  simp only [hr, hcell, Bind.bind, Except.bind]
  rw [show (frame count).set r (argument count) = .ok entered from hregister]
  exact hcopy

theorem sorted_startCell (receiver : InstanceId) (method : Method) (count slot : Nat) :
    (env.startCell receiver method count slot).Sorted env.width := by
  unfold startCell
  split
  · split
    · unfold parameterCell
      split
      · exact Cell.sorted_globalRef (GlobalHeap.sorted_idLiteral _) (Formula.sorted_const _)
      · exact ⟨BvExpr.sorted_var (Names.isVariable_value _ _), Formula.sorted_const _,
          Formula.sorted_const _, Formula.sorted_var (Names.isVariable_isGlobal _ _)⟩
    · exact Cell.sorted_zero
  · exact Cell.sorted_zero

theorem sorted_startFrame (receiver : InstanceId) (method : Method) :
    (env.startFrame receiver method).Sorted method.shape env.layout.size env.width where
  registers_length := by simp [startFrame]
  registers := by
    intro cell hcell
    obtain ⟨slot, -, rfl⟩ := List.mem_map.mp hcell
    exact sorted_startCell receiver method _ slot
  heap_length := by simp [startFrame]
  heap := by
    intro slot hslot
    rw [List.eq_of_mem_replicate hslot]
    exact HeapSlot.sorted_empty

/-! ## The list of facts -/

variable (env)

/-- The guard of an entry point that waits for an intent. -/
def launchGuard (owner : Class) : Atom :=
  GlobalHeap.launch (GlobalHeap.idLiteral env.width owner.id) (.var Names.anyValue env.width)
    (.var Names.read env.width) (.var Names.fieldHigh) (.var Names.fieldBlocked)

/-- The clause that starts an entry point, whose receiver is named after its class. -/
def startClause (owner : Class) (method : Method) : Clause where
  body :=
    if owner.launcher || !env.config.intentSummaries then [] else [(env.launchGuard owner).toFormula]
  head := pointAtom ⟨owner.id, method.id, 0⟩ (env.startFrame (siteHash owner.id 0 0) method)

/-- The facts of a program. -/
def factClauses (program : Program) : List Clause :=
  (if env.config.intentSummaries then [GlobalHeap.activityResultRule env.width] else []) ++
    env.staticInitialValues program ++
    (if env.config.reachFilter then reachabilityRules env.layout env.width else []) ++
    program.entryPoints.map fun (owner, method) => env.startClause owner method

variable {env}

/-- A fact of a program is a rule of one of the global relations, or starts an entry point. -/
theorem factClause_cases {program : Program} {clause : Clause}
    (h : clause ∈ env.factClauses program) :
    (∃ relation : Relation, relation.isGlobal ∧ clause.head.relation = relation.name) ∨
      ∃ entry ∈ program.entryPoints, clause = env.startClause entry.1 entry.2 := by
  -- the rule of activity results, static values, reachability, and the entry points
  simp only [factClauses, List.mem_append] at h
  rcases h with ((h | h) | h) | h
  · split at h
    · rw [List.mem_singleton.mp h]
      exact .inl ⟨.object, rfl, rfl⟩
    · cases h
  · obtain ⟨decl, -, h⟩ := List.mem_flatMap.mp h
    obtain ⟨field, -, h⟩ := List.mem_filterMap.mp h
    obtain ⟨value, -, rfl⟩ := Option.map_eq_some_iff.mp h
    exact .inl ⟨.static, rfl, rfl⟩
  · split at h
    · simp only [reachabilityRules, List.cons_append, List.mem_cons, List.mem_append] at h
      rcases h with rfl | h | h
      · exact .inl ⟨.reach, rfl, rfl⟩
      · obtain ⟨site, -, h⟩ := List.mem_flatMap.mp h
        obtain ⟨k, -, rfl⟩ := List.mem_map.mp h
        exact .inl ⟨.reach, rfl, rfl⟩
      · obtain ⟨j, hj, rfl⟩ := List.mem_mapIdx.mp h
        exact .inl ⟨.filter, rfl, rfl⟩
    · cases h
  · obtain ⟨entry, hentry, rfl⟩ := List.mem_map.mp h
    exact .inr ⟨entry, hentry, rfl⟩

theorem entryClause_eq (owner : Class) {method : Method} (hshape : method.shape.WellFormed) :
    env.entryClause (siteHash owner.id 0 0) owner method = .ok (env.startClause owner method) := by
  unfold entryClause startClause
  rw [startState_eq _ _ hshape]
  dsimp only [Bind.bind, Except.bind]
  split <;> rfl

theorem entryClauses_eq (hnames : ∀ request, env.oracle.allocationId request = siteHash)
    {entries : List (Class × Method)} (hentries : ∀ entry ∈ entries, entry.2.shape.WellFormed)
    (requests : Nat) :
    env.entryClauses requests entries =
      .ok (entries.map fun (owner, method) => env.startClause owner method) := by
  induction entries generalizing requests with
  | nil => rfl
  | cons entry rest ih =>
      obtain ⟨owner, method⟩ := entry
      have hrest : ∀ other ∈ rest, other.2.shape.WellFormed := fun other hother =>
        hentries other (List.mem_cons_of_mem _ hother)
      simp only [entryClauses, hnames, entryClause_eq owner (hentries _ List.mem_cons_self),
        ih hrest, Bind.bind, Except.bind, Pure.pure, Except.pure, List.map_cons]

theorem facts_eq (hnames : ∀ request, env.oracle.allocationId request = siteHash)
    (requests : Nat) (program : Program) :
    env.facts requests program = .ok (env.factClauses program) := by
  have hentries : ∀ entry ∈ program.entryPoints, entry.2.shape.WellFormed := by
    rintro ⟨owner, method⟩ hentry
    have hfits := (List.mem_filter.mp hentry).2
    simp only [Bool.and_eq_true, decide_eq_true_eq] at hfits
    exact hfits.2
  unfold facts
  rw [entryClauses_eq hnames hentries]
  rfl

end Environment

/-! ## Admissible facts -/

section Admissible

variable {program : Program} {width : Nat}

theorem admissible_activityResultRule :
    (GlobalHeap.activityResultRule width).Admissible program width := by
  have hactivity : (BvExpr.var Names.className width).Sorted width := BvExpr.sorted_auxiliary
  have hparent : (BvExpr.var Names.field width).Sorted width := BvExpr.sorted_auxiliary
  have hvalue : (BvExpr.var Names.read width).Sorted width := BvExpr.sorted_auxiliary
  have hkey : ∀ name, (GlobalHeap.namedKey width name).Sorted width := fun _ =>
    GlobalHeap.sorted_idLiteral _
  have hflag : ∀ name [Names.AuxiliaryFlag name], (Formula.var name).Sorted width := fun _ _ =>
    Formula.sorted_auxiliary
  refine Clause.admissible (List.forall_mem_cons.mpr ⟨?_, List.forall_mem_cons.mpr
    ⟨?_, List.forall_mem_singleton.mpr ?_⟩⟩) ?_
  · exact (GlobalHeap.IsFact.object hactivity hactivity (hkey _) hparent (hflag _)
      (hflag _)).admissible
  · exact (GlobalHeap.IsFact.object hactivity hactivity (hkey _) hvalue (hflag _)
      (hflag _)).admissible
  · exact (GlobalHeap.IsFact.object hparent hparent BvExpr.sorted_auxiliary
      BvExpr.sorted_auxiliary (hflag _) (hflag _)).admissible
  · exact (GlobalHeap.IsFact.object hparent hparent (hkey _) hvalue (hflag _)
      (hflag _)).admissible

theorem admissible_reachAtom {source target : BvExpr} (hsource : source.Sorted width)
    (htarget : target.Sorted width) :
    (reachAtom source target
      (heapColumns (canonicalHeap Names.ownHeap program.layout.size width))).toFormula.Admissible
        program width := by
  have hheap : ∀ slot ∈ canonicalHeap Names.ownHeap program.layout.size width,
      slot.Sorted width := sorted_canonicalHeap Names.isHeap_ownHeap _
  refine Atom.admissible ?_ ⟨.reach, rfl, ?_⟩
  · exact List.forall_mem_cons.mpr ⟨hsource, List.forall_mem_cons.mpr
      ⟨htarget, sorted_heapColumns hheap⟩⟩
  · simp [Program.Signature, Atom.signature, reachAtom, Term.sort, hsource.width_eq,
      htarget.width_eq, sort_heapColumns hheap]

theorem admissible_reachabilityRules :
    ∀ clause ∈ reachabilityRules program.layout width, clause.Admissible program width := by
  have hsource : (BvExpr.var Names.read width).Sorted width := BvExpr.sorted_auxiliary
  have hid : ∀ id, (GlobalHeap.idLiteral width id).Sorted width := GlobalHeap.sorted_idLiteral
  have hslot : ∀ k, (HeapSlot.canonical Names.ownHeap k width).Sorted width :=
    HeapSlot.sorted_canonical Names.isHeap_ownHeap
  have hheap : ∀ slot ∈ canonicalHeap Names.ownHeap program.layout.size width,
      slot.Sorted width := sorted_canonicalHeap Names.isHeap_ownHeap _
  unfold reachabilityRules
  dsimp only
  -- the reflexive rule, the rules of the slots, and those of the sites
  refine List.forall_mem_cons.mpr ⟨?_, List.forall_mem_append.mpr ⟨?_, ?_⟩⟩
  · exact Clause.admissible (by simp [Clause.fact]) (admissible_reachAtom hsource hsource)
  · intro clause hclause
    obtain ⟨site, -, hclause⟩ := List.mem_flatMap.mp hclause
    obtain ⟨k, -, rfl⟩ := List.mem_map.mp hclause
    refine Clause.admissible (List.forall_mem_cons.mpr ⟨admissible_reachAtom hsource (hid _),
      List.forall_mem_cons.mpr ⟨(hslot k).cell.isLocal.admissible, List.forall_mem_singleton.mpr ?_⟩⟩)
      (admissible_reachAtom hsource (hslot k).cell.value)
    refine (Formula.sorted_any fun part hpart => ?_).admissible
    obtain ⟨id, hmem, rfl⟩ := List.mem_map.mp hpart
    obtain ⟨other, -, rfl⟩ := List.mem_map.mp hmem
    exact (hslot k).cell.value.eqTo (hid _)
  · intro clause hclause
    obtain ⟨j, hj, rfl⟩ := List.mem_mapIdx.mp hclause
    refine Clause.admissible (List.forall_mem_singleton.mpr (admissible_reachAtom hsource (hid _)))
      (Atom.admissible ?_ ⟨.filter, rfl, ?_⟩)
    · refine List.forall_mem_append.mpr ⟨List.forall_mem_cons.mpr ⟨hsource,
        List.forall_mem_cons.mpr ⟨(hslot _).free.negate, sorted_heapColumns hheap⟩⟩, ?_⟩
      intro column hcolumn
      obtain ⟨i, hi, rfl⟩ := List.mem_mapIdx.mp hcolumn
      exact Formula.sorted_const _
    · -- the marks are constants, one for each site
      simp only [Program.Signature, Atom.signature, List.map_append, List.map_cons, Term.sort,
        hsource.width_eq, sort_heapColumns hheap, length_canonicalHeap]
      congr 1
      refine List.ext_getElem (by simp) fun i hi hi' => ?_
      simp [Term.sort]

theorem admissible_staticInitialValues (env : Environment) :
    ∀ clause ∈ env.staticInitialValues program, clause.Admissible program env.width := by
  intro clause hclause
  obtain ⟨decl, -, hclause⟩ := List.mem_flatMap.mp hclause
  obtain ⟨field, -, hclause⟩ := List.mem_filterMap.mp hclause
  obtain ⟨value, -, rfl⟩ := Option.map_eq_some_iff.mp hclause
  exact Clause.admissible (by simp [Clause.fact]) (GlobalHeap.IsFact.static
    (BvExpr.sorted_ofInt _) (Formula.sorted_const _) (Formula.sorted_const _)).admissible

theorem Program.frame_of_mem {owner : Class} {method : Method}
    (hmem : (owner, method) ∈ program.methods) (hshape : method.shape.WellFormed) :
    program.Frame owner.id method.id method.shape :=
  .inl ⟨hshape, (owner, method), hmem, rfl, rfl, rfl⟩

theorem admissible_startClause {env : Environment} (hlayout : env.layout = program.layout)
    {owner : Class} {method : Method} (hentry : (owner, method) ∈ program.entryPoints) :
    (env.startClause owner method).Admissible program env.width := by
  obtain ⟨hmem, hfits⟩ := List.mem_filter.mp hentry
  have hshape : method.shape.WellFormed := by
    simp only [Bool.and_eq_true, decide_eq_true_eq] at hfits
    exact hfits.2
  refine Clause.admissible ?_ (admissible_pointAtom (Program.frame_of_mem hmem hshape)
    (hlayout ▸ Environment.sorted_startFrame _ _))
  unfold Environment.startClause
  dsimp only
  split
  · simp
  · refine List.forall_mem_singleton.mpr (GlobalHeap.IsFact.admissible ?_)
    exact .launch (GlobalHeap.sorted_idLiteral _) BvExpr.sorted_auxiliary
      BvExpr.sorted_auxiliary Formula.sorted_auxiliary
      Formula.sorted_auxiliary

theorem admissible_factClauses {env : Environment} (hlayout : env.layout = program.layout) :
    ∀ clause ∈ env.factClauses program, clause.Admissible program env.width := by
  unfold Environment.factClauses
  refine List.forall_mem_append.mpr ⟨List.forall_mem_append.mpr ⟨List.forall_mem_append.mpr
    ⟨?_, admissible_staticInitialValues env⟩, ?_⟩, ?_⟩
  · split
    · exact List.forall_mem_singleton.mpr admissible_activityResultRule
    · simp
  · split
    · exact hlayout ▸ admissible_reachabilityRules
    · simp
  · intro clause hclause
    obtain ⟨⟨owner, method⟩, hentry, rfl⟩ := List.mem_map.mp hclause
    exact admissible_startClause hlayout hentry

end Admissible

end DalvikHorn
