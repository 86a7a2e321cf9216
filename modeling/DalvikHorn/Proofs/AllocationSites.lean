import DalvikHorn.Proofs.Failures
import DalvikHorn.Proofs.Lifting

/-!
# The sites of allocations

Every allocation asks for the site of its own identifier, and the identifier of an
allocation is a 32-bit hash of its position.  The layout keeps the first allocation
that was registered under an identifier and ignores all later ones, so an
instruction may find the site of another allocation, with another type and other
fields.

* `typeAndFields?_layout`: the site of an identifier has the type and the fields of the
  first allocation of the program under this identifier.
* `siteHash_injective_pc` and its companions: the hash can be undone in each of its
  three components, because 31 is odd.  So two positions that share a site differ in
  at least two components.
* `exists_allocatesAt`: an instruction whose first register exists does allocate at
  the site of its identifier.
-/

namespace DalvikHorn

/-! ## Field tables -/

namespace FieldTable

/-- The identifiers of a table ascend. -/
def Ascending (table : FieldTable) : Prop :=
  table.Pairwise fun first second => first.1 < second.1

theorem mem_insert {field other : FieldId × Bool} {table : FieldTable}
    (h : other ∈ insert field table) : other = field ∨ other ∈ table := by
  induction table with
  | nil => exact .inl (List.mem_singleton.mp h)
  | cons first rest ih =>
      unfold insert at h
      split at h
      · exact List.mem_cons.mp h
      · split at h
        · exact (List.mem_cons.mp h).imp_right (List.mem_cons_of_mem _)
        · rcases List.mem_cons.mp h with rfl | hmem
          · exact .inr List.mem_cons_self
          · exact (ih hmem).imp_right (List.mem_cons_of_mem _)

theorem Ascending.insert {table : FieldTable} (h : table.Ascending) (field : FieldId × Bool) :
    (FieldTable.insert field table).Ascending := by
  induction table with
  | nil => exact List.pairwise_singleton _ _
  | cons first rest ih =>
      obtain ⟨hfirst, hrest⟩ := List.pairwise_cons.mp h
      -- the field is put in front of the first larger one, or replaces its equal
      unfold FieldTable.insert
      split
      · rename_i hlt
        refine List.pairwise_cons.mpr ⟨fun other hother => ?_, h⟩
        rcases List.mem_cons.mp hother with rfl | hmem
        · exact hlt
        · exact Int32.lt_trans hlt (hfirst other hmem)
      · rename_i hge
        split
        · rename_i heq
          exact List.pairwise_cons.mpr ⟨fun other hother => heq ▸ hfirst other hother, hrest⟩
        · rename_i hne
          refine List.pairwise_cons.mpr ⟨fun other hother => ?_, ih hrest⟩
          rcases mem_insert hother with rfl | hmem
          · exact Int32.lt_of_le_of_ne (Int32.not_lt.mp hge) (Ne.symm hne)
          · exact hfirst other hmem

theorem ascending_ofList (fields : List (FieldId × Bool)) : (ofList fields).Ascending :=
  List.foldlRecOn fields _ List.Pairwise.nil fun _ htable field _ => htable.insert field

/-- A field behind all others of a table is added at its end. -/
theorem insert_eq_append {field : FieldId × Bool} {table : FieldTable}
    (h : ∀ other ∈ table, other.1 < field.1) : insert field table = table ++ [field] := by
  induction table with
  | nil => rfl
  | cons first rest ih =>
      have hlt : first.1 < field.1 := h first List.mem_cons_self
      have hnot : ¬ field.1 < first.1 := Int32.lt_asymm hlt
      have hne : field.1 ≠ first.1 := fun heq => Int32.lt_irrefl (heq ▸ hlt)
      rw [insert, if_neg hnot, if_neg hne, ih fun other hother =>
        h other (List.mem_cons_of_mem _ hother)]
      rfl

/-- The table of an ascending list is the list itself. -/
theorem ofList_of_ascending {table : FieldTable} (h : table.Ascending) : ofList table = table := by
  have hfold : ∀ (rest done : FieldTable), (done ++ rest).Ascending →
      rest.foldl (fun table field => insert field table) done = done ++ rest := by
    intro rest
    induction rest with
    | nil => exact fun done _ => (List.append_nil done).symm
    | cons field rest ih =>
        intro done hdone
        have hlast : ∀ other ∈ done, other.1 < field.1 := fun other hother =>
          (List.pairwise_append.mp hdone).2.2 other hother field List.mem_cons_self
        rw [List.foldl_cons, insert_eq_append hlast, ih _ (by simpa using hdone)]
        simp
  exact hfold table [] h

end FieldTable

/-- The fields that a class table knows of a type are in the order of their slots. -/
theorem ClassTable.ofList_fieldLayout (table : ClassTable) (typeName : String) :
    FieldTable.ofList ((table.fieldLayout typeName).getD []) =
      (table.fieldLayout typeName).getD [] := by
  refine FieldTable.ofList_of_ascending ?_
  unfold fieldLayout
  dsimp only
  split
  · exact FieldTable.ascending_ofList _
  · unfold frameworkFields?
    cases frameworkTypes.lookup typeName with
    | none => exact List.Pairwise.nil
    | some fields => exact FieldTable.ascending_ofList _

/-! ## Identifiers -/

/-- The identifier of an allocation at a position. -/
def ProgramPoint.siteId (point : ProgramPoint) : InstanceId :=
  siteHash point.owner point.method point.pc

theorem hashStep_injective_left {hash hash' next : Int32}
    (h : hashStep hash next = hashStep hash' next) : hash = hash' := by
  have hproduct : hash * 31 = hash' * 31 := (Int32.add_left_inj next).mp h
  -- 31 is odd, so it has an inverse in 32-bit arithmetic
  have hinverse : ∀ x : Int32, x * 31 * (-1108378657) = x := by
    intro x
    rw [Int32.mul_assoc, show (31 : Int32) * (-1108378657) = 1 by decide, Int32.mul_one]
  rw [← hinverse hash, hproduct, hinverse]

theorem hashStep_injective_right {hash next next' : Int32}
    (h : hashStep hash next = hashStep hash next') : next = next' :=
  (Int32.add_right_inj _).mp h

theorem siteHash_injective_pc {owner : ClassId} {method : MethodId} {pc pc' : UInt32}
    (h : siteHash owner method pc = siteHash owner method pc') : pc = pc' := by
  have hpc : pc.toInt32 = pc'.toInt32 := hashStep_injective_right h
  exact congrArg Int32.toUInt32 hpc

theorem siteHash_injective_method {owner : ClassId} {method method' : MethodId} {pc : UInt32}
    (h : siteHash owner method pc = siteHash owner method' pc) : method = method' :=
  hashStep_injective_right (hashStep_injective_left h)

theorem siteHash_injective_owner {owner owner' : ClassId} {method : MethodId} {pc : UInt32}
    (h : siteHash owner method pc = siteHash owner' method pc) : owner = owner' :=
  hashStep_injective_right (hashStep_injective_left (hashStep_injective_left h))

/-- Two positions that agree in two of their components do not share an identifier. -/
theorem ProgramPoint.siteId_injective_of_two {first second : ProgramPoint}
    (htwo : first.owner = second.owner ∧ first.method = second.method ∨
      first.owner = second.owner ∧ first.pc = second.pc ∨
      first.method = second.method ∧ first.pc = second.pc)
    (h : first.siteId = second.siteId) : first = second := by
  obtain ⟨owner, method, pc⟩ := first
  obtain ⟨owner', method', pc'⟩ := second
  dsimp only [ProgramPoint.siteId] at htwo h
  rcases htwo with ⟨rfl, rfl⟩ | ⟨rfl, rfl⟩ | ⟨rfl, rfl⟩
  · rw [siteHash_injective_pc h]
  · rw [siteHash_injective_method h]
  · rw [siteHash_injective_owner h]

/-! ## The layout of a program -/

namespace HeapLayout

theorem id_of_site? {layout : HeapLayout} {id : InstanceId} {site : AllocationSite}
    (h : layout.site? id = some site) : site.id = id := by
  simpa using List.find?_some h

/-- A registration is found under its identifier unless there was an earlier one. -/
theorem site?_addSite (layout : HeapLayout) (id other : InstanceId) (typeName : String)
    (classId : ClassId) (fields : List (FieldId × Bool)) :
    (layout.addSite other typeName classId fields).site? id =
      (layout.site? id).or (if other = id then
        some ⟨other, typeName, classId, layout.size, .ofList fields⟩ else none) := by
  unfold addSite
  split
  · rename_i site hsite
    by_cases heq : other = id
    · rw [← heq, hsite, Option.some_or]
    · rw [if_neg heq, Option.or_none]
  · unfold site?
    rw [List.find?_append, List.find?_singleton]
    by_cases heq : other = id
    · simp [heq]
    · simp [heq]

/-- What a site has from the allocation that registered it: the type and its fields. -/
def typeAndFields? (layout : HeapLayout) (id : InstanceId) : Option (String × FieldTable) :=
  (layout.site? id).map fun site => (site.typeName, site.fields)

/-- Of a list of registrations the first one under an identifier counts, and all of them come
after those that are already there. -/
theorem typeAndFields?_foldl {α : Type} {add : HeapLayout → α → HeapLayout}
    (idOf : α → InstanceId) (typeOf : α → String) (classOf : α → ClassId)
    (fieldsOf : α → List (FieldId × Bool))
    (hadd : ∀ layout entry, add layout entry =
      layout.addSite (idOf entry) (typeOf entry) (classOf entry) (fieldsOf entry))
    (entries : List α) (layout : HeapLayout) (id : InstanceId) :
    (entries.foldl add layout).typeAndFields? id =
      (layout.typeAndFields? id).or ((entries.find? (idOf · == id)).map fun first =>
        (typeOf first, .ofList (fieldsOf first))) := by
  induction entries generalizing layout with
  | nil => simp
  | cons entry rest ih =>
      rw [List.foldl_cons, ih, hadd, List.find?_cons]
      unfold typeAndFields?
      rw [site?_addSite]
      by_cases hname : idOf entry = id
      · cases layout.site? id <;> simp [hname]
      · have hother : (idOf entry == id) = false := by simpa using hname
        cases layout.site? id <;> simp [hname, hother]

end HeapLayout

namespace Program

/-- The first allocation of a program under an identifier. -/
def firstAllocation? (program : Program) (id : InstanceId) : Option (ProgramPoint × String) :=
  program.localAllocations.find? (·.1.siteId == id)

/-- The fields of a type in the order of their slots, none when the type is unknown. -/
def fieldsOf (program : Program) (typeName : String) : FieldTable :=
  (program.classTable.fieldLayout typeName).getD []

variable {program : Program}

/-- The site of an identifier has the type and the fields of the first allocation under it. -/
theorem typeAndFields?_layout (program : Program) (id : InstanceId) :
    program.layout.typeAndFields? id =
      (program.firstAllocation? id).map fun first => (first.2, program.fieldsOf first.2) := by
  have hfold := HeapLayout.typeAndFields?_foldl
    (fun entry : (ProgramPoint × String) × Nat => entry.1.1.siteId) (fun entry => entry.1.2)
    (fun entry => textHash entry.1.2) (fun entry => program.fieldsOf entry.1.2) (fun _ _ => rfl)
    program.localAllocations.zipIdx HeapLayout.empty id
  -- the requests are counted but not used
  have hfirst : program.firstAllocation? id =
      (program.localAllocations.zipIdx.find? (·.1.1.siteId == id)).map (·.1) := by
    have hmap := List.find?_map (p := fun entry : ProgramPoint × String => entry.1.siteId == id)
      (f := Prod.fst) (l := program.localAllocations.zipIdx)
    rw [List.zipIdx_map_fst] at hmap
    exact hmap
  rw [hfirst, Option.map_map]
  refine Eq.trans hfold ?_
  simp only [fieldsOf, ClassTable.ofList_fieldLayout]
  rfl

end Program

/-! ## Instructions that allocate -/

/-- An instruction allocates at a site: the layout has the site under the identifier of the
instruction, and control goes on with a state in which the first register refers to the object
of the site and all slots of the site belong to a new object. -/
structure StepContext.AllocatesAt (cx : StepContext) (site : AllocationSite) : Prop where
  known : cx.layout.site? cx.allocation = some site
  clears : ∃ (destination : UInt32) (post : State),
    cx.instruction.registers[0]? = some destination ∧ cx.step [] post ∈ cx.emission.clauses ∧
      post.registers[destination.toNat]? = some (.localRef (cx.idLiteral site.id)) ∧
      ∀ k ∈ site.slots, post.heap[k]? = some (.allocated cx.width)

namespace State

/-- A state in which a register refers to a new object at a site. -/
def allocateAt (width : Nat) (site : AllocationSite) (destination : Nat) (id : BvExpr)
    (state : State) : Except Error State := do
  let assigned ← state.set destination (.localRef id)
  assigned.clearSite width site

/-- A heap in which some slots belong to a new object. -/
def clearedHeap (width : Nat) (slots : List Nat) (heap : List HeapSlot) : List HeapSlot :=
  heap.mapIdx fun k slot => if k ∈ slots then .allocated width else slot

theorem getElem?_clearedHeap (width : Nat) (slots : List Nat) (heap : List HeapSlot) (k : Nat) :
    (clearedHeap width slots heap)[k]? =
      heap[k]?.map fun slot => if k ∈ slots then .allocated width else slot := by
  rw [clearedHeap, List.getElem?_mapIdx]

/-- Slots that are there can be cleared. -/
theorem clearSlots_eq (width : Nat) {slots : List Nat} (state : State)
    (hslots : ∀ k ∈ slots, k < state.heap.length) :
    slots.foldlM (fun (post : State) k => post.setSlot k (.allocated width)) state =
      .ok { state with heap := clearedHeap width slots state.heap } := by
  induction slots generalizing state with
  | nil =>
      have hsame : clearedHeap width [] state.heap = state.heap := by
        refine List.ext_getElem? fun k => ?_
        rw [getElem?_clearedHeap]
        simp
      rw [hsame]
      rfl
  | cons first rest ih =>
      have hfirst : state.setSlot first (.allocated width) =
          .ok { state with heap := state.heap.set first (.allocated width) } :=
        if_pos (hslots first List.mem_cons_self)
      rw [List.foldlM_cons, hfirst]
      refine (ih { state with heap := state.heap.set first (.allocated width) }
        fun k hk => by simpa using hslots k (List.mem_cons_of_mem _ hk)).trans ?_
      refine congrArg (fun heap => Except.ok { state with heap := heap })
        (List.ext_getElem? fun k => ?_)
      -- slot by slot: the first of the slots, or one that is cleared later
      rw [getElem?_clearedHeap, getElem?_clearedHeap]
      by_cases hk : first = k
      · subst hk
        have hlt := hslots first List.mem_cons_self
        rw [List.getElem?_set_self hlt, List.getElem?_eq_getElem hlt]
        simp
      · rw [List.getElem?_set_ne hk]
        simp [Ne.symm hk]

/-- The state after an allocation, when the destination and the slots of the site are there. -/
theorem allocateAt_eq (width : Nat) {site : AllocationSite} {destination : Nat} {state : State}
    (hdestination : destination < state.registers.length)
    (hslots : ∀ k ∈ site.slots, k < state.heap.length) (id : BvExpr) :
    state.allocateAt width site destination id =
      .ok { registers := state.registers.set destination (.localRef id)
            heap := clearedHeap width site.slots state.heap } := by
  have hset : state.set destination (.localRef id) =
      .ok { state with registers := state.registers.set destination (.localRef id) } :=
    if_pos hdestination
  rw [allocateAt, hset]
  exact clearSlots_eq width _ hslots

end State

/-- All slots of a site are in the heap. -/
theorem HeapLayout.Registered.lt_of_mem_slots {layout : HeapLayout} (hlayout : layout.Registered)
    {site : AllocationSite} (hsite : site ∈ layout.sites) {k : Nat} (hk : k ∈ site.slots) :
    k < layout.size := by
  have hheader := hlayout.headerSlot_lt hsite
  obtain ⟨i, hi, rfl⟩ := List.mem_range'.mp hk
  rw [AllocationSite.headerSlot] at hheader
  omega

/-- Objects are allocated by one instruction, and intents are not on the local heap. -/
theorem Instruction.of_localAllocation? {instruction : Instruction} {typeName : String}
    (h : instruction.localAllocation? = some typeName) :
    instruction.opcode = .newInstance ∧ instruction.reference = some typeName ∧
      typeName ≠ intentClass := by
  unfold localAllocation? at h
  split at h
  · rename_i hopcode
    obtain ⟨hreference, hintent⟩ := Option.filter_eq_some_iff.mp h
    exact ⟨hopcode, hreference, by simpa using hintent⟩
  · cases h

namespace StepContext

variable {cx : StepContext}

theorem compileOrSkip_of_newInstance (hopcode : cx.instruction.opcode = .newInstance)
    {clauses : List Clause} (h : cx.compileNewInstance = .ok clauses) :
    cx.compileOrSkip = .ok (.ofClauses clauses) := by
  rw [compileOrSkip, compile, hopcode, h]
  rfl

section Compiled

variable (hlayout : cx.layout.Registered) {typeName : String}
  (hallocation : cx.instruction.localAllocation? = some typeName) {destination : UInt32}
  (hdestination : cx.instruction.registers[0]? = some destination)
  (hbound : destination.toNat < cx.shape.slotCount) {site : AllocationSite}
  (hsite : cx.layout.site? cx.allocation = some site)

include hlayout hallocation hdestination hbound hsite

/-- The clauses of an allocation: the step, what is in the site, a lift that depends on the fields
of the site, and the entry of the initialiser of the type. -/
theorem exists_compileNewInstance :
    ∃ plain flushed lifted,
      (cx.pre.mapRegisters (cx.shape.numRegisters + 1) fun _ cell =>
          cell.release (cx.idLiteral cx.allocation)).allocateAt cx.width site destination.toNat
            (cx.idLiteral cx.allocation) = .ok plain ∧
      flushSite cx.width site (cx.body []) cx.pre = .ok flushed ∧
      cx.liftIfAnyLocal
          (site.fieldSlots.map fun k => (HeapSlot.canonical Names.ownHeap k cx.width).cell)
          [(HeapSlot.canonical Names.ownHeap site.headerSlot cx.width).free.negate]
          (·.allocateAt cx.width site destination.toNat (cx.idLiteral cx.allocation)) =
        .ok lifted ∧
      cx.compileNewInstance =
        .ok (cx.step [] plain :: flushed ++ lifted ++ cx.initializerEntry (textHash typeName)) := by
  have hmem : site ∈ cx.layout.sites := List.mem_of_find?_eq_some hsite
  obtain ⟨-, hreference, hother⟩ := Instruction.of_localAllocation? hallocation
  have hregisters : destination.toNat < cx.pre.registers.length := by
    rw [cx.sorted_pre.registers_length]
    exact hbound
  have hplain := @State.allocateAt_eq cx.width site destination.toNat
    (cx.pre.mapRegisters (cx.shape.numRegisters + 1) fun _ cell =>
      cell.release (cx.idLiteral cx.allocation))
    (by simpa [State.mapRegisters] using hregisters)
    (fun k hk => (hlayout.lt_of_mem_slots hmem hk).trans_eq cx.sorted_pre.heap_length.symm)
    (cx.idLiteral cx.allocation)
  obtain ⟨flushed, hflushed, -⟩ := exists_flushSite hlayout [] hmem
  have hfields : (site.fieldSlots.mapM fun k => do return (← cx.pre.slot k).cell) =
      Except.ok (site.fieldSlots.map fun k =>
        (HeapSlot.canonical Names.ownHeap k cx.width).cell) := by
    rw [mapM_eq_ok_iff, List.map_map]
    refine List.map_congr_left fun k hk => ?_
    rw [slot_eq (hlayout.lt_of_mem_fieldSlots hmem hk)]
    rfl
  have hlifted : ∀ fields guards, ∃ lifted, cx.liftIfAnyLocal fields guards
      (·.allocateAt cx.width site destination.toNat (cx.idLiteral cx.allocation)) =
        .ok lifted := by
    intro fields guards
    unfold liftIfAnyLocal
    dsimp only
    split
    · -- no field can be local, so nothing is lifted
      exact ⟨[], rfl⟩
    · have hpost := @State.allocateAt_eq cx.width site destination.toNat
        (cx.pre.promote cx.layout cx.width cx.shape.numRegisters)
        (by simpa [State.promote, State.withHeap, State.mapRegisters] using hregisters)
        (fun k hk => (hlayout.lt_of_mem_slots hmem hk).trans_eq List.length_replicate.symm)
        (cx.idLiteral cx.allocation)
      obtain ⟨clauses, hclauses, -⟩ := exists_lift hlayout hpost
      exact ⟨clauses, hclauses⟩
  -- the guards are the flags of the fields and that the header is in use
  obtain ⟨lifted, hlifted⟩ := hlifted
    (site.fieldSlots.map fun k => (HeapSlot.canonical Names.ownHeap k cx.width).cell)
    [(HeapSlot.canonical Names.ownHeap site.headerSlot cx.width).free.negate]
  refine ⟨_, flushed, lifted, hplain, hflushed, hlifted, ?_⟩
  have hhandler : ∀ plain, (cx.pre.mapRegisters (cx.shape.numRegisters + 1) fun _ cell =>
        cell.release (cx.idLiteral cx.allocation)).allocateAt cx.width site destination.toNat
          (cx.idLiteral cx.allocation) = .ok plain →
      cx.compileNewInstance = .ok (cx.step [] plain :: flushed ++ lifted ++
        cx.initializerEntry (textHash typeName)) := by
    -- each part was shown to succeed, so the handler puts them together
    intro plain hplain
    simp only [compileNewInstance, Instruction.getReference, hreference, if_neg hother,
      instructionRegister_eq hdestination, hsite, slot_eq (hlayout.headerSlot_lt hmem), hflushed,
      State.allocateAt, Bind.bind, Except.bind] at hplain hfields hlifted ⊢
    simp only [hplain, hfields, hlifted]
    rfl
  exact hhandler _ hplain

/-- An instruction whose first register is there allocates at the site of its identifier. -/
theorem allocatesAt_of_site? : cx.AllocatesAt site := by
  have hmem : site ∈ cx.layout.sites := List.mem_of_find?_eq_some hsite
  obtain ⟨plain, flushed, lifted, hplain, -, -, hcompile⟩ :=
    exists_compileNewInstance hlayout hallocation hdestination hbound hsite
  obtain ⟨hopcode, -⟩ := Instruction.of_localAllocation? hallocation
  have hregisters : destination.toNat < (cx.pre.mapRegisters (cx.shape.numRegisters + 1)
      fun _ cell => cell.release (cx.idLiteral cx.allocation)).registers.length := by
    simpa [State.mapRegisters, cx.sorted_pre.registers_length] using hbound
  have hslots : ∀ k ∈ site.slots, k < cx.pre.heap.length := fun k hk =>
    (hlayout.lt_of_mem_slots hmem hk).trans_eq cx.sorted_pre.heap_length.symm
  -- the update succeeds in one way only
  have heq := Except.ok.inj ((State.allocateAt_eq cx.width hregisters hslots _).symm.trans hplain)
  refine ⟨hsite, destination, plain, hdestination, ?_, ?_, fun k hk => ?_⟩
  · rw [emission, compileOrSkip_of_newInstance hopcode hcompile]
    refine List.mem_filter.mpr ⟨List.mem_append_left _ (List.mem_append_left _ List.mem_cons_self),
      ?_⟩
    -- its guards are not decided, so the clause is kept
    refine congrArg not (Clause.isVacuous_eq_false (fun _ => none)
      (List.forall_mem_singleton.mpr ?_))
    rw [Atom.toFormula, Formula.eval]
    decide
  · rw [HeapLayout.id_of_site? hsite, ← heq]
    exact List.getElem?_set_self hregisters
  · rw [← heq]
    refine (State.getElem?_clearedHeap ..).trans ?_
    rw [State.mapRegisters, List.getElem?_eq_getElem (hslots k hk), Option.map_some, if_pos hk]

end Compiled

end StepContext

namespace Program

variable {program : Program} {config : Config} {labels : Labels}

theorem mem_contexts {env : Environment} {owner : Class} {method : Method}
    (hmem : (owner, method) ∈ program.methods) (hshape : method.shape.WellFormed) {index : Nat}
    {instruction : Instruction} (hinstruction : method.instructions[index]? = some instruction) :
    env.stepContext 0 owner method index instruction ∈ program.contexts env := by
  obtain ⟨hindex, rfl⟩ := List.getElem?_eq_some_iff.mp hinstruction
  refine List.mem_flatMap.mpr ⟨(owner, method), hmem, ?_⟩
  rw [methodContexts, if_pos hshape]
  exact List.mem_mapIdx.mpr ⟨index, hindex, rfl⟩

theorem HasStep.siteId_eq {env : Environment} {cx : StepContext} (h : program.HasStep env cx) :
    cx.allocation = cx.point.siteId :=
  h.allocation_eq

/-- Every allocation of an instruction whose first register is there has a site, which it shares
with the first allocation under its identifier. -/
theorem HasStep.exists_allocatesAt {cx : StepContext}
    (hstep : program.HasStep (program.environment config labels) cx) {typeName : String}
    (hallocation : cx.instruction.localAllocation? = some typeName) {destination : UInt32}
    (hdestination : cx.instruction.registers[0]? = some destination)
    (hbound : destination.toNat < cx.shape.slotCount) :
    ∃ site first, cx.AllocatesAt site ∧ program.firstAllocation? cx.point.siteId = some first ∧
      site.typeName = first.2 ∧ site.fields = program.fieldsOf first.2 := by
  obtain ⟨site, hsite⟩ := hstep.hasSite typeName hallocation
  have hlayout : cx.layout.Registered := hstep.layout_eq ▸ program.registered_heapLayout _
  have hfirst := program.typeAndFields?_layout cx.point.siteId
  rw [← hstep.layout_eq, ← hstep.siteId_eq, HeapLayout.typeAndFields?, hsite] at hfirst
  obtain ⟨first, hfound, heq⟩ := Option.map_eq_some_iff.mp hfirst.symm
  simp only [Prod.mk.injEq] at heq
  refine ⟨site, first, ?_, hstep.siteId_eq ▸ hfound, heq.1.symm, heq.2.symm⟩
  exact StepContext.allocatesAt_of_site? hlayout hallocation hdestination hbound hsite

/-- Two instructions allocate at one site exactly when they have one identifier. -/
theorem HasStep.site_eq_iff {cx cx' : StepContext}
    (hstep : program.HasStep (program.environment config labels) cx)
    (hstep' : program.HasStep (program.environment config labels) cx') {site site' : AllocationSite}
    (hsite : cx.AllocatesAt site) (hsite' : cx'.AllocatesAt site') :
    site = site' ↔ cx.point.siteId = cx'.point.siteId := by
  have hknown := hsite.known
  have hknown' := hsite'.known
  rw [hstep.layout_eq, hstep.siteId_eq] at hknown
  rw [hstep'.layout_eq, hstep'.siteId_eq] at hknown'
  constructor
  · rintro rfl
    rw [← HeapLayout.id_of_site? hknown, HeapLayout.id_of_site? hknown']
  · intro hid
    rw [hid] at hknown
    exact Option.some.inj (hknown.symm.trans hknown')

/-- An allocation uses the site of the first allocation of the program under its identifier, with
the type and the fields of that one: those of its own type whenever all allocations under the
identifier are of this type.  Two allocations share a site exactly when they share an identifier,
and then their positions are the same or differ in at least two components. -/
theorem allocation_sites (program : Program) (config : Config) (labels : Labels) :
    (∀ cx ∈ program.contexts (program.environment config labels), ∀ typeName destination,
      cx.instruction.localAllocation? = some typeName →
      cx.instruction.registers[0]? = some destination → destination.toNat < cx.shape.slotCount →
      ∃ site first, cx.AllocatesAt site ∧ program.firstAllocation? cx.point.siteId = some first ∧
        site.typeName = first.2 ∧
        site.fields = ((program.oracle labels).fieldLayout first.2).getD [] ∧
        ((∀ other ∈ program.localAllocations, other.1.siteId = cx.point.siteId →
            other.2 = typeName) →
          site.typeName = typeName ∧
            site.fields = ((program.oracle labels).fieldLayout typeName).getD [])) ∧
    ∀ cx ∈ program.contexts (program.environment config labels),
      ∀ cx' ∈ program.contexts (program.environment config labels), ∀ site site',
        cx.AllocatesAt site → cx'.AllocatesAt site' →
          (site = site' ↔ cx.point.siteId = cx'.point.siteId) ∧
          (site = site' →
            cx.owner.id = cx'.owner.id ∧ cx.method.id = cx'.method.id ∨
              cx.owner.id = cx'.owner.id ∧ cx.instruction.pc = cx'.instruction.pc ∨
              cx.method.id = cx'.method.id ∧ cx.instruction.pc = cx'.instruction.pc →
            cx.point = cx'.point) := by
  refine ⟨fun cx hcx typeName destination hallocation hdestination hbound => ?_,
    fun cx hcx cx' hcx' site site' hsite hsite' => ?_⟩
  · have hstep := hasStep_of_mem_contexts hcx
    obtain ⟨site, first, hsite, hfirst, htype, hfields⟩ :=
      hstep.exists_allocatesAt hallocation hdestination hbound
    refine ⟨site, first, hsite, hfirst, htype, hfields, fun hsame => ?_⟩
    have hid : first.1.siteId = cx.point.siteId := by simpa using List.find?_some hfirst
    have hown : first.2 = typeName := hsame first (List.mem_of_find?_eq_some hfirst) hid
    rw [hown] at htype hfields
    exact ⟨htype, hfields⟩
  · have hiff := (hasStep_of_mem_contexts hcx).site_eq_iff (hasStep_of_mem_contexts hcx') hsite
      hsite'
    exact ⟨hiff, fun hshared htwo => ProgramPoint.siteId_injective_of_two htwo (hiff.mp hshared)⟩

/-! ## Two methods that share a site

The signatures `f()I` and `f()J` end in neighbouring letters, so their hashes differ by one, and an
allocation 31 positions further in the first method has the identifier of one in the second. -/

/-- The methods `f()I` and `f()J` of a class, which allocate objects of different types. -/
def overloaded : Program where
  classes :=
    [{ name := "La;"
       methods :=
         [{ name := "f()I", numRegisters := 2, numArguments := 0, isStatic := true
            entryPoint := true
            instructions :=
              [{ pc := 31, mnemonic := "new-instance", registers := [0], reference := some "Lp;" },
                { pc := 33, mnemonic := "new-instance", registers := [1],
                  reference := some "Lq;" }] },
           { name := "f()J", numRegisters := 1, numArguments := 0, isStatic := true
             entryPoint := true
             instructions :=
               [{ pc := 0, mnemonic := "new-instance", registers := [0],
                  reference := some "Lq;" }] }] },
      { name := "Lp;", fields := [{ name := "x", type := "I" }] },
      { name := "Lq;", fields := [{ name := "y", type := "I" }, { name := "z", type := "La;" }] }]

/-- The context of an instruction of the program, by the indices of its method and its own. -/
def overloadedContext (method index : Nat) : StepContext :=
  let owner := overloaded.classes.headD ⟨"", none, [], [], [], true⟩
  let chosen := owner.methods.getD method ⟨"", 0, 0, true, false, []⟩
  (overloaded.environment sampleConfig {}).stepContext 0 owner chosen index
    (chosen.instructions.getD index ⟨0, "", [], none, none, none, none, none⟩)

theorem mem_overloadedContexts :
    overloadedContext 0 0 ∈ overloaded.contexts (overloaded.environment sampleConfig {}) ∧
      overloadedContext 0 1 ∈ overloaded.contexts (overloaded.environment sampleConfig {}) ∧
      overloadedContext 1 0 ∈ overloaded.contexts (overloaded.environment sampleConfig {}) :=
  ⟨mem_contexts (by decide +kernel) (by decide +kernel) rfl,
    mem_contexts (by decide +kernel) (by decide +kernel) rfl,
    mem_contexts (by decide +kernel) (by decide +kernel) rfl⟩

/-- The allocation of `f()J` uses the site of another allocation, of another type and with other
fields than its own. -/
theorem allocation_sites_shared :
    ∃ first ∈ overloaded.contexts (overloaded.environment sampleConfig {}),
      ∃ second ∈ overloaded.contexts (overloaded.environment sampleConfig {}),
        first.point ≠ second.point ∧ second.instruction.localAllocation? = some "Lq;" ∧
        ∃ site, first.AllocatesAt site ∧ second.AllocatesAt site ∧ site.typeName ≠ "Lq;" ∧
          site.fields ≠ ((overloaded.oracle {}).fieldLayout "Lq;").getD [] := by
  obtain ⟨hfirst, -, hsecond⟩ := mem_overloadedContexts
  have hlayout : ∀ method index, (overloadedContext method index).layout.Registered :=
    fun _ _ => overloaded.registered_heapLayout (overloaded.oracle {})
  obtain ⟨site, hsite⟩ : ∃ site, overloaded.layout.site? (overloadedContext 0 0).allocation =
      some site ∧ site.typeName ≠ "Lq;" ∧
        site.fields ≠ ((overloaded.oracle {}).fieldLayout "Lq;").getD [] :=
    ⟨_, rfl, by decide +kernel, by decide +kernel⟩
  have hshared : overloaded.layout.site? (overloadedContext 1 0).allocation = some site := by
    rw [show (overloadedContext 1 0).allocation = (overloadedContext 0 0).allocation by
      decide +kernel]
    exact hsite.1
  have htypes : (overloadedContext 0 0).instruction.localAllocation? = some "Lp;" ∧
      (overloadedContext 1 0).instruction.localAllocation? = some "Lq;" := by decide +kernel
  refine ⟨overloadedContext 0 0, hfirst, overloadedContext 1 0, hsecond, by decide +kernel,
    htypes.2, site, ?_, ?_, hsite.2⟩
  · exact StepContext.allocatesAt_of_site? (hlayout 0 0) htypes.1 rfl (by decide +kernel) hsite.1
  · exact StepContext.allocatesAt_of_site? (hlayout 1 0) htypes.2 rfl (by decide +kernel) hshared

theorem allocation_sites_overloaded :
    (∃ site, (overloadedContext 1 0).AllocatesAt site ∧ site.typeName = "Lp;") ∧
      ∃ site, (overloadedContext 0 1).AllocatesAt site ∧ site.typeName = "Lq;" ∧
        site.fields = ((overloaded.oracle {}).fieldLayout "Lq;").getD [] := by
  obtain ⟨-, hown, hshared⟩ := mem_overloadedContexts
  obtain ⟨hsites, -⟩ := allocation_sites overloaded sampleConfig {}
  constructor
  · obtain ⟨site, first, hsite, hfirst, htype, -⟩ :=
      hsites _ hshared "Lq;" 0 (by decide +kernel) rfl (by decide +kernel)
    have hfound : (overloaded.firstAllocation? (overloadedContext 1 0).point.siteId).map (·.2) =
        some "Lp;" := by decide +kernel
    rw [hfirst] at hfound
    exact ⟨site, hsite, htype.trans (Option.some.inj hfound)⟩
  · obtain ⟨site, first, hsite, -, -, -, hsame⟩ :=
      hsites _ hown "Lq;" 1 (by decide +kernel) rfl (by decide +kernel)
    exact ⟨site, hsite, hsame (by decide +kernel)⟩

end Program

end DalvikHorn
