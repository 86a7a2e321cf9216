import Mathlib.Data.List.Forall2
import DalvikHorn.Proofs.LibraryStores
import DalvikHorn.Proofs.Simulation

/-!
# Lifting loses nothing

A lift is made of two parts.  `flushAll` writes the occupied sites of a symbolic state to
the global heap, and `State.promote` goes on with references that are all global and a
heap that is empty.  Both are stated here for any state, not only for the canonical one
that instructions start from, since the flags of a state may have been folded.

* Every clause of a site derives one fact: the contents of one field when the header of
  the site is occupied, and nothing when it is free (`HeapLayout.records_derive`).
* A second lift changes nothing and writes nothing (`State.denotes_promote_promote_iff`,
  `isVacuous_of_flushAll_promote`).

## Strategy

* **Clauses.**  Registration keeps all slots of a site in the heap, so the clauses of a
  site can be listed (`AllocationSite.records`).  They differ in their heads only.
* **Valuations.**  The header has a truth value once the state has a value, and then its
  negation holds exactly when the header is occupied, whatever the relations contain
  (`Formula.holds_iff_of_eval`).
-/

namespace DalvikHorn

/-! ## What a clause derives -/

namespace Formula

variable {facts : Fact → Prop} {env : Valuation}

mutual

/-- A formula that has a truth value holds exactly when it is true, also when it applies
relations. -/
theorem holds_iff_of_eval :
    ∀ (formula : Formula) {value : Bool}, formula.eval env = some value →
      (formula.Holds facts env ↔ value = true)
  | .app _ _, _, h => by
      -- an application has no value, so nothing is claimed about it
      rw [eval] at h
      cases h
  | .and parts, _, h => by
      rw [eval] at h
      rw [Formula.Holds]
      exact holdAll_iff_of_evalAll parts h
  | .or parts, _, h => by
      rw [eval] at h
      rw [Formula.Holds]
      exact holdsAny_iff_of_evalAny parts h
  | .const _, _, h => by
      rw [eval] at h
      rw [Formula.Holds, Option.some.inj h]
  | .var _, _, h => by
      rw [eval] at h
      rw [Formula.Holds, h, Option.some.injEq]
  | .not inner, _, h => by
      -- a negation holds exactly when its formula is evaluated to false
      rw [eval] at h
      obtain ⟨value, hvalue, rfl⟩ := Option.map_eq_some_iff.mp h
      rw [Formula.Holds, hvalue]
      cases value <;> simp
  | .compare _ _ _, _, h => by
      rw [Formula.Holds, h, Option.some.injEq]

theorem holdAll_iff_of_evalAll :
    ∀ (parts : List Formula) {value : Bool}, evalAll env parts = some value →
      (HoldAll facts env parts ↔ value = true)
  | [], _, h => by
      rw [evalAll] at h
      simp [HoldAll, ← Option.some.inj h]
  | part :: rest, true, h => by
      rw [evalAll, kleeneAnd_eq_true_iff] at h
      rw [HoldAll, holds_iff_of_eval part h.1, holdAll_iff_of_evalAll rest h.2, and_self]
  | part :: rest, false, h => by
      -- one part that is false decides the conjunction, also when the others have no value
      rw [evalAll, kleeneAnd_eq_false_iff] at h
      rw [HoldAll]
      rcases h with hpart | hrest
      · simp [holds_iff_of_eval part hpart]
      · simp [holdAll_iff_of_evalAll rest hrest]

theorem holdsAny_iff_of_evalAny :
    ∀ (parts : List Formula) {value : Bool}, evalAny env parts = some value →
      (HoldsAny facts env parts ↔ value = true)
  | [], _, h => by
      rw [evalAny] at h
      simp [HoldsAny, ← Option.some.inj h]
  | part :: rest, true, h => by
      rw [evalAny, kleeneOr_eq_true_iff] at h
      rw [HoldsAny]
      rcases h with hpart | hrest
      · simp [holds_iff_of_eval part hpart]
      · simp [holdsAny_iff_of_evalAny rest hrest]
  | part :: rest, false, h => by
      rw [evalAny, kleeneOr_eq_false_iff] at h
      rw [HoldsAny, holds_iff_of_eval part h.1, holdsAny_iff_of_evalAny rest h.2, or_self]

end

end Formula

theorem Atom.Denotes.unique {env : Valuation} {atom : Atom} {first second : Fact}
    (hfirst : atom.Denotes env first) (hsecond : atom.Denotes env second) : first = second := by
  cases first
  cases second
  exact Fact.mk.injEq .. ▸ ⟨hfirst.relation_eq.symm.trans hsecond.relation_eq,
    map_some_injective (hfirst.args_eq.symm.trans hsecond.args_eq)⟩

/-- What stands in the second of two related lists has a counterpart in the first. -/
theorem exists_mem_left_of_forall₂ {α β : Type} {related : α → β → Prop} {first : List α}
    {second : List β} (h : List.Forall₂ related first second) {b : β} (hb : b ∈ second) :
    ∃ a ∈ first, related a b := by
  induction h with
  | nil => cases hb
  | @cons a other _ _ hrelated _ ih =>
      rcases List.mem_cons.mp hb with rfl | hmem
      · exact ⟨a, List.mem_cons_self, hrelated⟩
      · obtain ⟨found, hfound, hrelated⟩ := ih hmem
        exact ⟨found, List.mem_cons_of_mem _ hfound, hrelated⟩

/-- A clause derives a fact under a valuation: its body holds for some facts, and its head denotes
the fact. -/
structure Clause.Derives (facts : Fact → Prop) (env : Valuation) (clause : Clause) (fact : Fact) :
    Prop where
  body : ∀ part ∈ clause.body, part.Holds facts env
  head : clause.head.Denotes env fact

/-- A clause that derives something is not dropped when clauses are emitted. -/
theorem Clause.Derives.isVacuous_eq_false {facts : Fact → Prop} {env : Valuation} {clause : Clause}
    {fact : Fact} (h : clause.Derives facts env fact) : clause.isVacuous = false := by
  apply Clause.isVacuous_eq_false env
  intro part hpart hfalse
  have hholds := h.body part hpart
  rw [Formula.holds_iff_of_eval part hfalse] at hholds
  cases hholds

/-- Whether the guards of a clause, which are the parts of its body without relations, are true. -/
def Clause.Enabled (env : Valuation) (clause : Clause) : Prop :=
  ∀ part ∈ clause.body, part.applications = [] → part.eval env = some true

/-- A clause that starts at an instruction is enabled when its guards are true. -/
theorem StepContext.enabled_derive_iff {cx : StepContext} {env : Valuation} {guards : List Formula}
    {head : Atom} (hguards : ∀ guard ∈ guards, guard.applications = []) :
    (cx.derive guards head).Enabled env ↔ ∀ guard ∈ guards, guard.eval env = some true := by
  constructor
  · intro henabled guard hguard
    exact henabled guard (List.mem_cons_of_mem _ hguard) (hguards guard hguard)
  · intro htrue part hpart hplain
    rcases List.mem_cons.mp hpart with rfl | hguard
    · simp [Atom.toFormula, Formula.applications] at hplain
    · exact htrue part hguard

/-! ## The clauses of a site -/

/-- What a slot of a heap holds. -/
def cellAt (heap : List SlotValue) (k : Nat) : CellValue :=
  (heap.getD k ⟨⟨0, false, false, false⟩, true⟩).cell

theorem cellAt_eq {heap : List SlotValue} {k : Nat} {slot : SlotValue} (h : heap[k]? = some slot) :
    cellAt heap k = slot.cell := by
  rw [cellAt, List.getD_eq_getElem?_getD, h, Option.getD_some]

namespace AllocationSite

variable (site : AllocationSite) (width : Nat)

/-- What a site leaves on the global heap: one fact per field, with what is in the slot of the
field, or one fact about some field when the fields of the type are not known. -/
def contents (heap : List SlotValue) (field : Nat) (blocked : Bool) : List Fact :=
  if site.hasLayout then
    (site.fields.zip site.fieldSlots).map fun entry =>
      objectFact width site.classId site.id entry.1.1 (cellAt heap entry.2)
  else
    [unknownFact width site.classId site.id field blocked]

/-- The header of a site is in the heap and not free. -/
def Occupied (heap : List SlotValue) : Prop :=
  ∃ header, heap[site.headerSlot]? = some header ∧ header.free = false

/-- The clause that writes a value to a field of a site. -/
def record (body : List Formula) (header : HeapSlot) (field value : BvExpr)
    (high blocked : Formula) : Clause where
  body := body ++ [header.free.negate]
  head := GlobalHeap.object (GlobalHeap.idLiteral width site.classId)
    (GlobalHeap.idLiteral width site.id) field value high blocked

/-- The clauses that write a site to the global heap. -/
def records (body : List Formula) (state : State) : List Clause :=
  let record := site.record width body (state.heap.getD site.headerSlot default)
  if site.hasLayout then
    (site.fields.zip site.fieldSlots).map fun entry =>
      let slot := state.heap.getD entry.2 default
      record (GlobalHeap.idLiteral width entry.1.1) slot.cell.value slot.cell.high
        slot.cell.blocked
  else
    [record (.var Names.field width) (.zero width) .ff (.var Names.fieldBlocked)]

variable {site width}

/-- The clauses of a site have the same body. -/
theorem body_of_mem_records {body : List Formula} {state : State} {clause : Clause}
    (hclause : clause ∈ site.records width body state) :
    clause.body = body ++ [(state.heap.getD site.headerSlot default).free.negate] := by
  unfold records at hclause
  dsimp only at hclause
  split at hclause
  · obtain ⟨entry, -, rfl⟩ := List.mem_map.mp hclause
    rfl
  · rw [List.mem_singleton.mp hclause]
    rfl

theorem record_derives_iff {body : List Formula} {header : HeapSlot} {field value : BvExpr}
    {high blocked : Formula} {facts : Fact → Prop} {env : Valuation} {free : Bool}
    (hfree : header.free.eval env = some free) {contents : Fact}
    (hhead : (site.record width body header field value high blocked).head.Denotes env contents)
    (fact : Fact) :
    (site.record width body header field value high blocked).Derives facts env fact ↔
      (∀ part ∈ body, part.Holds facts env) ∧ free = false ∧ fact = contents := by
  have hoccupied : header.free.negate.Holds facts env ↔ free = false := by
    have heval : header.free.negate.eval env = some !free := by rw [Formula.eval_negate, hfree]; rfl
    rw [Formula.holds_iff_of_eval _ heval, Bool.not_eq_true']
  constructor
  · intro h
    obtain ⟨hbody, hheader⟩ := List.forall_mem_append.mp h.body
    exact ⟨hbody, hoccupied.mp (List.forall_mem_singleton.mp hheader), h.head.unique hhead⟩
  · rintro ⟨hbody, hheader, rfl⟩
    refine ⟨List.forall_mem_append.mpr ⟨hbody, ?_⟩, hhead⟩
    exact List.forall_mem_singleton.mpr (hoccupied.mpr hheader)

end AllocationSite

theorem State.slot_eq_getD {state : State} {k : Nat} (hk : k < state.heap.length) :
    state.slot k = .ok (state.heap.getD k default) := by
  rw [State.slot, List.getD_eq_getElem?_getD, List.getElem?_eq_getElem hk]
  rfl

/-- A slot of a symbolic state has the value of the slot in the state that it denotes. -/
theorem State.Denotes.exists_slot {env : Valuation} {state : State} {value : StateValue}
    (h : state.Denotes env value) {k : Nat} (hk : k < state.heap.length) :
    ∃ slot, value.heap[k]? = some slot ∧ (state.heap.getD k default).eval env = some slot := by
  have hslot := List.getElem?_eq_getElem hk
  obtain ⟨slot, hvalue, heval⟩ := getElem?_of_map_eq h.heap hslot
  refine ⟨slot, hvalue, ?_⟩
  rwa [List.getD_eq_getElem?_getD, hslot, Option.getD_some]

namespace HeapLayout

variable {layout : HeapLayout} {width : Nat} {body : List Formula} {state : State}
  (hlayout : layout.Registered) (hheap : state.heap.length = layout.size)

include hlayout hheap

theorem flushSite_eq {site : AllocationSite} (hsite : site ∈ layout.sites) :
    flushSite width site body state = .ok (site.records width body state) := by
  have hheader := State.slot_eq_getD (hheap ▸ hlayout.headerSlot_lt hsite)
  unfold flushSite AllocationSite.records
  simp only [hheader, Bind.bind, Except.bind]
  split
  · rw [mapM_eq_ok_iff, List.map_map]
    refine List.map_congr_left fun entry hentry => ?_
    have hk := hlayout.lt_of_mem_fieldSlots hsite (List.of_mem_zip hentry).2
    rw [State.slot_eq_getD (hheap ▸ hk)]
    rfl
  · rfl

theorem flushAll_eq :
    flushAll layout width body state =
      .ok (layout.sites.map (·.records width body state)).flatten := by
  have hsites : layout.sites.mapM (fun site => flushSite width site body state) =
      .ok (layout.sites.map (·.records width body state)) := by
    rw [mapM_eq_ok_iff, List.map_map]
    exact List.map_congr_left fun site hsite => flushSite_eq hlayout hheap hsite
  rw [flushAll, hsites]
  rfl

/-- The clauses of a site derive its contents when its header is occupied, each clause one fact,
and nothing when the header is free. -/
theorem records_derive (width : Nat) (body : List Formula) (facts : Fact → Prop)
    {site : AllocationSite} (hsite : site ∈ layout.sites) {env : Valuation}
    {value : StateValue} {field : Nat} {blocked : Bool} (hstate : state.Denotes env value)
    (hfield : env.bits? Names.field = some field)
    (hblocked : env.bool? Names.fieldBlocked = some blocked) :
    ∃ header, value.heap[site.headerSlot]? = some header ∧
      List.Forall₂ (fun clause contents => ∀ fact, clause.Derives facts env fact ↔
          (∀ part ∈ body, part.Holds facts env) ∧ header.free = false ∧ fact = contents)
        (site.records width body state) (site.contents width value.heap field blocked) := by
  obtain ⟨header, hheader, heval⟩ := hstate.exists_slot (hheap ▸ hlayout.headerSlot_lt hsite)
  have hfree := (HeapSlot.eval_eq_some_iff.mp heval).2
  refine ⟨header, hheader, ?_⟩
  unfold AllocationSite.records AllocationSite.contents
  dsimp only
  split
  · rw [List.forall₂_map_left_iff, List.forall₂_map_right_iff, List.forall₂_same]
    intro entry hentry
    have hk := hlayout.lt_of_mem_fieldSlots hsite (List.of_mem_zip hentry).2
    obtain ⟨slot, hslot, hvalue⟩ := hstate.exists_slot (hheap ▸ hk)
    rw [cellAt_eq hslot]
    exact AllocationSite.record_derives_iff hfree (GlobalHeap.denotes_object hvalue width _ _ _)
  · have hunknown : (site.record width body (state.heap.getD site.headerSlot default)
        (.var Names.field width) (.zero width) .ff (.var Names.fieldBlocked)).head.Denotes env
          (unknownFact width site.classId site.id field blocked) := by
      refine ⟨rfl, ?_⟩
      simp [AllocationSite.record, GlobalHeap.object, unknownFact, Term.eval, BvExpr.eval,
        Formula.eval, hfield, hblocked, GlobalHeap.idLiteral, BvExpr.ofInt, BvExpr.zero]
    exact .cons (AllocationSite.record_derives_iff hfree hunknown) .nil

/-- What a site derives under a valuation. -/
theorem exists_records_derives_iff (width : Nat) (body : List Formula) (facts : Fact → Prop)
    {site : AllocationSite} (hsite : site ∈ layout.sites) {env : Valuation}
    {value : StateValue} {field : Nat} {blocked : Bool} (hstate : state.Denotes env value)
    (hfield : env.bits? Names.field = some field)
    (hblocked : env.bool? Names.fieldBlocked = some blocked) {fact : Fact} :
    (∃ clause ∈ site.records width body state, clause.Derives facts env fact) ↔
      (∀ part ∈ body, part.Holds facts env) ∧ site.Occupied value.heap ∧
        fact ∈ site.contents width value.heap field blocked := by
  obtain ⟨header, hheader, hrecords⟩ :=
    records_derive hlayout hheap width body facts hsite hstate hfield hblocked
  constructor
  · rintro ⟨clause, hclause, hderives⟩
    obtain ⟨contents, hcontents, hiff⟩ := exists_mem_left_of_forall₂ hrecords.flip hclause
    obtain ⟨hbody, hoccupied, rfl⟩ := (hiff fact).mp hderives
    exact ⟨hbody, ⟨header, hheader, hoccupied⟩, hcontents⟩
  · rintro ⟨hbody, ⟨found, hfound, hoccupied⟩, hcontents⟩
    cases hheader.symm.trans hfound
    obtain ⟨clause, hclause, hiff⟩ := exists_mem_left_of_forall₂ hrecords hcontents
    exact ⟨clause, hclause, (hiff fact).mpr ⟨hbody, hoccupied, rfl⟩⟩

end HeapLayout

/-! ## Any field -/

/-- A list of variables does not mention the field and the location that a site without known
fields leaves open. -/
def Names.LeavesFieldOpen (vars : List (String × TermSort)) : Prop :=
  ∀ v ∈ vars, v.1 ≠ field ∧ v.1 ≠ fieldBlocked

/-- The valuation that gives values to the field and the location of a site without known fields. -/
def Valuation.withField (env : Valuation) (field : Nat) (blocked : Bool) : Valuation :=
  (env.bind Names.field (.bits field)).bind Names.fieldBlocked (.bool blocked)

/-- The variables of a state. -/
def State.vars (state : State) : List (String × TermSort) :=
  Term.varsList (frameColumns state.registers ++ heapColumns state.heap)

section OpenFields

variable {env : Valuation} {field : Nat} {blocked : Bool}

theorem Valuation.withField_eq {vars : List (String × TermSort)}
    (hvars : Names.LeavesFieldOpen vars) {v : String × TermSort} (hv : v ∈ vars) :
    env v.1 = env.withField field blocked v.1 := by
  obtain ⟨hfield, hblocked⟩ := hvars v hv
  rw [withField, bind, if_neg hblocked, bind, if_neg hfield]

theorem Valuation.bits?_withField (env : Valuation) (field : Nat) (blocked : Bool) :
    (env.withField field blocked).bits? Names.field = some field :=
  rfl

theorem Valuation.bool?_withField (env : Valuation) (field : Nat) (blocked : Bool) :
    (env.withField field blocked).bool? Names.fieldBlocked = some blocked :=
  rfl

theorem Formula.Holds.withField {facts : Fact → Prop} {body : List Formula}
    (h : ∀ part ∈ body, part.Holds facts env) (hvars : Names.LeavesFieldOpen (varsList body)) :
    ∀ part ∈ body, part.Holds facts (env.withField field blocked) := fun part hpart =>
  Holds.congr part (fun _ hv =>
    Valuation.withField_eq hvars (mem_varsList.mpr ⟨part, hpart, hv⟩)) (h part hpart)

theorem State.Denotes.withField {state : State} {value : StateValue} (h : state.Denotes env value)
    (hvars : Names.LeavesFieldOpen state.vars) :
    state.Denotes (env.withField field blocked) value := by
  -- a state has the value of the columns of its relation, at whatever point
  have hcolumns : (pointAtom ⟨0, 0, 0⟩ state).Denotes (env.withField field blocked)
      (pointFact ⟨0, 0, 0⟩ value) :=
    (denotes_pointAtom_iff.mpr ⟨value, h, rfl⟩).congr fun _ hv => Valuation.withField_eq hvars hv
  obtain ⟨other, hother, heq⟩ := denotes_pointAtom_iff.mp hcolumns
  have hlength : value.registers.length = other.registers.length :=
    (length_eq_of_map_eq h.registers).trans (length_eq_of_map_eq hother.registers).symm
  obtain ⟨-, rfl⟩ := pointFact_injective hlength heq
  exact hother

end OpenFields

/-! ## Moving the references -/

/-- A second promotion of a cell changes no value. -/
theorem Cell.eval_promote_promote (env : Valuation) (cell : Cell) :
    cell.promote.promote.eval env = cell.promote.eval env := by
  have hglobal : cell.promote.promote.isGlobal.eval env = cell.promote.isGlobal.eval env := by
    rw [Cell.promote, Formula.eval_either]
    exact kleeneOr_false _
  rw [Cell.eval, Cell.eval, hglobal]
  rfl

namespace State

variable (layout : HeapLayout) (width numRegisters : Nat)

theorem promote_promote_registers (state : State) (r : Nat) :
    ((state.promote layout width numRegisters).promote layout width numRegisters).registers[r]? =
      state.registers[r]?.map fun cell =>
        if r < numRegisters + 1 then cell.promote.promote else cell := by
  rw [getElem?_promote, getElem?_promote, Option.map_map]
  refine congrArg (Option.map · _) (funext fun cell => ?_)
  dsimp only [Function.comp]
  split <;> rfl

/-- A second lift denotes the same state, under every valuation. -/
theorem denotes_promote_promote_iff (state : State) (env : Valuation) (value : StateValue) :
    ((state.promote layout width numRegisters).promote layout width numRegisters).Denotes env
        value ↔
      (state.promote layout width numRegisters).Denotes env value := by
  have hregisters : ((state.promote layout width numRegisters).promote layout width
      numRegisters).registers.map (Cell.eval env) =
        (state.promote layout width numRegisters).registers.map (Cell.eval env) := by
    refine List.ext_getElem? fun r => ?_
    rw [List.getElem?_map, List.getElem?_map, promote_promote_registers, getElem?_promote,
      Option.map_map, Option.map_map]
    refine congrArg (Option.map · _) (funext fun cell => ?_)
    dsimp only [Function.comp]
    split
    · exact cell.eval_promote_promote env
    · rfl
  constructor
  · intro h
    exact ⟨hregisters ▸ h.registers, h.heap⟩
  · intro h
    exact ⟨hregisters.trans h.registers, h.heap⟩

/-- A canonical state is promoted to the same terms again. -/
theorem promote_promote_canonical (shape : FrameShape) :
    ((canonical shape layout.size width).promote layout width numRegisters).promote layout width
        numRegisters =
      (canonical shape layout.size width).promote layout width numRegisters := by
  refine congrArg (State.mk · _) (List.ext_getElem? fun r => ?_)
  refine (promote_promote_registers layout width numRegisters _ r).trans
    (Eq.trans ?_ (getElem?_promote layout width numRegisters _ r).symm)
  rw [canonical, List.getElem?_map]
  cases (List.range shape.slotCount)[r]? with
  | none => rfl
  | some i => rfl

end State

/-! ## Nothing is left -/

theorem Formula.conjuncts?_concat_ff (parts : List Formula) :
    conjuncts? (parts ++ [.ff]) = none := by
  induction parts with
  | nil => rfl
  | cons part rest ih =>
      rw [List.cons_append]
      unfold conjuncts?
      -- the head is dropped, opened or kept, and in each case the rest is nothing
      split <;> simp_all

/-- The clauses of a site that nothing has been stored in derive nothing, and fold to that. -/
theorem AllocationSite.isVacuous_of_mem_records {site : AllocationSite} {width : Nat}
    {body : List Formula} {state : State}
    (hfree : state.heap[site.headerSlot]? = some (.empty width)) {clause : Clause}
    (hclause : clause ∈ site.records width body state) :
    clause.isVacuous = true := by
  have hheader : state.heap.getD site.headerSlot default = .empty width := by
    rw [List.getD_eq_getElem?_getD, hfree, Option.getD_some]
  have hbody : clause.body = body ++ [.ff] := by
    rw [body_of_mem_records hclause, hheader]
    rfl
  rw [Clause.isVacuous, Clause.bodyFormula, Formula.all, hbody, Formula.conjuncts?_concat_ff]
  rfl

namespace HeapLayout

variable {layout : HeapLayout}

/-- All that a promoted state would write folds to nothing. -/
theorem isVacuous_of_flushAll_promote (hlayout : layout.Registered) (width numRegisters : Nat)
    (body : List Formula) (state : State) :
    ∃ clauses, flushAll layout width body (state.promote layout width numRegisters) = .ok clauses ∧
      ∀ clause ∈ clauses, clause.isVacuous = true := by
  refine ⟨_, flushAll_eq hlayout List.length_replicate, fun clause hclause => ?_⟩
  obtain ⟨clauses, hclauses, hmem⟩ := List.mem_flatten.mp hclause
  obtain ⟨site, hsite, rfl⟩ := List.mem_map.mp hclauses
  refine AllocationSite.isVacuous_of_mem_records ?_ hmem
  rw [State.heap_promote, List.getElem?_replicate, if_pos (hlayout.headerSlot_lt hsite)]

end HeapLayout

/-- A cell whose references have moved to the global heap. -/
structure Cell.Moved (cell moved : Cell) : Prop where
  value_eq : moved.value = cell.value
  high_eq : moved.high = cell.high
  isLocal_eval : ∀ env, moved.isLocal.eval env = some false
  isGlobal_eval : ∀ env,
    moved.isGlobal.eval env = kleeneOr (cell.isGlobal.eval env) (cell.isLocal.eval env)

theorem Cell.moved_promote (cell : Cell) : cell.Moved cell.promote where
  value_eq := rfl
  high_eq := rfl
  isLocal_eval := fun _ => rfl
  isGlobal_eval := fun env => Formula.eval_either env cell.isGlobal cell.isLocal

namespace HeapLayout

variable {layout : HeapLayout}

/-- A lift loses nothing.  Under every valuation for which the body holds, the clauses of every site
derive its contents when its header is occupied, one fact per clause, and nothing when it is free;
the fact of a site without known fields is about any field.  The promoted state keeps all values,
labels and argument copies, its references are global, and its heap is empty.  A second lift changes
nothing, and all its clauses fold to nothing. -/
theorem lifting_lossless (hlayout : layout.Registered) (width numRegisters : Nat)
    (body : List Formula) {state : State} (hheap : state.heap.length = layout.size) :
    (∃ flushed : List (List Clause), flushAll layout width body state = .ok flushed.flatten ∧
      ∀ facts env value, state.Denotes env value → (∀ part ∈ body, part.Holds facts env) →
        (∀ field blocked, env.bits? Names.field = some field →
          env.bool? Names.fieldBlocked = some blocked →
            List.Forall₂ (fun site clauses => ∃ header,
                value.heap[site.headerSlot]? = some header ∧
                  List.Forall₂ (fun clause contents => ∀ fact,
                      clause.Derives facts env fact ↔ header.free = false ∧ fact = contents)
                    clauses (site.contents width value.heap field blocked))
              layout.sites flushed) ∧
        (Names.LeavesFieldOpen (Formula.varsList body) → Names.LeavesFieldOpen state.vars →
          ∀ site ∈ layout.sites, site.fields = [] → ∀ header,
            value.heap[site.headerSlot]? = some header → header.free = false →
              ∀ field blocked, ∃ clause ∈ flushed.flatten,
                clause.Derives facts (env.withField field blocked)
                  (unknownFact width site.classId site.id field blocked))) ∧
    (∀ r : Nat, (state.promote layout width numRegisters).registers[r]?.isSome =
        state.registers[r]?.isSome ∧
      ∀ cell, state.registers[r]? = some cell → ∃ moved,
        (state.promote layout width numRegisters).registers[r]? = some moved ∧
          (r ≤ numRegisters → cell.Moved moved) ∧ (numRegisters < r → moved = cell)) ∧
    (state.promote layout width numRegisters).heap = List.replicate layout.size (.empty width) ∧
    (∀ env value, state.Denotes env value →
      (state.promote layout width numRegisters).Denotes env (value.escaped numRegisters)) ∧
    (∀ env value, ((state.promote layout width numRegisters).promote layout width
        numRegisters).Denotes env value ↔
      (state.promote layout width numRegisters).Denotes env value) ∧
    (∀ shape, state = .canonical shape layout.size width →
      (state.promote layout width numRegisters).promote layout width numRegisters =
        state.promote layout width numRegisters) ∧
    ∃ clauses, flushAll layout width body (state.promote layout width numRegisters) = .ok clauses ∧
      ∀ clause ∈ clauses, clause.isVacuous = true := by
  refine ⟨⟨_, flushAll_eq hlayout hheap, fun facts env value hstate hbody => ⟨?_, ?_⟩⟩, fun r => ?_,
    rfl, fun env value hstate => ?_, fun env value => ?_, ?_, ?_⟩
  · -- the sites are flushed one by one
    intro field blocked hfield hblocked
    rw [List.forall₂_map_right_iff, List.forall₂_same]
    intro site hsite
    obtain ⟨header, hheader, hrecords⟩ :=
      records_derive hlayout hheap width body facts hsite hstate hfield hblocked
    refine ⟨header, hheader, hrecords.imp fun clause contents hclause fact => ?_⟩
    rw [hclause fact, and_iff_right hbody]
  · -- an object without fields is unknown, so any field may be named
    intro hopen hopen' site hsite hfields header hheader hoccupied field blocked
    have hcontents : unknownFact width site.classId site.id field blocked ∈
        site.contents width value.heap field blocked := by
      simp [AllocationSite.contents, AllocationSite.hasLayout, hfields]
    obtain ⟨clause, hclause, hderives⟩ := (exists_records_derives_iff hlayout hheap width body
      facts hsite (hstate.withField hopen') (env.bits?_withField field blocked)
      (env.bool?_withField field blocked)).mpr ⟨Formula.Holds.withField hbody hopen,
        ⟨header, hheader, hoccupied⟩, hcontents⟩
    exact ⟨clause, List.mem_flatten.mpr ⟨_, List.mem_map_of_mem hsite, hclause⟩, hderives⟩
  · -- the registers up to the return slot are promoted, the others stay
    refine ⟨?_, fun cell hcell => ?_⟩
    · rw [State.getElem?_promote, Option.isSome_map]
    · rw [State.getElem?_promote, hcell, Option.map_some]
      refine ⟨_, rfl, fun hr => ?_, fun hr => ?_⟩
      · rw [if_pos (Nat.lt_succ_of_le hr)]
        exact cell.moved_promote
      · exact if_neg (Nat.not_lt.mpr hr)
  · have hlength : value.heap.length = layout.size :=
      (length_eq_of_map_eq hstate.heap).trans hheap
    exact hstate.promote hlength width numRegisters
  · exact state.denotes_promote_promote_iff layout width numRegisters env value
  · rintro shape rfl
    exact State.promote_promote_canonical layout width numRegisters shape
  · exact isVacuous_of_flushAll_promote hlayout width numRegisters body state

/-- A site with two fields, and one whose fields are not known. -/
def liftedLayout : HeapLayout :=
  (empty.addSite 1 "La;" 1 [(3, false), (4, true)]).addSite 2 "Lb;" 2 []

/-- A state of constants.  The object of the first site refers to that of the second one and holds
a secret. -/
def liftedState : State where
  registers := [.localRef (.lit 1 8), .zero 8]
  heap :=
    [⟨.localRef (.lit 2 8), .ff⟩, ⟨.scalar (.lit 7 8) .tt, .ff⟩, .allocated 8, .allocated 8]

/-- The value of that state. -/
def liftedValue : StateValue where
  registers := [⟨1, false, true, false⟩, ⟨0, false, false, false⟩]
  heap :=
    [⟨⟨2, false, true, false⟩, false⟩, ⟨⟨7, true, false, false⟩, false⟩,
      ⟨⟨0, false, false, false⟩, false⟩, ⟨⟨0, false, false, false⟩, false⟩]

theorem lifting_lossless_sample :
    liftedLayout.Registered ∧ liftedState.heap.length = liftedLayout.size ∧
      ∃ clauses, flushAll liftedLayout 8 [.tt] liftedState = .ok clauses ∧
        (∃ clause ∈ clauses, clause.Derives (fun _ => False) (Valuation.empty.withField 9 true)
          (objectFact 8 1 1 4 ⟨7, true, false, false⟩)) ∧
        ∃ clause ∈ clauses, clause.Derives (fun _ => False) (Valuation.empty.withField 9 true)
          (unknownFact 8 2 2 9 true) := by
  have hlayout : liftedLayout.Registered := (Registered.empty.addSite _ _ _ _).addSite _ _ _ _
  have hheap : liftedState.heap.length = liftedLayout.size := rfl
  have hstate : liftedState.Denotes (Valuation.empty.withField 9 true) liftedValue := ⟨rfl, rfl⟩
  have hbody : ∀ part ∈ [Formula.tt], part.Holds (fun _ => False)
      (Valuation.empty.withField 9 true) := by
    simp [Formula.Holds]
  obtain ⟨⟨flushed, hflushed, hderives⟩, -⟩ := lifting_lossless hlayout 8 1 [.tt] hheap
  have hsites := (hderives _ _ _ hstate hbody).1 9 true rfl rfl
  -- both sites are occupied, so there is a clause for all that they contain
  have hoccupied : ∀ site ∈ liftedLayout.sites, ∀ header,
      liftedValue.heap[site.headerSlot]? = some header → header.free = false := by
    have hheaders : ∀ slot ∈ liftedValue.heap, slot.free = false := by decide
    exact fun site _ header hheader => hheaders header (List.mem_of_getElem? hheader)
  have hexists : ∀ site ∈ liftedLayout.sites,
      ∀ contents ∈ site.contents 8 liftedValue.heap 9 true, ∃ clause ∈ flushed.flatten,
        clause.Derives (fun _ => False) (Valuation.empty.withField 9 true) contents := by
    intro site hsite contents hcontents
    obtain ⟨clauses, hclauses, header, hheader, hrecords⟩ :=
      exists_mem_left_of_forall₂ hsites.flip hsite
    obtain ⟨clause, hclause, hiff⟩ := exists_mem_left_of_forall₂ hrecords hcontents
    exact ⟨clause, List.mem_flatten.mpr ⟨clauses, hclauses, hclause⟩,
      (hiff _).mpr ⟨hoccupied site hsite header hheader, rfl⟩⟩
  refine ⟨hlayout, hheap, _, hflushed, hexists ⟨1, "La;", 1, 0, [(3, false), (4, true)]⟩ ?_ _ ?_,
    hexists ⟨2, "Lb;", 2, 3, []⟩ ?_ _ ?_⟩ <;> decide

end HeapLayout

end DalvikHorn
