import DalvikHorn.Proofs.LoadedReferences
import DalvikHorn.Proofs.LocalReachability
import DalvikHorn.Proofs.LosslessLifts

/-!
# What follows from one state

The clauses of an instruction start from the relation of its program point.  When this
relation holds one state only, a clause derives the facts of its head under the
valuations that give the canonical variables the values of this state.  So what follows
from the state can be computed: one fact for a clause whose guards hold, nothing for a
clause with a guard that is false (`StepContext.Fits.mem_successors_derive`), and the
contents of the occupied sites for a lift (`StepContext.Fits.mem_successors_lift`).

## Strategy

* **Valuations.**  A clause says nothing about names that it does not mention, so only
  complete valuations have to be looked at (`StepContext.mem_consequences_iff_exists`).
* **Guards.**  A guard may have a value that depends on the state alone.  `Decides`
  collects the guards of a clause, whatever else the valuation does.
-/

namespace DalvikHorn

/-! ## Facts of sites -/

namespace AllocationSite

variable (site : AllocationSite)

/-- All that a site leaves on the global heap.  When its fields are not known there is a fact for
any field. -/
def leaves (width : Nat) (heap : List SlotValue) : Set Fact :=
  {fact | ∃ field < valueCount width, ∃ blocked, fact ∈ site.contents width heap field blocked}

end AllocationSite

/-- A complete valuation has a value for the field and the location that a site without known
fields leaves open. -/
theorem Valuation.Complete.exists_field {width : Nat} {env : Valuation} (h : env.Complete width) :
    ∃ field blocked, env.bits? Names.field = some field ∧
      env.bool? Names.fieldBlocked = some blocked ∧ field < valueCount width := by
  have hnames : env.Admits [(Names.field, .bitVec width), (Names.fieldBlocked, .bool)] := by
    refine h.admits (List.forall_mem_cons.mpr ⟨?_, List.forall_mem_singleton.mpr ?_⟩)
    · exact Names.isVariable_auxiliaryValue width Names.field
    · exact Names.isVariable_auxiliaryFlag width Names.fieldBlocked
  obtain ⟨field, hfield, hlt⟩ := hnames.exists_bits List.mem_cons_self
  obtain ⟨blocked, hblocked⟩ :=
    hnames.exists_bool (List.mem_cons_of_mem _ (List.mem_singleton_self _))
  exact ⟨field, blocked, hfield, hblocked, hlt⟩

namespace Valuation

variable {width : Nat} {env : Valuation}

/-- A complete valuation gives a name for values a value that fits into the width. -/
theorem Complete.value_lt (h : env.Complete width) {name : String} {value : Nat}
    (hvalue : env.bits? name = some value) (hsort : Names.sort width name = .bitVec width) :
    value < valueCount width := by
  have hname : env.Admits [(name, .bitVec width)] :=
    h.admits_of_sort (List.forall_mem_singleton.mpr hsort.symm)
  obtain ⟨found, hfound, hlt⟩ := hname.exists_bits List.mem_cons_self
  rwa [Option.some.inj (hvalue.symm.trans hfound)]

theorem Complete.value_lt_of_mem_heap (h : env.Complete width) {heap : String}
    (hheap : Names.IsHeap heap) {size : Nat} {slots : List SlotValue}
    (hslots : (canonicalHeap heap size width).map (HeapSlot.eval env) = slots.map some) :
    ∀ slot ∈ slots, slot.cell.value < valueCount width := by
  intro slot hslot
  obtain ⟨k, hk⟩ := List.getElem?_of_mem hslot
  obtain ⟨symbolic, hsymbolic, heval⟩ := exists_getElem?_of_map_eq hslots hk
  obtain ⟨j, -, rfl⟩ := List.mem_map.mp (List.mem_of_getElem? hsymbolic)
  obtain ⟨hcell, -⟩ := HeapSlot.eval_eq_some_iff.mp heval
  exact h.value_lt (Cell.eval_eq_some_iff.mp hcell).1 (Names.sort_slotValue width hheap j)

end Valuation

namespace StepContext

variable {cx : StepContext} {before : StateValue}

/-! ## Valuations of a state -/

/-- What an instruction derives it derives under a complete valuation. -/
theorem mem_consequences_iff_exists {clauses : List Clause} {facts : Set Fact}
    (hemitted : ∀ clause ∈ clauses, cx.Emitted clause) {fact : Fact} :
    fact ∈ consequences clauses facts ↔ ∃ clause ∈ clauses, ∃ env : Valuation,
      env.Complete cx.width ∧ clause.Derives (· ∈ facts) env fact := by
  rw [mem_consequences_iff fun clause hclause => (hemitted clause hclause).isHorn]
  refine exists_congr fun clause => and_congr_right fun hclause => ?_
  have hrespected := (hemitted clause hclause).respected
  constructor
  · rintro ⟨env, henv, hbody, hhead⟩
    have hagree : ∀ v ∈ clause.vars, env v.1 = env.completed cx.width clause.vars v.1 :=
      fun v hv => (env.completed_eq cx.width hv).symm
    refine ⟨_, henv.complete hrespected, fun part hpart => ?_, hhead.congr fun v hv => ?_⟩
    · refine Formula.Holds.congr part (fun v hv => hagree v ?_) (hbody part hpart)
      exact List.mem_append_left _ (Formula.mem_varsList.mpr ⟨part, hpart, hv⟩)
    · exact hagree v (List.mem_append_right _ hv)
  · rintro ⟨env, hcomplete, hderives⟩
    exact ⟨env, hcomplete.admits hrespected, hderives.body, hderives.head⟩

/-- Under a complete valuation the canonical variables have the values of a state that fits. -/
theorem Fits.of_denotes {env : Valuation} (hcomplete : env.Complete cx.width)
    (hstate : cx.pre.Denotes env before) : cx.Fits before where
  registers_length := by rw [length_eq_of_map_eq hstate.registers, cx.sorted_pre.registers_length]
  heap_length := by rw [length_eq_of_map_eq hstate.heap, cx.sorted_pre.heap_length]
  inRange :=
    { registers := by
        intro value hvalue
        obtain ⟨r, hr⟩ := List.getElem?_of_mem hvalue
        obtain ⟨cell, hcell, heval⟩ := exists_getElem?_of_map_eq hstate.registers hr
        obtain ⟨-, rfl⟩ := eq_register_of_pre hcell
        exact hcomplete.value_lt (Cell.eval_eq_some_iff.mp heval).1 (Names.sort_value _ r)
      heap := hcomplete.value_lt_of_mem_heap Names.isHeap_ownHeap hstate.heap }

/-- The relation of an instruction holds when it has a state for the canonical variables. -/
theorem holds_current_iff {facts : Set Fact} {env : Valuation} :
    cx.current.toFormula.Holds (· ∈ facts) env ↔
      ∃ state, pointFact cx.point state ∈ facts ∧ cx.pre.Denotes env state := by
  rw [Formula.holds_atom]
  constructor
  · rintro ⟨fact, hfact, hdenotes⟩
    obtain ⟨state, hstate, rfl⟩ := denotes_pointAtom_iff.mp hdenotes
    exact ⟨state, hfact, hstate⟩
  · rintro ⟨state, hfact, hstate⟩
    exact ⟨_, hfact, denotes_pointAtom_iff.mpr ⟨state, hstate, rfl⟩⟩

/-- Two states of an instruction are the same when their facts are. -/
theorem Fits.eq_of_pointFact_eq (hfits : cx.Fits before) {env : Valuation} {state : StateValue}
    (hstate : cx.pre.Denotes env state) {point : ProgramPoint}
    (h : pointFact point state = pointFact cx.point before) : state = before := by
  have hlength : state.registers.length = before.registers.length := by
    rw [length_eq_of_map_eq hstate.registers, cx.sorted_pre.registers_length,
      hfits.registers_length]
  exact (pointFact_injective hlength h).2

theorem Fits.holds_current_iff (hfits : cx.Fits before) {env : Valuation} :
    cx.current.toFormula.Holds (· ∈ ({pointFact cx.point before} : Set Fact)) env ↔
      cx.pre.Denotes env before := by
  rw [StepContext.holds_current_iff]
  constructor
  · rintro ⟨state, hfact, hstate⟩
    exact hfits.eq_of_pointFact_eq hstate hfact ▸ hstate
  · exact fun hstate => ⟨before, rfl, hstate⟩

/-- There is a complete valuation for every state, with any field and any location for what a site
without known fields leaves open. -/
theorem Fits.exists_complete (hfits : cx.Fits before) {field : Nat}
    (hfield : field < valueCount cx.width) (blocked : Bool) :
    ∃ env : Valuation, env.Complete cx.width ∧ cx.pre.Denotes env before ∧
      env.bits? Names.field = some field ∧ env.bool? Names.fieldBlocked = some blocked := by
  exact ⟨fieldValuation before field blocked, complete_fieldValuation hfits.inRange hfield,
    hfits.denotes_pre_field field blocked, rfl, rfl⟩

/-! ## Guards -/

/-- In a state some guards hold exactly under a condition, whatever else is known. -/
def Decides (cx : StepContext) (before : StateValue) (guards : List Formula) (enabled : Prop) :
    Prop :=
  ∀ (facts : Fact → Prop) (env : Valuation), cx.pre.Denotes env before →
    ((∀ guard ∈ guards, guard.Holds facts env) ↔ enabled)

variable {guards : List Formula} {enabled : Prop}

theorem decides_nil : cx.Decides before [] True := fun _ _ _ => by simp

theorem Decides.concat (h : cx.Decides before guards enabled) {guard : Formula} {value : Bool}
    (hvalue : ∀ env, cx.pre.Denotes env before → guard.eval env = some value) :
    cx.Decides before (guards ++ [guard]) (enabled ∧ value = true) := by
  intro facts env hstate
  rw [List.forall_mem_append, List.forall_mem_singleton, h facts env hstate,
    Formula.holds_iff_of_eval guard (hvalue env hstate)]

theorem Decides.congr (h : cx.Decides before guards enabled) {other : Prop}
    (hother : enabled ↔ other) : cx.Decides before guards other :=
  fun facts env hstate => (h facts env hstate).trans hother

/-- Whether a register has an identifier as its value is known in a state. -/
theorem eval_hasId_of_denotes {env : Valuation} (hstate : cx.pre.Denotes env before) {r : Nat}
    {object : CellValue} (hobject : before.registers[r]? = some object) (id : InstanceId) :
    ((Cell.register r cx.width).value.eqTo (cx.idLiteral id)).eval env =
      some (object.value == twosComplement id.toInt cx.width) := by
  obtain ⟨hvalue, -⟩ := Cell.eval_eq_some_iff.mp (eval_register_of_denotes hstate hobject)
  rw [BvExpr.eqTo, Formula.eval, hvalue]
  rfl

/-! ## Successors -/

/-- What some clauses of an instruction derive from one state. -/
def successors (cx : StepContext) (clauses : List Clause) (before : StateValue) : Set Fact :=
  consequences clauses {pointFact cx.point before}

theorem mem_successors_append_iff {first second : List Clause} {fact : Fact} :
    fact ∈ cx.successors (first ++ second) before ↔
      fact ∈ cx.successors first before ∨ fact ∈ cx.successors second before := by
  simp only [successors, consequences, List.mem_append, or_and_right, exists_or,
    Set.mem_ofPred_eq]

theorem mem_successors_flatten_iff {parts : List (List Clause)} {fact : Fact} :
    fact ∈ cx.successors parts.flatten before ↔
      ∃ part ∈ parts, fact ∈ cx.successors part before := by
  induction parts with
  | nil => simp [successors, consequences]
  | cons part rest ih =>
      rw [List.flatten_cons, mem_successors_append_iff, ih, List.exists_mem_cons_iff]

/-- Clauses that are dropped when they are emitted derive nothing. -/
theorem mem_successors_ofClauses_iff {clauses : List Clause}
    (hemitted : ∀ clause ∈ clauses, cx.Emitted clause) {fact : Fact} :
    fact ∈ cx.successors (Emission.ofClauses clauses).clauses before ↔
      fact ∈ cx.successors clauses before := by
  have hkept : ∀ clause ∈ (Emission.ofClauses clauses).clauses, cx.Emitted clause :=
    fun clause hclause => hemitted clause (List.mem_of_mem_filter hclause)
  rw [successors, mem_consequences_iff_exists hkept, successors,
    mem_consequences_iff_exists hemitted]
  constructor
  · rintro ⟨clause, hclause, hderives⟩
    exact ⟨clause, List.mem_of_mem_filter hclause, hderives⟩
  · rintro ⟨clause, hclause, env, hcomplete, hderives⟩
    refine ⟨clause, List.mem_filter.mpr ⟨hclause, ?_⟩, env, hcomplete, hderives⟩
    rw [hderives.isVacuous_eq_false, Bool.not_false]

/-- A clause that derives something is emitted. -/
theorem mem_ofClauses_of_mem_successors {clauses : List Clause} {clause : Clause}
    (hclause : clause ∈ clauses) (hemitted : cx.Emitted clause) {fact : Fact}
    (hfact : fact ∈ cx.successors [clause] before) :
    clause ∈ (Emission.ofClauses clauses).clauses := by
  obtain ⟨found, hfound, env, -, hderives⟩ :=
    (mem_consequences_iff_exists (List.forall_mem_singleton.mpr hemitted)).mp hfact
  rw [List.mem_singleton.mp hfound] at hderives
  exact List.mem_filter.mpr ⟨hclause, by rw [hderives.isVacuous_eq_false, Bool.not_false]⟩

variable (hfits : cx.Fits before) (hguards : cx.Decides before guards enabled)

include hfits hguards

/-- The body of a clause holds when the canonical variables have the values of the state, and its
guards hold. -/
theorem Fits.holds_body_iff {env : Valuation} :
    (∀ part ∈ cx.body guards, part.Holds (· ∈ ({pointFact cx.point before} : Set Fact)) env) ↔
      cx.pre.Denotes env before ∧ enabled := by
  rw [body, List.forall_mem_cons, hfits.holds_current_iff]
  exact and_congr_right fun hstate => hguards _ env hstate

omit hguards in
/-- A clause derives nothing from a state in which one of its guards is false. -/
theorem Fits.successors_eq_empty (hguards : cx.Decides before guards False) {head : Atom}
    (hemitted : cx.Emitted (cx.derive guards head)) :
    cx.successors [cx.derive guards head] before = ∅ := by
  refine Set.eq_empty_of_forall_notMem fun fact hfact => ?_
  obtain ⟨clause, hclause, env, -, hderives⟩ :=
    (mem_consequences_iff_exists (List.forall_mem_singleton.mpr hemitted)).mp hfact
  rw [List.mem_singleton.mp hclause] at hderives
  exact ((hfits.holds_body_iff hguards).mp hderives.body).2

/-- A clause derives one fact from a state in which its guards hold. -/
theorem Fits.mem_successors_derive {head : Atom} (hemitted : cx.Emitted (cx.derive guards head))
    {contents : Fact} (hhead : ∀ env, cx.pre.Denotes env before → head.Denotes env contents)
    {fact : Fact} :
    fact ∈ cx.successors [cx.derive guards head] before ↔ enabled ∧ fact = contents := by
  rw [successors, mem_consequences_iff_exists (List.forall_mem_singleton.mpr hemitted)]
  constructor
  · rintro ⟨clause, hclause, env, -, hderives⟩
    rw [List.mem_singleton.mp hclause] at hderives
    obtain ⟨hstate, henabled⟩ := (hfits.holds_body_iff hguards).mp hderives.body
    exact ⟨henabled, hderives.head.unique (hhead env hstate)⟩
  · rintro ⟨henabled, rfl⟩
    obtain ⟨env, hcomplete, hstate, -⟩ := hfits.exists_complete (Nat.two_pow_pos _) false
    exact ⟨_, List.mem_singleton_self _, env, hcomplete,
      (hfits.holds_body_iff hguards).mpr ⟨hstate, henabled⟩, hhead env hstate⟩

omit hfits hguards in
/-- Whatever facts there are, a clause derives one fact for each state of its instruction in which
its guards hold. -/
theorem mem_consequences_derive {enabled : StateValue → Prop} {contents : StateValue → Fact}
    (hguards : ∀ before, cx.Fits before → cx.Decides before guards (enabled before)) {head : Atom}
    (hemitted : cx.Emitted (cx.derive guards head))
    (hhead : ∀ before env, cx.pre.Denotes env before → head.Denotes env (contents before))
    {facts : Set Fact} {fact : Fact} :
    fact ∈ consequences [cx.derive guards head] facts ↔ ∃ before, cx.Fits before ∧
      pointFact cx.point before ∈ facts ∧ enabled before ∧ fact = contents before := by
  rw [mem_consequences_iff_exists (List.forall_mem_singleton.mpr hemitted)]
  constructor
  · rintro ⟨clause, hclause, env, hcomplete, hderives⟩
    rw [List.mem_singleton.mp hclause] at hderives
    obtain ⟨hcurrent, hrest⟩ := List.forall_mem_cons.mp hderives.body
    obtain ⟨before, hfact, hstate⟩ := holds_current_iff.mp hcurrent
    have hfits := Fits.of_denotes hcomplete hstate
    exact ⟨before, hfits, hfact, (hguards before hfits _ env hstate).mp hrest,
      hderives.head.unique (hhead before env hstate)⟩
  · rintro ⟨before, hfits, hfact, henabled, rfl⟩
    obtain ⟨env, hcomplete, hstate, -⟩ := hfits.exists_complete (Nat.two_pow_pos _) false
    refine ⟨_, List.mem_singleton_self _, env, hcomplete, ?_, hhead before env hstate⟩
    exact List.forall_mem_cons.mpr ⟨holds_current_iff.mpr ⟨before, hfact, hstate⟩,
      (hguards before hfits _ env hstate).mpr henabled⟩

/-- A step goes on with one state when its guards hold. -/
theorem Fits.mem_successors_step {post : State} (hemitted : cx.Emitted (cx.step guards post))
    {after : StateValue} (hpost : ∀ env, cx.pre.Denotes env before → post.Denotes env after)
    {fact : Fact} :
    fact ∈ cx.successors [cx.step guards post] before ↔
      enabled ∧ fact = pointFact (cx.pointAt cx.nextPc) after :=
  hfits.mem_successors_derive hguards hemitted fun env hstate =>
    denotes_pointAtom_iff.mpr ⟨after, hpost env hstate, rfl⟩

/-! ## Lifts -/

variable (hlayout : cx.layout.Registered)

include hlayout

/-- A site leaves its contents when it is occupied. -/
theorem Fits.mem_successors_records {site : AllocationSite} (hsite : site ∈ cx.layout.sites)
    (hemitted : ∀ clause ∈ site.records cx.width (cx.body guards) cx.pre, cx.Emitted clause)
    {fact : Fact} :
    fact ∈ cx.successors (site.records cx.width (cx.body guards) cx.pre) before ↔
      enabled ∧ site.Occupied before.heap ∧ fact ∈ site.leaves cx.width before.heap := by
  have hheap := cx.sorted_pre.heap_length
  rw [successors, mem_consequences_iff_exists hemitted]
  constructor
  · rintro ⟨clause, hclause, env, hcomplete, hderives⟩
    -- every record of the site has the guards of the lift in its body
    have hbody : ∀ part ∈ cx.body guards,
        part.Holds (· ∈ ({pointFact cx.point before} : Set Fact)) env := by
      intro part hpart
      refine hderives.body part ?_
      rw [AllocationSite.body_of_mem_records hclause]
      exact List.mem_append_left _ hpart
    obtain ⟨hstate, henabled⟩ := (hfits.holds_body_iff hguards).mp hbody
    -- the two variables of the record are the field and its mark
    obtain ⟨field, blocked, hfield, hblocked, hlt⟩ := hcomplete.exists_field
    obtain ⟨-, hoccupied, hcontents⟩ := (HeapLayout.exists_records_derives_iff hlayout hheap
      cx.width _ _ hsite hstate hfield hblocked).mp ⟨clause, hclause, hderives⟩
    exact ⟨henabled, hoccupied, field, hlt, blocked, hcontents⟩
  · rintro ⟨henabled, hoccupied, field, hfield, blocked, hcontents⟩
    -- a valuation may name any field, since the state does not
    obtain ⟨env, hcomplete, hstate, hword, hflag⟩ := hfits.exists_complete hfield blocked
    obtain ⟨clause, hclause, hderives⟩ := (HeapLayout.exists_records_derives_iff hlayout hheap
      cx.width _ _ hsite hstate hword hflag).mpr
        ⟨(hfits.holds_body_iff hguards).mpr ⟨hstate, henabled⟩, hoccupied, hcontents⟩
    exact ⟨clause, hclause, env, hcomplete, hderives⟩

omit hfits hguards in
/-- The clauses of a lift. -/
theorem lift_eq (guards : List Formula) {update : State → Except Error State} {post : State}
    (hpost : update (cx.pre.promote cx.layout cx.width cx.shape.numRegisters) = .ok post) :
    cx.lift guards update =
      .ok ((cx.layout.sites.map (·.records cx.width (cx.body guards) cx.pre)).flatten ++
        [cx.step guards post]) := by
  rw [lift, HeapLayout.flushAll_eq hlayout cx.sorted_pre.heap_length]
  simp only [hpost, Bind.bind, Except.bind]
  rfl

/-- A lift goes on when its guards hold, and leaves the contents of all occupied sites. -/
theorem Fits.mem_successors_lift {update : State → Except Error State} {post : State}
    (hpost : update (cx.pre.promote cx.layout cx.width cx.shape.numRegisters) = .ok post)
    {after : StateValue} (hdenotes : ∀ env, cx.pre.Denotes env before → post.Denotes env after)
    {lifted : List Clause} (hlifted : cx.lift guards update = .ok lifted)
    (hemitted : ∀ clause ∈ lifted, cx.Emitted clause) {fact : Fact} :
    fact ∈ cx.successors lifted before ↔
      enabled ∧ (fact = pointFact (cx.pointAt cx.nextPc) after ∨
        ∃ site ∈ cx.layout.sites, site.Occupied before.heap ∧
          fact ∈ site.leaves cx.width before.heap) := by
  cases (lift_eq hlayout guards hpost).symm.trans hlifted
  obtain ⟨hrecords, hstep⟩ := List.forall_mem_append.mp hemitted
  -- the flushed facts are those of the sites, one site after the other
  have hsites : fact ∈ cx.successors
      (cx.layout.sites.map (·.records cx.width (cx.body guards) cx.pre)).flatten before ↔
        enabled ∧ ∃ site ∈ cx.layout.sites, site.Occupied before.heap ∧
          fact ∈ site.leaves cx.width before.heap := by
    rw [mem_successors_flatten_iff]
    have hsite : ∀ site ∈ cx.layout.sites, fact ∈ cx.successors
        (site.records cx.width (cx.body guards) cx.pre) before ↔
          enabled ∧ site.Occupied before.heap ∧ fact ∈ site.leaves cx.width before.heap := by
      intro site hsite
      refine hfits.mem_successors_records hguards hlayout hsite fun clause hclause => ?_
      exact hrecords clause (List.mem_flatten.mpr ⟨_, List.mem_map_of_mem hsite, hclause⟩)
    constructor
    · rintro ⟨part, hpart, hfact⟩
      obtain ⟨site, hmem, rfl⟩ := List.mem_map.mp hpart
      obtain ⟨henabled, hleaves⟩ := (hsite site hmem).mp hfact
      exact ⟨henabled, site, hmem, hleaves⟩
    · rintro ⟨henabled, site, hmem, hleaves⟩
      exact ⟨_, List.mem_map_of_mem hmem, (hsite site hmem).mpr ⟨henabled, hleaves⟩⟩
  -- behind the facts comes the step, which the guards enable as well
  rw [mem_successors_append_iff, hsites,
    hfits.mem_successors_step hguards (List.forall_mem_singleton.mp hstep) hdenotes, or_comm,
    ← and_or_left]

/-- A lift for some cells goes on when one of them is local.  It is left out when their flags fold
to false, and then none of them is. -/
theorem Fits.mem_successors_liftIfAnyLocal {α : Type} {items : List α} {cellOf : α → Cell}
    {isLocal : α → Bool}
    (hlocal : ∀ env, cx.pre.Denotes env before → ∀ item ∈ items,
      (cellOf item).isLocal.eval env = some (isLocal item))
    {update : State → Except Error State} {post : State}
    (hpost : update (cx.pre.promote cx.layout cx.width cx.shape.numRegisters) = .ok post)
    {after : StateValue} (hdenotes : ∀ env, cx.pre.Denotes env before → post.Denotes env after)
    {lifted : List Clause}
    (hlifted : cx.liftIfAnyLocal (items.map cellOf) guards update = .ok lifted)
    (hemitted : ∀ clause ∈ lifted, cx.Emitted clause) {fact : Fact} :
    fact ∈ cx.successors lifted before ↔
      (enabled ∧ items.any isLocal = true) ∧ (fact = pointFact (cx.pointAt cx.nextPc) after ∨
        ∃ site ∈ cx.layout.sites, site.Occupied before.heap ∧
          fact ∈ site.leaves cx.width before.heap) := by
  have hany : ∀ env, cx.pre.Denotes env before →
      (Formula.any ((items.map cellOf).map (·.isLocal))).eval env = some (items.any isLocal) := by
    intro env hstate
    rw [List.map_map]
    exact Formula.eval_any_map (hlocal env hstate)
  unfold liftIfAnyLocal at hlifted
  dsimp only at hlifted
  split at hlifted
  · rename_i hfolded
    obtain ⟨env, -, hstate, -⟩ := hfits.exists_complete (Nat.two_pow_pos _) false
    have hnone : items.any isLocal = false :=
      Option.some.inj ((hany env hstate).symm.trans (Formula.eval_of_isFalse _ hfolded))
    cases hlifted
    simp [successors, consequences, hnone]
  · exact hfits.mem_successors_lift (hguards.concat hany) hlayout hpost hdenotes hlifted hemitted

end StepContext

end DalvikHorn
