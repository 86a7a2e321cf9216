import Mathlib.Logic.Relation
import DalvikHorn.Proofs.Lifting
import DalvikHorn.Proofs.PositiveClauses

/-!
# Reachability in the local heap is reachability in a graph

The rules of `ReachLH` walk through a local heap one field at a time.  For a heap with
values in its slots the walk is one in a graph: its nodes are values, and an object
points to another one when one of its fields holds a local reference to it
(`HeapLayout.PointsTo`).  This file shows that the least model of the rules contains
`ReachLH a b` exactly when `b` can be reached from `a` in this graph, and `CFilter`
exactly for the sites that can be reached, each with whether it is occupied.

## Strategy

* **Columns.**  A fact of either relation carries the whole heap, and a heap is known
  from its columns, so a derivation never mixes two heaps.
* **Soundness.**  One step of a derivation follows one edge (`pointsTo_of_follow`), hence a
  derivation follows a path.
* **Completeness.**  Every edge is followed by the rule of its slot
  (`derivable_of_pointsTo`), under the valuation that gives the slots of the heap to
  their variables.

Two sites whose identifiers are equal at the width are one node, which has the fields of
both.  The header of a site belongs to no edge.
-/

namespace DalvikHorn

/-! ## Facts -/

/-- The fact that one object reaches another one in a heap. -/
def reachFact (source target : Nat) (heap : List SlotValue) : Fact where
  relation := reachRelation
  args := .bits source :: .bits target :: heapValues heap

/-- The fact that an object reaches the object of the site that is marked. -/
def filterFact (value : Nat) (occupied : Bool) (heap : List SlotValue) (marks : List Bool) :
    Fact where
  relation := filterRelation
  args := .bits value :: .bool occupied :: heapValues heap ++ marks.map .bool

theorem reachFact_injective {source source' target target' : Nat} {heap heap' : List SlotValue}
    (h : reachFact source target heap = reachFact source' target' heap') :
    source = source' ∧ target = target' ∧ heap = heap' := by
  simp only [reachFact, Fact.mk.injEq, List.cons.injEq, Value.bits.injEq, true_and] at h
  exact ⟨h.1, h.2.1, heapValues_injective h.2.2⟩

theorem filterFact_injective {value value' : Nat} {occupied occupied' : Bool}
    {heap heap' : List SlotValue} {marks marks' : List Bool} (hlength : heap.length = heap'.length)
    (h : filterFact value occupied heap marks = filterFact value' occupied' heap' marks') :
    value = value' ∧ occupied = occupied' ∧ heap = heap' ∧ marks = marks' := by
  simp only [filterFact, Fact.mk.injEq, List.cons_append, List.cons.injEq, Value.bits.injEq,
    Value.bool.injEq, true_and] at h
  obtain ⟨hvalue, hoccupied, hcolumns⟩ := h
  obtain ⟨hheap, hmarks⟩ := List.append_inj hcolumns (by simp [heapValues, hlength])
  exact ⟨hvalue, hoccupied, heapValues_injective hheap,
    (List.map_inj_right fun _ _ => Value.bool.inj).mp hmarks⟩

section Atoms

variable {env : Valuation} {slots : List HeapSlot} {fact : Fact}

/-- Columns of a heap that all have values are the columns of a heap with values. -/
theorem exists_heap_of_columns {values : List Value}
    (h : (heapColumns slots).map (Term.eval env) = values.map some) :
    ∃ heap, slots.map (HeapSlot.eval env) = heap.map some ∧ values = heapValues heap := by
  obtain ⟨heap, hheap⟩ := exists_eval_of_heapColumns fun column hcolumn =>
    exists_eq_some_of_map_eq h hcolumn
  rw [eval_heapColumns hheap] at h
  exact ⟨heap, hheap, (map_some_injective h).symm⟩

/-- The facts of a reachability atom. -/
theorem denotes_reachAtom_iff {source target : BvExpr} :
    (reachAtom source target (heapColumns slots)).Denotes env fact ↔
      ∃ a b heap, source.eval env = some a ∧ target.eval env = some b ∧
        slots.map (HeapSlot.eval env) = heap.map some ∧ fact = reachFact a b heap := by
  constructor
  · rintro ⟨hrelation, hargs⟩
    obtain ⟨relation, args⟩ := fact
    simp only [reachAtom, List.map_cons] at hrelation hargs
    obtain ⟨first, rest, rfl, hfirst, hrest⟩ := List.map_eq_cons_iff.mp hargs.symm
    obtain ⟨second, columns, rfl, hsecond, hcolumns⟩ := List.map_eq_cons_iff.mp hrest
    obtain ⟨a, ha, rfl⟩ := Option.map_eq_some_iff.mp hfirst.symm
    obtain ⟨b, hb, rfl⟩ := Option.map_eq_some_iff.mp hsecond.symm
    obtain ⟨heap, hheap, rfl⟩ := exists_heap_of_columns hcolumns.symm
    exact ⟨a, b, heap, ha, hb, hheap, by rw [reachFact, hrelation]⟩
  · rintro ⟨a, b, heap, ha, hb, hheap, rfl⟩
    refine ⟨rfl, ?_⟩
    simp only [reachAtom, reachFact, List.map_cons, Term.eval, ha, hb, Option.map_some,
      eval_heapColumns hheap]

end Atoms

/-! ## The graph of a heap -/

/-- The value that stands for the objects of a site. -/
def AllocationSite.objectValue (width : Nat) (site : AllocationSite) : Nat :=
  twosComplement site.id.toInt width

namespace HeapLayout

/-- A local heap with as many slots as the layout and with values of a width. -/
structure Fits (layout : HeapLayout) (width : Nat) (heap : List SlotValue) : Prop where
  length_eq : heap.length = layout.size
  inRange : ∀ slot ∈ heap, slot.cell.value < valueCount width

/-- An object points to another one when a field of a site with its value holds a local reference
to the objects of a site. -/
def PointsTo (layout : HeapLayout) (width : Nat) (heap : List SlotValue) (source target : Nat) :
    Prop :=
  ∃ site ∈ layout.sites, site.objectValue width = source ∧
    ∃ k slot, (site.offset ≤ k ∧ k < site.headerSlot) ∧ heap[k]? = some slot ∧
      slot.cell.isLocal = true ∧ slot.cell.value = target ∧
      ∃ other ∈ layout.sites, other.objectValue width = target

/-! ## The rules -/

variable (layout : HeapLayout) (width : Nat)

/-- The columns of the local heap of a layout. -/
def columns : List Term :=
  heapColumns (canonicalHeap Names.ownHeap layout.size width)

/-- Every object reaches itself. -/
def reflexiveRule : Clause :=
  .fact (reachAtom (.var Names.read width) (.var Names.read width) (layout.columns width))

/-- The value of a slot belongs to a site. -/
def isObject (k : Nat) : Formula :=
  .any ((layout.sites.map fun site => GlobalHeap.idLiteral width site.id).map
    (HeapSlot.canonical Names.ownHeap k width).cell.value.eqTo)

/-- What reaches an object of a site reaches what its slot refers to. -/
def followRule (site : AllocationSite) (k : Nat) : Clause where
  body :=
    [reachAtom (.var Names.read width) (GlobalHeap.idLiteral width site.id) (layout.columns width),
      (HeapSlot.canonical Names.ownHeap k width).cell.isLocal, layout.isObject width k]
  head :=
    reachAtom (.var Names.read width) (HeapSlot.canonical Names.ownHeap k width).cell.value
      (layout.columns width)

/-- The atom that marks the site at an index. -/
def filterAtom (j : Nat) (site : AllocationSite) : Atom where
  relation := filterRelation
  args :=
    .bv (.var Names.read width) ::
      .bool (HeapSlot.canonical Names.ownHeap site.headerSlot width).free.negate ::
      layout.columns width ++ layout.sites.mapIdx fun i _ => .bool (.const (i == j))

/-- What reaches an object of a site passes the filter of the site. -/
def filterRule (j : Nat) (site : AllocationSite) : Clause where
  body :=
    [reachAtom (.var Names.read width) (GlobalHeap.idLiteral width site.id) (layout.columns width)]
  head := layout.filterAtom width j site

theorem reachabilityRules_eq :
    reachabilityRules layout width =
      layout.reflexiveRule width ::
        (layout.sites.flatMap fun site => site.fieldSlots.map (layout.followRule width site)) ++
          layout.sites.mapIdx (layout.filterRule width) := rfl

variable {layout width}

theorem mem_reachabilityRules_iff {clause : Clause} :
    clause ∈ reachabilityRules layout width ↔
      clause = layout.reflexiveRule width ∨
        (∃ site ∈ layout.sites, ∃ k, (site.offset ≤ k ∧ k < site.headerSlot) ∧
          clause = layout.followRule width site k) ∨
        ∃ j site, layout.sites[j]? = some site ∧ clause = layout.filterRule width j site := by
  simp only [reachabilityRules_eq, List.cons_append, List.mem_cons, List.mem_append,
    List.mem_flatMap, List.mem_map, List.mem_mapIdx, AllocationSite.fieldSlots, List.mem_range'_1,
    AllocationSite.headerSlot]
  refine or_congr_right (or_congr ?_ ?_)
  · simp only [eq_comm]
  · constructor
    · rintro ⟨j, hj, rfl⟩
      exact ⟨j, layout.sites[j], List.getElem?_eq_getElem hj, rfl⟩
    · rintro ⟨j, site, hsite, rfl⟩
      obtain ⟨hj, rfl⟩ := List.getElem?_eq_some_iff.mp hsite
      exact ⟨j, hj, rfl⟩

end HeapLayout

/-! ## What the parts of a rule say -/

theorem eval_idLiteral (env : Valuation) (width : Nat) (site : AllocationSite) :
    (GlobalHeap.idLiteral width site.id).eval env = some (site.objectValue width) := by
  rw [GlobalHeap.idLiteral, BvExpr.ofInt, BvExpr.eval, AllocationSite.objectValue]

/-- Under a valuation, the slots of the local heap have the values of a heap. -/
theorem getElem?_of_canonicalHeap {env : Valuation} {size width k : Nat} {heap : List SlotValue}
    (hheap : (canonicalHeap Names.ownHeap size width).map (HeapSlot.eval env) = heap.map some)
    (hk : k < size) :
    ∃ slot, heap[k]? = some slot ∧
      (HeapSlot.canonical Names.ownHeap k width).eval env = some slot :=
  getElem?_of_map_eq hheap (by simp [canonicalHeap, hk])

namespace HeapLayout

variable {layout : HeapLayout} {width : Nat} {env : Valuation} {facts : Fact → Prop}

theorem holds_isObject_iff {k : Nat} :
    (layout.isObject width k).Holds facts env ↔
      ∃ site ∈ layout.sites, (HeapSlot.canonical Names.ownHeap k width).cell.value.eval env =
        some (site.objectValue width) := by
  rw [isObject, Formula.holds_any_iff]
  simp only [List.mem_map, exists_exists_and_eq_and]
  refine exists_congr fun site => and_congr_right fun _ => ?_
  rw [BvExpr.eqTo, Formula.Holds, Formula.eval, eval_idLiteral]
  cases (HeapSlot.canonical Names.ownHeap k width).cell.value.eval env with
  | none => simp
  | some value => simp [BvCompare.apply]

/-- The marks of the site at an index. -/
theorem mapIdx_beq (layout : HeapLayout) (j : Nat) :
    layout.sites.mapIdx (fun i _ => i == j) =
      (List.replicate layout.sites.length false).set j true := by
  refine List.ext_getElem (by simp) fun i hi hi' => ?_
  rw [List.getElem_mapIdx, List.getElem_set, List.getElem_replicate]
  by_cases hij : i = j
  · simp [hij]
  · simp [hij, Ne.symm hij]

theorem eval_marks (layout : HeapLayout) (env : Valuation) (j : Nat) :
    (layout.sites.mapIdx fun i _ => Term.bool (.const (i == j))).map (Term.eval env) =
      (((List.replicate layout.sites.length false).set j true).map Value.bool).map some := by
  rw [← mapIdx_beq]
  refine List.ext_getElem (by simp) fun i hi hi' => ?_
  simp [Term.eval, Formula.eval]

/-- The facts of the filter of a site. -/
theorem denotes_filterAtom_iff {j : Nat} {site : AllocationSite} {fact : Fact} :
    (layout.filterAtom width j site).Denotes env fact ↔
      ∃ value free heap, (BvExpr.var Names.read width).eval env = some value ∧
        (HeapSlot.canonical Names.ownHeap site.headerSlot width).free.eval env = some free ∧
        (canonicalHeap Names.ownHeap layout.size width).map (HeapSlot.eval env) = heap.map some ∧
        fact = filterFact value (!free) heap
          ((List.replicate layout.sites.length false).set j true) := by
  constructor
  · rintro ⟨hrelation, hargs⟩
    obtain ⟨relation, args⟩ := fact
    simp only [filterAtom, List.cons_append, List.map_cons, List.map_append] at hrelation hargs
    -- the columns are the source, whether it is occupied, the heap and the marks
    obtain ⟨first, rest, rfl, hfirst, hrest⟩ := List.map_eq_cons_iff.mp hargs.symm
    obtain ⟨second, columns, rfl, hsecond, hcolumns⟩ := List.map_eq_cons_iff.mp hrest
    obtain ⟨slots, marks, rfl, hslots, hmarks⟩ := List.map_eq_append_iff.mp hcolumns
    obtain ⟨value, hvalue, rfl⟩ := Option.map_eq_some_iff.mp hfirst.symm
    obtain ⟨occupied, hoccupied, rfl⟩ := Option.map_eq_some_iff.mp hsecond.symm
    obtain ⟨heap, hheap, rfl⟩ := exists_heap_of_columns hslots.symm
    rw [Formula.eval_negate] at hoccupied
    obtain ⟨free, hfree, rfl⟩ := Option.map_eq_some_iff.mp hoccupied
    rw [eval_marks] at hmarks
    rw [map_some_injective hmarks]
    exact ⟨value, free, heap, hvalue, hfree, hheap, by rw [filterFact, hrelation]; rfl⟩
  · rintro ⟨value, free, heap, hvalue, hfree, hheap, rfl⟩
    refine ⟨rfl, ?_⟩
    simp only [filterAtom, filterFact, columns, List.cons_append, List.map_cons, List.map_append,
      Term.eval, hvalue, Formula.eval_negate, hfree, Option.map_some, eval_heapColumns hheap,
      eval_marks]

/-! ## Soundness -/

theorem lt_of_read {vars : List (String × TermSort)} (henv : env.Admits vars)
    (hmem : (Names.read, .bitVec width) ∈ vars) {value : Nat}
    (hvalue : (BvExpr.var Names.read width).eval env = some value) : value < valueCount width := by
  obtain ⟨other, hother, hlt⟩ := henv.exists_bits hmem
  rw [BvExpr.eval, hother] at hvalue
  exact Option.some.inj hvalue ▸ hlt

/-- A rule that follows a slot follows an edge of the graph. -/
theorem pointsTo_of_follow (hlayout : layout.Registered) {site : AllocationSite}
    (hsite : site ∈ layout.sites) {k : Nat} (hk : site.offset ≤ k ∧ k < site.headerSlot)
    {heap : List SlotValue}
    (hheap : (canonicalHeap Names.ownHeap layout.size width).map (HeapSlot.eval env) =
      heap.map some)
    (hlocal : (HeapSlot.canonical Names.ownHeap k width).cell.isLocal.Holds facts env)
    (hobject : (layout.isObject width k).Holds facts env) {target : Nat}
    (htarget : (HeapSlot.canonical Names.ownHeap k width).cell.value.eval env = some target) :
    layout.PointsTo width heap (site.objectValue width) target := by
  obtain ⟨slot, hslot, heval⟩ :=
    getElem?_of_canonicalHeap hheap (hk.2.trans (hlayout.headerSlot_lt hsite))
  obtain ⟨hvalue, -, hflag, -⟩ := Cell.eval_eq_some_iff.mp (HeapSlot.eval_eq_some_iff.mp heval).1
  obtain ⟨other, hother, hid⟩ := holds_isObject_iff.mp hobject
  rw [HeapSlot.canonical, Formula.Holds] at hlocal
  rw [HeapSlot.canonical, Formula.eval, hlocal] at hflag
  rw [hvalue] at htarget hid
  exact ⟨site, hsite, rfl, k, slot, hk, hslot, (Option.some.inj hflag).symm,
    Option.some.inj htarget, other, hother, by rw [← Option.some.inj htarget, Option.some.inj hid]⟩

/-- Whatever the rules derive is a path in the graph of its heap. -/
theorem reaches_of_derivable (hlayout : layout.Registered) {source target : Nat}
    {heap : List SlotValue}
    (h : Derivable (reachabilityRules layout width) (reachFact source target heap)) :
    source < valueCount width ∧
      Relation.ReflTransGen (layout.PointsTo width heap) source target := by
  refine Derivable.induct (motive := fun fact => ∀ source target heap,
    fact = reachFact source target heap → source < valueCount width ∧
      Relation.ReflTransGen (layout.PointsTo width heap) source target) ?_ h source target heap rfl
  intro clause hclause env fact henv hbody hhead source target heap hfact
  subst hfact
  rcases mem_reachabilityRules_iff.mp hclause with
    rfl | ⟨site, hsite, k, hk, rfl⟩ | ⟨j, site, -, rfl⟩
  · obtain ⟨a, b, heap', ha, hb, -, heq⟩ := denotes_reachAtom_iff.mp hhead
    obtain ⟨rfl, rfl, rfl⟩ := reachFact_injective heq
    rw [ha] at hb
    obtain rfl := Option.some.inj hb
    refine ⟨lt_of_read henv ?_ ha, .refl⟩
    simp [reflexiveRule, Clause.fact, Clause.vars, Atom.vars, reachAtom]
  · obtain ⟨a, b, heap', ha, hb, hheap, heq⟩ := denotes_reachAtom_iff.mp hhead
    obtain ⟨rfl, rfl, rfl⟩ := reachFact_injective heq
    obtain ⟨hreach, hlocal, hobject⟩ : _ ∧ _ ∧ _ := by
      simpa only [followRule, List.forall_mem_cons, List.not_mem_nil, false_imp_iff,
        implies_true, and_true] using hbody
    obtain ⟨premise, ⟨-, hpremise⟩, hdenotes⟩ := Formula.holds_atom.mp hreach
    obtain ⟨a, b, heap', ha', hb', hheap', rfl⟩ := denotes_reachAtom_iff.mp hdenotes
    -- the premise has the same heap and starts at the same value
    obtain rfl := map_some_injective (hheap.symm.trans hheap')
    rw [ha] at ha'
    obtain rfl := Option.some.inj ha'
    rw [eval_idLiteral] at hb'
    obtain rfl := Option.some.inj hb'
    obtain ⟨hlt, hpath⟩ := hpremise source _ heap rfl
    exact ⟨hlt, hpath.tail (pointsTo_of_follow hlayout hsite hk hheap hlocal hobject hb)⟩
  · have hrelation : filterRelation = reachRelation := hhead.relation_eq
    exact absurd hrelation (by decide)

end HeapLayout

/-! ## Completeness -/

/-- The valuation under which the local heap has some values and `val` another one. -/
def heapValuation (heap : List SlotValue) (value : Nat) : Valuation :=
  (stateValuation ⟨[], heap⟩).bind Names.read (.bits value)

section Valuation

variable {heap : List SlotValue} {value width : Nat}

theorem eval_read (heap : List SlotValue) (value width : Nat) :
    (BvExpr.var Names.read width).eval (heapValuation heap value) = some value := by
  simp [BvExpr.eval, Valuation.bits?, heapValuation, Valuation.bind]

/-- The names of slots start with another letter than `val`. -/
theorem heapValuation_eq {name : String} (hname : name.toList.head? = some 'l') :
    heapValuation heap value name = stateValuation ⟨[], heap⟩ name := by
  have hne : name ≠ Names.read := by
    rintro rfl
    simp [Names.read] at hname
  rw [heapValuation, Valuation.bind, if_neg hne]

theorem eval_slot_heapValuation {k : Nat} {slot : SlotValue} (hslot : heap[k]? = some slot)
    (value width : Nat) :
    (HeapSlot.canonical Names.ownHeap k width).eval (heapValuation heap value) = some slot := by
  have hstate : (StateValue.mk [] heap).heap[k]? = some slot := hslot
  rw [← eval_slot_stateValuation hstate width]
  simp only [HeapSlot.canonical, HeapSlot.eval, Cell.eval, BvExpr.eval, Formula.eval,
    Valuation.bits?, Valuation.bool?]
  rw [heapValuation_eq (by simp [Names.slotValue, Names.ownHeap, toString]),
    heapValuation_eq (by simp [Names.slotHigh, Names.ownHeap, toString]),
    heapValuation_eq (by simp [Names.slotLocal, Names.ownHeap, toString]),
    heapValuation_eq (by simp [Names.slotGlobal, Names.ownHeap, toString]),
    heapValuation_eq (by simp [Names.slotFree, Names.ownHeap, toString])]

theorem eval_canonicalHeap (heap : List SlotValue) (value width : Nat) :
    (canonicalHeap Names.ownHeap heap.length width).map (HeapSlot.eval (heapValuation heap value)) =
      heap.map some := by
  refine List.ext_getElem (by simp) fun k hk hk' => ?_
  rw [List.length_map] at hk'
  simp only [canonicalHeap, List.getElem_map, List.getElem_range]
  exact eval_slot_heapValuation (List.getElem?_eq_getElem hk') value width

theorem admits_heapValuation (hheap : ∀ slot ∈ heap, slot.cell.value < valueCount width)
    (hvalue : value < valueCount width) {vars : List (String × TermSort)}
    (hvars : Names.Respected width vars) : (heapValuation heap value).Admits vars := by
  have hcomplete : (heapValuation heap value).Complete width := by
    intro name
    by_cases hname : name = Names.read
    · refine ⟨.bits value, by rw [heapValuation, Valuation.bind, if_pos hname], ?_⟩
      rw [hname, Names.sort_auxiliaryValue]
      exact hvalue
    · have hstate : (StateValue.mk [] heap).InRange width := ⟨by simp, hheap⟩
      rw [heapValuation, Valuation.bind, if_neg hname]
      exact hstate.complete name
  exact hcomplete.admits hvars

end Valuation

namespace HeapLayout

variable {layout : HeapLayout} {width : Nat} {heap : List SlotValue}

theorem respected_reachabilityRules (layout : HeapLayout) (width : Nat) :
    ∀ clause ∈ reachabilityRules layout width, Names.Respected width clause.vars := by
  have hslot : ∀ k, (HeapSlot.canonical Names.ownHeap k width).Sorted width :=
    HeapSlot.sorted_canonical Names.isHeap_ownHeap
  have hcolumns : ∀ column ∈ layout.columns width, column.Sorted width :=
    sorted_heapColumns (sorted_canonicalHeap Names.isHeap_ownHeap _)
  have hread : (BvExpr.var Names.read width).Sorted width := BvExpr.sorted_auxiliary
  have hreach : ∀ {target : BvExpr}, target.Sorted width → Names.Respected width
      (reachAtom (.var Names.read width) target (layout.columns width)).toFormula.vars :=
    fun htarget => Atom.respected (List.forall_mem_cons.mpr
      ⟨hread, List.forall_mem_cons.mpr ⟨htarget, hcolumns⟩⟩)
  intro clause hclause
  -- the three kinds of rules differ in what they add to the reachability they start from
  rcases mem_reachabilityRules_iff.mp hclause with rfl | ⟨site, -, k, -, rfl⟩ | ⟨j, site, -, rfl⟩
  · exact Clause.respected (by simp [reflexiveRule, Clause.fact]) (hreach hread)
  · have hobject : (layout.isObject width k).Sorted width := by
      refine Formula.sorted_any fun part hpart => ?_
      obtain ⟨id, hid, rfl⟩ := List.mem_map.mp hpart
      obtain ⟨other, -, rfl⟩ := List.mem_map.mp hid
      exact (hslot k).cell.value.eqTo (GlobalHeap.sorted_idLiteral _)
    refine Clause.respected (List.forall_mem_cons.mpr ⟨hreach (GlobalHeap.sorted_idLiteral _),
      List.forall_mem_cons.mpr ⟨(hslot k).cell.isLocal.vars, List.forall_mem_singleton.mpr
        hobject.vars⟩⟩) (hreach (hslot k).cell.value)
  · refine Clause.respected (List.forall_mem_singleton.mpr (hreach (GlobalHeap.sorted_idLiteral _)))
      (Atom.respected (List.forall_mem_append.mpr ⟨List.forall_mem_cons.mpr ⟨hread,
        List.forall_mem_cons.mpr ⟨(hslot _).free.negate, hcolumns⟩⟩, fun mark hmark => ?_⟩))
    obtain ⟨i, hi, rfl⟩ := List.mem_mapIdx.mp hmark
    exact Formula.sorted_const _

/-- One step along a rule, from a heap of the layout and a value of the width. -/
theorem Fits.derive (hheap : layout.Fits width heap) {value : Nat}
    (hvalue : value < valueCount width) {clause : Clause}
    (hclause : clause ∈ reachabilityRules layout width) {fact : Fact}
    (hbody : ∀ part ∈ clause.body,
      part.Holds (Derivable (reachabilityRules layout width)) (heapValuation heap value))
    (hhead : clause.head.Denotes (heapValuation heap value) fact) :
    Derivable (reachabilityRules layout width) fact :=
  derivable_models _ clause hclause _ fact
    (admits_heapValuation hheap.inRange hvalue
      (respected_reachabilityRules layout width clause hclause))
    hbody hhead

theorem Fits.denotes_reachAtom (hheap : layout.Fits width heap) {source target : Nat}
    {expr : BvExpr} (hexpr : expr.eval (heapValuation heap source) = some target) :
    (reachAtom (.var Names.read width) expr (layout.columns width)).Denotes
      (heapValuation heap source) (reachFact source target heap) :=
  denotes_reachAtom_iff.mpr ⟨source, target, heap, eval_read heap source width, hexpr,
    hheap.length_eq ▸ eval_canonicalHeap heap source width, rfl⟩

/-- The rule of a slot follows the edges that the slot makes. -/
theorem Fits.derivable_of_pointsTo (hheap : layout.Fits width heap) {source middle target : Nat}
    (hsource : source < valueCount width)
    (hmiddle : Derivable (reachabilityRules layout width) (reachFact source middle heap))
    (hedge : layout.PointsTo width heap middle target) :
    Derivable (reachabilityRules layout width) (reachFact source target heap) := by
  obtain ⟨site, hsite, rfl, k, slot, hk, hslot, hlocal, rfl, other, hother, hvalue⟩ := hedge
  have heval := eval_slot_heapValuation hslot source width
  obtain ⟨hword, -, hflag, -⟩ := Cell.eval_eq_some_iff.mp (HeapSlot.eval_eq_some_iff.mp heval).1
  have hclause : layout.followRule width site k ∈ reachabilityRules layout width :=
    mem_reachabilityRules_iff.mpr (.inr (.inl ⟨site, hsite, k, hk, rfl⟩))
  refine hheap.derive hsource hclause ?_ (hheap.denotes_reachAtom hword)
  refine List.forall_mem_cons.mpr
    ⟨?_, List.forall_mem_cons.mpr ⟨?_, List.forall_mem_singleton.mpr ?_⟩⟩
  · exact Formula.holds_atom.mpr ⟨_, hmiddle, hheap.denotes_reachAtom (eval_idLiteral _ width site)⟩
  · rw [HeapSlot.canonical, Formula.eval, hlocal] at hflag
    rw [HeapSlot.canonical, Formula.Holds, hflag]
  · exact holds_isObject_iff.mpr ⟨other, hother, by rw [hword, hvalue]⟩

/-- Every path in the graph of a heap is derived. -/
theorem Fits.derivable_of_reaches (hheap : layout.Fits width heap) {source target : Nat}
    (hsource : source < valueCount width)
    (h : Relation.ReflTransGen (layout.PointsTo width heap) source target) :
    Derivable (reachabilityRules layout width) (reachFact source target heap) := by
  induction h with
  | refl =>
      refine hheap.derive hsource (mem_reachabilityRules_iff.mpr (.inl rfl)) ?_
        (hheap.denotes_reachAtom (eval_read heap source width))
      simp [reflexiveRule, Clause.fact]
  | tail _ hedge ih => exact hheap.derivable_of_pointsTo hsource ih hedge

/-! ## The least model -/

/-- The filter of a site is derived from what reaches the site. -/
theorem derivable_filterFact_iff (hlayout : layout.Registered) (hheap : layout.Fits width heap)
    {value : Nat} {occupied : Bool} {marks : List Bool} :
    Derivable (reachabilityRules layout width) (filterFact value occupied heap marks) ↔
      ∃ j site header, layout.sites[j]? = some site ∧
        marks = (List.replicate layout.sites.length false).set j true ∧
        Derivable (reachabilityRules layout width)
          (reachFact value (site.objectValue width) heap) ∧
        heap[site.headerSlot]? = some header ∧ occupied = !header.free := by
  constructor
  · intro h
    refine Derivable.induct (motive := fun fact => fact = filterFact value occupied heap marks → _)
      ?_ h rfl
    rintro clause hclause env fact henv hbody hhead rfl
    rcases mem_reachabilityRules_iff.mp hclause with
      rfl | ⟨site, hsite, k, hk, rfl⟩ | ⟨j, site, hsite, rfl⟩
    · -- the rules of reachability derive no filter
      have hrelation : reachRelation = filterRelation := hhead.relation_eq
      exact absurd hrelation (by decide)
    · have hrelation : reachRelation = filterRelation := hhead.relation_eq
      exact absurd hrelation (by decide)
    · obtain ⟨value', free, heap', hvalue, hfree, hcolumns, heq⟩ := denotes_filterAtom_iff.mp hhead
      have hlength : heap.length = heap'.length := by
        rw [hheap.length_eq, length_eq_of_map_eq hcolumns, length_canonicalHeap]
      obtain ⟨rfl, rfl, rfl, rfl⟩ := filterFact_injective hlength heq
      obtain ⟨premise, ⟨hpremise, -⟩, hdenotes⟩ :=
        Formula.holds_atom.mp (hbody _ (List.mem_singleton_self _))
      obtain ⟨a, b, heap', ha, hb, hcolumns', rfl⟩ := denotes_reachAtom_iff.mp hdenotes
      obtain rfl := map_some_injective (hcolumns.symm.trans hcolumns')
      rw [hvalue] at ha
      obtain rfl := Option.some.inj ha
      rw [eval_idLiteral] at hb
      obtain rfl := Option.some.inj hb
      obtain ⟨header, hheader, heval⟩ := getElem?_of_canonicalHeap hcolumns
        (hlayout.headerSlot_lt (List.mem_of_getElem? hsite))
      rw [(HeapSlot.eval_eq_some_iff.mp heval).2] at hfree
      obtain rfl := Option.some.inj hfree
      exact ⟨j, site, header, hsite, rfl, hpremise, hheader, rfl⟩
  · rintro ⟨j, site, header, hsite, rfl, hreach, hheader, rfl⟩
    have hvalue := (reaches_of_derivable hlayout hreach).1
    have heval := eval_slot_heapValuation hheader value width
    refine hheap.derive hvalue (mem_reachabilityRules_iff.mpr (.inr (.inr ⟨j, site, hsite, rfl⟩)))
      (List.forall_mem_singleton.mpr ?_) (denotes_filterAtom_iff.mpr ⟨value, header.free, heap,
        eval_read heap value width, (HeapSlot.eval_eq_some_iff.mp heval).2,
        hheap.length_eq ▸ eval_canonicalHeap heap value width, rfl⟩)
    exact Formula.holds_atom.mpr ⟨_, hreach, hheap.denotes_reachAtom (eval_idLiteral _ width site)⟩

/-- In the least model of the rules, an object reaches exactly the objects that can be reached in
the graph of the heap, and a filter holds exactly for one site that is reached, with whether the
header of the site is occupied. -/
theorem local_reachability_exact (hlayout : layout.Registered) (hheap : layout.Fits width heap) :
    IsLeast {facts | consequences (reachabilityRules layout width) facts ⊆ facts}
        {fact | Derivable (reachabilityRules layout width) fact} ∧
      (∀ source target,
        Derivable (reachabilityRules layout width) (reachFact source target heap) ↔
          source < valueCount width ∧
            Relation.ReflTransGen (layout.PointsTo width heap) source target) ∧
      ∀ value occupied marks,
        Derivable (reachabilityRules layout width) (filterFact value occupied heap marks) ↔
          ∃ j site header, layout.sites[j]? = some site ∧
            marks = (List.replicate layout.sites.length false).set j true ∧
            Derivable (reachabilityRules layout width)
              (reachFact value (site.objectValue width) heap) ∧
            heap[site.headerSlot]? = some header ∧ occupied = !header.free :=
  ⟨isLeast_derivable (isHorn_reachabilityRules layout width),
    fun _ _ => ⟨reaches_of_derivable hlayout, fun h => hheap.derivable_of_reaches h.1 h.2⟩,
    fun _ _ _ => derivable_filterFact_iff hlayout hheap⟩

/-- Three sites, of which the first and the last have the same value at a width of eight. -/
def sampleLayout : HeapLayout :=
  ((empty.addSite 1 "La;" 1 [(3, false)]).addSite 2 "Lb;" 2 [(4, false)]).addSite 257 "Lc;" 3
    [(5, false)]

/-- A heap in which the last site refers to the second one, which refers to itself. -/
def sampleHeap : List SlotValue :=
  [⟨⟨0, false, false, false⟩, true⟩, ⟨⟨0, false, false, false⟩, true⟩,
    ⟨⟨2, false, true, false⟩, false⟩, ⟨⟨0, false, false, false⟩, false⟩,
    ⟨⟨2, true, true, false⟩, false⟩, ⟨⟨0, false, false, false⟩, false⟩]

theorem local_reachability_exact_sample :
    sampleLayout.Registered ∧ sampleLayout.Fits 8 sampleHeap ∧
      Derivable (reachabilityRules sampleLayout 8) (reachFact 1 2 sampleHeap) ∧
      Derivable (reachabilityRules sampleLayout 8)
        (filterFact 1 false sampleHeap [true, false, false]) ∧
      ¬ Derivable (reachabilityRules sampleLayout 8) (reachFact 3 2 sampleHeap) := by
  have hlayout : sampleLayout.Registered :=
    ((Registered.empty.addSite _ _ _ _).addSite _ _ _ _).addSite _ _ _ _
  have hheap : sampleLayout.Fits 8 sampleHeap := ⟨by decide, by decide⟩
  obtain ⟨-, hreach, hfilter⟩ := local_reachability_exact hlayout hheap
  have hedge : sampleLayout.PointsTo 8 sampleHeap 1 2 :=
    ⟨⟨257, "Lc;", 3, 4, [(5, false)]⟩, by decide, by decide, 4, _, by decide, rfl, rfl, rfl,
      ⟨2, "Lb;", 2, 2, [(4, false)]⟩, by decide, by decide⟩
  refine ⟨hlayout, hheap, (hreach 1 2).mpr ⟨by decide, .single hedge⟩, ?_, ?_⟩
  · exact (hfilter 1 false _).mpr ⟨0, ⟨1, "La;", 1, 0, [(3, false)]⟩, _, by decide, by decide,
      (hreach 1 _).mpr ⟨by decide, .refl⟩, rfl, rfl⟩
  · -- no site has the value three, so nothing but itself is reached from there
    intro h
    rcases ((hreach 3 2).mp h).2.cases_head with heq | ⟨middle, ⟨site, hsite, hvalue, -⟩, -⟩
    · exact absurd heq (by decide)
    · exact absurd hvalue ((by decide :
        ∀ site ∈ sampleLayout.sites, site.objectValue 8 ≠ 3) site hsite)

end HeapLayout

end DalvikHorn
