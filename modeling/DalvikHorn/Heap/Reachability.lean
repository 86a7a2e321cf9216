import DalvikHorn.Heap.Layout
import DalvikHorn.Heap.Global
import DalvikHorn.State.Basic

/-!
# Reachability in the local heap

`ReachLH a b heap` tells that object `b` can be reached from `a` through local
references that the heap stores.  `CFilter v occupied heap filter` tells that `v`
reaches the object of the one site that `filter` marks, and whether that site is
occupied.
-/

namespace DalvikHorn

/-- The relation of reachable objects. -/
def reachRelation : String := "ReachLH"

/-- The relation of reachable sites. -/
def filterRelation : String := "CFilter"

/-- One object reaches another one. -/
def reachAtom (source target : BvExpr) (heap : List Term) : Atom where
  relation := reachRelation
  args := .bv source :: .bv target :: heap

/-- The rules of both relations. -/
def reachabilityRules (layout : HeapLayout) (width : Nat) : List Clause :=
  let slotAt := fun k => HeapSlot.canonical Names.ownHeap k width
  let heap := heapColumns (canonicalHeap Names.ownHeap layout.size width)
  let source := BvExpr.var Names.read width
  let ids := layout.sites.map fun site => GlobalHeap.idLiteral width site.id
  let reflexive := Clause.fact (reachAtom source source heap)
  let steps := layout.sites.flatMap fun site =>
    site.fieldSlots.map fun k =>
      let cell := (slotAt k).cell
      { body :=
          [reachAtom source (GlobalHeap.idLiteral width site.id) heap, cell.isLocal,
            Formula.any (ids.map cell.value.eqTo)]
        head := reachAtom source cell.value heap }
  let filters := layout.sites.mapIdx fun j site =>
    { body := [reachAtom source (GlobalHeap.idLiteral width site.id) heap]
      head :=
        { relation := filterRelation
          args :=
            .bv source :: .bool (slotAt site.headerSlot).free.negate :: heap ++
              layout.sites.mapIdx fun i _ => .bool (.const (i == j)) } }
  reflexive :: steps ++ filters

end DalvikHorn
