import DalvikHorn.Heap.Global
import DalvikHorn.Heap.Layout
import DalvikHorn.State.Basic

/-!
# Lifting

When a reference to a local object escapes, the whole local heap moves to the
global one.  Every occupied site writes its fields as facts of `H` (`flushAll`),
every register that refers to the local heap refers to the global heap instead,
and all slots become empty (`State.promote`).
-/

namespace DalvikHorn

/-- A state after its local heap has moved to the global one.  Argument copies are kept. -/
def State.promote (layout : HeapLayout) (width numRegisters : Nat) (state : State) : State :=
  (state.mapRegisters (numRegisters + 1) fun _ cell => cell.promote).withHeap
    (List.replicate layout.size (.empty width))

/-- The facts that a site leaves on the global heap when its header is not free: one per
field, or one for any field when the fields of its type are unknown. -/
def flushSite (width : Nat) (site : AllocationSite) (body : List Formula) (state : State) :
    Except Error (List Clause) := do
  let header ← state.slot site.headerSlot
  let guard := body ++ [header.free.negate]
  let classKey := GlobalHeap.idLiteral width site.classId
  let id := GlobalHeap.idLiteral width site.id
  if site.hasLayout then
    (site.fields.zip site.fieldSlots).mapM fun ((field, _), k) => do
      let slot ← state.slot k
      return {
        body := guard
        head := GlobalHeap.object classKey id (GlobalHeap.idLiteral width field) slot.cell.value
          slot.cell.high slot.cell.blocked }
  else
    return [{
      body := guard
      head := GlobalHeap.object classKey id (.var Names.field width) (.zero width) .ff
        (.var Names.fieldBlocked) }]

/-- The facts that the whole local heap leaves on the global one. -/
def flushAll (layout : HeapLayout) (width : Nat) (body : List Formula) (state : State) :
    Except Error (List Clause) := do
  let clauses ← layout.sites.mapM fun site => flushSite width site body state
  return clauses.flatten

end DalvikHorn
