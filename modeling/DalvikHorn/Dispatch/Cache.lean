import DalvikHorn.Dispatch.Oracle

/-!
# Cached dispatch

The same targets are asked for again and again.  A cache keeps every answer of
an oracle, also when there is no target.
-/

namespace DalvikHorn

/-- The answers that an oracle has given. -/
structure DispatchCache where
  virtualTargets : List ((ClassId × MethodId) × Option (List Implementation)) := []
  staticTargets : List ((ClassId × MethodId) × Option (List Definition)) := []

namespace DispatchCache

variable (cache : DispatchCache)

/-- The number of answers. -/
def size : Nat :=
  cache.virtualTargets.length + cache.staticTargets.length

/-- The implementations of a method, from the cache or from the oracle. -/
def resolveVirtual (oracle : Oracle) (owner : ClassId) (method : MethodId) :
    Option (List Implementation) × DispatchCache :=
  match cache.virtualTargets.lookup (owner, method) with
  | some known => (known, cache)
  | none =>
      let found := oracle.resolveVirtual owner method
      (found, { cache with virtualTargets := ((owner, method), found) :: cache.virtualTargets })

/-- The definitions of a method, from the cache or from the oracle. -/
def resolveStatic (oracle : Oracle) (owner : ClassId) (method : MethodId) :
    Option (List Definition) × DispatchCache :=
  match cache.staticTargets.lookup (owner, method) with
  | some known => (known, cache)
  | none =>
      let found := oracle.resolveStatic owner method
      (found, { cache with staticTargets := ((owner, method), found) :: cache.staticTargets })

end DispatchCache

end DalvikHorn
