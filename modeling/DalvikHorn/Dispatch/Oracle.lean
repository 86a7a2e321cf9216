import DalvikHorn.Dispatch.Hierarchy
import DalvikHorn.Dispatch.Labels
import DalvikHorn.Heap.Library

/-!
# Dispatch oracles

Compilation does not decide by itself where a call goes, which fields an object
has or how objects are named: it asks an oracle.  `Program.oracle` answers from
the program alone.  `Oracle.override` replaces some answers of another oracle.
-/

namespace DalvikHorn

/-! ## Answers -/

/-- A method that a virtual call can reach, and the receivers for which it does. -/
structure Implementation where
  owner : ClassId
  method : MethodId
  shape : FrameShape
  receivers : List InstanceId
  deriving DecidableEq, Repr

/-- A method that a direct call reaches. -/
structure Definition where
  owner : ClassId
  method : MethodId
  shape : FrameShape
  deriving DecidableEq, Repr

/-- What compilation wants to know about a program. -/
structure Oracle where
  /-- The implementations of a method for receivers of a class, if there are any. -/
  resolveVirtual : ClassId → MethodId → Option (List Implementation)
  /-- The definitions of a method, if it is no library method. -/
  resolveStatic : ClassId → MethodId → Option (List Definition)
  /-- The identifier of the object that an instruction allocates.  The first argument is the
  number of identifiers that were asked for before. -/
  allocationId : Nat → ClassId → MethodId → UInt32 → InstanceId
  /-- The fields of a type, if it is known. -/
  fieldLayout : String → Option FieldTable
  isSource : ClassId → MethodId → Bool
  isSink : ClassId → MethodId → Bool
  hasStaticInitializer : ClassId → Bool
  /-- The frame of a method at or above a class. -/
  methodShape : ClassId → MethodId → Option FrameShape
  /-- The class that declares a static field, if it is another one than the class that the
  field is accessed through. -/
  staticFieldOwner : ClassId → FieldId → Option ClassId

/-! ## Receivers -/

/-- Adds an identifier to an ascending list of distinct ones. -/
def insertAscending (id : Int32) : List Int32 → List Int32
  | [] => [id]
  | first :: rest =>
      if id < first then id :: first :: rest
      else if id = first then first :: rest
      else first :: insertAscending id rest

/-- The distinct identifiers of a list in ascending order. -/
def ascending (ids : List Int32) : List Int32 :=
  ids.foldr insertAscending []

namespace ClassTable

variable (table : ClassTable)

/-- The receivers of a class: the objects allocated for it, and for an entry class the object
that the analysis starts with. -/
def receiversOf (owner : ClassId) : List InstanceId :=
  let start := if (table.class? owner).any (·.isEntryClass) then [siteHash owner 0 0] else []
  ascending (table.allocationsOf owner ++ start)

/-! ## The answers of a program -/

/-- The nearest definitions of a method for all subtypes of a class, each with the receivers
of its subtype. -/
def nearestDefinitions (owner : ClassId) (method : MethodId) :
    List (ClassId × FrameShape × List InstanceId) :=
  table.classes.filterMap fun (subtype, _) =>
    if table.isSubtype subtype owner then
      (table.lookup? subtype method).map fun (target, shape) =>
        (target, shape, table.receiversOf subtype)
    else
      none

/-- The implementations that a virtual call can reach: one per nearest definition that has a
receiver, by ascending class. -/
def resolveVirtual (owner : ClassId) (method : MethodId) : Option (List Implementation) :=
  let nearest := table.nearestDefinitions owner method
  let implementations := (ascending (nearest.map (·.1))).filterMap fun target =>
    let own := nearest.filter (·.1 == target)
    let receivers := ascending (own.flatMap (·.2.2))
    match own with
    | (_, shape, _) :: _ =>
        if receivers.isEmpty then none
        else some { owner := target, method := method, shape := shape, receivers := receivers }
    | [] => none
  if implementations.isEmpty then none else some implementations

/-- The definition that a direct call reaches: the nearest one. -/
def resolveStatic (owner : ClassId) (method : MethodId) : Option (List Definition) :=
  (table.lookup? owner method).map fun (target, shape) =>
    [{ owner := target, method := method, shape := shape }]

/-- The fields of a type: those of the class and its superclasses, or those of a framework
type. -/
def fieldLayout (typeName : String) : Option FieldTable :=
  let owner := textHash typeName
  if (table.class? owner).isSome then
    some (.ofList ((table.inheritedFields owner).map fun field => (field.id, field.isPrimitive)))
  else
    frameworkFields? typeName

/-- The oracle that answers from a class table alone. -/
def oracle (labels : Labels) : Oracle where
  resolveVirtual := table.resolveVirtual
  resolveStatic := table.resolveStatic
  allocationId := fun _ => siteHash
  fieldLayout := table.fieldLayout
  isSource := labels.isSource
  isSink := labels.isSink
  hasStaticInitializer := fun owner => (table.class? owner).any (·.hasStaticInitializer)
  methodShape := fun owner method => (table.lookup? owner method).map (·.2)
  staticFieldOwner := table.staticFieldOwner?

end ClassTable

/-- The oracle that answers from a program alone. -/
def Program.oracle (program : Program) (labels : Labels) : Oracle :=
  program.classTable.oracle labels

/-! ## Overridden answers -/

/-- Answers that take precedence over those of an oracle. -/
structure Answers where
  /-- The first of the identifiers that allocations get in the order of the requests. -/
  consecutiveFrom : Option Int32 := none
  allocations : List ((ClassId × MethodId × UInt32) × InstanceId) := []
  virtualTargets : List ((ClassId × MethodId) × Option (List Implementation)) := []
  staticTargets : List ((ClassId × MethodId) × Option (List Definition)) := []
  layouts : List (String × Option FieldTable) := []

/-- An oracle with some answers replaced.  Of two answers to one question the later one
counts.  Static fields belong to the class that they are accessed through. -/
def Oracle.override (oracle : Oracle) (answers : Answers) : Oracle :=
  { oracle with
    resolveVirtual := fun owner method =>
      (answers.virtualTargets.reverse.lookup (owner, method)).getD
        (oracle.resolveVirtual owner method)
    resolveStatic := fun owner method =>
      (answers.staticTargets.reverse.lookup (owner, method)).getD
        (oracle.resolveStatic owner method)
    allocationId := fun request owner method pc =>
      match answers.consecutiveFrom with
      | some first => first + Int32.ofNat request
      | none =>
          (answers.allocations.reverse.lookup (owner, method, pc)).getD
            (oracle.allocationId request owner method pc)
    fieldLayout := fun typeName =>
      (answers.layouts.reverse.lookup typeName).getD (oracle.fieldLayout typeName)
    staticFieldOwner := fun _ _ => none }

end DalvikHorn
