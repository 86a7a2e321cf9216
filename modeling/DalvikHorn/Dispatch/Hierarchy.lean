import DalvikHorn.Dalvik.Program

/-!
# The class hierarchy of a program

Classes are known by identifier.  When several classes of a program share one,
the last of them counts.  All walks end on every class table: the chain of
superclasses stops at a class that the program does not have or that it has
already met, and the search for an interface enters no class twice.
-/

namespace DalvikHorn

/-! ## Class tables -/

/-- The classes of a program by identifier, and the objects that it allocates. -/
structure ClassTable where
  /-- The classes with their identifiers, the last one first. -/
  classes : List (ClassId × Class)
  /-- The allocated objects with the identifiers of their types. -/
  allocations : List (ClassId × InstanceId)

/-- The objects that a program allocates, with the identifiers of their types. -/
def Program.allocations (program : Program) : List (ClassId × InstanceId) :=
  program.methods.flatMap fun (decl, method) =>
    method.instructions.filterMap fun instruction =>
      if instruction.opcode = .newInstance then
        instruction.reference.map fun typeName =>
          (textHash typeName, siteHash decl.id method.id instruction.pc)
      else
        none

/-- The class table of a program. -/
def Program.classTable (program : Program) : ClassTable where
  classes := program.classes.reverse.map fun decl => (decl.id, decl)
  allocations := program.allocations

namespace ClassTable

variable (table : ClassTable)

/-! ## Declarations -/

/-- The class with an identifier. -/
def class? (id : ClassId) : Option Class :=
  table.classes.lookup id

/-- The superclass of a class. -/
def superOf? (id : ClassId) : Option ClassId :=
  (table.class? id).bind fun decl => decl.superClass.map textHash

/-- The frame of a method that a class declares; methods whose arguments do not fit into
their registers are ignored. -/
def declaredShape? (owner : ClassId) (method : MethodId) : Option FrameShape :=
  (table.class? owner).bind fun decl =>
    (decl.methods.reverse.find? fun candidate =>
      decide candidate.shape.WellFormed && candidate.id == method).map (·.shape)

/-- Whether a class declares a static field. -/
def declaresStatic (owner : ClassId) (field : FieldId) : Bool :=
  (table.class? owner).any fun decl => decl.staticFields.any (·.id == field)

/-- The objects that are allocated for a type. -/
def allocationsOf (type : ClassId) : List InstanceId :=
  (table.allocations.filter (·.1 == type)).map (·.2)

/-! ## Superclasses -/

/-- The chain of superclasses from a class on, unless it has been met before. -/
def superChainFrom (met : List ClassId) : Nat → ClassId → List ClassId
  | 0, _ => []
  | fuel + 1, id =>
      if met.contains id then []
      else
        id ::
          match table.superOf? id with
          | some next => superChainFrom (id :: met) fuel next
          | none => []

/-- A class and its superclasses, nearest first.  All but the last are classes of the
program and none stands twice, which bounds the walk. -/
def superChain (id : ClassId) : List ClassId :=
  table.superChainFrom [] (table.classes.length + 1) id

/-! ## Subtypes -/

/-- Searches an interface from a candidate on, through the interfaces of classes that have
not been met before.  The result also tells which classes have been met. -/
def reachesInterface (interface : ClassId) : Nat → List ClassId → ClassId → Bool × List ClassId
  | 0, met, _ => (false, met)
  | fuel + 1, met, candidate =>
      if candidate = interface then (true, met)
      else if met.contains candidate then (false, met)
      else
        match table.class? candidate with
        | none => (false, candidate :: met)
        | some decl =>
            (decl.interfaces.map textHash).foldl
              (fun (found, met) next =>
                if found then (true, met) else reachesInterface interface fuel met next)
              (false, candidate :: met)

/-- Whether a class is another one or inherits from it. -/
def isSubtype (candidate ancestor : ClassId) : Bool :=
  ((table.superChain candidate).foldl
    (fun (found, met) next =>
      if found then (true, met)
      else table.reachesInterface ancestor (table.classes.length + 2) met next)
    (false, [])).1

/-! ## Inherited members -/

/-- The nearest definition of a method at or above a class, with its frame. -/
def lookup? (owner : ClassId) (method : MethodId) : Option (ClassId × FrameShape) :=
  (table.superChain owner).findSome? fun id =>
    (table.declaredShape? id method).map (id, ·)

/-- The nearest class at or above a class that declares a static field. -/
def staticFieldOwner? (owner : ClassId) (field : FieldId) : Option ClassId :=
  (table.superChain owner).find? (table.declaresStatic · field)

/-- The instance fields of a class and its superclasses, nearest first. -/
def inheritedFields (owner : ClassId) : List Field :=
  ((table.superChain owner).filterMap table.class?).flatMap (·.instanceFields)

end ClassTable

end DalvikHorn
