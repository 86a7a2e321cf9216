/-!
# Stable identifiers

Classes, methods, fields and allocation sites are named by 32-bit hashes of
their descriptor texts, so that a relation has the same name in every run.  All
four hashes are the same polynomial with base 31, evaluated in wrapping 32-bit
arithmetic: over the UTF-16 units of a descriptor (`textHash`), or over the
three components of a program point (`siteHash`).
-/

namespace DalvikHorn

/-- The identifier of a class, the hash of its descriptor. -/
abbrev ClassId := Int32

/-- The identifier of a method, the hash of its signature `name(parameters)return`. -/
abbrev MethodId := Int32

/-- The identifier of a field, the hash of `name:type`. -/
abbrev FieldId := Int32

/-- The identifier of an allocation site or of a synthetic object. -/
abbrev InstanceId := Int32

/-! ## Hashes -/

/-- One step of the polynomial hash with base 31. -/
def hashStep (hash next : Int32) : Int32 :=
  hash * 31 + next

/-- The UTF-16 units of a character: itself inside the basic plane, and its
surrogate pair outside. -/
def utf16Units (c : Char) : List Int32 :=
  let code := c.toNat
  if code < 0x10000 then
    [Int32.ofNat code]
  else
    let offset := code - 0x10000
    [Int32.ofNat (0xD800 + offset / 0x400), Int32.ofNat (0xDC00 + offset % 0x400)]

/-- The polynomial hash of a text, over its UTF-16 units. -/
def textHash (text : String) : Int32 :=
  (text.toList.flatMap utf16Units).foldl hashStep 0

/-- The identity of the allocation site at an instruction. -/
def siteHash (owner : ClassId) (method : MethodId) (pc : UInt32) : InstanceId :=
  [owner, method, pc.toInt32].foldl hashStep 1

/-! ## Program points -/

/-- A position in a program: an instruction of a method of a class. -/
structure ProgramPoint where
  owner : ClassId
  method : MethodId
  pc : UInt32
  deriving DecidableEq, Repr

namespace ProgramPoint

/-- Another instruction of the same method. -/
def withPc (point : ProgramPoint) (pc : UInt32) : ProgramPoint :=
  { point with pc := pc }

/-- The name of the relation that holds the states reachable at a point. -/
def relationName (point : ProgramPoint) : String :=
  s!"R_{point.owner.toInt}_{point.method.toInt}_{point.pc.toNat}"

/-- The text of a point in messages. -/
def text (point : ProgramPoint) : String :=
  s!"{point.owner.toInt}:{point.method.toInt}@{point.pc.toNat}"

end ProgramPoint

/-- The name of the relation that holds the exits of a method. -/
def exitRelationName (owner : ClassId) (method : MethodId) : String :=
  s!"RES_{owner.toInt}_{method.toInt}"

end DalvikHorn
