import DalvikHorn.Ident

/-!
# The layout of the local heap

Every allocation site owns consecutive slots of the local heap: one per field of
the allocated type, by ascending field, and then a header.  The free flag of the
header tells whether the site holds an object.  Sites get their slots in the
order of their registration and keep them.
-/

namespace DalvikHorn

/-! ## Fields -/

/-- The fields of a type, each with whether it is primitive, by ascending identifier. -/
abbrev FieldTable := List (FieldId × Bool)

namespace FieldTable

/-- Adds a field, or replaces the one with its identifier. -/
def insert (field : FieldId × Bool) : FieldTable → FieldTable
  | [] => [field]
  | first :: rest =>
      if field.1 < first.1 then field :: first :: rest
      else if field.1 = first.1 then field :: rest
      else first :: insert field rest

/-- The table of some fields; of two with one identifier the later one counts. -/
def ofList (fields : List (FieldId × Bool)) : FieldTable :=
  fields.foldl (fun table field => insert field table) []

end FieldTable

/-! ## Sites -/

/-- An allocation site with its place in the local heap. -/
structure AllocationSite where
  /-- The identifier of the objects of this site. -/
  id : InstanceId
  /-- The descriptor of the allocated type. -/
  typeName : String
  classId : ClassId
  /-- The first slot. -/
  offset : Nat
  /-- The fields in the order of their slots; none when the type is unknown. -/
  fields : FieldTable
  deriving DecidableEq, Repr

namespace AllocationSite

variable (site : AllocationSite)

/-- The number of fields. -/
def size : Nat :=
  site.fields.length

/-- Whether the fields of the type are known. -/
def hasLayout : Bool :=
  !site.fields.isEmpty

/-- The slot of a field. -/
def fieldSlot? (field : FieldId) : Option Nat :=
  (site.fields.findIdx? (·.1 == field)).map (site.offset + ·)

/-- The slot of the header. -/
def headerSlot : Nat :=
  site.offset + site.size

/-- The slots of the fields. -/
def fieldSlots : List Nat :=
  List.range' site.offset site.size

/-- The slots of the fields and the header. -/
def slots : List Nat :=
  List.range' site.offset (site.size + 1)

end AllocationSite

/-! ## Layouts -/

/-- The sites of a program in the order of their registration. -/
structure HeapLayout where
  sites : List AllocationSite := []
  deriving DecidableEq, Repr

namespace HeapLayout

variable (layout : HeapLayout)

/-- The layout without sites. -/
def empty : HeapLayout := {}

/-- The number of slots. -/
def size : Nat :=
  layout.sites.foldr (fun site rest => site.size + 1 + rest) 0

/-- The site of an object. -/
def site? (id : InstanceId) : Option AllocationSite :=
  layout.sites.find? (·.id == id)

/-- Registers a site behind all others.  A second registration has no effect. -/
def addSite (id : InstanceId) (typeName : String) (classId : ClassId)
    (fields : List (FieldId × Bool)) : HeapLayout :=
  match layout.site? id with
  | some _ => layout
  | none =>
      { sites := layout.sites ++
          [{ id := id, typeName := typeName, classId := classId, offset := layout.size,
             fields := .ofList fields }] }

/-- The sites that have a field, each with the slot of the field. -/
def sitesWithField (field : FieldId) : List (AllocationSite × Nat) :=
  layout.sites.filterMap fun site => (site.fieldSlot? field).map (site, ·)

end HeapLayout

end DalvikHorn
