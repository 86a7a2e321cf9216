import DalvikHorn.Clause
import DalvikHorn.State.Names
import DalvikHorn.Dalvik.Descriptor

/-!
# The global heap

Objects that several methods can see live in four relations: `H` for objects,
`HI` for the extras of intents, `I` for launched intents and `S` for static
fields.  Each keeps a value with its label and with whether it is a reference.
-/

namespace DalvikHorn.GlobalHeap

/-! ## Names -/

/-- The relation of objects. -/
def objectRelation : String := "H"

/-- The relation of the extras of intents. -/
def extraRelation : String := "HI"

/-- The relation of launched intents. -/
def launchRelation : String := "I"

/-- The relation of static fields. -/
def staticRelation : String := "S"

/-- The activity that launched an activity. -/
def parentField : String := "parent"

/-- The result of an activity. -/
def resultField : String := "result"

/-- The intent of an activity. -/
def intentField : String := "intent"

/-- The text of a message. -/
def messageField : String := "message"

/-- The hint of a widget. -/
def hintField : String := "hint"

/-! ## Keys -/

/-- The bit-vector of an identifier. -/
def idLiteral (width : Nat) (id : Int32) : BvExpr :=
  .ofInt id.toInt width

/-- The bit-vector of a synthetic field or key, which is known by its bare name. -/
def namedKey (width : Nat) (name : String) : BvExpr :=
  idLiteral width (textHash name)

/-- The bit-vector of a declared field. -/
def fieldKey (width : Nat) (name type : String) : BvExpr :=
  idLiteral width (fieldId name type)

/-! ## Atoms -/

/-- An object of a class has a value in a field. -/
def object (classKey id field value : BvExpr) (high blocked : Formula) : Atom where
  relation := objectRelation
  args := [.bv classKey, .bv id, .bv field, .bv value, .bool high, .bool blocked]

/-- An intent has a value under a key. -/
def extra (intent key value : BvExpr) (high blocked : Formula) : Atom where
  relation := extraRelation
  args := [.bv intent, .bv key, .bv value, .bool high, .bool blocked]

/-- A component has been launched by another one with an intent. -/
def launch (component caller value : BvExpr) (high blocked : Formula) : Atom where
  relation := launchRelation
  args := [.bv component, .bv caller, .bv value, .bool high, .bool blocked]

/-- A static field has a value. -/
def static (classKey field : IntExpr) (value : BvExpr) (high blocked : Formula) : Atom where
  relation := staticRelation
  args := [.int classKey, .int field, .bv value, .bool high, .bool blocked]

/-! ## Activities -/

/-- The result of an activity is also that of the activity that launched it. -/
def activityResultRule (width : Nat) : Clause :=
  let variable_ := fun name => BvExpr.var name width
  let activity := variable_ Names.className
  let parent := variable_ Names.field
  let value := variable_ Names.read
  let result := namedKey width resultField
  { body :=
      [object activity activity (namedKey width parentField) parent
          (.var Names.fieldHigh) (.var Names.fieldBlocked),
        object activity activity result value (.var Names.readHigh) (.var Names.readBlocked),
        object parent parent (variable_ Names.anyField) (variable_ Names.anyValue)
          (.var Names.anyHigh) (.var Names.anyBlocked)]
    head := object parent parent result value (.var Names.readHigh) (.var Names.readBlocked) }

end DalvikHorn.GlobalHeap
