import DalvikHorn.Dalvik.Descriptor
import DalvikHorn.Heap.Layout

/-!
# Fields of framework types

Types of the framework have no class in a program.  The fields of those that
programs read directly are listed here.
-/

namespace DalvikHorn

/-- The instance fields of framework types by name and descriptor. -/
def frameworkTypes : List (String × List (String × String)) :=
  [("Landroid/graphics/PointF;", [("x", "F"), ("y", "F")]),
    ("Landroid/graphics/Point;", [("x", "I"), ("y", "I")]),
    ("Landroid/graphics/Rect;", [("left", "I"), ("top", "I"), ("right", "I"), ("bottom", "I")]),
    ("Landroid/content/Intent;",
      [("mAction", "Ljava/lang/String;"), ("mData", "Landroid/net/Uri;"),
        ("mType", "Ljava/lang/String;"), ("mFlags", "I"),
        ("mComponent", "Landroid/content/ComponentName;"), ("mExtras", "Landroid/os/Bundle;")]),
    ("Landroid/content/ComponentName;",
      [("mPackage", "Ljava/lang/String;"), ("mClass", "Ljava/lang/String;")]),
    ("Landroid/location/Location;",
      [("mLatitude", "D"), ("mLongitude", "D"), ("mProvider", "Ljava/lang/String;")])]

/-- The fields of a framework type. -/
def frameworkFields? (typeName : String) : Option FieldTable :=
  (frameworkTypes.lookup typeName).map fun fields =>
    .ofList (fields.map fun (name, type) => (fieldId name type, isPrimitive type))

end DalvikHorn
