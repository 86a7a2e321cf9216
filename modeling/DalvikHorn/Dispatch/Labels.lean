import DalvikHorn.Dalvik.Descriptor

/-!
# Sources and sinks

Secrets enter a program through calls of sources and may not leave it through
calls of sinks.  Both are given as method references, and a call is recognised
by the identifiers of its class and method.
-/

namespace DalvikHorn

/-- The methods whose results are secret unless configured otherwise. -/
def defaultSources : List String :=
  ["Landroid/telephony/TelephonyManager;->getDeviceId()Ljava/lang/String;",
    "Landroid/telephony/TelephonyManager;->getSubscriberId()Ljava/lang/String;",
    "Landroid/telephony/TelephonyManager;->getLine1Number()Ljava/lang/String;",
    "Landroid/location/Location;->getLatitude()D",
    "Landroid/location/Location;->getLongitude()D"]

/-- The methods that may not be given secrets unless configured otherwise. -/
def defaultSinks : List String :=
  ["Landroid/telephony/SmsManager;->sendTextMessage(Ljava/lang/String;Ljava/lang/String;" ++
      "Ljava/lang/String;Landroid/app/PendingIntent;Landroid/app/PendingIntent;)V",
    "Landroid/util/Log;->d(Ljava/lang/String;Ljava/lang/String;)I",
    "Landroid/util/Log;->i(Ljava/lang/String;Ljava/lang/String;)I",
    "Landroid/util/Log;->e(Ljava/lang/String;Ljava/lang/String;)I",
    "Landroid/util/Log;->v(Ljava/lang/String;Ljava/lang/String;)I",
    "Landroid/util/Log;->w(Ljava/lang/String;Ljava/lang/String;)I",
    "Ljava/io/OutputStream;->write([B)V"]

/-- The class and method of a signature. -/
def parseSignature (signature : String) : Except ReferenceError (ClassId × MethodId) :=
  (MethodRef.parse signature).map fun method => (method.classId, method.methodId)

/-- The sources and sinks of an analysis. -/
structure Labels where
  /-- The sources, each once. -/
  sources : List (ClassId × MethodId) := []
  /-- The sinks, each once. -/
  sinks : List (ClassId × MethodId) := []
  deriving DecidableEq, Repr

namespace Labels

/-- The methods of some signatures, each once. -/
def methodsOf (signatures : List String) : Except ReferenceError (List (ClassId × MethodId)) := do
  return (← signatures.mapM parseSignature).eraseDups

/-- The sources and sinks of two lists of signatures. -/
def ofSignatures (sources sinks : List String) : Except ReferenceError Labels := do
  return { sources := ← methodsOf sources, sinks := ← methodsOf sinks }

/-- Whether a method is a source. -/
def isSource (labels : Labels) (owner : ClassId) (method : MethodId) : Bool :=
  labels.sources.contains (owner, method)

/-- Whether a method is a sink. -/
def isSink (labels : Labels) (owner : ClassId) (method : MethodId) : Bool :=
  labels.sinks.contains (owner, method)

end Labels

end DalvikHorn
