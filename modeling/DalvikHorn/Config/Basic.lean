import DalvikHorn.Dispatch.Labels

/-!
# Configurations

A configuration fixes the width of values, how arrays and queries are encoded,
which auxiliary relations and library rules are used, and the sources and sinks.
A preset gives all of it a value to start from.
-/

namespace DalvikHorn

/-! ## Presets -/

/-- A named configuration to start from. -/
inductive Preset where
  /-- The smallest set of clauses. -/
  | fast
  /-- Array indices are told apart, and reachability is derived. -/
  | precise
  /-- The plain defaults. -/
  | custom
  deriving DecidableEq, Repr

namespace Preset

/-- The name of a preset. -/
def name : Preset → String
  | .fast => "fast"
  | .precise => "precise"
  | .custom => "custom"

/-- The preset with a name, in any case of letters. -/
def parse (text : String) : Except ConfigError Preset :=
  let lower := String.ofList (text.toList.map Char.toLower)
  match [Preset.fast, .precise, .custom].find? (·.name == lower) with
  | some preset => .ok preset
  | none => .error (.unknownPreset text)

end Preset

/-! ## Configurations -/

/-- The settings of an analysis. -/
structure Config where
  /-- The preset that the configuration started from. -/
  preset : Preset := .custom
  /-- The width of values in bits. -/
  bitvectorSize : UInt32 := 64
  /-- Whether the elements of an array are told apart. -/
  arrays : Bool := false
  /-- Whether the queries of one call are joined. -/
  mergeQueries : Bool := false
  /-- Whether reachability in the local heap is derived. -/
  reachFilter : Bool := false
  /-- Whether queries are described in comments. -/
  verboseQueries : Bool := true
  /-- Whether the rules for library methods are used. -/
  intentSummaries : Bool := true
  /-- The number of workers; zero leaves it open. -/
  threads : UInt64 := 0
  sources : List String := defaultSources
  sinks : List String := defaultSinks
  deriving DecidableEq, Repr

namespace Config

/-- The configuration of a preset. -/
def ofPreset : Preset → Config
  | .fast => { preset := .fast, arrays := false, mergeQueries := true, verboseQueries := false }
  | .precise => { preset := .precise, arrays := true, reachFilter := true, mergeQueries := false }
  | .custom => { preset := .custom }

variable (config : Config)

/-- The width of values. -/
def width : Nat :=
  config.bitvectorSize.toNat

/-- The narrowest width. -/
def minWidth : Nat := 8

/-- The widest width. -/
def maxWidth : Nat := 128

/-- The largest number of workers. -/
def maxThreads : Nat := 1024

/-- Checks the bounds of a configuration and the form of its signatures. -/
def validate : Except ConfigError Unit := do
  if config.width < minWidth ∨ maxWidth < config.width then
    throw (.outOfRange "bitvector_size" config.width minWidth maxWidth
      "Use 32 for int-only apps or 64 to model long/double registers")
  if maxThreads < config.threads.toNat then
    throw (.outOfRange "threads" config.threads.toNat 0 maxThreads
      "Use 0 to size the pool from the available cores")
  match (config.sources ++ config.sinks).mapM parseSignature with
  | .ok _ => return ()
  | .error cause => throw (.invalidSignature cause)

/-- The sources and sinks of a configuration. -/
def labels : Except ReferenceError Labels :=
  Labels.ofSignatures config.sources config.sinks

end Config

end DalvikHorn
