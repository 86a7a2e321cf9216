import DalvikHorn.Config.Basic
import DalvikHorn.Config.EditDistance
import DalvikHorn.Yaml.Value
import DalvikHorn.Yaml.Writer

/-!
# Configurations as YAML

A configuration file names its version and a preset, and overrides some of its
fields.  A configuration is written with all fields overridden.
-/

namespace DalvikHorn

open Yaml (writeField writeKey writeTexts)

/-! ## Reading -/

/-- The fields that a file can override. -/
def overrideFields : List String :=
  ["bitvector_size", "arrays", "merge_queries", "reach_filter", "verbose_queries",
    "intent_summaries", "threads", "sources", "sinks"]

/-- The version of the files. -/
def fileVersion : UInt32 := 1

/-- The fields that a file overrides. -/
structure Overrides where
  bitvectorSize : Option UInt32 := none
  arrays : Option Bool := none
  mergeQueries : Option Bool := none
  reachFilter : Option Bool := none
  verboseQueries : Option Bool := none
  intentSummaries : Option Bool := none
  threads : Option UInt64 := none
  sources : Option (List String) := none
  sinks : Option (List String) := none

/-- What a file says. -/
structure ConfigFile where
  version : Option UInt32
  preset : String
  overrides : Option Overrides

/-- What an entry says, where nothing may be said. -/
def optionalEntry {α : Type} (read : Yaml.Value → Option α) : Option Yaml.Value → Option (Option α)
  | none => some none
  | some .null => some none
  | some value => (read value).map some

/-- Reads overrides. -/
def Overrides.ofValue? (value : Yaml.Value) : Option Overrides :=
  match value.fields? overrideFields with
  | some [bitvectorSize, arrays, mergeQueries, reachFilter, verboseQueries, intentSummaries,
      threads, sources, sinks] => do
      return {
        bitvectorSize := ← optionalEntry (·.uint32?) bitvectorSize
        arrays := ← optionalEntry (·.bool?) arrays
        mergeQueries := ← optionalEntry (·.bool?) mergeQueries
        reachFilter := ← optionalEntry (·.bool?) reachFilter
        verboseQueries := ← optionalEntry (·.bool?) verboseQueries
        intentSummaries := ← optionalEntry (·.bool?) intentSummaries
        threads := ← optionalEntry (·.uint64?) threads
        sources := ← optionalEntry (·.strings?) sources
        sinks := ← optionalEntry (·.strings?) sinks }
  | _ => none

/-- Reads a file. -/
def ConfigFile.ofValue? (value : Yaml.Value) : Option ConfigFile :=
  match value.fields? ["version", "preset", "overrides"] with
  | some [version, some preset, overrides] => do
      return {
        version := ← optionalEntry (·.uint32?) version
        preset := ← preset.string?
        overrides := ← optionalEntry Overrides.ofValue? overrides }
  | _ => none

/-- The first override of a field that there is not.  A key that is no text counts as an empty
one. -/
def unknownOverride? (value : Yaml.Value) : Option String :=
  let keys := (((value.get? "overrides").bind Yaml.Value.mapping?).getD []).map fun (key, _) =>
    key.string?.getD ""
  keys.find? (!overrideFields.contains ·)

/-- A configuration with some fields overridden. -/
def Config.override (config : Config) (overrides : Overrides) : Config :=
  { config with
    bitvectorSize := overrides.bitvectorSize.getD config.bitvectorSize
    arrays := overrides.arrays.getD config.arrays
    mergeQueries := overrides.mergeQueries.getD config.mergeQueries
    reachFilter := overrides.reachFilter.getD config.reachFilter
    verboseQueries := overrides.verboseQueries.getD config.verboseQueries
    intentSummaries := overrides.intentSummaries.getD config.intentSummaries
    threads := overrides.threads.getD config.threads
    sources := overrides.sources.getD config.sources
    sinks := overrides.sinks.getD config.sinks }

/-- The configuration of a file. -/
def ConfigFile.config (file : ConfigFile) : Except ConfigError Config := do
  match file.version with
  | none => throw .missingVersion
  | some version =>
      if version ≠ fileVersion then throw (.unsupportedVersion version.toNat [fileVersion.toNat])
      let preset ← Preset.parse file.preset
      let config := (Config.ofPreset preset).override (file.overrides.getD {})
      config.validate
      return config

/-- Reads the YAML text of a configuration. -/
def Config.parseYaml (text : String) : Except ConfigError Config :=
  match Yaml.Value.parse text with
  | none => .error .malformedYaml
  | some value =>
      match unknownOverride? value, ConfigFile.ofValue? value with
      | some field, _ => .error (.unknownField field "overrides" (nearest? field overrideFields))
      | none, none => .error .malformedYaml
      | none, some file => file.config

/-! ## Writing -/

/-- The YAML text of a configuration. -/
def Config.toYaml (config : Config) : String :=
  let flag := fun (key : String) (value : Bool) =>
    writeField 2 key (if value then "true" else "false")
  let number := fun (key : String) (value : Nat) => writeField 2 key (toString value)
  String.ofList <| List.flatten [
    writeField 0 "version" (toString fileVersion.toNat),
    writeField 0 "preset" config.preset.name,
    writeKey 0 "overrides" ++ ['\n'],
    number "bitvector_size" config.bitvectorSize.toNat,
    flag "arrays" config.arrays,
    flag "merge_queries" config.mergeQueries,
    flag "reach_filter" config.reachFilter,
    flag "verbose_queries" config.verboseQueries,
    flag "intent_summaries" config.intentSummaries,
    number "threads" config.threads.toNat,
    writeTexts 2 "sources" config.sources,
    writeTexts 2 "sinks" config.sinks]

end DalvikHorn
