import DalvikHorn.Config.Basic
import DalvikHorn.Json.Reader

/-!
# Configurations as JSON

Every field may be absent and then keeps its default.  The preset is no field.
-/

namespace DalvikHorn

open Json (fields? withDefault)

/-- Reads a configuration. -/
def Config.ofJson? (value : Json) : Option Config :=
  let default : Config := {}
  match fields? ["bitvector_size", "arrays", "merge_queries", "reach_filter", "verbose_queries",
    "intent_summaries", "threads", "sources", "sinks"] value with
  | some [bitvectorSize, arrays, mergeQueries, reachFilter, verboseQueries, intentSummaries,
      threads, sources, sinks] => do
      return {
        bitvectorSize := ← withDefault default.bitvectorSize Json.uint32? bitvectorSize
        arrays := ← withDefault default.arrays Json.bool? arrays
        mergeQueries := ← withDefault default.mergeQueries Json.bool? mergeQueries
        reachFilter := ← withDefault default.reachFilter Json.bool? reachFilter
        verboseQueries := ← withDefault default.verboseQueries Json.bool? verboseQueries
        intentSummaries := ← withDefault default.intentSummaries Json.bool? intentSummaries
        threads := ← withDefault default.threads Json.uint64? threads
        sources := ← withDefault default.sources (Json.list? Json.string?) sources
        sinks := ← withDefault default.sinks (Json.list? Json.string?) sinks }
  | _ => none

/-- Reads the JSON text of a configuration. -/
def Config.parseJson (text : String) : Except Error Config :=
  match (Json.parse text).bind Config.ofJson? with
  | some config => .ok config
  | none => .error .malformedJson

end DalvikHorn
