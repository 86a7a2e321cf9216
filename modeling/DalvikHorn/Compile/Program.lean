import DalvikHorn.Compile.Facts
import DalvikHorn.Compile.Instruction
import DalvikHorn.Script

/-!
# Compiling programs

A program is compiled in order: the layout of its local heap, its facts, and
then its methods.  A method that cannot be compiled, or whose clauses conflict
with those that are already stored, is skipped.  The report counts what the
methods that were not skipped have contributed.

Several threads can compile the methods and store what they contribute as it
comes.  Here all that a method contributes is stored in one step, and one method
after the other: in the order of the program (`Program.compile`), or in any other
(`Program.compileInOrder`).  That two methods store their clauses and queries in
turns is not described.
-/

namespace DalvikHorn

/-! ## Reports -/

/-- The counts of a compilation. -/
structure Report where
  methodsCompiled : Nat := 0
  methodsSkipped : Nat := 0
  clauses : Nat := 0
  queries : Nat := 0
  /-- The number of relations that the counted clauses and queries apply. -/
  relations : Nat := 0
  deriving DecidableEq, Repr

/-- The counts so far, with the names of the relations. -/
structure Tally where
  methodsCompiled : Nat := 0
  methodsSkipped : Nat := 0
  clauses : Nat := 0
  queries : Nat := 0
  relations : List String := []

namespace Tally

/-- Counts an emission. -/
def record (tally : Tally) (emission : Emission) : Tally :=
  let atoms :=
    emission.clauses.flatMap Clause.atoms ++ emission.queries.flatMap (·.condition.atoms)
  { tally with
    clauses := tally.clauses + emission.clauses.length
    queries := tally.queries + emission.queries.length
    relations := (tally.relations ++ atoms.map (·.relation)).eraseDups }

/-- Counts a method that was compiled. -/
def compiled (tally : Tally) (emission : Emission) : Tally :=
  { tally.record emission with methodsCompiled := tally.methodsCompiled + 1 }

/-- Counts a method that was skipped. -/
def skipped (tally : Tally) : Tally :=
  { tally with methodsSkipped := tally.methodsSkipped + 1 }

/-- The report of the counts. -/
def report (tally : Tally) : Report where
  methodsCompiled := tally.methodsCompiled
  methodsSkipped := tally.methodsSkipped
  clauses := tally.clauses
  queries := tally.queries
  relations := tally.relations.length

end Tally

/-! ## Storing -/

/-- How the clauses of a method are stored. -/
inductive StoreMode where
  /-- All of them, or none after a conflict. -/
  | together
  /-- One after the other, so that those before a conflict stay. -/
  | oneByOne
  deriving DecidableEq, Repr

/-- Stores some clauses. -/
def StoreMode.addClauses (mode : StoreMode) (store : Store) (clauses : List Clause) :
    Store × Option Error :=
  match mode with
  | .together => store.addClauses clauses
  | .oneByOne => store.addClausesOneByOne clauses

/-- Stores what a method contributes. -/
def Emission.store (emission : Emission) (mode : StoreMode) (owner : ClassId) (method : MethodId)
    (store : Store) : Store × Option Error :=
  let marked := if emission.callsSink then store.markSinkMethod owner method else store
  match mode.addClauses marked emission.clauses with
  | (next, none) => next.addQueries emission.queries
  | (next, some conflict) => (next, some conflict)

/-! ## Programs -/

/-- The store and the report of a compilation. -/
structure Compilation where
  store : Store
  report : Report

namespace Environment

variable (env : Environment)

/-- Compiles and stores some methods in order, when a number of identifiers has been asked
for. -/
def compileMethods (mode : StoreMode) :
    Nat → Tally → Store → List (Class × Method) → Except Error (Tally × Store)
  | _, tally, store, [] => .ok (tally, store)
  | requests, tally, store, (owner, method) :: rest =>
      let after := (env.contexts requests owner method).2
      match env.compileMethod requests owner method with
      | .error error =>
          if error.fatal then .error error else compileMethods mode after tally.skipped store rest
      | .ok emission =>
          match emission.store mode owner.id method.id store with
          | (next, none) => compileMethods mode after (tally.compiled emission) next rest
          | (next, some error) =>
              if error.fatal then .error error
              else compileMethods mode after tally.skipped next rest

end Environment

/-- Compiles a program with an oracle. -/
def Program.compileWith (program : Program) (config : Config) (oracle : Oracle)
    (mode : StoreMode) : Except Error Compilation := do
  config.validate.mapError Error.config
  let env : Environment :=
    { config := config, oracle := oracle, layout := program.heapLayout oracle }
  let layoutRequests := program.localAllocations.length
  let facts ← env.facts layoutRequests program
  match mode.addClauses .empty facts with
  | (_, some conflict) => throw conflict
  | (store, none) =>
      let (tally, store) ←
        env.compileMethods mode (layoutRequests + Environment.factRequests program)
          (Tally.record {} { clauses := facts }) store program.methods
      return { store := store, report := tally.report }

/-- Compiles a program with the answers that it gives itself. -/
def Program.compile (program : Program) (config : Config) : Except Error Compilation := do
  config.validate.mapError Error.config
  let labels ← config.labels.mapError Error.reference
  program.compileWith config (program.oracle labels) .together

/-- The script of a compilation. -/
def Compilation.render (compilation : Compilation) (config : Config) : Except Error String :=
  compilation.store.render config.mergeQueries config.verboseQueries

end DalvikHorn
