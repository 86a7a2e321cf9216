import DalvikHorn.Store

/-!
# Solver scripts

A store is handed to a fixedpoint solver as a script: relations, variables,
rules and queries, each as one command.  Everything is sorted, so the script
depends on what the store holds and not on the order in which it was filled.

Every query becomes a fresh relation `Q_k` without columns that its condition
derives.  With merging on, the queries of one call share a relation.
-/

namespace DalvikHorn

/-- One command of a script. -/
inductive Command where
  | comment (text : String)
  | useEngine (name : String)
  | declareRelation (decl : RelationDecl)
  | declareVariable (name : String) (sort : TermSort)
  /-- A rule, already written out. -/
  | rule (text : String)
  | query (relation : String)
  deriving DecidableEq, Repr

/-- The line of a command. -/
def Command.text : Command → String
  | .comment text => "; " ++ text
  | .useEngine name => "(set-option :fixedpoint.engine " ++ name ++ ")"
  | .declareRelation decl => decl.text
  | .declareVariable name sort => "(declare-var " ++ name ++ " " ++ sort.text ++ ")"
  | .rule text => text
  | .query relation => "(query " ++ relation ++ ")"

/-- A script as text, one command a line. -/
def scriptText (commands : List Command) : String :=
  String.join (commands.map fun command => command.text ++ "\n")

/-! ## Sorted lists without repetitions -/

/-- Keeps one element of every run of equal ones. -/
def dropRepeats {α : Type} [DecidableEq α] : List α → List α
  | [] => []
  | [x] => [x]
  | x :: y :: rest => if x = y then dropRepeats (y :: rest) else x :: dropRepeats (y :: rest)

/-- The order of texts by code points. -/
def textLe (left right : String) : Bool :=
  !(right < left)

/-! ## Queries -/

/-- Queries that share a relation. -/
structure QueryGroup where
  condition : Formula
  descriptions : List String

/-- A query that has a relation of its own. -/
def Query.alone (query : Query) : QueryGroup where
  condition := query.condition
  descriptions := [query.description]

/-- Queries joined into one, which holds when one of them does. -/
def joinQueries (queries : List Query) : QueryGroup where
  condition := Formula.any (queries.map (·.condition))
  descriptions := queries.map (·.description)

/-- The query groups of a list of queries, by call site.  Without merging every query is
a group. -/
def groupQueries (merge : Bool) (queries : List Query) : List QueryGroup :=
  let sorted := queries.mergeSort Query.le
  if merge then
    (sorted.splitBy (·.key == ·.key)).map joinQueries
  else
    sorted.map Query.alone

/-- The name of the relation of the query group at an index. -/
def queryRelationName (index : Nat) : String :=
  s!"Q_{index}"

/-- The commands of the query group at an index. -/
def QueryGroup.commands (verbose : Bool) (index : Nat) (group : QueryGroup) : List Command :=
  let name := queryRelationName index
  (if verbose then group.descriptions.map Command.comment else []) ++
    [ .declareRelation { name := name, signature := [] },
      .rule ("(rule (=> " ++ group.condition.text ++ " " ++ name ++ "))"),
      .query name ]

/-! ## Variables -/

/-- The first name that stands twice in a row. -/
def firstRepeatedName? : List (String × TermSort) → Option String
  | [] => none
  | [_] => none
  | first :: second :: rest =>
      if first.1 = second.1 then some first.1 else firstRepeatedName? (second :: rest)

/-- The variables among some occurrences by name, each with its only sort. -/
def distinctVariables (occurrences : List (String × TermSort)) :
    Except Error (List (String × TermSort)) :=
  let distinct := dropRepeats (occurrences.mergeSort fun left right => textLe left.1 right.1)
  match firstRepeatedName? distinct with
  | some name => .error (.sortConflict name)
  | none => .ok distinct

/-! ## The script of a store -/

namespace Store

variable (store : Store)

/-- The texts of the stored clauses, sorted and each once. -/
def ruleTexts : List String :=
  dropRepeats ((store.clauses.map Clause.text).mergeSort textLe)

/-- The script of a store. -/
def script (merge verbose : Bool) : Except Error (List Command) := do
  let groups := groupQueries merge store.queries
  let vars ← distinctVariables
    (store.clauses.flatMap Clause.vars ++ groups.flatMap (·.condition.vars))
  return [.comment "droidchc fixedpoint problem", .useEngine "spacer"] ++
    store.sortedRelations.map .declareRelation ++
    vars.map (fun (name, sort) => .declareVariable name sort) ++
    store.ruleTexts.map .rule ++
    (groups.mapIdx fun index group => group.commands verbose index).flatten

/-- The text of the script of a store. -/
def render (merge verbose : Bool) : Except Error String :=
  (store.script merge verbose).map scriptText

end Store

end DalvikHorn
