import DalvikHorn.Clause
import DalvikHorn.Error

/-!
# The clause store

The store collects clauses and queries.  A relation is declared by its first
application; every later application must have the same signature.  The
operations give the store that they leave behind together with the conflict that
stopped them, if any: declarations made before a conflict stay, and the clauses,
queries and sink methods are then unchanged.
-/

namespace DalvikHorn

/-- A relation and the sorts of its columns. -/
structure RelationDecl where
  name : String
  signature : List TermSort
  deriving DecidableEq, Repr

namespace RelationDecl

/-- The number of columns. -/
def arity (decl : RelationDecl) : Nat :=
  decl.signature.length

/-- The text of a declaration. -/
def text (decl : RelationDecl) : String :=
  "(declare-rel " ++ decl.name ++ " (" ++
    " ".intercalate (decl.signature.map TermSort.text) ++ "))"

end RelationDecl

/-- Clauses, queries and the relations that they use. -/
structure Store where
  /-- The declared relations, in the order of their first use. -/
  relations : List RelationDecl := []
  clauses : List Clause := []
  queries : List Query := []
  /-- The methods that call a sink, each once. -/
  sinkMethods : List (ClassId × MethodId) := []

/-- The sizes of a store. -/
structure StoreSizes where
  relations : Nat
  clauses : Nat
  queries : Nat
  sinkMethods : Nat
  deriving DecidableEq, Repr

namespace Store

variable (store : Store)

/-- The store without content. -/
def empty : Store := {}

/-- The declaration of a relation. -/
def relation? (name : String) : Option RelationDecl :=
  store.relations.find? (·.name == name)

/-- The declared relations by name. -/
def sortedRelations : List RelationDecl :=
  store.relations.mergeSort fun left right => !(right.name < left.name)

/-- Declares the relation of an atom, or checks it against its declaration. -/
def declare (atom : Atom) : Except Error Store :=
  match store.relation? atom.relation with
  | none =>
      .ok { store with
        relations := store.relations ++ [{ name := atom.relation, signature := atom.signature }] }
  | some decl =>
      if decl.signature = atom.signature then
        .ok store
      else
        .error (.signatureConflict atom.relation atom.arity decl.arity)

/-- Declares the relations of some atoms up to the first conflict. -/
def declareAll : Store → List Atom → Store × Option Error
  | store, [] => (store, none)
  | store, atom :: rest =>
      match store.declare atom with
      | .error conflict => (store, some conflict)
      | .ok next => declareAll next rest

/-- Declares what a list of clauses applies, then stores all of them. -/
def addClauses (clauses : List Clause) : Store × Option Error :=
  match store.declareAll (clauses.flatMap Clause.atoms) with
  | (declared, none) => ({ declared with clauses := declared.clauses ++ clauses }, none)
  | (declared, some conflict) => (declared, some conflict)

/-- Stores one clause. -/
def addClause (clause : Clause) : Store × Option Error :=
  store.addClauses [clause]

/-- Stores clauses one after the other; those before a conflict stay. -/
def addClausesOneByOne : Store → List Clause → Store × Option Error
  | store, [] => (store, none)
  | store, clause :: rest =>
      match store.addClause clause with
      | (next, none) => addClausesOneByOne next rest
      | (next, some conflict) => (next, some conflict)

/-- Stores a query. -/
def addQuery (query : Query) : Store × Option Error :=
  match store.declareAll query.condition.atoms with
  | (declared, none) => ({ declared with queries := declared.queries ++ [query] }, none)
  | (declared, some conflict) => (declared, some conflict)

/-- Stores queries one after the other; those before a conflict stay. -/
def addQueries : Store → List Query → Store × Option Error
  | store, [] => (store, none)
  | store, query :: rest =>
      match store.addQuery query with
      | (next, none) => addQueries next rest
      | (next, some conflict) => (next, some conflict)

/-- Whether a method is known to call a sink. -/
def isSinkMethod (owner : ClassId) (method : MethodId) : Bool :=
  store.sinkMethods.contains (owner, method)

/-- Records that a method calls a sink. -/
def markSinkMethod (owner : ClassId) (method : MethodId) : Store :=
  if store.isSinkMethod owner method then
    store
  else
    { store with sinkMethods := store.sinkMethods ++ [(owner, method)] }

/-- The sizes of the store. -/
def sizes : StoreSizes where
  relations := store.relations.length
  clauses := store.clauses.length
  queries := store.queries.length
  sinkMethods := store.sinkMethods.length

end Store

end DalvikHorn
