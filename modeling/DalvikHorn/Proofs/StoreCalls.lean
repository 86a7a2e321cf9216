import DalvikHorn.Proofs.CompiledMethods

/-!
# Sequences of calls of a store

The calls of a store may fail, and a call that fails has declared some relations by
then.  Whatever calls are made, in any order and whether they fail or not, the store
stays consistent: all that is stored is declared with the signatures that it is
applied with, declarations are final, and a call that fails stores nothing
(`Store.after_calls_consistent`).

## Strategy

* **One form for all calls.**  Every call first declares its applications and then, if
  that went well, adds its content (`StoreCall.run_eq`).
* **Declaring.**  `declareAll_split` says how far the declarations of a call come: to
  the end, or to the first application that disagrees with the signature which its
  relation has at that point.  It is by induction on the applications; both the failure
  condition and the declarations that stay behind are read off from it.
* **Runs.**  Consistency is kept by one call (`StoreCall.consistent_run`), and so by all.
-/

namespace DalvikHorn

namespace Store

/-! ## Signatures -/

/-- The signature of a relation, if it is declared. -/
def signature? (store : Store) (name : String) : Option (List TermSort) :=
  (store.relation? name).map (·.signature)

/-- The signature of a relation after some applications have been declared as well: that of the
store, or else that of the first application. -/
def signatureAfter? (store : Store) (earlier : List Atom) (name : String) :
    Option (List TermSort) :=
  (store.signature? name).or ((earlier.find? (·.relation == name)).map Atom.signature)

/-- After some applications have been declared, another one disagrees with the signature that its
relation has. -/
def Disagrees (store : Store) (earlier : List Atom) (atom : Atom) : Prop :=
  ∃ signature, store.signatureAfter? earlier atom.relation = some signature ∧
    signature ≠ atom.signature

/-- No application of a list disagrees with the store and those before it. -/
def Admits (store : Store) (atoms : List Atom) : Prop :=
  ∀ earlier atom later, atoms = earlier ++ atom :: later → ¬ store.Disagrees earlier atom

variable {store next : Store} {atom : Atom} {atoms earlier : List Atom} {name : String}

theorem relation?_eq_some_iff {decl : RelationDecl} :
    store.relation? name = some decl ↔
      decl.name = name ∧ store.signature? name = some decl.signature := by
  unfold signature?
  constructor
  · intro hfound
    rw [hfound]
    exact ⟨(mem_of_relation? hfound).2, rfl⟩
  · rintro ⟨hname, hsignature⟩
    obtain ⟨found, hfound, heq⟩ := Option.map_eq_some_iff.mp hsignature
    have hsame : found = decl := by
      cases found
      cases decl
      have hother := (mem_of_relation? hfound).2
      simp_all
    rw [hfound, hsame]

@[simp] theorem signatureAfter?_nil : store.signatureAfter? [] name = store.signature? name := by
  simp [signatureAfter?]

/-- A declared relation keeps its signature. -/
theorem signatureAfter?_of_some {signature : List TermSort}
    (h : store.signature? name = some signature) (earlier : List Atom) :
    store.signatureAfter? earlier name = some signature := by
  rw [signatureAfter?, h, Option.some_or]

theorem admits_nil : store.Admits [] := by
  intro earlier atom later hsplit
  cases earlier with
  | nil => cases hsplit
  | cons => cases hsplit

/-! ## Declaring one application -/

/-- An application is declared, unless it disagrees with the signature of its relation. -/
theorem declare_split (store : Store) (atom : Atom) :
    (¬ store.Disagrees [] atom ∧ ∃ next, store.declare atom = .ok next ∧
      ∀ name, next.signature? name = store.signatureAfter? [atom] name) ∨
    ∃ signature, store.signature? atom.relation = some signature ∧ signature ≠ atom.signature ∧
      store.declare atom =
        .error (.signatureConflict atom.relation atom.arity signature.length) := by
  unfold declare Disagrees
  simp only [signatureAfter?_nil]
  cases hfound : store.relation? atom.relation with
  | none =>
      -- a relation that is not declared yet takes the sorts of this application
      have hsignature : store.signature? atom.relation = none := by rw [signature?, hfound]; rfl
      refine .inl ⟨by simp [hsignature], _, rfl, fun name => ?_⟩
      rw [signatureAfter?, signature?, signature?, relation?, relation?, List.find?_append,
        List.find?_singleton, List.find?_singleton]
      dsimp only
      cases store.relations.find? (·.name == name) with
      | some decl => rfl
      | none =>
          by_cases hname : atom.relation = name
          · simp [hname]
          · simp [hname]
  | some decl =>
      have hsignature : store.signature? atom.relation = some decl.signature := by
        rw [signature?, hfound]
        rfl
      dsimp only
      by_cases hsame : decl.signature = atom.signature
      · rw [if_pos hsame]
        refine .inl ⟨?_, store, rfl, fun name => ?_⟩
        · rintro ⟨signature, hdeclared, hne⟩
          rw [hsignature, Option.some.injEq] at hdeclared
          exact hne (hdeclared.symm.trans hsame)
        · -- the relation is known, so its application declares nothing
          rw [signatureAfter?]
          by_cases hname : atom.relation = name
          · rw [← hname, hsignature, Option.some_or]
          · have hother : (atom.relation == name) = false := by simpa using hname
            simp [hother]
      · rw [if_neg hsame]
        exact .inr ⟨decl.signature, hsignature, hsame, rfl⟩

/-! ## Declaring a list of applications -/

theorem signatureAfter?_cons
    (h : ∀ name, next.signature? name = store.signatureAfter? [atom] name) (earlier : List Atom)
    (name : String) :
    next.signatureAfter? earlier name = store.signatureAfter? (atom :: earlier) name := by
  rw [signatureAfter?, h, signatureAfter?, signatureAfter?, List.find?_cons, List.find?_cons]
  cases hsame : atom.relation == name with
  | true => simp
  | false => simp

theorem admits_cons (h : ∀ name, next.signature? name = store.signatureAfter? [atom] name)
    (hatom : ¬ store.Disagrees [] atom) (hrest : next.Admits atoms) :
    store.Admits (atom :: atoms) := by
  intro earlier other later hsplit
  cases earlier with
  | nil =>
      cases hsplit
      exact hatom
  | cons first earlier =>
      cases hsplit
      intro hdisagrees
      apply hrest earlier other later rfl
      obtain ⟨signature, hsignature, hne⟩ := hdisagrees
      exact ⟨signature, (signatureAfter?_cons h earlier _).trans hsignature, hne⟩

/-- All applications of a list are declared, or those before the first one that disagrees. -/
theorem declareAll_split (store : Store) (atoms : List Atom) :
    (store.Admits atoms ∧ (store.declareAll atoms).2 = none ∧
      ∀ name, (store.declareAll atoms).1.signature? name = store.signatureAfter? atoms name) ∨
    ∃ earlier atom later signature, atoms = earlier ++ atom :: later ∧ store.Admits earlier ∧
      store.signatureAfter? earlier atom.relation = some signature ∧ signature ≠ atom.signature ∧
      (store.declareAll atoms).2 =
        some (.signatureConflict atom.relation atom.arity signature.length) ∧
      ∀ name, (store.declareAll atoms).1.signature? name = store.signatureAfter? earlier name := by
  induction atoms generalizing store with
  | nil => exact .inl ⟨admits_nil, rfl, fun name => signatureAfter?_nil.symm⟩
  | cons atom rest ih =>
      rcases store.declare_split atom with
        ⟨hatom, next, hnext, hafter⟩ | ⟨signature, hsignature, hne, hconflict⟩
      · -- the first application agrees, and decides how the others are asked
        have hstep : store.declareAll (atom :: rest) = next.declareAll rest := by
          simp only [declareAll, hnext]
        rw [hstep]
        rcases ih next with
          ⟨hadmits, hnone, hall⟩ |
            ⟨earlier, other, later, signature, hsplit, hadmits, hsignature, hne, hsome, hall⟩
        · refine .inl ⟨admits_cons hafter hatom hadmits, hnone, fun name => ?_⟩
          rw [hall, signatureAfter?_cons hafter]
        · refine .inr ⟨atom :: earlier, other, later, signature, ?_,
            admits_cons hafter hatom hadmits, ?_, hne, hsome, fun name => ?_⟩
          · rw [hsplit, List.cons_append]
          · rw [← signatureAfter?_cons hafter, hsignature]
          · rw [hall, signatureAfter?_cons hafter]
      · have hstep : store.declareAll (atom :: rest) =
            (store, some (.signatureConflict atom.relation atom.arity signature.length)) := by
          simp only [declareAll, hconflict]
        rw [hstep]
        -- the first application disagrees, and no other is looked at
        exact .inr ⟨[], atom, rest, signature, rfl, admits_nil,
          signatureAfter?_nil.trans hsignature, hne, rfl, fun name => signatureAfter?_nil.symm⟩

/-- Declaring fails exactly when some application disagrees with the store and those before it. -/
theorem isSome_declareAll_iff (store : Store) (atoms : List Atom) :
    (store.declareAll atoms).2.isSome ↔
      ∃ earlier atom later, atoms = earlier ++ atom :: later ∧ store.Disagrees earlier atom := by
  rcases store.declareAll_split atoms with
    ⟨hadmits, hnone, -⟩ | ⟨earlier, atom, later, signature, hsplit, -, hsignature, hne, hsome, -⟩
  · rw [hnone]
    refine iff_of_false (by simp) ?_
    rintro ⟨earlier, atom, later, hsplit, hdisagrees⟩
    exact hadmits earlier atom later hsplit hdisagrees
  · rw [hsome]
    exact iff_of_true rfl ⟨earlier, atom, later, hsplit, signature, hsignature, hne⟩

theorem signature?_declareAll {signature : List TermSort}
    (h : store.signature? name = some signature) (atoms : List Atom) :
    (store.declareAll atoms).1.signature? name = some signature := by
  rcases store.declareAll_split atoms with ⟨-, -, hall⟩ | ⟨earlier, _, _, _, -, -, -, -, -, hall⟩
  · rw [hall, signatureAfter?_of_some h]
  · rw [hall, signatureAfter?_of_some h]

/-- What has been declared without a conflict has the signature of each application. -/
theorem signature?_of_declareAll (h : (store.declareAll atoms).2 = none) (hatom : atom ∈ atoms) :
    (store.declareAll atoms).1.signature? atom.relation = some atom.signature := by
  rcases store.declareAll_split atoms with
    ⟨hadmits, -, hall⟩ | ⟨_, _, _, _, -, -, -, -, hsome, -⟩
  · obtain ⟨earlier, later, rfl⟩ := List.append_of_mem hatom
    have hagrees := hadmits earlier atom later rfl
    rw [hall, signatureAfter?]
    -- the signature is that of the store, of an earlier application, or of this one
    unfold Disagrees signatureAfter? at hagrees
    cases hstore : store.signature? atom.relation with
    | some signature =>
        rw [hstore] at hagrees
        simpa using hagrees
    | none =>
        rw [hstore, Option.none_or] at hagrees
        rw [Option.none_or, List.find?_append]
        cases hfirst : earlier.find? (·.relation == atom.relation) with
        | some first =>
            rw [hfirst] at hagrees
            simpa using hagrees
        | none => simp
  · rw [hsome] at h
    cases h

theorem contents_declare (h : store.declare atom = .ok next) :
    next.clauses = store.clauses ∧ next.queries = store.queries := by
  unfold declare at h
  split at h
  · cases h
    exact ⟨rfl, rfl⟩
  · split at h
    · cases h
      exact ⟨rfl, rfl⟩
    · cases h

/-- Declarations leave clauses and queries alone. -/
theorem contents_declareAll (store : Store) (atoms : List Atom) :
    (store.declareAll atoms).1.clauses = store.clauses ∧
      (store.declareAll atoms).1.queries = store.queries := by
  induction atoms generalizing store with
  | nil => exact ⟨rfl, rfl⟩
  | cons atom rest ih =>
      unfold declareAll
      cases hnext : store.declare atom with
      | error conflict => exact ⟨rfl, rfl⟩
      | ok next =>
          obtain ⟨hclauses, hqueries⟩ := contents_declare hnext
          exact ⟨(ih next).1.trans hclauses, (ih next).2.trans hqueries⟩

/-! ## Consistent stores -/

/-- A relation is declared with exactly the signature of an application of it. -/
def Declares (store : Store) (atom : Atom) : Prop :=
  store.relation? atom.relation = some atom.declaration

/-- Every application in a stored clause, and in the condition of a stored query, is declared with
exactly its signature. -/
structure Consistent (store : Store) : Prop where
  clauses : ∀ clause ∈ store.clauses, ∀ atom ∈ clause.atoms, store.Declares atom
  queries : ∀ query ∈ store.queries, ∀ atom ∈ query.condition.atoms, store.Declares atom

theorem declares_iff :
    store.Declares atom ↔ store.signature? atom.relation = some atom.signature := by
  unfold Declares
  rw [relation?_eq_some_iff]
  simp [Atom.declaration]

theorem consistent_empty : empty.Consistent where
  clauses := by simp [empty]
  queries := by simp [empty]

theorem Declares.declareAll (h : store.Declares atom) (atoms : List Atom) :
    (store.declareAll atoms).1.Declares atom :=
  declares_iff.mpr (signature?_declareAll (declares_iff.mp h) atoms)

theorem declares_of_declareAll (h : (store.declareAll atoms).2 = none) :
    ∀ atom ∈ atoms, (store.declareAll atoms).1.Declares atom := by
  intro atom hatom
  exact declares_iff.mpr (signature?_of_declareAll h hatom)

theorem Consistent.declareAll (h : store.Consistent) (atoms : List Atom) :
    (store.declareAll atoms).1.Consistent := by
  obtain ⟨hclauses, hqueries⟩ := store.contents_declareAll atoms
  constructor
  case clauses =>
    rw [hclauses]
    intro clause hclause atom hatom
    exact (h.clauses clause hclause atom hatom).declareAll atoms
  case queries =>
    rw [hqueries]
    intro query hquery atom hatom
    exact (h.queries query hquery atom hatom).declareAll atoms

end Store

/-! ## Calls -/

/-- A call of an operation that changes a store. -/
inductive StoreCall where
  | declare (atom : Atom)
  | addClause (clause : Clause)
  | addClauses (clauses : List Clause)
  | addQuery (query : Query)
  | markSinkMethod (owner : ClassId) (method : MethodId)

namespace StoreCall

/-- The store that a call leaves behind and the error that it gives, if any. -/
def run : StoreCall → Store → Store × Option Error
  | .declare atom, store =>
      match store.declare atom with
      | .ok next => (next, none)
      | .error conflict => (store, some conflict)
  | .addClause clause, store => store.addClause clause
  | .addClauses clauses, store => store.addClauses clauses
  | .addQuery query, store => store.addQuery query
  | .markSinkMethod owner method, store => (store.markSinkMethod owner method, none)

/-- The clauses that a call stores. -/
def clauses : StoreCall → List Clause
  | .addClause clause => [clause]
  | .addClauses clauses => clauses
  | _ => []

/-- The queries that a call stores. -/
def queries : StoreCall → List Query
  | .addQuery query => [query]
  | _ => []

/-- The applications of a call, in the order in which it declares them. -/
def atoms : StoreCall → List Atom
  | .declare atom => [atom]
  | .addClause clause => clause.atoms
  | .addClauses clauses => clauses.flatMap Clause.atoms
  | .addQuery query => query.condition.atoms
  | .markSinkMethod _ _ => []

/-- The content of a call, added to a store. -/
def fill (call : StoreCall) (store : Store) : Store :=
  match call with
  | .markSinkMethod owner method => store.markSinkMethod owner method
  | call => { store with
      clauses := store.clauses ++ call.clauses
      queries := store.queries ++ call.queries }

variable {store : Store}

theorem atoms_of_clauses {call : StoreCall} {clause : Clause} (hclause : clause ∈ call.clauses) :
    ∀ atom ∈ clause.atoms, atom ∈ call.atoms := by
  intro atom hatom
  cases call with
  | addClause only =>
      rw [List.mem_singleton.mp hclause] at hatom
      exact hatom
  | addClauses clauses => exact List.mem_flatMap.mpr ⟨clause, hclause, hatom⟩
  | declare | addQuery | markSinkMethod => cases hclause

theorem atoms_of_queries {call : StoreCall} {query : Query} (hquery : query ∈ call.queries) :
    ∀ atom ∈ query.condition.atoms, atom ∈ call.atoms := by
  intro atom hatom
  cases call with
  | addQuery only =>
      rw [List.mem_singleton.mp hquery] at hatom
      exact hatom
  | declare | addClause | addClauses | markSinkMethod => cases hquery

/-! ### Every call declares, then fills -/

theorem clauses_fill (call : StoreCall) (store : Store) :
    (call.fill store).clauses = store.clauses ++ call.clauses := by
  cases call <;> simp [fill, clauses]

theorem queries_fill (call : StoreCall) (store : Store) :
    (call.fill store).queries = store.queries ++ call.queries := by
  cases call <;> simp [fill, queries]

theorem relations_fill (call : StoreCall) (store : Store) :
    (call.fill store).relations = store.relations := by
  cases call <;> simp [fill]

theorem relation?_fill (call : StoreCall) (store : Store) (name : String) :
    (call.fill store).relation? name = store.relation? name := by
  rw [Store.relation?, relations_fill, Store.relation?]

/-- A call declares its applications, and adds its content if none of them is in conflict. -/
theorem run_eq (call : StoreCall) (store : Store) :
    call.run store =
      match store.declareAll call.atoms with
      | (declared, none) => (call.fill declared, none)
      | (declared, some conflict) => (declared, some conflict) := by
  -- every operation declares its applications first and then fills the store
  cases call with
  | declare atom =>
      simp only [run, atoms, Store.declareAll]
      cases store.declare atom with
      | ok next => simp [fill, clauses, queries]
      | error conflict => rfl
  | addClause clause =>
      simp only [run, atoms, Store.addClause, Store.addClauses, List.flatMap_singleton]
      rcases store.declareAll clause.atoms with ⟨declared, _ | conflict⟩
      · simp [fill, clauses, queries]
      · rfl
  | addClauses added =>
      simp only [run, atoms, Store.addClauses]
      rcases store.declareAll (added.flatMap Clause.atoms) with ⟨declared, _ | conflict⟩
      · simp [fill, clauses, queries]
      · rfl
  | addQuery query =>
      simp only [run, atoms, Store.addQuery]
      rcases store.declareAll query.condition.atoms with ⟨declared, _ | conflict⟩
      · simp [fill, clauses, queries]
      · rfl
  | markSinkMethod owner method => rfl

/-- What a call leaves behind when it succeeds, and when it fails. -/
theorem run_cases (call : StoreCall) (store : Store) :
    ((store.declareAll call.atoms).2 = none ∧
      call.run store = (call.fill (store.declareAll call.atoms).1, none)) ∨
    ∃ conflict, (store.declareAll call.atoms).2 = some conflict ∧
      call.run store = ((store.declareAll call.atoms).1, some conflict) := by
  rw [run_eq]
  cases hdeclared : store.declareAll call.atoms with
  | mk declared outcome =>
      cases outcome with
      | none => exact .inl ⟨rfl, rfl⟩
      | some conflict => exact .inr ⟨conflict, rfl, rfl⟩

theorem outcome_run (call : StoreCall) (store : Store) :
    (call.run store).2 = (store.declareAll call.atoms).2 := by
  rcases call.run_cases store with ⟨hnone, hrun⟩ | ⟨conflict, hsome, hrun⟩
  · rw [hrun, hnone]
  · rw [hrun, hsome]

theorem relation?_run (call : StoreCall) (store : Store) (name : String) :
    (call.run store).1.relation? name = (store.declareAll call.atoms).1.relation? name := by
  rcases call.run_cases store with ⟨-, hrun⟩ | ⟨conflict, -, hrun⟩
  · rw [hrun, relation?_fill]
  · rw [hrun]

/-- One call keeps the declarations. -/
theorem relation?_run_of_some {name : String} {decl : RelationDecl}
    (h : store.relation? name = some decl) (call : StoreCall) :
    (call.run store).1.relation? name = some decl := by
  obtain ⟨hname, hsignature⟩ := Store.relation?_eq_some_iff.mp h
  rw [relation?_run]
  exact Store.relation?_eq_some_iff.mpr ⟨hname, Store.signature?_declareAll hsignature call.atoms⟩

/-- One call keeps a store consistent, whether it fails or not. -/
theorem consistent_run (h : store.Consistent) (call : StoreCall) :
    (call.run store).1.Consistent := by
  have hdeclared := h.declareAll call.atoms
  rcases call.run_cases store with ⟨hnone, hrun⟩ | ⟨conflict, -, hrun⟩
  · rw [hrun]
    have hatoms := Store.declares_of_declareAll hnone
    -- filling the store keeps the declarations it was checked against
    have hfilled : ∀ {atom : Atom}, (store.declareAll call.atoms).1.Declares atom →
        (call.fill (store.declareAll call.atoms).1).Declares atom := by
      intro atom hatom
      exact (relation?_fill call _ _).trans hatom
    constructor
    case clauses =>
      intro clause hclause atom hatom
      rw [clauses_fill] at hclause
      rcases List.mem_append.mp hclause with hold | hnew
      · exact hfilled (hdeclared.clauses clause hold atom hatom)
      · exact hfilled (hatoms atom (atoms_of_clauses hnew atom hatom))
    case queries =>
      intro query hquery atom hatom
      rw [queries_fill] at hquery
      rcases List.mem_append.mp hquery with hold | hnew
      · exact hfilled (hdeclared.queries query hold atom hatom)
      · exact hfilled (hatoms atom (atoms_of_queries hnew atom hatom))
  · -- a conflict leaves declarations behind, and nothing that applies them
    rw [hrun]
    exact hdeclared

/-! ### What one call does -/

/-- What a call does to a store: `next` is the store that it leaves behind. -/
structure Does (call : StoreCall) (store next : Store) (outcome : Option Error) : Prop where
  /-- Declared relations keep their declarations. -/
  keeps : ∀ name decl, store.relation? name = some decl → next.relation? name = some decl
  /-- The call fails exactly when one of its applications disagrees with a signature declared
  before the call or by an earlier application of it. -/
  fails_iff : outcome.isSome ↔ ∃ earlier atom later,
    call.atoms = earlier ++ atom :: later ∧ store.Disagrees earlier atom
  /-- The error is about the first application that disagrees. -/
  conflict : ∀ error, outcome = some error → ∃ earlier atom later signature,
    call.atoms = earlier ++ atom :: later ∧ store.Admits earlier ∧
      store.signatureAfter? earlier atom.relation = some signature ∧ signature ≠ atom.signature ∧
      error = .signatureConflict atom.relation atom.arity signature.length
  /-- A call that fails leaves clauses, queries and sink methods as they were. -/
  unchanged : outcome.isSome →
    next.clauses = store.clauses ∧ next.queries = store.queries ∧
      next.sinkMethods = store.sinkMethods
  /-- A call that succeeds declares its applications. -/
  declared : outcome = none → ∀ atom ∈ call.atoms, next.Declares atom
  /-- A call that succeeds adds its content, and nothing else. -/
  adds : outcome = none →
    next.clauses = store.clauses ++ call.clauses ∧ next.queries = store.queries ++ call.queries ∧
      ∀ owner method, next.isSinkMethod owner method ↔
        store.isSinkMethod owner method ∨ call = .markSinkMethod owner method

theorem isSinkMethod_fill (call : StoreCall) (store : Store) (owner : ClassId)
    (method : MethodId) :
    (call.fill store).isSinkMethod owner method ↔
      store.isSinkMethod owner method ∨ call = .markSinkMethod owner method := by
  cases call with
  | markSinkMethod marked called =>
      rw [fill, Store.isSinkMethod_markSinkMethod]
      simp
  | declare | addClause | addClauses | addQuery => simp [fill, Store.isSinkMethod]

theorem does_run (call : StoreCall) (store : Store) :
    call.Does store (call.run store).1 (call.run store).2 := by
  obtain ⟨hclauses, hqueries⟩ := store.contents_declareAll call.atoms
  have hsinks := store.sinkMethods_declareAll call.atoms
  constructor
  case keeps =>
    intro name decl hdecl
    exact relation?_run_of_some hdecl call
  case fails_iff =>
    -- the operation fails exactly when one of its declarations does
    rw [outcome_run]
    exact store.isSome_declareAll_iff call.atoms
  case conflict =>
    intro error herror
    rw [outcome_run] at herror
    rcases store.declareAll_split call.atoms with
      ⟨-, hnone, -⟩ |
        ⟨earlier, atom, later, signature, hsplit, hadmits, hsignature, hne, hsome, -⟩
    · rw [hnone] at herror
      cases herror
    · rw [hsome] at herror
      cases herror
      exact ⟨earlier, atom, later, signature, hsplit, hadmits, hsignature, hne, rfl⟩
  case unchanged =>
    intro hfails
    rcases call.run_cases store with ⟨-, hrun⟩ | ⟨conflict, -, hrun⟩
    · -- an operation that succeeds has no conflict to report
      rw [hrun] at hfails
      cases hfails
    · rw [hrun]
      exact ⟨hclauses, hqueries, hsinks⟩
  case declared =>
    intro hsucceeds atom hatom
    rw [outcome_run] at hsucceeds
    rw [Store.Declares, relation?_run]
    exact Store.declares_of_declareAll hsucceeds atom hatom
  case adds =>
    intro hsucceeds
    rcases call.run_cases store with ⟨-, hrun⟩ | ⟨conflict, -, hrun⟩
    · rw [hrun, clauses_fill, queries_fill, hclauses, hqueries]
      refine ⟨rfl, rfl, fun owner method => ?_⟩
      rw [isSinkMethod_fill, Store.isSinkMethod, hsinks, Store.isSinkMethod]
    · rw [hrun] at hsucceeds
      cases hsucceeds

end StoreCall

/-! ## Sequences of calls -/

namespace Store

/-- A store after some calls; the callers go on after an error. -/
def after (store : Store) (calls : List StoreCall) : Store :=
  calls.foldl (fun reached call => (call.run reached).1) store

theorem after_append (store : Store) (calls more : List StoreCall) :
    store.after (calls ++ more) = (store.after calls).after more :=
  List.foldl_append

theorem Consistent.after {store : Store} (h : store.Consistent) (calls : List StoreCall) :
    (store.after calls).Consistent := by
  induction calls generalizing store with
  | nil => exact h
  | cons call rest ih => exact ih (StoreCall.consistent_run h call)

theorem relation?_after {store : Store} {name : String} {decl : RelationDecl}
    (h : store.relation? name = some decl) (calls : List StoreCall) :
    (store.after calls).relation? name = some decl := by
  induction calls generalizing store with
  | nil => exact h
  | cons call rest ih => exact ih (StoreCall.relation?_run_of_some h call)

/-- Whatever calls a fresh store has been through: what it stores is declared with the signatures
that it is applied with, its declarations are final, and each further call fails exactly when it
applies a relation against its signature, in which case it stores nothing. -/
theorem after_calls_consistent (calls : List StoreCall) :
    (empty.after calls).Consistent ∧
      (∀ more name decl, (empty.after calls).relation? name = some decl →
        (empty.after (calls ++ more)).relation? name = some decl) ∧
      ∀ call : StoreCall, call.Does (empty.after calls) (empty.after (calls ++ [call]))
        (call.run (empty.after calls)).2 := by
  refine ⟨consistent_empty.after calls, ?_, ?_⟩
  · intro more name decl hdecl
    rw [after_append]
    exact relation?_after hdecl more
  · intro call
    rw [after_append]
    exact StoreCall.does_run call (empty.after calls)

/-- A batch that applies a relation in two ways fails and stores nothing, but the relation between
the two applications stays declared. -/
theorem after_calls_consistent_sample :
    let batch := StoreCall.addClauses
      [.fact ⟨"P", []⟩, .fact ⟨"Q", []⟩, .fact ⟨"P", [.bool .tt]⟩, .fact ⟨"R", []⟩]
    (empty.after [batch]).Consistent ∧ (empty.after [batch]).clauses = [] ∧
      (empty.after [batch]).relation? "Q" = some { name := "Q", signature := [] } ∧
      (empty.after [batch]).relation? "R" = none := by
  intro batch
  obtain ⟨-, -, hdoes⟩ := after_calls_consistent []
  have hfails : (batch.run (empty.after [])).2.isSome := by
    apply (hdoes batch).fails_iff.mpr
    refine ⟨[⟨"P", []⟩, ⟨"Q", []⟩], ⟨"P", [.bool .tt]⟩, [⟨"R", []⟩], rfl, [], rfl, ?_⟩
    decide
  exact ⟨(after_calls_consistent [batch]).1, ((hdoes batch).unchanged hfails).1, rfl, rfl⟩

end Store

end DalvikHorn
