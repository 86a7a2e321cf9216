import DalvikHorn.Proofs.DistinctNames

/-!
# Scripts can be read by themselves

A solver reads a script from top to bottom.  Whatever a rule mentions has to be declared
before it, once, and with the sorts that it is used at.  Three collections have to agree on
what that is: relations are declared from the atoms of unfolded bodies when clauses are
stored, variables are collected from unfolded bodies when the script is written, and rules
are written with folded bodies.  This file shows that they do, for every program that is
compiled (`script_self_contained`).

## Strategy

* **Scopes.**  `Store.Accepts` goes through the commands of a script with what has been
  declared so far.  A rule is accepted when everything that its text can stand for in the
  store is closed (`Store.Writes`, `Formula.ClosedIn`).
* **Relations.**  Atoms are collected where relations may stand, and in clauses that are
  positive they stand nowhere else (`Formula.Positive.mem_atoms`).
* **Folding.**  A folded formula uses no names that its parts do not use
  (`Exportable.closedIn_clause`, `Exportable.closedIn_group`).
* **Query groups.**  Each declares a relation that is new when its commands are read
  (`Exportable.accepts_groups`).

A store may also declare relations that nothing uses, those of methods that were skipped.
-/

namespace DalvikHorn

/-! ## Scopes -/

/-- What a script has declared. -/
structure Scope where
  relations : List RelationDecl := []
  vars : List (String × TermSort) := []

/-- All relations that a formula applies are declared with their columns, and all its variables
with their sorts. -/
structure Formula.ClosedIn (scope : Scope) (formula : Formula) : Prop where
  relations : ∀ atom ∈ formula.applications, atom.declaration ∈ scope.relations
  vars : ∀ v ∈ formula.vars, v ∈ scope.vars

/-- What is declared after a command. -/
def Scope.after (scope : Scope) : Command → Scope
  | .declareRelation decl => { scope with relations := scope.relations ++ [decl] }
  | .declareVariable name sort => { scope with vars := scope.vars ++ [(name, sort)] }
  | _ => scope

/-- The rule in a command. -/
def Command.rule? : Command → Option String
  | .rule text => some text
  | _ => none

/-- The relation that a command asks about. -/
def Command.query? : Command → Option String
  | .query relation => some relation
  | _ => none

namespace Store

/-- The rules that a script may have, as texts with their bodies and heads: those of the stored
clauses, and one for every query group. -/
inductive Writes (store : Store) (merge : Bool) : String → Formula → Atom → Prop
  | clause {clause : Clause} (h : clause ∈ store.clauses) :
      Writes store merge clause.text clause.bodyFormula clause.head
  | group {index : Nat} {group : QueryGroup}
      (h : (groupQueries merge store.queries)[index]? = some group) :
      Writes store merge (group.ruleText index) group.condition ⟨queryRelationName index, []⟩

/-- The commands that may follow some declarations: a declaration has a new name, a rule is one of
the store that says nothing about other names, and a query asks about a relation without columns. -/
def Allows (store : Store) (merge : Bool) (scope : Scope) : Command → Prop
  | .comment _ => True
  | .useEngine _ => True
  | .declareRelation decl => decl.name ∉ scope.relations.map (·.name)
  | .declareVariable name _ => name ∉ scope.vars.map (·.1)
  | .rule text => (∃ body head, store.Writes merge text body head) ∧
      ∀ body head, store.Writes merge text body head →
        body.ClosedIn scope ∧ head.toFormula.ClosedIn scope
  | .query relation => ⟨relation, []⟩ ∈ scope.relations

/-- Every command of a script may follow what the commands before it declare. -/
def Accepts (store : Store) (merge : Bool) : Scope → List Command → Prop
  | _, [] => True
  | scope, command :: rest =>
      store.Allows merge scope command ∧ store.Accepts merge (scope.after command) rest

variable {store : Store} {merge : Bool} {scope : Scope}

theorem accepts_append {first second : List Command} :
    store.Accepts merge scope (first ++ second) ↔
      store.Accepts merge scope first ∧
        store.Accepts merge (first.foldl Scope.after scope) second := by
  induction first generalizing scope with
  | nil => simp [Accepts]
  | cons command rest ih => simp [Accepts, ih, and_assoc]

theorem foldl_declareRelation (scope : Scope) (decls : List RelationDecl) :
    (decls.map Command.declareRelation).foldl Scope.after scope =
      { scope with relations := scope.relations ++ decls } := by
  induction decls generalizing scope with
  | nil => simp
  | cons decl rest ih => simp [ih, Scope.after]

theorem foldl_declareVariable (scope : Scope) (vars : List (String × TermSort)) :
    (vars.map fun (name, sort) => Command.declareVariable name sort).foldl Scope.after scope =
      { scope with vars := scope.vars ++ vars } := by
  induction vars generalizing scope with
  | nil => simp
  | cons v rest ih => simp [ih, Scope.after]

theorem foldl_rule (scope : Scope) (texts : List String) :
    (texts.map Command.rule).foldl Scope.after scope = scope := by
  induction texts with
  | nil => rfl
  | cons text rest ih => exact ih

theorem accepts_declareRelation {decls : List RelationDecl}
    (h : ((scope.relations ++ decls).map (·.name)).Nodup) :
    store.Accepts merge scope (decls.map Command.declareRelation) := by
  induction decls generalizing scope with
  | nil => trivial
  | cons decl rest ih =>
      have hsplit : scope.relations ++ decl :: rest = scope.relations ++ [decl] ++ rest := by simp
      refine ⟨fun hmem => ?_, ih (hsplit ▸ h)⟩
      rw [List.map_append, List.nodup_append] at h
      exact h.2.2 _ hmem _ List.mem_cons_self rfl

theorem accepts_declareVariable {vars : List (String × TermSort)}
    (h : ((scope.vars ++ vars).map (·.1)).Nodup) :
    store.Accepts merge scope
      (vars.map fun (name, sort) => Command.declareVariable name sort) := by
  induction vars generalizing scope with
  | nil => trivial
  | cons v rest ih =>
      have hsplit : scope.vars ++ v :: rest = scope.vars ++ [v] ++ rest := by simp
      refine ⟨fun hmem => ?_, ih (hsplit ▸ h)⟩
      rw [List.map_append, List.nodup_append] at h
      exact h.2.2 _ hmem _ List.mem_cons_self rfl

theorem accepts_rule {texts : List String}
    (h : ∀ text ∈ texts, store.Allows merge scope (.rule text)) :
    store.Accepts merge scope (texts.map Command.rule) := by
  induction texts with
  | nil => trivial
  | cons text rest ih =>
      obtain ⟨htext, hrest⟩ := List.forall_mem_cons.mp h
      exact ⟨htext, ih hrest⟩

end Store

/-! ## Closed formulas -/

namespace Formula

variable {scope : Scope}

theorem closedIn_const (value : Bool) : (const value).ClosedIn scope :=
  ⟨by simp, by simp⟩

theorem closedIn_and_iff (parts : List Formula) :
    (and parts).ClosedIn scope ↔ ∀ part ∈ parts, part.ClosedIn scope := by
  constructor
  · intro h part hpart
    obtain ⟨hvars, happs⟩ := forall_names_iff.mp ⟨h.vars, h.relations⟩ part hpart
    exact ⟨happs, hvars⟩
  · intro h
    obtain ⟨hvars, happs⟩ := forall_names_iff.mpr fun part hpart =>
      ⟨(h part hpart).vars, (h part hpart).relations⟩
    exact ⟨happs, hvars⟩

/-- Conjunctions and disjunctions use the same names. -/
theorem closedIn_or_iff (parts : List Formula) :
    (or parts).ClosedIn scope ↔ ∀ part ∈ parts, part.ClosedIn scope := by
  rw [← closedIn_and_iff]
  exact ⟨fun h => ⟨by simpa using h.relations, by simpa using h.vars⟩,
    fun h => ⟨by simpa using h.relations, by simpa using h.vars⟩⟩

theorem ClosedIn.mono {formula : Formula} (h : formula.ClosedIn scope) {wider : Scope}
    (hrelations : scope.relations ⊆ wider.relations) (hvars : scope.vars ⊆ wider.vars) :
    formula.ClosedIn wider :=
  ⟨fun atom hatom => hrelations (h.relations atom hatom), fun v hv => hvars (h.vars v hv)⟩

/-- The relations of a positive formula are those that its declarations are collected from. -/
theorem Positive.mem_atoms {formula : Formula} (h : formula.Positive) :
    ∀ atom ∈ formula.applications, atom ∈ formula.atoms := by
  induction h with
  | free hfree => simp [hfree]
  | app hargs => simp [hargs, atoms]
  | and _ ih =>
      intro atom hatom
      rw [applications] at hatom
      obtain ⟨part, hpart, hmem⟩ := mem_applicationsList.mp hatom
      exact mem_atomsList.mpr ⟨part, hpart, ih part hpart atom hmem⟩
  | or _ ih =>
      intro atom hatom
      rw [applications] at hatom
      obtain ⟨part, hpart, hmem⟩ := mem_applicationsList.mp hatom
      exact mem_atomsList.mpr ⟨part, hpart, ih part hpart atom hmem⟩

end Formula

/-! ## Stores that can be exported -/

namespace Store

theorem Writes.cases {store : Store} {merge : Bool} {text : String} {body : Formula} {head : Atom}
    (h : store.Writes merge text body head) :
    (∃ clause ∈ store.clauses,
        text = clause.text ∧ body = clause.bodyFormula ∧ head = clause.head) ∨
      ∃ index group, (groupQueries merge store.queries)[index]? = some group ∧
        text = group.ruleText index ∧ body = group.condition ∧
          head = ⟨queryRelationName index, []⟩ := by
  cases h with
  | clause hclause => exact .inl ⟨_, hclause, rfl, rfl, rfl⟩
  | group hgroup => exact .inr ⟨_, _, hgroup, rfl, rfl, rfl⟩

/-- A store that declares what it applies, and applies it where declarations are collected. -/
structure Exportable (program : Program) (width : Nat) (store : Store) : Prop where
  declaresOnce : store.DeclaresOnce
  named : ∀ decl ∈ store.relations, IsRelationName decl.name
  declared : ∀ decl ∈ declarations store.clauses store.queries, decl ∈ store.relations
  horn : ∀ clause ∈ store.clauses, clause.IsHorn
  columns : ∀ clause ∈ store.clauses, clause.head.args ≠ []
  respected : ∀ clause ∈ store.clauses, Names.Respected width clause.vars
  positive : ∀ query ∈ store.queries, query.condition.Positive
  asked : ∀ query ∈ store.queries, query.condition.Admissible program width

namespace Exportable

variable {store : Store} {program : Program} {width : Nat} {merge : Bool}

/-- Everything that a stored clause applies is declared. -/
theorem declared_of_mem (h : store.Exportable program width) {clause : Clause}
    (hclause : clause ∈ store.clauses) :
    ∀ atom ∈ clause.applications, atom.declaration ∈ store.relations := by
  intro atom hatom
  refine h.declared _ (mem_declarations.mpr (.inl ⟨clause, hclause, atom, ?_, rfl⟩))
  rcases List.mem_append.mp hatom with hbody | hhead
  · obtain ⟨part, hpart, hmem⟩ := Formula.mem_applicationsList.mp hbody
    refine List.mem_append_left _ (Formula.mem_atomsList.mpr ⟨part, hpart, ?_⟩)
    exact ((h.horn clause hclause).body part hpart).positive.mem_atoms atom hmem
  · rw [Atom.applications, (h.horn clause hclause).head] at hhead
    exact List.mem_append_right _ hhead

theorem closedIn_clause (h : store.Exportable program width) {clause : Clause}
    (hclause : clause ∈ store.clauses) {scope : Scope}
    (hrelations : store.relations ⊆ scope.relations) (hvars : clause.vars ⊆ scope.vars) :
    clause.bodyFormula.ClosedIn scope ∧ clause.head.toFormula.ClosedIn scope := by
  have hdeclared := h.declared_of_mem hclause
  constructor
  · refine Formula.all_of_parts Formula.closedIn_const Formula.closedIn_and_iff
      fun part hpart => ⟨fun atom hatom => hrelations (hdeclared atom ?_), fun v hv => hvars ?_⟩
    · exact List.mem_append_left _ (Formula.mem_applicationsList.mpr ⟨part, hpart, hatom⟩)
    · exact List.mem_append_left _ (Formula.mem_varsList.mpr ⟨part, hpart, hv⟩)
  · exact ⟨fun atom hatom => hrelations (hdeclared atom (List.mem_append_right _ hatom)),
      fun v hv => hvars (List.mem_append_right _ hv)⟩

theorem closedIn_group (h : store.Exportable program width) {group : QueryGroup}
    (hgroup : group ∈ groupQueries merge store.queries) {scope : Scope}
    (hrelations : store.relations ⊆ scope.relations) (hvars : group.condition.vars ⊆ scope.vars) :
    group.condition.ClosedIn scope := by
  have hclosed : ∀ query ∈ store.queries,
      query.condition.ClosedIn ⟨store.relations, store.queries.flatMap (·.condition.vars)⟩ := by
    refine fun query hquery => ⟨fun atom hatom => ?_, fun v hv => ?_⟩
    · exact h.declared _ (mem_declarations.mpr
        (.inr ⟨query, hquery, atom, (h.positive query hquery).mem_atoms atom hatom, rfl⟩))
    · exact List.mem_flatMap.mpr ⟨query, hquery, hv⟩
  have hgroups := groupQueries_of_conditions
    (fun _ hparts => Formula.any_of_parts Formula.closedIn_const Formula.closedIn_or_iff hparts)
    hclosed merge group hgroup
  exact ⟨fun atom hatom => hrelations (hgroups.relations atom hatom), hvars⟩

theorem text_ne_ruleText (h : store.Exportable program width) {clause : Clause}
    (hclause : clause ∈ store.clauses) (group : QueryGroup) (index : Nat) :
    clause.text ≠ group.ruleText index := by
  refine clause.text_ne_ruleText (h.named _ (h.declared_of_mem hclause clause.head ?_))
    (h.columns clause hclause) group index
  exact List.mem_append_right _ List.mem_cons_self

theorem allows_stored (h : store.Exportable program width) {scope : Scope}
    (hrelations : store.relations ⊆ scope.relations)
    (hvars : ∀ clause ∈ store.clauses, clause.vars ⊆ scope.vars) {clause : Clause}
    (hclause : clause ∈ store.clauses) : store.Allows merge scope (.rule clause.text) := by
  refine ⟨⟨_, _, .clause hclause⟩, fun body head hwrites => ?_⟩
  rcases hwrites.cases with ⟨other, hother, -, rfl, rfl⟩ | ⟨index, group, -, htext, -⟩
  · exact h.closedIn_clause hother hrelations (hvars other hother)
  · exact absurd htext (h.text_ne_ruleText hclause group index)

/-- The commands of a group may follow when its relation is new. -/
theorem accepts_commands (h : store.Exportable program width) {scope : Scope} {index : Nat}
    {group : QueryGroup} (hgroup : (groupQueries merge store.queries)[index]? = some group)
    (hclosed : group.condition.ClosedIn scope)
    (hnew : queryRelationName index ∉ scope.relations.map (·.name)) :
    store.Accepts merge scope (group.commands false index) := by
  have hdeclared : (⟨queryRelationName index, []⟩ : RelationDecl) ∈
      scope.relations ++ [⟨queryRelationName index, []⟩] :=
    List.mem_append_right _ (List.mem_singleton_self _)
  refine ⟨hnew, ⟨⟨_, _, .group hgroup⟩, fun body head hwrites => ?_⟩, hdeclared, trivial⟩
  rcases hwrites.cases with ⟨clause, hclause, htext, -⟩ | ⟨other, group', hother, htext, rfl, rfl⟩
  · exact absurd htext.symm (h.text_ne_ruleText hclause group index)
  · obtain rfl := QueryGroup.index_eq_of_ruleText_eq htext
    rw [hgroup] at hother
    obtain rfl := Option.some.inj hother
    refine ⟨hclosed.mono (List.subset_append_left _ _) (List.Subset.refl _),
      fun atom hatom => ?_, by simp [Atom.toFormula]⟩
    rw [Atom.toFormula, Formula.applications, Term.applicationsList, List.mem_singleton] at hatom
    rw [hatom]
    exact hdeclared

theorem accepts_groups (h : store.Exportable program width) {groups : List QueryGroup}
    {scope : Scope} (offset : Nat)
    (hgroups : groups = (groupQueries merge store.queries).drop offset)
    (hclosed : ∀ group ∈ groups, group.condition.ClosedIn scope)
    (hnew : ∀ index, offset ≤ index → queryRelationName index ∉ scope.relations.map (·.name)) :
    store.Accepts merge scope
      (groups.mapIdx fun i group => group.commands false (offset + i)).flatten := by
  induction groups generalizing scope offset with
  | nil => trivial
  | cons group rest ih =>
      have hgroup : (groupQueries merge store.queries)[offset]? = some group := by
        rw [← List.head?_drop, ← hgroups, List.head?_cons]
      have hrest : rest = (groupQueries merge store.queries).drop (offset + 1) := by
        rw [← List.tail_drop, ← hgroups, List.tail_cons]
      obtain ⟨hfirst, hothers⟩ := List.forall_mem_cons.mp hclosed
      rw [List.mapIdx_cons, List.flatten_cons, accepts_append]
      refine ⟨h.accepts_commands hgroup hfirst (hnew offset (Nat.le_refl _)), ?_⟩
      -- the groups behind the first one are numbered from one place later
      have hshift : (fun i (group : QueryGroup) => group.commands false (offset + (i + 1))) =
          fun i group => group.commands false (offset + 1 + i) := by
        funext i group
        rw [Nat.add_right_comm, Nat.add_assoc]
      rw [hshift]
      refine ih (offset + 1) hrest (fun other hother => ?_) fun index hindex => ?_
      · exact (hothers other hother).mono (List.subset_append_left _ _) (List.Subset.refl _)
      · -- a new group declares its own relation, which no later one has
        have hold := hnew index (Nat.le_of_succ_le hindex)
        have hother : queryRelationName index ≠ queryRelationName offset := fun heq => by
          have hindices := queryRelationName_injective heq
          omega
        simp only [QueryGroup.commands, Bool.false_eq_true, if_false, List.nil_append,
          List.foldl_cons, List.foldl_nil, Scope.after, List.map_append, List.map_cons,
          List.map_nil, List.mem_append, List.mem_singleton]
        exact not_or.mpr ⟨hold, hother⟩

theorem notMem_sortedRelations (h : store.Exportable program width) (index : Nat) :
    queryRelationName index ∉ store.sortedRelations.map (·.name) := by
  intro hmem
  obtain ⟨decl, hdecl, hname⟩ := List.mem_map.mp hmem
  exact (h.named decl (List.mem_mergeSort.mp hdecl)).notAsked index hname

end Exportable

/-! ## Scripts -/

/-- The commands of the script of a store without comments, with its variables. -/
def commandsWith (store : Store) (merge : Bool) (vars : List (String × TermSort)) : List Command :=
  [.comment "droidchc fixedpoint problem", .useEngine "spacer"] ++
    store.sortedRelations.map .declareRelation ++
    vars.map (fun (name, sort) => .declareVariable name sort) ++
    store.ruleTexts.map .rule ++
    ((groupQueries merge store.queries).mapIdx fun index group =>
      group.commands false index).flatten

variable {store : Store} {program : Program} {width : Nat} {merge : Bool}
  {vars : List (String × TermSort)}

/-- The variables that a script is written with are used at their sorts. -/
theorem Exportable.respected_occurrences (h : store.Exportable program width) (merge : Bool) :
    Names.Respected width (store.clauses.flatMap Clause.vars ++
      (groupQueries merge store.queries).flatMap (·.condition.vars)) := by
  refine Names.respected_append.mpr ⟨fun v hv => ?_, fun v hv => ?_⟩
  · obtain ⟨clause, hclause, hmem⟩ := List.mem_flatMap.mp hv
    exact h.respected clause hclause v hmem
  · obtain ⟨group, hgroup, hmem⟩ := List.mem_flatMap.mp hv
    exact (admissible_groupQueries h.asked merge group hgroup).vars v hmem

/-- The script of a store declares each variable of its rules once. -/
theorem Exportable.exists_script (h : store.Exportable program width) (merge : Bool) :
    ∃ vars, store.script merge false = .ok (store.commandsWith merge vars) ∧
      (vars.map (·.1)).Nodup ∧ (∀ clause ∈ store.clauses, clause.vars ⊆ vars) ∧
      ∀ group ∈ groupQueries merge store.queries, group.condition.vars ⊆ vars := by
  have hrespected := h.respected_occurrences merge
  obtain ⟨vars, hvars⟩ := distinctVariables_ok hrespected
  obtain ⟨hnodup, hmem⟩ := distinctVariables_spec hvars
  refine ⟨vars, ?_, hnodup, fun clause hclause v hv => ?_, fun group hgroup v hv => ?_⟩
  · unfold script
    dsimp only
    rw [hvars]
    rfl
  · exact (hmem v).mpr (List.mem_append_left _ (List.mem_flatMap.mpr ⟨clause, hclause, hv⟩))
  · exact (hmem v).mpr (List.mem_append_right _ (List.mem_flatMap.mpr ⟨group, hgroup, hv⟩))

theorem Exportable.accepts_commandsWith (h : store.Exportable program width)
    (hnodup : (vars.map (·.1)).Nodup) (hclauses : ∀ clause ∈ store.clauses, clause.vars ⊆ vars)
    (hgroups : ∀ group ∈ groupQueries merge store.queries, group.condition.vars ⊆ vars) :
    store.Accepts merge {} (store.commandsWith merge vars) := by
  have hrelations : store.relations ⊆ store.sortedRelations :=
    fun decl hdecl => List.mem_mergeSort.mpr hdecl
  have hsorted : (store.sortedRelations.map (·.name)).Nodup :=
    ((List.mergeSort_perm _ _).map _).nodup_iff.mpr h.declaresOnce
  rw [commandsWith, accepts_append, accepts_append, accepts_append, accepts_append]
  simp only [List.foldl_append, foldl_declareRelation, foldl_declareVariable, foldl_rule,
    List.foldl_cons, List.foldl_nil, Scope.after, List.nil_append]
  refine ⟨⟨⟨⟨⟨trivial, trivial, trivial⟩, accepts_declareRelation hsorted⟩,
    accepts_declareVariable hnodup⟩, accepts_rule fun text htext => ?_⟩, ?_⟩
  · obtain ⟨clause, hclause, rfl⟩ := (store.ruleTexts_spec.2 text).mp htext
    exact h.allows_stored hrelations hclauses hclause
  · have haccepts : store.Accepts merge ⟨store.sortedRelations, vars⟩
        ((groupQueries merge store.queries).mapIdx fun index group =>
          group.commands false (0 + index)).flatten :=
      h.accepts_groups 0 rfl
        (fun group hgroup => h.closedIn_group hgroup hrelations (hgroups group hgroup))
        fun index _ => h.notMem_sortedRelations index
    simpa only [Nat.zero_add] using haccepts

/-- What is picked from the commands of groups when it is one item from each. -/
theorem filterMap_groups {α : Type} {pick : Command → Option α} {item : Nat → QueryGroup → α}
    (hpick : ∀ index (group : QueryGroup),
      (group.commands false index).filterMap pick = [item index group])
    (groups : List QueryGroup) :
    (groups.mapIdx fun index group => group.commands false index).flatten.filterMap pick =
      groups.mapIdx item := by
  rw [List.filterMap_flatten, List.mapIdx_eq_zipIdx_map, List.mapIdx_eq_zipIdx_map, List.map_map]
  simp only [Function.comp_def, hpick]
  rw [← List.flatMap_def, ← List.map_eq_flatMap]

theorem filterMap_rule? (store : Store) (merge : Bool) (vars : List (String × TermSort)) :
    (store.commandsWith merge vars).filterMap Command.rule? =
      store.ruleTexts ++ (groupQueries merge store.queries).mapIdx QueryGroup.ruleText := by
  have hgroups := @filterMap_groups _ Command.rule? QueryGroup.ruleText (fun _ _ => rfl)
    (groupQueries merge store.queries)
  simp only [commandsWith, List.filterMap_append, hgroups, List.filterMap_map, Function.comp_def,
    Command.rule?, List.filterMap_cons, List.filterMap_nil, List.filterMap_none,
    List.filterMap_some, List.nil_append]

theorem filterMap_query? (store : Store) (merge : Bool) (vars : List (String × TermSort)) :
    (store.commandsWith merge vars).filterMap Command.query? =
      (List.range (groupQueries merge store.queries).length).map queryRelationName := by
  have hgroups := @filterMap_groups _ Command.query? (fun index _ => queryRelationName index)
    (fun _ _ => rfl) (groupQueries merge store.queries)
  have hindices : (groupQueries merge store.queries).mapIdx
      (fun index _ => queryRelationName index) =
        (List.range (groupQueries merge store.queries).length).map queryRelationName :=
    List.ext_getElem (by simp) fun index _ _ => by simp
  simp only [commandsWith, List.filterMap_append, hgroups, hindices, List.filterMap_map,
    Function.comp_def, Command.query?, List.filterMap_cons, List.filterMap_nil,
    List.filterMap_none, List.nil_append]

/-- A stored clause is written once, and not as the rule of a group. -/
theorem Exportable.count_text (h : store.Exportable program width) {clause : Clause}
    (hclause : clause ∈ store.clauses) :
    ((store.commandsWith merge vars).filterMap Command.rule?).count clause.text = 1 := by
  obtain ⟨hnodup, hmem⟩ := store.ruleTexts_spec
  have hnone : clause.text ∉ (groupQueries merge store.queries).mapIdx QueryGroup.ruleText := by
    intro hmem
    obtain ⟨index, hindex, heq⟩ := List.mem_mapIdx.mp hmem
    exact h.text_ne_ruleText hclause _ index heq.symm
  rw [filterMap_rule?, List.count_append, List.count_eq_zero_of_not_mem hnone,
    List.count_eq_one_of_mem hnodup ((hmem _).mpr ⟨clause, hclause, rfl⟩)]

end Store

/-! ## Compiled programs -/

namespace Program

variable {program : Program} {config : Config}

theorem exportable_of_compileInOrder {order : List (Class × Method)}
    (horder : order.Perm program.methods) {compilation : Compilation}
    (hcompile : program.compileInOrder config order = .ok compilation) :
    compilation.store.Exportable program config.width := by
  obtain ⟨labels, -, houtcome⟩ := outcome_of_compileInOrder horder hcompile
  have hasked : ∀ query ∈ compilation.store.queries,
      query.condition.Admissible program config.width := by
    intro query hquery
    obtain ⟨cx, hstep, hquery⟩ := houtcome.exists_of_mem_queries horder hquery
    exact hstep.width_eq ▸ (hstep.asked hquery).admissible hstep
  -- a clause states a fact of the program or is emitted at one of its points
  have hcases : ∀ clause ∈ compilation.store.clauses,
      clause ∈ (program.environment config labels).factClauses program ∨
        ∃ cx, program.HasStep (program.environment config labels) cx ∧ cx.Emitted clause := by
    intro clause hclause
    rcases houtcome.clause_cases horder hclause with hfact | ⟨cx, hstep, hclause⟩
    · exact .inl hfact
    · exact .inr ⟨cx, hstep, hstep.emitted hclause⟩
  -- every part was shown for emitted clauses and for facts, and the store has no others
  constructor
  case declaresOnce => exact houtcome.declaresOnce
  case declared => exact houtcome.declared
  case asked => exact hasked
  case named =>
    intro decl hdecl
    rcases houtcome.bounded decl hdecl with hstored | ⟨entry, hentry, -, hskipped⟩
    · rcases mem_declarations.mp hstored with
        ⟨clause, hclause, atom, hatom, rfl⟩ | ⟨query, hquery, atom, hatom, rfl⟩
      · rcases hcases clause hclause with hfact | ⟨cx, -, hemitted⟩
        · exact ((admissible_factClauses rfl clause hfact).applications atom
            (Clause.mem_applications_of_mem_atoms hatom)).isRelationName
        · exact hemitted.isRelationName atom hatom
      · exact ((hasked query hquery).applications atom
          (Formula.mem_applications_of_mem_atoms _ hatom)).isRelationName
    · -- the relation was declared for a method that was then skipped
      rcases mem_declarations.mp hskipped with ⟨clause, hclause, atom, hatom, rfl⟩ | ⟨_, hnone, -⟩
      · rw [clauses_methodEmission] at hclause
        obtain ⟨cx, hcx, hclause⟩ := List.mem_flatMap.mp hclause
        have hstep := hasStep_of_mem_methodContexts (horder.mem_iff.mp hentry) hcx
        exact (hstep.emitted hclause).isRelationName atom hatom
      · cases hnone
  case horn =>
    intro clause hclause
    rcases hcases clause hclause with hfact | ⟨cx, -, hemitted⟩
    · exact isHorn_factClauses _ program clause hfact
    · exact hemitted.isHorn
  case columns =>
    intro clause hclause
    rcases hcases clause hclause with hfact | ⟨cx, -, hemitted⟩
    · exact Environment.args_ne_nil_of_mem_factClauses hfact
    · exact hemitted.args_ne_nil
  case respected =>
    intro clause hclause
    rcases hcases clause hclause with hfact | ⟨cx, hstep, hemitted⟩
    · exact (admissible_factClauses rfl clause hfact).vars
    · exact hstep.width_eq ▸ hemitted.respected
  case positive =>
    intro query hquery
    obtain ⟨cx, hstep, hquery⟩ := houtcome.exists_of_mem_queries horder hquery
    exact (hstep.asked hquery).positive

/-- The script of a compiled program can be read by itself: every name is declared once and before
it is used, at the sorts it is used at, the rules are the stored clauses, each once, and one for
every query group, whose relation is new, and every group is asked about once.  This holds in
whichever order the methods are stored. -/
theorem script_self_contained {order : List (Class × Method)}
    (horder : order.Perm program.methods) {compilation : Compilation}
    (hcompile : program.compileInOrder config order = .ok compilation) (merge : Bool) :
    program.compile config = program.compileInOrder config program.methods ∧
    ∃ commands, compilation.store.script merge false = .ok commands ∧
      compilation.store.render merge false = .ok (scriptText commands) ∧
      compilation.store.Accepts merge {} commands ∧
      (∃ stored, commands.filterMap Command.rule? =
          stored ++ (groupQueries merge compilation.store.queries).mapIdx QueryGroup.ruleText ∧
        ∀ text, text ∈ stored ↔ ∃ clause ∈ compilation.store.clauses, clause.text = text) ∧
      (∀ clause ∈ compilation.store.clauses,
        (commands.filterMap Command.rule?).count clause.text = 1) ∧
      commands.filterMap Command.query? =
        (List.range (groupQueries merge compilation.store.queries).length).map queryRelationName ∧
      ∀ decl ∈ compilation.store.relations, ∀ index, decl.name ≠ queryRelationName index := by
  have hexport := exportable_of_compileInOrder horder hcompile
  obtain ⟨vars, hscript, hnodup, hclauses, hgroups⟩ := hexport.exists_script merge
  refine ⟨compile_eq_compileInOrder program config, _, hscript, by rw [Store.render, hscript]; rfl,
    hexport.accepts_commandsWith hnodup hclauses hgroups, ?_, ?_, ?_, ?_⟩
  · exact ⟨_, Store.filterMap_rule? _ merge vars, compilation.store.ruleTexts_spec.2⟩
  · exact fun clause hclause => hexport.count_text hclause
  · exact Store.filterMap_query? _ merge vars
  · exact fun decl hdecl => (hexport.named decl hdecl).notAsked

theorem script_self_contained_clashing :
    clashing.methods.reverse.Perm clashing.methods ∧
      ∃ compilation commands,
        clashing.compileInOrder sinkConfig clashing.methods.reverse = .ok compilation ∧
        compilation.store.script false false = .ok commands ∧
        compilation.store.Accepts false {} commands ∧
        commands.filterMap Command.query? = ["Q_0"] := by
  have hreverse : clashing.methods.reverse.Perm clashing.methods := List.reverse_perm _
  obtain ⟨compilation, hcompile, hreport⟩ := compileInOrder_clashing
  obtain ⟨labels, -, houtcome⟩ := outcome_of_compileInOrder hreverse hcompile
  obtain ⟨-, commands, hscript, -, haccepts, -, -, hqueries, -⟩ :=
    script_self_contained hreverse hcompile false
  have hlength : (groupQueries false compilation.store.queries).length = 1 := by
    have hcounted := houtcome.counted_queries
    rw [hreport] at hcounted
    simpa [groupQueries] using hcounted.symm
  rw [hlength] at hqueries
  exact ⟨hreverse, compilation, commands, hcompile, hscript, haccepts,
    hqueries.trans (by decide)⟩

end Program

end DalvikHorn
