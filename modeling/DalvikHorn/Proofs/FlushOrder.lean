import DalvikHorn.Proofs.Failures
import Mathlib.Order.Compare

/-!
# Scripts do not depend on the order of storing

The methods of a program can be compiled in any order, and what they contribute is
stored as it comes.  When all of them can be stored in one order, they can be stored
in every order, and the script without comments is the same text.

## Strategy

What a script says is sorted, so it is enough that elements which sorting does not
tell apart are written alike.

* **Relations.**  A store declares every relation once, so its declarations are the
  same list once they are sorted by name.  Whether another order meets a conflict
  depends only on the declarations that are asked for (`compileMethods_cases`).
* **Variables.**  A name has one sort, also in a program whose frames do not agree
  (`StepContext.Emitted.respected`).
* **Queries.**  Two queries of one call and register can come from different methods
  whose identifiers collide.  Both apply the relation of their point, so in a store
  without conflicts both frames have one size, and the conditions are the same
  (`condition_eq_of_key_eq`).
-/

namespace DalvikHorn

/-! ## Sorting -/

section Sorting

variable {α : Type}

/-- Sorting forgets the order when it tells all elements apart. -/
theorem mergeSort_eq_of_perm {le : α → α → Bool} {first second : List α}
    (htrans : ∀ a b c, le a b → le b c → le a c) (htotal : ∀ a b, (le a b || le b a) = true)
    (hantisymm : ∀ a ∈ first, ∀ b ∈ first, le a b → le b a → a = b)
    (hperm : first.Perm second) : first.mergeSort le = second.mergeSort le := by
  have hsorted : (first.mergeSort le).Perm (second.mergeSort le) :=
    ((List.mergeSort_perm first le).trans hperm).trans (List.mergeSort_perm second le).symm
  refine hsorted.eq_of_pairwise ?_ (List.pairwise_mergeSort htrans htotal first)
    (List.pairwise_mergeSort htrans htotal second)
  intro a b ha hb hab hba
  have hb' : b ∈ second := List.mem_mergeSort.mp hb
  exact hantisymm a (List.mem_mergeSort.mp ha) b (hperm.mem_iff.mpr hb') hab hba

theorem textLe_iff {left right : String} : textLe left right = true ↔ left ≤ right := by
  rw [textLe, Bool.not_eq_true', decide_eq_false_iff_not, String.not_lt]

theorem textLe_trans {first second third : String} (h : textLe first second)
    (h' : textLe second third) : textLe first third :=
  textLe_iff.mpr (String.le_trans (textLe_iff.mp h) (textLe_iff.mp h'))

theorem textLe_total (left right : String) : (textLe left right || textLe right left) = true := by
  rw [Bool.or_eq_true, textLe_iff, textLe_iff]
  exact String.le_total _ _

/-- Sorting by a text puts the texts in order. -/
theorem pairwise_mergeSort_textLe (key : α → String) (items : List α) :
    (items.mergeSort fun left right => textLe (key left) (key right)).Pairwise
      fun first second => textLe (key first) (key second) := by
  refine List.pairwise_mergeSort (fun _ _ _ hab hbc => ?_) (fun _ _ => ?_) items
  · exact textLe_trans hab hbc
  · exact textLe_total _ _

theorem mergeSort_textLe_eq_of_perm (key : α → String) {first second : List α}
    (hkey : ∀ a ∈ first, ∀ b ∈ first, key a = key b → a = b) (hperm : first.Perm second) :
    (first.mergeSort fun left right => textLe (key left) (key right)) =
      second.mergeSort fun left right => textLe (key left) (key right) := by
  refine mergeSort_eq_of_perm (fun _ _ _ => textLe_trans) (fun _ _ => textLe_total _ _)
    (fun a ha b hb hab hba => ?_) hperm
  rw [textLe_iff] at hab hba
  exact hkey a ha b hb (String.le_antisymm hab hba)

/-- Grouping by a relation that a map does not change. -/
theorem map_splitBy {β : Type} {r : α → α → Bool} {s : β → β → Bool} {f : α → β}
    (h : ∀ a b, r a b = s (f a) (f b)) (items : List α) :
    (items.splitBy r).map (List.map f) = (items.map f).splitBy s := by
  symm
  -- a list is cut in one way only into runs of related elements
  rw [List.splitBy_eq_iff]
  refine ⟨?_, ?_, ?_, ?_⟩
  · rw [← List.map_flatten, List.flatten_splitBy]
  · intro hmem
    obtain ⟨run, hrun, hnil⟩ := List.mem_map.mp hmem
    rw [List.map_eq_nil_iff] at hnil
    exact List.nil_notMem_splitBy r items (hnil ▸ hrun)
  · intro mapped hmapped
    obtain ⟨run, hrun, rfl⟩ := List.mem_map.mp hmapped
    rw [List.isChain_map]
    refine (List.isChain_of_mem_splitBy hrun).imp fun a b hab => ?_
    rw [← h]
    exact hab
  · rw [List.isChain_map]
    refine (List.isChain_getLast_head_splitBy r items).imp ?_
    rintro first second ⟨hfirst, hsecond, hne⟩
    refine ⟨by simpa using hfirst, by simpa using hsecond, ?_⟩
    rw [List.getLast_map, List.head_map, ← h]
    exact hne

end Sorting

/-! ## Queries -/

namespace QueryKey

/-- The order of calls, component by component. -/
theorem compare_eq_compareLex :
    compare = compareLex (compareOn fun key => key.owner.toInt)
      (compareLex (compareOn fun key => key.method.toInt)
        (compareLex (compareOn fun key => key.pc.toNat) (compareOn fun key => key.sink))) := rfl

instance : Std.TransCmp compare := by
  rw [compare_eq_compareLex]
  infer_instance

/-- Calls that the order does not tell apart are one. -/
theorem eq_of_compare_eq {first second : QueryKey} (h : first.compare second = .eq) :
    first = second := by
  simp only [compare_eq_compareLex, compareLex_eq_eq, compareOn,
    Std.LawfulEqCmp.compare_eq_iff_eq] at h
  obtain ⟨howner, hmethod, hpc, hsink⟩ := h
  obtain ⟨owner, method, pc, sink⟩ := first
  obtain ⟨owner', method', pc', sink'⟩ := second
  rw [mk.injEq]
  exact ⟨Int32.toInt_inj.mp howner, Int32.toInt_inj.mp hmethod, UInt32.toNat_inj.mp hpc, hsink⟩

end QueryKey

namespace Query

/-- The order of queries, component by component. -/
def order : Query → Query → Ordering :=
  compareLex
    (compareLex (compareOn fun query => query.key.owner.toInt)
      (compareLex (compareOn fun query => query.key.method.toInt)
        (compareLex (compareOn fun query => query.key.pc.toNat)
          (compareOn fun query => query.key.sink))))
    (compareOn fun query => query.register.toNat)

theorem le_eq_isLE (left right : Query) : left.le right = (order left right).isLE := rfl

instance : Std.TransCmp order := by
  unfold order
  infer_instance

theorem le_trans (first second third : Query) (h : first.le second) (h' : second.le third) :
    first.le third := by
  rw [le_eq_isLE] at h h' ⊢
  exact Std.TransCmp.isLE_trans h h'

theorem le_total (first second : Query) : (first.le second || second.le first) = true := by
  have hswap : order first second = (order second first).swap := Std.OrientedCmp.eq_swap
  rw [le_eq_isLE, le_eq_isLE, hswap]
  cases order second first <;> rfl

/-- Queries that the order does not tell apart belong to one call and register. -/
theorem eq_of_le_of_le {first second : Query} (h : first.le second) (h' : second.le first) :
    first.key = second.key ∧ first.register = second.register := by
  rw [le_eq_isLE] at h h'
  have hequal : order first second = .eq := Std.OrientedCmp.isLE_antisymm h h'
  obtain ⟨hkey, hregister⟩ := compareLex_eq_eq.mp hequal
  exact ⟨QueryKey.eq_of_compare_eq hkey,
    UInt32.toNat_inj.mp (Std.LawfulEqCmp.eq_of_compare hregister)⟩

/-- A query without its description. -/
def silent (query : Query) : Query :=
  { query with description := "" }

end Query

/-- What queries ask does not depend on their descriptions. -/
theorem conditions_groupQueries_silent (merge : Bool) (queries : List Query) :
    (groupQueries merge (queries.map Query.silent)).map (·.condition) =
      (groupQueries merge queries).map (·.condition) := by
  -- descriptions are not compared, so sorting does not see them
  have hsorted : (queries.map Query.silent).mergeSort Query.le =
      (queries.mergeSort Query.le).map Query.silent := by
    symm
    refine List.map_mergeSort fun one _ other _ => ?_
    rfl
  unfold groupQueries
  dsimp only
  rw [hsorted]
  cases merge with
  | false =>
      rw [if_neg Bool.false_ne_true, if_neg Bool.false_ne_true, List.map_map, List.map_map,
        List.map_map]
      rfl
  | true =>
      have hsplit : ((queries.mergeSort Query.le).splitBy (·.key == ·.key)).map
          (List.map Query.silent) =
            ((queries.mergeSort Query.le).map Query.silent).splitBy (·.key == ·.key) := by
        refine map_splitBy (fun one other => ?_) _
        rfl
      rw [if_pos rfl, if_pos rfl, ← hsplit, List.map_map, List.map_map, List.map_map]
      refine List.map_congr_left fun run _ => ?_
      simp only [Function.comp_apply, joinQueries, List.map_map]
      rfl

/-- Queries ask the same in every order when those of one call and register do. -/
theorem conditions_groupQueries_eq {first second : List Query} (hperm : first.Perm second)
    (hsame : ∀ one ∈ first, ∀ other ∈ first, one.key = other.key →
      one.register = other.register → one.condition = other.condition) (merge : Bool) :
    (groupQueries merge first).map (·.condition) =
      (groupQueries merge second).map (·.condition) := by
  have hsorted : (first.map Query.silent).mergeSort Query.le =
      (second.map Query.silent).mergeSort Query.le := by
    refine mergeSort_eq_of_perm Query.le_trans Query.le_total ?_ (hperm.map _)
    intro one hone other hother hle hle'
    obtain ⟨query, hquery, rfl⟩ := List.mem_map.mp hone
    obtain ⟨query', hquery', rfl⟩ := List.mem_map.mp hother
    obtain ⟨hkey, hregister⟩ := Query.eq_of_le_of_le hle hle'
    have hkeys : query.key = query'.key := hkey
    have hregisters : query.register = query'.register := hregister
    simp only [Query.silent, Query.mk.injEq, and_true]
    exact ⟨hsame query hquery query' hquery' hkeys hregisters, hkeys, hregisters⟩
  rw [← conditions_groupQueries_silent merge first, ← conditions_groupQueries_silent merge second]
  unfold groupQueries
  dsimp only
  rw [hsorted]

/-! ## Scripts -/

namespace Store

variable {first second : Store}

/-- Two stores with the same content in another order. -/
structure Reordered (first second : Store) : Prop where
  declaresOnce : first.DeclaresOnce
  declaresOnce' : second.DeclaresOnce
  mem_relations : ∀ decl, decl ∈ first.relations ↔ decl ∈ second.relations
  clauses : first.clauses.Perm second.clauses
  queries : first.queries.Perm second.queries

theorem Reordered.sortedRelations_eq (h : first.Reordered second) :
    first.sortedRelations = second.sortedRelations := by
  have hnodup : ∀ {store : Store}, store.DeclaresOnce → store.relations.Nodup := fun honce =>
    List.Nodup.of_map _ honce
  have hperm : first.relations.Perm second.relations :=
    (List.perm_ext_iff_of_nodup (hnodup h.declaresOnce) (hnodup h.declaresOnce')).mpr
      h.mem_relations
  refine mergeSort_textLe_eq_of_perm RelationDecl.name ?_ hperm
  intro one hone other hother hname
  exact h.declaresOnce.compatible one hone other hother hname

theorem Reordered.ruleTexts_eq (h : first.Reordered second) :
    first.ruleTexts = second.ruleTexts := by
  have hsorted := mergeSort_textLe_eq_of_perm id (fun _ _ _ _ heq => heq)
    (h.clauses.map Clause.text)
  exact congrArg dropRepeats hsorted

theorem distinctVariables_eq {width : Nat} {occurrences occurrences' : List (String × TermSort)}
    (hrespected : Names.Respected width occurrences) (hperm : occurrences.Perm occurrences') :
    distinctVariables occurrences = distinctVariables occurrences' := by
  have hsorted := mergeSort_textLe_eq_of_perm Prod.fst (fun one hone other hother hname =>
    Prod.ext hname (by rw [(hrespected one hone).sort_eq, (hrespected other hother).sort_eq, hname])) hperm
  unfold distinctVariables
  rw [hsorted]

/-- Without comments, the commands of queries depend on their conditions only. -/
theorem commands_eq {groups groups' : List QueryGroup}
    (h : groups.map (·.condition) = groups'.map (·.condition)) :
    groups.mapIdx (fun index group => group.commands false index) =
      groups'.mapIdx fun index group => group.commands false index := by
  have hconditions : ∀ groups : List QueryGroup,
      groups.mapIdx (fun index group => group.commands false index) =
        (groups.map (·.condition)).mapIdx fun index condition =>
          QueryGroup.commands false index { condition := condition, descriptions := [] } := by
    intro groups
    refine List.ext_getElem (by simp) fun index _ _ => ?_
    simp only [List.getElem_mapIdx, List.getElem_map]
    rfl
  rw [hconditions, hconditions, h]

/-- The script without comments does not depend on the order of the store. -/
theorem Reordered.render_eq (h : first.Reordered second) {program : Program} {width : Nat}
    (hclauses : ∀ clause ∈ first.clauses, Names.Respected width clause.vars)
    (hqueries : ∀ query ∈ first.queries, query.condition.Admissible program width)
    (hsame : ∀ one ∈ first.queries, ∀ other ∈ first.queries, one.key = other.key →
      one.register = other.register → one.condition = other.condition) (merge : Bool) :
    ∃ text, first.render merge false = .ok text ∧ second.render merge false = .ok text := by
  have hconditions := conditions_groupQueries_eq h.queries hsame merge
  have hvars : (groupQueries merge first.queries).flatMap (·.condition.vars) =
      (groupQueries merge second.queries).flatMap (·.condition.vars) := by
    have hmapped := congrArg (List.flatMap Formula.vars) hconditions
    simpa only [List.flatMap_map] using hmapped
  have hrespected : Names.Respected width (first.clauses.flatMap Clause.vars ++
      (groupQueries merge first.queries).flatMap (·.condition.vars)) := by
    refine Names.respected_append.mpr ⟨fun v hv => ?_, fun v hv => ?_⟩
    · obtain ⟨clause, hclause, hmem⟩ := List.mem_flatMap.mp hv
      exact hclauses clause hclause v hmem
    · obtain ⟨group, hgroup, hmem⟩ := List.mem_flatMap.mp hv
      exact (admissible_groupQueries hqueries merge group hgroup).vars v hmem
  -- the same conditions are there, and the same clauses in another order
  obtain ⟨distinct, hdistinct⟩ := distinctVariables_ok hrespected
  have hdistinct' : distinctVariables (second.clauses.flatMap Clause.vars ++
      (groupQueries merge second.queries).flatMap (·.condition.vars)) = .ok distinct := by
    rw [← hdistinct, ← hvars]
    refine (distinctVariables_eq hrespected ?_).symm
    exact (h.clauses.flatMap_right Clause.vars).append_right _
  unfold render script
  dsimp only
  rw [hdistinct, hdistinct', h.sortedRelations_eq, h.ruleTexts_eq, commands_eq hconditions]
  exact ⟨_, rfl, rfl⟩

end Store

/-! ## Queries of instructions -/

namespace StepContext

variable {cx : StepContext}

theorem queries_steps {outcome : Except Error (List Clause)} {emission : Emission}
    (h : outcome.map Emission.ofClauses = .ok emission) : emission.queries = [] := by
  cases outcome with
  | error cause => cases h
  | ok clauses =>
      cases h
      rfl

theorem sinkQueries_ask (call : CallSite) :
    Yields (cx.sinkQueries call) fun queries => ∀ query ∈ queries,
      ∃ r cell, cx.register r = .ok cell ∧ query = cx.sinkQuery call r cell := by
  unfold sinkQueries
  split
  · refine .mapM fun r _ => .bind (State.register_yields _ _).self fun cell hcell => ?_
    exact .pure ⟨r, cell, hcell, rfl⟩
  · exact .ok (by simp)

/-- A query asks for a register at the call that its key names. -/
theorem exists_sinkQuery {query : Query} (h : query ∈ cx.emission.queries) :
    ∃ call r cell, cx.register r = .ok cell ∧ query = cx.sinkQuery call r cell := by
  unfold emission compileOrSkip at h
  cases hcompile : cx.compile with
  | error cause =>
      rw [hcompile] at h
      dsimp only at h
      -- an instruction that is skipped asks nothing, and of the others only a call does
      split at h
      · rename_i emission hskip
        split at hskip
        · cases hskip
        · cases hskip
          cases h
      · cases h
  | ok emission =>
      simp only [hcompile] at h
      unfold compile at hcompile
      dsimp only at hcompile
      split at hcompile
      case h_31 kind range hopcode =>
        obtain ⟨call, -, hcompile⟩ := bind_eq_ok_iff.mp hcompile
        obtain ⟨queries, hqueries, hcompile⟩ := bind_eq_ok_iff.mp hcompile
        obtain ⟨clauses, -, hcompile⟩ := bind_eq_ok_iff.mp hcompile
        cases hcompile
        obtain ⟨r, cell, hcell, heq⟩ := (sinkQueries_ask call).result queries hqueries query h
        exact ⟨call, r, cell, hcell, heq⟩
      all_goals
        rw [queries_steps hcompile] at h
        cases h

end StepContext

/-! ## Queries that the order does not tell apart -/

section Collisions

variable {cx other : StepContext}

theorem signature_current (cx : StepContext) :
    cx.current.signature =
      frameSorts cx.width cx.shape.slotCount ++ heapSorts cx.width cx.layout.size := by
  have hsorted := cx.sorted_pre
  rw [StepContext.current, Atom.signature, pointAtom, List.map_append,
    sort_frameColumns hsorted.registers, sort_heapColumns hsorted.heap, hsorted.registers_length,
    hsorted.heap_length]

theorem condition_sinkQuery {call : CallSite} {r : UInt32} {cell : Cell}
    (h : cx.register r = .ok cell) :
    (cx.sinkQuery call r cell).condition =
      .and [cx.current.toFormula, .var (Names.high r.toNat)] := by
  have hcell := (State.register_yields _ _).result cell h
  rw [(StepContext.eq_register_of_pre hcell).2]
  rfl

/-- Two queries of one call and register are asked for frames of one size, so they have the same
condition. -/
theorem condition_eq_of_key_eq {decls : List RelationDecl} (hcompatible : Compatible decls)
    (henv : cx.env = other.env) {query query' : Query} (hquery : query ∈ cx.emission.queries)
    (hquery' : query' ∈ other.emission.queries)
    (hdecls : ∀ atom ∈ query.condition.atoms, atom.declaration ∈ decls)
    (hdecls' : ∀ atom ∈ query'.condition.atoms, atom.declaration ∈ decls)
    (hkey : query.key = query'.key) (hregister : query.register = query'.register) :
    query.condition = query'.condition := by
  obtain ⟨call, r, cell, hcell, rfl⟩ := StepContext.exists_sinkQuery hquery
  obtain ⟨call', r', cell', hcell', rfl⟩ := StepContext.exists_sinkQuery hquery'
  have hrr : r = r' := hregister
  rw [condition_sinkQuery hcell] at hdecls ⊢
  rw [condition_sinkQuery hcell'] at hdecls' ⊢
  have hcurrent : cx.current.declaration ∈ decls :=
    hdecls cx.current (by simp [Formula.atoms, Formula.atomsList, Atom.toFormula])
  have hcurrent' : other.current.declaration ∈ decls :=
    hdecls' other.current (by simp [Formula.atoms, Formula.atomsList, Atom.toFormula])
  -- the key names the point, and its relation the size of the frame
  have hpoint : cx.point = other.point := by
    have howner : cx.owner.id = other.owner.id := congrArg QueryKey.owner hkey
    have hmethod : cx.method.id = other.method.id := congrArg QueryKey.method hkey
    have hpc : cx.instruction.pc = other.instruction.pc := congrArg QueryKey.pc hkey
    simp only [StepContext.point, StepContext.pointAt, howner, hmethod, hpc]
  have hname : cx.current.relation = other.current.relation := by
    simp only [StepContext.current, pointAtom, hpoint]
  have hsignature : cx.current.signature = other.current.signature :=
    congrArg RelationDecl.signature
      (hcompatible _ hcurrent _ hcurrent' hname)
  have hcount : cx.shape.slotCount = other.shape.slotCount := by
    rw [signature_current, signature_current] at hsignature
    have hlength := congrArg List.length hsignature
    simp only [List.length_append, length_frameSorts, length_heapSorts, StepContext.layout,
      henv] at hlength
    omega
  have hatom : cx.current = other.current := by
    simp only [StepContext.current, hpoint, StepContext.pre, State.canonical, hcount,
      StepContext.layout, StepContext.width, henv]
  rw [hatom, hrr]

end Collisions

/-! ## Runs -/

namespace Program

variable {program : Program} {config : Config} {labels : Labels}

/-- The clauses of some methods. -/
def clausesOf (env : Environment) (methods : List (Class × Method)) : List Clause :=
  methods.flatMap fun entry => (methodEmission env entry).clauses

/-- The queries of some methods. -/
def queriesOf (env : Environment) (methods : List (Class × Method)) : List Query :=
  methods.flatMap fun entry => (methodEmission env entry).queries

/-- The declarations that the facts of a program and some methods ask for. -/
def declarationsOf (program : Program) (env : Environment) (methods : List (Class × Method)) :
    List RelationDecl :=
  declarations (env.factClauses program ++ clausesOf env methods) (queriesOf env methods)

theorem mem_declarationsOf {env : Environment} {methods : List (Class × Method)}
    {decl : RelationDecl} :
    decl ∈ program.declarationsOf env methods ↔
      decl ∈ declarations (env.factClauses program) [] ∨
        decl ∈ declarations (clausesOf env methods) (queriesOf env methods) := by
  rw [declarationsOf, ← List.nil_append (queriesOf env methods), mem_declarations_append]
  rfl

theorem mem_declarationsOf_of_perm {env : Environment} {order methods : List (Class × Method)}
    (horder : order.Perm methods) (decl : RelationDecl) :
    decl ∈ program.declarationsOf env order ↔ decl ∈ program.declarationsOf env methods := by
  have hclauses : (clausesOf env order).Perm (clausesOf env methods) := horder.flatMap_right _
  have hqueries : (queriesOf env order).Perm (queriesOf env methods) := horder.flatMap_right _
  simp only [declarationsOf, mem_declarations, List.mem_append, hclauses.mem_iff, hqueries.mem_iff]

/-- A method whose arguments do not fit has neither clauses nor queries. -/
theorem clausesOf_cons_of_not_wellFormed (env : Environment) {entry : Class × Method}
    (hshape : ¬ entry.2.shape.WellFormed) (rest : List (Class × Method)) :
    clausesOf env (entry :: rest) = clausesOf env rest ∧
      queriesOf env (entry :: rest) = queriesOf env rest := by
  have hnone := methodEmission_of_not_wellFormed env hshape
  rw [clausesOf, queriesOf, List.flatMap_cons, List.flatMap_cons, hnone]
  exact ⟨rfl, rfl⟩

/-- A run stores everything, or it skips a method because of a conflict. -/
theorem compileMethods_cases (config : Config) (labels : Labels) {methods : List (Class × Method)}
    (hmethods : ∀ entry ∈ methods, entry ∈ program.methods) (requests : Nat) (tally : Tally)
    {store : Store} (hstore : store.DeclaresOnce) :
    ∃ final next,
      (program.environment config labels).compileMethods .together requests tally store methods =
        .ok (final, next) ∧
      ((final.methodsSkipped = tally.methodsSkipped +
            methods.countP (fun entry => !decide entry.2.shape.WellFormed) ∧
          store.Filled next (clausesOf (program.environment config labels) methods)
            (queriesOf (program.environment config labels) methods)) ∨
        (tally.methodsSkipped + methods.countP (fun entry => !decide entry.2.shape.WellFormed) <
            final.methodsSkipped ∧
          ¬ Compatible (store.relations ++
            declarations (clausesOf (program.environment config labels) methods)
              (queriesOf (program.environment config labels) methods)))) := by
  induction methods generalizing requests tally store with
  | nil => exact ⟨tally, store, rfl, .inl ⟨by simp, hstore.filled_self⟩⟩
  | cons entry rest ih =>
      have hrest : ∀ other ∈ rest, other ∈ program.methods := fun other hother =>
        hmethods other (List.mem_cons_of_mem _ hother)
      have hcount : tally.skipped.methodsSkipped = tally.methodsSkipped + 1 := rfl
      by_cases hshape : entry.2.shape.WellFormed
      · obtain ⟨after, hstep⟩ := compileMethods_of_wellFormed (hmethods entry List.mem_cons_self)
          hshape requests tally store
        rw [hstep, List.countP_cons_of_neg (by simpa using hshape)]
        rcases Emission.store_cases hstore (methodEmission (program.environment config labels) entry)
          entry.1.id entry.2.id with ⟨stored, hstored, hfilled⟩ | ⟨stored, cause, hstored, hne⟩
        · obtain ⟨final, next, hrun, hcases⟩ := ih hrest after
            (tally.compiled (methodEmission (program.environment config labels) entry))
            hfilled.declaresOnce
          simp only [hstored]
          refine ⟨final, next, hrun, hcases.imp ?_ ?_⟩
          · rintro ⟨hskipped, hfilled'⟩
            exact ⟨hskipped, hfilled.trans hfilled'⟩
          · rintro ⟨hskipped, hne⟩
            exact ⟨hskipped, hfilled.not_compatible hne⟩
        · -- the method is skipped, and so are the later ones whose arguments do not fit
          obtain ⟨final, next, hrun, hskipped⟩ :=
            compileMethods_ok config labels hrest after tally.skipped stored
          simp only [hstored]
          exact ⟨final, next, hrun, .inr ⟨by omega, Store.not_compatible_append hne⟩⟩
      · obtain ⟨hclauses, hqueries⟩ :=
          clausesOf_cons_of_not_wellFormed (program.environment config labels) hshape rest
        obtain ⟨after, hstep⟩ := compileMethods_of_not_wellFormed hshape requests tally store
        obtain ⟨final, next, hrun, hcases⟩ := ih hrest after tally.skipped hstore
        refine ⟨final, next, by rw [hstep, hrun], ?_⟩
        rw [List.countP_cons_of_pos (by simpa using hshape), hclauses, hqueries]
        refine hcases.imp ?_ ?_
        · rintro ⟨hskipped, hfilled⟩
          exact ⟨by omega, hfilled⟩
        · rintro ⟨hskipped, hne⟩
          exact ⟨by omega, hne⟩

/-! ## Orders of methods -/

/-- Compiles a program with its methods taken in an order. -/
def compileInOrder (program : Program) (config : Config) (order : List (Class × Method)) :
    Except Error Compilation := do
  config.validate.mapError Error.config
  let labels ← config.labels.mapError Error.reference
  program.fill (program.environment config labels) order

theorem compileInOrder_eq_fill (hvalid : config.validate = .ok ())
    (hlabels : config.labels = .ok labels) (order : List (Class × Method)) :
    program.compileInOrder config order =
      program.fill (program.environment config labels) order := by
  unfold compileInOrder
  rw [hvalid, hlabels]
  rfl

/-- What a filled store holds, unless a method has been left out for a conflict. -/
theorem fill_filled (config : Config) (labels : Labels) {order : List (Class × Method)}
    (horder : ∀ entry ∈ order, entry ∈ program.methods) {compilation : Compilation}
    (hfill : program.fill (program.environment config labels) order = .ok compilation) :
    (compilation.report.methodsSkipped =
        order.countP (fun entry => !decide entry.2.shape.WellFormed) ∧
      Store.empty.Filled compilation.store
        ((program.environment config labels).factClauses program ++
          clausesOf (program.environment config labels) order)
        (queriesOf (program.environment config labels) order)) ∨
      (order.countP (fun entry => !decide entry.2.shape.WellFormed) <
          compilation.report.methodsSkipped ∧
        ¬ Compatible (program.declarationsOf (program.environment config labels) order)) := by
  rcases fill_cases config labels horder with
    ⟨store, requests, tally, final, next, hfilled, hrun, hzero, hok⟩ | ⟨cause, herror, -⟩
  · rw [hfill] at hok
    cases hok
    obtain ⟨final', next', hrun', hcases⟩ :=
      compileMethods_cases config labels horder requests tally hfilled.declaresOnce
    rw [hrun] at hrun'
    cases hrun'
    rw [hzero, Nat.zero_add] at hcases
    refine hcases.imp ?_ ?_
    · rintro ⟨hskipped, hfilled'⟩
      exact ⟨hskipped, hfilled.trans hfilled'⟩
    · rintro ⟨hskipped, hne⟩
      exact ⟨hskipped, hfilled.not_compatible hne⟩
  · rw [hfill] at herror
    cases herror

/-- Every order of compatible methods can be stored. -/
theorem exists_fill_of_compatible (config : Config) (labels : Labels)
    {order : List (Class × Method)} (horder : ∀ entry ∈ order, entry ∈ program.methods)
    (hcompatible : Compatible (program.declarationsOf (program.environment config labels) order)) :
    ∃ compilation, program.fill (program.environment config labels) order = .ok compilation ∧
      compilation.report.methodsSkipped =
        order.countP (fun entry => !decide entry.2.shape.WellFormed) ∧
      Store.empty.Filled compilation.store
        ((program.environment config labels).factClauses program ++
          clausesOf (program.environment config labels) order)
        (queriesOf (program.environment config labels) order) := by
  obtain ⟨compilation, hfill⟩ : ∃ compilation,
      program.fill (program.environment config labels) order = .ok compilation := by
    rcases fill_cases config labels horder with ⟨_, _, _, _, _, -, -, -, hok⟩ | ⟨cause, -, -, hne⟩
    · exact ⟨_, hok⟩
    · exact absurd (hcompatible.mono fun decl hdecl => mem_declarationsOf.mpr (.inl hdecl)) hne
  have hfilled := (fill_filled config labels horder hfill).resolve_right fun h => h.2 hcompatible
  exact ⟨compilation, hfill, hfilled⟩

/-! ## Contents of a filled store -/

/-- Every query of the methods of a program is one of an instruction. -/
theorem exists_context_of_mem_queriesOf {order : List (Class × Method)}
    (horder : ∀ entry ∈ order, entry ∈ program.methods) {query : Query}
    (hquery : query ∈ queriesOf (program.environment config labels) order) :
    ∃ cx, program.HasStep (program.environment config labels) cx ∧ query ∈ cx.emission.queries := by
  obtain ⟨entry, hentry, hmem⟩ := List.mem_flatMap.mp hquery
  rw [queries_methodEmission] at hmem
  obtain ⟨cx, hcx, hmem⟩ := List.mem_flatMap.mp hmem
  exact ⟨cx, hasStep_of_mem_methodContexts (horder entry hentry) hcx, hmem⟩

theorem admissible_queriesOf {order : List (Class × Method)}
    (horder : ∀ entry ∈ order, entry ∈ program.methods) {query : Query}
    (hquery : query ∈ queriesOf (program.environment config labels) order) :
    query.condition.Admissible program config.width := by
  obtain ⟨cx, hstep, hmem⟩ := exists_context_of_mem_queriesOf horder hquery
  exact hstep.width_eq ▸ (hstep.asked hmem).admissible hstep

theorem condition_eq_of_mem_queriesOf {order : List (Class × Method)}
    (horder : ∀ entry ∈ order, entry ∈ program.methods)
    (hcompatible : Compatible (program.declarationsOf (program.environment config labels) order))
    {query other : Query} (hquery : query ∈ queriesOf (program.environment config labels) order)
    (hother : other ∈ queriesOf (program.environment config labels) order)
    (hkey : query.key = other.key) (hregister : query.register = other.register) :
    query.condition = other.condition := by
  have hasks : ∀ query ∈ queriesOf (program.environment config labels) order,
      ∀ atom ∈ query.condition.atoms,
        atom.declaration ∈ program.declarationsOf (program.environment config labels) order :=
    fun query hquery atom hatom => mem_declarations.mpr (.inr ⟨query, hquery, atom, hatom, rfl⟩)
  obtain ⟨cx, hstep, hmem⟩ := exists_context_of_mem_queriesOf horder hquery
  obtain ⟨cx', hstep', hmem'⟩ := exists_context_of_mem_queriesOf horder hother
  exact condition_eq_of_key_eq hcompatible (hstep.env_eq.trans hstep'.env_eq.symm) hmem hmem'
    (hasks query hquery) (hasks other hother) hkey hregister

theorem respected_clausesOf {order : List (Class × Method)}
    (horder : ∀ entry ∈ order, entry ∈ program.methods) {clause : Clause}
    (hclause : clause ∈ clausesOf (program.environment config labels) order) :
    Names.Respected config.width clause.vars := by
  obtain ⟨entry, hentry, hmem⟩ := List.mem_flatMap.mp hclause
  rw [clauses_methodEmission] at hmem
  obtain ⟨cx, hcx, hmem⟩ := List.mem_flatMap.mp hmem
  have hstep := hasStep_of_mem_methodContexts (horder entry hentry) hcx
  exact hstep.width_eq ▸ (hstep.emitted hmem).respected

/-- Stores that were filled with the same methods in two orders have the same script. -/
theorem render_eq_of_filled {methods order : List (Class × Method)} (horder : order.Perm methods)
    (hmethods : ∀ entry ∈ methods, entry ∈ program.methods) {first second : Store}
    (hfirst : Store.empty.Filled first
      ((program.environment config labels).factClauses program ++
        clausesOf (program.environment config labels) methods)
      (queriesOf (program.environment config labels) methods))
    (hsecond : Store.empty.Filled second
      ((program.environment config labels).factClauses program ++
        clausesOf (program.environment config labels) order)
      (queriesOf (program.environment config labels) order)) (merge : Bool) :
    ∃ text, first.render merge false = .ok text ∧ second.render merge false = .ok text := by
  have hreordered : first.Reordered second := by
    -- both stores were filled with the same facts and, in another order, the same methods
    refine ⟨hfirst.declaresOnce, hsecond.declaresOnce, fun decl => ?_, ?_, ?_⟩
    · rw [hfirst.mem_relations, hsecond.mem_relations]
      exact or_congr_right (mem_declarationsOf_of_perm horder decl).symm
    · rw [hfirst.clauses_eq, hsecond.clauses_eq]
      exact ((horder.flatMap_right _).symm.append_left _).append_left _
    · rw [hfirst.queries_eq, hsecond.queries_eq]
      exact (horder.flatMap_right _).symm.append_left _
  have hcompatible : Compatible
      (program.declarationsOf (program.environment config labels) methods) :=
    hfirst.compatible.mono fun decl hdecl => List.mem_append_right _ hdecl
  have hclauses : ∀ clause ∈ first.clauses, Names.Respected config.width clause.vars := by
    intro clause hclause
    rw [hfirst.clauses_eq] at hclause
    rcases List.mem_append.mp hclause with hmem | hmem
    · cases hmem
    · rcases List.mem_append.mp hmem with hmem | hmem
      · exact (admissible_factClauses rfl clause hmem).vars
      · exact respected_clausesOf hmethods hmem
  have hqueries : first.queries = queriesOf (program.environment config labels) methods := by
    rw [hfirst.queries_eq]
    rfl
  have hadmissible : ∀ query ∈ first.queries, query.condition.Admissible program config.width := by
    rw [hqueries]
    exact fun query hquery => admissible_queriesOf hmethods hquery
  refine hreordered.render_eq hclauses hadmissible ?_ merge
  rw [hqueries]
  exact fun query hquery other hother =>
    condition_eq_of_mem_queriesOf hmethods hcompatible hquery hother

/-- When no method is left out for a conflict, the methods can be stored in every order, and the
script without comments is the same. -/
theorem render_compileInOrder {compilation : Compilation} {order : List (Class × Method)}
    (hvalid : config.validate = .ok ()) (hcompile : program.compile config = .ok compilation)
    (hskipped : compilation.report.methodsSkipped =
      program.methods.countP (fun entry => !decide entry.2.shape.WellFormed))
    (horder : order.Perm program.methods) :
    program.compileInOrder config program.methods = .ok compilation ∧
      ∃ other, program.compileInOrder config order = .ok other ∧
        other.report.methodsSkipped = compilation.report.methodsSkipped ∧
        ∀ merge, ∃ text, compilation.store.render merge false = .ok text ∧
          other.store.render merge false = .ok text := by
  obtain ⟨labels, hlabels⟩ := labels_of_validate hvalid
  have hall : ∀ entry ∈ program.methods, entry ∈ program.methods := fun _ hentry => hentry
  have hsome : ∀ entry ∈ order, entry ∈ program.methods := fun _ hentry => horder.mem_iff.mp hentry
  rw [compileInOrder_eq_fill hvalid hlabels, compileInOrder_eq_fill hvalid hlabels]
  rw [compile_eq_fill hvalid hlabels] at hcompile
  have hfilled := ((fill_filled config labels hall hcompile).resolve_right fun h =>
    absurd hskipped (Nat.ne_of_gt h.1)).2
  -- whether declarations are compatible does not depend on their order
  have hcompatible : Compatible
      (program.declarationsOf (program.environment config labels) order) := by
    refine hfilled.compatible.mono fun decl hdecl => List.mem_append_right _ ?_
    exact (mem_declarationsOf_of_perm horder decl).mp hdecl
  obtain ⟨other, hother, hcount, hfilled'⟩ :=
    exists_fill_of_compatible config labels hsome hcompatible
  refine ⟨hcompile, other, hother, ?_, render_eq_of_filled horder hall hfilled hfilled'⟩
  rw [hcount, hskipped, horder.countP_eq]

/-- A program with two methods that have the same identifier and call a sink. -/
def colliding : Program where
  classes :=
    [{ name := "La;"
       methods :=
         [{ name := "Aa(I)V", numRegisters := 1, numArguments := 1, isStatic := true
            instructions :=
              [{ pc := 0, mnemonic := "invoke-static", registers := [0],
                 reference := some "Lc;->send(I)V" },
                { pc := 3, mnemonic := "return-void" }] },
           { name := "BB(I)V", numRegisters := 1, numArguments := 1, isStatic := true
             instructions :=
               [{ pc := 0, mnemonic := "invoke-static", registers := [0],
                  reference := some "Lc;->send(I)V" },
                 { pc := 3, mnemonic := "return-void" }] }] }]

theorem render_compileInOrder_colliding :
    (∀ entry ∈ colliding.methods, entry.2.id = textHash "Aa(I)V") ∧
      ∃ compilation other, colliding.compile sampleConfig = .ok compilation ∧
        colliding.compileInOrder sampleConfig colliding.methods.reverse = .ok other ∧
        ∃ text, compilation.store.render false false = .ok text ∧
          other.store.render false false = .ok text := by
  have hids : ∀ entry ∈ colliding.methods, entry.2.id = textHash "Aa(I)V" := by decide +kernel
  have hshapes : colliding.ShapesAgree := by decide +kernel
  have hvalid : sampleConfig.validate = .ok () := by decide +kernel
  obtain ⟨labels, compilation, hcompile, -, -, -, hskipped⟩ := compile_eq hshapes hvalid
  obtain ⟨-, other, hother, -, hrender⟩ := render_compileInOrder hvalid hcompile hskipped
    (List.reverse_perm colliding.methods)
  exact ⟨hids, compilation, other, hcompile, hother, hrender false⟩

end Program

end DalvikHorn
