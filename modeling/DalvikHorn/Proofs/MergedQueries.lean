import DalvikHorn.Proofs.FlushOrder
import DalvikHorn.Proofs.PositiveClauses
import DalvikHorn.Proofs.Simulation

/-!
# Merging queries keeps their answers

With merging on, the queries of one call share a relation, whose rule has the folded
disjunction of their conditions as its body.  This file shows that nothing is lost or
added: there is one group for every call that is asked about, its condition is true when
the condition of one of the queries of the call is, and its relation can be derived when
one of the relations that the queries have without merging can.

## Strategy

* **Runs.**  Queries are sorted by call first, so the run of a call among the sorted
  queries is the list of all its queries (`exists_keys_splitBy`).
* **Conditions.**  Folding drops neutral parts and flattens nested disjunctions, and keeps
  what is true (`Formula.trueIn_any_iff`, `Formula.holds_any_iff`).
* **Derivations.**  The relations of groups are new, so their rules add no other facts and
  each is derived in one step (`Askable.derivable_queryFact_iff`).

The rule of a group mentions the variables of all its queries, and a valuation has to give
them values also where only one condition counts.  This needs that a variable has one sort,
without which there is no script.
-/

namespace DalvikHorn

/-! ## Runs of a sorted list -/

section Runs

variable {α κ : Type} [DecidableEq κ]

/-- Where nothing that satisfies a predicate follows something that does not, all that satisfies
it comes first. -/
theorem filter_append_filter {p : α → Bool} {items : List α}
    (h : items.Pairwise fun first second => p second → p first) :
    items.filter p ++ items.filter (fun item => !p item) = items := by
  induction items with
  | nil => rfl
  | cons item rest ih =>
      obtain ⟨hitem, hrest⟩ := List.pairwise_cons.mp h
      by_cases hp : p item = true
      · rw [List.filter_cons_of_pos hp, List.filter_cons_of_neg (by simp [hp]), List.cons_append,
          ih hrest]
      · have hnone : rest.filter p = [] :=
          List.filter_eq_nil_iff.mpr fun other hother hpother => hp (hitem other hother hpother)
        have hall : rest.filter (fun item => !p item) = rest :=
          List.filter_eq_self.mpr fun other hother => by
            simpa using fun hpother => hp (hitem other hother hpother)
        rw [List.filter_cons_of_neg hp, List.filter_cons_of_pos (by simpa using hp), hnone, hall,
          List.nil_append]

variable (key : α → κ) (lt : κ → κ → Prop)

/-- The elements of the first key come first, and the others have later keys. -/
theorem ascending_cons (hirrefl : ∀ k, ¬ lt k k) (htrans : ∀ {k l m}, lt k l → lt l m → lt k m)
    {first : α} {rest : List α}
    (h : (first :: rest).Pairwise fun one other => lt (key one) (key other) ∨ key one = key other) :
    (first :: rest).filter (key · = key first) ++
        rest.filter (fun item => !decide (key item = key first)) = first :: rest ∧
      ∀ item ∈ rest.filter (fun item => !decide (key item = key first)),
        lt (key first) (key item) := by
  -- the list ascends, so its first key is the smallest
  have hfirst : ∀ item ∈ first :: rest, lt (key first) (key item) ∨ key first = key item := by
    intro item hitem
    rcases List.mem_cons.mp hitem with rfl | hitem
    · exact .inr rfl
    · exact (List.pairwise_cons.mp h).1 item hitem
  constructor
  · have hskip : rest.filter (fun item => !decide (key item = key first)) =
        (first :: rest).filter (fun item => !decide (key item = key first)) :=
      (List.filter_cons_of_neg (by simp)).symm
    rw [hskip]
    refine filter_append_filter (h.imp_of_mem fun {one other} hone _ horder hother => ?_)
    rw [decide_eq_true_iff] at hother ⊢
    -- an item with the first key comes only behind items with the first key
    rcases horder with hlt | heq
    · rcases hfirst one hone with hbefore | hsame
      · exact absurd (htrans hbefore (hother ▸ hlt)) (hirrefl _)
      · exact hsame.symm
    · rw [heq, hother]
  · intro item hitem
    obtain ⟨hmem, hne⟩ := List.mem_filter.mp hitem
    -- an item with another key comes later, so its key is larger
    refine (hfirst item (List.mem_cons_of_mem _ hmem)).resolve_right fun heq => ?_
    simp [heq] at hne

/-- The first run of equal keys has all elements of the first key. -/
theorem splitBy_ascending (hirrefl : ∀ k, ¬ lt k k)
    (htrans : ∀ {k l m}, lt k l → lt l m → lt k m) {first : α} {rest : List α}
    (h : (first :: rest).Pairwise fun one other => lt (key one) (key other) ∨ key one = key other) :
    (first :: rest).splitBy (key · == key ·) =
      (first :: rest).filter (key · = key first) ::
        (rest.filter fun item => !decide (key item = key first)).splitBy (key · == key ·) := by
  obtain ⟨hparts, hlater⟩ := ascending_cons key lt hirrefl htrans h
  have hrun : ∀ item ∈ (first :: rest).filter (key · = key first), key item = key first :=
    fun item hitem => of_decide_eq_true (List.mem_filter.mp hitem).2
  have hchain : ((first :: rest).filter (key · = key first)).IsChain (key · == key ·) :=
    (List.pairwise_of_forall_mem_list fun one hone other hother => by
      simp [hrun one hone, hrun other hother]).isChain
  have hne : (first :: rest).filter (key · = key first) ≠ [] :=
    List.ne_nil_of_mem (List.mem_filter.mpr ⟨List.mem_cons_self, decide_eq_true rfl⟩)
  conv_lhs => rw [← hparts]
  rw [List.splitBy_append, List.splitBy_of_isChain hne hchain, List.singleton_append]
  intro one hone other hother
  have hlt := hlater other (List.mem_of_mem_head? hother)
  rw [hrun one (List.mem_of_mem_getLast? hone), beq_eq_false_iff_ne]
  exact fun heq => hirrefl _ (heq ▸ hlt)

/-- A list that is sorted by key has one run for every key, in the order of the keys, with all
elements of the key. -/
theorem exists_keys_splitBy (hirrefl : ∀ k, ¬ lt k k)
    (htrans : ∀ {k l m}, lt k l → lt l m → lt k m) :
    ∀ items : List α,
      (items.Pairwise fun one other => lt (key one) (key other) ∨ key one = key other) →
        ∃ keys : List κ, keys.Pairwise lt ∧ (∀ k, k ∈ keys ↔ ∃ item ∈ items, key item = k) ∧
          items.splitBy (key · == key ·) = keys.map fun k => items.filter (key · = k)
  | [], _ => ⟨[], .nil, by simp, rfl⟩
  | first :: rest, h => by
      obtain ⟨hparts, hlater⟩ := ascending_cons key lt hirrefl htrans h
      obtain ⟨keys, hkeys, hmem, hruns⟩ := exists_keys_splitBy hirrefl htrans
        (rest.filter fun item => !decide (key item = key first))
        ((List.pairwise_cons.mp h).2.sublist List.filter_sublist)
      have hafter : ∀ k ∈ keys, lt (key first) k := by
        intro k hk
        obtain ⟨item, hitem, rfl⟩ := (hmem k).mp hk
        exact hlater item hitem
      refine ⟨key first :: keys, List.pairwise_cons.mpr ⟨hafter, hkeys⟩, fun k => ?_, ?_⟩
      · rw [List.mem_cons, hmem]
        constructor
        · rintro (rfl | ⟨item, hitem, rfl⟩)
          · exact ⟨first, List.mem_cons_self, rfl⟩
          · exact ⟨item, List.mem_cons_of_mem _ (List.mem_filter.mp hitem).1, rfl⟩
        · rintro ⟨item, hitem, rfl⟩
          by_cases heq : key item = key first
          · exact .inl heq
          · have hne : item ≠ first := fun hsame => heq (hsame ▸ rfl)
            exact .inr ⟨item, List.mem_filter.mpr
              ⟨(List.mem_cons.mp hitem).resolve_left hne, by simp [heq]⟩, rfl⟩
      · rw [splitBy_ascending key lt hirrefl htrans h, hruns, List.map_cons]
        refine congrArg _ (List.map_congr_left fun k hk => ?_)
        -- a later key is not the one that was dropped
        have hne : key first ≠ k := fun heq => hirrefl k (heq ▸ hafter k hk)
        rw [List.filter_filter, List.filter_cons_of_neg (by simpa using hne)]
        refine List.filter_congr fun item _ => ?_
        by_cases heq : key item = k
        · simp [heq, hne.symm]
        · simp [heq]
  termination_by items => items.length
  decreasing_by exact Nat.lt_succ_of_le (List.length_filter_le _ _)

end Runs

/-! ## Groups -/

namespace QueryKey

theorem compare_irrefl (key : QueryKey) : key.compare key ≠ .lt := by
  have hself : key.compare key = .eq := Std.ReflCmp.compare_self
  rw [hself]
  exact nofun

theorem compare_trans {first second third : QueryKey} (h : first.compare second = .lt)
    (h' : second.compare third = .lt) : first.compare third = .lt :=
  Std.TransCmp.lt_trans h h'

end QueryKey

/-- Queries in the order of their calls, those of one call by register. -/
def Query.Precedes (first second : Query) : Prop :=
  first.key.compare second.key = .lt ∨ first.key = second.key ∧ first.register ≤ second.register

theorem Query.precedes_of_le {first second : Query} (h : first.le second) :
    first.Precedes second := by
  rw [Query.le] at h
  cases hkey : first.key.compare second.key with
  | lt => exact .inl hkey
  | gt => simp [hkey] at h
  | eq =>
      rw [hkey, Ordering.eq_then, Nat.isLE_compare] at h
      exact .inr ⟨QueryKey.eq_of_compare_eq hkey, h⟩

theorem pairwise_precedes (queries : List Query) :
    (queries.mergeSort Query.le).Pairwise Query.Precedes :=
  (List.pairwise_mergeSort Query.le_trans Query.le_total queries).imp Query.precedes_of_le

/-- A folded disjunction is true exactly when one of its parts is. -/
theorem Formula.trueIn_any_iff {facts : Set Fact} {env : Valuation} {parts : List Formula} :
    (any parts).TrueIn facts env ↔ ∃ part ∈ parts, part.TrueIn facts env := by
  refine @any_iff_exists (fun formula => formula.TrueIn facts env) ?_ ?_ ?_ parts
  · simp [TrueIn, resolve, eval]
  · simp [TrueIn, resolve, eval]
  · exact fun _ => trueIn_or_iff

/-- With merging on, the groups are those of the calls in their order. -/
theorem exists_keys_groupQueries (queries : List Query) :
    ∃ keys : List QueryKey, keys.Pairwise (fun first second => first.compare second = .lt) ∧
      (∀ key, key ∈ keys ↔ ∃ query ∈ queries, query.key = key) ∧
      groupQueries true queries = keys.map fun key =>
        joinQueries ((queries.mergeSort Query.le).filter (·.key = key)) := by
  obtain ⟨keys, hkeys, hmem, hruns⟩ := exists_keys_splitBy Query.key
    (fun first second => first.compare second = .lt) QueryKey.compare_irrefl QueryKey.compare_trans
    (queries.mergeSort Query.le) ((pairwise_precedes queries).imp fun h => h.imp_right And.left)
  refine ⟨keys, hkeys, fun key => ?_, ?_⟩
  · simp only [hmem, List.mem_mergeSort]
  · unfold groupQueries
    dsimp only
    rw [if_pos rfl, hruns, List.map_map]
    rfl

/-- A group has the queries of a call, which belong together when one of them is satisfied. -/
structure QueryGroup.Joins (group : QueryGroup) (key : QueryKey) (queries : List Query) : Prop where
  trueIn_iff : ∀ (facts : Set Fact) (env : Valuation), group.condition.TrueIn facts env ↔
    ∃ query ∈ queries, query.key = key ∧ query.condition.TrueIn facts env
  descriptions_eq :
    group.descriptions = (queries.filter (·.key = key)).map (·.description)

theorem joins_joinQueries (key : QueryKey) (queries : List Query) :
    (joinQueries (queries.filter (·.key = key))).Joins key queries where
  trueIn_iff facts env := by
    simp only [joinQueries, Formula.trueIn_any_iff, List.mem_map, List.mem_filter,
      decide_eq_true_eq]
    constructor
    · rintro ⟨part, ⟨query, ⟨hquery, hkey⟩, rfl⟩, htrue⟩
      exact ⟨query, hquery, hkey, htrue⟩
    · rintro ⟨query, hquery, hkey, htrue⟩
      exact ⟨query.condition, ⟨query, ⟨hquery, hkey⟩, rfl⟩, htrue⟩
  descriptions_eq := rfl

/-! ## Relations of groups -/

theorem toList_queryRelationName (index : Nat) :
    (queryRelationName index).toList = 'Q' :: '_' :: Nat.toDigits 10 index := by
  simp [queryRelationName, toString]

theorem queryRelationName_injective {first second : Nat}
    (h : queryRelationName first = queryRelationName second) : first = second := by
  have hlist := congrArg String.toList h
  rw [toList_queryRelationName, toList_queryRelationName] at hlist
  exact toDigits_injective (List.cons.inj (List.cons.inj hlist).2).2

/-- A relation that is not the one of a query group. -/
def NotAsked (relation : String) : Prop :=
  ∀ index, relation ≠ queryRelationName index

/-- The fact that the condition of a query group can hold. -/
def queryFact (index : Nat) : Fact where
  relation := queryRelationName index
  args := []

/-- The rule of the query group at an index. -/
def QueryGroup.rule (index : Nat) (group : QueryGroup) : Clause where
  body := [group.condition]
  head := ⟨queryRelationName index, []⟩

/-- The rules of the groups of some queries. -/
def queryRules (merge : Bool) (queries : List Query) : List Clause :=
  (groupQueries merge queries).mapIdx QueryGroup.rule

theorem mem_queryRules_iff {merge : Bool} {queries : List Query} {clause : Clause} :
    clause ∈ queryRules merge queries ↔
      ∃ index group, (groupQueries merge queries)[index]? = some group ∧
        clause = QueryGroup.rule index group := by
  rw [queryRules, List.mem_mapIdx]
  constructor
  · rintro ⟨index, hindex, rfl⟩
    exact ⟨index, _, List.getElem?_eq_getElem hindex, rfl⟩
  · rintro ⟨index, group, hgroup, rfl⟩
    obtain ⟨hindex, rfl⟩ := List.getElem?_eq_some_iff.mp hgroup
    exact ⟨index, hindex, rfl⟩

/-- Clauses and queries that do not use the relations of query groups, and queries that have one
sort for every variable. -/
structure Askable (clauses : List Clause) (queries : List Query) : Prop where
  clauses : ∀ clause ∈ clauses, ∀ atom ∈ clause.applications, NotAsked atom.relation
  conditions : ∀ query ∈ queries, ∀ atom ∈ query.condition.applications, NotAsked atom.relation
  vars : ∀ first ∈ queries.flatMap (·.condition.vars),
    ∀ second ∈ queries.flatMap (·.condition.vars), first.1 = second.1 → first = second

/-! ## Derivations -/

namespace Formula

variable {facts more : Fact → Prop} {env : Valuation}

mutual

/-- Whether a formula holds depends on the facts of the relations that it applies only. -/
theorem Holds.of_applications :
    ∀ formula : Formula, (∀ atom ∈ formula.applications, ∀ fact, fact.relation = atom.relation →
        facts fact → more fact) → formula.Holds facts env → formula.Holds more env
  | .app relation args, hmore, h => by
      rw [Formula.Holds] at h ⊢
      obtain ⟨fact, hfact, hdenotes⟩ := h
      exact ⟨fact, hmore ⟨relation, args⟩ (by simp) fact hdenotes.relation_eq.symm hfact, hdenotes⟩
  | .and parts, hmore, h => by
      rw [applications] at hmore
      rw [Formula.Holds] at h ⊢
      exact HoldAll.of_applications parts hmore h
  | .or parts, hmore, h => by
      rw [applications] at hmore
      rw [Formula.Holds] at h ⊢
      exact HoldsAny.of_applications parts hmore h
  | .const _, _, h => by
      rw [Formula.Holds] at h ⊢
      exact h
  | .var _, _, h => by
      rw [Formula.Holds] at h ⊢
      exact h
  | .not _, _, h => by
      -- a negated formula is evaluated, and what it applies has no value
      rw [Formula.Holds] at h ⊢
      exact h
  | .compare _ _ _, _, h => by
      rw [Formula.Holds] at h ⊢
      exact h

theorem HoldAll.of_applications :
    ∀ parts : List Formula, (∀ atom ∈ applicationsList parts, ∀ fact,
        fact.relation = atom.relation → facts fact → more fact) →
      HoldAll facts env parts → HoldAll more env parts
  | [], _, _ => by
      rw [HoldAll]
      trivial
  | part :: rest, hmore, h => by
      rw [applicationsList, List.forall_mem_append] at hmore
      rw [HoldAll] at h ⊢
      exact ⟨Holds.of_applications part hmore.1 h.1, HoldAll.of_applications rest hmore.2 h.2⟩

theorem HoldsAny.of_applications :
    ∀ parts : List Formula, (∀ atom ∈ applicationsList parts, ∀ fact,
        fact.relation = atom.relation → facts fact → more fact) →
      HoldsAny facts env parts → HoldsAny more env parts
  | [], _, h => by
      rw [HoldsAny] at h
      exact h.elim
  | part :: rest, hmore, h => by
      rw [applicationsList, List.forall_mem_append] at hmore
      rw [HoldsAny] at h ⊢
      exact h.imp (Holds.of_applications part hmore.1) (HoldsAny.of_applications rest hmore.2)

end

end Formula

theorem TermSort.exists_hasSort (sort : TermSort) : ∃ value : Value, value.HasSort sort := by
  cases sort with
  | bool => exact ⟨.bool false, trivial⟩
  | bitVec width => exact ⟨.bits 0, Nat.two_pow_pos _⟩
  | int => exact ⟨.int 0, trivial⟩

/-- Where variables have one sort, a valuation of some of them extends to all. -/
theorem Valuation.Admits.exists_extension {env : Valuation} {fewer all : List (String × TermSort)}
    (h : env.Admits fewer) (hsub : fewer ⊆ all)
    (hsorts : ∀ first ∈ all, ∀ second ∈ all, first.1 = second.1 → first = second) :
    ∃ env' : Valuation, env'.Admits all ∧ ∀ v ∈ fewer, env v.1 = env' v.1 := by
  have hvalue : ∀ name, ∃ value : Option Value, (∀ v ∈ fewer, v.1 = name → env name = value) ∧
      ∀ v ∈ all, v.1 = name → ∃ given, value = some given ∧ given.HasSort v.2 := by
    intro name
    by_cases hname : ∃ v ∈ fewer, v.1 = name
    · obtain ⟨v, hv, rfl⟩ := hname
      refine ⟨env v.1, fun _ _ _ => rfl, fun w hw heq => ?_⟩
      rw [hsorts w hw v (hsub hv) heq]
      exact h v hv
    · by_cases hall : ∃ v ∈ all, v.1 = name
      · obtain ⟨v, hv, rfl⟩ := hall
        obtain ⟨given, hgiven⟩ := v.2.exists_hasSort
        refine ⟨some given, fun w hw heq => absurd ⟨w, hw, heq⟩ hname, fun w hw heq => ?_⟩
        rw [hsorts w hw v hv heq]
        exact ⟨given, rfl, hgiven⟩
      · exact ⟨none, fun w hw heq => absurd ⟨w, hw, heq⟩ hname,
          fun w hw heq => absurd ⟨w, hw, heq⟩ hall⟩
  choose env' hagree hadmits using hvalue
  exact ⟨env', fun v hv => hadmits v.1 v hv rfl, fun v hv => hagree v.1 v hv rfl⟩

/-- A joined condition can hold exactly when one of its parts can. -/
theorem satisfiable_joinQueries_iff {facts : Fact → Prop} {queries : List Query}
    (hsorts : ∀ first ∈ queries.flatMap (·.condition.vars),
      ∀ second ∈ queries.flatMap (·.condition.vars), first.1 = second.1 → first = second) :
    (∃ env : Valuation, env.Admits (joinQueries queries).condition.vars ∧
        (joinQueries queries).condition.Holds facts env) ↔
      ∃ query ∈ queries, query.SatisfiableFor facts := by
  -- joining adds no variable
  have hvars : (joinQueries queries).condition.vars ⊆ queries.flatMap (·.condition.vars) := by
    refine @Formula.any_of_parts (fun formula => formula.vars ⊆ queries.flatMap (·.condition.vars))
      (by simp) (fun parts => ?_) _ fun part hpart v hv => ?_
    · simp only [List.subset_def, Formula.vars, Formula.mem_varsList]
      exact ⟨fun h part hpart v hv => h ⟨part, hpart, hv⟩,
        fun h v ⟨part, hpart, hv⟩ => h part hpart hv⟩
    · obtain ⟨query, hquery, rfl⟩ := List.mem_map.mp hpart
      exact List.mem_flatMap.mpr ⟨query, hquery, hv⟩
  have hpart : ∀ query ∈ queries, query.condition.vars ⊆ queries.flatMap (·.condition.vars) :=
    fun query hquery v hv => List.mem_flatMap.mpr ⟨query, hquery, hv⟩
  constructor
  · rintro ⟨env, henv, hholds⟩
    -- a valuation of the joined variables extends to those of all queries
    obtain ⟨env', henv', hagree⟩ := henv.exists_extension hvars hsorts
    obtain ⟨part, hpart', hholds'⟩ :=
      Formula.holds_any_iff.mp (Formula.Holds.congr _ hagree hholds)
    obtain ⟨query, hquery, rfl⟩ := List.mem_map.mp hpart'
    exact ⟨query, hquery, env', henv'.mono (hpart query hquery), hholds'⟩
  · rintro ⟨query, hquery, env, henv, hholds⟩
    obtain ⟨env', henv', hagree⟩ := henv.exists_extension (hpart query hquery) hsorts
    exact ⟨env', henv'.mono hvars, Formula.holds_any_iff.mpr
      ⟨query.condition, List.mem_map_of_mem hquery, Formula.Holds.congr _ hagree hholds⟩⟩

namespace Askable

variable {clauses : List Clause} {queries : List Query}

/-- Folding brings no relation of a query group into a condition. -/
theorem notAsked_of_mem (h : Askable clauses queries) (merge : Bool) :
    ∀ group ∈ groupQueries merge queries, ∀ atom ∈ group.condition.applications,
      NotAsked atom.relation := by
  let property := fun formula : Formula => ∀ atom ∈ formula.applications, NotAsked atom.relation
  refine @groupQueries_of_conditions property (fun parts hparts => ?_) queries h.conditions merge
  refine @Formula.any_of_parts property (by simp [property]) (fun inner => ?_) parts hparts
  simp only [property, Formula.applications, Formula.mem_applicationsList]
  exact ⟨fun hall part hpart atom hatom => hall atom ⟨part, hpart, hatom⟩,
    fun hall atom ⟨part, hpart, hatom⟩ => hall part hpart atom hatom⟩

/-- The rules of query groups add no facts of other relations. -/
theorem derivable_of_notAsked (h : Askable clauses queries) {merge : Bool} {fact : Fact}
    (hfact : Derivable (clauses ++ queryRules merge queries) fact)
    (hrelation : NotAsked fact.relation) : Derivable clauses fact := by
  refine Derivable.induct (motive := fun fact => NotAsked fact.relation → Derivable clauses fact)
    (fun clause hclause env fact henv hbody hhead hrelation => ?_) hfact hrelation
  rcases List.mem_append.mp hclause with hclause | hclause
  · refine derivable_models clauses clause hclause env fact henv (fun part hpart => ?_) hhead
    refine Formula.Holds.of_applications part (fun atom hatom premise heq hpremise => ?_)
      (hbody part hpart)
    refine hpremise.2 (heq ▸ h.clauses clause hclause atom (List.mem_append_left _ ?_))
    exact Formula.mem_applicationsList.mpr ⟨part, hpart, hatom⟩
  · obtain ⟨index, group, -, rfl⟩ := mem_queryRules_iff.mp hclause
    exact absurd hhead.relation_eq.symm (hrelation index)

/-- The relation of a group is derived when its condition can hold. -/
theorem derivable_queryFact_iff (h : Askable clauses queries) {merge : Bool} {index : Nat} :
    Derivable (clauses ++ queryRules merge queries) (queryFact index) ↔
      ∃ group, (groupQueries merge queries)[index]? = some group ∧
        ∃ env : Valuation, env.Admits group.condition.vars ∧
          group.condition.Holds (Derivable clauses) env := by
  constructor
  · intro hfact
    -- the head decides which rule derived the fact
    refine Derivable.induct (motive := fun fact => fact = queryFact index → _)
      (fun clause hclause env fact henv hbody hhead heq => ?_) hfact rfl
    subst heq
    rcases List.mem_append.mp hclause with hclause | hclause
    · -- no clause of the program derives an answer
      refine absurd hhead.relation_eq (h.clauses clause hclause clause.head ?_ index)
      exact List.mem_append_right _ List.mem_cons_self
    · obtain ⟨other, group, hgroup, rfl⟩ := mem_queryRules_iff.mp hclause
      -- two rules have the same answer only if they are the same rule
      obtain rfl := queryRelationName_injective hhead.relation_eq
      refine ⟨group, hgroup, env, henv.append.1.append.1, ?_⟩
      refine Formula.Holds.of_applications _ (fun atom hatom premise heq hpremise => ?_)
        (hbody _ (List.mem_singleton_self _))
      exact h.derivable_of_notAsked hpremise.1 (heq ▸ h.notAsked_of_mem merge group
        (List.mem_of_getElem? hgroup) atom hatom)
  · rintro ⟨group, hgroup, env, henv, hholds⟩
    -- the rule of the group applies under the valuation that satisfies it
    have hrule := mem_queryRules_iff.mpr ⟨index, group, hgroup, rfl⟩
    refine derivable_models _ (group.rule index) (List.mem_append_right _ hrule) env _ ?_ ?_
      ⟨rfl, rfl⟩
    · simpa [QueryGroup.rule, Clause.vars, Atom.vars] using henv
    · exact List.forall_mem_singleton.mpr (Formula.Holds.mono
        (fun _ hfact => hfact.of_subset (List.subset_append_left _ _)) _ hholds)

/-- The joined condition of a call can hold when one of its queries is satisfiable. -/
theorem satisfiable_run_iff (h : Askable clauses queries) {facts : Fact → Prop} {key : QueryKey}
    {run : List Query} (hrun : run = (queries.mergeSort Query.le).filter (·.key = key)) :
    (∃ env : Valuation, env.Admits (joinQueries run).condition.vars ∧
        (joinQueries run).condition.Holds facts env) ↔
      ∃ query ∈ queries, query.key = key ∧ query.SatisfiableFor facts := by
  have hmem : ∀ query, query ∈ run ↔ query ∈ queries ∧ query.key = key := by
    simp [hrun]
  have hsub : run.flatMap (·.condition.vars) ⊆ queries.flatMap (·.condition.vars) := by
    intro v hv
    obtain ⟨query, hquery, hv⟩ := List.mem_flatMap.mp hv
    exact List.mem_flatMap.mpr ⟨query, ((hmem query).mp hquery).1, hv⟩
  rw [satisfiable_joinQueries_iff fun first hfirst second hsecond =>
    h.vars first (hsub hfirst) second (hsub hsecond)]
  simp only [hmem, and_assoc]

/-- With merging on, the relation of a call is derived when one of its queries is satisfiable. -/
theorem derivable_merged_iff (h : Askable clauses queries) {keys : List QueryKey}
    (hgroups : groupQueries true queries = keys.map fun key =>
      joinQueries ((queries.mergeSort Query.le).filter (·.key = key))) {key : QueryKey} :
    (∃ index, keys[index]? = some key ∧
        Derivable (clauses ++ queryRules true queries) (queryFact index)) ↔
      key ∈ keys ∧ ∃ query ∈ queries, query.key = key ∧ query.Satisfiable clauses := by
  simp only [h.derivable_queryFact_iff, hgroups, List.getElem?_map]
  constructor
  · rintro ⟨index, hkey, group, hgroup, hholds⟩
    rw [hkey, Option.map_some, Option.some.injEq] at hgroup
    subst hgroup
    exact ⟨List.mem_of_getElem? hkey, (h.satisfiable_run_iff rfl).mp hholds⟩
  · rintro ⟨hmem, hsatisfiable⟩
    obtain ⟨index, hkey⟩ := List.mem_iff_getElem?.mp hmem
    exact ⟨index, hkey, _, by rw [hkey, Option.map_some],
      (h.satisfiable_run_iff rfl).mpr hsatisfiable⟩

/-- Without merging, the relations of a call are derived when their queries are satisfiable. -/
theorem derivable_alone_iff (h : Askable clauses queries) {key : QueryKey} :
    (∃ index query, (queries.mergeSort Query.le)[index]? = some query ∧ query.key = key ∧
        Derivable (clauses ++ queryRules false queries) (queryFact index)) ↔
      ∃ query ∈ queries, query.key = key ∧ query.Satisfiable clauses := by
  have hgroups : groupQueries false queries = (queries.mergeSort Query.le).map Query.alone := rfl
  simp only [h.derivable_queryFact_iff, hgroups, List.getElem?_map]
  constructor
  · rintro ⟨index, query, hquery, hkey, group, hgroup, hholds⟩
    rw [hquery, Option.map_some, Option.some.injEq] at hgroup
    subst hgroup
    exact ⟨query, List.mem_mergeSort.mp (List.mem_of_getElem? hquery), hkey, hholds⟩
  · rintro ⟨query, hquery, hkey, hholds⟩
    obtain ⟨index, hindex⟩ := List.mem_iff_getElem?.mp (List.mem_mergeSort.mpr hquery)
    exact ⟨index, query, hindex, hkey, query.alone, by rw [hindex, Option.map_some], hholds⟩

end Askable

/-! ## Answers -/

/-- With merging on there is one group for every call that is asked about, in the order of the
calls, and its condition is true when the condition of one of the queries of the call is.  Without
merging the groups are the queries, by call and register.  The relation of a call is derived with
merging on exactly when one of the relations of its queries is derived without. -/
theorem merging_keeps_answers (queries : List Query) :
    ∃ (keys : List QueryKey) (ordered : List Query),
      keys.Pairwise (fun first second => first.compare second = .lt) ∧
      (∀ key, key ∈ keys ↔ ∃ query ∈ queries, query.key = key) ∧
      ordered.Perm queries ∧ ordered.Pairwise Query.Precedes ∧
      List.Forall₂ (fun key group => group.Joins key ordered) keys (groupQueries true queries) ∧
      groupQueries false queries = ordered.map Query.alone ∧
      ∀ clauses, Askable clauses queries → ∀ key,
        (∃ index, keys[index]? = some key ∧
            Derivable (clauses ++ queryRules true queries) (queryFact index)) ↔
          ∃ index query, ordered[index]? = some query ∧ query.key = key ∧
            Derivable (clauses ++ queryRules false queries) (queryFact index) := by
  obtain ⟨keys, hkeys, hmem, hgroups⟩ := exists_keys_groupQueries queries
  have halone : groupQueries false queries = (queries.mergeSort Query.le).map Query.alone := rfl
  refine ⟨keys, queries.mergeSort Query.le, hkeys, hmem, List.mergeSort_perm _ _,
    pairwise_precedes queries, ?_, halone, fun clauses h key => ?_⟩
  · rw [hgroups, List.forall₂_map_right_iff, List.forall₂_same]
    exact fun key _ => joins_joinQueries key _
  · rw [h.derivable_merged_iff hgroups, h.derivable_alone_iff, hmem]
    exact and_iff_right_of_imp fun ⟨query, hquery, hkey, _⟩ => ⟨query, hquery, hkey⟩

/-- A rule for one relation. -/
def sampleRules : List Clause :=
  [.fact ⟨"R", [.bool (.const true)]⟩]

/-- Two queries of one call, of which the later one can hold, and one of an earlier call. -/
def sampleQueries : List Query :=
  [⟨.app "R" [.bool (.var "x")], ⟨1, 2, 7, "send"⟩, 3, "third"⟩,
    ⟨.const false, ⟨1, 2, 7, "send"⟩, 1, "first"⟩, ⟨.const false, ⟨1, 2, 4, "send"⟩, 0, "early"⟩]

theorem askable_sample : Askable sampleRules sampleQueries := by
  have hnew : NotAsked "R" := by
    intro index h
    have hlist := congrArg String.toList h
    simp [toList_queryRelationName] at hlist
  constructor
  · simpa [sampleRules, Clause.applications, Clause.fact, Atom.applications] using hnew
  · simpa [sampleQueries] using hnew
  · simp [sampleQueries]

theorem satisfiable_sample : sampleQueries[0].Satisfiable sampleRules := by
  have hrule : Derivable sampleRules ⟨"R", [.bool true]⟩ :=
    derivable_models sampleRules _ (List.mem_singleton_self _) (fun _ => none) _
      (by simp [Valuation.Admits, Clause.fact, Clause.vars, Atom.vars]) (by simp [Clause.fact])
      ⟨rfl, rfl⟩
  refine ⟨fun _ => some (.bool true), by simp [sampleQueries, Valuation.Admits, Value.HasSort], ?_⟩
  exact (@Formula.holds_atom _ _ ⟨"R", [.bool (.var "x")]⟩).mpr ⟨_, hrule, rfl, rfl⟩

theorem merging_keeps_answers_sample :
    Askable sampleRules sampleQueries ∧
      ∃ index, Derivable (sampleRules ++ queryRules true sampleQueries) (queryFact index) := by
  obtain ⟨keys, ordered, -, -, hperm, -, -, halone, hanswers⟩ := merging_keeps_answers sampleQueries
  obtain ⟨position, hposition⟩ := List.mem_iff_getElem?.mp
    (hperm.mem_iff.mpr (List.getElem_mem (show 0 < sampleQueries.length by decide)))
  have halone : Derivable (sampleRules ++ queryRules false sampleQueries) (queryFact position) :=
    askable_sample.derivable_queryFact_iff.mpr ⟨sampleQueries[0].alone,
      by rw [halone, List.getElem?_map, hposition, Option.map_some], satisfiable_sample⟩
  obtain ⟨index, -, hmerged⟩ :=
    (hanswers sampleRules askable_sample ⟨1, 2, 7, "send"⟩).mpr
      ⟨position, _, hposition, rfl, halone⟩
  exact ⟨askable_sample, index, hmerged⟩

end DalvikHorn
