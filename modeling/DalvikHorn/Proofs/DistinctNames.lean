import DalvikHorn.Proofs.DispatchTargets
import DalvikHorn.Proofs.LocalReachability
import DalvikHorn.Proofs.MergedQueries

/-!
# Names and rules of a script are told apart

A script declares every variable once, although it collects them from all clauses and
conditions, and writes every rule once, although several clauses can have one text
(`distinctVariables_spec`, `Store.ruleTexts_spec`).  Both lists are sorted, and equal
neighbours are dropped or refused, so nothing is in them twice.

The relations of query groups are made up when a script is written.  They are not those of
a program, whose names start with other letters (`IsRelationName.notAsked`), and no stored
clause is written like the rule of a group (`Clause.text_ne_ruleText`): a fact starts with
the relation of its head, where the rule of a group has its arrow, and an implication ends
with the parenthesis of its head, where the rule of a group has the last digit of its index.
This needs that every head has columns.
-/

namespace DalvikHorn

/-! ## Sorted lists without repetitions -/

section Repetitions

variable {α : Type} [DecidableEq α]

theorem mem_dropRepeats {item : α} {items : List α} : item ∈ dropRepeats items ↔ item ∈ items := by
  fun_induction dropRepeats items with
  | case1 => rfl
  | case2 => rfl
  | case3 first rest ih => simp [ih]
  | case4 first second rest _ ih => rw [List.mem_cons, ih, ← List.mem_cons]

theorem dropRepeats_sublist (items : List α) : (dropRepeats items).Sublist items := by
  fun_induction dropRepeats items with
  | case1 => exact .slnil
  | case2 => exact .refl _
  | case3 first rest ih => exact .cons _ ih
  | case4 first second rest _ ih => exact .cons_cons _ ih

theorem isChain_dropRepeats (items : List α) : (dropRepeats items).IsChain (· ≠ ·) := by
  fun_induction dropRepeats items with
  | case1 => exact .nil
  | case2 => exact .singleton _
  | case3 first rest ih => exact ih
  | case4 first second rest hne ih =>
      obtain ⟨tail, htail⟩ := dropRepeats_cons second rest
      rw [htail] at ih ⊢
      exact List.isChain_cons_cons.mpr ⟨hne, ih⟩

end Repetitions

/-- A list that is sorted by a text has no text twice when no two neighbours have the same. -/
theorem nodup_of_isChain {α : Type} {items : List α} {key : α → String}
    (hsorted : items.Pairwise fun first second => textLe (key first) (key second))
    (hchain : items.IsChain fun first second => key first ≠ key second) :
    (items.map key).Nodup := by
  have hlt : (items.map key).IsChain (· < ·) := by
    have hle := List.isChain_iff_getElem.mp hsorted.isChain
    have hne := List.isChain_iff_getElem.mp hchain
    rw [List.isChain_map, List.isChain_iff_getElem]
    exact fun i hi => Std.lt_of_le_of_ne (textLe_iff.mp (hle i hi)) (hne i hi)
  exact (List.isChain_iff_pairwise.mp hlt).imp Std.ne_of_lt

theorem isChain_of_firstRepeatedName? {vars : List (String × TermSort)}
    (h : firstRepeatedName? vars = none) : vars.IsChain fun first second => first.1 ≠ second.1 := by
  fun_induction firstRepeatedName? vars with
  | case1 => exact .nil
  | case2 => exact .singleton _
  | case3 => cases h
  | case4 first second rest hne ih => exact List.isChain_cons_cons.mpr ⟨hne, ih h⟩

/-- The variables of a script are those that occur, and each is declared once. -/
theorem distinctVariables_spec {occurrences vars : List (String × TermSort)}
    (h : distinctVariables occurrences = .ok vars) :
    (vars.map (·.1)).Nodup ∧ ∀ v, v ∈ vars ↔ v ∈ occurrences := by
  unfold distinctVariables at h
  dsimp only at h
  split at h
  · cases h
  · rename_i hnone
    cases h
    have hsorted := pairwise_mergeSort_textLe Prod.fst occurrences
    refine ⟨nodup_of_isChain (hsorted.sublist (dropRepeats_sublist _))
      (isChain_of_firstRepeatedName? hnone), fun v => ?_⟩
    rw [mem_dropRepeats, List.mem_mergeSort]

/-- The stored rules of a script are the texts of the stored clauses, each once. -/
theorem Store.ruleTexts_spec (store : Store) :
    store.ruleTexts.Nodup ∧
      ∀ text, text ∈ store.ruleTexts ↔ ∃ clause ∈ store.clauses, clause.text = text := by
  have hsorted := pairwise_mergeSort_textLe id (store.clauses.map Clause.text)
  constructor
  · have hnodup := nodup_of_isChain (hsorted.sublist (dropRepeats_sublist _))
      (isChain_dropRepeats _)
    rwa [List.map_id] at hnodup
  · intro text
    rw [ruleTexts, mem_dropRepeats, List.mem_mergeSort, List.mem_map]

/-! ## Names of relations -/

/-- A name that is the one of a relation of programs. -/
def IsRelationName (name : String) : Prop :=
  ∃ relation : Relation, name = relation.name

theorem IsRelationName.notAsked {name : String} (h : IsRelationName name) : NotAsked name := by
  rintro index heq
  obtain ⟨relation, rfl⟩ := h
  have hlist := congrArg String.toList heq
  cases relation <;>
    simp [Relation.name, ProgramPoint.toList_relationName, toList_exitRelationName,
      GlobalHeap.objectRelation, GlobalHeap.extraRelation, GlobalHeap.launchRelation,
      GlobalHeap.staticRelation, reachRelation, filterRelation, toList_queryRelationName] at hlist

/-- The name of a relation starts with a capital letter. -/
theorem Relation.exists_toList_name (relation : Relation) :
    ∃ first rest, relation.name.toList = first :: rest ∧ first.isUpper = true := by
  cases relation with
  | point position => exact ⟨'R', _, position.toList_relationName, by decide⟩
  | exit owner method => exact ⟨'R', _, toList_exitRelationName owner method, by decide⟩
  | object => exact ⟨'H', _, rfl, by decide⟩
  | extra => exact ⟨_, _, rfl, by decide⟩
  | launch => exact ⟨_, _, rfl, by decide⟩
  | static => exact ⟨_, _, rfl, by decide⟩
  | reach => exact ⟨_, _, rfl, by decide⟩
  | filter => exact ⟨_, _, rfl, by decide⟩

theorem Program.Relates.isRelationName {program : Program} {width : Nat} {atom : Atom}
    (h : program.Relates width atom) : IsRelationName atom.relation :=
  let ⟨relation, hname, _⟩ := h
  ⟨relation, hname⟩

/-- A point has a column at least for the result of a call. -/
theorem args_pointAtom_ne_nil {shape : FrameShape} {heapSize width : Nat} {state : State}
    (h : state.Sorted shape heapSize width) {point : ProgramPoint} :
    (pointAtom point state).args ≠ [] := by
  intro hnil
  have harity := arity_pointAtom h point
  rw [Atom.arity, hnil, List.length_nil, FrameShape.pointArity, FrameShape.slotCount] at harity
  omega

theorem Environment.args_ne_nil_of_mem_factClauses {env : Environment} {program : Program}
    {clause : Clause} (h : clause ∈ env.factClauses program) : clause.head.args ≠ [] := by
  simp only [factClauses, List.mem_append] at h
  rcases h with ((h | h) | h) | h
  · split at h
    · rw [List.mem_singleton.mp h]
      exact List.cons_ne_nil _ _
    · cases h
  · obtain ⟨decl, -, h⟩ := List.mem_flatMap.mp h
    obtain ⟨field, -, h⟩ := List.mem_filterMap.mp h
    obtain ⟨value, -, rfl⟩ := Option.map_eq_some_iff.mp h
    exact List.cons_ne_nil _ _
  · split at h
    · rcases HeapLayout.mem_reachabilityRules_iff.mp h with
        rfl | ⟨site, -, k, -, rfl⟩ | ⟨j, site, -, rfl⟩
      · exact List.cons_ne_nil _ _
      · exact List.cons_ne_nil _ _
      · exact List.cons_ne_nil _ _
    · cases h
  · obtain ⟨entry, -, rfl⟩ := List.mem_map.mp h
    exact args_pointAtom_ne_nil (Environment.sorted_startFrame _ entry.2)

namespace StepContext

variable {cx : StepContext}

theorem isRelationName_guard {guard : Formula} (h : cx.IsGuard guard) :
    ∀ atom ∈ guard.atoms, IsRelationName atom.relation := by
  rcases h with hsorted | ⟨atom, rfl, hfact⟩
  · simp [hsorted.atoms_eq_nil]
  · obtain ⟨relation, -, hname⟩ := hfact.exists_relation
    simpa [Atom.toFormula, Formula.atoms] using ⟨relation, hname⟩

/-- An instruction applies the relations of programs only. -/
theorem Emitted.isRelationName {clause : Clause} (h : cx.Emitted clause) :
    ∀ atom ∈ clause.atoms, IsRelationName atom.relation := by
  -- points and exits are relations of the program
  have hpoint : ∀ point : ProgramPoint, IsRelationName point.relationName :=
    fun point => ⟨.point point, rfl⟩
  have hexit : ∀ owner method, IsRelationName (exitRelationName owner method) :=
    fun owner method => ⟨.exit owner method, rfl⟩
  have hbody : ∀ {guards : List Formula} {head : Atom},
      (∀ guard ∈ guards, ∀ atom ∈ guard.atoms, IsRelationName atom.relation) →
      IsRelationName head.relation →
        ∀ atom ∈ (cx.derive guards head).atoms, IsRelationName atom.relation := by
    intro guards head hguards hhead atom hatom
    simp only [Clause.atoms, derive, body, Formula.atomsList, List.append_assoc, List.mem_append,
      List.mem_singleton, Formula.mem_atomsList] at hatom
    -- an application stands at the point, in a guard or in the head
    rcases hatom with hcurrent | ⟨guard, hguard, hatom⟩ | rfl
    · rw [Atom.toFormula, Formula.atoms, List.mem_singleton] at hcurrent
      exact hcurrent ▸ hpoint _
    · exact hguards guard hguard atom hatom
    · exact hhead
  have hsorted : ∀ {guards : List Formula}, (∀ guard ∈ guards, guard.Sorted cx.width) →
      ∀ guard ∈ guards, ∀ atom ∈ guard.atoms, IsRelationName atom.relation :=
    fun hguards guard hguard => by simp [(hguards guard hguard).atoms_eq_nil]
  -- one case for each kind of clause, which says what its head applies
  cases h with
  | step hguards _ =>
      exact hbody (fun guard hguard => isRelationName_guard (hguards guard hguard)) (hpoint _)
  | fact hguards hhead =>
      obtain ⟨relation, -, hname⟩ := hhead.exists_relation
      exact hbody (fun guard hguard => isRelationName_guard (hguards guard hguard))
        ⟨relation, hname⟩
  | enter hguards _ _ _ => exact hbody (hsorted hguards) (hpoint _)
  | leave _ _ hguards _ _ _ =>
      refine hbody (List.forall_mem_cons.mpr ⟨?_, hsorted hguards⟩) (hpoint _)
      simp only [Atom.toFormula, Formula.atoms, List.forall_mem_singleton]
      exact hexit _ _
  | startInitializer _ _ => exact hbody (by simp) (hpoint _)
  | exit _ => exact hbody (by simp) (hexit _ _)

/-- The head of a clause of an instruction has columns. -/
theorem Emitted.args_ne_nil {clause : Clause} (h : cx.Emitted clause) :
    clause.head.args ≠ [] := by
  cases h with
  | step _ hpost => exact args_pointAtom_ne_nil hpost.sorted
  | fact _ hhead => cases hhead <;> exact List.cons_ne_nil _ _
  | enter _ _ _ hentry => exact args_pointAtom_ne_nil hentry.sorted
  | leave _ _ _ _ _ hhigh =>
      exact args_pointAtom_ne_nil (sorted_afterReturn_result hhigh)
  | @startInitializer owner shape _ _ =>
      exact args_pointAtom_ne_nil (sorted_zeroed_pre shape)
  | exit _ => simp [derive, exitAtom, frameColumns]

end StepContext

/-! ## Texts of rules -/

/-- The text of the rule of the query group at an index. -/
def QueryGroup.ruleText (index : Nat) (group : QueryGroup) : String :=
  "(rule (=> " ++ group.condition.text ++ " " ++ queryRelationName index ++ "))"

theorem QueryGroup.reverse_ruleText (index : Nat) (group : QueryGroup) :
    ∃ before, (group.ruleText index).toList.reverse =
      ')' :: ')' :: ((Nat.toDigits 10 index).reverse ++ '_' :: before) := by
  refine ⟨'Q' :: ' ' :: ("(rule (=> " ++ group.condition.text).toList.reverse, ?_⟩
  simp [ruleText, toList_queryRelationName]

/-- The rule of a query group tells its index. -/
theorem QueryGroup.index_eq_of_ruleText_eq {index index' : Nat} {group group' : QueryGroup}
    (h : group.ruleText index = group'.ruleText index') : index = index' := by
  obtain ⟨before, hbefore⟩ := group.reverse_ruleText index
  obtain ⟨before', hbefore'⟩ := group'.reverse_ruleText index'
  rw [h, hbefore'] at hbefore
  simp only [List.cons.injEq, true_and] at hbefore
  have hnone : ∀ value, '_' ∉ (Nat.toDigits 10 value).reverse := fun value hmem =>
    notMem_toDigits (by decide) value (List.mem_reverse.mp hmem)
  obtain ⟨hdigits, -⟩ := cut_unique (hnone index') (hnone index) hbefore
  exact (toDigits_injective (List.reverse_injective hdigits)).symm

/-- An atom with arguments is written in parentheses. -/
theorem Atom.exists_text_eq {atom : Atom} (hargs : atom.args ≠ []) :
    ∃ rest, atom.text = "(" ++ atom.relation ++ rest ++ ")" := by
  rw [text, applicationText, if_neg]
  · exact ⟨_, rfl⟩
  · rw [Term.texts_eq_map]
    simpa using hargs

/-- No stored clause is written like the rule of a query group. -/
theorem Clause.text_ne_ruleText {clause : Clause} (hname : IsRelationName clause.head.relation)
    (hargs : clause.head.args ≠ []) (group : QueryGroup) (index : Nat) :
    clause.text ≠ group.ruleText index := by
  obtain ⟨rest, hhead⟩ := Atom.exists_text_eq hargs
  intro h
  unfold text at h
  dsimp only at h
  split at h
  · -- a fact starts with its relation, and the rule of a group with an arrow
    obtain ⟨relation, hrelation⟩ := hname
    obtain ⟨first, rest', hfirst, hupper⟩ := relation.exists_toList_name
    rw [← hrelation] at hfirst
    have hne : first ≠ '=' := by
      rintro rfl
      exact absurd hupper (by decide)
    have hlist := congrArg String.toList h
    rw [hhead] at hlist
    simp [QueryGroup.ruleText, hfirst, hne] at hlist
  · -- an implication ends with the parenthesis of its head, and the rule of a group with a digit
    obtain ⟨before, hbefore⟩ := group.reverse_ruleText index
    rw [← h, hhead] at hbefore
    simp only [String.toList_append, List.reverse_append, String.reduceToList, List.reverse_cons,
      List.reverse_nil, List.nil_append, List.cons_append, List.cons.injEq, true_and] at hbefore
    cases hdigits : (Nat.toDigits 10 index).reverse with
    | nil => simp [hdigits] at hbefore
    | cons digit digits =>
        rw [hdigits, List.cons_append, List.cons.injEq] at hbefore
        have hmem : ')' ∈ (Nat.toDigits 10 index).reverse := by
          rw [hdigits, hbefore.1]
          exact List.mem_cons_self
        exact notMem_toDigits (by decide) index (List.mem_reverse.mp hmem)

end DalvikHorn
