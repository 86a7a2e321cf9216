import DalvikHorn.Proofs.SelfContained

/-!
# The names of a script

A script declares its relations and its variables before all rules, in one scope, although they
come from different methods and from query groups.  This needs that no two things have one name.

* `ScriptRelation.name_injective`: the relations of a program and those of query groups all have
  different names, also for negative identifiers.
* `Names.Variable.name_injective`: so do the variables.
* `ScriptRelation.name_ne`: no variable is named like a relation, since relations start with a
  capital letter.

The scripts of compiled programs declare nothing else (`names_never_collide`).
-/

namespace DalvikHorn

/-! ## Relations and variables -/

/-- The relations of a script: those of a program, and one for every query group. -/
inductive ScriptRelation where
  | stored (relation : Relation)
  | asked (index : Nat)
  deriving DecidableEq

namespace ScriptRelation

/-- The name of a relation of a script. -/
def name : ScriptRelation → String
  | .stored relation => relation.name
  | .asked index => queryRelationName index

theorem name_injective {first second : ScriptRelation} (h : first.name = second.name) :
    first = second := by
  cases first with
  | stored relation =>
      cases second with
      | stored relation' => rw [Relation.name_injective h]
      | asked index => exact absurd h (IsRelationName.notAsked ⟨relation, rfl⟩ index)
  | asked index =>
      cases second with
      | stored relation => exact absurd h.symm (IsRelationName.notAsked ⟨relation, rfl⟩ index)
      | asked index' => rw [queryRelationName_injective h]

theorem exists_toList_name (relation : ScriptRelation) :
    ∃ first rest, relation.name.toList = first :: rest ∧ first.isUpper = true := by
  cases relation with
  | stored relation => exact relation.exists_toList_name
  | asked index => exact ⟨'Q', _, toList_queryRelationName index, by decide⟩

/-- No variable is named like a relation. -/
theorem name_ne (relation : ScriptRelation) (v : Names.Variable) : v.name ≠ relation.name := by
  intro h
  obtain ⟨first, rest, hfirst, hupper⟩ := relation.exists_toList_name
  obtain ⟨letter, letters, hletters⟩ := List.exists_cons_of_ne_nil v.letters_ne_nil
  have hlower : letter.isLower = true := v.isLower_letters letter (hletters ▸ List.mem_cons_self)
  have hlist := congrArg String.toList h
  rw [v.toList_name, hletters, hfirst, List.cons_append, List.cons.injEq] at hlist
  rw [← hlist.1, isUpper_of_isLower hlower] at hupper
  cases hupper

end ScriptRelation

/-! ## Declarations -/

namespace Store

variable {store : Store} {merge verbose : Bool} {commands : List Command}

/-- The relations that a script declares are those of its store and one for every query group. -/
theorem declareRelation_of_script (h : store.script merge verbose = .ok commands)
    {decl : RelationDecl} (hdecl : .declareRelation decl ∈ commands) :
    decl ∈ store.relations ∨ ∃ index, decl = ⟨queryRelationName index, []⟩ := by
  unfold script at h
  obtain ⟨vars, -, h⟩ := bind_eq_ok_iff.mp h
  cases h
  simp only [List.mem_append, List.mem_cons, List.mem_map, List.mem_flatten, List.mem_mapIdx,
    reduceCtorEq, List.not_mem_nil, or_self, and_false, exists_false, false_or, or_false,
    Command.declareRelation.injEq, exists_eq_right, sortedRelations, List.mem_mergeSort] at hdecl
  rcases hdecl with hdecl | ⟨_, ⟨index, hindex, rfl⟩, hmem⟩
  · exact .inl hdecl
  · refine .inr ⟨index, ?_⟩
    simpa [QueryGroup.commands] using hmem

/-- The variables that a script declares occur in a clause of its store or in the condition of a
query group. -/
theorem declareVariable_of_script (h : store.script merge verbose = .ok commands)
    {name : String} {sort : TermSort} (hvar : .declareVariable name sort ∈ commands) :
    (name, sort) ∈ store.clauses.flatMap Clause.vars ++
      (groupQueries merge store.queries).flatMap (·.condition.vars) := by
  unfold script at h
  obtain ⟨vars, hvars, h⟩ := bind_eq_ok_iff.mp h
  cases h
  refine ((distinctVariables_spec hvars).2 _).mp ?_
  simpa [QueryGroup.commands] using hvar

end Store

namespace Program

/-- No two relations of a script have one name, no two variables have, no variable is named like a
relation, and the name of a variable tells its sort.  Scripts of compiled programs declare such
relations and variables only, in whichever order the methods are stored. -/
theorem names_never_collide :
    Function.Injective ScriptRelation.name ∧ Function.Injective Names.Variable.name ∧
      (∀ (v : Names.Variable) (relation : ScriptRelation), v.name ≠ relation.name) ∧
      (∀ (width : Nat) (v : Names.Variable), Names.sort width v.name = v.sort width) ∧
      ∀ (program : Program) (config : Config),
        program.compile config = program.compileInOrder config program.methods ∧
        ∀ (order : List (Class × Method)) (compilation : Compilation),
          order.Perm program.methods → program.compileInOrder config order = .ok compilation →
            ∀ merge verbose commands, compilation.store.script merge verbose = .ok commands →
              (∀ decl, .declareRelation decl ∈ commands →
                ∃ relation : ScriptRelation, decl.name = relation.name) ∧
              ∀ name sort, .declareVariable name sort ∈ commands →
                ∃ v : Names.Variable, name = v.name ∧ sort = v.sort config.width := by
  refine ⟨fun _ _ => ScriptRelation.name_injective, fun _ _ => Names.Variable.name_injective,
    fun v relation => relation.name_ne v, Names.sort_name, ?_⟩
  intro program config
  refine ⟨compile_eq_compileInOrder program config, ?_⟩
  intro order compilation horder hcompile merge verbose commands hscript
  have hexport := exportable_of_compileInOrder horder hcompile
  constructor
  · intro decl hdecl
    rcases Store.declareRelation_of_script hscript hdecl with hstored | ⟨index, rfl⟩
    · obtain ⟨relation, hname⟩ := hexport.named decl hstored
      exact ⟨.stored relation, hname⟩
    · exact ⟨.asked index, rfl⟩
  · intro name sort hvar
    obtain ⟨v, hname, hsort⟩ :=
      hexport.respected_occurrences merge _ (Store.declareVariable_of_script hscript hvar)
    exact ⟨v, hname.symm, hsort.symm⟩

theorem names_never_collide_clashing :
    exitRelationName (-1) 12 ≠ exitRelationName (-11) 2 ∧
      ∃ compilation commands,
        clashing.compileInOrder sinkConfig clashing.methods.reverse = .ok compilation ∧
        compilation.store.script false false = .ok commands ∧
          (∀ decl, .declareRelation decl ∈ commands →
            ∃ relation : ScriptRelation, decl.name = relation.name) ∧
          ∀ name sort, .declareVariable name sort ∈ commands →
            ∃ v : Names.Variable, name = v.name ∧ sort = v.sort sinkConfig.width := by
  obtain ⟨hrelations, -, -, -, hscripts⟩ := names_never_collide
  have hreverse : clashing.methods.reverse.Perm clashing.methods := List.reverse_perm _
  obtain ⟨compilation, hcompile, -⟩ := compileInOrder_clashing
  have hexport := exportable_of_compileInOrder hreverse hcompile
  obtain ⟨vars, hscript, -⟩ := hexport.exists_script false
  have hexits : ScriptRelation.stored (.exit (-1) 12) ≠ .stored (.exit (-11) 2) := by decide
  refine ⟨hrelations.ne hexits, compilation, _, hcompile, hscript, ?_⟩
  exact (hscripts clashing sinkConfig).2 _ compilation hreverse hcompile false false _ hscript

end Program

end DalvikHorn
