import DalvikHorn.Proofs.FlushOrder
import DalvikHorn.Proofs.LinkedCalls
import DalvikHorn.Proofs.MethodReferences

/-!
# The queries of an instruction

An instruction asks queries exactly when it calls a sink with registers of its frame, and
then it asks one query per argument (`queries_emission`).  All other instructions ask
nothing: those that call no sink, and those that are passed over because a register is
not there.

Every query asks for the state before the call, and so does a clause of the same call
(`queries_declared`).  A store that has taken the clauses of a method can therefore never
refuse its queries.
-/

namespace DalvikHorn

/-! ## Configured sinks -/

/-- A call passes registers of a frame only. -/
def CallSite.FitsFrame (call : CallSite) (shape : FrameShape) : Prop :=
  ∀ r ∈ call.arguments, r.toNat < shape.slotCount

-- named, because registers are finitely many and another instance would look at all of them
instance (call : CallSite) (shape : FrameShape) : Decidable (call.FitsFrame shape) :=
  List.decidableBAll (fun r : UInt32 => r.toNat < shape.slotCount) call.arguments

/-- A call names the class and the method of a configured sink. -/
def Config.NamesSink (config : Config) (call : CallSite) : Prop :=
  ∃ signature ∈ config.sinks,
    (parseSignature signature).toOption = some (call.classId, call.methodId)

instance (config : Config) (call : CallSite) : Decidable (config.NamesSink call) :=
  inferInstanceAs (Decidable (∃ signature ∈ config.sinks,
    (parseSignature signature).toOption = some (call.classId, call.methodId)))

theorem Config.namesSink_iff {config : Config} {labels : Labels}
    (hlabels : config.labels = .ok labels) {call : CallSite} :
    config.NamesSink call ↔ labels.isSink call.classId call.methodId = true := by
  obtain ⟨sources, -, hrest⟩ := bind_eq_ok_iff.mp hlabels
  obtain ⟨sinks, hsinks, hrest⟩ := bind_eq_ok_iff.mp hrest
  cases hrest
  obtain ⟨parsed, hparsed, heq⟩ := bind_eq_ok_iff.mp hsinks
  cases heq
  have hmap := mapM_eq_ok_iff.mp hparsed
  rw [Labels.isSink, List.contains_iff_mem, List.mem_eraseDups]
  constructor
  · rintro ⟨signature, hsignature, hfound⟩
    obtain ⟨found, hfound', heq⟩ := List.mem_map.mp (hmap ▸ List.mem_map_of_mem hsignature)
    rw [← heq] at hfound
    cases hfound
    exact hfound'
  · intro hmem
    obtain ⟨signature, hsignature, heq⟩ :=
      List.mem_map.mp (hmap.symm ▸ List.mem_map_of_mem hmem :
        .ok (call.classId, call.methodId) ∈ config.sinks.map parseSignature)
    exact ⟨signature, hsignature, by rw [heq]; rfl⟩

/-! ## What a call of a sink asks -/

/-- The query whether a register is secret at an instruction that passes it to a sink. -/
def leakQuery (env : Environment) (owner : Class) (method : Method) (pc : UInt32)
    (sink : MethodRef) (r : UInt32) : Query where
  condition := .and
    [(pointAtom { owner := owner.id, method := method.id, pc := pc }
      (.canonical method.shape env.layout.size env.width)).toFormula,
      .var (Names.high r.toNat)]
  key := { owner := owner.id, method := method.id, pc := pc, sink := sink.text }
  register := r
  description :=
    s!"Test if register {r.toNat} leaks @line {pc.toNat} in method " ++
      s!"{method.name} of the class {owner.name} ---> sink {sink.text}"

namespace StepContext

variable {cx : StepContext} {call : CallSite}

/-- An instruction calls a sink with registers of its frame. -/
structure CallsSink (cx : StepContext) (call : CallSite) : Prop where
  calls : cx.instruction.Calls call
  isSink : cx.callsSink call = true
  registers : call.FitsFrame cx.shape

/-- The queries of a call of a sink, in the order of its arguments. -/
def leakQueries (cx : StepContext) (call : CallSite) : List Query :=
  call.arguments.map (leakQuery cx.env cx.owner cx.method cx.instruction.pc call.target)

theorem sinkQuery_eq {r : UInt32} (hr : r.toNat < cx.shape.slotCount) :
    cx.sinkQuery call r (.register r.toNat cx.width) =
      leakQuery cx.env cx.owner cx.method cx.instruction.pc call.target r := by
  have hcondition : (cx.sinkQuery call r (.register r.toNat cx.width)).condition =
      .and [cx.current.toFormula, .var (Names.high r.toNat)] := condition_sinkQuery (register_eq hr)
  unfold sinkQuery at hcondition ⊢
  rw [leakQuery, Query.mk.injEq]
  exact ⟨hcondition, rfl, rfl, rfl⟩

theorem CallsSink.sinkQueries_eq (h : cx.CallsSink call) :
    cx.sinkQueries call = .ok (cx.leakQueries call) := by
  rw [sinkQueries, if_pos h.isSink, mapM_eq_ok_iff, leakQueries, List.map_map]
  refine List.map_congr_left fun r hr => ?_
  rw [register_eq (h.registers r hr)]
  exact congrArg Except.ok (sinkQuery_eq (h.registers r hr))

/-- A call of a sink with a register that is not there asks nothing. -/
theorem registers_of_sinkQueries (hsink : cx.callsSink call = true) {queries : List Query}
    (h : cx.sinkQueries call = .ok queries) : call.FitsFrame cx.shape := by
  rw [sinkQueries, if_pos hsink, mapM_eq_ok_iff] at h
  intro r hr
  obtain ⟨query, -, heq⟩ := List.mem_map.mp (h ▸ List.mem_map_of_mem hr)
  obtain ⟨cell, hcell, -⟩ := bind_eq_ok_iff.mp heq.symm
  have hlt := (State.register_yields _ _).result cell hcell
  have hbound := (List.getElem?_eq_some_iff.mp hlt).1
  rwa [sized_pre] at hbound

/-! ## What an instruction asks -/

section Linked

variable (hlayout : cx.layout.Registered) (horacle : ListsReceivers cx.oracle)

include hlayout horacle

/-- A call of a sink with registers of its frame is linked and asks its queries. -/
theorem CallsSink.compileInvoke_eq (h : cx.CallsSink call) :
    ∃ clauses, cx.Anchored clauses ∧
      cx.compileInvoke call.kind = .ok { Emission.ofClauses clauses with
        queries := cx.leakQueries call, callsSink := true } := by
  obtain ⟨kind, range, -, hsite⟩ := h.calls
  obtain ⟨clauses, hclauses, hanchored⟩ := gives_compileCall hlayout horacle h.registers
  obtain ⟨target, -, hrest⟩ := bind_eq_ok_iff.mp hsite
  obtain ⟨method, -, hrest⟩ := bind_eq_ok_iff.mp hrest
  cases hrest
  refine ⟨clauses, hanchored, ?_⟩
  rw [compileInvoke, hsite]
  simp only [Bind.bind, Except.bind, h.sinkQueries_eq, hclauses, h.isSink]
  rfl

theorem CallsSink.emission_eq (h : cx.CallsSink call) :
    ∃ clauses, cx.Anchored clauses ∧
      cx.emission = { Emission.ofClauses clauses with
        queries := cx.leakQueries call, callsSink := true } := by
  obtain ⟨clauses, hanchored, hinvoke⟩ := h.compileInvoke_eq hlayout horacle
  obtain ⟨kind, range, hopcode, hsite⟩ := h.calls
  obtain ⟨target, -, hrest⟩ := bind_eq_ok_iff.mp hsite
  obtain ⟨method, -, hrest⟩ := bind_eq_ok_iff.mp hrest
  cases hrest
  refine ⟨clauses, hanchored, ?_⟩
  have hcompile : cx.compile = cx.compileInvoke kind := by rw [compile, hopcode]
  rw [emission, compileOrSkip, hcompile, hinvoke]

end Linked

/-- An instruction that does not call a sink with registers of its frame asks nothing. -/
theorem emission_of_not_callsSink (h : ∀ call, ¬ cx.CallsSink call) :
    cx.emission.queries = [] ∧ cx.emission.callsSink = false := by
  have hsteps : ∀ {outcome : Except Error (List Clause)} {emission : Emission},
      outcome.map Emission.ofClauses = .ok emission →
        emission.queries = [] ∧ emission.callsSink = false := by
    intro outcome emission heq
    cases outcome with
    | error cause => cases heq
    | ok clauses =>
        cases heq
        exact ⟨rfl, rfl⟩
  unfold emission compileOrSkip
  cases hcompile : cx.compile with
  | error cause =>
      dsimp only
      split
      · rename_i emission hskip
        split at hskip
        · cases hskip
        · cases hskip
          exact ⟨rfl, rfl⟩
      · exact ⟨rfl, rfl⟩
  | ok emission =>
      dsimp only
      unfold compile at hcompile
      dsimp only at hcompile
      split at hcompile
      case h_31 kind range hopcode =>
        obtain ⟨call, hsite, hcompile⟩ := bind_eq_ok_iff.mp hcompile
        obtain ⟨queries, hqueries, hcompile⟩ := bind_eq_ok_iff.mp hcompile
        obtain ⟨clauses, -, hcompile⟩ := bind_eq_ok_iff.mp hcompile
        cases hcompile
        have hsink : cx.callsSink call = false := by
          refine Bool.eq_false_iff.mpr fun hsink =>
            h call ⟨⟨kind, range, hopcode, hsite⟩, hsink, ?_⟩
          exact registers_of_sinkQueries hsink hqueries
        rw [sinkQueries, hsink] at hqueries
        cases hqueries
        exact ⟨rfl, hsink⟩
      -- no other opcode asks anything
      all_goals exact hsteps hcompile

/-- What the queries of an instruction ask for, its clauses ask for as well. -/
theorem queries_declared (hlayout : cx.layout.Registered) (horacle : ListsReceivers cx.oracle)
    {decl : RelationDecl} (h : decl ∈ declarations [] cx.emission.queries) :
    decl ∈ declarations cx.emission.clauses [] := by
  -- only a call to a sink asks, and the clause of the call declares its point
  by_cases hcalls : ∃ call, cx.CallsSink call
  · obtain ⟨call, hcall⟩ := hcalls
    obtain ⟨clauses, ⟨clause, hmem, hkept, hcurrent⟩, hemission⟩ :=
      hcall.emission_eq hlayout horacle
    rw [hemission] at h ⊢
    rcases mem_declarations.mp h with ⟨_, hnone, -⟩ | ⟨query, hquery, atom, hatom, rfl⟩
    · cases hnone
    · -- a query applies the relation of the call and no other
      obtain ⟨r, -, rfl⟩ := List.mem_map.mp hquery
      have heq : atom = cx.current := by
        have hatoms : (leakQuery cx.env cx.owner cx.method cx.instruction.pc call.target
            r).condition.atoms = [cx.current] := rfl
        rwa [hatoms, List.mem_singleton] at hatom
      rw [heq]
      refine mem_declarations.mpr (.inl ⟨clause, List.mem_filter.mpr ⟨hmem, ?_⟩, _, hcurrent, rfl⟩)
      rw [hkept]
      rfl
  · have hnone := emission_of_not_callsSink fun call hcall => hcalls ⟨call, hcall⟩
    rw [hnone.1] at h
    cases h

end StepContext

end DalvikHorn
