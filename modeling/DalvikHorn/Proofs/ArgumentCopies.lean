import DalvikHorn.Proofs.Consistency
import DalvikHorn.Proofs.Invariants

/-!
# Exits answer entries

A frame keeps a copy of every argument behind its return slot.  Instructions write
registers that they name and the return slot, lifting and allocation change
registers up to the return slot, and calls go on with the frame of the caller.  So
no run of a method changes its copies: every state of the method has the copies of
a state in which the method was entered, and so has every exit.
-/

namespace DalvikHorn

/-- The argument copies of a frame. -/
def StateValue.argumentCopies (shape : FrameShape) (state : StateValue) : List CellValue :=
  state.registers.drop (shape.numRegisters + 1)

/-- All registers that instructions name are registers of their methods. -/
def Program.OperandsFit (program : Program) : Prop :=
  ∀ entry ∈ program.methods, ∀ instruction ∈ entry.2.instructions,
    ∀ r ∈ instruction.operands, r.toNat < entry.2.shape.numRegisters

-- the registers are looked at one by one, not all registers there could be
instance (program : Program) : Decidable program.OperandsFit :=
  decidable_of_iff (program.methods.all fun entry => entry.2.instructions.all fun instruction =>
    instruction.operands.all fun r => decide (r.toNat < entry.2.shape.numRegisters))
    (by simp only [Program.OperandsFit, List.all_eq_true, decide_eq_true_eq])

variable {program : Program} {config : Config} {labels : Labels}

/-- An instruction reads and writes nothing behind the return slot. -/
theorem Program.OperandsFit.le_of_accesses (hoperands : program.OperandsFit) {env : Environment}
    {cx : StepContext} (hstep : program.HasStep env cx) {r : Nat} (hr : cx.Accesses r) :
    r ≤ cx.shape.numRegisters := by
  rcases hr with rfl | ⟨operand, hoperand, rfl⟩
  · exact Nat.le_refl _
  · exact Nat.le_of_lt (hoperands _ hstep.mem _ hstep.instruction _ hoperand)

/-! ## Updates keep the copies -/

namespace State

theorem drop_mapRegisters (state : State) (count : Nat) (change : Nat → Cell → Cell) :
    (state.mapRegisters count change).registers.drop count = state.registers.drop count := by
  refine List.ext_getElem? fun i => ?_
  rw [List.getElem?_drop, List.getElem?_drop, getElem?_mapRegisters]
  cases state.registers[count + i]? with
  | none => rfl
  | some cell =>
      have hbehind : ¬ count + i < count := by omega
      simp only [Option.map_some, if_neg hbehind]

theorem drop_promote (layout : HeapLayout) (width numRegisters : Nat) (state : State) :
    (state.promote layout width numRegisters).registers.drop (numRegisters + 1) =
      state.registers.drop (numRegisters + 1) :=
  drop_mapRegisters state _ _

end State

namespace StepContext

variable {cx : StepContext}

theorem Updated.drop_eq (haccesses : ∀ r, cx.Accesses r → r ≤ cx.shape.numRegisters)
    {state : State} (h : cx.Updated state) :
    state.registers.drop (cx.shape.numRegisters + 1) =
      cx.pre.registers.drop (cx.shape.numRegisters + 1) := by
  have hset : ∀ (registers : List Cell) (r : Nat) (cell : Cell), cx.Accesses r →
      (registers.set r cell).drop (cx.shape.numRegisters + 1) =
        registers.drop (cx.shape.numRegisters + 1) := by
    intro registers r cell hr
    exact List.drop_set_of_lt (Nat.lt_succ_of_le (haccesses r hr))
  induction h with
  | pre => rfl
  | promote _ ih => rw [State.drop_promote, ih]
  | write _ hr _ _ ih => rw [hset _ _ _ hr, ih]
  | copy _ hr _ _ _ ih => rw [hset _ _ _ hr, ih]
  | store _ _ _ ih => exact ih
  | release _ _ ih => rw [State.drop_mapRegisters, ih]
  | allocate _ hr _ hpost ih =>
      rw [((State.clearSite_yields _ _ _).result _ hpost).registers_eq, hset _ _ _ hr, ih]

theorem drop_afterReturn (result : Option Cell) :
    (cx.afterReturn result).registers.drop (cx.shape.numRegisters + 1) =
      cx.pre.registers.drop (cx.shape.numRegisters + 1) := by
  have hkept := State.drop_mapRegisters cx.pre (cx.shape.numRegisters + 1)
    fun _ => afterCall cx.occupiedSites
  cases result with
  | none => exact hkept
  | some cell =>
      have hslot : cx.shape.returnSlot < cx.shape.numRegisters + 1 := Nat.lt_succ_self _
      rw [afterReturn]
      dsimp only
      rw [List.drop_set_of_lt hslot, hkept]

end StepContext

/-- Two symbolic states with the same terms behind the return slot have the same copies. -/
theorem argumentCopies_eq {shape : FrameShape} {valuation : Valuation} {first second : State}
    {before after : StateValue} (hbefore : first.Denotes valuation before)
    (hafter : second.Denotes valuation after)
    (h : second.registers.drop (shape.numRegisters + 1) =
      first.registers.drop (shape.numRegisters + 1)) :
    after.argumentCopies shape = before.argumentCopies shape := by
  refine map_some_injective ?_
  calc (after.argumentCopies shape).map some
      = (second.registers.drop (shape.numRegisters + 1)).map (Cell.eval valuation) := by
        rw [StateValue.argumentCopies, List.map_drop, ← hafter.registers, List.map_drop]
    _ = (first.registers.drop (shape.numRegisters + 1)).map (Cell.eval valuation) := by rw [h]
    _ = (before.argumentCopies shape).map some := by
        rw [StateValue.argumentCopies, List.map_drop, hbefore.registers, List.map_drop]

/-! ## Entries -/

/-- Some derivable entry of a method has the given argument copies. -/
def EnteredWith (clauses : List Clause) (owner : ClassId) (method : MethodId) (shape : FrameShape)
    (copies : List CellValue) : Prop :=
  ∃ entry, Derivable clauses (pointFact ⟨owner, method, 0⟩ entry) ∧
    entry.registers.length = shape.slotCount ∧ entry.argumentCopies shape = copies

/-- States and exits have the argument copies of an entry. -/
def copiesProperty (program : Program) (clauses : List Clause) : Property where
  point := fun position shape state =>
    EnteredWith clauses position.owner position.method shape (state.argumentCopies shape)
  exit := fun owner method arguments _ _ =>
    ∃ shape, program.Frame owner method shape ∧ EnteredWith clauses owner method shape arguments

theorem copies_invariant (hoperands : program.OperandsFit) :
    Invariant program (program.environment config labels)
      (copiesProperty program (program.clauses (program.environment config labels))) where
  start := by
    intro owner method valuation state hentry hstate hfact
    refine ⟨state, hfact, ?_, rfl⟩
    rw [hstate.registers_length]
    exact (Environment.sorted_startFrame _ _).registers_length
  step := by
    intro cx valuation before after post pc hstep hbefore hpoint hpost hafter
    -- no operand reaches behind the return slot, so the copies stay
    have hkept := hpost.drop_eq fun r hr => hoperands.le_of_accesses hstep hr
    have hcopies := argumentCopies_eq hbefore hafter hkept
    change EnteredWith _ _ _ cx.shape _
    rw [hcopies]
    exact hpoint
  enter := by
    intro cx valuation before after owner method shape entry hstep hbefore hpoint hentry hafter hfact
    -- the callee starts with its own copies
    refine ⟨after, hfact, ?_, rfl⟩
    rw [hafter.registers_length, hentry.registers_length]
  leave := by
    intro cx valuation before after call target arguments result heap high hstep hbefore hpoint hcall
      htarget hresult hheap hexit hafter
    -- a return sets the return slot, which is in front of the copies
    have hcopies := argumentCopies_eq hbefore hafter (StepContext.drop_afterReturn _)
    change EnteredWith _ _ _ cx.shape _
    rw [hcopies]
    exact hpoint
  exit := by
    intro cx valuation before cell result hstep hbefore hpoint hcell hresult
    exact ⟨cx.shape, hstep.frame, hpoint⟩

end DalvikHorn
