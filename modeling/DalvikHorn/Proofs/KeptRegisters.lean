import DalvikHorn.Proofs.Compiled
import DalvikHorn.Proofs.StateFacts

/-!
# Registers that a state keeps

`StepContext.Writes` lists the slots that an instruction writes.  All others are
bystanders: the instruction may move the object that they refer to from the local to
the global heap, and it may raise their labels, but it does nothing else to them.

The handlers change the flags of all registers at most once, right at the start:
by promoting them, by releasing the previous object of a site, or after a call.
Each of these is harmless for a register over its variables (`KeepsRegister`).  What
follows only writes slots that the instruction writes, raises labels and changes the
heap, and a state that keeps the bystanders goes on to keep them
(`StepContext.Keeps`).
-/

namespace DalvikHorn

/-! ## What an instruction writes -/

/-- Whether the instructions of a family write their first operand. -/
def Opcode.writesOperand : Opcode → Bool
  | .move | .moveResult | .const _ | .instanceOf | .arrayLength | .newInstance | .newArray
  | .compare | .arrayGet | .instanceGet | .staticGet | .unary _ | .binary _ _ => true
  | _ => false

/-- Whether the instructions of a family write the return slot. -/
def Opcode.writesResult : Opcode → Bool
  | .filledNewArray _ | .invoke _ _ => true
  | _ => false

/-- Whether a library rule replaces the receiver of the call. -/
def LibraryEffect.writesReceiver : LibraryEffect → Bool
  | .newIntentForAction | .newIntentForComponent | .newIntent | .unmarshallParcel => true
  | _ => false

namespace StepContext

variable (cx : StepContext)

/-- The slots that an instruction writes: its destination, the return slot of a call or of a new
array with elements, and the receiver of a call that makes it an intent or reads a parcel. -/
def Writes (r : Nat) : Prop :=
  (cx.instruction.opcode.writesOperand ∧
      ∃ destination, cx.instruction.registers[0]? = some destination ∧ destination.toNat = r) ∨
    (cx.instruction.opcode.writesResult ∧ r = cx.shape.returnSlot) ∨
    ∃ call effect receiver, cx.instruction.Calls call ∧
      call.linkage cx.oracle cx.env.config.intentSummaries = .library effect ∧
      effect.writesReceiver ∧ call.arguments[0]? = some receiver ∧ receiver.toNat = r

/-- The clauses that enter a method, and do not go on in the one at hand: those of a call or of a
new thread, and the one that starts a static initialiser. -/
inductive Enters : Clause → Prop
  | target {call : CallSite} {targets : List CallTarget} {target : CallTarget}
      {guards : List Formula} {clause : Clause} (hcall : cx.instruction.Calls call)
      (hlinkage : call.linkage cx.oracle cx.env.config.intentSummaries = .resolved targets)
      (htarget : target ∈ targets)
      (henter : cx.enter call.arguments target.owner target.method target.shape guards =
        .ok clause) : Enters clause
  | thread {call : CallSite} {arguments : List UInt32} {implementations : List Implementation}
      {implementation : Implementation} {guards : List Formula} {clause : Clause}
      (hcall : cx.instruction.Calls call)
      (hlinkage : call.linkage cx.oracle cx.env.config.intentSummaries =
        .remapped arguments implementations)
      (himplementation : implementation ∈ implementations)
      (henter : cx.enter arguments implementation.owner implementation.method implementation.shape
        guards = .ok clause) : Enters clause
  | initializer {typeName : String} {clause : Clause}
      (hopcode : cx.instruction.opcode = .newInstance)
      (hreference : cx.instruction.reference = some typeName)
      (hclause : clause ∈ cx.initializerEntry (textHash typeName)) : Enters clause

variable {cx}

theorem writes_destination {destination : UInt32}
    (hopcode : cx.instruction.opcode.writesOperand = true)
    (hdestination : cx.instruction.registers[0]? = some destination) :
    cx.Writes destination.toNat :=
  .inl ⟨hopcode, destination, hdestination, rfl⟩

theorem writes_returnSlot (hopcode : cx.instruction.opcode.writesResult = true) :
    cx.Writes cx.shape.returnSlot :=
  .inr (.inl ⟨hopcode, rfl⟩)

theorem Writes.accesses {r : Nat} (h : cx.Writes r) : cx.Accesses r := by
  rcases h with ⟨-, destination, hdestination, rfl⟩ | ⟨-, rfl⟩ |
    ⟨call, effect, receiver, hcall, -, -, hreceiver, rfl⟩
  · exact accesses_operand (List.mem_append_left _ (List.mem_of_getElem? hdestination))
  · exact accesses_returnSlot
  · exact accesses_operand
      (CallSite.mem_operands_of_calls hcall receiver (List.mem_of_getElem? hreceiver))

end StepContext

/-! ## Cells -/

/-- The value of a register that an instruction does not write, before and after it. -/
structure CellValue.Kept (old new : CellValue) : Prop where
  value : new.value = old.value
  isReference : (new.isLocal || new.isGlobal) = (old.isLocal || old.isGlobal)
  high : old.high = true → new.high = true

/-- A cell that keeps what a register holds. -/
structure KeepsRegister (width r : Nat) (cell : Cell) : Prop where
  value : cell.value = .var (Names.value r) width
  isReference : ∀ (env : Valuation) (l g l' g' : Bool), env.bool? (Names.isLocal r) = some l →
    env.bool? (Names.isGlobal r) = some g → cell.isLocal.eval env = some l' →
    cell.isGlobal.eval env = some g' → (l' || g') = (l || g)
  high : ∀ env : Valuation, env.bool? (Names.high r) = some true →
    cell.high.eval env = some true

section Cells

variable {width r : Nat} {cell : Cell}

theorem KeepsRegister.kept (h : KeepsRegister width r cell) {env : Valuation}
    {old new : CellValue} (hold : (Cell.register r width).eval env = some old)
    (hnew : cell.eval env = some new) : old.Kept new := by
  obtain ⟨hvalue, hhigh, hlocal, hglobal⟩ := Cell.eval_eq_some_iff.mp hold
  obtain ⟨hvalue', hhigh', hlocal', hglobal'⟩ := Cell.eval_eq_some_iff.mp hnew
  simp only [Cell.register, Formula.eval] at hhigh hlocal hglobal
  refine ⟨?_, h.isReference env _ _ _ _ hlocal hglobal hlocal' hglobal', ?_⟩
  · rw [h.value] at hvalue'
    exact Option.some.inj (hvalue'.symm.trans hvalue)
  · intro hsecret
    rw [hsecret] at hhigh
    exact Option.some.inj (hhigh'.symm.trans (h.high env hhigh))

theorem keepsRegister_register (width r : Nat) : KeepsRegister width r (.register r width) where
  value := rfl
  isReference := by
    intro env l g l' g' hl hg hl' hg'
    simp only [Cell.register, Formula.eval, hl, hg, Option.some.injEq] at hl' hg'
    rw [hl', hg']
  high := by
    intro env hhigh
    rw [Cell.register, Formula.eval, hhigh]

/-- A cell whose object has moved to the global heap. -/
theorem keepsRegister_promote (width r : Nat) :
    KeepsRegister width r (Cell.register r width).promote where
  value := rfl
  isReference := by
    intro env l g l' g' hl hg hl' hg'
    simp only [Cell.promote, Cell.register, Formula.eval_either, Formula.eval, hl, hg,
      Option.some.injEq] at hl' hg'
    cases l <;> cases g <;> simp_all [kleeneOr]
  high := (keepsRegister_register width r).high

/-- A cell after the previous object of a site has moved, if it refers to that object. -/
theorem keepsRegister_release (width r : Nat) (id : BvExpr) :
    KeepsRegister width r ((Cell.register r width).release id) where
  value := rfl
  isReference := by
    intro env l g l' g' hl hg hl' hg'
    simp only [Cell.release, Cell.register, Formula.eval_either, Formula.eval_both,
      Formula.eval_negate, Formula.eval, hl, hg] at hl' hg'
    cases hrefers : ((BvExpr.var (Names.value r) width).eqTo id).eval env with
    | none =>
        -- flags can have values without the comparison having one
        rw [hrefers] at hl' hg'
        cases l <;> cases g <;> simp_all [kleeneOr, kleeneAnd]
    | some refers =>
        rw [hrefers] at hl' hg'
        cases l <;> cases g <;> cases refers <;> simp_all [kleeneOr, kleeneAnd]
  high := (keepsRegister_register width r).high

/-- A cell after a call, which may have moved its object as well. -/
theorem keepsRegister_afterCall (width r : Nat) (occupied : List (BvExpr × Formula)) :
    KeepsRegister width r (StepContext.afterCall occupied (.register r width)) where
  value := rfl
  isReference := by
    intro env l g l' g' hl hg hl' hg'
    simp only [StepContext.afterCall, Cell.register, Formula.eval_either, Formula.eval_both,
      Formula.eval, hl, hg, Option.some.injEq] at hl' hg'
    cases l with
    | true => simp [← hl']
    | false => cases g <;> simp_all [kleeneOr, kleeneAnd]
  high := (keepsRegister_register width r).high

theorem KeepsRegister.taint (h : KeepsRegister width r cell) (taint : Formula) :
    KeepsRegister width r (cell.taint taint) where
  value := h.value
  isReference := h.isReference
  high := by
    intro env hhigh
    rw [Cell.taint, Cell.withHigh, Formula.eval_either, h.high env hhigh]
    rfl

end Cells

/-! ## States -/

namespace StepContext

variable {cx : StepContext}

/-- A state that keeps the registers which the instruction does not write, and leaves the
argument copies alone that it does not name. -/
structure Keeps (cx : StepContext) (post : State) : Prop where
  length_eq : post.registers.length = cx.shape.slotCount
  registers : ∀ r < cx.shape.slotCount, ¬ cx.Writes r →
    ∃ cell, post.registers[r]? = some cell ∧ KeepsRegister cx.width r cell
  copies : ∀ r < cx.shape.slotCount, cx.shape.numRegisters < r → ¬ cx.Accesses r →
    post.registers[r]? = some (.register r cx.width)

theorem getElem?_pre {r : Nat} (hr : r < cx.shape.slotCount) :
    cx.pre.registers[r]? = some (.register r cx.width) := by
  simp [pre, State.canonical, hr]

theorem keeps_pre : cx.Keeps cx.pre where
  length_eq := cx.sorted_pre.registers_length
  registers := fun _ hr _ => ⟨_, getElem?_pre hr, keepsRegister_register _ _⟩
  copies := fun _ hr _ _ => getElem?_pre hr

/-- A change of all registers that every single one survives. -/
theorem keeps_mapRegisters {change : Nat → Cell → Cell}
    (hchange : ∀ r, KeepsRegister cx.width r (change r (.register r cx.width))) :
    cx.Keeps (cx.pre.mapRegisters (cx.shape.numRegisters + 1) change) where
  length_eq := by simp [State.mapRegisters, cx.sorted_pre.registers_length]
  registers := by
    intro r hr _
    rw [State.getElem?_mapRegisters, getElem?_pre hr, Option.map_some]
    refine ⟨_, rfl, ?_⟩
    split
    · exact hchange r
    · exact keepsRegister_register _ _
  copies := by
    intro r hr hcopy _
    rw [State.getElem?_mapRegisters, getElem?_pre hr, Option.map_some, if_neg (by omega)]

theorem Keeps.of_registers_eq {post other : State} (h : cx.Keeps post)
    (heq : other.registers = post.registers) : cx.Keeps other :=
  ⟨heq ▸ h.length_eq, heq ▸ h.registers, heq ▸ h.copies⟩

theorem keeps_promote :
    cx.Keeps (cx.pre.promote cx.layout cx.width cx.shape.numRegisters) :=
  (keeps_mapRegisters fun r => keepsRegister_promote cx.width r).of_registers_eq rfl

theorem Keeps.set {post : State} (h : cx.Keeps post) {r : Nat} (hr : cx.Writes r) (cell : Cell) :
    Yields (post.set r cell) cx.Keeps := by
  refine (State.set_yields _ _ _).mono ?_
  rintro next ⟨-, rfl⟩
  refine ⟨by simpa using h.length_eq, fun other hother hwrites => ?_,
    fun other hother hcopy haccess => ?_⟩
  · have hne : r ≠ other := fun heq => hwrites (heq ▸ hr)
    rw [List.getElem?_set_ne hne]
    exact h.registers other hother hwrites
  · have hne : r ≠ other := fun heq => haccess (heq ▸ hr.accesses)
    rw [List.getElem?_set_ne hne]
    exact h.copies other hother hcopy haccess

theorem Keeps.taint {post : State} (h : cx.Keeps post) {r : Nat} (hr : cx.Accesses r)
    (taint : Formula) : Yields (post.taint r taint) cx.Keeps := by
  refine .bind (State.register_yields _ _) fun cell hcell => ?_
  refine (State.set_yields _ _ _).mono ?_
  rintro next ⟨hlt, rfl⟩
  refine ⟨by simpa using h.length_eq, fun other hother hwrites => ?_,
    fun other hother hcopy haccess => ?_⟩
  · obtain ⟨kept, hkept, hkeeps⟩ := h.registers other hother hwrites
    by_cases heq : r = other
    · subst heq
      have hsame : cell = kept := Option.some.inj (hcell.symm.trans hkept)
      rw [List.getElem?_set_self hlt]
      exact ⟨_, rfl, (hsame ▸ hkeeps).taint taint⟩
    · rw [List.getElem?_set_ne heq]
      exact ⟨kept, hkept, hkeeps⟩
  · have hne : r ≠ other := fun heq => haccess (heq ▸ hr)
    rw [List.getElem?_set_ne hne]
    exact h.copies other hother hcopy haccess

end StepContext

end DalvikHorn
