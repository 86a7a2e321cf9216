import DalvikHorn.Proofs.KeptInstructions
import DalvikHorn.Proofs.LocalFields
import Mathlib.Data.Int.ModEq
import Mathlib.Data.List.ReduceOption

/-!
# Branches are total and exclusive

The clauses of a branch and of a switch differ in their guards only: all of them keep the
state.  In every state exactly one of the two clauses of a branch is enabled
(`StepContext.Forks`).  A switch has a clause for every entry whose target is a position,
which is enabled when the scrutinee equals the key modulo the number of values, and one
more clause that is enabled when no other is (`StepContext.Selects`).

## Strategy

* **Guards.**  A guard is a comparison of registers, or the negation of one, or the negation
  of a disjunction of comparisons.  Folding changes the shape of such a formula and not its
  value, so all guards are evaluated with the lemmas of `Proofs/Folding.lean`.
* **Kept clauses.**  Before anything is known no comparison of a register is false, and no
  disjunction of them is true.  So no clause is dropped (`undecided_switchDefault`).
* **Keys.**  The keys of a packed table are consecutive and wrap.  With at least as many bits
  as a key has, literals of different keys differ (`twosComplement_injective`), and a table of
  at most `2 ^ 32` entries has every key once (`packedKey_injective`).
-/

namespace DalvikHorn

/-! ## Keys -/

/-- The key of an entry of a packed table. -/
def packedKey (firstKey : Int32) (i : Nat) : Int32 :=
  firstKey + Int32.ofNat i

theorem packedKey_injective {firstKey : Int32} {i j : Nat} (hi : i < 2 ^ 32) (hj : j < 2 ^ 32)
    (h : packedKey firstKey i = packedKey firstKey j) : i = j := by
  have hoffset : Int32.ofNat i = Int32.ofNat j := (Int32.add_right_inj firstKey).mp h
  have hbits : BitVec.ofNat 32 i = BitVec.ofNat 32 j := congrArg Int32.toBitVec hoffset
  calc i = (BitVec.ofNat 32 i).toNat := (Nat.mod_eq_of_lt hi).symm
    _ = (BitVec.ofNat 32 j).toNat := congrArg BitVec.toNat hbits
    _ = j := Nat.mod_eq_of_lt hj

/-- A value has the bits of a number when the two are the same modulo the number of values. -/
theorem eq_twosComplement_iff {w : Nat} (hwidth : w ≤ wordBits) {value : Nat}
    (hvalue : value < valueCount w) (number : Int) :
    value = twosComplement number w ↔ (value : Int) ≡ number [ZMOD 2 ^ w] := by
  have hcount : (valueCount w : Int) = 2 ^ w := by
    rw [valueCount_of_le hwidth]
    norm_cast
  have hsmall : (value : Int) % valueCount w = value :=
    Int.emod_eq_of_lt (Int.natCast_nonneg value) (by exact_mod_cast hvalue)
  have hnonneg : 0 ≤ number % valueCount w := by
    apply Int.emod_nonneg
    omega
  rw [Int.ModEq, ← hcount, hsmall, twosComplement]
  omega

namespace StepContext

variable {cx : StepContext} {env : Valuation} {before : StateValue}

/-! ## Operands in a state -/

/-- The value that a register operand has in a state. -/
def operandValue? (cx : StepContext) (before : StateValue) (index : Nat) : Option Nat :=
  cx.instruction.registers[index]?.bind fun r => before.registers[r.toNat]?.map (·.value)

/-- An operand is there, and it names a slot of the frame. -/
def HasOperand (cx : StepContext) (index : Nat) : Prop :=
  ∃ r, cx.instruction.registers[index]? = some r ∧ r.toNat < cx.shape.slotCount

/-- An operand is a register whose value is that of the state, and its comparisons are open
before anything is known. -/
theorem HasOperand.exists_register {index : Nat} (h : cx.HasOperand index) :
    ∃ i, cx.operand index = .ok (.register i cx.width) ∧
      ∀ before env, cx.Fits before → cx.pre.Denotes env before →
        ∃ value < valueCount cx.width, cx.operandValue? before index = some value ∧
          (Cell.register i cx.width).value.eval env = some value := by
  obtain ⟨r, hr, hbound⟩ := h
  refine ⟨r.toNat, operand_eq hr hbound, fun before env hfits hpre => ?_⟩
  have hlength : r.toNat < before.registers.length := hfits.registers_length ▸ hbound
  have hcell := List.getElem?_eq_getElem hlength
  refine ⟨_, hfits.inRange.registers _ (List.mem_of_getElem? hcell), ?_, ?_⟩
  · rw [operandValue?, hr, Option.bind_some, hcell, Option.map_some]
  · exact (Cell.eval_eq_some_iff.mp (eval_register_of_denotes hpre hcell)).1

/-- The value that a branch compares its first operand with. -/
def comparandValue? (cx : StepContext) (againstZero : Bool) (before : StateValue) : Option Nat :=
  if againstZero then some 0 else cx.operandValue? before 1

/-- A clause that starts at an instruction and goes on elsewhere, in the same state. -/
structure Transfers (cx : StepContext) (target : UInt32) (clause : Clause) : Prop where
  starts : clause.body.head? = some cx.current.toFormula
  leads : clause.head = pointAtom (cx.pointAt target) cx.pre

theorem transfers_jump (target : UInt32) (guards : List Formula) :
    cx.Transfers target (cx.jump target guards cx.pre) where
  starts := rfl
  leads := rfl

theorem isVacuous_jump {target : UInt32} {guard : Formula} {post : State}
    (h : Undecided [guard]) : (cx.jump target [guard] post).isVacuous = false :=
  isVacuous_derive h _

theorem enabled_jump_iff {target : UInt32} {guard : Formula} {post : State}
    (h : guard.applications = []) :
    (cx.jump target [guard] post).Enabled env ↔ guard.eval env = some true := by
  rw [jump, enabled_derive_iff (List.forall_mem_singleton.mpr h)]
  exact List.forall_mem_singleton

/-! ## Branches -/

/-- Two clauses are the ways out of a branch: exactly one of them is enabled in a state, the first
when the condition holds. -/
structure Forks (cx : StepContext) (condition : BranchCondition) (againstZero : Bool)
    (target : UInt32) (taken skipped : Clause) : Prop where
  goesTo : cx.Transfers target taken
  goesOn : cx.Transfers cx.nextPc skipped
  enabled_taken : ∀ before env, cx.Fits before → cx.pre.Denotes env before →
    ∀ left right, cx.operandValue? before 0 = some left →
      cx.comparandValue? againstZero before = some right →
        (taken.Enabled env ↔
          condition.holds (BitVec.ofNat cx.width left) (BitVec.ofNat cx.width right) = true)
  enabled_skipped : ∀ before env, cx.Fits before → cx.pre.Denotes env before →
    (skipped.Enabled env ↔ ¬ taken.Enabled env)

/-- What a branch compares with is the literal zero or a register. -/
theorem exists_comparandTerm {againstZero : Bool} (hwidth : cx.width ≤ wordBits)
    (hoperand : againstZero = false → cx.HasOperand 1) :
    ∃ right : BvExpr,
      (if againstZero then right = cx.literal 0
        else ∃ cell, cx.operand 1 = .ok cell ∧ right = cell.value) ∧
      right.applications = [] ∧
      ∀ before env, cx.Fits before → cx.pre.Denotes env before →
        ∃ value < valueCount cx.width, cx.comparandValue? againstZero before = some value ∧
          right.eval env = some value := by
  cases againstZero with
  | true =>
      refine ⟨cx.literal 0, rfl, rfl, fun before env _ _ => ⟨0, valueCount_pos _, rfl, ?_⟩⟩
      exact eval_literal hwidth env 0
  | false =>
      obtain ⟨i, hi, hvalue⟩ := (hoperand rfl).exists_register
      exact ⟨(Cell.register i cx.width).value, ⟨_, hi, rfl⟩, rfl, hvalue⟩

/-- The guard of the way to the target. -/
def branchGuard (condition : BranchCondition) (left right : BvExpr) : Formula :=
  if condition.comparison.2 then (Formula.compare condition.comparison.1 left right).negate
  else .compare condition.comparison.1 left right

theorem applications_branchGuard {condition : BranchCondition} {left right : BvExpr}
    (hleft : left.applications = []) (hright : right.applications = []) :
    (branchGuard condition left right).applications = [] ∧
      (branchGuard condition left right).negate.applications = [] := by
  have hcompare : (Formula.compare condition.comparison.1 left right).applications = [] := by
    rw [Formula.applications, hleft, hright]
    rfl
  unfold branchGuard
  split
  · exact ⟨hcompare, hcompare⟩
  · exact ⟨hcompare, hcompare⟩

/-- The guard of a branch is open before anything is known. -/
theorem eval_branchGuard_empty (condition : BranchCondition) (i : Nat) (right : BvExpr) :
    (branchGuard condition (Cell.register i cx.width).value right).eval .empty = none := by
  have hcompare := eval_compare_register i cx.width condition.comparison.1 right
  unfold branchGuard
  split
  · rw [Formula.eval_negate, hcompare, Option.map_none]
  · exact hcompare

theorem compileBranch_forks {condition : BranchCondition} {againstZero : Bool} {target : UInt32}
    (hwidth : cx.width ≤ wordBits) (htarget : cx.instruction.branchTarget = .ok target)
    (hleft : cx.HasOperand 0) (hright : againstZero = false → cx.HasOperand 1) :
    ∃ taken skipped, cx.compileBranch condition againstZero = .ok [taken, skipped] ∧
      taken.isVacuous = false ∧ skipped.isVacuous = false ∧
      cx.Forks condition againstZero target taken skipped := by
  obtain ⟨i, hi, hlefts⟩ := hleft.exists_register
  obtain ⟨right, hcomparand, hplain, hrights⟩ := exists_comparandTerm hwidth hright
  let guard := branchGuard condition (Cell.register i cx.width).value right
  have hopen : guard.eval .empty = none := eval_branchGuard_empty condition i right
  obtain ⟨hguard, hnegated⟩ : guard.applications = [] ∧ guard.negate.applications = [] :=
    applications_branchGuard rfl hplain
  have heval : ∀ before env, cx.Fits before → cx.pre.Denotes env before →
      ∃ left right, cx.operandValue? before 0 = some left ∧
        cx.comparandValue? againstZero before = some right ∧
        guard.eval env = some
          (condition.holds (BitVec.ofNat cx.width left) (BitVec.ofNat cx.width right)) := by
    intro before env hfits hpre
    obtain ⟨a, ha, hleftValue, hleftEval⟩ := hlefts before env hfits hpre
    obtain ⟨b, hb, hrightValue, hrightEval⟩ := hrights before env hfits hpre
    refine ⟨a, b, hleftValue, hrightValue, eval_branchGuard ?_ ?_ condition⟩
    · rw [hleftEval, BitVec.toNat_ofNat, ← valueCount_of_le hwidth, Nat.mod_eq_of_lt ha]
    · rw [hrightEval, BitVec.toNat_ofNat, ← valueCount_of_le hwidth, Nat.mod_eq_of_lt hb]
  refine ⟨cx.jump target [guard] cx.pre, cx.step [guard.negate] cx.pre, ?_,
    isVacuous_jump (undecided_of_eval hopen), isVacuous_jump (undecided_of_eval ?_),
    transfers_jump _ _, transfers_jump _ _, ?_, ?_⟩
  · -- the handler reads a second register only when there is one to compare with
    cases againstZero with
    | true =>
        have hzero : right = cx.literal 0 := hcomparand
        rw [compileBranch, htarget, hi]
        dsimp only [guard, branchGuard]
        rw [hzero]
        rfl
    | false =>
        obtain ⟨cell, hcell, rfl⟩ := hcomparand
        rw [compileBranch, htarget, hi, hcell]
        rfl
  · rw [Formula.eval_negate, hopen, Option.map_none]
  · intro before env hfits hpre left right hleftValue hrightValue
    obtain ⟨a, b, ha, hb, hvalue⟩ := heval before env hfits hpre
    cases ha.symm.trans hleftValue
    cases hb.symm.trans hrightValue
    rw [enabled_jump_iff hguard, hvalue, Option.some.injEq]
  · intro before env hfits hpre
    obtain ⟨a, b, -, -, hvalue⟩ := heval before env hfits hpre
    rw [step, enabled_jump_iff hnegated, enabled_jump_iff hguard, Formula.eval_negate, hvalue]
    simp

/-! ## Switches -/

/-- What an entry of a switch contributes: a clause to its target, which is enabled when the
scrutinee equals the key modulo the number of values, or nothing when there is no such target. -/
inductive Covers (cx : StepContext) : Int32 × Int32 → Option Clause → Prop
  | case {key offset : Int32} {target : UInt32} {clause : Clause}
      (htarget : cx.instruction.AtDistance offset target) (hgoesTo : cx.Transfers target clause)
      (henabled : ∀ before env, cx.Fits before → cx.pre.Denotes env before →
        ∀ scrutinee, cx.operandValue? before 0 = some scrutinee →
          (clause.Enabled env ↔ (scrutinee : Int) ≡ key.toInt [ZMOD 2 ^ cx.width])) :
      Covers cx (key, offset) (some clause)
  | dropped {key offset : Int32}
      (hnone : ∀ target, ¬ cx.instruction.AtDistance offset target) : Covers cx (key, offset) none

/-- Some clauses are the ways out of a switch: one for each entry that has a target, and one that is
enabled when no other is. -/
structure Selects (cx : StepContext) (entries : List (Int32 × Int32)) (ways : List (Option Clause))
    (otherwise : Clause) : Prop where
  covers : List.Forall₂ cx.Covers entries ways
  goesOn : cx.Transfers cx.nextPc otherwise
  enabled_otherwise : ∀ before env, cx.Fits before → cx.pre.Denotes env before →
    (otherwise.Enabled env ↔ ∀ clause, some clause ∈ ways → ¬ clause.Enabled env)

namespace Covers

variable {key offset : Int32} {way : Option Clause}

theorem exists_clause {target : UInt32} (h : cx.Covers (key, offset) way)
    (htarget : cx.instruction.AtDistance offset target) : ∃ clause, way = some clause := by
  cases h with
  | @case _ _ _ clause _ _ _ => exact ⟨clause, rfl⟩
  | dropped hnone => exact absurd htarget (hnone target)

theorem eq_none (h : cx.Covers (key, offset) way)
    (hnone : ∀ target, ¬ cx.instruction.AtDistance offset target) : way = none := by
  cases h with
  | case htarget _ _ => exact absurd htarget (hnone _)
  | dropped _ => rfl

end Covers

instance (instruction : Instruction) (offset : Int32) (target : UInt32) :
    Decidable (instruction.AtDistance offset target) :=
  inferInstanceAs (Decidable ((target.toNat : Int) = instruction.pc.toNat + offset.toInt))

theorem relativePc_eq_ok_iff {instruction : Instruction} {offset : Int32} {target : UInt32} :
    relativePc instruction.pc offset = .ok target ↔ instruction.AtDistance offset target := by
  by_cases hposition : instruction.hasPosition offset = true
  · obtain ⟨found, hfound, hdistance⟩ := exists_relativePc hposition
    rw [hfound, hdistance, Except.ok.injEq]
  · have hsize := target.toNat_lt_size
    simp only [Instruction.hasPosition, Bool.and_eq_true, decide_eq_true_eq] at hposition
    unfold relativePc Instruction.AtDistance
    dsimp only
    rw [if_neg hposition]
    simp only [reduceCtorEq, false_iff]
    omega

/-- The guard of an entry. -/
def caseGuard (cx : StepContext) (i : Nat) (key : Int32) : Formula :=
  (Cell.register i cx.width).value.eqTo (cx.literal key.toInt)

/-- The clause of an entry, if it has a target. -/
def caseClause? (cx : StepContext) (i : Nat) (entry : Int32 × Int32) : Option Clause :=
  (relativePc cx.instruction.pc entry.2).toOption.map fun target =>
    cx.jump target [cx.caseGuard i entry.1] cx.pre

theorem caseClause?_eq_some_iff {i : Nat} {entry : Int32 × Int32} {clause : Clause} :
    cx.caseClause? i entry = some clause ↔
      ∃ target, relativePc cx.instruction.pc entry.2 = .ok target ∧
        cx.jump target [cx.caseGuard i entry.1] cx.pre = clause := by
  unfold caseClause?
  cases relativePc cx.instruction.pc entry.2 with
  | ok target => simp [Except.toOption]
  | error cause => simp [Except.toOption]

theorem map_switchCases (i : Nat) (entries : List (Int32 × Int32)) :
    (cx.switchCases (Cell.register i cx.width).value entries).map
        (fun (guard, target) => cx.jump target [guard] cx.pre) =
      (entries.map (cx.caseClause? i)).reduceOption := by
  rw [switchCases, List.map_filterMap, List.reduceOption, List.filterMap_map]
  congr 1
  funext ⟨key, offset⟩
  dsimp only [Function.comp_apply, caseClause?, id]
  cases relativePc cx.instruction.pc offset <;> rfl

theorem eval_caseGuard {i value : Nat} (hwidth : cx.width ≤ wordBits)
    (heval : (Cell.register i cx.width).value.eval env = some value)
    (hvalue : value < valueCount cx.width) (key : Int32) :
    (cx.caseGuard i key).eval env =
      some (decide ((value : Int) ≡ key.toInt [ZMOD 2 ^ cx.width])) := by
  rw [caseGuard, BvExpr.eqTo, Formula.eval, heval, literal, BvExpr.ofInt, BvExpr.eval]
  show some (value == twosComplement key.toInt cx.width) = _
  rw [Option.some.injEq, Bool.eq_iff_iff, beq_iff_eq, decide_eq_true_iff,
    eq_twosComplement_iff hwidth hvalue]

theorem covers_caseClause? {i : Nat} (hwidth : cx.width ≤ wordBits)
    (hoperand : ∀ before env, cx.Fits before → cx.pre.Denotes env before →
      ∃ value < valueCount cx.width, cx.operandValue? before 0 = some value ∧
        (Cell.register i cx.width).value.eval env = some value) (entry : Int32 × Int32) :
    cx.Covers entry (cx.caseClause? i entry) := by
  obtain ⟨key, offset⟩ := entry
  cases hrelative : relativePc cx.instruction.pc offset with
  | ok target =>
      rw [caseClause?, hrelative]
      refine .case (relativePc_eq_ok_iff.mp hrelative) (transfers_jump _ _) ?_
      intro before env hfits hpre scrutinee hscrutinee
      obtain ⟨value, hvalue, hfound, heval⟩ := hoperand before env hfits hpre
      cases hfound.symm.trans hscrutinee
      rw [enabled_jump_iff rfl, eval_caseGuard hwidth heval hvalue, Option.some.injEq,
        decide_eq_true_iff]
  | error cause =>
      rw [caseClause?, hrelative]
      refine .dropped fun target htarget => ?_
      cases hrelative.symm.trans (relativePc_eq_ok_iff.mpr htarget)

/-- The way past all entries is open when no entry matches. -/
theorem enabled_otherwise_iff {i : Nat} (hwidth : cx.width ≤ wordBits) {value : Nat}
    (hvalue : value < valueCount cx.width)
    (heval : (Cell.register i cx.width).value.eval env = some value)
    (entries : List (Int32 × Int32)) :
    (cx.step [(Formula.any ((cx.switchCases (Cell.register i cx.width).value entries).map
        (·.1))).negate] cx.pre).Enabled env ↔
      ∀ clause, some clause ∈ entries.map (cx.caseClause? i) → ¬ clause.Enabled env := by
  have hsorted : (Formula.any ((cx.switchCases (Cell.register i cx.width).value entries).map
      (·.1))).negate.Sorted cx.width := by
    refine Formula.Sorted.negate (Formula.sorted_any fun part hpart => ?_)
    obtain ⟨case, hcase, rfl⟩ := List.mem_map.mp hpart
    exact sorted_switchCases (Cell.sorted_register i).value entries case hcase
  have hclosed : ∀ key, (cx.caseGuard i key).eval env = some false ↔
      ¬ (cx.caseGuard i key).eval env = some true := by
    intro key
    rw [eval_caseGuard hwidth heval hvalue]
    simp
  rw [step, enabled_jump_iff hsorted.applications, Formula.eval_negate, Formula.eval_any]
  calc (Formula.evalAny env ((cx.switchCases (Cell.register i cx.width).value entries).map
        (·.1))).map (!·) = some true
      ↔ Formula.evalAny env ((cx.switchCases (Cell.register i cx.width).value entries).map
          (·.1)) = some false := by simp [Option.map_eq_some_iff]
    _ ↔ ∀ entry ∈ entries, ∀ target, relativePc cx.instruction.pc entry.2 = .ok target →
          ¬ (cx.caseGuard i entry.1).eval env = some true := by
        rw [Formula.evalAny_eq_false_iff, List.forall_mem_map]
        constructor
        · intro hfalse entry hentry target htarget
          exact (hclosed _).mp (hfalse _ (mem_switchCases.mpr ⟨entry, hentry, htarget, rfl⟩))
        · rintro hfalse ⟨guard, target⟩ hcase
          obtain ⟨entry, hentry, htarget, rfl⟩ := mem_switchCases.mp hcase
          exact (hclosed _).mpr (hfalse entry hentry target htarget)
    _ ↔ ∀ clause, some clause ∈ entries.map (cx.caseClause? i) → ¬ clause.Enabled env := by
        constructor
        · intro hfalse clause hclause
          obtain ⟨entry, hentry, hway⟩ := List.mem_map.mp hclause
          obtain ⟨target, htarget, rfl⟩ := caseClause?_eq_some_iff.mp hway
          rw [enabled_jump_iff rfl]
          exact hfalse entry hentry target htarget
        · intro hclauses entry hentry target htarget
          have hway : cx.caseClause? i entry = some _ :=
            caseClause?_eq_some_iff.mpr ⟨target, htarget, rfl⟩
          have hclause := hclauses _ (List.mem_map.mpr ⟨entry, hentry, hway⟩)
          rwa [enabled_jump_iff rfl] at hclause

theorem compileSwitch_selects {entries : List (Int32 × Int32)} (hwidth : cx.width ≤ wordBits)
    (hoperand : cx.HasOperand 0)
    (hentries : (cx.method.payloadFor cx.instruction >>= Payload.switchEntries) = .ok entries) :
    ∃ ways otherwise, cx.compileSwitch = .ok (ways.reduceOption ++ [otherwise]) ∧
      (∀ clause ∈ ways.reduceOption ++ [otherwise], clause.isVacuous = false) ∧
      cx.Selects entries ways otherwise := by
  obtain ⟨i, hi, hvalues⟩ := hoperand.exists_register
  let otherwise := cx.step [(Formula.any ((cx.switchCases (Cell.register i cx.width).value
    entries).map (·.1))).negate] cx.pre
  refine ⟨entries.map (cx.caseClause? i), otherwise, ?_, ?_, ?_, transfers_jump _ _, ?_⟩
  · rw [← map_switchCases, compileSwitch, hi]
    dsimp only [Bind.bind, Except.bind] at hentries ⊢
    rw [hentries]
    rfl
  · rw [← map_switchCases]
    refine List.forall_mem_append.mpr ⟨fun clause hclause => ?_, ?_⟩
    · obtain ⟨⟨guard, target⟩, hcase, rfl⟩ := List.mem_map.mp hclause
      obtain ⟨entry, -, -, rfl⟩ := mem_switchCases.mp hcase
      exact isVacuous_jump (undecided_register _ _ _)
    · exact List.forall_mem_singleton.mpr (isVacuous_jump (undecided_switchDefault i entries))
  · exact List.forall₂_map_right_iff.mpr
      (List.forall₂_same.mpr fun entry _ => covers_caseClause? hwidth hvalues entry)
  · intro before env hfits hpre
    obtain ⟨value, hvalue, -, heval⟩ := hvalues before env hfits hpre
    exact enabled_otherwise_iff hwidth hvalue heval entries

/-! ## Packed tables -/

/-- The way of an entry with a consecutive key is the only one that can be open. -/
structure SelectsOnce (cx : StepContext) (firstKey : Int32) (ways : List (Option Clause)) :
    Prop where
  enabled_iff : ∀ before env, cx.Fits before → cx.pre.Denotes env before →
    ∀ scrutinee, cx.operandValue? before 0 = some scrutinee →
      ∀ (i : Nat) (clause : Clause), ways[i]? = some (some clause) →
        (clause.Enabled env ↔
          (scrutinee : Int) ≡ (packedKey firstKey i).toInt [ZMOD 2 ^ cx.width])
  unique : ∀ before env, cx.Fits before → cx.pre.Denotes env before →
    ∀ (i j : Nat) (first second : Clause), ways[i]? = some (some first) → ways[j]? = some (some second) →
      first.Enabled env → second.Enabled env → i = j

theorem Selects.selectsOnce {firstKey : Int32} {targets : List Int32} {ways : List (Option Clause)}
    {otherwise : Clause} (hwidth : cx.width ≤ wordBits) (hwide : 32 ≤ cx.width)
    (hoperand : cx.HasOperand 0) (hcount : targets.length ≤ 2 ^ 32)
    (h : cx.Selects (targets.mapIdx fun i target => (packedKey firstKey i, target)) ways otherwise) :
    cx.SelectsOnce firstKey ways := by
  obtain ⟨i₀, -, hvalues⟩ := hoperand.exists_register
  -- one way for each target
  have hlength : ways.length = targets.length := by
    rw [← h.covers.length_eq, List.length_mapIdx]
  have henabled : ∀ before env, cx.Fits before → cx.pre.Denotes env before →
      ∀ scrutinee, cx.operandValue? before 0 = some scrutinee →
        ∀ i clause, ways[i]? = some (some clause) →
          (clause.Enabled env ↔
            (scrutinee : Int) ≡ (packedKey firstKey i).toInt [ZMOD 2 ^ cx.width]) := by
    intro before env hfits hpre scrutinee hscrutinee i clause hclause
    obtain ⟨hi, hway⟩ := List.getElem?_eq_some_iff.mp hclause
    have hcovers := h.covers.get (by rwa [h.covers.length_eq]) hi
    simp only [List.get_eq_getElem, List.getElem_mapIdx, hway] at hcovers
    cases hcovers with
    | case _ _ hiff => exact hiff before env hfits hpre scrutinee hscrutinee
  refine ⟨henabled, fun before env hfits hpre i j first second hi hj hfirst hsecond => ?_⟩
  obtain ⟨value, hvalue, hscrutinee, -⟩ := hvalues before env hfits hpre
  -- positions stay below 2 ^ 32, where no key comes twice
  have hbound : ∀ {k way}, ways[k]? = some way → k < 2 ^ 32 := by
    intro k way hway
    obtain ⟨hk, -⟩ := List.getElem?_eq_some_iff.mp hway
    omega
  have hkey : ∀ {k clause}, ways[k]? = some (some clause) → clause.Enabled env →
      value = twosComplement (packedKey firstKey k).toInt cx.width := by
    intro k clause hclause hopen
    exact (eq_twosComplement_iff hwidth hvalue _).mpr
      ((henabled before env hfits hpre value hscrutinee k clause hclause).mp hopen)
  -- the value is that of both keys, and different positions have different keys
  have hsame : packedKey firstKey i = packedKey firstKey j :=
    twosComplement_injective hwide ((hkey hi hfirst).symm.trans (hkey hj hsecond))
  exact packedKey_injective (hbound hi) (hbound hj) hsame

/-! ## Contributions -/

/-- Clauses none of which is dropped are all emitted. -/
theorem compileOrSkip_of_steps {clauses : List Clause}
    (hcompile : cx.compile = .ok (.ofClauses clauses))
    (hkept : ∀ clause ∈ clauses, clause.isVacuous = false) :
    cx.compileOrSkip = .ok { clauses := clauses } := by
  have hall : clauses.filter (!·.isVacuous) = clauses :=
    List.filter_eq_self.mpr fun clause hclause => by rw [hkept clause hclause, Bool.not_false]
  rw [compileOrSkip, hcompile, Emission.ofClauses, hall]

/-- A branch contributes two clauses of which exactly one is enabled in every state.  A switch
contributes a clause for every entry whose target is a position, and one more clause; an entry is
enabled when its key equals the scrutinee, and the other clause when no entry is.  No two entries
of a packed table are enabled at once when values have at least 32 bits. -/
theorem ways_out_are_exclusive (cx : StepContext) (hwidth : cx.width ≤ wordBits) :
    (∀ condition againstZero target,
      cx.instruction.opcode = .branch condition againstZero →
      cx.instruction.branchTarget = .ok target →
      cx.HasOperand 0 → (againstZero = false → cx.HasOperand 1) →
        ∃ taken skipped, cx.compileOrSkip = .ok { clauses := [taken, skipped] } ∧
          cx.Forks condition againstZero target taken skipped) ∧
    ∀ kind entries,
      cx.instruction.opcode = .switch kind → cx.HasOperand 0 →
      (cx.method.payloadFor cx.instruction >>= Payload.switchEntries) = .ok entries →
        ∃ ways otherwise,
          cx.compileOrSkip = .ok { clauses := ways.reduceOption ++ [otherwise] } ∧
          cx.Selects entries ways otherwise ∧
          ∀ firstKey targets,
            cx.method.payloadFor cx.instruction = .ok (.packedSwitch firstKey targets) →
            targets.length ≤ 2 ^ 32 → 32 ≤ cx.width → cx.SelectsOnce firstKey ways := by
  constructor
  · intro condition againstZero target hopcode htarget hleft hright
    obtain ⟨taken, skipped, hcompile, htaken, hskipped, hforks⟩ :=
      compileBranch_forks hwidth htarget hleft hright
    refine ⟨taken, skipped, compileOrSkip_of_steps ?_ ?_, hforks⟩
    · rw [compile, hopcode]
      exact congrArg (Except.map Emission.ofClauses) hcompile
    · exact List.forall_mem_cons.mpr ⟨htaken, List.forall_mem_singleton.mpr hskipped⟩
  · intro kind entries hopcode hoperand hentries
    obtain ⟨ways, otherwise, hcompile, hkept, hselects⟩ :=
      compileSwitch_selects hwidth hoperand hentries
    refine ⟨ways, otherwise, compileOrSkip_of_steps ?_ hkept, hselects, ?_⟩
    · rw [compile, hopcode]
      exact congrArg (Except.map Emission.ofClauses) hcompile
    · intro firstKey targets hpayload hcount hwide
      rw [hpayload] at hentries
      cases hentries
      exact hselects.selectsOnce hwidth hwide hoperand hcount

end StepContext

namespace Program

/-! ## A method with both -/

/-- A comparison of two numbers. -/
def comparison : Instruction where
  pc := 0
  mnemonic := "if-lt"
  registers := [0, 1]
  target := some 5

/-- A selection by the first number.  The keys of the table wrap, and the target of its second entry
lies before the method. -/
def selection : Instruction where
  pc := 2
  mnemonic := "packed-switch"
  registers := [0]
  payload := some (.packedSwitch 2147483647 [3, -9, 4])

def selectingMethod : Method where
  name := "f()V"
  numRegisters := 2
  numArguments := 0
  isStatic := true
  instructions :=
    [comparison, selection, { pc := 5, mnemonic := "return-void" },
      { pc := 6, mnemonic := "return-void" }]

def selectingClass : Class where
  name := "La;"
  methods := [selectingMethod]

def selecting : Program where
  classes := [selectingClass]

/-- The context of an instruction of the method. -/
def selectingContext (index : Nat) (instruction : Instruction) : StepContext :=
  (selecting.environment sampleConfig {}).stepContext 0 selectingClass selectingMethod index
    instruction

/-- A state in which the first number is the first key of the table. -/
def selectingState : StateValue where
  registers := [⟨2147483647, false, false, false⟩, ⟨7, false, false, false⟩, ⟨0, false, false, false⟩]
  heap := []

theorem fits_selectingState (index : Nat) (instruction : Instruction) :
    (selectingContext index instruction).Fits selectingState where
  registers_length := rfl
  heap_length := by
    show 0 = selecting.layout.size
    decide +kernel
  inRange :=
    { registers := by
        show ∀ cell ∈ selectingState.registers, cell.value < valueCount 32
        decide
      heap := nofun }

/-- The larger number goes on at the next instruction, and there to the first target only. -/
theorem ways_out_are_exclusive_sample :
    (∃ taken skipped,
      (selectingContext 0 comparison).compileOrSkip = .ok { clauses := [taken, skipped] } ∧
      ¬ taken.Enabled (stateValuation selectingState) ∧
      skipped.Enabled (stateValuation selectingState)) ∧
    ∃ first last otherwise,
      (selectingContext 1 selection).compileOrSkip =
        .ok { clauses := [first, last, otherwise] } ∧
      first.Enabled (stateValuation selectingState) ∧
      ¬ last.Enabled (stateValuation selectingState) ∧
      ¬ otherwise.Enabled (stateValuation selectingState) := by
  constructor
  · let cx := selectingContext 0 comparison
    have hfits : cx.Fits selectingState := fits_selectingState 0 comparison
    obtain ⟨hbranch, -⟩ := StepContext.ways_out_are_exclusive cx (by decide +kernel)
    have hdistance : comparison.AtDistance 5 5 := by decide +kernel
    have htarget : comparison.branchTarget = .ok 5 := by
      rw [Instruction.branchTarget, show comparison.target = some 5 from rfl]
      exact StepContext.relativePc_eq_ok_iff.mpr hdistance
    obtain ⟨taken, skipped, hcompile, hforks⟩ := hbranch .lt false 5 (by decide +kernel)
      htarget ⟨0, rfl, by decide⟩ fun _ => ⟨1, rfl, by decide⟩
    have htaken : ¬ taken.Enabled (stateValuation selectingState) := by
      rw [hforks.enabled_taken _ _ hfits hfits.denotes_pre 2147483647 7 (by decide +kernel)
        (by decide +kernel)]
      decide +kernel
    exact ⟨taken, skipped, hcompile, htaken,
      (hforks.enabled_skipped _ _ hfits hfits.denotes_pre).mpr htaken⟩
  · let cx := selectingContext 1 selection
    have hfits : cx.Fits selectingState := fits_selectingState 1 selection
    obtain ⟨-, hswitch⟩ := StepContext.ways_out_are_exclusive cx (by decide +kernel)
    obtain ⟨ways, otherwise, hcompile, ⟨hcovers, -, hotherwise⟩, honce⟩ :=
      hswitch .packed [(2147483647, 3), (-2147483648, -9), (-2147483647, 4)] (by decide +kernel)
        ⟨0, rfl, by decide⟩ (by decide +kernel)
    have hfirst : cx.instruction.AtDistance 3 5 := by decide +kernel
    have hlast : cx.instruction.AtDistance 4 6 := by decide +kernel
    have hsecond : ∀ target, ¬ cx.instruction.AtDistance (-9) target := by
      intro target htarget
      have hdistance : (target.toNat : Int) = (2 : UInt32).toNat + (-9 : Int32).toInt := htarget
      have hbefore : ((2 : UInt32).toNat : Int) + (-9 : Int32).toInt = -7 := by decide
      omega
    -- the second entry is dropped, and the other two have clauses
    obtain _ | ⟨hway, _ | ⟨hdropped, _ | ⟨hother, _ | _⟩⟩⟩ := hcovers
    obtain ⟨first, rfl⟩ := hway.exists_clause hfirst
    obtain ⟨last, rfl⟩ := hother.exists_clause hlast
    cases hdropped.eq_none hsecond
    obtain ⟨henabled, hunique⟩ := honce 2147483647 [3, -9, 4] rfl (by decide)
      (show 32 ≤ 32 by decide)
    have hopen : first.Enabled (stateValuation selectingState) := by
      rw [henabled _ _ hfits hfits.denotes_pre 2147483647 (by decide +kernel) 0 first rfl]
      show (2147483647 : Int) ≡ (2147483647 : Int32).toInt [ZMOD 2 ^ 32]
      decide
    refine ⟨first, last, otherwise, hcompile, hopen, fun hboth => ?_, fun hnone => ?_⟩
    · cases hunique _ _ hfits hfits.denotes_pre 0 2 first last rfl rfl hopen hboth
    · exact (hotherwise _ _ hfits hfits.denotes_pre).mp hnone first List.mem_cons_self hopen

end Program

end DalvikHorn
