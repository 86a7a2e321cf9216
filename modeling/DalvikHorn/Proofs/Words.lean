import DalvikHorn.Formula.Eval
import Mathlib.Algebra.Group.Nat.Defs

/-!
# Values as bit-vectors

Evaluation keeps the values of bit-vectors as natural numbers in words of 128
bits.  At a width of at most 128 the operators compute what the operators of
fixed-width bit-vectors compute: wrapping arithmetic, unsigned division and
remainder with their SMT-LIB values at zero, and logical and arithmetic shifts.
-/

namespace DalvikHorn

/-! ## Ranges -/

theorem valueCount_pos (width : Nat) : 0 < valueCount width :=
  Nat.two_pow_pos _

theorem truncate_lt (width value : Nat) : truncate width value < valueCount width :=
  Nat.mod_lt _ (valueCount_pos width)

theorem twosComplement_lt (value : Int) (width : Nat) :
    twosComplement value width < valueCount width := by
  have hpositive : (0 : Int) < valueCount width := by exact_mod_cast valueCount_pos width
  have hmod := Int.emod_lt_of_pos value hpositive
  unfold twosComplement
  omega

/-! ## Truncation -/

theorem valueCount_of_le {w : Nat} (hwidth : w ≤ wordBits) : valueCount w = 2 ^ w := by
  rw [valueCount, Nat.min_eq_left hwidth]
  rfl

theorem truncate_of_le {w : Nat} (hwidth : w ≤ wordBits) (value : Nat) :
    truncate w value = value % 2 ^ w := by
  rw [truncate, valueCount_of_le hwidth]

theorem allOnes_of_le {w : Nat} (hwidth : w ≤ wordBits) : allOnes w = 2 ^ w - 1 := by
  rw [allOnes, valueCount_of_le hwidth]

/-- The number of values of a word is a multiple of that of every width. -/
theorem exists_wordSize_eq {w : Nat} (hwidth : w ≤ wordBits) :
    ∃ copies, wordSize = 2 ^ w * (copies + 1) := by
  refine ⟨2 ^ (wordBits - w) - 1, ?_⟩
  have hpositive : 0 < 2 ^ (wordBits - w) := Nat.two_pow_pos _
  rw [Nat.sub_add_cancel hpositive, ← Nat.pow_add, Nat.add_sub_cancel' hwidth]
  exact valueCount_of_le (Nat.le_refl _)

theorem twosComplement_eq {w : Nat} (hwidth : w ≤ wordBits) (value : Int) :
    twosComplement value w = (BitVec.ofInt w value).toNat := by
  rw [twosComplement, valueCount_of_le hwidth, BitVec.toNat_ofInt]

/-! ## Unary operators -/

/-- A unary operator on bit-vectors. -/
def BvUnary.onWords {w : Nat} (op : BvUnary) (a : BitVec w) : BitVec w :=
  match op with
  | .neg => -a
  | .not => ~~~a

theorem BvUnary.apply_eq {w : Nat} (hwidth : w ≤ wordBits) (op : BvUnary) (a : BitVec w) :
    op.apply w a.toNat = (op.onWords a).toNat := by
  obtain ⟨copies, hword⟩ := exists_wordSize_eq hwidth
  have hlt : a.toNat < 2 ^ w := a.isLt
  have hmultiple : wordSize = 2 ^ w + 2 ^ w * copies := by
    rw [hword, Nat.mul_add, Nat.mul_one, Nat.add_comm]
  cases op with
  | neg =>
      have hsplit : wordSize - a.toNat = 2 ^ w - a.toNat + 2 ^ w * copies := by omega
      rw [apply, truncate_of_le hwidth, hsplit, Nat.add_mul_mod_self_left, onWords,
        BitVec.toNat_neg]
  | not =>
      have hsplit : wordSize - 1 - a.toNat = 2 ^ w - 1 - a.toNat + 2 ^ w * copies := by omega
      rw [apply, truncate_of_le hwidth, hsplit, Nat.add_mul_mod_self_left, onWords,
        BitVec.toNat_not, Nat.mod_eq_of_lt (by omega)]

/-! ## Binary operators -/

/-- A binary operator on bit-vectors. -/
def BvBinary.onWords {w : Nat} (op : BvBinary) (a b : BitVec w) : BitVec w :=
  match op with
  | .add => a + b
  | .sub => a - b
  | .mul => a * b
  | .udiv => a.smtUDiv b
  | .urem => a % b
  | .and => a &&& b
  | .or => a ||| b
  | .xor => a ^^^ b
  | .shl => a <<< b
  | .ashr => a.sshiftRight' b
  | .lshr => a >>> b

/-- A shift by the width or more leaves no bit of a value. -/
theorem shiftRight_eq_zero {w value amount : Nat} (hvalue : value < 2 ^ w) (hlarge : w ≤ amount) :
    value >>> amount = 0 := by
  rw [Nat.shiftRight_eq_div_pow]
  exact Nat.div_eq_of_lt (Nat.lt_of_lt_of_le hvalue (Nat.pow_le_pow_right Nat.two_pos hlarge))

/-- The bits that an arithmetic shift of a negative value moves in, joined with those that it
keeps, are the complement of the shifted complement. -/
theorem signBits_or_eq {w value amount : Nat} (hvalue : value < 2 ^ w) (hsmall : amount < w) :
    value >>> amount ||| (2 ^ w - 1 - (2 ^ w - 1) >>> amount) =
      2 ^ w - 1 - (2 ^ w - 1 - value) >>> amount := by
  have hsplit : 2 ^ w = 2 ^ amount * 2 ^ (w - amount) := by
    rw [← Nat.pow_add, Nat.add_sub_cancel' (Nat.le_of_lt hsmall)]
  have hkept : value / 2 ^ amount < 2 ^ (w - amount) :=
    Nat.div_lt_of_lt_mul (by rw [← hsplit]; exact hvalue)
  have hones : (2 ^ w - 1) / 2 ^ amount = 2 ^ (w - amount) - 1 := by
    have h := Nat.mul_sub_div 0 (2 ^ amount) (2 ^ (w - amount)) (by rw [← hsplit]; omega)
    rwa [← hsplit, Nat.zero_div] at h
  have hflipped : (2 ^ w - 1 - value) / 2 ^ amount = 2 ^ (w - amount) - 1 - value / 2 ^ amount := by
    have h := Nat.mul_sub_div value (2 ^ amount) (2 ^ (w - amount)) (by rw [← hsplit]; exact hvalue)
    rw [← hsplit] at h
    rw [Nat.sub_sub, Nat.add_comm 1, h, Nat.sub_sub, Nat.add_comm 1]
  have hmoved : 2 ^ w - 1 - (2 ^ (w - amount) - 1) = 2 ^ (w - amount) * (2 ^ amount - 1) := by
    have hpositive : 0 < 2 ^ (w - amount) := Nat.two_pow_pos _
    rw [Nat.mul_sub, Nat.mul_one, Nat.mul_comm, ← hsplit, Nat.sub_sub, Nat.add_comm 1,
      Nat.sub_add_cancel hpositive]
  have hle : 2 ^ (w - amount) ≤ 2 ^ w := Nat.pow_le_pow_right Nat.two_pos (Nat.sub_le _ _)
  rw [Nat.shiftRight_eq_div_pow, Nat.shiftRight_eq_div_pow, Nat.shiftRight_eq_div_pow, hones,
    hflipped, hmoved, Nat.or_comm, ← Nat.two_pow_add_eq_or_of_lt hkept, ← hmoved]
  -- What is left is arithmetic on the two powers.
  generalize value / 2 ^ amount = kept at hkept ⊢
  generalize 2 ^ (w - amount) = rest at hkept hle ⊢
  generalize 2 ^ w = whole at hle ⊢
  omega

/-- A shift by less than a width goes as far as it says. -/
theorem shiftAmount_of_lt {w amount : Nat} (hwidth : w ≤ wordBits) (hsmall : amount < w) :
    shiftAmount amount = amount :=
  Nat.mod_eq_of_lt (Nat.lt_of_lt_of_le hsmall hwidth)

theorem signBit_of_pos {w : Nat} (hwidth : w ≤ wordBits) (hpos : 0 < w) : signBit w = w - 1 := by
  have hsum : w + (wordBits - 1) = w - 1 + wordBits := by
    have hword : 0 < wordBits := by decide
    omega
  rw [signBit, shiftAmount, hsum, Nat.add_mod_right, ← shiftAmount]
  exact shiftAmount_of_lt hwidth (by omega)

/-- The bit that an arithmetic shift copies is the sign; a value without bits has none. -/
theorem testBit_signBit {w : Nat} (hwidth : w ≤ wordBits) (a : BitVec w) :
    a.toNat.testBit (signBit w) = a.msb := by
  rcases Nat.eq_zero_or_pos w with rfl | hpos
  · simp [BitVec.eq_nil a]
  · rw [signBit_of_pos hwidth hpos, BitVec.msb_eq_getLsbD_last]
    rfl

/-- An arithmetic shift moves copies of the sign in. -/
theorem arithmeticShift_eq {w : Nat} (hwidth : w ≤ wordBits) (a : BitVec w) (amount : Nat) :
    arithmeticShift w a.toNat amount = (a.sshiftRight amount).toNat := by
  have hsign : a.toNat.testBit (signBit w) = a.msb := testBit_signBit hwidth a
  have hlt : a.toNat < 2 ^ w := a.isLt
  unfold arithmeticShift
  rw [hsign, allOnes_of_le hwidth]
  by_cases hnegative : a.msb = true
  · rw [BitVec.toNat_sshiftRight_of_msb_true hnegative]
    by_cases hlarge : w ≤ amount
    · rw [if_pos hlarge, if_pos hnegative, shiftRight_eq_zero (by omega) hlarge, Nat.sub_zero]
    · have hsmall : amount < w := Nat.lt_of_not_le hlarge
      rw [if_neg hlarge, if_pos hnegative, shiftAmount_of_lt hwidth hsmall]
      exact signBits_or_eq hlt hsmall
  · rw [BitVec.toNat_sshiftRight_of_msb_false (by simpa using hnegative)]
    by_cases hlarge : w ≤ amount
    · rw [if_pos hlarge, if_neg hnegative, shiftRight_eq_zero hlt hlarge]
    · rw [if_neg hlarge, if_neg hnegative, shiftAmount_of_lt hwidth (Nat.lt_of_not_le hlarge)]

theorem BvBinary.apply_eq {w : Nat} (hwidth : w ≤ wordBits) (op : BvBinary) (a b : BitVec w) :
    op.apply w a.toNat b.toNat = (op.onWords a b).toNat := by
  unfold apply
  rw [truncate_of_le hwidth]
  cases op with
  | add => rw [onWords, BitVec.toNat_add]
  | sub =>
      -- The word size is added before the subtraction so that it does not stop at zero.
      obtain ⟨copies, hword⟩ := exists_wordSize_eq hwidth
      have hlt : b.toNat < 2 ^ w := b.isLt
      have hsplit : a.toNat + wordSize - b.toNat = 2 ^ w - b.toNat + a.toNat + 2 ^ w * copies := by
        rw [hword, Nat.mul_add, Nat.mul_one]
        omega
      dsimp only
      rw [hsplit, Nat.add_mul_mod_self_left, onWords, BitVec.toNat_sub]
  | mul => rw [onWords, BitVec.toNat_mul]
  | udiv =>
      dsimp only
      rw [onWords, BitVec.smtUDiv_eq]
      by_cases hzero : b = 0#w
      · have hb : b.toNat = 0 := by rw [hzero, BitVec.toNat_zero]
        rw [if_pos hb, if_pos hzero, allOnes_of_le hwidth, BitVec.toNat_allOnes]
        exact Nat.mod_eq_of_lt (Nat.sub_lt (Nat.two_pow_pos w) Nat.one_pos)
      · have hb : b.toNat ≠ 0 := fun h => hzero (BitVec.eq_of_toNat_eq (by simpa using h))
        rw [if_neg hb, if_neg hzero, BitVec.toNat_udiv]
        exact Nat.mod_eq_of_lt (Nat.lt_of_le_of_lt (Nat.div_le_self _ _) a.isLt)
  | urem =>
      dsimp only
      rw [onWords, BitVec.toNat_umod]
      by_cases hb : b.toNat = 0
      · rw [if_pos hb, hb, Nat.mod_zero, Nat.mod_eq_of_lt a.isLt]
      · rw [if_neg hb]
        exact Nat.mod_eq_of_lt (Nat.lt_of_le_of_lt (Nat.mod_le _ _) a.isLt)
  | and => rw [onWords, ← BitVec.toNat_and, Nat.mod_eq_of_lt (BitVec.isLt _)]
  | or => rw [onWords, ← BitVec.toNat_or, Nat.mod_eq_of_lt (BitVec.isLt _)]
  | xor => rw [onWords, ← BitVec.toNat_xor, Nat.mod_eq_of_lt (BitVec.isLt _)]
  | shl =>
      dsimp only
      rw [onWords, BitVec.shiftLeft_eq', BitVec.toNat_shiftLeft]
      by_cases hlarge : w ≤ b.toNat
      · rw [if_pos hlarge, Nat.shiftLeft_eq, Nat.zero_mod]
        exact (Nat.mod_eq_zero_of_dvd
          (Nat.dvd_trans (Nat.pow_dvd_pow 2 hlarge) (Nat.dvd_mul_left _ _))).symm
      · rw [if_neg hlarge, shiftAmount_of_lt hwidth (Nat.lt_of_not_le hlarge)]
  | ashr =>
      dsimp only
      rw [arithmeticShift_eq hwidth, onWords, BitVec.sshiftRight_eq']
      exact Nat.mod_eq_of_lt (BitVec.isLt _)
  | lshr =>
      dsimp only
      rw [onWords, BitVec.ushiftRight_eq', BitVec.toNat_ushiftRight]
      by_cases hlarge : w ≤ b.toNat
      · rw [if_pos hlarge, Nat.zero_mod, shiftRight_eq_zero a.isLt hlarge]
      · rw [if_neg hlarge, shiftAmount_of_lt hwidth (Nat.lt_of_not_le hlarge),
          Nat.shiftRight_eq_div_pow]
        exact Nat.mod_eq_of_lt (Nat.lt_of_le_of_lt (Nat.div_le_self _ _) a.isLt)

end DalvikHorn
