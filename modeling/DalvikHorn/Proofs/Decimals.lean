import DalvikHorn.Decimal

/-!
# Decimal texts

Numbers are written in decimal in relation names, in variable names, in programs and in
configurations.  What their texts have in common does not depend on where they stand: they
consist of digits behind a sign (`toList_toString`), other numbers have other texts
(`decimal_injective`), and the value of the digits is the number (`digitsValue_toDigits`).
-/

namespace DalvikHorn

/-! ## Digits -/

theorem isDigit_of_mem_digits {c : Char} {value : Nat} (h : c ∈ Nat.toDigits 10 value) :
    c.isDigit = true :=
  Nat.isDigit_of_mem_toDigits (by decide) (by decide) h

theorem toDigits_injective {first second : Nat}
    (h : Nat.toDigits 10 first = Nat.toDigits 10 second) : first = second := by
  have hread := congrArg (fun digits => Nat.ofDigitChars 10 digits 0) h
  simpa using hread

theorem notMem_toDigits {char : Char} (hchar : char.isDigit = false) (value : Nat) :
    char ∉ Nat.toDigits 10 value := by
  intro h
  rw [isDigit_of_mem_digits h] at hchar
  cases hchar

/-- Only the numeral of zero starts with a zero. -/
theorem eq_zero_of_head?_toDigits {value : Nat}
    (h : (Nat.toDigits 10 value).head? = some '0') : value = 0 := by
  induction value using Nat.strongRecOn with
  | ind value ih =>
      rw [Nat.toDigits_eq_if (by decide)] at h
      by_cases hsmall : value < 10
      · rw [if_pos hsmall, List.head?_singleton, Option.some.injEq] at h
        exact Nat.digitChar_eq_zero.mp h
      · rw [if_neg hsmall, List.head?_append] at h
        have hzero : value / 10 = 0 := by
          apply ih (value / 10) (by omega)
          cases hdigits : Nat.toDigits 10 (value / 10) with
          | nil => exact absurd hdigits Nat.toDigits_ne_nil
          | cons c digits => simpa [hdigits] using h
        omega

/-- The value of the digits of a number is the number. -/
theorem digitsValue_toDigits (value : Nat) : digitsValue (Nat.toDigits 10 value) = value := by
  calc digitsValue (Nat.toDigits 10 value)
      = Nat.ofDigitChars 10 (Nat.toDigits 10 value) 0 := by
        rw [Nat.ofDigitChars_eq_foldl, digitsValue]
        simp only [Nat.mul_comm]
    _ = value := Nat.ofDigitChars_ten_toDigits

/-! ## Numbers with a sign -/

/-- The characters of a number. -/
def decimal (value : Int) : List Char :=
  value.repr.toList

theorem underscore_notMem_decimal (value : Int) : '_' ∉ decimal value := by
  unfold decimal
  rw [Int.repr_eq_if]
  split
  · simp
  · simp

theorem decimal_injective {first second : Int} (h : decimal first = decimal second) :
    first = second := by
  have hsign : ∀ a b : Nat, Nat.toDigits 10 a ≠ '-' :: Nat.toDigits 10 b := by
    intro a b heq
    exact notMem_toDigits (by decide) a (heq ▸ List.mem_cons_self)
  unfold decimal at h
  rw [Int.repr_eq_if, Int.repr_eq_if] at h
  split at h
  · split at h
    · have := toDigits_injective (by simpa using h)
      omega
    · exact absurd (by simpa using h) (hsign _ _)
  · split at h
    · exact absurd (by simpa using h.symm) (hsign _ _)
    · have := toDigits_injective (by simpa using h)
      omega

/-- The digits of a number, after its sign. -/
theorem toList_toString (value : Int) :
    (toString value).toList =
      (if decide (value < 0) then ['-'] else []) ++ Nat.toDigits 10 value.natAbs := by
  cases value with
  | ofNat magnitude =>
      have hsign : ¬ (Int.ofNat magnitude < 0) := by simp
      simp only [hsign, decide_false, Bool.false_eq_true, if_false, List.nil_append]
      exact Nat.toList_repr
  | negSucc magnitude =>
      have hsign : Int.negSucc magnitude < 0 := Int.negSucc_lt_zero magnitude
      simp only [hsign, decide_true, if_true]
      exact (String.toList_append).trans (congrArg _ Nat.toList_repr)

/-- A number starts with its sign or with a digit. -/
theorem exists_cons_toString (value : Int) :
    ∃ c rest, (toString value).toList = c :: rest ∧ (c = '-' ∨ c.isDigit = true) := by
  rw [toList_toString]
  by_cases hsign : value < 0
  · simp only [hsign, decide_true, if_true]
    exact ⟨_, _, rfl, .inl rfl⟩
  · simp only [hsign, decide_false, Bool.false_eq_true, if_false, List.nil_append]
    obtain ⟨c, digits, hdigits⟩ := List.exists_cons_of_ne_nil
      (Nat.toDigits_ne_nil (n := value.natAbs) (b := 10))
    exact ⟨c, digits, hdigits, .inr (isDigit_of_mem_digits (hdigits ▸ List.mem_cons_self))⟩

end DalvikHorn
