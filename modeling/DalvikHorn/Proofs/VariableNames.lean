import DalvikHorn.Formula.Basic
import DalvikHorn.Proofs.Decimals
import DalvikHorn.State.Names
import Mathlib.Data.List.Nodup

/-!
# The variables of clauses

All clauses share their variables.  Fourteen families of them are numbered, four for the
components of a register and five for those of a slot of each of the two local heaps, and
sixteen auxiliary ones are not.  A name is the letters of its family followed by the digits of
its number, if it has one.

* `Variable.name_injective`: no two variables have one name.

Families such as `l`, `lhl` and `lhcl` start alike, and `lf` starts like the local flag of a
register.  The names can be told apart because letters are no digits: the letters of a name end
where its digits begin (`cut_at_unique`), and the letters of different families differ.
-/

namespace DalvikHorn

/-! ## Numbers in names -/

theorem val_le_of_isDigit {c : Char} (h : c.isDigit = true) : c.val ≤ '9'.val :=
  of_decide_eq_true (Bool.and_eq_true_iff.mp h).2

theorem le_val_of_isLower {c : Char} (h : c.isLower = true) : 'a'.val ≤ c.val :=
  of_decide_eq_true (Bool.and_eq_true_iff.mp h).1

theorem isLower_of_isDigit {c : Char} (h : c.isDigit = true) : c.isLower = false := by
  rw [Bool.eq_false_iff]
  intro hlower
  exact absurd (UInt32.le_trans (le_val_of_isLower hlower) (val_le_of_isDigit h)) (by decide)

theorem isUpper_of_isDigit {c : Char} (h : c.isDigit = true) : c.isUpper = false := by
  rw [Bool.eq_false_iff]
  intro hupper
  exact absurd (UInt32.le_trans (of_decide_eq_true hupper).1 (val_le_of_isDigit h)) (by decide)

theorem isUpper_of_isLower {c : Char} (h : c.isLower = true) : c.isUpper = false := by
  rw [Bool.eq_false_iff]
  intro hupper
  exact absurd (UInt32.le_trans (le_val_of_isLower h) (of_decide_eq_true hupper).2) (by decide)

/-- A text is cut in one way at the first character that is not of a kind. -/
theorem cut_at_unique (kind : Char → Bool) {before before' after after' : List Char}
    (hbefore : ∀ c ∈ before, kind c = true) (hbefore' : ∀ c ∈ before', kind c = true)
    (hafter : ∀ c ∈ after.head?, kind c = false) (hafter' : ∀ c ∈ after'.head?, kind c = false)
    (h : before ++ after = before' ++ after') : before = before' ∧ after = after' := by
  have htake : ∀ {first rest : List Char}, (∀ c ∈ first, kind c = true) →
      (∀ c ∈ rest.head?, kind c = false) → (first ++ rest).takeWhile kind = first := by
    intro first rest hfirst hrest
    rw [List.takeWhile_append_of_pos hfirst]
    cases rest with
    | nil => simp
    | cons c tail => simp [hrest c rfl]
  have hsame : before = before' := by rw [← htake hbefore hafter, h, htake hbefore' hafter']
  exact ⟨hsame, List.append_cancel_left (hsame ▸ h)⟩

namespace Names

/-! ## Families -/

/-- The components of a cell. -/
inductive Component where
  | value | high | isLocal | isGlobal
  deriving DecidableEq, Repr

/-- The local heaps that variables are named for: the one before an instruction, and the one that a
call returns. -/
inductive LocalHeap where
  | own | returned
  deriving DecidableEq, Repr

/-- The families of numbered variables. -/
inductive Family where
  /-- A component of a register. -/
  | register (component : Component)
  /-- A component of a slot of a local heap. -/
  | slot (heap : LocalHeap) (component : Component)
  /-- Whether a slot of a local heap is free. -/
  | free (heap : LocalHeap)
  deriving DecidableEq, Repr

/-- The variables without a number. -/
inductive Auxiliary where
  | field | anyField | anyValue | read | result | buffer | className
  | fieldHigh | fieldBlocked | anyHigh | anyBlocked | readHigh | readBlocked
  | resultHigh | resultLocal | resultGlobal
  deriving DecidableEq, Repr

/-- The variables of clauses. -/
inductive Variable where
  | numbered (family : Family) (index : Nat)
  | auxiliary (kind : Auxiliary)
  deriving DecidableEq, Repr

/-! ## Names -/

/-- The start of the names of a local heap. -/
def LocalHeap.text : LocalHeap → String
  | .own => ownHeap
  | .returned => returnedHeap

/-- The name of a member of a family. -/
def Family.name : Family → Nat → String
  | .register .value => Names.value
  | .register .high => Names.high
  | .register .isLocal => Names.isLocal
  | .register .isGlobal => Names.isGlobal
  | .slot heap .value => slotValue heap.text
  | .slot heap .high => slotHigh heap.text
  | .slot heap .isLocal => slotLocal heap.text
  | .slot heap .isGlobal => slotGlobal heap.text
  | .free heap => slotFree heap.text

/-- The name of an auxiliary variable. -/
def Auxiliary.name : Auxiliary → String
  | .field => Names.field
  | .anyField => Names.anyField
  | .anyValue => Names.anyValue
  | .read => Names.read
  | .result => Names.result
  | .buffer => Names.buffer
  | .className => Names.className
  | .fieldHigh => Names.fieldHigh
  | .fieldBlocked => Names.fieldBlocked
  | .anyHigh => Names.anyHigh
  | .anyBlocked => Names.anyBlocked
  | .readHigh => Names.readHigh
  | .readBlocked => Names.readBlocked
  | .resultHigh => Names.resultHigh
  | .resultLocal => Names.resultLocal
  | .resultGlobal => Names.resultGlobal

/-- The name of a variable. -/
def Variable.name : Variable → String
  | .numbered family index => family.name index
  | .auxiliary kind => kind.name

/-! ## Sorts -/

/-- The sort of a component of a cell. -/
def Component.sort (width : Nat) : Component → TermSort
  | .value => .bitVec width
  | _ => .bool

/-- The sort of the variables of a family. -/
def Family.sort (width : Nat) : Family → TermSort
  | .register component => component.sort width
  | .slot _ component => component.sort width
  | .free _ => .bool

/-- Whether an auxiliary variable stands for a value, and not for a label or a flag. -/
def Auxiliary.isValue : Auxiliary → Bool
  | .field | .anyField | .anyValue | .read | .result | .buffer | .className => true
  | _ => false

/-- The sort of a variable. -/
def Variable.sort (width : Nat) : Variable → TermSort
  | .numbered family _ => family.sort width
  | .auxiliary kind => if kind.isValue then .bitVec width else .bool

/-! ## Letters and digits -/

/-- The letter of a component of a cell. -/
def Component.letter : Component → Char
  | .value => 'v'
  | .high => 'h'
  | .isLocal => 'l'
  | .isGlobal => 'g'

/-- The letters that the names of a family start with. -/
def Family.letters : Family → List Char
  | .register component => [component.letter]
  | .slot heap component => heap.text.toList ++ [component.letter]
  | .free heap => heap.text.toList ++ ['f']

theorem toList_value (i : Nat) : (value i).toList = 'v' :: Nat.toDigits 10 i := by
  simp [value, toString]

theorem toList_high (i : Nat) : (high i).toList = 'h' :: Nat.toDigits 10 i := by
  simp [high, toString]

theorem toList_isLocal (i : Nat) : (isLocal i).toList = 'l' :: Nat.toDigits 10 i := by
  simp [isLocal, toString]

theorem toList_isGlobal (i : Nat) : (isGlobal i).toList = 'g' :: Nat.toDigits 10 i := by
  simp [isGlobal, toString]

theorem Family.toList_name (family : Family) (index : Nat) :
    (family.name index).toList = family.letters ++ Nat.toDigits 10 index := by
  cases family with
  | register component =>
      cases component with
      | value => exact toList_value index
      | high => exact toList_high index
      | isLocal => exact toList_isLocal index
      | isGlobal => exact toList_isGlobal index
  | slot heap component =>
      cases component <;>
        simp [name, letters, slotValue, slotHigh, slotLocal, slotGlobal, Component.letter, toString]
  | free heap => simp [name, letters, slotFree, toString]

/-- All families. -/
def Family.all : List Family :=
  [.value, .high, .isLocal, .isGlobal].map .register ++
    [.own, .returned].flatMap fun heap =>
      .free heap :: [.value, .high, .isLocal, .isGlobal].map (.slot heap)

/-- All auxiliary variables. -/
def Auxiliary.all : List Auxiliary :=
  [.field, .anyField, .anyValue, .read, .result, .buffer, .className, .fieldHigh, .fieldBlocked,
    .anyHigh, .anyBlocked, .readHigh, .readBlocked, .resultHigh, .resultLocal, .resultGlobal]

theorem Family.mem_all (family : Family) : family ∈ all := by
  cases family with
  | register component => cases component <;> decide
  | slot heap component => cases heap <;> cases component <;> decide
  | free heap => cases heap <;> decide

theorem Auxiliary.mem_all (kind : Auxiliary) : kind ∈ all := by
  cases kind <;> decide

theorem Family.letters_injective {first second : Family} (h : first.letters = second.letters) :
    first = second := by
  have hnodup : (all.map letters).Nodup := by decide
  exact List.inj_on_of_nodup_map hnodup first.mem_all second.mem_all h

theorem Auxiliary.name_injective {first second : Auxiliary} (h : first.name = second.name) :
    first = second := by
  have hnodup : (all.map name).Nodup := by decide
  exact List.inj_on_of_nodup_map hnodup first.mem_all second.mem_all h

theorem Family.isLower_letters (family : Family) : ∀ c ∈ family.letters, c.isLower = true := by
  have hall : ∀ family ∈ all, family.letters.all Char.isLower = true := by decide
  exact List.all_eq_true.mp (hall family family.mem_all)

theorem Auxiliary.isLower_name (kind : Auxiliary) : ∀ c ∈ kind.name.toList, c.isLower = true := by
  have hall : ∀ kind ∈ all, kind.name.toList.all Char.isLower = true := by decide
  exact List.all_eq_true.mp (hall kind kind.mem_all)

theorem Family.letters_ne_nil (family : Family) : family.letters ≠ [] := by
  have hall : ∀ family ∈ all, family.letters ≠ [] := by decide
  exact hall family family.mem_all

theorem Auxiliary.toList_name_ne_nil (kind : Auxiliary) : kind.name.toList ≠ [] := by
  have hall : ∀ kind ∈ all, kind.name.toList ≠ [] := by decide
  exact hall kind kind.mem_all

namespace Variable

/-- The letters of a name. -/
def letters : Variable → List Char
  | .numbered family _ => family.letters
  | .auxiliary kind => kind.name.toList

/-- The digits of a name, without a number none. -/
def digits : Variable → List Char
  | .numbered _ index => Nat.toDigits 10 index
  | .auxiliary _ => []

theorem toList_name (v : Variable) : v.name.toList = v.letters ++ v.digits := by
  cases v with
  | numbered family index => exact family.toList_name index
  | auxiliary kind => exact (List.append_nil _).symm

theorem isLower_letters (v : Variable) : ∀ c ∈ v.letters, c.isLower = true := by
  cases v with
  | numbered family index => exact family.isLower_letters
  | auxiliary kind => exact kind.isLower_name

theorem letters_ne_nil (v : Variable) : v.letters ≠ [] := by
  cases v with
  | numbered family index => exact family.letters_ne_nil
  | auxiliary kind => exact kind.toList_name_ne_nil

theorem isDigit_digits (v : Variable) : ∀ c ∈ v.digits, c.isDigit = true := by
  cases v with
  | numbered family index => exact fun c => Nat.isDigit_of_mem_toDigits (by decide) (by decide)
  | auxiliary kind => exact fun c hc => absurd hc List.not_mem_nil

/-- The letters of a name end where its digits begin. -/
theorem isLower_digits (v : Variable) : ∀ c ∈ v.digits.head?, c.isLower = false := by
  intro c hc
  exact isLower_of_isDigit (v.isDigit_digits c (List.mem_of_mem_head? hc))

/-- No two variables have one name. -/
theorem name_injective {first second : Variable} (h : first.name = second.name) :
    first = second := by
  have hlist := congrArg String.toList h
  rw [toList_name, toList_name] at hlist
  obtain ⟨hletters, hdigits⟩ := cut_at_unique Char.isLower first.isLower_letters
    second.isLower_letters first.isLower_digits second.isLower_digits hlist
  cases first with
  | numbered family index =>
      cases second with
      | numbered family' index' =>
          rw [Family.letters_injective hletters, toDigits_injective hdigits]
      | auxiliary kind => exact absurd hdigits Nat.toDigits_ne_nil
  | auxiliary kind =>
      cases second with
      | numbered family index => exact absurd hdigits.symm Nat.toDigits_ne_nil
      | auxiliary kind' => rw [Auxiliary.name_injective h]

end Variable

end Names

end DalvikHorn
