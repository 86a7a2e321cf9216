import Mathlib.Order.Bounds.Basic
import Mathlib.Order.MinMax

/-!
# Edits of texts

The edit distance of two texts has a recursion on the first characters of both
(`recursiveDistance`).  It is the least number of single edits that lead from one text to
the other: `isLeast_recursiveDistance`.  All its laws come from there, since edits can be
undone, done one after the other, and done in a text that is read backwards:

| edits | distance |
| --- | --- |
| none | `recursiveDistance_eq_zero_iff` |
| undone | `recursiveDistance_comm` |
| one after the other | `recursiveDistance_triangle` |
| backwards | `recursiveDistance_concat_concat` |

The last one is the recursion on the last characters, which the table of distances between
beginnings of texts follows.

## Strategy

The recursion tells which edits to make, so the distance is not too small.  It is not too
large because one edit of a text changes the distance to any other text by at most one
(`IsEdit.recursiveDistance_le`).
-/

namespace DalvikHorn

/-! ## The distance by recursion -/

/-- The edit distance by recursion on the first characters: the one of the first text is deleted,
the one of the second is inserted, or the one becomes the other, which costs nothing when they
are equal. -/
def recursiveDistance : List Char → List Char → Nat
  | [], target => target.length
  | source, [] => source.length
  | c :: source, d :: target =>
      min (min (recursiveDistance source (d :: target) + 1)
          (recursiveDistance (c :: source) target + 1))
        (recursiveDistance source target + if c = d then 0 else 1)
termination_by source target => source.length + target.length

@[simp] theorem recursiveDistance_nil_left (target : List Char) :
    recursiveDistance [] target = target.length := by
  rw [recursiveDistance]

@[simp] theorem recursiveDistance_nil_right (source : List Char) :
    recursiveDistance source [] = source.length := by
  cases source with
  | nil => rw [recursiveDistance]
  | cons c source => rw [recursiveDistance]; simp

theorem recursiveDistance_cons_cons (c d : Char) (source target : List Char) :
    recursiveDistance (c :: source) (d :: target) =
      min (min (recursiveDistance source (d :: target) + 1)
          (recursiveDistance (c :: source) target + 1))
        (recursiveDistance source target + if c = d then 0 else 1) := by
  rw [recursiveDistance]

@[simp] theorem recursiveDistance_self (text : List Char) : recursiveDistance text text = 0 := by
  induction text with
  | nil => simp
  | cons c text ih => simp [recursiveDistance_cons_cons, ih]

/-! ## Single edits -/

/-- A character is inserted, deleted or substituted. -/
inductive IsEdit : List Char → List Char → Prop
  | insert (before after : List Char) (c : Char) : IsEdit (before ++ after) (before ++ c :: after)
  | delete (before after : List Char) (c : Char) : IsEdit (before ++ c :: after) (before ++ after)
  | substitute (before after : List Char) (c d : Char) :
      IsEdit (before ++ c :: after) (before ++ d :: after)

namespace IsEdit

variable {source target : List Char}

theorem symm (h : IsEdit source target) : IsEdit target source := by
  cases h with
  | insert before after c => exact .delete before after c
  | delete before after c => exact .insert before after c
  | substitute before after c d => exact .substitute before after d c

theorem cons (c : Char) (h : IsEdit source target) : IsEdit (c :: source) (c :: target) := by
  cases h with
  | insert before after d => exact .insert (c :: before) after d
  | delete before after d => exact .delete (c :: before) after d
  | substitute before after d e => exact .substitute (c :: before) after d e

theorem reverse (h : IsEdit source target) : IsEdit source.reverse target.reverse := by
  cases h with
  | insert before after c => simpa using insert after.reverse before.reverse c
  | delete before after c => simpa using delete after.reverse before.reverse c
  | substitute before after c d => simpa using substitute after.reverse before.reverse c d

end IsEdit

/-! ## Edits one after the other -/

/-- A number of edits leads from one text to another. -/
inductive EditsIn : Nat → List Char → List Char → Prop
  | refl (text : List Char) : EditsIn 0 text text
  | step {count : Nat} {first second third : List Char} :
      IsEdit first second → EditsIn count second third → EditsIn (count + 1) first third

namespace EditsIn

variable {count further : Nat} {first second third : List Char}

theorem trans (h : EditsIn count first second) (hnext : EditsIn further second third) :
    EditsIn (count + further) first third := by
  induction h with
  | refl => simpa using hnext
  | step hedit _ ih => exact Nat.add_right_comm _ _ _ ▸ step hedit (ih hnext)

theorem symm (h : EditsIn count first second) : EditsIn count second first := by
  induction h with
  | refl text => exact refl text
  | step hedit _ ih => exact ih.trans (step hedit.symm (refl _))

/-- Edits stay edits under a map that keeps single ones. -/
theorem map (f : List Char → List Char)
    (hf : ∀ source target, IsEdit source target → IsEdit (f source) (f target))
    (h : EditsIn count first second) : EditsIn count (f first) (f second) := by
  induction h with
  | refl text => exact refl (f text)
  | step hedit _ ih => exact step (hf _ _ hedit) ih

theorem cons (c : Char) (h : EditsIn count first second) :
    EditsIn count (c :: first) (c :: second) :=
  h.map (c :: ·) fun _ _ => .cons c

theorem reverse (h : EditsIn count first second) : EditsIn count first.reverse second.reverse :=
  h.map List.reverse fun _ _ => .reverse

theorem insertAll (text : List Char) : EditsIn text.length [] text := by
  induction text with
  | nil => exact refl []
  | cons c text ih => exact step (.insert [] [] c) (ih.cons c)

theorem min (h : EditsIn count first second) (hother : EditsIn further first second) :
    EditsIn (min count further) first second := by
  rcases min_choice count further with heq | heq <;> rw [heq]
  · exact h
  · exact hother

/-- The recursion tells which edits to make. -/
theorem of_recursiveDistance (source target : List Char) :
    EditsIn (recursiveDistance source target) source target := by
  fun_induction recursiveDistance source target with
  | case1 target => exact insertAll target
  | case2 source => exact (insertAll source).symm
  | case3 c source d target ihDelete ihInsert ihReplace =>
      -- Each of the three ways is a sequence of edits, so the cheapest is one.
      have hreplace : EditsIn (recursiveDistance source target + if c = d then 0 else 1)
          (c :: source) (d :: target) := by
        by_cases heq : c = d
        · subst heq
          simpa using ihReplace.cons c
        · simpa [heq] using step (.substitute [] source c d) (ihReplace.cons d)
      have hdelete := step (.delete [] source c) ihDelete
      have hinsert := ihInsert.trans (step (.insert [] target d) (refl _))
      exact (hdelete.min hinsert).min hreplace

end EditsIn

/-! ## One edit changes the distance by at most one -/

theorem recursiveDistance_cons_left_le (c : Char) (source target : List Char) :
    recursiveDistance (c :: source) target ≤ recursiveDistance source target + 1 := by
  cases target with
  | nil => simp
  | cons d target => rw [recursiveDistance_cons_cons]; omega

theorem recursiveDistance_cons_right_le (d : Char) (source target : List Char) :
    recursiveDistance source (d :: target) ≤ recursiveDistance source target + 1 := by
  cases source with
  | nil => simp
  | cons c source => rw [recursiveDistance_cons_cons]; omega

theorem recursiveDistance_le_cons_left (c : Char) (source target : List Char) :
    recursiveDistance source target ≤ recursiveDistance (c :: source) target + 1 := by
  induction target with
  | nil =>
      rw [recursiveDistance_nil_right, recursiveDistance_nil_right, List.length_cons]
      omega
  | cons d target ih =>
      -- Deleting `c` gives the bound at once.  The other two ways leave `target`, and `d` is
      -- inserted after them.
      have hinsert := recursiveDistance_cons_right_le d source target
      rw [recursiveDistance_cons_cons]
      omega

theorem recursiveDistance_substitute_le (c d : Char) (source target : List Char) :
    recursiveDistance (c :: source) target ≤ recursiveDistance (d :: source) target + 1 := by
  induction target with
  | nil => simp
  | cons e target ih =>
      have hcost : (if c = e then 0 else 1) ≤ 1 := by split <;> omega
      rw [recursiveDistance_cons_cons, recursiveDistance_cons_cons]
      omega

theorem recursiveDistance_cons_le_of_forall {first second : List Char} (c : Char)
    (h : ∀ target, recursiveDistance first target ≤ recursiveDistance second target + 1)
    (target : List Char) :
    recursiveDistance (c :: first) target ≤ recursiveDistance (c :: second) target + 1 := by
  induction target with
  | nil => simpa using h []
  | cons d target ih =>
      have hdelete := h (d :: target)
      have hreplace := h target
      rw [recursiveDistance_cons_cons, recursiveDistance_cons_cons]
      omega

/-- What an edit does to the distance is decided at the place of the edit. -/
theorem recursiveDistance_append_le_of_forall {first second : List Char} (before : List Char)
    (h : ∀ target, recursiveDistance first target ≤ recursiveDistance second target + 1)
    (target : List Char) :
    recursiveDistance (before ++ first) target ≤
      recursiveDistance (before ++ second) target + 1 := by
  induction before generalizing target with
  | nil => exact h target
  | cons c before ih => exact recursiveDistance_cons_le_of_forall c ih target

theorem IsEdit.recursiveDistance_le {first second : List Char} (h : IsEdit first second) :
    ∀ target, recursiveDistance first target ≤ recursiveDistance second target + 1 := by
  cases h with
  | insert before after c =>
      exact recursiveDistance_append_le_of_forall before
        (recursiveDistance_le_cons_left c after)
  | delete before after c =>
      exact recursiveDistance_append_le_of_forall before
        (recursiveDistance_cons_left_le c after)
  | substitute before after c d =>
      exact recursiveDistance_append_le_of_forall before
        (recursiveDistance_substitute_le c d after)

theorem EditsIn.recursiveDistance_le {count : Nat} {first second : List Char}
    (h : EditsIn count first second) : recursiveDistance first second ≤ count := by
  induction h with
  | refl text => simp
  | step hedit _ ih => exact (hedit.recursiveDistance_le _).trans (Nat.succ_le_succ ih)

/-! ## The least number of edits -/

/-- The recursion counts the fewest edits that lead from one text to the other. -/
theorem isLeast_recursiveDistance (source target : List Char) :
    IsLeast {count | EditsIn count source target} (recursiveDistance source target) :=
  ⟨.of_recursiveDistance source target, fun _ h => h.recursiveDistance_le⟩

theorem recursiveDistance_eq_zero_iff {source target : List Char} :
    recursiveDistance source target = 0 ↔ source = target := by
  constructor
  · intro h
    have hedits := EditsIn.of_recursiveDistance source target
    rw [h] at hedits
    cases hedits
    rfl
  · rintro rfl
    exact recursiveDistance_self source

theorem recursiveDistance_comm (source target : List Char) :
    recursiveDistance source target = recursiveDistance target source :=
  le_antisymm (EditsIn.of_recursiveDistance target source).symm.recursiveDistance_le
    (EditsIn.of_recursiveDistance source target).symm.recursiveDistance_le

theorem recursiveDistance_triangle (first second third : List Char) :
    recursiveDistance first third ≤
      recursiveDistance first second + recursiveDistance second third :=
  ((EditsIn.of_recursiveDistance first second).trans
    (EditsIn.of_recursiveDistance second third)).recursiveDistance_le

theorem recursiveDistance_reverse (source target : List Char) :
    recursiveDistance source.reverse target.reverse = recursiveDistance source target := by
  apply le_antisymm
  · exact (EditsIn.of_recursiveDistance source target).reverse.recursiveDistance_le
  · have h := (EditsIn.of_recursiveDistance source.reverse target.reverse).reverse
    simpa using h.recursiveDistance_le

/-- The recursion on the last characters. -/
theorem recursiveDistance_concat_concat (c d : Char) (source target : List Char) :
    recursiveDistance (source ++ [c]) (target ++ [d]) =
      min (min (recursiveDistance source (target ++ [d]) + 1)
          (recursiveDistance (source ++ [c]) target + 1))
        (recursiveDistance source target + if c = d then 0 else 1) := by
  have h := recursiveDistance_cons_cons c d source.reverse target.reverse
  rw [← List.reverse_concat, ← List.reverse_concat] at h
  simpa only [recursiveDistance_reverse] using h

end DalvikHorn
