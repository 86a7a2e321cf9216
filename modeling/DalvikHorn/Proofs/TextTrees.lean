import DalvikHorn.Formula.Text
import DalvikHorn.Proofs.VariableNames

/-!
# Texts as trees

In the concrete form of SMT-LIB a text is a tree: it is a word, or it is an operator before its
operands in parentheses.  When words hold no blanks and no parentheses, the tree can be seen in its
text, also when more text follows.

* `TextTree.IsPlain` is this condition on the words of a tree.
* `TextTree.text_unique`: two plain trees that begin the same text are equal, and what follows them
  is too, as long as it does not go on with a word.
-/

namespace DalvikHorn

/-! ## Trees -/

/-- A word, or an operator before its operands. -/
inductive TextTree where
  | word (text : String)
  | group (operator : String) (operands : List TextTree)

mutual

/-- The text of a tree. -/
def TextTree.text : TextTree → String
  | .word text => text
  | .group operator operands => operatorText operator (TextTree.texts operands)

/-- The texts of a list of trees. -/
def TextTree.texts : List TextTree → List String
  | [] => []
  | tree :: rest => tree.text :: TextTree.texts rest

end

/-- Whether a character can stand in a word. -/
def standsInWords (c : Char) : Bool :=
  c != ' ' && c != '(' && c != ')'

/-- Characters of a kind stand in words when blanks and parentheses are not of that kind. -/
theorem standsInWords_of_kind {kind : Char → Bool}
    (hkind : [' ', '(', ')'].any kind = false) {c : Char} (h : kind c = true) :
    standsInWords c = true := by
  have hne : ∀ other ∈ [' ', '(', ')'], c ≠ other := by
    rintro other hother rfl
    exact List.any_eq_false.mp hkind c hother h
  simpa [standsInWords, and_assoc] using hne

/-- A text that is one word. -/
structure IsOneWord (text : String) : Prop where
  ne_nil : text.toList ≠ []
  stands : ∀ c ∈ text.toList, standsInWords c = true

instance (text : String) : Decidable (IsOneWord text) :=
  decidable_of_iff (text.toList ≠ [] ∧ text.toList.all standsInWords = true)
    ⟨fun ⟨hne, hall⟩ => ⟨hne, List.all_eq_true.mp hall⟩,
      fun h => ⟨h.ne_nil, List.all_eq_true.mpr h.stands⟩⟩

/-- A word ends before this text. -/
def EndsWords (rest : List Char) : Prop :=
  ∀ c ∈ rest.head?, standsInWords c = false

namespace TextTree

/-- A tree whose words and operators are words. -/
inductive IsPlain : TextTree → Prop
  | word {text : String} (h : IsOneWord text) : IsPlain (.word text)
  | group {operator : String} {operands : List TextTree} (h : IsOneWord operator)
      (hall : ∀ operand ∈ operands, operand.IsPlain) : IsPlain (.group operator operands)

/-! ## Texts -/

theorem texts_eq_map (trees : List TextTree) : texts trees = trees.map text := by
  induction trees with
  | nil => simp [texts]
  | cons tree rest ih => simp [texts, ih]

/-- Operands as they stand in a group, each after a blank. -/
def operandChars (operands : List TextTree) : List Char :=
  operands.flatMap fun operand => ' ' :: operand.text.toList

theorem toList_text_group (operator : String) (operands : List TextTree) :
    (group operator operands).text.toList =
      '(' :: (operator.toList ++ (operandChars operands ++ [')'])) := by
  simp [text, texts_eq_map, operatorText, operandChars, List.flatMap_map]

/-- After an operand there is another one, or the end of its group. -/
theorem endsWords_operandChars (operands : List TextTree) (rest : List Char) :
    EndsWords (operandChars operands ++ ')' :: rest) := by
  cases operands with
  | nil => simp [EndsWords, operandChars, standsInWords]
  | cons operand others => simp [EndsWords, operandChars, standsInWords]

/-! ## Trees are seen in their texts -/

/-- A tree that no other plain tree can be mistaken for at the beginning of a text. -/
def IsUnmistakable (tree : TextTree) : Prop :=
  ∀ other : TextTree, other.IsPlain → ∀ rest rest', EndsWords rest → EndsWords rest' →
    tree.text.toList ++ rest = other.text.toList ++ rest' → tree = other ∧ rest = rest'

/-- A word does not begin like a group. -/
theorem word_ne_group {word operator : String} (h : IsOneWord word) (operands : List TextTree)
    (rest rest' : List Char) :
    word.toList ++ rest ≠ (group operator operands).text.toList ++ rest' := by
  intro heq
  obtain ⟨first, others, hfirst⟩ := List.exists_cons_of_ne_nil h.ne_nil
  rw [hfirst, toList_text_group, List.cons_append, List.cons_append, List.cons.injEq] at heq
  have hstands := h.stands first (hfirst ▸ List.mem_cons_self)
  rw [heq.1] at hstands
  cases hstands

theorem operands_unique {operands others : List TextTree} {rest rest' : List Char}
    (hseen : ∀ operand ∈ operands, operand.IsUnmistakable)
    (hplain : ∀ other ∈ others, other.IsPlain)
    (h : operandChars operands ++ ')' :: rest = operandChars others ++ ')' :: rest') :
    operands = others ∧ rest = rest' := by
  induction operands generalizing others with
  | nil =>
      cases others with
      | nil => exact ⟨rfl, by simpa [operandChars] using h⟩
      | cons other others => simp [operandChars] at h
  | cons operand operands ih =>
      cases others with
      | nil => simp [operandChars] at h
      | cons other others =>
          obtain ⟨hoperand, hoperands⟩ := List.forall_mem_cons.mp hseen
          obtain ⟨hother, hothers⟩ := List.forall_mem_cons.mp hplain
          simp only [operandChars, List.flatMap_cons, List.cons_append, List.append_assoc,
            List.cons.injEq, true_and] at h
          obtain ⟨rfl, htail⟩ := hoperand other hother _ _ (endsWords_operandChars operands rest)
            (endsWords_operandChars others rest') h
          obtain ⟨rfl, hrest⟩ := ih hoperands hothers htail
          exact ⟨rfl, hrest⟩

/-- Plain trees cannot be mistaken for each other. -/
theorem IsPlain.isUnmistakable {tree : TextTree} (h : tree.IsPlain) : tree.IsUnmistakable := by
  induction h with
  | word hword =>
      intro other hother rest rest' hrest hrest' heq
      -- a word and a group start differently, so one is not read as the other
      cases hother with
      | word hword' =>
          obtain ⟨hsame, hrests⟩ :=
            cut_at_unique standsInWords hword.stands hword'.stands hrest hrest' heq
          exact ⟨congrArg TextTree.word (String.toList_inj.mp hsame), hrests⟩
      | group hoperator hall => exact absurd heq (word_ne_group hword _ _ _)
  | @group operator operands hoperator hall ih =>
      intro other hother rest rest' hrest hrest' heq
      cases hother with
      | word hword => exact absurd heq.symm (word_ne_group hword _ _ _)
      | @group operator' operands' hoperator' hall' =>
          simp only [toList_text_group, List.cons_append, List.append_assoc, List.cons.injEq,
            true_and, List.nil_append] at heq
          -- the operators end at the same place, and the operands are cut in one way
          obtain ⟨hsame, htail⟩ := cut_at_unique standsInWords hoperator.stands hoperator'.stands
            (endsWords_operandChars operands rest) (endsWords_operandChars operands' rest') heq
          obtain ⟨rfl, hrests⟩ := operands_unique ih hall' htail
          rw [String.toList_inj.mp hsame]
          exact ⟨rfl, hrests⟩

/-- Plain trees with one text are equal. -/
theorem text_unique {first second : TextTree} (hfirst : first.IsPlain) (hsecond : second.IsPlain)
    (h : first.text = second.text) : first = second := by
  have hend : EndsWords [] := by simp [EndsWords]
  exact (hfirst.isUnmistakable second hsecond [] [] hend hend (by rw [h])).1

end TextTree

end DalvikHorn
