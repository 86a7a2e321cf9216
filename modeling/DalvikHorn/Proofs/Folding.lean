import DalvikHorn.Formula.Eval

/-!
# Folding constructors

The folding constructors choose a node by looking at the shape of their parts.
Two kinds of facts make that choice invisible.

* **Closure.**  A property that a conjunction has exactly when all its parts have
  it passes from the parts to their folded conjunction (`Formula.all_of_parts`),
  and likewise for disjunction, negation and selection.  A property that a
  disjunction has exactly when one of its parts has it is decided by the parts of
  a folded disjunction as well (`Formula.any_iff_exists`).
* **Meaning.**  A folded formula has the three-valued truth value of the raw node
  over the same parts (`Formula.eval_all` and its companions).
-/

namespace DalvikHorn

/-! ## Closure -/

namespace Formula

variable {property : Formula → Prop}

/-- What is left of a conjunction consists of its parts and of the parts of inner
conjunctions. -/
theorem mem_conjuncts? {parts kept : List Formula} (hkept : conjuncts? parts = some kept)
    {formula : Formula} (hmem : formula ∈ kept) :
    formula ∈ parts ∨ ∃ inner, .and inner ∈ parts ∧ formula ∈ inner := by
  fun_induction conjuncts? parts generalizing kept with
  | case1 => cases hkept; cases hmem
  | case2 rest ih =>
      -- a constant that decides nothing is dropped
      rcases ih hkept hmem with h | ⟨inner, hinner, h⟩
      · exact .inl (List.mem_cons_of_mem _ h)
      · exact .inr ⟨inner, List.mem_cons_of_mem _ hinner, h⟩
  | case3 => cases hkept
  | case4 inner rest ih =>
      -- a nested conjunction is replaced by its parts
      obtain ⟨tail, htail, rfl⟩ := Option.map_eq_some_iff.mp hkept
      rcases List.mem_append.mp hmem with h | h
      · exact .inr ⟨inner, List.mem_cons_self, h⟩
      · rcases ih htail h with h | ⟨other, hother, h⟩
        · exact .inl (List.mem_cons_of_mem _ h)
        · exact .inr ⟨other, List.mem_cons_of_mem _ hother, h⟩
  | case5 part rest _ _ _ ih =>
      obtain ⟨tail, htail, rfl⟩ := Option.map_eq_some_iff.mp hkept
      rcases List.mem_cons.mp hmem with rfl | h
      · exact .inl List.mem_cons_self
      · rcases ih htail h with h | ⟨other, hother, h⟩
        · exact .inl (List.mem_cons_of_mem _ h)
        · exact .inr ⟨other, List.mem_cons_of_mem _ hother, h⟩

/-- What is left of a disjunction consists of its parts and of the parts of inner
disjunctions. -/
theorem mem_disjuncts? {parts kept : List Formula} (hkept : disjuncts? parts = some kept)
    {formula : Formula} (hmem : formula ∈ kept) :
    formula ∈ parts ∨ ∃ inner, .or inner ∈ parts ∧ formula ∈ inner := by
  fun_induction disjuncts? parts generalizing kept with
  | case1 => cases hkept; cases hmem
  | case2 rest ih =>
      -- a constant that decides nothing is dropped
      rcases ih hkept hmem with h | ⟨inner, hinner, h⟩
      · exact .inl (List.mem_cons_of_mem _ h)
      · exact .inr ⟨inner, List.mem_cons_of_mem _ hinner, h⟩
  | case3 => cases hkept
  | case4 inner rest ih =>
      -- a nested disjunction is replaced by its parts
      obtain ⟨tail, htail, rfl⟩ := Option.map_eq_some_iff.mp hkept
      rcases List.mem_append.mp hmem with h | h
      · exact .inr ⟨inner, List.mem_cons_self, h⟩
      · rcases ih htail h with h | ⟨other, hother, h⟩
        · exact .inl (List.mem_cons_of_mem _ h)
        · exact .inr ⟨other, List.mem_cons_of_mem _ hother, h⟩
  | case5 part rest _ _ _ ih =>
      obtain ⟨tail, htail, rfl⟩ := Option.map_eq_some_iff.mp hkept
      rcases List.mem_cons.mp hmem with rfl | h
      · exact .inl List.mem_cons_self
      · rcases ih htail h with h | ⟨other, hother, h⟩
        · exact .inl (List.mem_cons_of_mem _ h)
        · exact .inr ⟨other, List.mem_cons_of_mem _ hother, h⟩

/-- A property that conjunctions inherit from their parts passes to folded conjunctions. -/
theorem all_of_parts (hconst : ∀ value, property (.const value))
    (hand : ∀ parts, property (.and parts) ↔ ∀ part ∈ parts, property part)
    {parts : List Formula} (hparts : ∀ part ∈ parts, property part) : property (all parts) := by
  have hkept : ∀ kept, conjuncts? parts = some kept → ∀ formula ∈ kept, property formula := by
    intro kept hkept formula hmem
    rcases mem_conjuncts? hkept hmem with h | ⟨inner, hinner, h⟩
    · exact hparts formula h
    · exact (hand inner).mp (hparts _ hinner) formula h
  unfold all
  split
  · exact hconst false
  · exact hconst true
  · exact hkept _ (by assumption) _ List.mem_cons_self
  · exact (hand _).mpr (hkept _ (by assumption))

/-- A property that disjunctions inherit from their parts passes to folded disjunctions. -/
theorem any_of_parts (hconst : ∀ value, property (.const value))
    (hor : ∀ parts, property (.or parts) ↔ ∀ part ∈ parts, property part)
    {parts : List Formula} (hparts : ∀ part ∈ parts, property part) : property (any parts) := by
  have hkept : ∀ kept, disjuncts? parts = some kept → ∀ formula ∈ kept, property formula := by
    intro kept hkept formula hmem
    rcases mem_disjuncts? hkept hmem with h | ⟨inner, hinner, h⟩
    · exact hparts formula h
    · exact (hor inner).mp (hparts _ hinner) formula h
  unfold any
  split
  · exact hconst true
  · exact hconst false
  · exact hkept _ (by assumption) _ List.mem_cons_self
  · exact (hor _).mpr (hkept _ (by assumption))

/-- A property that a disjunction has when one of its parts has it is not lost when neutral parts
are dropped. -/
theorem exists_disjuncts?_iff (htrue : property (.const true)) (hfalse : ¬ property (.const false))
    (hor : ∀ parts, property (.or parts) ↔ ∃ part ∈ parts, property part) (parts : List Formula) :
    (∃ part ∈ parts, property part) ↔
      match disjuncts? parts with
      | none => True
      | some kept => ∃ part ∈ kept, property part := by
  fun_induction disjuncts? parts with
  | case1 => simp
  | case2 rest ih => simpa [hfalse] using ih
  | case3 => simp [htrue]
  | case4 inner rest ih =>
      simp only [List.mem_cons, or_and_right, exists_or, exists_eq_left, hor, ih]
      cases disjuncts? rest with
      | none => simp
      | some kept => simp [or_and_right, exists_or]
  | case5 part rest _ _ _ ih =>
      simp only [List.mem_cons, or_and_right, exists_or, exists_eq_left, ih]
      cases disjuncts? rest with
      | none => simp
      | some kept => simp

/-- A property that a disjunction has exactly when one of its parts has it is one that a folded
disjunction has exactly then. -/
theorem any_iff_exists (htrue : property (.const true)) (hfalse : ¬ property (.const false))
    (hor : ∀ parts, property (.or parts) ↔ ∃ part ∈ parts, property part) (parts : List Formula) :
    property (any parts) ↔ ∃ part ∈ parts, property part := by
  rw [exists_disjuncts?_iff htrue hfalse hor parts]
  unfold any
  split
  · rename_i hnone
    simpa [hnone] using htrue
  · rename_i hempty
    simpa [hempty] using hfalse
  · rename_i part hsingle
    simp [hsingle]
  · rename_i kept _ _ hkept
    rw [hkept]
    exact hor kept

/-- A property that negations share with what they negate passes to folded negations. -/
theorem negate_of_inner (hconst : ∀ value, property (.const value))
    (hnot : ∀ inner, property (.not inner) ↔ property inner) {inner : Formula}
    (hinner : property inner) : property inner.negate := by
  unfold negate
  split
  · exact hconst _
  · exact (hnot _).mp hinner
  · exact (hnot _).mpr hinner

end Formula

/-- A property of both branches and of their choice is one of a folded choice. -/
theorem BvExpr.select_of_branches {property : BvExpr → Prop} {condition : Formula}
    {yes no : BvExpr} (hyes : property yes) (hno : property no)
    (hite : property (.ite condition yes no)) : property (select condition yes no) := by
  unfold select
  split
  · exact hyes
  · exact hno
  · exact hite

/-! ## Kleene connectives -/

@[simp] theorem kleeneAnd_true (value : Option Bool) : kleeneAnd value (some true) = value := by
  rcases value with _ | _ | _ <;> rfl

@[simp] theorem kleeneAnd_false (value : Option Bool) :
    kleeneAnd value (some false) = some false := by
  rcases value with _ | _ | _ <;> rfl

@[simp] theorem true_kleeneAnd (value : Option Bool) : kleeneAnd (some true) value = value := rfl

@[simp] theorem false_kleeneAnd (value : Option Bool) :
    kleeneAnd (some false) value = some false := rfl

@[simp] theorem kleeneOr_false (value : Option Bool) : kleeneOr value (some false) = value := by
  rcases value with _ | _ | _ <;> rfl

@[simp] theorem kleeneOr_true (value : Option Bool) : kleeneOr value (some true) = some true := by
  rcases value with _ | _ | _ <;> rfl

@[simp] theorem false_kleeneOr (value : Option Bool) : kleeneOr (some false) value = value := rfl

@[simp] theorem true_kleeneOr (value : Option Bool) : kleeneOr (some true) value = some true :=
  rfl

theorem kleeneAnd_assoc (a b c : Option Bool) :
    kleeneAnd (kleeneAnd a b) c = kleeneAnd a (kleeneAnd b c) := by
  rcases a with _ | _ | _ <;> rcases b with _ | _ | _ <;> rcases c with _ | _ | _ <;> rfl

theorem kleeneOr_assoc (a b c : Option Bool) :
    kleeneOr (kleeneOr a b) c = kleeneOr a (kleeneOr b c) := by
  rcases a with _ | _ | _ <;> rcases b with _ | _ | _ <;> rcases c with _ | _ | _ <;> rfl

theorem kleeneAnd_eq_true_iff {a b : Option Bool} :
    kleeneAnd a b = some true ↔ a = some true ∧ b = some true := by
  rcases a with _ | _ | _ <;> rcases b with _ | _ | _ <;> simp [kleeneAnd]

theorem kleeneOr_eq_true_iff {a b : Option Bool} :
    kleeneOr a b = some true ↔ a = some true ∨ b = some true := by
  rcases a with _ | _ | _ <;> rcases b with _ | _ | _ <;> simp [kleeneOr]

theorem kleeneAnd_eq_false_iff {a b : Option Bool} :
    kleeneAnd a b = some false ↔ a = some false ∨ b = some false := by
  rcases a with _ | _ | _ <;> rcases b with _ | _ | _ <;> simp [kleeneAnd]

theorem kleeneOr_eq_false_iff {a b : Option Bool} :
    kleeneOr a b = some false ↔ a = some false ∧ b = some false := by
  rcases a with _ | _ | _ <;> rcases b with _ | _ | _ <;> simp [kleeneOr]

/-! ## Meaning -/

attribute [local simp] Formula.eval Formula.evalAll Formula.evalAny BvExpr.eval

namespace Formula

variable (env : Valuation)

theorem evalAll_append (first second : List Formula) :
    evalAll env (first ++ second) = kleeneAnd (evalAll env first) (evalAll env second) := by
  induction first with
  | nil => simp
  | cons part rest ih => simp [ih, kleeneAnd_assoc]

theorem evalAny_append (first second : List Formula) :
    evalAny env (first ++ second) = kleeneOr (evalAny env first) (evalAny env second) := by
  induction first with
  | nil => simp
  | cons part rest ih => simp [ih, kleeneOr_assoc]

theorem evalAll_eq_false_iff (parts : List Formula) :
    evalAll env parts = some false ↔ ∃ part ∈ parts, part.eval env = some false := by
  induction parts with
  | nil => simp
  | cons part rest ih => simp [kleeneAnd_eq_false_iff, ih]

theorem evalAny_eq_false_iff (parts : List Formula) :
    evalAny env parts = some false ↔ ∀ part ∈ parts, part.eval env = some false := by
  induction parts with
  | nil => simp
  | cons part rest ih => simp [kleeneOr_eq_false_iff, ih]

theorem evalAll_conjuncts? (parts : List Formula) :
    evalAll env parts =
      match conjuncts? parts with
      | none => some false
      | some kept => evalAll env kept := by
  fun_induction conjuncts? parts with
  | case1 => rfl
  | case2 rest ih => simpa using ih
  | case3 => simp
  | case4 inner rest ih =>
      rw [evalAll, eval, ih]
      cases conjuncts? rest with
      | none => simp
      | some kept => simp [evalAll_append]
  | case5 part rest _ _ _ ih =>
      rw [evalAll, ih]
      cases conjuncts? rest with
      | none => simp
      | some kept => simp

theorem evalAny_disjuncts? (parts : List Formula) :
    evalAny env parts =
      match disjuncts? parts with
      | none => some true
      | some kept => evalAny env kept := by
  fun_induction disjuncts? parts with
  | case1 => rfl
  | case2 rest ih => simpa using ih
  | case3 => simp
  | case4 inner rest ih =>
      rw [evalAny, eval, ih]
      cases disjuncts? rest with
      | none => simp
      | some kept => simp [evalAny_append]
  | case5 part rest _ _ _ ih =>
      rw [evalAny, ih]
      cases disjuncts? rest with
      | none => simp
      | some kept => simp

/-- A folded conjunction means the conjunction of its parts. -/
theorem eval_all (parts : List Formula) : (all parts).eval env = evalAll env parts := by
  rw [evalAll_conjuncts?]
  unfold all
  split <;> simp_all

/-- A folded disjunction means the disjunction of its parts. -/
theorem eval_any (parts : List Formula) : (any parts).eval env = evalAny env parts := by
  rw [evalAny_disjuncts?]
  unfold any
  split <;> simp_all

@[simp] theorem eval_both (left right : Formula) :
    (left.both right).eval env = kleeneAnd (left.eval env) (right.eval env) := by
  simp [both, eval_all]

@[simp] theorem eval_either (left right : Formula) :
    (left.either right).eval env = kleeneOr (left.eval env) (right.eval env) := by
  simp [either, eval_any]

/-- A formula that has been folded to `false` is false under every valuation. -/
theorem eval_of_isFalse {formula : Formula} (h : formula.isFalse = true) :
    formula.eval env = some false := by
  unfold isFalse at h
  split at h
  · rw [eval]
    simpa using h
  · cases h

/-- A folded negation means the negation. -/
@[simp] theorem eval_negate (formula : Formula) :
    formula.negate.eval env = (formula.eval env).map (!·) := by
  unfold negate
  split
  · simp
  · simp only [eval, Option.map_map]
    rw [show (fun value : Bool => !value) ∘ (fun value => !value) = id by
      funext value; simp, Option.map_id_fun, id]
  · simp

end Formula

/-- A folded choice means the choice. -/
theorem BvExpr.eval_select (env : Valuation) (condition : Formula) (yes no : BvExpr) :
    (select condition yes no).eval env = (BvExpr.ite condition yes no).eval env := by
  unfold select
  split <;> simp

end DalvikHorn
