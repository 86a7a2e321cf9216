import DalvikHorn.Error

/-!
# Properties of results

Handlers of instructions either give clauses or fail, and a failed handler is
replaced by a single clause that is the same for all of them, unless its error
ends the whole run.  So what has to be known about a handler is a property of its
results, and that its errors do not end the run.  `Yields outcome property` says
both, and a handler is proved step by step along its `do` block.
-/

namespace DalvikHorn

variable {α β : Type}

/-- Every result of a computation has a property, and no error of it ends the run. -/
structure Yields (outcome : Except Error α) (property : α → Prop) : Prop where
  result : ∀ result, outcome = .ok result → property result
  recovers : ∀ cause, outcome = .error cause → cause.fatal = false

namespace Yields

variable {property : α → Prop} {outcome : Except Error α}

theorem ok {result : α} (h : property result) : Yields (.ok result) property where
  result := by
    intro other heq
    cases heq
    exact h
  recovers := by
    intro cause heq
    cases heq

theorem pure {result : α} (h : property result) :
    Yields (Pure.pure result : Except Error α) property :=
  ok h

theorem error {cause : Error} (h : cause.fatal = false) :
    Yields (.error cause : Except Error α) property where
  result := by
    intro result heq
    cases heq
  recovers := by
    intro other heq
    cases heq
    exact h

theorem mono {weaker : α → Prop} (h : Yields outcome property)
    (himp : ∀ result, property result → weaker result) : Yields outcome weaker :=
  ⟨fun result heq => himp result (h.result result heq), h.recovers⟩

/-- The result itself is all that is said about a computation. -/
theorem self (h : Yields outcome property) : Yields outcome fun result => outcome = .ok result :=
  ⟨fun _ heq => heq, h.recovers⟩

theorem bind {after : β → Prop} {next : α → Except Error β} (h : Yields outcome property)
    (hnext : ∀ result, property result → Yields (next result) after) :
    Yields (outcome >>= next) after := by
  cases houtcome : outcome with
  | error cause => exact error (h.recovers cause houtcome)
  | ok result => exact hnext result (h.result result houtcome)

theorem map {after : β → Prop} {f : α → β}
    (h : Yields outcome fun result => after (f result)) : Yields (outcome.map f) after := by
  cases houtcome : outcome with
  | error cause => exact error (h.recovers cause houtcome)
  | ok result => exact ok (h.result result houtcome)

/-- A computation whose errors are all passed on as errors that do not end the run. -/
theorem mapError {ε : Type} {outcome : Except ε α} {f : ε → Error}
    (h : ∀ cause, (f cause).fatal = false) :
    Yields (outcome.mapError f) fun result => outcome = .ok result := by
  cases outcome with
  | error cause => exact error (h cause)
  | ok result => exact ok rfl

/-! ## Lists -/

/-- A property of the results of all elements is one of the list of results. -/
theorem mapM {element : β → Prop} {f : α → Except Error β} {items : List α}
    (h : ∀ item ∈ items, Yields (f item) element) :
    Yields (items.mapM f) fun results => ∀ result ∈ results, element result := by
  induction items with
  | nil => exact pure (by simp)
  | cons item rest ih =>
      rw [List.mapM_cons]
      refine bind (h item List.mem_cons_self) fun first hfirst => ?_
      refine bind (ih fun other hother => h other (List.mem_cons_of_mem _ hother)) ?_
      intro others hothers
      refine pure fun result hresult => ?_
      rcases List.mem_cons.mp hresult with rfl | hresult
      · exact hfirst
      · exact hothers result hresult

/-- The results of the elements of a list, flattened. -/
theorem mapM_flatten {element : β → Prop} {f : α → Except Error (List β)} {items : List α}
    (h : ∀ item ∈ items, Yields (f item) fun results => ∀ result ∈ results, element result) :
    Yields (items.mapM f) fun results => ∀ result ∈ results.flatten, element result := by
  refine (mapM h).mono fun results hresults result hresult => ?_
  obtain ⟨inner, hinner, hmem⟩ := List.mem_flatten.mp hresult
  exact hresults inner hinner result hmem

/-- An invariant of every step is one of the whole run. -/
theorem foldlM {invariant : β → Prop} {f : β → α → Except Error β} {items : List α} {start : β}
    (hstart : invariant start)
    (hstep : ∀ item ∈ items, ∀ state, invariant state → Yields (f state item) invariant) :
    Yields (items.foldlM f start) invariant := by
  induction items generalizing start with
  | nil => exact pure hstart
  | cons item rest ih =>
      rw [List.foldlM_cons]
      refine bind (hstep item List.mem_cons_self start hstart) fun next hnext => ?_
      exact ih hnext fun other hother => hstep other (List.mem_cons_of_mem _ hother)

end Yields

/-- A sequence of computations gives a result when both of its parts do. -/
theorem bind_eq_ok_iff {ε : Type} {outcome : Except ε α} {next : α → Except ε β} {result : β} :
    (outcome >>= next) = .ok result ↔ ∃ first, outcome = .ok first ∧ next first = .ok result := by
  cases outcome with
  | error cause => simp [Bind.bind, Except.bind]
  | ok first => simp [Bind.bind, Except.bind]

/-- A computation that has been run gives a result, of which all holds that has been checked. -/
theorem exists_ok_of_any {ε : Type} {outcome : Except ε α} {property : α → Prop}
    [DecidablePred property]
    (h : (outcome.toOption.any fun result => decide (property result)) = true) :
    ∃ result, outcome = .ok result ∧ property result := by
  cases outcome with
  | error cause => cases h
  | ok result => exact ⟨result, rfl, of_decide_eq_true h⟩

/-- A list of computations that all give a result gives them all. -/
theorem exists_mapM_eq_ok {f : α → Except Error β} {items : List α}
    (h : ∀ item ∈ items, ∃ result, f item = .ok result) :
    ∃ results, items.mapM f = .ok results ∧
      ∀ item ∈ items, ∃ result ∈ results, f item = .ok result := by
  induction items with
  | nil => exact ⟨[], rfl, by simp⟩
  | cons item rest ih =>
      obtain ⟨first, hfirst⟩ := h item List.mem_cons_self
      obtain ⟨others, hothers, hmem⟩ :=
        ih fun other hother => h other (List.mem_cons_of_mem _ hother)
      refine ⟨first :: others, by rw [List.mapM_cons, hfirst, hothers]; rfl, ?_⟩
      refine List.forall_mem_cons.mpr ⟨⟨first, List.mem_cons_self, hfirst⟩, fun other hother => ?_⟩
      obtain ⟨result, hresult, heq⟩ := hmem other hother
      exact ⟨result, List.mem_cons_of_mem _ hresult, heq⟩

/-- A list is mapped to results when all its elements have one. -/
theorem mapM_eq_some_of_map_eq {f : α → Option β} {items : List α} {results : List β}
    (h : items.map f = results.map some) : items.mapM f = some results := by
  induction items generalizing results with
  | nil =>
      cases results with
      | nil => rfl
      | cons result rest => cases h
  | cons item rest ih =>
      cases results with
      | nil => cases h
      | cons result others =>
          rw [List.map_cons, List.map_cons, List.cons.injEq] at h
          rw [List.mapM_cons, h.1, ih h.2]
          rfl

/-- A list of computations gives the results of its elements, one by one. -/
theorem mapM_eq_ok_iff {ε : Type} {f : α → Except ε β} {items : List α} {results : List β} :
    items.mapM f = .ok results ↔ items.map f = results.map .ok := by
  induction items generalizing results with
  | nil =>
      cases results with
      | nil => simp [Pure.pure, Except.pure]
      | cons result rest => simp [Pure.pure, Except.pure]
  | cons item rest ih =>
      rw [List.mapM_cons, List.map_cons]
      -- the first failure ends the map, and behind a value it goes on
      cases hfirst : f item with
      | error cause => cases results <;> simp [Bind.bind, Except.bind]
      | ok first =>
          cases hrest : rest.mapM f with
          | error cause =>
              -- without a failure the rest would have had its results
              have hne : ∀ others, rest.map f ≠ List.map .ok others := by
                intro others heq
                rw [ih.mpr heq] at hrest
                cases hrest
              cases results with
              | nil => simp [Bind.bind, Except.bind]
              | cons result others => simp [Bind.bind, Except.bind, hne]
          | ok others =>
              have hothers : rest.map f = others.map .ok := ih.mp hrest
              cases results with
              | nil => simp [Bind.bind, Except.bind, Pure.pure, Except.pure]
              | cons result tail =>
                  have hinj : ∀ left right : List β,
                      left.map (Except.ok (ε := ε)) = right.map .ok ↔ left = right :=
                    fun left right => List.map_inj_right fun _ _ => Except.ok.inj
                  simp [Bind.bind, Except.bind, Pure.pure, Except.pure, hothers, hinj]

end DalvikHorn
