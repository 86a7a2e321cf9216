import DalvikHorn.Config.Yaml
import DalvikHorn.Proofs.Edits
import Mathlib.Data.List.Induction

/-!
# The field that an unknown one is nearest to

A file that overrides a field that there is not is rejected, and the error names the field
that was probably meant: the first of those with the least edit distance to the unknown one
(`suggested_field_is_nearest`).

The distance is computed in two rows that take turns.  What is written over in a row never
matters: a cell only looks at the row above and at the cell to its left, which has been
written before.  So the invariant speaks of the complete row alone (`IsRow`), and of the
current one as far as it is filled.

| rows | complete row holds the distances of |
| --- | --- |
| `start` | the empty text |
| `advance` | the text before, and one more character |
| `read` | the whole text |
-/

namespace DalvikHorn

/-! ## Rows of distances -/

namespace DistanceRows

variable {target : Array Char}

/-- A row holds the distances of a text to the beginnings of the target. -/
def IsRow (source : List Char) (row : Vector Nat (target.size + 1)) : Prop :=
  ∀ column (h : column < target.size + 1),
    row[column] = recursiveDistance source (target.toList.take column)

theorem isRow_start : IsRow [] (start target).above := by
  intro column h
  have hlength : column ≤ target.toList.length := by
    rw [Array.length_toList]
    omega
  simp [start, List.length_take_of_le hlength]

variable (rows : DistanceRows target)

@[simp] theorem above_fillTo (row : Nat) (c : Char) (column : Nat) (h : column ≤ target.size) :
    (rows.fillTo row c column h).above = rows.above := by
  induction column with
  | zero => rfl
  | succ column ih => exact ih _

variable {rows}

/-- The current row is right as far as it is filled, whatever was in it. -/
theorem current_fillTo {source : List Char} (habove : IsRow source rows.above) (c : Char)
    {column : Nat} (h : column ≤ target.size) {earlier : Nat} (hearlier : earlier ≤ column) :
    (rows.fillTo source.length c column h).current[earlier] =
      recursiveDistance (source ++ [c]) (target.toList.take earlier) := by
  -- The cells up to `column` are those of the new row by `ih`, and the row above is kept.  What
  -- stands to the right of them is left over, and nothing reads it.
  induction column generalizing earlier with
  | zero =>
      obtain rfl : earlier = 0 := by omega
      simp [fillTo]
  | succ column ih =>
      simp only [fillTo]
      rw [Vector.getElem_set]
      split
      · -- The cell that is written now is the recursion on the last characters.
        rename_i heq
        subst heq
        have htake : target.toList.take (column + 1) =
            target.toList.take column ++ [target[column]] :=
          List.take_succ_eq_append_getElem (by rwa [Array.length_toList])
        have hleft := ih (by omega) (Nat.le_refl column)
        rw [above_fillTo, hleft, habove, habove, htake, recursiveDistance_concat_concat]
      · exact ih (by omega) (by omega)

/-- The step: filling the current row makes it the complete one for one more character. -/
theorem IsRow.advance {source : List Char} (habove : IsRow source rows.above) (c : Char) :
    IsRow (source ++ [c]) (rows.advance source.length c).above :=
  fun _ h => current_fillTo habove c _ (Nat.le_of_lt_succ h)

theorem read_concat (source : List Char) (c : Char) :
    read (source ++ [c]) target = (read source target).advance source.length c := by
  simp [read, List.zipIdx_append]

/-- The run: the complete row holds the distances of all that is read. -/
theorem isRow_read (source : List Char) : IsRow source (read source target).above := by
  induction source using List.reverseRecOn with
  | nil => exact isRow_start
  | append_singleton source c ih => rw [read_concat]; exact ih.advance c

end DistanceRows

/-- The distance that is computed row by row is the one of the recursion. -/
theorem editDistance_eq (source target : String) :
    editDistance source target = recursiveDistance source.toList target.toList := by
  rw [editDistance, Vector.back_eq_getElem, DistanceRows.isRow_read]
  simp

/-! ## The first of the least -/

/-- An item has the least measure of all, and those before it have a greater one. -/
def IsFirstLeast {α : Type} (measure : α → Nat) (items : List α) (item : α) : Prop :=
  ∃ index, ∃ h : index < items.length, items[index] = item ∧
    (∀ other ∈ items, measure item ≤ measure other) ∧
    ∀ earlier (hlt : earlier < index), measure item < measure items[earlier]

theorem minOn?_eq_some_iff {α : Type} {measure : α → Nat} {items : List α} {item : α} :
    items.minOn? measure = some item ↔ IsFirstLeast measure items item := by
  by_cases hnil : items = []
  · subst hnil
    simp [IsFirstLeast]
  · rw [List.minOn?_eq_some_minOn hnil, Option.some.injEq]
    constructor
    · rintro rfl
      exact ⟨items.minIdxOn measure hnil, List.minIdxOn_lt_length hnil,
        List.getElem_minIdxOn hnil, fun other hother => List.apply_minOn_le_of_mem hother,
        fun earlier hlt => List.apply_minOn_lt_apply_getElem_of_lt_minIdxOn hnil hlt⟩
    · rintro ⟨index, h, rfl, hleast, hfirst⟩
      have hindex : items.minIdxOn measure hnil = index :=
        (List.minIdxOn_eq_iff hnil).mpr
          ⟨h, fun other hother => hleast _ (List.getElem_mem hother), hfirst⟩
      rw [← List.getElem_minIdxOn hnil]
      simp only [hindex]

/-! ## The suggestion -/

/-- A field is the first of those with the least edit distance to a key. -/
def IsFirstNearest (key : String) (fields : List String) (field : String) : Prop :=
  IsFirstLeast (fun other => recursiveDistance key.toList other.toList) fields field

theorem nearest?_eq_some_iff {key field : String} {fields : List String} :
    nearest? key fields = some field ↔ IsFirstNearest key fields field := by
  have hmeasure : editDistance key =
      fun other => recursiveDistance key.toList other.toList :=
    funext (editDistance_eq key)
  rw [nearest?, hmeasure, minOn?_eq_some_iff, IsFirstNearest]

/-- There is a suggestion as long as there are fields. -/
theorem exists_nearest? (key : String) {fields : List String} (h : fields ≠ []) :
    ∃ field, nearest? key fields = some field :=
  ⟨_, List.minOn?_eq_some_minOn h⟩

theorem not_mem_of_unknownOverride? {value : Yaml.Value} {key : String}
    (h : unknownOverride? value = some key) : key ∉ overrideFields := by
  simpa using List.find?_some h

theorem parseYaml_of_unknownOverride? {text key : String} {value : Yaml.Value}
    (hvalue : Yaml.Value.parse text = some value) (hkey : unknownOverride? value = some key) :
    Config.parseYaml text =
      .error (.unknownField key "overrides" (nearest? key overrideFields)) := by
  rw [Config.parseYaml, hvalue]
  simp only [hkey]

theorem ConfigError.message_unknownField (key field : String) :
    (ConfigError.unknownField key "overrides" (some field)).message =
      s!"Unknown field '{key}' in 'overrides'. Did you mean '{field}'?" := by
  have hliteral : "' in '" ++ ("overrides" ++ ("'. " ++ "Did you mean '")) =
      "' in 'overrides'. Did you mean '" := by simp
  change "Unknown field '" ++ key ++ "' in '" ++ "overrides" ++ "'. " ++
    ("Did you mean '" ++ field ++ "'?") = _
  simp only [toString, ← hliteral, String.append_assoc]

/-- The distance of two texts is the one of the recursion, the least number of insertions,
deletions and substitutions, and a metric.  The nearest of some fields is the first of those with
the least distance.  A file with an override that is no field is rejected, and the error names
the nearest field that there is. -/
theorem suggested_field_is_nearest :
    (∀ source target : String,
      editDistance source target = recursiveDistance source.toList target.toList ∧
      IsLeast {count | EditsIn count source.toList target.toList} (editDistance source target)) ∧
    (∀ source target : String, editDistance source target = 0 ↔ source = target) ∧
    (∀ source target : String, editDistance source target = editDistance target source) ∧
    (∀ first second third : String,
      editDistance first third ≤ editDistance first second + editDistance second third) ∧
    (∀ (key : String) (fields : List String) (field : String),
      nearest? key fields = some field ↔ IsFirstNearest key fields field) ∧
    ∀ text key : String, (Yaml.Value.parse text).bind unknownOverride? = some key →
      key ∉ overrideFields ∧
      ∃ field, IsFirstNearest key overrideFields field ∧
        Config.parseYaml text = .error (.unknownField key "overrides" (some field)) ∧
        (ConfigError.unknownField key "overrides" (some field)).message =
          s!"Unknown field '{key}' in 'overrides'. Did you mean '{field}'?" := by
  refine ⟨?_, ?_, ?_, ?_, fun _ _ _ => nearest?_eq_some_iff, ?_⟩
  · intro source target
    refine ⟨editDistance_eq source target, ?_⟩
    rw [editDistance_eq]
    exact isLeast_recursiveDistance source.toList target.toList
  · intro source target
    rw [editDistance_eq, recursiveDistance_eq_zero_iff, String.toList_inj]
  · intro source target
    rw [editDistance_eq, editDistance_eq, recursiveDistance_comm]
  · intro first second third
    rw [editDistance_eq, editDistance_eq, editDistance_eq]
    exact recursiveDistance_triangle first.toList second.toList third.toList
  · intro text key h
    obtain ⟨value, hvalue, hkey⟩ := Option.bind_eq_some_iff.mp h
    have hfields : overrideFields ≠ [] := List.cons_ne_nil _ _
    obtain ⟨field, hfield⟩ := exists_nearest? key hfields
    refine ⟨not_mem_of_unknownOverride? hkey, field, nearest?_eq_some_iff.mp hfield, ?_,
      ConfigError.message_unknownField key field⟩
    rw [parseYaml_of_unknownOverride? hvalue hkey, hfield]

/-- A file that overrides `a`, which is no field. -/
def misspelledFile : String :=
  "overrides:\n  a: 1\n"

/-- The fields `arrays` and `sinks` are equally near to `a`.  The first is suggested. -/
theorem a_suggests_arrays :
    (Yaml.Value.parse misspelledFile).bind unknownOverride? = some "a" ∧
      editDistance "a" "arrays" = editDistance "a" "sinks" ∧
      IsFirstNearest "a" overrideFields "arrays" ∧
      Config.parseYaml misspelledFile =
        .error (.unknownField "a" "overrides" (some "arrays")) := by
  have hkey : (Yaml.Value.parse misspelledFile).bind unknownOverride? = some "a" := by
    decide +kernel
  have harrays : nearest? "a" overrideFields = some "arrays" := by decide +kernel
  obtain ⟨-, -, -, -, hnearest, hsuggested⟩ := suggested_field_is_nearest
  obtain ⟨-, field, hfield, herror, -⟩ := hsuggested misspelledFile "a" hkey
  obtain rfl : field = "arrays" :=
    Option.some.inj (((hnearest _ _ _).mpr hfield).symm.trans harrays)
  exact ⟨hkey, by decide +kernel, hfield, herror⟩

end DalvikHorn
