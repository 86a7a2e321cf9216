import DalvikHorn.Json.Reader
import DalvikHorn.Json.Writer
import DalvikHorn.Proofs.Decimals

/-!
# Texts of JSON values

A value can be written with any white space between its tokens.  The reader gives back
the value of each of these texts, whatever the strings in it contain
(`Json.parse_of_writtenAs`), and the writer produces one of them.

## Strategy

* **Texts.**  `Spells` relates a value to its texts: strings are escaped as the writer
  does it, and between two tokens there may be a gap.
* **Tokens.**  A string is read character by character (`readPieces_escapeChar`), and a
  number up to the first character that cannot go on with it (`readNumber_toString`).
* **Values.**  `readValue_spells` follows a text from its brackets to its parts.  The
  fuel of the reader pays two steps for each character: one to enter an item and one to
  read it.
-/

namespace DalvikHorn.Json

/-! ## White space -/

/-- The white space of the grammar. -/
def spaces : List Char :=
  [' ', '\n', '\r', '\t']

/-- Text that may stand between two tokens. -/
def Gap (text : List Char) : Prop :=
  ∀ c ∈ text, c ∈ spaces

instance (text : List Char) : Decidable (Gap text) :=
  decidable_of_iff (text.all spaces.contains = true) (by simp [Gap])

theorem gap_nil : Gap [] := by
  intro c hc
  cases hc

theorem mem_spaces_iff {c : Char} :
    c ∈ spaces ↔ (c == ' ' || c == '\n' || c == '\r' || c == '\t') = true := by
  simp [spaces, or_assoc]

theorem skipSpace_append {gap : List Char} (hgap : Gap gap) (text : List Char) :
    skipSpace (gap ++ text) = skipSpace text := by
  apply List.dropWhile_append_of_pos
  intro c hc
  exact mem_spaces_iff.mp (hgap c hc)

theorem skipSpace_cons {c : Char} (hc : c ∉ spaces) (text : List Char) :
    skipSpace (c :: text) = c :: text := by
  apply List.dropWhile_cons_of_neg
  intro hspace
  exact hc (mem_spaces_iff.mpr hspace)

theorem skipSpace_gap {gap : List Char} (hgap : Gap gap) : skipSpace gap = [] := by
  simpa [skipSpace] using skipSpace_append hgap []

theorem readValue_gap {gap : List Char} (hgap : Gap gap) (fuel : Nat) (text : List Char) :
    readValue fuel (gap ++ text) = readValue fuel text := by
  cases fuel with
  | zero => rfl
  | succ fuel => rw [readValue, readValue, skipSpace_append hgap]

theorem readItems_gap {gap : List Char} (hgap : Gap gap) (fuel : Nat) (text : List Char) :
    readItems fuel (gap ++ text) = readItems fuel text := by
  cases fuel with
  | zero => rfl
  | succ fuel => rw [readItems, readItems, readValue_gap hgap]

theorem readMembers_gap {gap : List Char} (hgap : Gap gap) (fuel : Nat) (text : List Char) :
    readMembers fuel (gap ++ text) = readMembers fuel text := by
  cases fuel with
  | zero => rfl
  | succ fuel => rw [readMembers, readMembers, skipSpace_append hgap]

/-! ## Strings -/

/-- The piece that the reader makes of an escaped character. -/
def pieceOf (c : Char) : Piece :=
  if c.toNat < 0x20 ∧ c ≠ '\x08' ∧ c ≠ '\x0c' ∧ c ≠ '\n' ∧ c ≠ '\r' ∧ c ≠ '\t' then
    .unit c.toNat
  else
    .char c

theorem hexUnit?_hexDigit {value : Nat} (h : value < 0x20) :
    hexUnit? '0' '0' (hexDigit (value / 16)) (hexDigit (value % 16)) = some value := by
  revert value
  decide

theorem readPieces_letter {letter c : Char} (h : escaped? letter = some c) (rest : List Char) :
    readPieces ('\\' :: letter :: rest) =
      (readPieces rest).map fun (pieces, after) => (.char c :: pieces, after) := by
  have hletter : letter ≠ 'u' := by
    rintro rfl
    cases h
  rw [readPieces]
  · rw [h]
    cases readPieces rest with
    | none => rfl
    | some read => rfl
  · intro _ _ _ _ _ hu
    exact absurd hu hletter

theorem readPieces_unit {code : Nat} (hcode : code < 0x20) (rest : List Char) :
    readPieces (['\\', 'u', '0', '0', hexDigit (code / 16), hexDigit (code % 16)] ++ rest) =
      (readPieces rest).map fun (pieces, after) => (.unit code :: pieces, after) := by
  simp only [List.cons_append, List.nil_append, readPieces, hexUnit?_hexDigit hcode]
  cases readPieces rest with
  | none => rfl
  | some read => rfl

theorem readPieces_char {c : Char} (hquote : c ≠ '"') (hbackslash : c ≠ '\\')
    (hcontrol : ¬ c.toNat < 0x20) (rest : List Char) :
    readPieces (c :: rest) =
      (readPieces rest).map fun (pieces, after) => (.char c :: pieces, after) := by
  rw [readPieces]
  · have hkept : (decide (c.toNat < 0x20) || c == '\\') = false := by simp [hbackslash, hcontrol]
    rw [hkept]
    cases readPieces rest with
    | none => rfl
    | some read => rfl
  all_goals simp [hquote, hbackslash]

theorem readPieces_escapeChar (c : Char) (rest : List Char) :
    readPieces (escapeChar c ++ rest) =
      (readPieces rest).map fun (pieces, after) => (pieceOf c :: pieces, after) := by
  by_cases hquote : c = '"'
  · exact hquote ▸ readPieces_letter rfl rest
  by_cases hbackslash : c = '\\'
  · exact hbackslash ▸ readPieces_letter rfl rest
  by_cases hbackspace : c = '\x08'
  · exact hbackspace ▸ readPieces_letter rfl rest
  by_cases hfeed : c = '\x0c'
  · exact hfeed ▸ readPieces_letter rfl rest
  by_cases hline : c = '\n'
  · exact hline ▸ readPieces_letter rfl rest
  by_cases hreturn : c = '\r'
  · exact hreturn ▸ readPieces_letter rfl rest
  by_cases htab : c = '\t'
  · exact htab ▸ readPieces_letter rfl rest
  by_cases hcontrol : c.toNat < 0x20
  · -- the other control characters are written as units
    have hpiece : pieceOf c = .unit c.toNat := by simp [pieceOf, *]
    simpa [escapeChar, *] using readPieces_unit hcontrol rest
  · have hpiece : pieceOf c = .char c := by simp [pieceOf, hcontrol]
    simpa [escapeChar, *] using readPieces_char hquote hbackslash hcontrol rest

theorem readPieces_escaped (text rest : List Char) :
    readPieces (text.flatMap escapeChar ++ '"' :: rest) = some (text.map pieceOf, rest) := by
  induction text with
  | nil => rfl
  | cons c text ih =>
      rw [List.flatMap_cons, List.append_assoc, readPieces_escapeChar, ih]
      rfl

theorem joinPieces_pieceOf (c : Char) (pieces : List Piece) :
    joinPieces (pieceOf c :: pieces) = (joinPieces pieces).map (c :: ·) := by
  unfold pieceOf
  split
  · rename_i hcontrol
    have hhigh : isHighSurrogate c.toNat = false := by
      simp only [isHighSurrogate, Bool.and_eq_false_iff, decide_eq_false_iff_not]
      omega
    have hlow : isLowSurrogate c.toNat = false := by
      simp only [isLowSurrogate, Bool.and_eq_false_iff, decide_eq_false_iff_not]
      omega
    have hchar : Char.ofNat c.toNat = c := Char.ofNat_toNat c
    cases pieces with
    | nil => simp [joinPieces, hhigh, hlow, hchar]
    | cons next pieces =>
        cases next with
        | char other => simp [joinPieces, hhigh, hlow, hchar]
        | unit code => simp [joinPieces, hhigh, hlow, hchar]
  · rfl

theorem joinPieces_map_pieceOf (text : List Char) : joinPieces (text.map pieceOf) = some text := by
  induction text with
  | nil => rfl
  | cons c text ih =>
      rw [List.map_cons, joinPieces_pieceOf, ih]
      rfl

theorem toList_quote (text : String) :
    (quote text).toList = '"' :: (text.toList.flatMap escapeChar ++ ['"']) := by
  simp [quote]

/-- A quoted text is read back, whatever characters it has. -/
theorem readString_quoted (text : String) (rest : List Char) :
    readString (text.toList.flatMap escapeChar ++ '"' :: rest) = some (some text, rest) := by
  rw [readString, readPieces_escaped, Option.map_some]
  simp [joinPieces_map_pieceOf]

/-! ## Numbers -/

/-- Whether a text cannot go on with the number before it. -/
def EndsNumber (text : List Char) : Prop :=
  ∀ c rest, text = c :: rest → c.isDigit = false ∧ c ≠ '.' ∧ c ≠ 'e' ∧ c ≠ 'E'

theorem endsNumber_nil : EndsNumber [] := by
  intro c rest h
  cases h

/-- The digits of a number at the start of a text. -/
theorem takeWhile_toDigits (value : Nat) {rest : List Char} (h : EndsNumber rest) :
    (Nat.toDigits 10 value ++ rest).takeWhile Char.isDigit = Nat.toDigits 10 value ∧
      (Nat.toDigits 10 value ++ rest).dropWhile Char.isDigit = rest := by
  have hdigits : ∀ c ∈ Nat.toDigits 10 value, c.isDigit = true := fun _ => isDigit_of_mem_digits
  have hrest : rest.takeWhile Char.isDigit = [] ∧ rest.dropWhile Char.isDigit = rest := by
    cases rest with
    | nil => exact ⟨rfl, rfl⟩
    | cons c rest => simp [(h c rest rfl).1]
  rw [List.takeWhile_append_of_pos hdigits, List.dropWhile_append_of_pos hdigits, hrest.1, hrest.2,
    List.append_nil]
  exact ⟨rfl, rfl⟩

theorem readFraction_of_endsNumber {rest : List Char} (h : EndsNumber rest) :
    readFraction rest = some ([], rest) := by
  cases rest with
  | nil => rfl
  | cons c rest =>
      have hpoint := (h c rest rfl).2.1
      simp [readFraction, hpoint]

theorem readExponent_of_endsNumber {rest : List Char} (h : EndsNumber rest) :
    readExponent rest = some (none, rest) := by
  cases rest with
  | nil => rfl
  | cons c rest =>
      obtain ⟨-, -, hlower, hupper⟩ := h c rest rfl
      simp [readExponent, hlower, hupper]

/-- The value of digits with a sign, when it fits into 64 bits. -/
theorem numberOfParts_toDigits {negative : Bool} {magnitude : Nat} {value : Int}
    (hvalue : value = if negative then -(magnitude : Int) else magnitude)
    (hsign : negative = true → magnitude ≠ 0)
    (hlow : Int64.minValue.toInt ≤ value) (hhigh : value < UInt64.size) (numeral : String) :
    numberOfParts negative (Nat.toDigits 10 magnitude) [] none numeral = .integer value := by
  have hnotMinusZero : (negative && value == 0) = false := by
    cases negative with
    | false => rfl
    | true =>
        have hne := hsign rfl
        simp only [hvalue, if_true, Bool.true_and, beq_eq_false_iff_ne]
        omega
  have hfits : (decide (Int64.minValue.toInt ≤ value) && decide (value < UInt64.size)) = true := by
    rw [decide_eq_true hlow, decide_eq_true hhigh]
    rfl
  unfold numberOfParts
  simp only [digitsValue_toDigits, ← hvalue, hnotMinusZero, List.isEmpty_nil, Option.isNone_none,
    Bool.not_false, Bool.and_true, Bool.true_and, hfits, if_true]

/-- A number is read up to the first character that does not belong to it. -/
theorem readNumber_toDigits {negative : Bool} {magnitude : Nat} {value : Int}
    (hvalue : value = if negative then -(magnitude : Int) else magnitude)
    (hsign : negative = true → magnitude ≠ 0)
    (hlow : Int64.minValue.toInt ≤ value) (hhigh : value < UInt64.size)
    {rest : List Char} (h : EndsNumber rest) :
    readNumber ((if negative then ['-'] else []) ++ (Nat.toDigits 10 magnitude ++ rest)) =
      some (.integer value, rest) := by
  obtain ⟨htake, hdrop⟩ := takeWhile_toDigits magnitude h
  have hnonempty : (Nat.toDigits 10 magnitude).isEmpty = false := by
    simp [List.isEmpty_eq_false_iff, Nat.toDigits_ne_nil]
  -- only zero starts with a zero, and it has one digit
  have hleading : ((Nat.toDigits 10 magnitude).head? == some '0' &&
      decide (1 < (Nat.toDigits 10 magnitude).length)) = false := by
    by_cases hhead : (Nat.toDigits 10 magnitude).head? = some '0'
    · rw [eq_zero_of_head?_toDigits hhead]
      rfl
    · simp [hhead]
  have hparts := fun numeral => numberOfParts_toDigits hvalue hsign hlow hhigh numeral
  cases negative with
  | true =>
      simp only [readNumber, if_true, List.cons_append, List.nil_append, htake, hdrop, hnonempty,
        hleading, Bool.or_self, Bool.false_eq_true, if_false, readFraction_of_endsNumber h,
        Option.bind_eq_bind, Option.bind_some, readExponent_of_endsNumber h, hparts,
        Option.pure_def]
  | false =>
      -- without a sign the first character is a digit, and is not read as one
      obtain ⟨c, digits, hdigits⟩ := List.exists_cons_of_ne_nil
        (Nat.toDigits_ne_nil (n := magnitude) (b := 10))
      have hminus : c ≠ '-' := by
        rintro rfl
        exact notMem_toDigits (by decide) magnitude (hdigits ▸ List.mem_cons_self)
      have hsigned : ∀ more, Nat.toDigits 10 magnitude ++ rest ≠ '-' :: more := by
        intro more heq
        rw [hdigits, List.cons_append, List.cons.injEq] at heq
        exact hminus heq.1
      simp only [readNumber, Bool.false_eq_true, if_false, List.nil_append, htake, hdrop,
        hnonempty, hleading, Bool.or_self, readFraction_of_endsNumber h,
        Option.bind_eq_bind, Option.bind_some, readExponent_of_endsNumber h, hparts,
        Option.pure_def]

/-- A number that fits into 64 bits is read up to the first character that does not belong to
it. -/
theorem readNumber_toString {value : Int} (hlow : Int64.minValue.toInt ≤ value)
    (hhigh : value < UInt64.size) {rest : List Char} (h : EndsNumber rest) :
    readNumber ((toString value).toList ++ rest) = some (.integer value, rest) := by
  rw [toList_toString, List.append_assoc]
  apply readNumber_toDigits _ _ hlow hhigh h
  · by_cases hsign : value < 0
    · simp only [hsign, decide_true, if_true]
      omega
    · simp only [hsign, decide_false, Bool.false_eq_true, if_false]
      omega
  · intro hsign
    have hnegative : value < 0 := of_decide_eq_true hsign
    omega

/-! ## Texts of a value -/

mutual

/-- The texts of a value, from its first character to its last. -/
inductive Spells : Json → List Char → Prop where
  | null : Spells .null "null".toList
  | bool (value : Bool) : Spells (.bool value) (toString value).toList
  | integer {value : Int} (low : Int64.minValue.toInt ≤ value) (high : value < UInt64.size) :
      Spells (.integer value) (toString value).toList
  | string (text : String) : Spells (.string text) (quote text).toList
  | emptyArray {gap : List Char} (hgap : Gap gap) : Spells (.array []) ('[' :: (gap ++ [']']))
  | array {items : List Json} {gap body : List Char} (hgap : Gap gap)
      (hbody : SpellsItems items body) : Spells (.array items) ('[' :: (gap ++ body ++ [']']))
  | emptyObject {gap : List Char} (hgap : Gap gap) :
      Spells (.object []) ('\x7b' :: (gap ++ ['\x7d']))
  | object {members : List (String × Json)} {gap body : List Char} (hgap : Gap gap)
      (hbody : SpellsMembers members body) :
      Spells (.object members) ('\x7b' :: (gap ++ body ++ ['\x7d']))

/-- The texts of the items of an array, from the first item to the closing bracket. -/
inductive SpellsItems : List Json → List Char → Prop where
  | last {item : Json} {text gap : List Char} (hitem : Spells item text) (hgap : Gap gap) :
      SpellsItems [item] (text ++ gap)
  | more {item : Json} {rest : List Json} {text before after body : List Char}
      (hitem : Spells item text) (hbefore : Gap before) (hafter : Gap after)
      (hrest : SpellsItems rest body) :
      SpellsItems (item :: rest) (text ++ (before ++ ',' :: (after ++ body)))

/-- The texts of the members of an object, from the first key to the closing bracket. -/
inductive SpellsMembers : List (String × Json) → List Char → Prop where
  | last {key : String} {value : Json} {before after text gap : List Char}
      (hbefore : Gap before) (hafter : Gap after) (hvalue : Spells value text) (hgap : Gap gap) :
      SpellsMembers [(key, value)]
        ((quote key).toList ++ (before ++ ':' :: (after ++ (text ++ gap))))
  | more {key : String} {value : Json} {rest : List (String × Json)}
      {colonBefore colonAfter text commaBefore commaAfter body : List Char}
      (hcolonBefore : Gap colonBefore) (hcolonAfter : Gap colonAfter) (hvalue : Spells value text)
      (hcommaBefore : Gap commaBefore) (hcommaAfter : Gap commaAfter)
      (hrest : SpellsMembers rest body) :
      SpellsMembers ((key, value) :: rest)
        ((quote key).toList ++ (colonBefore ++ ':' :: (colonAfter ++ (text ++
          (commaBefore ++ ',' :: (commaAfter ++ body))))))

end

/-- A text starts with a character that is no white space and closes no array. -/
theorem Spells.exists_cons {value : Json} {text : List Char} (h : Spells value text) :
    ∃ c rest, text = c :: rest ∧ c ∉ spaces ∧ c ≠ ']' := by
  cases h with
  | null => exact ⟨_, _, rfl, by decide, by decide⟩
  | bool value =>
      cases value with
      | true => exact ⟨_, _, rfl, by decide, by decide⟩
      | false => exact ⟨_, _, rfl, by decide, by decide⟩
  | integer low high =>
      obtain ⟨c, rest, htext, hc⟩ := exists_cons_toString _
      refine ⟨c, rest, htext, ?_, ?_⟩
      · rcases hc with rfl | hdigit
        · decide
        · -- a digit is no white space
          intro hspace
          simp only [spaces, List.mem_cons, List.not_mem_nil, or_false] at hspace
          rcases hspace with rfl | rfl | rfl | rfl <;> cases hdigit
      · rintro rfl
        rcases hc with hsign | hdigit
        · cases hsign
        · cases hdigit
  | string text =>
      rw [toList_quote]
      exact ⟨_, _, rfl, by decide, by decide⟩
  | emptyArray | array | emptyObject | object =>
      exact ⟨_, _, rfl, by decide, by decide⟩

theorem SpellsItems.exists_cons {items : List Json} {body : List Char}
    (h : SpellsItems items body) : ∃ c rest, body = c :: rest ∧ c ∉ spaces ∧ c ≠ ']' := by
  cases h with
  | last hitem hgap =>
      obtain ⟨c, rest, rfl, hc⟩ := hitem.exists_cons
      exact ⟨c, _, rfl, hc⟩
  | more hitem hbefore hafter hrest =>
      obtain ⟨c, rest, rfl, hc⟩ := hitem.exists_cons
      exact ⟨c, _, rfl, hc⟩

theorem SpellsMembers.exists_cons {members : List (String × Json)} {body : List Char}
    (h : SpellsMembers members body) : ∃ rest, body = '"' :: rest := by
  cases h with
  | last | more =>
      rw [toList_quote]
      exact ⟨_, rfl⟩

/-! ## Reading a text -/

theorem endsNumber_cons (c : Char) (hc : c.isDigit = false ∧ c ≠ '.' ∧ c ≠ 'e' ∧ c ≠ 'E')
    (rest : List Char) : EndsNumber (c :: rest) := by
  intro first more hsplit
  cases hsplit
  exact hc

theorem EndsNumber.append {gap rest : List Char} (h : EndsNumber rest) (hgap : Gap gap) :
    EndsNumber (gap ++ rest) := by
  intro first more hsplit
  cases gap with
  | nil => exact h first more hsplit
  | cons space gap =>
      cases hsplit
      have hspace := hgap first List.mem_cons_self
      simp only [spaces, List.mem_cons, List.not_mem_nil, or_false] at hspace
      rcases hspace with rfl | rfl | rfl | rfl <;> decide

theorem readValue_toString {value : Int} (hlow : Int64.minValue.toInt ≤ value)
    (hhigh : value < UInt64.size) (fuel : Nat) {rest : List Char} (h : EndsNumber rest) :
    readValue (fuel + 1) ((toString value).toList ++ rest) = some (.integer value, rest) := by
  obtain ⟨c, digits, htext, hc⟩ := exists_cons_toString value
  obtain ⟨first, more, hsame, hspace, -⟩ := (Spells.integer hlow hhigh).exists_cons
  rw [htext] at hsame
  cases hsame
  have hread := readNumber_toString hlow hhigh h
  rw [htext, List.cons_append] at hread ⊢
  rw [readValue, skipSpace_cons hspace]
  split
  case h_8 => exact hread
  all_goals simp_all

theorem readValue_bool (value : Bool) (fuel : Nat) (rest : List Char) :
    readValue (fuel + 1) ((toString value).toList ++ rest) = some (.bool value, rest) := by
  cases value with
  | true => rfl
  | false => rfl

theorem readValue_quote (text : String) (fuel : Nat) (rest : List Char) :
    readValue (fuel + 1) ((quote text).toList ++ rest) = some (.string text, rest) := by
  rw [toList_quote, List.cons_append, List.append_assoc, List.singleton_append]
  have hread := readString_quoted text rest
  rw [readValue, skipSpace_cons (by decide)]
  simp only [hread]
  rfl

theorem ofMembers_map (members : List (String × Json)) :
    ofMembers (members.map (Prod.map some id)) = .object members := by
  have hnamed : (members.map (Prod.map some id)).mapM
      (fun member => member.1.map (·, member.2)) = some members := by
    induction members with
    | nil => rfl
    | cons member rest ih =>
        rw [List.map_cons, List.mapM_cons, ih]
        rfl
  simp only [ofMembers, hnamed]

theorem readValue_emptyArray {gap : List Char} (hgap : Gap gap) (fuel : Nat) (rest : List Char) :
    readValue (fuel + 1) ('[' :: (gap ++ ']' :: rest)) = some (.array [], rest) := by
  have hskip : skipSpace (gap ++ ']' :: rest) = ']' :: rest := by
    rw [skipSpace_append hgap, skipSpace_cons (by decide)]
  rw [readValue, skipSpace_cons (by decide)]
  simp only [hskip]

theorem readValue_emptyObject {gap : List Char} (hgap : Gap gap) (fuel : Nat)
    (rest : List Char) :
    readValue (fuel + 1) ('\x7b' :: (gap ++ '\x7d' :: rest)) = some (.object [], rest) := by
  have hskip : skipSpace (gap ++ '\x7d' :: rest) = '\x7d' :: rest := by
    rw [skipSpace_append hgap, skipSpace_cons (by decide)]
  rw [readValue, skipSpace_cons (by decide)]
  simp only [hskip]

/-- An array is read through its items. -/
theorem readValue_array {gap text rest : List Char} {items : List Json} (hgap : Gap gap)
    (htext : ∃ c body, text = c :: body ∧ c ∉ spaces ∧ c ≠ ']')
    {fuel : Nat} (hitems : readItems fuel text = some (items, rest)) :
    readValue (fuel + 1) ('[' :: (gap ++ text)) = some (.array items, rest) := by
  obtain ⟨c, body, rfl, hspace, hc⟩ := htext
  have hskip : skipSpace (gap ++ c :: body) = c :: body := by
    rw [skipSpace_append hgap, skipSpace_cons hspace]
  rw [readValue, skipSpace_cons (by decide)]
  simp only [hskip]
  split
  · simp_all
  · rw [hitems]
    rfl

/-- An object is read through its members. -/
theorem readValue_object {gap body rest : List Char} {members : List (String × Json)}
    (hgap : Gap gap) {fuel : Nat}
    (hmembers : readMembers fuel ('"' :: body) =
      some (members.map (Prod.map some id), rest)) :
    readValue (fuel + 1) ('\x7b' :: (gap ++ '"' :: body)) = some (.object members, rest) := by
  have hskip : skipSpace (gap ++ '"' :: body) = '"' :: body := by
    rw [skipSpace_append hgap, skipSpace_cons (by decide)]
  rw [readValue, skipSpace_cons (by decide)]
  simp only [hskip]
  change (readMembers fuel ('"' :: body)).map (Prod.map ofMembers id) = _
  rw [hmembers]
  exact congrArg (fun value => some (value, rest)) (ofMembers_map members)

/-- The members of an object, from the one whose value has just been read. -/
def membersFrom (fuel : Nat) (key : String) :
    Option (Json × List Char) → Option (List (Option String × Json) × List Char)
  | none => none
  | some (value, rest) =>
      match skipSpace rest with
      | ',' :: more =>
          (readMembers fuel more).map fun (members, after) => ((some key, value) :: members, after)
      | '\x7d' :: after => some ([(some key, value)], after)
      | _ => none

/-- The key of a member, and the colon after it. -/
theorem readMembers_key {before after : List Char} (hbefore : Gap before) (hafter : Gap after)
    (key : String) (fuel : Nat) (text : List Char) :
    readMembers (fuel + 1) ((quote key).toList ++ (before ++ ':' :: (after ++ text))) =
      membersFrom fuel key (readValue fuel text) := by
  have hread := readString_quoted key (before ++ ':' :: (after ++ text))
  have hcolon : skipSpace (before ++ ':' :: (after ++ text)) = ':' :: (after ++ text) := by
    rw [skipSpace_append hbefore, skipSpace_cons (by decide)]
  rw [toList_quote, List.cons_append, List.append_assoc, List.singleton_append, readMembers,
    skipSpace_cons (by decide)]
  simp only [hread, hcolon, readValue_gap hafter]
  rfl

mutual

/-- Every text of a value is read, up to its end. -/
theorem readValue_spells {value : Json} {text : List Char} (h : Spells value text) (fuel : Nat)
    (hfuel : 2 * text.length ≤ fuel) {rest : List Char} (hrest : EndsNumber rest) :
    readValue fuel (text ++ rest) = some (value, rest) := by
  obtain ⟨first, tail, htext, -, -⟩ := h.exists_cons
  have hlength : text.length = tail.length + 1 := by rw [htext, List.length_cons]
  obtain ⟨fuel, rfl⟩ : ∃ less, fuel = less + 1 := ⟨fuel - 1, by omega⟩
  cases h with
  | null => rfl
  | bool value => exact readValue_bool value fuel rest
  | integer low high => exact readValue_toString low high fuel hrest
  | string text => exact readValue_quote text fuel rest
  | emptyArray hgap => simpa using readValue_emptyArray hgap fuel rest
  | emptyObject hgap => simpa using readValue_emptyObject hgap fuel rest
  | array hgap hbody =>
      simp only [List.length_cons, List.length_append] at hfuel
      have hitems := readItems_spells hbody fuel (by omega) rest
      obtain ⟨c, more, hhead, hspace, hc⟩ := hbody.exists_cons
      simp only [List.cons_append, List.append_assoc, List.nil_append]
      exact readValue_array hgap ⟨c, more ++ ']' :: rest, by rw [hhead]; rfl, hspace, hc⟩ hitems
  | object hgap hbody =>
      simp only [List.length_cons, List.length_append] at hfuel
      have hmembers := readMembers_spells hbody fuel (by omega) rest
      obtain ⟨more, rfl⟩ := hbody.exists_cons
      simp only [List.cons_append, List.append_assoc, List.nil_append] at hmembers ⊢
      exact readValue_object hgap hmembers

theorem readItems_spells {items : List Json} {body : List Char} (h : SpellsItems items body)
    (fuel : Nat) (hfuel : 2 * body.length + 1 ≤ fuel) (rest : List Char) :
    readItems fuel (body ++ ']' :: rest) = some (items, rest) := by
  obtain ⟨fuel, rfl⟩ : ∃ less, fuel = less + 1 := ⟨fuel - 1, by omega⟩
  cases h with
  | @last item text gap hitem hgap =>
      rw [List.length_append] at hfuel
      have hread := readValue_spells hitem fuel (by omega)
        ((endsNumber_cons ']' (by decide) rest).append hgap)
      have hskip : skipSpace (gap ++ ']' :: rest) = ']' :: rest := by
        rw [skipSpace_append hgap, skipSpace_cons (by decide)]
      rw [List.append_assoc, readItems, hread]
      simp only [hskip]
  | @more item items text before after body hitem hbefore hafter hrest =>
      simp only [List.length_append, List.length_cons] at hfuel
      have hread := readValue_spells hitem fuel (by omega)
        ((endsNumber_cons ',' (by decide) (after ++ body ++ ']' :: rest)).append hbefore)
      have hskip : skipSpace (before ++ ',' :: (after ++ body ++ ']' :: rest)) =
          ',' :: (after ++ body ++ ']' :: rest) := by
        rw [skipSpace_append hbefore, skipSpace_cons (by decide)]
      -- the list goes on with the gap behind the comma, which reading items passes over
      have hmore : readItems fuel (after ++ body ++ ']' :: rest) = some (items, rest) := by
        rw [List.append_assoc, readItems_gap hafter]
        exact readItems_spells hrest fuel (by omega) rest
      rw [List.append_assoc, List.append_assoc, List.cons_append, readItems, hread]
      simp only [hskip, hmore, Option.map_some]

theorem readMembers_spells {members : List (String × Json)} {body : List Char}
    (h : SpellsMembers members body) (fuel : Nat) (hfuel : 2 * body.length + 1 ≤ fuel)
    (rest : List Char) :
    readMembers fuel (body ++ '\x7d' :: rest) =
      some (members.map (Prod.map some id), rest) := by
  obtain ⟨fuel, rfl⟩ : ∃ less, fuel = less + 1 := ⟨fuel - 1, by omega⟩
  cases h with
  | @last key value before after text gap hbefore hafter hvalue hgap =>
      simp only [List.length_append, List.length_cons] at hfuel
      have hread := readValue_spells hvalue fuel (by omega)
        ((endsNumber_cons '\x7d' (by decide) rest).append hgap)
      have hskip : skipSpace (gap ++ '\x7d' :: rest) = '\x7d' :: rest := by
        rw [skipSpace_append hgap, skipSpace_cons (by decide)]
      simp only [List.append_assoc, List.cons_append, readMembers_key hbefore hafter, hread,
        membersFrom, hskip, List.map_cons, List.map_nil, Prod.map_apply, id]
  | @more key value members colonBefore colonAfter text commaBefore commaAfter body hcolonBefore
      hcolonAfter hvalue hcommaBefore hcommaAfter hrest =>
      simp only [List.length_append, List.length_cons] at hfuel
      have hread := readValue_spells hvalue fuel (by omega)
        ((endsNumber_cons ',' (by decide) (commaAfter ++ (body ++ '\x7d' :: rest))).append
          hcommaBefore)
      have hskip : skipSpace (commaBefore ++ ',' :: (commaAfter ++ (body ++ '\x7d' :: rest))) =
          ',' :: (commaAfter ++ (body ++ '\x7d' :: rest)) := by
        rw [skipSpace_append hcommaBefore, skipSpace_cons (by decide)]
      have hmore := readMembers_spells hrest fuel (by omega) rest
      simp only [List.append_assoc, List.cons_append, readMembers_key hcolonBefore hcolonAfter,
        hread, membersFrom, hskip, readMembers_gap hcommaAfter, hmore, Option.map_some,
        List.map_cons, Prod.map_apply, id]

end

/-- A text, with white space around it, spells a value. -/
def WrittenAs (value : Json) (text : String) : Prop :=
  ∃ before inner after, text.toList = before ++ inner ++ after ∧ Gap before ∧
    Spells value inner ∧ Gap after

/-- Reading a text of a value gives back the value. -/
theorem parse_of_writtenAs {value : Json} {text : String} (h : value.WrittenAs text) :
    parse text = some value := by
  obtain ⟨before, inner, after, htext, hbefore, hinner, hafter⟩ := h
  have hends : EndsNumber after := by simpa using endsNumber_nil.append hafter
  have hread : readValue (2 * text.toList.length + 2) text.toList = some (value, after) := by
    rw [htext, List.append_assoc, readValue_gap hbefore]
    apply readValue_spells hinner _ _ hends
    simp only [List.length_append]
    omega
  unfold parse
  simp only [hread, skipSpace_gap hafter, List.isEmpty_nil, if_true]

/-! ## Written values -/

/-- The writer produces a text of a value. -/
def Renders (value : Json) : Prop :=
  Spells value value.render.toList

theorem Renders.writtenAs {value : Json} (h : value.Renders) : value.WrittenAs value.render :=
  ⟨[], value.render.toList, [], by simp, gap_nil, h, gap_nil⟩

theorem renders_bool (value : Bool) : (Json.bool value).Renders := by
  cases value with
  | true => exact .bool true
  | false => exact .bool false

theorem renders_integer {value : Int} (low : Int64.minValue.toInt ≤ value)
    (high : value < UInt64.size) : (Json.integer value).Renders := by
  unfold Renders
  rw [render]
  exact .integer low high

theorem renders_string (text : String) : (Json.string text).Renders := by
  unfold Renders
  rw [render]
  exact .string text

theorem spellsItems_intercalate {item : Json} {rest : List Json}
    (h : ∀ one ∈ item :: rest, one.Renders) :
    SpellsItems (item :: rest)
      (",".toList.intercalate ((renderItems (item :: rest)).map String.toList)) := by
  induction rest generalizing item with
  | nil =>
      have hlast := SpellsItems.last (h item List.mem_cons_self) gap_nil
      simpa [renderItems] using hlast
  | cons next rest ih =>
      have hmore := SpellsItems.more (h item List.mem_cons_self) gap_nil gap_nil
        (ih fun one hone => h one (List.mem_cons_of_mem _ hone))
      simpa [renderItems, List.intercalate_cons_cons] using hmore

theorem spellsMembers_intercalate {member : String × Json} {rest : List (String × Json)}
    (h : ∀ one ∈ member :: rest, one.2.Renders) :
    SpellsMembers (member :: rest)
      (",".toList.intercalate ((renderMembers (member :: rest)).map String.toList)) := by
  induction rest generalizing member with
  | nil =>
      obtain ⟨key, value⟩ := member
      have hlast : SpellsMembers [(key, value)] _ :=
        .last gap_nil gap_nil (h _ List.mem_cons_self) gap_nil
      simpa [renderMembers] using hlast
  | cons next rest ih =>
      obtain ⟨key, value⟩ := member
      have hmore : SpellsMembers ((key, value) :: next :: rest) _ :=
        .more gap_nil gap_nil (h _ List.mem_cons_self) gap_nil gap_nil
          (ih fun one hone => h one (List.mem_cons_of_mem _ hone))
      simpa [renderMembers, List.intercalate_cons_cons] using hmore

theorem renders_array {items : List Json} (h : ∀ item ∈ items, item.Renders) :
    (Json.array items).Renders := by
  unfold Renders
  rw [render]
  cases items with
  | nil => exact .emptyArray gap_nil
  | cons item rest =>
      have harray := Spells.array gap_nil (spellsItems_intercalate h)
      simpa [String.toList_intercalate] using harray

theorem renders_object {members : List (String × Json)} (h : ∀ member ∈ members, member.2.Renders) :
    (Json.object members).Renders := by
  unfold Renders
  rw [render]
  cases members with
  | nil => exact .emptyObject gap_nil
  | cons member rest =>
      have hobject := Spells.object gap_nil (spellsMembers_intercalate h)
      simpa [String.toList_intercalate] using hobject

end DalvikHorn.Json
