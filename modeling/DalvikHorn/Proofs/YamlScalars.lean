import DalvikHorn.Yaml.Token.Lexer
import DalvikHorn.Yaml.Writer
import Mathlib.Algebra.Group.Nat.Defs
import Mathlib.Data.List.Basic

/-!
# Texts on the lines of a document

A text is written in the simplest style in which it reads back.  Here the three
styles on a line are read: a text as it is, in single quotes, and in double quotes
with escapes.  Each reader gives back the text, and stops behind it:
`readPlain_value`, `readPlain_key`, `readQuoted_writeSingleQuoted` and
`readQuoted_writeDoubleQuoted`.

## Strategy

* **Gaps.**  A reader collects spacing and ends of lines as a gap, and folds it when
  the text goes on.  A text in single quotes may go on in a new line, whose margin
  belongs to the gap but not to the text; `Awaits` says which gaps may come before
  what is left of a text, and `Awaits.extend_break` that an end of a line in one folds to
  itself.
* **Plain texts.**  `PlainText` is what the style asks of a text: it does not start with
  a mark, has no mark of a value or a comment in it, and its gaps are single spaces.
* **Escapes.**  The digits of an escape are read from the highest one on
  (`readQuoted_hexDigits`).
-/

namespace DalvikHorn.Yaml

/-! ## Positions -/

namespace Position

variable (position : Position)

/-- The position after some characters. -/
def afterAll (text : List Char) : Position :=
  text.foldl Position.after position

@[simp] theorem afterAll_nil : position.afterAll [] = position :=
  rfl

@[simp] theorem afterAll_cons (c : Char) (text : List Char) :
    position.afterAll (c :: text) = (position.after c).afterAll text :=
  rfl

theorem afterAll_append (first second : List Char) :
    position.afterAll (first ++ second) = (position.afterAll first).afterAll second :=
  List.foldl_append

variable {position}

theorem column_after_of_isBreak {c : Char} (h : isBreak c = true) :
    (position.after c).column = 0 := by
  rw [after, if_pos h]

theorem column_after_of_not_isBreak {c : Char} (h : isBreak c = false) :
    (position.after c).column = position.column + 1 := by
  rw [after, h, if_neg Bool.false_ne_true]

theorem column_after_pos {c : Char} (h : isBreak c = false) : 0 < (position.after c).column := by
  rw [column_after_of_not_isBreak h]
  exact Nat.succ_pos _

theorem line_after (c : Char) :
    (position.after c).line = position.line + if isBreak c = true then 1 else 0 := by
  rw [after]
  split <;> simp

/-- Within a line every character takes one column. -/
theorem column_afterAll {text : List Char} (h : ∀ c ∈ text, isBreak c = false) :
    (position.afterAll text).column = position.column + text.length := by
  induction text generalizing position with
  | nil => rfl
  | cons c rest ih =>
      obtain ⟨hc, hrest⟩ := List.forall_mem_cons.mp h
      rw [afterAll_cons, ih hrest, column_after_of_not_isBreak hc, List.length_cons]
      omega

theorem line_afterAll {text : List Char} (h : ∀ c ∈ text, isBreak c = false) :
    (position.afterAll text).line = position.line := by
  induction text generalizing position with
  | nil => rfl
  | cons c rest ih =>
      obtain ⟨hc, hrest⟩ := List.forall_mem_cons.mp h
      rw [afterAll_cons, ih hrest, line_after, hc, if_neg Bool.false_ne_true, Nat.add_zero]

theorem offset_afterAll_le (text : List Char) :
    (position.afterAll text).offset ≤ position.offset + 4 * text.length := by
  induction text generalizing position with
  | nil => exact Nat.le_refl _
  | cons c rest ih =>
      have hnext : (position.after c).offset = position.offset + c.utf8Size := by
        rw [after]
        split <;> rfl
      have hsize := c.utf8Size_le_four
      have hrest := @ih (position.after c)
      rw [afterAll_cons, List.length_cons]
      omega

theorem line_le_afterAll (text : List Char) : position.line ≤ (position.afterAll text).line := by
  induction text generalizing position with
  | nil => exact Nat.le_refl _
  | cons c rest ih =>
      have hnext : position.line ≤ (position.after c).line := by
        rw [line_after]
        exact Nat.le_add_right _ _
      exact Nat.le_trans hnext ih

/-- The end of a line leads to a later line. -/
theorem line_lt_afterAll {c : Char} (hc : isBreak c = true) (before after : List Char) :
    position.line < (position.afterAll (before ++ c :: after)).line := by
  rw [afterAll_append, afterAll_cons]
  calc position.line
      ≤ (position.afterAll before).line := line_le_afterAll before
    _ < ((position.afterAll before).after c).line := by
        rw [line_after, if_pos hc]
        exact Nat.lt_succ_self _
    _ ≤ _ := line_le_afterAll after

theorem column_afterAll_margin (column : Nat) :
    (position.afterAll (margin column)).column = position.column + column := by
  rw [column_afterAll, margin, List.length_replicate]
  intro c hc
  rw [List.eq_of_mem_replicate hc]
  rfl

/-- The margin of a line ends at its column. -/
theorem column_afterAll_nextLine {c : Char} (hc : isBreak c = true) (before : List Char)
    (column : Nat) : (position.afterAll (before ++ c :: margin column)).column = column := by
  rw [afterAll_append, afterAll_cons, column_afterAll_margin, column_after_of_isBreak hc,
    Nat.zero_add]

end Position

/-! ## Lines -/

/-- A text that is the rest of a document after the spaces of a line: nothing, or something that
is neither a gap nor a comment. -/
def StartsLine (body : List Char) : Prop :=
  ∀ c ∈ body.head?, isGap c = false ∧ c ≠ '#' ∧ c ≠ byteOrderMark

theorem isGap_of_isBreak {c : Char} (h : isBreak c = true) : isGap c = true := by
  rw [isGap, h, Bool.or_true]

theorem isBreak_of_not_isGap {c : Char} (h : isGap c = false) : isBreak c = false :=
  (Bool.or_eq_false_iff.mp h).2

/-- The only gap among the characters that are written as they are on one line is the space. -/
theorem eq_space_of_isGap {c : Char} (hprintable : isPrintable c = true) (hgap : isGap c = true)
    (hunbroken : isBreak c = false) : c = ' ' := by
  rw [isGap, hunbroken, Bool.or_false] at hgap
  by_contra hspace
  have htab : c = '\t' := by simpa [isSpacing, hspace] using hgap
  subst htab
  cases hprintable

namespace Gap

theorem hasBreak_none : Gap.none.hasBreak = false :=
  rfl

theorem folded_extend_space {gap : Gap} (h : gap.hasBreak = false) :
    (gap.extend ' ').folded = ' ' :: gap.folded := by
  cases gap with
  | none => rfl
  | spacing text => rfl
  | lines first others => cases h

theorem hasBreak_extend_space {gap : Gap} (h : gap.hasBreak = false) :
    (gap.extend ' ').hasBreak = false := by
  cases gap with
  | none => rfl
  | spacing text => rfl
  | lines first others => cases h

theorem extend_ne_none (gap : Gap) (c : Char) : gap.extend c ≠ .none := by
  cases gap <;> rw [extend] <;> split <;> simp

end Gap

/-- A quoted text collects its gaps before it goes on. -/
theorem readQuoted_gap {quote c : Char} {gap : Gap} {read rest : List Char} {position : Position}
    (hgap : isGap c = true) :
    readQuoted quote .plain gap read position (c :: rest) =
      readQuoted quote .plain (gap.extend c) read (position.after c) rest := by
  rw [readQuoted]
  exact if_pos hgap

/-! ## Plain scalars -/

theorem atDocumentMark_of_head {mark : Char} {text : List Char} (h : text.head? ≠ some mark) :
    atDocumentMark mark text = false := by
  cases text with
  | nil => rfl
  | cons c rest =>
      have hc : c ≠ mark := fun heq => h (congrArg some heq)
      simp [atDocumentMark, hc]

theorem atGap_append {text : List Char} (hne : text ≠ []) (rest : List Char) :
    atGap (text ++ rest) = atGap text := by
  cases text with
  | nil => exact absurd rfl hne
  | cons c text => rfl

/-- A text that a plain scalar can go on with, after a gap or not: spaces are the only gaps, the
last character is none, and no mark ends the scalar. -/
structure Unmarked (afterGap : Bool) (text : List Char) : Prop where
  ne_nil : text ≠ []
  spaced : ∀ c ∈ text, isGap c = true → c = ' '
  last : text.getLast? ≠ some ' '
  unmarked : TextStyle.hasMark afterGap text = false

theorem Unmarked.tail {afterGap : Bool} {c : Char} {rest : List Char}
    (h : Unmarked afterGap (c :: rest)) (hne : rest ≠ []) : Unmarked (isGap c) rest where
  ne_nil := hne
  spaced := fun d hd => h.spaced d (List.mem_cons_of_mem _ hd)
  last := by
    have hlast := h.last
    rwa [List.getLast?_cons_of_ne_nil hne] at hlast
  unmarked := (Bool.or_eq_false_iff.mp h.unmarked).2

/-- A plain scalar does not end within its line, but before a comment or in the first column. -/
theorem not_endsPlain {indent column : Nat} {gap : Gap} {text : List Char}
    (hcomment : gap ≠ .none → text.head? ≠ some '#') (hindent : gap ≠ .none → indent ≤ column)
    (hstart : column = 0 → text.head? ≠ some '-' ∧ text.head? ≠ some '.') :
    endsPlain false indent column gap text = false := by
  have hdocument : (decide (column = 0) &&
      (atDocumentMark '-' text || atDocumentMark '.' text)) = false := by
    by_cases hzero : column = 0
    · obtain ⟨hdash, hdot⟩ := hstart hzero
      rw [atDocumentMark_of_head hdash, atDocumentMark_of_head hdot, Bool.or_self, Bool.and_false]
    · rw [decide_eq_false hzero, Bool.false_and]
  rw [endsPlain, hdocument, Bool.false_or, Bool.and_eq_false_imp]
  intro hgap
  have hne := bne_iff_ne.mp hgap
  simp [hcomment hne, hindent hne]

theorem readPlain_gap {indent : Nat} {gap : Gap} {read rest : List Char} {position : Position}
    {c : Char} (hgap : isGap c = true) (htab : c ≠ '\t') :
    readPlain false indent gap read position (c :: rest) =
      readPlain false indent (gap.extend c) read (position.after c) rest := by
  rw [readPlain, if_pos hgap, if_neg (by simp [htab])]

/-- A character of a word is read, unless it is a mark. -/
theorem readPlain_char {indent : Nat} {gap : Gap} {read rest : List Char} {position : Position}
    {c : Char} (hword : isGap c = false)
    (hends : endsPlain false indent position.column gap (c :: rest) = false)
    (hvalue : (decide (c = ':') && atGap rest) = false) :
    readPlain false indent gap read position (c :: rest) =
      readPlain false indent .none (c :: (gap.folded ++ read)) (position.after c) rest := by
  rw [readPlain, hword, if_neg Bool.false_ne_true, hends, hvalue]
  rfl

/-- The words of a plain scalar and the spaces between them are read as they are. -/
theorem readPlain_append {indent : Nat} {gap : Gap} {read text : List Char} {position : Position}
    (rest : List Char) (htext : Unmarked (gap != .none) text) (hgap : gap.hasBreak = false)
    (hindent : gap ≠ .none ∨ (∃ c ∈ text, isGap c = true) → indent ≤ position.column)
    (hstart : position.column = 0 → text.head? ≠ some '-' ∧ text.head? ≠ some '.') :
    readPlain false indent gap read position (text ++ rest) =
      readPlain false indent .none (text.reverse ++ (gap.folded ++ read)) (position.afterAll text)
        rest := by
  induction text generalizing gap read position with
  | nil => exact absurd rfl htext.ne_nil
  | cons c text ih =>
      have hunbroken : isBreak c = false := by
        by_contra hbreak
        have hc := htext.spaced c List.mem_cons_self (isGap_of_isBreak (by simpa using hbreak))
        exact hbreak (hc ▸ rfl)
      have hcolumn : (position.after c).column = position.column + 1 :=
        Position.column_after_of_not_isBreak hunbroken
      by_cases hc : isGap c = true
      · -- a space, after which the scalar goes on
        obtain rfl := htext.spaced c List.mem_cons_self hc
        have hne : text ≠ [] := by
          rintro rfl
          exact htext.last rfl
        have hnone : (gap.extend ' ' != .none) = isGap ' ' := by
          exact bne_iff_ne.mpr (gap.extend_ne_none ' ')
        have hdeep := hindent (.inr ⟨' ', List.mem_cons_self, rfl⟩)
        rw [List.cons_append, readPlain_gap hc (by decide),
          ih (hnone ▸ htext.tail hne) (Gap.hasBreak_extend_space hgap) (fun _ => by omega)
            (by omega),
          Gap.folded_extend_space hgap]
        simp
      · have hword : isGap c = false := by simpa using hc
        obtain ⟨hhere, -⟩ := Bool.or_eq_false_iff.mp htext.unmarked
        obtain ⟨hcolon, hcomment⟩ := Bool.or_eq_false_iff.mp hhere
        have hends : endsPlain false indent position.column gap (c :: (text ++ rest)) = false := by
          refine not_endsPlain (fun hnone => ?_) (fun hnone => hindent (.inl hnone)) hstart
          simpa [hnone] using hcomment
        have hvalue : (decide (c = ':') && atGap (text ++ rest)) = false := by
          by_cases hne : text = []
          · subst hne
            have hc : decide (c = ':') = false := by simpa [atGap] using hcolon
            rw [hc, Bool.false_and]
          · rwa [atGap_append hne]
        rw [List.cons_append, readPlain_char hword hends hvalue]
        by_cases hne : text = []
        · subst hne
          simp
        · have hnone : (Gap.none != .none) = isGap c := by simpa using hword.symm
          have hdeep : Gap.none ≠ .none ∨ (∃ d ∈ text, isGap d = true) →
              indent ≤ (position.after c).column := by
            rintro (hnone | ⟨d, hd, hgap⟩)
            · exact absurd rfl hnone
            · have := hindent (.inr ⟨d, List.mem_cons_of_mem _ hd, hgap⟩)
              omega
          rw [ih (hnone ▸ htext.tail hne) rfl hdeep (by omega)]
          simp [Gap.folded]

/-- The margin of the next line belongs to the gap after a scalar. -/
theorem readPlain_margin {indent : Nat} {first : Option Char} {others read : List Char}
    {position : Position} (column : Nat) (rest : List Char) :
    readPlain false indent (.lines first others) read position (margin column ++ rest) =
      readPlain false indent (.lines first others) read (position.afterAll (margin column))
        rest := by
  induction column generalizing position with
  | zero => rfl
  | succ column ih =>
      rw [margin, List.replicate_succ, List.cons_append, readPlain_gap rfl (by decide)]
      exact ih

/-- A plain scalar ends before a line that is less deep. -/
theorem readPlain_nextLine {indent column : Nat} {read body : List Char} {position : Position}
    (hcolumn : column < indent) (hbody : StartsLine body) :
    readPlain false indent .none read position ('\n' :: (margin column ++ body)) =
      some (read.reverse, true, ⟨position.afterAll ('\n' :: margin column), body⟩) := by
  have hposition : (position.afterAll ('\n' :: margin column)).column = column := by
    rw [Position.afterAll_cons, Position.column_afterAll_margin,
      Position.column_after_of_isBreak rfl, Nat.zero_add]
  have hgap : Gap.none.extend '\n' = .lines (some '\n') [] := rfl
  rw [readPlain_gap rfl (by decide), hgap, readPlain_margin, ← Position.afterAll_cons]
  cases body with
  | nil => rfl
  | cons c rest =>
      obtain ⟨hgap, -, -⟩ := hbody c rfl
      have hends : endsPlain false indent (position.afterAll ('\n' :: margin column)).column
          (.lines (some '\n') []) (c :: rest) = true := by
        rw [endsPlain, hposition, decide_eq_true hcolumn]
        simp
      rw [readPlain, if_neg (by rw [hgap]; exact Bool.false_ne_true), if_pos hends]
      rfl

/-- A plain scalar ends before the mark of a value. -/
theorem readPlain_valueMark {indent : Nat} {read rest : List Char} {position : Position}
    (hrest : atGap rest = true) :
    readPlain false indent .none read position (':' :: rest) =
      some (read.reverse, false, ⟨position, ':' :: rest⟩) := by
  have hends : endsPlain false indent position.column .none (':' :: rest) = false := by
    simp [endsPlain, atDocumentMark]
  rw [readPlain, if_neg (by decide), hends, hrest]
  rfl

/-- A text that can be read as a plain scalar: it also starts with no mark. -/
structure PlainText (text : List Char) : Prop extends Unmarked false text where
  starts : TextStyle.startsWithMark text = false
  head : text.head? ≠ some ' '

namespace PlainText

variable {c : Char} {text : List Char}

theorem isGap_head (h : PlainText (c :: text)) : isGap c = false := by
  by_contra hgap
  exact h.head (congrArg some (h.spaced c List.mem_cons_self ((Bool.not_eq_false _).mp hgap)))

theorem head_ne (h : PlainText (c :: text)) :
    ∀ mark ∈ ['#', ',', '[', ']', '{', '}', '&', '*', '!', '|', '>', '\'', '"', '%', '@', '\x60'],
      c ≠ mark := by
  rintro mark hmark rfl
  have hmarks := (Bool.or_eq_false_iff.mp h.starts).1
  rw [List.contains_iff_mem.mpr hmark] at hmarks
  cases hmarks

/-- A mark of blocks that starts plain text has no gap after it. -/
theorem not_atGap (h : PlainText (c :: text)) (hc : c = '-' ∨ c = '?' ∨ c = ':')
    (rest : List Char) : atGap (text ++ rest) = false := by
  have hgap := (Bool.or_eq_false_iff.mp h.starts).2
  have hnext : atGap text = false := by
    rcases hc with rfl | rfl | rfl <;> simpa using hgap
  cases text with
  | nil => cases hnext
  | cons d text => exact hnext

/-- Plain text can be told from other tokens by its start. -/
theorem startsPlain (h : PlainText (c :: text)) (rest : List Char) :
    Lexer.startsPlain false c (text ++ rest) = true := by
  have hne := h.head_ne
  simp only [List.forall_mem_cons, List.not_mem_nil, false_implies, implies_true, and_true] at hne
  rw [Lexer.startsPlain]
  split
  · rename_i hdash
    have hgap := h.not_atGap (.inl hdash) rest
    cases hhead : (text ++ rest).head? with
    | none => rfl
    | some d =>
        rw [atGap, hhead] at hgap
        have hspacing : isSpacing d = false := (Bool.or_eq_false_iff.mp hgap).1
        rw [Option.any_some, hspacing]
        rfl
  · split
    · rename_i hmark
      rw [h.not_atGap (.inr (by simpa using hmark)) rest]
      rfl
    · simp [h.isGap_head, isFlowMark, hne]

end PlainText

/-- A plain scalar that is a value on its line. -/
theorem readPlain_value {indent column : Nat} {text body : List Char} {position : Position}
    (htext : PlainText text) (hindent : indent ≤ position.column) (hinside : 0 < position.column)
    (hcolumn : column < indent) (hbody : StartsLine body) :
    readPlain false indent .none [] position (text ++ '\n' :: (margin column ++ body)) =
      some (text, true, ⟨position.afterAll (text ++ '\n' :: margin column), body⟩) := by
  have hmarks : Unmarked (Gap.none != .none) text := htext.toUnmarked
  rw [readPlain_append _ hmarks rfl (fun _ => hindent) fun hzero => absurd hzero (by omega),
    readPlain_nextLine hcolumn hbody, Position.afterAll_append]
  simp [Gap.folded]

/-! ## Which texts are plain -/

theorem isPrintable_of_not_needsEscapes {text : List Char}
    (h : TextStyle.needsEscapes text = false) : ∀ c ∈ text, isPrintable c = true := by
  intro c hc
  have hall := (Bool.or_eq_false_iff.mp h).1
  simpa using List.any_eq_false.mp hall c hc

theorem isPrintable_of_allowsPlain {text : List Char} (h : TextStyle.allowsPlain text = true) :
    ∀ c ∈ text, isPrintable c = true := by
  simp only [TextStyle.allowsPlain, Bool.and_eq_true, Bool.not_eq_true'] at h
  exact isPrintable_of_not_needsEscapes h.1.1.1.1.1.1

/-- A text that is written as it is can be read so, unless it is empty. -/
theorem plainText_of_allowsPlain {text : List Char} (hne : text ≠ [])
    (h : TextStyle.allowsPlain text = true) : PlainText text := by
  simp only [TextStyle.allowsPlain, Bool.and_eq_true, Bool.not_eq_true', decide_eq_true_eq] at h
  obtain ⟨⟨⟨⟨⟨⟨hescapes, hbreaks⟩, hfirst⟩, hlast⟩, -⟩, hstarts⟩, hmarks⟩ := h
  have hspaced : ∀ c ∈ text, isGap c = true → c = ' ' := fun c hc hgap =>
    eq_space_of_isGap (isPrintable_of_not_needsEscapes hescapes c hc) hgap
      (by simpa using List.any_eq_false.mp hbreaks c hc)
  refine ⟨⟨hne, hspaced, hlast, ?_⟩, hstarts, hfirst⟩
  cases text with
  | nil => rfl
  | cons c rest =>
      -- the first character is no mark, since the text does not start with one
      simp only [TextStyle.startsWithMark, Bool.or_eq_false_iff, Bool.and_eq_false_imp] at hstarts
      obtain ⟨hmark, hgap⟩ := hstarts
      have hcomment : decide (c = '#') = false := by
        refine decide_eq_false ?_
        rintro rfl
        cases hmark
      have hcolon : (decide (c = ':') && atGap rest) = false := by
        refine Bool.and_eq_false_imp.mpr fun hc => hgap ?_
        simp [of_decide_eq_true hc]
      rw [TextStyle.hasMark, hcolon, hcomment]
      exact hmarks

/-- A word: letters, digits and low lines. -/
structure IsWord (text : List Char) : Prop where
  ne_nil : text ≠ []
  letters : ∀ c ∈ text, c.isAlphanum = true ∨ c = '_'

instance (text : List Char) : Decidable (IsWord text) :=
  decidable_of_iff ((!text.isEmpty && text.all fun c => c.isAlphanum || c == '_') = true) (by
    rw [Bool.and_eq_true, List.all_eq_true]
    exact ⟨fun ⟨hne, hletters⟩ => ⟨by simpa using hne, by simpa using hletters⟩,
      fun h => ⟨by simpa using h.ne_nil, by simpa using h.letters⟩⟩)

theorem IsWord.ne_of_mem {text : List Char} {c d : Char} (h : IsWord text) (hc : c ∈ text)
    (hd : (d.isAlphanum || d = '_') = false) : c ≠ d := by
  rintro rfl
  rcases h.letters c hc with hletter | rfl
  · simp [hletter] at hd
  · cases hd

theorem IsWord.isGap {text : List Char} {c : Char} (h : IsWord text) (hc : c ∈ text) :
    Yaml.isGap c = false := by
  have hne : ∀ d : Char, (d.isAlphanum || d = '_') = false → c ≠ d := fun d => h.ne_of_mem hc
  simp only [Yaml.isGap, isSpacing, isBreak, Bool.or_eq_false_iff, decide_eq_false_iff_not]
  exact ⟨⟨hne _ (by decide), hne _ (by decide)⟩, ⟨hne _ (by decide), hne _ (by decide)⟩,
    hne _ (by decide)⟩

theorem IsWord.isPrintable {text : List Char} {c : Char} (h : IsWord text) (hc : c ∈ text) :
    Yaml.isPrintable c = true := by
  have hcode : 0x20 ≤ c.toNat ∧ c.toNat ≤ 0x7E := by
    rcases h.letters c hc with hletter | rfl
    · change (decide ('A'.val ≤ c.val ∧ c.val ≤ 'Z'.val) ||
        (decide ('a'.val ≤ c.val) && decide (c.val ≤ 'z'.val)) ||
        (decide ('0'.val ≤ c.val) && decide (c.val ≤ '9'.val))) = true at hletter
      simp only [Bool.or_eq_true, Bool.and_eq_true, decide_eq_true_eq, UInt32.le_iff_toNat_le]
        at hletter
      have hcode : c.toNat = c.val.toNat := rfl
      simp at hletter
      omega
    · decide
  simp [Yaml.isPrintable, hcode]

theorem hasMark_of_letters {text : List Char} (afterGap : Bool)
    (h : ∀ c ∈ text, c ≠ ':' ∧ c ≠ '#') : TextStyle.hasMark afterGap text = false := by
  induction text generalizing afterGap with
  | nil => rfl
  | cons c rest ih =>
      obtain ⟨⟨hcolon, hcomment⟩, hrest⟩ := List.forall_mem_cons.mp h
      rw [TextStyle.hasMark, decide_eq_false hcolon, decide_eq_false hcomment, ih _ hrest]
      rfl

/-- Words are plain. -/
theorem IsWord.plainText {text : List Char} (h : IsWord text) : PlainText text := by
  refine ⟨⟨h.ne_nil, fun c hc hgap => ?_, fun hlast => ?_, ?_⟩, ?_, fun hhead => ?_⟩
  · rw [h.isGap hc] at hgap
    cases hgap
  · exact h.ne_of_mem (List.mem_of_getLast? hlast) (d := ' ') (by decide) rfl
  · exact hasMark_of_letters _ fun c hc =>
      ⟨h.ne_of_mem hc (by decide), h.ne_of_mem hc (by decide)⟩
  · cases text with
    | nil => rfl
    | cons c rest =>
        have hne : ∀ d : Char, (d.isAlphanum || d = '_') = false → c ≠ d := fun d =>
          h.ne_of_mem List.mem_cons_self
        rw [TextStyle.startsWithMark, decide_eq_false (hne '?' (by decide)),
          decide_eq_false (hne ':' (by decide)), decide_eq_false (hne '-' (by decide))]
        simp [hne]
  · exact h.ne_of_mem (List.mem_of_head? hhead) (d := ' ') (by decide) rfl

/-- A word that is a key is read up to the mark of its value. -/
theorem readPlain_key {indent : Nat} {text rest : List Char} {position : Position}
    (htext : IsWord text) (hrest : atGap rest = true) :
    readPlain false indent .none [] position (text ++ ':' :: rest) =
      some (text, false, ⟨position.afterAll text, ':' :: rest⟩) := by
  have hmarks : Unmarked (Gap.none != .none) text := htext.plainText.toUnmarked
  have hdeep : Gap.none ≠ .none ∨ (∃ c ∈ text, isGap c = true) → indent ≤ position.column := by
    rintro (hnone | ⟨c, hc, hgap⟩)
    · exact absurd rfl hnone
    · rw [htext.isGap hc] at hgap
      cases hgap
  have hstart : text.head? ≠ some '-' ∧ text.head? ≠ some '.' :=
    ⟨fun hhead => htext.ne_of_mem (List.mem_of_head? hhead) (d := '-') (by decide) rfl,
      fun hhead => htext.ne_of_mem (List.mem_of_head? hhead) (d := '.') (by decide) rfl⟩
  rw [readPlain_append _ hmarks rfl hdeep fun _ => hstart, readPlain_valueMark hrest]
  simp [Gap.folded]

/-! ## Texts in single quotes -/

theorem hasPair_cons {p q : Char → Bool} {c : Char} {rest : List Char}
    (h : TextStyle.hasPair p q (c :: rest) = false) :
    (p c = true → ∀ d ∈ rest.head?, q d = false) ∧ TextStyle.hasPair p q rest = false := by
  cases rest with
  | nil =>
      refine ⟨fun _ d hd => ?_, rfl⟩
      cases hd
  | cons d rest =>
      obtain ⟨hpair, hrest⟩ := Bool.or_eq_false_iff.mp h
      refine ⟨fun hc e he => ?_, hrest⟩
      obtain rfl : d = e := Option.some.inj he
      simpa [hc] using hpair

/-- The gaps of a reader before a text that goes on in single quotes, on a new line or not. -/
inductive Awaits (text : List Char) : Bool → Gap → Prop where
  | none : Awaits text false .none
  | spacing {spaces : List Char} (h : ∀ c ∈ text.head?, isBreak c = false) :
      Awaits text false (.spacing spaces)
  | lines {first : Char} {others : List Char} (hfirst : first ≠ '\n') (h : text.head? ≠ some ' ') :
      Awaits text true (.lines (some first) others)

theorem Awaits.extend_break {c : Char} {text : List Char} {lineStart : Bool} {gap : Gap}
    (h : Awaits (c :: text) lineStart gap) (hbreak : isBreak c = true) (hfeed : c ≠ '\n')
    (hnext : text.head? ≠ some ' ') :
    Awaits text true (gap.extend c) ∧ (gap.extend c).folded = c :: gap.folded := by
  cases h with
  | none =>
      have hextend : Gap.none.extend c = .lines (some c) [] := if_pos hbreak
      rw [hextend]
      exact ⟨.lines hfeed hnext, by simp [Gap.folded, hfeed]⟩
  | spacing h => exact absurd (h c rfl) (by simp [hbreak])
  | @lines first others hfirst h =>
      have hextend : (Gap.lines (some first) others).extend c = .lines (some first) (c :: others) :=
        if_pos hbreak
      rw [hextend]
      exact ⟨.lines hfirst hnext, by simp [Gap.folded, hfirst]⟩

theorem Awaits.extend_space {text : List Char} {lineStart : Bool} {gap : Gap}
    (h : Awaits (' ' :: text) lineStart gap) (hnext : ∀ c ∈ text.head?, isBreak c = false) :
    lineStart = false ∧ Awaits text false (gap.extend ' ') ∧
      (gap.extend ' ').folded = ' ' :: gap.folded := by
  cases h with
  | none => exact ⟨rfl, .spacing hnext, rfl⟩
  | spacing h => exact ⟨rfl, .spacing hnext, rfl⟩
  | lines hfirst h => exact absurd rfl h

section Steps

variable {quote : Char} {gap : Gap} {read rest : List Char} {position : Position}

theorem readQuoted_char {c : Char} (hgap : isGap c = false) (hposition : 0 < position.column)
    (hquote : c ≠ quote) (hescape : c = '\\' → quote ≠ '"') :
    readQuoted quote .plain gap read position (c :: rest) =
      readQuoted quote .plain .none (c :: (gap.folded ++ read)) (position.after c) rest := by
  have hcolumn : decide (position.column = 0) = false := decide_eq_false (by omega)
  have hplain : (decide (c = '\\') && decide (quote = '"')) = false := by simpa using hescape
  rw [readQuoted]
  simp only [hgap, hcolumn, hquote, hplain, Bool.false_and, Bool.false_eq_true, if_false]

theorem readQuoted_backslash (hposition : 0 < position.column) :
    readQuoted '"' .plain gap read position ('\\' :: rest) =
      readQuoted '"' .escape .none (gap.folded ++ read) (position.after '\\') rest := by
  have hcolumn : decide (position.column = 0) = false := decide_eq_false (by omega)
  rw [readQuoted]
  simp [isGap, isSpacing, isBreak, hcolumn]

theorem readQuoted_twoQuotes (hposition : 0 < position.column) :
    readQuoted '\'' .plain gap read position ('\'' :: '\'' :: rest) =
      readQuoted '\'' .plain .none ('\'' :: (gap.folded ++ read))
        ((position.after '\'').after '\'') rest := by
  have hcolumn : decide (position.column = 0) = false := decide_eq_false (by omega)
  rw [readQuoted]
  simp [isGap, isSpacing, isBreak, hcolumn]

theorem readQuoted_close (hgap : isGap quote = false) (hposition : 0 < position.column)
    (hrest : quote = '\'' → rest.head? ≠ some '\'') :
    readQuoted quote .plain gap read position (quote :: rest) =
      some ((gap.folded ++ read).reverse, ⟨position.after quote, rest⟩) := by
  have hcolumn : decide (position.column = 0) = false := decide_eq_false (by omega)
  rw [readQuoted]
  simp only [hgap, hcolumn, Bool.false_and, Bool.false_eq_true, if_false, if_true]
  split
  · exact if_neg fun hquote => hrest hquote rfl
  · rfl

/-- The margin of a line belongs to the gap before it. -/
theorem readQuoted_margin {first : Option Char} {others : List Char} (column : Nat) :
    readQuoted quote .plain (.lines first others) read position (margin column ++ rest) =
      readQuoted quote .plain (.lines first others) read (position.afterAll (margin column))
        rest := by
  induction column generalizing position with
  | zero => rfl
  | succ column ih =>
      rw [margin, List.replicate_succ, List.cons_append, readQuoted_gap rfl]
      exact ih

end Steps

/-- The margin that is written before a character of a new line. -/
def lineMargin (column : Nat) (lineStart : Bool) : List Char :=
  if lineStart then margin column else []

/-- A margin is written where a line has ended, and belongs to the gap. -/
theorem readQuoted_lineMargin {quote : Char} {gap : Gap} {read rest text : List Char}
    {position : Position} {column : Nat} {lineStart : Bool} (h : Awaits text lineStart gap) :
    readQuoted quote .plain gap read position (lineMargin column lineStart ++ rest) =
      readQuoted quote .plain gap read (position.afterAll (lineMargin column lineStart)) rest := by
  cases h with
  | none => rfl
  | spacing => rfl
  | lines => exact readQuoted_margin column

theorem column_lineMargin_pos {position : Position} {column : Nat} {lineStart : Bool}
    (hcolumn : 0 < column) (hposition : lineStart = false → 0 < position.column) :
    0 < (position.afterAll (lineMargin column lineStart)).column := by
  cases lineStart with
  | false => exact hposition rfl
  | true =>
      rw [lineMargin, if_pos rfl, Position.column_afterAll_margin]
      omega

/-- A text in single quotes reads back: the ends of its lines are none that are folded, and no
spaces stand next to them. -/
theorem readQuoted_writeSingleQuoted {column : Nat} {lineStart : Bool} {gap : Gap}
    {read text rest : List Char} {position : Position}
    (hprintable : ∀ c ∈ text, isPrintable c = true ∧ c ≠ '\n')
    (hbefore : TextStyle.hasPair (· = ' ') isBreak text = false)
    (hafter : TextStyle.hasPair isBreak (· = ' ') text = false)
    (hgap : Awaits text lineStart gap) (hcolumn : 0 < column)
    (hposition : lineStart = false → 0 < position.column) (hrest : rest.head? ≠ some '\'') :
    readQuoted '\'' .plain gap read position (writeSingleQuoted column lineStart text ++ rest) =
      some ((gap.folded ++ read).reverse ++ text,
        ⟨position.afterAll (writeSingleQuoted column lineStart text), rest⟩) := by
  induction text generalizing lineStart gap read position with
  | nil =>
      have hwritten : writeSingleQuoted column lineStart [] =
          lineMargin column lineStart ++ ['\''] :=
        rfl
      rw [hwritten, List.append_assoc, List.singleton_append, readQuoted_lineMargin hgap,
        readQuoted_close rfl (column_lineMargin_pos hcolumn hposition) fun _ => hrest,
        List.append_nil, Position.afterAll_append]
      rfl
  | cons c text ih =>
      obtain ⟨⟨hc, hfeed⟩, hprintables⟩ := List.forall_mem_cons.mp hprintable
      obtain ⟨hspaceBreak, hbefores⟩ := hasPair_cons hbefore
      obtain ⟨hbreakSpace, hafters⟩ := hasPair_cons hafter
      by_cases hbreak : isBreak c = true
      · -- the end of a line, which no space follows
        have hnext : text.head? ≠ some ' ' := fun hhead => by
          simpa using hbreakSpace hbreak ' ' hhead
        obtain ⟨hnextGap, hfolded⟩ := hgap.extend_break hbreak hfeed hnext
        have hwritten : writeSingleQuoted column lineStart (c :: text) =
            c :: writeSingleQuoted column true text := if_pos hbreak
        rw [hwritten, List.cons_append, readQuoted_gap (isGap_of_isBreak hbreak),
          ih hprintables hbefores hafters hnextGap nofun, hfolded]
        simp
      have hunbroken : isBreak c = false := by simpa using hbreak
      have hwritten : writeSingleQuoted column lineStart (c :: text) =
          lineMargin column lineStart ++ ((if c = '\'' then ['\''] else []) ++
            c :: writeSingleQuoted column false text) := by
        rw [writeSingleQuoted, if_neg hbreak, List.append_assoc, lineMargin]
      rw [hwritten]
      by_cases hspace : isGap c = true
      · -- a space within a line, which does not end there
        obtain rfl := eq_space_of_isGap hc hspace hunbroken
        obtain ⟨rfl, hnextGap, hfolded⟩ := hgap.extend_space (hspaceBreak rfl)
        have hplain : lineMargin column false ++ ((if ' ' = '\'' then ['\''] else []) ++
            ' ' :: writeSingleQuoted column false text) =
            ' ' :: writeSingleQuoted column false text := rfl
        rw [hplain, List.cons_append, readQuoted_gap rfl,
          ih hprintables hbefores hafters hnextGap fun _ => Position.column_after_pos rfl, hfolded]
        simp
      have hword : isGap c = false := by simpa using hspace
      have hwithin := column_lineMargin_pos hcolumn hposition
      rw [List.append_assoc, readQuoted_lineMargin hgap]
      by_cases hquote : c = '\''
      · subst hquote
        rw [if_pos rfl, List.append_assoc, List.singleton_append, List.cons_append,
          readQuoted_twoQuotes hwithin,
          ih hprintables hbefores hafters .none fun _ => Position.column_after_pos rfl]
        simp [Gap.folded, Position.afterAll_append]
      · rw [if_neg hquote, List.nil_append, List.cons_append,
          readQuoted_char hword hwithin hquote (fun _ => by decide),
          ih hprintables hbefores hafters .none fun _ => Position.column_after_pos hunbroken]
        simp [Gap.folded, Position.afterAll_append]

/-! ## Texts in double quotes -/

theorem hexDigit?_hexDigit {value : Nat} (h : value < 16) :
    hexDigit? (hexDigit value) = some value ∧ isBreak (hexDigit value) = false := by
  revert value
  decide

theorem hexDigits_succ (count value : Nat) :
    hexDigits (count + 1) value =
      hexDigit (value / Nat.pow 16 count % 16) :: hexDigits count value := by
  rw [hexDigits, List.range_succ, List.reverse_append]
  rfl

theorem isBreak_of_mem_hexDigits {c : Char} {count value : Nat} (h : c ∈ hexDigits count value) :
    isBreak c = false := by
  obtain ⟨i, -, rfl⟩ := List.mem_map.mp h
  exact (hexDigit?_hexDigit (Nat.mod_lt _ (by decide))).2

/-- The digits of a code are read as its value, after those that have been read. -/
theorem readQuoted_hexDigits {count before value : Nat} {c : Char} {read rest : List Char}
    {position : Position}
    (hcode : charOfCode? (before * 16 ^ (count + 1) + value % 16 ^ (count + 1)) = some c) :
    readQuoted '"' (.digits (count + 1) before) .none read position
        (hexDigits (count + 1) value ++ rest) =
      readQuoted '"' .plain .none (c :: read) (position.afterAll (hexDigits (count + 1) value))
        rest := by
  -- each digit is read back as its own value
  have hdigit : ∀ n, hexDigit? (hexDigit (n % 16)) = some (n % 16) := fun n =>
    (hexDigit?_hexDigit (Nat.mod_lt _ (by decide))).1
  induction count generalizing before position with
  | zero =>
      -- the last digit completes the code, and the character is read
      rw [hexDigits_succ, List.cons_append, readQuoted, hdigit]
      have hvalue : before * 16 + value / Nat.pow 16 0 % 16 =
          before * 16 ^ (0 + 1) + value % 16 ^ (0 + 1) := by simp
      simp only [hvalue, hcode]
      rfl
  | succ count ih =>
      -- one digit in front of the others weighs them by sixteen
      have hvalue : (before * 16 + value / Nat.pow 16 (count + 1) % 16) * 16 ^ (count + 1) +
          value % 16 ^ (count + 1) =
          before * 16 ^ (count + 1 + 1) + value % 16 ^ (count + 1 + 1) := by
        rw [@Nat.mod_pow_succ value 16 (count + 1), Nat.pow_eq, Nat.pow_succ 16 (count + 1),
          Nat.add_mul, Nat.mul_assoc, Nat.mul_comm 16, Nat.mul_comm (value / _ % 16)]
        omega
      rw [hexDigits_succ, List.cons_append, readQuoted, hdigit]
      simp only [Nat.lt_add_left_iff_pos, Nat.succ_pos, if_true, Nat.add_sub_cancel]
      rw [ih (hvalue ▸ hcode)]
      rfl

theorem escapeLetter?_cases {c letter : Char} (h : escapeLetter? c = some letter) :
    isBreak letter = false ∧ escapedDigits? letter = none ∧ escapedChar? letter = some c := by
  unfold escapeLetter? at h
  split at h
  case h_15 => cases h
  all_goals
    obtain rfl := Option.some.inj h
    decide

/-- A mark and the digits that it asks for are read as the character with their code. -/
theorem readQuoted_code {c mark : Char} {count : Nat} {read rest : List Char} {position : Position}
    (hbreak : isBreak mark = false) (hdigits : escapedDigits? mark = some (count + 1))
    (hcode : c.toNat < 16 ^ (count + 1)) :
    readQuoted '"' .escape .none read position (mark :: hexDigits (count + 1) c.toNat ++ rest) =
      readQuoted '"' .plain .none (c :: read)
        (position.afterAll (mark :: hexDigits (count + 1) c.toNat)) rest := by
  have hvalid : charOfCode? (0 * 16 ^ (count + 1) + c.toNat % 16 ^ (count + 1)) = some c := by
    rw [Nat.zero_mul, Nat.zero_add, Nat.mod_eq_of_lt hcode, charOfCode?,
      if_pos (show c.toNat.isValidChar from c.valid), Char.ofNat_toNat]
  rw [List.cons_append, readQuoted]
  simp only [hbreak, Bool.false_eq_true, if_false, hdigits]
  rw [readQuoted_hexDigits hvalid, Position.afterAll_cons]

/-- What stands for a character after a backslash is read as this character. -/
theorem readQuoted_escape {c : Char} {read rest : List Char} {position : Position} :
    readQuoted '"' .escape .none read position (escape c ++ rest) =
      readQuoted '"' .plain .none (c :: read) (position.afterAll (escape c)) rest := by
  rw [escape]
  split
  · rename_i letter hletter
    obtain ⟨hbreak, hdigits, hchar⟩ := escapeLetter?_cases hletter
    rw [List.singleton_append, readQuoted]
    simp only [hbreak, Bool.false_eq_true, if_false, hdigits, hchar]
    rfl
  · split
    · exact readQuoted_code rfl rfl (by omega)
    · split
      · exact readQuoted_code rfl rfl (by omega)
      · exact readQuoted_code rfl rfl c.val.toNat_lt

theorem isBreak_of_mem_escape {c d : Char} (h : d ∈ escape c) : isBreak d = false := by
  rw [escape] at h
  split at h
  · rename_i letter hletter
    rw [List.mem_singleton.mp h]
    exact (escapeLetter?_cases hletter).1
  · split at h
    · exact (List.mem_cons.mp h).elim (fun hd => hd ▸ rfl) isBreak_of_mem_hexDigits
    · split at h <;>
      exact (List.mem_cons.mp h).elim (fun hd => hd ▸ rfl) isBreak_of_mem_hexDigits

/-- A text in double quotes reads back. -/
theorem readQuoted_writeDoubleQuoted {gap : Gap} {read text rest : List Char}
    {position : Position} (hgap : gap.hasBreak = false) (hposition : 0 < position.column) :
    readQuoted '"' .plain gap read position (writeDoubleQuoted text ++ rest) =
      some ((gap.folded ++ read).reverse ++ text,
        ⟨position.afterAll (writeDoubleQuoted text), rest⟩) := by
  induction text generalizing gap read position with
  | nil =>
      rw [writeDoubleQuoted, List.singleton_append, readQuoted_close rfl hposition
        fun hquote => absurd hquote (by decide), List.append_nil]
      rfl
  | cons c text ih =>
      rw [writeDoubleQuoted]
      split
      · -- the character is escaped
        have hinside : 0 < ((position.after '\\').afterAll (escape c)).column := by
          rw [← Position.afterAll_cons, Position.column_afterAll]
          · omega
          · exact List.forall_mem_cons.mpr ⟨rfl, fun d => isBreak_of_mem_escape⟩
        rw [List.cons_append, List.cons_append, readQuoted_backslash hposition, List.append_assoc,
          readQuoted_escape, ih Gap.hasBreak_none hinside]
        simp [Gap.folded, Position.afterAll_append]
      · rename_i hplain
        simp only [Bool.or_eq_true, Bool.not_eq_true', decide_eq_true_eq, not_or,
          Bool.not_eq_false, Bool.not_eq_true] at hplain
        obtain ⟨⟨⟨hprintable, hunbroken⟩, hquote⟩, hbackslash⟩ := hplain
        have hinside : 0 < (position.after c).column := Position.column_after_pos hunbroken
        rw [List.singleton_append, List.cons_append]
        by_cases hspace : isGap c = true
        · obtain rfl := eq_space_of_isGap hprintable hspace hunbroken
          rw [readQuoted_gap rfl, ih (Gap.hasBreak_extend_space hgap) hinside,
            Gap.folded_extend_space hgap]
          simp
        · rw [readQuoted_char (by simpa using hspace) hposition hquote (absurd · hbackslash),
            ih Gap.hasBreak_none hinside]
          simp [Gap.folded]

end DalvikHorn.Yaml
