import DalvikHorn.Proofs.YamlBlocks
import Mathlib.Logic.Relation

/-!
# Lines of tokens

The lexer goes over a document token by token, and after a line it stands at the start
of the next one.  Here this is followed for texts in all styles and for sequences of
them: `leadsTo_text` and `leadsTo_items`.

## Strategy

* **Runs.**  `Lexer.Reads` is one step, from the start of a token to the start of the
  next.  A run of steps to the end of the text gives all tokens (`readAll_of_reads`).
* **Lines.**  `Lexer.LeadsTo` says that a run leads from a lexer to the next line with
  more tokens.  What is deeper than the next line is closed there, so that a line ends
  before it is known what the next one is.
* **Texts.**  The style is chosen by the text (`TextStyle.ofText`); in each of them the
  reader of the style gives the text back.
-/

open Relation

namespace DalvikHorn.Yaml

namespace Lexer

/-! ## Runs -/

/-- The lexer reads one token: it goes from where this token starts to where the next one does. -/
def Reads (before after : Lexer) : Prop :=
  ∃ c rest lexer, before.cursor.rest = c :: rest ∧ before.readToken c rest = some lexer ∧
    lexer.toNextToken = some after ∧ after.cursor.rest.length < before.cursor.rest.length

/-- A run that ends with the text gives all tokens. -/
theorem readAll_of_reads {lexer before after last : Lexer} {bound : Nat}
    (hstart : lexer.toNextToken = some before) (hreads : ReflTransGen Reads before after)
    (hend : after.cursor.rest = []) (hlast : after.closeAllBlocks.dropKey = some last)
    (hbound : before.cursor.rest.length < bound) :
    readAll bound lexer = some last.tokens.reverse := by
  induction hreads using ReflTransGen.head_induction_on generalizing lexer bound with
  | refl =>
      obtain ⟨bound, rfl⟩ := Nat.exists_eq_succ_of_ne_zero (Nat.ne_zero_of_lt hbound)
      rw [readAll, hstart, Option.bind_eq_bind, Option.bind_some, hend]
      simp only [hlast, Option.bind_some]
      rfl
  | head hread _ ih =>
      obtain ⟨c, rest, next, hrest, htoken, hnext, hless⟩ := hread
      obtain ⟨bound, rfl⟩ := Nat.exists_eq_succ_of_ne_zero (Nat.ne_zero_of_lt hbound)
      rw [readAll, hstart, Option.bind_eq_bind, Option.bind_some, hrest]
      simp only [htoken, Option.bind_some]
      exact ih hnext (by omega)

/-! ## Where tokens start -/

/-- A lexer outside of flow collections in front of a text.  `keyAllowed` says whether a key may
start there. -/
def standing (keyAllowed : Bool) (tokens : List Token) (indents : List Nat) (position : Position)
    (rest : List Char) : Lexer where
  cursor := ⟨position, rest⟩
  tokens := tokens
  indents := indents
  keyAllowed := keyAllowed

variable {tokens : List Token} {indents outer : List Nat} {indent column : Nat}
  {position : Position} {body : List Char} {keyAllowed : Bool}

theorem skipGap_margin (inFlow : Bool) (column : Nat) (rest : List Char) :
    skipGap inFlow false keyAllowed position (margin column ++ rest) =
      skipGap inFlow false keyAllowed (position.afterAll (margin column)) rest := by
  induction column generalizing position with
  | zero => rfl
  | succ column ih =>
      have hspace : skipGap inFlow false keyAllowed position (' ' :: (margin column ++ rest)) =
          skipGap inFlow false keyAllowed (position.after ' ') (margin column ++ rest) := by
        rw [skipGap]
        simp [isBreak, byteOrderMark]
      exact hspace.trans ih

theorem skipGap_startsLine (inFlow : Bool) (hbody : StartsLine body) :
    skipGap inFlow false keyAllowed position body = (keyAllowed, ⟨position, body⟩) := by
  cases body with
  | nil => rfl
  | cons c rest =>
      obtain ⟨hgap, hcomment, hmark⟩ := hbody c rfl
      obtain ⟨hspacing, hbreak⟩ := Bool.or_eq_false_iff.mp hgap
      obtain ⟨hspace, htab⟩ := Bool.or_eq_false_iff.mp hspacing
      rw [skipGap]
      simp [hbreak, hspace, htab, hcomment, hmark]

/-- The end of a line and the margin of the next one are skipped. -/
theorem skipGap_nextLine (hbody : StartsLine body) :
    skipGap false false keyAllowed position ('\n' :: (margin column ++ body)) =
      (true, ⟨position.afterAll ('\n' :: margin column), body⟩) := by
  have hbreak : skipGap false false keyAllowed position ('\n' :: (margin column ++ body)) =
      skipGap false false true (position.after '\n') (margin column ++ body) := by
    rw [skipGap]
    simp [isBreak]
  rw [hbreak, skipGap_margin, skipGap_startsLine _ hbody]
  rfl

/-- The way to the next token, outside of flow collections. -/
theorem toNextToken_eq {lexer : Lexer} {allowed : Bool} {key : Option PossibleKey}
    (hflow : lexer.outerKeys = [])
    (hskip : skipGap false false lexer.keyAllowed lexer.cursor.position lexer.cursor.rest =
      (allowed, ⟨position, body⟩))
    (hkey : keepKey position lexer.possibleKey = some key) :
    lexer.toNextToken = some
      ({ standing allowed lexer.tokens lexer.indents position body with
        possibleKey := key }.closeBlocks position.column) := by
  have hinFlow : lexer.inFlow = false := by rw [inFlow, hflow]; rfl
  have hkeys : { lexer with cursor := ⟨position, body⟩, keyAllowed := allowed }.dropStaleKeys =
      some { standing allowed lexer.tokens lexer.indents position body with
        possibleKey := key } := by
    simp [dropStaleKeys, hkey, hflow, standing]
  rw [toNextToken, hinFlow, hskip]
  simp only [hkeys]
  rfl

/-- A possible key that need not be one is forgotten on the next line. -/
theorem keepKey_nextLine {key : Option PossibleKey}
    (hkey : ∀ possible ∈ key, possible.required = false ∧ possible.position.line < position.line) :
    keepKey position key = some none := by
  cases key with
  | none => rfl
  | some possible =>
      obtain ⟨hrequired, hline⟩ := hkey possible rfl
      simp [keepKey, hline, hrequired]

/-- No block ends at a column that is not less deep. -/
theorem closeBlocks_of_le {lexer : Lexer} (h : ∀ indent ∈ lexer.indents.head?, indent ≤ column) :
    lexer.closeBlocks column = lexer := by
  have hclosed : lexer.indents.takeWhile (column < ·) = [] := by
    cases hindents : lexer.indents with
    | nil => rfl
    | cons indent outer =>
        have hindent := h indent (by rw [hindents]; rfl)
        rw [List.takeWhile_cons_of_neg (by simpa using hindent)]
  rw [closeBlocks, hclosed]
  simp

theorem closeBlocks_standing {rest : List Char} (h : indent ≤ column) :
    (standing keyAllowed tokens (indent :: outer) position rest).closeBlocks column =
      standing keyAllowed tokens (indent :: outer) position rest := by
  refine closeBlocks_of_le fun indent' hindent' => ?_
  obtain rfl : indent = indent' := Option.some.inj hindent'
  exact h

/-! ## Tokens -/

/-- The first character of plain text starts a plain scalar. -/
theorem readToken_plain {lexer : Lexer} {c : Char} {text : List Char} (rest : List Char)
    (htext : PlainText (c :: text)) (hflow : lexer.outerKeys = [])
    (hstart : lexer.cursor.column = 0 → c ≠ '-' ∧ c ≠ '.') :
    lexer.readToken c (text ++ rest) = lexer.readPlainScalar := by
  have hinFlow : lexer.inFlow = false := by rw [inFlow, hflow]; rfl
  -- plain text may start with a mark that stands in front of no gap
  have hlead : ∀ mark, (mark = '-' ∨ mark = '?' ∨ mark = ':') →
      (decide (c = mark) && atGap (text ++ rest)) = false := by
    intro mark hmark
    by_cases hc : c = mark
    · rw [htext.not_atGap (hc ▸ hmark), Bool.and_false]
    · rw [decide_eq_false hc, Bool.false_and]
  -- document marks stand in the first column only
  have hdocument : ∀ mark, (mark = '-' ∨ mark = '.') →
      (decide (lexer.cursor.column = 0) && atDocumentMark mark (c :: (text ++ rest))) = false := by
    intro mark hmark
    by_cases hzero : lexer.cursor.column = 0
    · obtain ⟨hdash, hdot⟩ := hstart hzero
      rw [atDocumentMark_of_head, Bool.and_false]
      rcases hmark with rfl | rfl <;> simpa
    · rw [decide_eq_false hzero, Bool.false_and]
  have hne := htext.head_ne
  simp only [List.forall_mem_cons, List.not_mem_nil, false_implies, implies_true, and_true] at hne
  rw [readToken]
  simp only [hinFlow, hdocument, hlead, htext.startsPlain, hne, Bool.false_or, Bool.false_and,
    Bool.and_false, decide_false, Bool.false_eq_true, if_false, if_true, or_true, true_or,
    Bool.not_false]

theorem startsLine_plain {text : List Char} (rest : List Char) (htext : PlainText text)
    (hprintable : ∀ c ∈ text, isPrintable c = true) : StartsLine (text ++ rest) := by
  cases text with
  | nil => exact absurd rfl htext.ne_nil
  | cons c text =>
      intro d hd
      obtain rfl : c = d := Option.some.inj hd
      refine ⟨htext.isGap_head, htext.head_ne _ (by simp), ?_⟩
      rintro rfl
      exact absurd (hprintable _ List.mem_cons_self) (by decide)

/-! ## Texts -/

/-- The possible key that is kept where a key may stand, but need not. -/
def savedKey (keyAllowed : Bool) (tokens : List Token) (position : Position) : Option PossibleKey :=
  if keyAllowed then some ⟨false, tokens.length, position⟩ else none

theorem eq_of_mem_savedKey {key : PossibleKey} (h : key ∈ savedKey keyAllowed tokens position) :
    key = ⟨false, tokens.length, position⟩ := by
  rw [savedKey] at h
  split at h
  · exact (Option.some.inj h).symm
  · cases h

theorem saveKey_standing {rest : List Char} (hindent : indents.head? ≠ some position.column) :
    (standing keyAllowed tokens indents position rest).saveKey =
      some { standing keyAllowed tokens indents position rest with
        possibleKey := savedKey keyAllowed tokens position } := by
  cases keyAllowed with
  | false => rfl
  | true => simp [saveKey, savedKey, standing, dropKey, Cursor.column, inFlow, hindent]

/-- Where the lexer stands after a value: at a line that may close blocks. -/
def nextLine (tokens : List Token) (indents : List Nat) (position : Position) (body : List Char) :
    Lexer :=
  (standing true tokens indents position body).closeBlocks position.column

@[simp] theorem rest_nextLine :
    (nextLine tokens indents position body).cursor.rest = body := by
  rw [nextLine, closeBlocks]
  split <;> rfl

/-- From a value the lexer goes to the next line. -/
theorem toNextToken_nextLine {lexer : Lexer} (hflow : lexer.outerKeys = [])
    (hskip : skipGap false false lexer.keyAllowed lexer.cursor.position lexer.cursor.rest =
      (true, ⟨position, body⟩))
    (hkey : ∀ key ∈ lexer.possibleKey, key.required = false ∧ key.position.line < position.line) :
    lexer.toNextToken = some (nextLine lexer.tokens lexer.indents position body) :=
  toNextToken_eq hflow hskip (keepKey_nextLine hkey)

/-- The lexer reads some tokens and goes to a line that starts at a column. -/
def LeadsTo (before : Lexer) (tokens : List Token) (indents : List Nat) (column : Nat)
    (body : List Char) : Prop :=
  ∃ position : Position, position.column = column ∧
    ReflTransGen Reads before (nextLine tokens indents position body)

/-- A plain scalar and the way to the next line. -/
theorem leadsTo_plain {text : List Char} (htext : PlainText text)
    (hdeep : indent < position.column) (hcolumn : column ≤ indent) (hbody : StartsLine body) :
    (standing keyAllowed tokens (indent :: outer) position
      (text ++ '\n' :: (margin column ++ body))).LeadsTo
        (.scalar true (String.ofList text) :: tokens) (indent :: outer) column body := by
  have hsave := @saveKey_standing tokens (indent :: outer) position keyAllowed
    (text ++ '\n' :: (margin column ++ body)) (by simpa using Nat.ne_of_lt hdeep)
  have hscalar : (standing keyAllowed tokens (indent :: outer) position
      (text ++ '\n' :: (margin column ++ body))).readPlainScalar =
      some { standing true (.scalar true (String.ofList text) :: tokens) (indent :: outer)
          (position.afterAll (text ++ '\n' :: margin column)) body with
        possibleKey := savedKey keyAllowed tokens position } := by
    have hread := readPlain_value htext hdeep (by omega) (Nat.lt_succ_of_le hcolumn) hbody
    rw [readPlainScalar, hsave, Option.bind_eq_bind, Option.bind_some]
    exact congrArg (Option.bind · _) hread
  obtain ⟨c, rest, rfl⟩ := List.exists_cons_of_ne_nil htext.ne_nil
  refine ⟨position.afterAll (c :: rest ++ '\n' :: margin column),
    Position.column_afterAll_nextLine rfl (c :: rest) column, .single
    ⟨c, _, _, rfl, (readToken_plain _ htext rfl ?_).trans hscalar,
      toNextToken_nextLine rfl (skipGap_startsLine _ hbody) ?_, ?_⟩⟩
  · -- text inside a collection does not start in the first column
    intro hzero
    exact absurd hzero (Nat.ne_of_gt (Nat.zero_lt_of_lt hdeep))
  · intro key hkey
    rw [eq_of_mem_savedKey hkey]
    exact ⟨rfl, Position.line_lt_afterAll rfl _ _⟩
  · rw [rest_nextLine]
    simp [standing]
    omega

section Quoted

variable {quote : Char} {text written : List Char}

/-- A quoted scalar and the way to the next line, if the quotes can be read. -/
theorem leadsTo_quoted (hquote : quote = '\'' ∨ quote = '"') (hdeep : indent < position.column)
    (hread : readQuoted quote .plain .none [] (position.after quote)
      (written ++ '\n' :: (margin column ++ body)) =
        some (text, ⟨(position.after quote).afterAll written,
          '\n' :: (margin column ++ body)⟩))
    (hbody : StartsLine body) :
    (standing keyAllowed tokens (indent :: outer) position
      (quote :: (written ++ '\n' :: (margin column ++ body)))).LeadsTo
        (.scalar false (String.ofList text) :: tokens) (indent :: outer) column body := by
  have hsave := @saveKey_standing tokens (indent :: outer) position keyAllowed
    (quote :: (written ++ '\n' :: (margin column ++ body))) (by simpa using Nat.ne_of_lt hdeep)
  have hscalar : (standing keyAllowed tokens (indent :: outer) position
      (quote :: (written ++ '\n' :: (margin column ++ body)))).readQuotedScalar quote =
      some { standing false (.scalar false (String.ofList text) :: tokens) (indent :: outer)
          ((position.after quote).afterAll written) ('\n' :: (margin column ++ body)) with
        possibleKey := savedKey keyAllowed tokens position } := by
    rw [readQuotedScalar, readContent, hsave, Option.bind_eq_bind, Option.bind_some]
    exact congrArg (fun read => Option.bind (Option.bind read _) _) hread
  have htoken : ∀ lexer : Lexer, ∀ rest,
      lexer.readToken quote rest = lexer.readQuotedScalar quote := by
    intro lexer rest
    rcases hquote with rfl | rfl <;> simp [readToken, atDocumentMark]
  refine ⟨position.afterAll (quote :: written ++ '\n' :: margin column),
    Position.column_afterAll_nextLine rfl (quote :: written) column, .single
    ⟨quote, _, _, rfl, (htoken _ _).trans hscalar, toNextToken_nextLine rfl ?_ ?_, ?_⟩⟩
  · rw [Position.afterAll_append]
    exact skipGap_nextLine hbody
  · intro key hkey
    rw [eq_of_mem_savedKey hkey]
    exact ⟨rfl, Position.line_lt_afterAll rfl _ _⟩
  · rw [rest_nextLine]
    simp [standing]
    omega

end Quoted

/-- A literal block, after which the lexer is on the next line. -/
theorem leadsTo_literal {text : List Char} (hne : text ≠ [])
    (hprintable : ∀ c ∈ text, isPrintable c = true) (hcolumn : column ≤ indent)
    (hbody : StartsLine body) :
    (standing keyAllowed tokens (indent :: outer) position
      (literalHeader text ++
        (writeLiteral (indent + 2) true text ++ (margin column ++ body)))).LeadsTo
        (.scalar false (String.ofList text) :: tokens) (indent :: outer) column body := by
  obtain ⟨position', hposition, hread⟩ := @readBlock_literal column (indent + 1) text body
    (position.after '|') (Nat.succ_pos _) hne hprintable (Nat.le_succ_of_le hcolumn) hbody
  rw [literalHeader_eq]
  refine ⟨position', hposition, .single ⟨'|', _,
    standing true (.scalar false (String.ofList text) :: tokens) (indent :: outer) position' body,
    rfl, ?_, toNextToken_nextLine rfl (skipGap_startsLine _ hbody) nofun, ?_⟩⟩
  · have htoken : ∀ lexer : Lexer, lexer.inFlow = false → ∀ rest,
        lexer.readToken '|' rest = lexer.readBlockScalar true := by
      intro lexer hflow rest
      simp [readToken, atDocumentMark, hflow]
    rw [htoken _ rfl]
    exact congrArg (fun read => Option.bind read _) hread
  · rw [rest_nextLine]
    simp [standing]
    omega

/-! ## Styles -/

theorem ofText_plain {text : List Char} (h : TextStyle.ofText text = .plain) :
    TextStyle.isAmbiguous text = false ∧ TextStyle.allowsPlain text = true := by
  unfold TextStyle.ofText at h
  split at h
  · split at h <;> cases h
  · split at h
    · obtain ⟨hambiguous, hplain⟩ := Bool.and_eq_true_iff.mp ‹(_ && _) = true›
      exact ⟨(Bool.not_eq_true' _).mp hambiguous, hplain⟩
    · split at h <;> cases h

theorem ofText_singleQuoted {text : List Char} (h : TextStyle.ofText text = .singleQuoted) :
    '\n' ∉ text ∧ TextStyle.allowsSingleQuoted text = true := by
  unfold TextStyle.ofText at h
  split at h
  · split at h <;> cases h
  · refine ⟨by simpa using ‹¬ text.contains '\n' = true›, ?_⟩
    split at h
    · cases h
    · split at h
      · assumption
      · cases h

theorem ofText_literal {text : List Char} (h : TextStyle.ofText text = .literal) :
    '\n' ∈ text ∧ TextStyle.allowsLiteral text = true := by
  unfold TextStyle.ofText at h
  split at h
  · refine ⟨by simpa using ‹text.contains '\n' = true›, ?_⟩
    split at h
    · assumption
    · cases h
  · split at h
    · cases h
    · split at h <;> cases h

/-- A text that is written as it is can be read so. -/
theorem plainText_of_ofText {text : List Char} (h : TextStyle.ofText text = .plain) :
    PlainText text := by
  obtain ⟨hambiguous, hplain⟩ := ofText_plain h
  refine plainText_of_allowsPlain ?_ hplain
  rintro rfl
  exact absurd hambiguous (by decide)

/-- Any text of an entry and the way to the next line. -/
theorem leadsTo_text (text : String) (hdeep : indent < position.column) (hcolumn : column ≤ indent)
    (hbody : StartsLine body) :
    (standing keyAllowed tokens (indent :: outer) position
      (writeText (indent + 2) text.toList ++ (margin column ++ body))).LeadsTo
        (.scalar (TextStyle.ofText text.toList = .plain) text :: tokens) (indent :: outer) column
        body := by
  have htext : String.ofList text.toList = text := String.ofList_toList
  unfold writeText
  -- each style has a reader of its own, told apart by the first character
  cases hstyle : TextStyle.ofText text.toList with
  | plain =>
      have hread := @leadsTo_plain tokens outer indent column position body keyAllowed _
        (plainText_of_ofText hstyle) hdeep hcolumn hbody
      simpa [htext] using hread
  | singleQuoted =>
      obtain ⟨hfeed, hallows⟩ := ofText_singleQuoted hstyle
      obtain ⟨hescapes, hafter⟩ := Bool.and_eq_true_iff.mp hallows
      rw [Bool.not_eq_true'] at hescapes hafter
      have hprintable : ∀ c ∈ text.toList, isPrintable c = true ∧ c ≠ '\n' := by
        intro c hc
        refine ⟨isPrintable_of_not_needsEscapes hescapes c hc, ?_⟩
        rintro rfl
        exact hfeed hc
      have hread := @readQuoted_writeSingleQuoted (indent + 2) false .none [] text.toList
        ('\n' :: (margin column ++ body)) (position.after '\'') hprintable
        (Bool.or_eq_false_iff.mp hescapes).2 hafter .none (Nat.succ_pos _)
        (fun _ => Position.column_after_pos rfl) (by simp)
      have hreads := @leadsTo_quoted tokens outer indent column position body keyAllowed '\''
        text.toList _ (.inl rfl) hdeep hread hbody
      simpa [htext] using hreads
  | doubleQuoted =>
      have hread := @readQuoted_writeDoubleQuoted .none [] text.toList
        ('\n' :: (margin column ++ body)) (position.after '"') rfl (Position.column_after_pos rfl)
      have hreads := @leadsTo_quoted tokens outer indent column position body keyAllowed '"'
        text.toList _ (.inr rfl) hdeep hread hbody
      simpa [htext] using hreads
  | literal =>
      obtain ⟨hfeed, hallows⟩ := ofText_literal hstyle
      obtain ⟨hescapes, -⟩ := Bool.and_eq_true_iff.mp hallows
      rw [Bool.not_eq_true'] at hescapes
      have hreads := @leadsTo_literal tokens outer indent column position body keyAllowed
        text.toList (List.ne_nil_of_mem hfeed) (isPrintable_of_not_needsEscapes hescapes) hcolumn
        hbody
      simpa [htext] using hreads

/-! ## Sequences -/

theorem startsLine_nil : StartsLine [] := by
  intro c hc
  cases hc

theorem startsLine_cons {c : Char} (hgap : isGap c = false) (hcomment : c ≠ '#')
    (hmark : c ≠ byteOrderMark) (rest : List Char) : StartsLine (c :: rest) := by
  intro d hd
  obtain rfl : c = d := Option.some.inj hd
  exact ⟨hgap, hcomment, hmark⟩

theorem startsLine_writeText (column : Nat) (text rest : List Char) :
    StartsLine (writeText column text ++ rest) := by
  unfold writeText
  cases hstyle : TextStyle.ofText text with
  | plain =>
      rw [List.append_assoc]
      exact startsLine_plain _ (plainText_of_ofText hstyle)
        (isPrintable_of_allowsPlain (ofText_plain hstyle).2)
  | singleQuoted => exact startsLine_cons rfl (by decide) (by decide) _
  | doubleQuoted => exact startsLine_cons rfl (by decide) (by decide) _
  | literal =>
      rw [literalHeader_eq]
      exact startsLine_cons rfl (by decide) (by decide) _

/-- From the mark of an entry the lexer goes to its text. -/
theorem reads_entryMark {rest : List Char} (hposition : position.column = indent)
    (hrest : StartsLine rest) :
    Reads (standing true tokens (indent :: outer) position ('-' :: ' ' :: rest))
      (standing true (.blockEntry :: tokens) (indent :: outer) ((position.after '-').after ' ')
        rest) := by
  have hentry : (standing true tokens (indent :: outer) position ('-' :: ' ' :: rest)).readToken
      '-' (' ' :: rest) =
      some (standing true (.blockEntry :: tokens) (indent :: outer) (position.after '-')
        (' ' :: rest)) := by
    have htoken : ∀ lexer : Lexer, lexer.readToken '-' (' ' :: rest) = lexer.readBlockEntry := by
      intro lexer
      simp [readToken, atDocumentMark, atGap, isGap, isSpacing]
    have hopen : (standing true tokens (indent :: outer) position
        ('-' :: ' ' :: rest)).openBlockHere .blockSequence =
        some (standing true tokens (indent :: outer) position ('-' :: ' ' :: rest)) := by
      simp [openBlockHere, openBlock, standing, inFlow, leastColumn, Cursor.column, hposition]
    rw [htoken, readBlockEntry, hopen]
    rfl
  have hskip : skipGap false false true (position.after '-') (margin 1 ++ rest) =
      (true, ⟨(position.after '-').after ' ', rest⟩) := by
    rw [skipGap_margin, skipGap_startsLine _ hrest]
    rfl
  have hnext := @toNextToken_eq ((position.after '-').after ' ') rest
    (standing true (.blockEntry :: tokens) (indent :: outer) (position.after '-') (' ' :: rest))
    true none rfl hskip rfl
  -- the item stands deeper than its mark, so nothing is closed
  have hopen : indent ≤ ((position.after '-').after ' ').column := by
    rw [Position.column_after_of_not_isBreak rfl, Position.column_after_of_not_isBreak rfl]
    omega
  rw [closeBlocks_of_le (by simpa [standing] using hopen)] at hnext
  exact ⟨'-', _, _, rfl, hentry, hnext, Nat.lt_succ_of_lt (Nat.lt_succ_self _)⟩

/-- The marks and texts of some entries, a line after the margin of the first one. -/
def itemLines (column : Nat) (texts : List String) : List Char :=
  texts.flatMap fun text => margin column ++ ['-', ' '] ++ writeText (column + 2) text.toList

/-- The tokens of some entries. -/
def itemTokens (texts : List String) : List Token :=
  texts.flatMap fun text => [.blockEntry, .scalar (TextStyle.ofText text.toList = .plain) text]

theorem itemLines_cons (column : Nat) (text : String) (texts : List String) (rest : List Char) :
    itemLines column (text :: texts) ++ rest =
      margin column ++ ('-' :: ' ' ::
        (writeText (column + 2) text.toList ++ (itemLines column texts ++ rest))) := by
  simp [itemLines]

/-- Where a line leads on from the end of another one. -/
theorem LeadsTo.trans {before : Lexer} {middle last : List Token} {indents : List Nat}
    {rest : List Char} {column' : Nat} (h : before.LeadsTo middle (indent :: outer) column' rest)
    (hindent : indent ≤ column')
    (hrest : ∀ position : Position, position.column = column' →
      (standing true middle (indent :: outer) position rest).LeadsTo last indents column body) :
    before.LeadsTo last indents column body := by
  obtain ⟨position, hposition, hreads⟩ := h
  obtain ⟨position', hposition', hreads'⟩ := hrest position hposition
  rw [nextLine, closeBlocks_standing (by omega)] at hreads
  exact ⟨position', hposition', hreads.trans hreads'⟩

theorem leadsTo_item (text : String) (hposition : position.column = indent)
    (hcolumn : column ≤ indent) (hbody : StartsLine body) :
    (standing true tokens (indent :: outer) position
      ('-' :: ' ' :: (writeText (indent + 2) text.toList ++ (margin column ++ body)))).LeadsTo
        (.scalar (TextStyle.ofText text.toList = .plain) text :: .blockEntry :: tokens)
        (indent :: outer) column body := by
  have hdeep : indent < ((position.after '-').after ' ').column := by
    rw [Position.column_after_of_not_isBreak rfl, Position.column_after_of_not_isBreak rfl]
    omega
  obtain ⟨position', hposition', hreads⟩ := @leadsTo_text (.blockEntry :: tokens) outer indent
    column _ body true text hdeep hcolumn hbody
  exact ⟨position', hposition',
    .head (reads_entryMark hposition (startsLine_writeText _ _ _)) hreads⟩

/-- The entries of a sequence, from the mark of the first one. -/
theorem leadsTo_items (text : String) (texts : List String) (hposition : position.column = indent)
    (hcolumn : column ≤ indent) (hbody : StartsLine body) :
    (standing true tokens (indent :: outer) position ('-' :: ' ' ::
      (writeText (indent + 2) text.toList ++ (itemLines indent texts ++
        (margin column ++ body))))).LeadsTo
          ((itemTokens (text :: texts)).reverse ++ tokens) (indent :: outer) column body := by
  induction texts generalizing text tokens position with
  | nil => exact leadsTo_item text hposition hcolumn hbody
  | cons next texts ih =>
      rw [itemLines_cons]
      refine (leadsTo_item text hposition (Nat.le_refl indent)
        (startsLine_cons rfl (by decide) (by decide) _)).trans (Nat.le_refl indent) ?_
      intro position' hposition'
      have hrest := @ih (.scalar (TextStyle.ofText text.toList = .plain) text ::
        .blockEntry :: tokens) position' next hposition'
      simpa [itemTokens] using hrest

end Lexer

end DalvikHorn.Yaml
