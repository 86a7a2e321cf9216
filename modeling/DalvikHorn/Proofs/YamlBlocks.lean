import DalvikHorn.Proofs.YamlScalars

/-!
# Literal blocks

A text of several lines is written as a literal block: its lines as they are, each
behind the margin, below a header.  `readBlock_literal` reads it back with every space
and every end of a line, also at the start and at the end, where only the header tells
them from the lines around the block.

## Strategy

* **Headers.**  The indentation is written if the first line does not show it, and the
  mark for the ends of lines says how many of them belong to the text.
* **Lines.**  `BlockText.whole` is what a reader has read, with the ends of lines that it
  has not yet given to the text.  The induction over the text
  (`readBlockLines_writeLiteral`) goes from one such state to the next, at the margin of
  a line or inside of it.
* **The end.**  Of the ends of lines behind the text a reader keeps all, one or none;
  `finish_chompingOf` says that the header has chosen right.
-/

namespace DalvikHorn.Yaml

/-! ## Headers -/

/-- What the header of a literal block has to say about the ends of lines after a text. -/
def chompingOf (text : List Char) : Chomping :=
  match text.reverse with
  | [] => .strip
  | [last] => if isBreak last then .keep else .strip
  | last :: previous :: _ =>
      if !isBreak last then .strip else if isBreak previous then .keep else .clip

/-- The mark of a header for the ends of lines. -/
def Chomping.mark : Chomping → List Char
  | .strip => ['-']
  | .keep => ['+']
  | .clip => []

/-- Whether the first line of a text does not show the indentation. -/
def hidesIndent (text : List Char) : Bool :=
  text.head?.any fun c => c = ' ' || isBreak c

/-- The header of a literal block after its first mark. -/
def headerMarks (text : List Char) : List Char :=
  (if hidesIndent text then ['2'] else []) ++ (chompingOf text).mark ++ ['\n']

theorem literalHeader_eq (text : List Char) : literalHeader text = '|' :: headerMarks text := by
  unfold literalHeader headerMarks chompingOf
  generalize text.reverse = reversed
  rcases reversed with _ | ⟨last, _ | ⟨previous, _⟩⟩
  · rfl
  · cases hlast : isBreak last <;> simp only [hlast] <;> rfl
  · cases hlast : isBreak last <;> cases hprevious : isBreak previous <;>
      simp only [hlast, hprevious] <;> rfl

/-- The header of a literal block is read as what it says. -/
theorem readHeader_headerMarks (text : List Char) (position : Position) (rest : List Char) :
    readHeader true ⟨position, headerMarks text ++ rest⟩ =
      some (⟨true, chompingOf text, if hidesIndent text then some 2 else none⟩,
        ⟨position.afterAll (headerMarks text), rest⟩) := by
  unfold headerMarks
  generalize chompingOf text = chomping
  cases hidesIndent text <;> cases chomping <;> rfl

theorem column_headerMarks (text : List Char) (position : Position) :
    (position.afterAll (headerMarks text)).column = 0 := by
  rw [headerMarks, Position.afterAll_append]
  rfl

/-! ## Lines -/

/-- What has been read of a block in front of the margin of a line. -/
structure BlockText.AtMargin (text : BlockText) : Prop where
  word : ∀ c ∈ text.read.head?, isBreak c = false
  ended : text.lastBreak = none → text.read = []
  breaks : ∀ c ∈ text.emptyLines ++ text.lastBreak.toList, isBreak c = true

/-- What has been read of a block within a line. -/
structure BlockText.InLine (text : BlockText) : Prop where
  word : ∀ c ∈ text.read.head?, isBreak c = false
  going : text.lastBreak = none
  full : text.emptyLines = []

/-- All that has been read, latest first. -/
def BlockText.whole (text : BlockText) : List Char :=
  text.emptyLines ++ (text.lastBreak.toList ++ text.read)

variable {header : BlockHeader} {least : Nat} {indent : Option Nat} {text : BlockText}
  {position : Position}

/-- The spaces of a margin are skipped, and the deepest column is kept. -/
theorem readBlockLines_margin {deepest : Nat} (column : Nat) (rest : List Char)
    (hindent : ∀ known ∈ indent, position.column + column ≤ known) :
    ∃ reached, reached ≤ max deepest (position.column + column) ∧
      readBlockLines header least indent (.margin deepest) text position
          (margin column ++ rest) =
        readBlockLines header least indent (.margin reached) text
          (position.afterAll (margin column)) rest := by
  induction column generalizing deepest position with
  | zero => exact ⟨deepest, Nat.le_max_left _ _, rfl⟩
  | succ column ih =>
      have hnext : (position.after ' ').column = position.column + 1 :=
        Position.column_after_of_not_isBreak rfl
      have hmargin : indent.all (position.column < ·) = true := by
        cases indent with
        | none => rfl
        | some known =>
            have hknown := hindent known rfl
            simp only [Option.all_some, decide_eq_true_eq]
            omega
      obtain ⟨reached, hreached, hread⟩ := @ih (position.after ' ') (max deepest position.column)
        fun known hknown => by
          have := hindent known hknown
          omega
      refine ⟨reached, by omega, ?_⟩
      rw [margin, List.replicate_succ, List.cons_append, readBlockLines, hmargin]
      exact hread

/-- The first character of a line shows the indentation, if that is not known. -/
theorem readBlockLines_startLine {deepest : Nat} {c : Char} {rest : List Char}
    (hheader : header.literal = true) (hbreak : isBreak c = false)
    (hindent : indent = some position.column ∨
      indent = none ∧ isSpacing c = false ∧ deepest ≤ position.column ∧
        least ≤ position.column ∧ 0 < position.column) :
    readBlockLines header least indent (.margin deepest) text position (c :: rest) =
      readBlockLines header least (some position.column) .line
        { read := c :: text.whole, startsSpaced := isSpacing c } (position.after c) rest := by
  have hbegun : text.startLine header.literal (isSpacing c) =
      { read := text.whole, startsSpaced := isSpacing c } := by
    rw [BlockText.startLine, hheader]
    rfl
  have hknown : indent.getD (detectIndent least (max deepest position.column)) =
      position.column := by
    rcases hindent with rfl | ⟨rfl, -, hdeepest, hleast, hpos⟩
    · rfl
    · rw [Option.getD_none, detectIndent]
      omega
  have hmargin : (indent.all (position.column < ·) && decide (c = ' ')) = false ∧
      (indent.all (position.column < ·) && decide (c = '\t')) = false := by
    rcases hindent with rfl | ⟨rfl, hspacing, -⟩
    · simp
    · simpa [isSpacing] using hspacing
  rw [readBlockLines]
  simp only [hmargin, hbreak, hknown, hbegun, Bool.false_eq_true, if_false, if_true]

theorem readBlockLines_break {c : Char} {rest : List Char} (hbreak : isBreak c = true) :
    readBlockLines header least indent .line text position (c :: rest) =
      readBlockLines header least indent (.margin 0) { text with lastBreak := some c }
        (position.after c) rest := by
  rw [readBlockLines]
  exact if_pos hbreak

theorem readBlockLines_char {c : Char} {rest : List Char} (hbreak : isBreak c = false) :
    readBlockLines header least indent .line text position (c :: rest) =
      readBlockLines header least indent .line { text with read := c :: text.read }
        (position.after c) rest := by
  rw [readBlockLines]
  exact if_neg (by rw [hbreak]; exact Bool.false_ne_true)

theorem readBlockLines_emptyLine {deepest : Nat} {c : Char} {rest : List Char}
    (hbreak : isBreak c = true) :
    readBlockLines header least indent (.margin deepest) text position (c :: rest) =
      readBlockLines header least indent (.margin (max deepest position.column))
        { text with emptyLines := c :: text.emptyLines } (position.after c) rest := by
  have hspacing : decide (c = ' ') = false ∧ decide (c = '\t') = false := by
    constructor <;>
    · refine decide_eq_false ?_
      rintro rfl
      cases hbreak
  rw [readBlockLines]
  simp only [hspacing, hbreak, Bool.and_false, Bool.false_eq_true, if_false, if_true]

/-- A text with the end of its last line. -/
def endLine (lineStart : Bool) : List Char → List Char
  | [] => if lineStart then [] else ['\n']
  | c :: rest => c :: endLine (isBreak c) rest

/-- Where a reader of a block stands: in front of the margin of a line, or within the line. -/
inductive Stands (text : BlockText) (position : Position) : Bool → BlockPart → Prop where
  | margin (deepest : Nat) (h : text.AtMargin) (hcolumn : position.column = 0) :
      Stands text position true (.margin deepest)
  | line (h : text.InLine) : Stands text position false .line

theorem BlockText.InLine.whole_eq (h : text.InLine) : text.whole = text.read := by
  rw [whole, h.going, h.full]
  rfl

/-- The end of a line leads in front of the next margin. -/
theorem BlockText.InLine.endLine (h : text.InLine) {c : Char} (hc : isBreak c = true) :
    { text with lastBreak := some c }.AtMargin ∧
      { text with lastBreak := some c }.whole = c :: text.whole := by
  refine ⟨⟨h.word, nofun, ?_⟩, ?_⟩
  · rw [h.full]
    exact List.forall_mem_singleton.mpr hc
  · rw [h.whole_eq, whole, h.full]
    rfl

/-- The end of an empty line leads in front of the next margin. -/
theorem BlockText.AtMargin.emptyLine (h : text.AtMargin) {c : Char} (hc : isBreak c = true) :
    { text with emptyLines := c :: text.emptyLines }.AtMargin where
  word := h.word
  ended := h.ended
  breaks := List.forall_mem_cons.mpr ⟨hc, h.breaks⟩

theorem BlockText.inLine_cons {c : Char} (hc : isBreak c = false) (read : List Char)
    (spaced : Bool) : BlockText.InLine { read := c :: read, startsSpaced := spaced } where
  word := by
    rintro d hd
    obtain rfl : c = d := Option.some.inj hd
    exact hc
  going := rfl
  full := rfl

theorem BlockText.InLine.cons (h : text.InLine) {c : Char} (hc : isBreak c = false) :
    { text with read := c :: text.read }.InLine where
  word := by
    rintro d hd
    obtain rfl : c = d := Option.some.inj hd
    exact hc
  going := h.going
  full := h.full

/-- The lines of a block of a known indentation are read up to the margin after them. -/
theorem readBlockLines_writeLiteral {column : Nat} {lineStart : Bool} {part : BlockPart}
    {written : List Char} (rest : List Char) (hheader : header.literal = true)
    (hstands : Stands text position lineStart part) :
    ∃ deepest last, last.AtMargin ∧
      last.whole = (endLine lineStart written).reverse ++ text.whole ∧
      (position.afterAll (writeLiteral column lineStart written)).column = 0 ∧
      readBlockLines header least (some column) part text position
          (writeLiteral column lineStart written ++ rest) =
        readBlockLines header least (some column) (.margin deepest) last
          (position.afterAll (writeLiteral column lineStart written)) rest := by
  induction written generalizing lineStart part text position with
  | nil =>
      cases hstands with
      | margin deepest h hcolumn => exact ⟨deepest, text, h, rfl, hcolumn, rfl⟩
      | line h =>
          obtain ⟨hmargin, hwhole⟩ := h.endLine (c := '\n') rfl
          refine ⟨0, _, hmargin, hwhole, ?_, ?_⟩
          · exact Position.column_after_of_isBreak (c := '\n') rfl
          · exact readBlockLines_break rfl
  | cons c written ih =>
      by_cases hbreak : isBreak c = true
      · -- the line ends, whether it is empty or not
        have hwritten : writeLiteral column lineStart (c :: written) =
            c :: writeLiteral column true written := if_pos hbreak
        have hcolumn := @Position.column_after_of_isBreak position _ hbreak
        rw [hwritten, endLine, hbreak, List.reverse_cons, List.append_assoc, List.singleton_append,
          List.cons_append, Position.afterAll_cons]
        cases hstands with
        | margin deepest h =>
            rw [readBlockLines_emptyLine hbreak]
            exact ih (.margin _ (h.emptyLine hbreak) hcolumn)
        | line h =>
            rw [readBlockLines_break hbreak, ← (h.endLine hbreak).2]
            exact ih (.margin _ (h.endLine hbreak).1 hcolumn)
      · -- the first character of a line comes behind the margin, the others directly
        have hunbroken : isBreak c = false := by simpa using hbreak
        have hwritten : writeLiteral column lineStart (c :: written) =
            lineMargin column lineStart ++ c :: writeLiteral column false written := if_neg hbreak
        rw [hwritten, endLine, hunbroken, List.reverse_cons, List.append_assoc,
          List.singleton_append, List.append_assoc, List.cons_append, Position.afterAll_append,
          Position.afterAll_cons]
        cases hstands with
        | margin deepest h hcolumn =>
            have hreached : (position.afterAll (margin column)).column = column := by
              rw [Position.column_afterAll_margin, hcolumn, Nat.zero_add]
            obtain ⟨reached, -, hmargin⟩ := @readBlockLines_margin header least (some column) text
              position deepest column (c :: (writeLiteral column false written ++ rest))
              fun known hknown => by
                obtain rfl : column = known := Option.some.inj hknown
                omega
            rw [lineMargin, if_pos rfl, hmargin,
              readBlockLines_startLine hheader hunbroken (.inl (by rw [hreached])), hreached]
            have hinside := BlockText.inLine_cons hunbroken text.whole (isSpacing c)
            -- within the line the column is known
            have hread := @ih _ ((position.afterAll (margin column)).after c) _ _ (.line hinside)
            rw [hinside.whole_eq] at hread
            exact hread
        | line h =>
            have hmargin : lineMargin column false = [] := rfl
            rw [hmargin, List.nil_append, readBlockLines_char hunbroken, h.whole_eq]
            have hread := @ih _ (position.after c) _ _ (.line (h.cons hunbroken))
            rw [(h.cons hunbroken).whole_eq] at hread
            exact hread

/-- The first line of a block shows the indentation, if the header does not say it. -/
theorem readBlockLines_shown {column : Nat} {written : List Char} (rest : List Char)
    (hheader : header.literal = true) (hleast : least ≤ column) (hpos : 0 < column)
    (hcolumn : position.column = 0) (hne : written ≠ []) (hshown : hidesIndent written = false)
    (hprintable : ∀ c ∈ written, isPrintable c = true) :
    readBlockLines header least none (.margin 0) {} position
        (writeLiteral column true written ++ rest) =
      readBlockLines header least (some column) (.margin 0) {} position
        (writeLiteral column true written ++ rest) := by
  cases written with
  | nil => exact absurd rfl hne
  | cons c written =>
      obtain ⟨hspace, hbreak⟩ := Bool.or_eq_false_iff.mp hshown
      -- a printable character that is no space starts a word
      have hword : isSpacing c = false := by
        by_contra hspacing
        have hgap : isGap c = true := by
          rw [isGap, (Bool.not_eq_false _).mp hspacing, Bool.true_or]
        have hc := eq_space_of_isGap (hprintable c List.mem_cons_self) hgap hbreak
        exact absurd hc (by simpa using hspace)
      have hreached : (position.afterAll (margin column)).column = column := by
        rw [Position.column_afterAll_margin, hcolumn, Nat.zero_add]
      have hwritten : writeLiteral column true (c :: written) ++ rest =
          margin column ++ c :: (writeLiteral column false written ++ rest) := by
        rw [writeLiteral, if_neg (by rw [hbreak]; exact Bool.false_ne_true), if_pos rfl,
          List.append_assoc, List.cons_append]
      -- the indentation is found at the first line, and is the one written
      obtain ⟨reached, hbound, hopen⟩ := @readBlockLines_margin header least none {} position 0
        column (c :: (writeLiteral column false written ++ rest)) fun known hknown =>
          absurd hknown (Option.not_mem_none known)
      obtain ⟨reached', -, hknown⟩ := @readBlockLines_margin header least (some column) {} position
        0 column (c :: (writeLiteral column false written ++ rest)) fun known hknown => by
          obtain rfl : column = known := Option.some.inj hknown
          omega
      rw [hwritten, hopen, hknown,
        readBlockLines_startLine hheader hbreak (.inr ⟨rfl, hword, by omega, by omega, by omega⟩),
        readBlockLines_startLine hheader hbreak (.inl (by rw [hreached]))]

/-- A block ends before a line that is less deep. -/
theorem readBlockLines_nextLine {column known deepest : Nat} {body : List Char}
    (hposition : position.column = 0) (hcolumn : column < known) (hbody : StartsLine body) :
    readBlockLines header least (some known) (.margin deepest) text position
        (margin column ++ body) =
      some (text.finish header.chomping, ⟨position.afterAll (margin column), body⟩) := by
  have hreached : (position.afterAll (margin column)).column = column := by
    rw [Position.column_afterAll_margin, hposition, Nat.zero_add]
  obtain ⟨reached, -, hmargin⟩ := @readBlockLines_margin header least (some known) text position
    deepest column body fun known' hknown => by
      obtain rfl : known = known' := Option.some.inj hknown
      omega
  rw [hmargin]
  cases body with
  | nil => rfl
  | cons c rest =>
      obtain ⟨hgap, -, -⟩ := hbody c rfl
      obtain ⟨hspacing, hbreak⟩ := Bool.or_eq_false_iff.mp hgap
      obtain ⟨hspace, htab⟩ := Bool.or_eq_false_iff.mp hspacing
      have hless : column ≠ known := by omega
      rw [readBlockLines]
      simp only [hspace, htab, hbreak, hreached, hless, Bool.and_false, Bool.false_eq_true,
        if_false, Option.getD_some]

/-! ## Ends of lines after a text -/

theorem endLine_eq (lineStart : Bool) (text : List Char) :
    endLine lineStart text =
      text ++ if (text.getLast?.map isBreak).getD lineStart then [] else ['\n'] := by
  induction text generalizing lineStart with
  | nil => cases lineStart <;> rfl
  | cons c rest ih =>
      rw [endLine, ih, List.cons_append, List.getLast?_cons]
      cases rest.getLast? <;> rfl

theorem BlockText.whole_eq (text : BlockText) :
    text.whole = (text.emptyLines ++ text.lastBreak.toList) ++ text.read := by
  rw [whole, List.append_assoc]

namespace BlockText.AtMargin

variable (h : text.AtMargin)

include h

/-- The text without the ends of lines after it. -/
theorem read_eq : text.read = text.whole.dropWhile isBreak := by
  rw [text.whole_eq, List.dropWhile_append_of_pos h.breaks]
  cases hread : text.read with
  | nil => rfl
  | cons c rest =>
      have hword := h.word c (by rw [hread]; rfl)
      exact (List.dropWhile_cons_of_neg (by simp [hword])).symm

/-- The ends of lines after the text. -/
theorem breaks_eq : text.emptyLines ++ text.lastBreak.toList = text.whole.takeWhile isBreak := by
  rw [text.whole_eq, List.takeWhile_append_of_pos h.breaks]
  cases hread : text.read with
  | nil => simp
  | cons c rest =>
      have hword := h.word c (by rw [hread]; rfl)
      rw [List.takeWhile_cons_of_neg (by simp [hword]), List.append_nil]

/-- If one end of a line stands after the text, no line after it is empty. -/
theorem emptyLines_eq_nil {last previous : Char} {before : List Char}
    (hwhole : text.whole = last :: previous :: before) (hlast : isBreak last = true)
    (hprevious : isBreak previous = false) : text.emptyLines = [] := by
  have hbreaks : text.emptyLines ++ text.lastBreak.toList = [last] := by
    rw [h.breaks_eq, hwhole]
    simp [hlast, hprevious]
  cases hend : text.lastBreak with
  | none =>
      have hread := h.read_eq
      rw [h.ended hend, hwhole] at hread
      simp [hlast, hprevious] at hread
  | some c =>
      rw [hend] at hbreaks
      rcases List.append_eq_singleton_iff.mp hbreaks with ⟨hempty, -⟩ | ⟨-, hother⟩
      · exact hempty
      · simp at hother

/-- What is done with the ends of lines after a text restores it. -/
theorem finish_chompingOf {written : List Char} (hne : written ≠ [])
    (hwhole : text.whole = (endLine true written).reverse) :
    text.finish (chompingOf written) = written := by
  obtain ⟨last, before, hreverse⟩ := List.exists_cons_of_ne_nil (List.reverse_ne_nil_iff.mpr hne)
  have hwritten : written = (last :: before).reverse := by rw [← hreverse, List.reverse_reverse]
  have hlast : written.getLast? = some last := by rw [hwritten, List.getLast?_reverse]; rfl
  rw [endLine_eq, hlast, List.reverse_append, hreverse, Option.map_some, Option.getD_some]
    at hwhole
  rw [chompingOf, hreverse]
  cases hbreak : isBreak last with
  | false =>
      -- the end of the last line is not part of the text
      have hread : text.read = last :: before := by
        rw [h.read_eq, hwhole, hbreak]
        exact (List.dropWhile_cons_of_pos rfl).trans
          (List.dropWhile_cons_of_neg (by simp [hbreak]))
      have hfinish : text.finish .strip = written := by
        rw [finish, hread, hwritten]
      cases before <;> simpa [hbreak] using hfinish
  | true =>
      rw [hbreak] at hwhole
      have hall : text.whole.reverse = written := by
        rw [hwhole, hwritten]
        rfl
      cases before with
      | nil =>
          simp only [hbreak, if_true]
          exact hall
      | cons previous before =>
          cases hprevious : isBreak previous with
          | true =>
              simp only [hbreak, hprevious, Bool.not_true, Bool.false_eq_true, if_true, if_false]
              exact hall
          | false =>
              -- the end of the last line is the only one after the text
              have hempty := h.emptyLines_eq_nil (hwhole.trans rfl) hbreak hprevious
              have hfinish : text.finish .clip = text.whole.reverse := by
                rw [finish, whole, hempty]
                rfl
              simp only [hbreak, hprevious, Bool.not_true, Bool.false_eq_true, if_false]
              rw [hfinish, hall]

end BlockText.AtMargin

/-! ## Blocks -/

/-- A text that is written as a literal block is read from it. -/
theorem readBlock_literal {column least : Nat} {written body : List Char} {position : Position}
    (hleast : 0 < least) (hne : written ≠ []) (hprintable : ∀ c ∈ written, isPrintable c = true)
    (hcolumn : column ≤ least) (hbody : StartsLine body) :
    ∃ position' : Position, position'.column = column ∧
      readBlock true least ⟨position, headerMarks written ++
          (writeLiteral (least + 1) true written ++ (margin column ++ body))⟩ =
        some (written, ⟨position', body⟩) := by
  have hstart := column_headerMarks written position
  obtain ⟨deepest, last, hmargin, hwhole, hend, hread⟩ := @readBlockLines_writeLiteral
    ⟨true, chompingOf written, if hidesIndent written then some 2 else none⟩ least {}
    (position.afterAll (headerMarks written)) (least + 1) true (.margin 0) written
    (margin column ++ body) rfl (.margin 0 ⟨nofun, fun _ => rfl, nofun⟩ hstart)
  have hknown := hread.trans (readBlockLines_nextLine hend (by omega) hbody)
  rw [hmargin.finish_chompingOf hne (by rw [hwhole]; exact List.append_nil _)] at hknown
  refine ⟨((position.afterAll (headerMarks written)).afterAll
    (writeLiteral (least + 1) true written)).afterAll (margin column), ?_, ?_⟩
  · rw [Position.column_afterAll_margin, hend, Nat.zero_add]
  · rw [readBlock, readHeader_headerMarks]
    refine Eq.trans ?_ hknown
    cases hhides : hidesIndent written with
    | true =>
        have hsum : least - 1 + 2 = least + 1 := by omega
        exact congrArg (fun indent => readBlockLines _ least (some indent) _ _ _ _) hsum
    | false => exact readBlockLines_shown _ rfl (by omega) (by omega) hstart hne hhides hprintable

end DalvikHorn.Yaml
