import DalvikHorn.Proofs.YamlValues

/-!
# Documents that read back

What is written has printable characters only, so it is allowed in a document and no
end of a line in it is replaced.  With the tokens, the nodes and the values of the
document this gives `parse_documentText`: a document reads back as the fields that
its entries mean.
-/

namespace DalvikHorn.Yaml

open Lexer

/-! ## Characters -/

/-- A text of characters that can be written without an escape. -/
def IsPrintableText (text : List Char) : Prop :=
  ∀ c ∈ text, isPrintable c = true

namespace IsPrintableText

variable {c : Char} {first second : List Char}

theorem nil : IsPrintableText [] := by
  simp [IsPrintableText]

theorem cons (hc : isPrintable c = true) (h : IsPrintableText first) :
    IsPrintableText (c :: first) :=
  List.forall_mem_cons.mpr ⟨hc, h⟩

theorem append (h : IsPrintableText first) (h' : IsPrintableText second) :
    IsPrintableText (first ++ second) :=
  List.forall_mem_append.mpr ⟨h, h'⟩

theorem flatMap {α : Type} {f : α → List Char} {items : List α}
    (h : ∀ item ∈ items, IsPrintableText (f item)) : IsPrintableText (items.flatMap f) := by
  intro c hc
  obtain ⟨item, hitem, hc⟩ := List.mem_flatMap.mp hc
  exact h item hitem c hc

end IsPrintableText

open IsPrintableText

theorem isPrintable_word {text : List Char} (h : IsWord text) : IsPrintableText text :=
  fun _ => h.isPrintable

theorem isPrintable_margin (column : Nat) : IsPrintableText (margin column) := by
  intro c hc
  rw [List.eq_of_mem_replicate hc]
  rfl

theorem isPrintable_lineMargin (column : Nat) (lineStart : Bool) :
    IsPrintableText (lineMargin column lineStart) := by
  cases lineStart with
  | false => exact nil
  | true => exact isPrintable_margin column

/-! ### Texts -/

theorem isPrintable_writeSingleQuoted {column : Nat} {lineStart : Bool} {text : List Char}
    (h : IsPrintableText text) : IsPrintableText (writeSingleQuoted column lineStart text) := by
  induction text generalizing lineStart with
  | nil => exact (isPrintable_lineMargin column lineStart).append (cons rfl nil)
  | cons c rest ih =>
      obtain ⟨hc, hrest⟩ := List.forall_mem_cons.mp h
      rw [writeSingleQuoted]
      split
      · exact cons hc (ih hrest)
      · refine ((isPrintable_lineMargin column lineStart).append ?_).append (cons hc (ih hrest))
        split
        · exact cons rfl nil
        · exact nil

theorem isPrintable_hexDigits (count value : Nat) : IsPrintableText (hexDigits count value) := by
  have hdigit : ∀ value < 16, isPrintable (hexDigit value) = true := by decide
  intro c hc
  obtain ⟨i, -, rfl⟩ := List.mem_map.mp hc
  exact hdigit _ (Nat.mod_lt _ (by decide))

theorem isPrintable_escape (c : Char) : IsPrintableText (escape c) := by
  rw [escape]
  split
  · rename_i letter hletter
    unfold escapeLetter? at hletter
    split at hletter
    case h_15 => cases hletter
    all_goals
      obtain rfl := Option.some.inj hletter
      exact cons rfl nil
  · split
    · exact cons rfl (isPrintable_hexDigits _ _)
    · split
      · exact cons rfl (isPrintable_hexDigits _ _)
      · exact cons rfl (isPrintable_hexDigits _ _)

/-- Escapes are printable, whatever they stand for. -/
theorem isPrintable_writeDoubleQuoted (text : List Char) :
    IsPrintableText (writeDoubleQuoted text) := by
  induction text with
  | nil => exact cons rfl nil
  | cons c rest ih =>
      rw [writeDoubleQuoted]
      split
      · exact (cons rfl (isPrintable_escape c)).append ih
      · rename_i hplain
        have hc : isPrintable c = true := by
          by_contra hc
          simp [hc] at hplain
        exact (cons hc nil).append ih

theorem isPrintable_writeLiteral {column : Nat} {lineStart : Bool} {text : List Char}
    (h : IsPrintableText text) : IsPrintableText (writeLiteral column lineStart text) := by
  induction text generalizing lineStart with
  | nil =>
      rw [writeLiteral]
      split
      · exact nil
      · exact cons rfl nil
  | cons c rest ih =>
      obtain ⟨hc, hrest⟩ := List.forall_mem_cons.mp h
      rw [writeLiteral]
      split
      · exact cons hc (ih hrest)
      · exact (isPrintable_lineMargin column lineStart).append (cons hc (ih hrest))

theorem isPrintable_literalHeader (text : List Char) : IsPrintableText (literalHeader text) := by
  rw [literalHeader_eq, headerMarks]
  refine cons rfl ((append ?_ ?_).append (cons rfl nil))
  · split
    · exact cons rfl nil
    · exact nil
  · cases chompingOf text with
    | strip => exact cons rfl nil
    | keep => exact cons rfl nil
    | clip => exact nil

/-- Any text is written with printable characters only. -/
theorem isPrintable_writeText (column : Nat) (text : List Char) :
    IsPrintableText (writeText column text) := by
  have hend : IsPrintableText ['\n'] := cons rfl nil
  unfold writeText
  cases hstyle : TextStyle.ofText text with
  | plain => exact append (isPrintable_of_allowsPlain (ofText_plain hstyle).2) hend
  | singleQuoted =>
      have hescapes := (Bool.and_eq_true_iff.mp (ofText_singleQuoted hstyle).2).1
      rw [Bool.not_eq_true'] at hescapes
      exact cons rfl ((isPrintable_writeSingleQuoted
        (isPrintable_of_not_needsEscapes hescapes)).append hend)
  | doubleQuoted => exact cons rfl ((isPrintable_writeDoubleQuoted text).append hend)
  | literal =>
      have hescapes := (Bool.and_eq_true_iff.mp (ofText_literal hstyle).2).1
      rw [Bool.not_eq_true'] at hescapes
      exact (isPrintable_literalHeader text).append (isPrintable_writeLiteral
        (isPrintable_of_not_needsEscapes hescapes))

/-! ### Collections -/

theorem isPrintable_itemLines (column : Nat) (items : List String) :
    IsPrintableText (itemLines column items) :=
  flatMap fun _ _ => ((isPrintable_margin column).append (cons rfl (cons rfl nil))).append
    (isPrintable_writeText _ _)

theorem isPrintable_entryLine {entry : String × Content} (column : Nat) (h : IsEntry entry) :
    IsPrintableText (entryLine column entry) := by
  obtain ⟨key, content⟩ := entry
  have hlines : IsPrintableText (content.lines column) := by
    match content, h.content with
    | .word _, hword => exact cons rfl ((isPrintable_word hword).append (cons rfl nil))
    | .sequence [], _ => exact cons rfl (cons rfl (cons rfl (cons rfl nil)))
    | .sequence (_ :: _), _ => exact cons rfl (isPrintable_itemLines _ _)
  exact (isPrintable_word h.key.toIsWord).append (cons rfl hlines)

theorem isPrintable_mappingLines {entries : List (String × Content)} (column : Nat)
    (h : ∀ entry ∈ entries, IsEntry entry) : IsPrintableText (mappingLines column entries) :=
  flatMap fun entry hentry =>
    (isPrintable_margin column).append (isPrintable_entryLine column (h entry hentry))

/-! ## Documents -/

/-- In a printable text lines end with line feeds, or with characters that stay. -/
theorem normalizeBreaks_eq {text : List Char} (h : IsPrintableText text) :
    normalizeBreaks text = text := by
  induction text with
  | nil => rfl
  | cons c rest ih =>
      obtain ⟨hc, hrest⟩ := List.forall_mem_cons.mp h
      have hreturn : c ≠ '\r' := by
        rintro rfl
        cases hc
      have hnext : c ≠ '\x85' := by
        rintro rfl
        cases hc
      rw [normalizeBreaks, ih hrest]
      · simp [hreturn, hnext]
      · rintro rest' rfl
        exact absurd rfl hreturn

theorem isAllowed_of_isPrintable {c : Char} (h : isPrintable c = true) : isAllowed c = true := by
  simp only [isPrintable, isAllowed, Bool.or_eq_true, Bool.and_eq_true, decide_eq_true_eq] at *
  tauto

theorem scan_of_isPrintable {text : List Char} (h : IsPrintableText text) :
    Token.scan (String.ofList text) = readAll (text.length + 1) { cursor := { rest := text } } := by
  have hallowed : text.all isAllowed = true :=
    List.all_eq_true.mpr fun c hc => isAllowed_of_isPrintable (h c hc)
  rw [Token.scan, String.toList_ofList, if_pos hallowed, normalizeBreaks_eq h]

section Document

variable {before entries : List (String × Content)} {key : String}

/-- The text of a document has its tokens. -/
theorem scan_documentText (hbefore : ∀ entry ∈ before, IsEntry entry)
    (hentries : ∀ entry ∈ entries, IsEntry entry) (hkey : IsKey key.toList) (hfirst : before ≠ [])
    (hinner : entries ≠ []) :
    Token.scan (String.ofList (documentText before key entries)) =
      some (documentTokens before key entries) := by
  have hprintable : IsPrintableText (documentText before key entries) :=
    (isPrintable_mappingLines 0 hbefore).append ((isPrintable_word hkey.toIsWord).append
      (cons rfl (cons rfl (isPrintable_mappingLines 2 hentries))))
  obtain ⟨first, others, rfl⟩ := List.exists_cons_of_ne_nil hfirst
  obtain ⟨entry, more, rfl⟩ := List.exists_cons_of_ne_nil hinner
  obtain ⟨hfirst, hothers⟩ := List.forall_mem_cons.mp hbefore
  obtain ⟨hentry, hmore⟩ := List.forall_mem_cons.mp hentries
  rw [scan_of_isPrintable hprintable]
  exact readAll_documentText hfirst hothers hkey hentry hmore

/-- What an entry of a document reads back as. -/
def ReadsAs (entry : String × Content) (field : String × Value) : Prop :=
  IsEntry entry ∧ Value.EntryMeans entry field

/-- A document reads back as the fields that its entries mean. -/
theorem parse_documentText {outer inner : List (String × Value)}
    (hbefore : List.Forall₂ ReadsAs before outer) (hentries : List.Forall₂ ReadsAs entries inner)
    (hkey : IsKey key.toList) (htext : Scalar.ofText key = .string) (hfirst : before ≠ [])
    (hnonempty : entries ≠ []) (hnames : (outer.map (·.1) ++ [key]).Nodup)
    (hinner : (inner.map (·.1)).Nodup) :
    Value.parse (String.ofList (documentText before key entries)) =
      some (Value.ofFields (outer ++ [(key, Value.ofFields inner)])) := by
  obtain ⟨hlines, hmeans⟩ := (List.forall₂_and_left before outer).mp hbefore
  obtain ⟨hlines', hmeans'⟩ := (List.forall₂_and_left entries inner).mp hentries
  rw [Value.parse, Document.parse, scan_documentText hlines hlines' hkey hfirst hnonempty]
  exact Value.ofDocument_documentTokens hmeans hmeans' htext hnames hinner

end Document

end DalvikHorn.Yaml
