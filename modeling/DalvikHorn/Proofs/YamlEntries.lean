import DalvikHorn.Proofs.YamlLines

/-!
# Entries of mappings

A key becomes one only when the lexer meets the mark of a value behind it: then the
marks of the key and of the mapping are put in front of it.  Here whole mappings are
followed, and a document that is a mapping with another one as its last value
(`readAll_documentText`).

## Strategy

* **Keys.**  A key ends on its line and is short, so it stays possible
  (`toNextToken_afterKey`), and `readToken_afterKey` puts the marks before it.  Whether
  there is one of a mapping depends on the column of the key; `Enters` says how.
* **Entries.**  `leadsTo_content` follows what is written for a key, and
  `leadsTo_entries` one entry after the other by induction.
-/

open Relation

namespace DalvikHorn.Yaml

namespace Lexer

variable {tokens : List Token} {indents : List Nat} {column : Nat} {position : Position}

/-! ## Mappings -/

/-- What becomes of the tokens and the open blocks before a key at a column: the key belongs to
the innermost block, or opens one. -/
inductive Enters (tokens : List Token) (indents : List Nat) (column : Nat) :
    List Token → List Nat → Prop where
  | same (h : indents.head? = some column) : Enters tokens indents column tokens indents
  | deeper (h : ∀ indent ∈ indents.head?, indent < column) :
      Enters tokens indents column (.blockMapping :: tokens) (column :: indents)

theorem Enters.le {tokens' : List Token} {indents' : List Nat}
    (h : Enters tokens indents column tokens' indents') :
    ∀ indent ∈ indents.head?, indent ≤ column := by
  intro indent hindent
  cases h with
  | same h =>
      rw [h] at hindent
      exact Nat.le_of_eq (Option.some.inj hindent).symm
  | deeper h => exact Nat.le_of_lt (h indent hindent)

/-- A token is put in front of some recent ones. -/
theorem insert_eq {lexer : Lexer} {recent : List Token} (h : lexer.tokens = recent ++ tokens)
    (token : Token) :
    lexer.insert tokens.length token = { lexer with tokens := recent ++ token :: tokens } := by
  have hlength : lexer.tokens.length - tokens.length = recent.length := by
    rw [h, List.length_append, Nat.add_sub_cancel]
  rw [insert, hlength, h, List.take_left, List.drop_left]

/-- The start of a block is put in front of its first key. -/
theorem Enters.openBlock {lexer : Lexer} {recent tokens' : List Token} {indents' : List Nat}
    (h : Enters tokens indents column tokens' indents') (hflow : lexer.outerKeys = [])
    (htokens : lexer.tokens = recent ++ tokens) (hindents : lexer.indents = indents) :
    lexer.openBlock column tokens.length .blockMapping =
      { lexer with tokens := recent ++ tokens', indents := indents' } := by
  have hinFlow : lexer.inFlow = false := by rw [inFlow, hflow]; rfl
  cases h with
  | same h =>
      obtain ⟨outer, rfl⟩ := List.head?_eq_some_iff.mp h
      have hleast : column < lexer.leastColumn := by
        rw [leastColumn, hindents]
        exact Nat.lt_succ_self _
      rw [Lexer.openBlock, if_pos (by simp [hleast]), ← htokens, ← hindents]
  | deeper h =>
      have hleast : lexer.leastColumn ≤ column := by
        rw [leastColumn, hindents]
        cases indents with
        | nil => exact Nat.zero_le _
        | cons indent outer => exact h indent rfl
      rw [Lexer.openBlock, if_neg (by simpa [hinFlow] using hleast), insert_eq htokens, hindents]

/-- A key that is short enough for the lexer: a word of at most 256 letters. -/
structure IsKey (key : List Char) : Prop extends IsWord key where
  short : key.length ≤ 256

section Key

variable {key : String} {rest : List Char}

/-- Where the lexer stands after a possible key. -/
def afterKey (tokens : List Token) (indents : List Nat) (position : Position) (key : String)
    (rest : List Char) : Lexer where
  cursor := ⟨position.afterAll key.toList, ':' :: rest⟩
  tokens := .scalar true key :: tokens
  indents := indents
  keyAllowed := false
  possibleKey := some ⟨indents.head? = some position.column, tokens.length, position⟩

theorem isBreak_of_isKey (hkey : IsKey key.toList) : ∀ c ∈ key.toList, isBreak c = false :=
  fun _ hc => isBreak_of_not_isGap (hkey.isGap hc)

/-- A key ends on its line and is short, so it stays possible. -/
theorem toNextToken_afterKey (hkey : IsKey key.toList)
    (hindents : ∀ indent ∈ indents.head?, indent ≤ position.column) :
    (afterKey tokens indents position key rest).toNextToken =
      some (afterKey tokens indents position key rest) := by
  have hkeep : keepKey (position.afterAll key.toList)
      (afterKey tokens indents position key rest).possibleKey =
      some (afterKey tokens indents position key rest).possibleKey := by
    -- a key is short and on one line, so the mark for it is not dropped
    have hoffset := @Position.offset_afterAll_le position key.toList
    have hshort := hkey.short
    have hstale : (decide (position.line < (position.afterAll key.toList).line) ||
        decide (position.offset + 1024 < (position.afterAll key.toList).offset)) = false := by
      rw [Position.line_afterAll (isBreak_of_isKey hkey)]
      simp
      omega
    exact if_neg (by rw [hstale]; exact Bool.false_ne_true)
  have hskip := @skipGap_startsLine (position.afterAll key.toList) (':' :: rest) false false
    (startsLine_cons rfl (by decide) (by decide) _)
  have hnext := @toNextToken_eq (position.afterAll key.toList) (':' :: rest)
    (afterKey tokens indents position key rest) false _ rfl hskip hkeep
  -- the reader stands behind the key, which closes no block
  have hcolumn : position.column ≤ (position.afterAll key.toList).column := by
    rw [Position.column_afterAll (isBreak_of_isKey hkey)]
    exact Nat.le_add_right _ _
  rw [closeBlocks_of_le fun indent hindent => Nat.le_trans (hindents indent hindent) hcolumn]
    at hnext
  exact hnext

theorem reads_key (hkey : IsKey key.toList) (hrest : atGap rest = true)
    (hindents : ∀ indent ∈ indents.head?, indent ≤ position.column) :
    Reads (standing true tokens indents position (key.toList ++ ':' :: rest))
      (afterKey tokens indents position key rest) := by
  have hscalar : (standing true tokens indents position
      (key.toList ++ ':' :: rest)).readPlainScalar =
      some (afterKey tokens indents position key rest) := by
    have hread := fun indent => @readPlain_key indent key.toList rest position hkey.toIsWord hrest
    -- the place of the key is kept, in case a colon follows
    have hsave : (standing true tokens indents position (key.toList ++ ':' :: rest)).saveKey =
        some { standing true tokens indents position (key.toList ++ ':' :: rest) with
          possibleKey :=
            some ⟨indents.head? = some position.column, tokens.length, position⟩ } := by
      simp only [saveKey, standing, dropKey, Cursor.column, inFlow]
      rfl
    rw [readPlainScalar, hsave, Option.bind_eq_bind, Option.bind_some]
    refine (congrArg (Option.bind · _) (hread _)).trans ?_
    simp [afterKey, standing, push]
  -- the first character starts a plain scalar, as no key starts with a mark
  obtain ⟨c, text, htext⟩ := List.exists_cons_of_ne_nil hkey.ne_nil
  have hword := hkey.toIsWord
  rw [htext] at hword
  have htoken := @readToken_plain (standing true tokens indents position
    (key.toList ++ ':' :: rest)) c text (':' :: rest) hword.plainText rfl fun _ =>
      ⟨hword.ne_of_mem List.mem_cons_self (by decide),
        hword.ne_of_mem List.mem_cons_self (by decide)⟩
  refine ⟨c, text ++ ':' :: rest, _, ?_, htoken.trans hscalar,
    toNextToken_afterKey hkey hindents, ?_⟩
  · simp only [standing, htext, List.cons_append]
  · simp only [standing, afterKey, htext, List.length_append, List.length_cons]
    omega

/-- The mark of a value makes a key of the word before it. -/
theorem readToken_afterKey {tokens' : List Token} {indents' : List Nat} (hrest : atGap rest = true)
    (henters : Enters tokens indents position.column tokens' indents') :
    (afterKey tokens indents position key rest).readToken ':' rest =
      some (standing false (.value :: .scalar true key :: .key :: tokens') indents'
        ((position.afterAll key.toList).after ':') rest) := by
  have htoken : ∀ lexer : Lexer, lexer.readToken ':' rest = lexer.readValueMark := by
    intro lexer
    simp [readToken, atDocumentMark, hrest]
  rw [htoken, readValueMark]
  have hinsert : (afterKey tokens indents position key rest).insert tokens.length .key =
      { afterKey tokens indents position key rest with
        tokens := [.scalar true key] ++ .key :: tokens } := insert_eq rfl _
  have hopen := @Enters.openBlock tokens indents position.column
    { afterKey tokens indents position key rest with
      tokens := [.scalar true key, .key] ++ tokens } _ _ _ henters rfl rfl rfl
  simp only [afterKey] at hinsert hopen ⊢
  rw [hinsert]
  exact congrArg (fun marked : Lexer => some { { marked with
    possibleKey := none, keyAllowed := false }.push .value with cursor := marked.cursor.next })
    hopen

end Key

end Lexer

/-- What is written for a key: a word, or a sequence of texts. -/
inductive Content where
  | word (text : String)
  | sequence (items : List String)

namespace Content

/-- The text after the colon of a key at a column. -/
def lines (column : Nat) : Content → List Char
  | .word text => ' ' :: (text.toList ++ ['\n'])
  | .sequence [] => [' ', '[', ']', '\n']
  | .sequence items => '\n' :: Lexer.itemLines column items

/-- The tokens after the mark of a value. -/
def tokens : Content → List Token
  | .word text => [.scalar true text]
  | .sequence [] => [.flowSequence, .flowSequenceEnd]
  | .sequence items => Lexer.itemTokens items

/-- Words are what they are meant to be. -/
def IsProper : Content → Prop
  | .word text => IsWord text.toList
  | .sequence _ => True

theorem atGap_lines (content : Content) (column : Nat) (rest : List Char) :
    atGap (content.lines column ++ rest) = true := by
  match content with
  | .word _ => rfl
  | .sequence [] => rfl
  | .sequence (_ :: _) => rfl

end Content

namespace Lexer

variable {tokens : List Token} {indents outer : List Nat} {indent column : Nat}
  {position : Position} {body : List Char}

/-- A sequence without entries. -/
theorem leadsTo_emptySequence (hbody : StartsLine body) :
    (standing false tokens (indent :: outer) position
      ('[' :: ']' :: '\n' :: (margin column ++ body))).LeadsTo
        (.flowSequenceEnd :: .flowSequence :: tokens) (indent :: outer) column body := by
  -- three tokens are read: the opening bracket, the closing one, and the next line
  have hopen : (standing false tokens (indent :: outer) position
      ('[' :: ']' :: '\n' :: (margin column ++ body))).readToken '['
        (']' :: '\n' :: (margin column ++ body)) =
      some { standing true (.flowSequence :: tokens) (indent :: outer) (position.after '[')
          (']' :: '\n' :: (margin column ++ body)) with outerKeys := [none] } := by
    simp [readToken, atDocumentMark, openFlow, saveKey, standing, push, Cursor.next]
  have hwithin : ({ standing true (.flowSequence :: tokens) (indent :: outer) (position.after '[')
      (']' :: '\n' :: (margin column ++ body)) with outerKeys := [none] }).toNextToken =
      some { standing true (.flowSequence :: tokens) (indent :: outer) (position.after '[')
        (']' :: '\n' :: (margin column ++ body)) with outerKeys := [none] } := by
    have hskip := @skipGap_startsLine (position.after '[') (']' :: '\n' :: (margin column ++ body))
      true true (startsLine_cons rfl (by decide) (by decide) _)
    rw [toNextToken]
    simp [standing, inFlow, hskip, dropStaleKeys, keepKey, closeBlocks]
  have hclose : ({ standing true (.flowSequence :: tokens) (indent :: outer) (position.after '[')
      (']' :: '\n' :: (margin column ++ body)) with outerKeys := [none] }).readToken ']'
        ('\n' :: (margin column ++ body)) =
      some (standing false (.flowSequenceEnd :: .flowSequence :: tokens) (indent :: outer)
        ((position.after '[').after ']') ('\n' :: (margin column ++ body))) := by
    simp [readToken, atDocumentMark, closeFlow, dropKey, standing, push, Cursor.next]
  have hnext := @toNextToken_nextLine _ body (standing false (.flowSequenceEnd :: .flowSequence ::
    tokens) (indent :: outer) ((position.after '[').after ']') ('\n' :: (margin column ++ body)))
    rfl (skipGap_nextLine hbody) fun key hkey => absurd hkey (Option.not_mem_none key)
  refine ⟨_, ?_, .head ⟨'[', _, _, rfl, hopen, hwithin, Nat.lt_succ_self _⟩
    (.single ⟨']', _, _, rfl, hclose, hnext, ?_⟩)⟩
  · exact Position.column_afterAll_nextLine rfl [] column
  · rw [rest_nextLine]
    simp [standing]
    omega

/-- A value on the line of its key. -/
theorem toNextToken_sameLine {rest : List Char} (hdeep : indent < position.column)
    (hrest : StartsLine rest) :
    (standing false tokens (indent :: outer) position (' ' :: rest)).toNextToken =
      some (standing false tokens (indent :: outer) (position.after ' ') rest) := by
  have hskip : skipGap false false false position (margin 1 ++ rest) =
      (false, ⟨position.after ' ', rest⟩) := by
    rw [skipGap_margin, skipGap_startsLine _ hrest]
    rfl
  have hcolumn : indent ≤ (position.after ' ').column := by
    rw [Position.column_after_of_not_isBreak rfl]
    omega
  have hnext := @toNextToken_eq (position.after ' ') rest
    (standing false tokens (indent :: outer) position (' ' :: rest)) false none rfl hskip rfl
  rwa [closeBlocks_of_le (by simpa [standing] using hcolumn)] at hnext

/-- A value on the lines after that of its key. -/
theorem toNextToken_newLine {rest : List Char} (hcolumn : indent ≤ column)
    (hrest : StartsLine rest) :
    (standing false tokens (indent :: outer) position
      ('\n' :: (margin column ++ rest))).toNextToken =
        some (standing true tokens (indent :: outer) (position.afterAll ('\n' :: margin column))
          rest) := by
  have hposition := @Position.column_afterAll_nextLine position '\n' rfl [] column
  have hnext := @toNextToken_nextLine _ _ (standing false tokens (indent :: outer) position
    ('\n' :: (margin column ++ rest))) rfl (skipGap_nextLine hrest) nofun
  rw [nextLine, closeBlocks_of_le] at hnext
  · exact hnext
  · intro indent' hindent'
    obtain rfl : indent = indent' := Option.some.inj hindent'
    exact Nat.le_trans hcolumn (Nat.le_of_eq hposition.symm)

/-- What the lexer reads after the colon of a key. -/
theorem leadsTo_content (content : Content) (hproper : content.IsProper)
    (hdeep : indent < position.column) (hcolumn : column ≤ indent) (hbody : StartsLine body) :
    ∃ ready, (standing false tokens (indent :: outer) position
        (content.lines indent ++ (margin column ++ body))).toNextToken = some ready ∧
      ready.cursor.rest.length ≤ (content.lines indent ++ (margin column ++ body)).length ∧
      ready.LeadsTo (content.tokens.reverse ++ tokens) (indent :: outer) column body := by
  -- behind the colon the reader stands deeper than the block
  have hspace : indent < (position.after ' ').column := by
    rw [Position.column_after_of_not_isBreak rfl]
    omega
  -- a word and an empty list stand on the line of the key, the items below it
  match content, hproper with
  | .word text, hword =>
      have hlines : (Content.word text).lines indent ++ (margin column ++ body) =
          ' ' :: (text.toList ++ '\n' :: (margin column ++ body)) := by
        simp [Content.lines]
      have hread := @leadsTo_plain tokens outer indent column (position.after ' ') body false _
        hword.plainText hspace hcolumn hbody
      rw [String.ofList_toList] at hread
      rw [hlines]
      exact ⟨_, toNextToken_sameLine hdeep (startsLine_plain _ hword.plainText fun c =>
        hword.isPrintable), Nat.le_succ _, hread⟩
  | .sequence [], _ =>
      exact ⟨_, toNextToken_sameLine hdeep (startsLine_cons rfl (by decide) (by decide) _),
        Nat.le_succ _, leadsTo_emptySequence hbody⟩
  | .sequence (text :: texts), _ =>
      have hlines : (Content.sequence (text :: texts)).lines indent ++ (margin column ++ body) =
          '\n' :: (margin indent ++ ('-' :: ' ' :: (writeText (indent + 2) text.toList ++
            (itemLines indent texts ++ (margin column ++ body))))) := by
        rw [← itemLines_cons]
        rfl
      have hposition := @Position.column_afterAll_nextLine position '\n' rfl [] indent
      rw [hlines]
      refine ⟨_, toNextToken_newLine (Nat.le_refl indent)
        (startsLine_cons rfl (by decide) (by decide) _), ?_,
        leadsTo_items text texts hposition hcolumn hbody⟩
      simp [standing]
      omega

/-! ## Entries -/

/-- A key and what is written for it, after the margin of the line. -/
def entryLine (column : Nat) (entry : String × Content) : List Char :=
  entry.1.toList ++ ':' :: entry.2.lines column

/-- The tokens of a key and of what is written for it. -/
def entryTokens (entry : String × Content) : List Token :=
  .key :: .scalar true entry.1 :: .value :: entry.2.tokens

/-- An entry whose key and words are what they are meant to be. -/
structure IsEntry (entry : String × Content) : Prop where
  key : IsKey entry.1.toList
  content : entry.2.IsProper

theorem startsLine_key {key : String} (hkey : IsKey key.toList) (rest : List Char) :
    StartsLine (key.toList ++ rest) :=
  startsLine_plain rest hkey.plainText fun _ => hkey.isPrintable

theorem leadsTo_entry {tokens' : List Token} {entry : String × Content} (hentry : IsEntry entry)
    (hposition : position.column = indent)
    (henters : Enters tokens indents indent tokens' (indent :: outer)) (hcolumn : column ≤ indent)
    (hbody : StartsLine body) :
    (standing true tokens indents position
      (entryLine indent entry ++ (margin column ++ body))).LeadsTo
        ((entryTokens entry).reverse ++ tokens') (indent :: outer) column body := by
  obtain ⟨key, content⟩ := entry
  obtain ⟨hkey, hproper⟩ := hentry
  subst hposition
  have hdeep : position.column < ((position.afterAll key.toList).after ':').column := by
    rw [Position.column_after_of_not_isBreak rfl, Position.column_afterAll (isBreak_of_isKey hkey)]
    omega
  obtain ⟨ready, hready, hless, position', hposition', hreads⟩ := @leadsTo_content
    (.value :: .scalar true key :: .key :: tokens') outer position.column column _ body content
    hproper hdeep hcolumn hbody
  have hgap := content.atGap_lines position.column (margin column ++ body)
  refine ⟨position', hposition', .head ?_ (.head ⟨':', _, _, rfl,
    readToken_afterKey hgap henters, hready, Nat.lt_succ_of_le hless⟩ ?_)⟩
  · rw [entryLine, List.append_assoc, List.cons_append]
    exact reads_key hkey hgap henters.le
  · simpa [entryTokens] using hreads

/-- Some entries of a mapping with their margins. -/
def mappingLines (column : Nat) (entries : List (String × Content)) : List Char :=
  entries.flatMap fun entry => margin column ++ entryLine column entry

/-- The entries of a mapping, from the first key. -/
theorem leadsTo_entries {tokens' : List Token} {entry : String × Content}
    {entries : List (String × Content)} (hentry : IsEntry entry)
    (hentries : ∀ other ∈ entries, IsEntry other) (hposition : position.column = indent)
    (henters : Enters tokens indents indent tokens' (indent :: outer)) (hcolumn : column ≤ indent)
    (hbody : StartsLine body) :
    (standing true tokens indents position (entryLine indent entry ++
      (mappingLines indent entries ++ (margin column ++ body)))).LeadsTo
        (((entry :: entries).flatMap entryTokens).reverse ++ tokens') (indent :: outer) column
        body := by
  induction entries generalizing entry tokens tokens' indents position with
  | nil => simpa [mappingLines] using leadsTo_entry hentry hposition henters hcolumn hbody
  | cons next entries ih =>
      obtain ⟨hnext, hrest⟩ := List.forall_mem_cons.mp hentries
      have hlines : mappingLines indent (next :: entries) ++ (margin column ++ body) =
          margin indent ++ (entryLine indent next ++
            (mappingLines indent entries ++ (margin column ++ body))) := by
        simp [mappingLines]
      have hline : StartsLine (entryLine indent next ++
          (mappingLines indent entries ++ (margin column ++ body))) := by
        rw [entryLine, List.append_assoc]
        exact startsLine_key hnext.key _
      rw [hlines]
      refine (leadsTo_entry hentry hposition henters (Nat.le_refl indent) hline).trans
        (Nat.le_refl indent) fun position' hposition' => ?_
      have hreads := @ih ((entryTokens entry).reverse ++ tokens') (indent :: outer) position' _ next
        hnext hrest hposition' (.same rfl)
      simpa using hreads

/-- A key whose value is a mapping on the next lines. -/
theorem leadsTo_nested {tokens' : List Token} {key : String} {rest : List Char}
    (hkey : IsKey key.toList) (hposition : position.column = indent)
    (henters : Enters tokens indents indent tokens' (indent :: outer)) (hcolumn : indent ≤ column)
    (hrest : StartsLine rest) :
    ∃ position' : Position, position'.column = column ∧
      ReflTransGen Reads (standing true tokens indents position
          (key.toList ++ ':' :: '\n' :: (margin column ++ rest)))
        (standing true (.value :: .scalar true key :: .key :: tokens') (indent :: outer) position'
          rest) := by
  subst hposition
  refine ⟨((position.afterAll key.toList).after ':').afterAll ('\n' :: margin column),
    Position.column_afterAll_nextLine rfl [] column, .head (reads_key hkey rfl henters.le)
    (.single ⟨':', _, _, rfl, readToken_afterKey rfl henters,
      toNextToken_newLine hcolumn hrest, ?_⟩)⟩
  simp [afterKey, standing]
  omega

end Lexer

/-! ## Documents -/

open Lexer

/-- The text of a mapping with some entries, and with a last one that is a mapping itself. -/
def documentText (before : List (String × Content)) (key : String)
    (entries : List (String × Content)) : List Char :=
  mappingLines 0 before ++ (key.toList ++ ':' :: '\n' :: mappingLines 2 entries)

/-- The tokens of such a text. -/
def documentTokens (before : List (String × Content)) (key : String)
    (entries : List (String × Content)) : List Token :=
  .blockMapping :: before.flatMap entryTokens ++
    .key :: .scalar true key :: .value :: .blockMapping :: entries.flatMap entryTokens ++
      [.blockEnd, .blockEnd]

section Document

variable {first entry : String × Content} {others entries : List (String × Content)} {key : String}

/-- The lexer goes over a whole document, up to the ends of its blocks. -/
theorem reads_documentText (hfirst : IsEntry first) (hothers : ∀ other ∈ others, IsEntry other)
    (hkey : IsKey key.toList) (hentry : IsEntry entry)
    (hentries : ∀ other ∈ entries, IsEntry other) :
    (standing true [] [] {} (documentText (first :: others) key (entry :: entries))).LeadsTo
      (((entry :: entries).flatMap entryTokens).reverse ++ .blockMapping :: .value ::
        .scalar true key :: .key :: (((first :: others).flatMap entryTokens).reverse ++
          [.blockMapping])) [2, 0] 0 [] := by
  have hlines : documentText (first :: others) key (entry :: entries) =
      entryLine 0 first ++ (mappingLines 0 others ++ (margin 0 ++ (key.toList ++ ':' :: '\n' ::
        (margin 2 ++ (entryLine 2 entry ++ (mappingLines 2 entries ++ (margin 0 ++ []))))))) := by
    simp [documentText, mappingLines, margin]
  have hline : StartsLine (entryLine 2 entry ++ (mappingLines 2 entries ++ (margin 0 ++ []))) := by
    rw [entryLine, List.append_assoc]
    exact startsLine_key hentry.key _
  have houtmost : ∀ indent ∈ ([] : List Nat).head?, indent < 0 := by simp
  have hdeeper : ∀ indent ∈ [0].head?, indent < 2 := by simp
  have hsame : [0].head? = some 0 := rfl
  rw [hlines]
  refine (leadsTo_entries hfirst hothers rfl (.deeper houtmost) (Nat.le_refl 0)
    (startsLine_key hkey _)).trans (Nat.le_refl 0) fun position hposition => ?_
  obtain ⟨position', hposition', hnested⟩ := leadsTo_nested hkey hposition (.same hsame)
    (Nat.zero_le 2) hline
  obtain ⟨position'', hposition'', hreads⟩ := leadsTo_entries hentry hentries hposition'
    (.deeper hdeeper) (Nat.zero_le 2) startsLine_nil
  exact ⟨position'', hposition'', hnested.trans hreads⟩

theorem startsLine_documentText (hfirst : IsEntry first) :
    StartsLine (documentText (first :: others) key entries) := by
  have hline : documentText (first :: others) key entries =
      first.1.toList ++ (':' :: first.2.lines 0 ++ (mappingLines 0 others ++
        (key.toList ++ ':' :: '\n' :: mappingLines 2 entries))) := by
    simp [documentText, mappingLines, entryLine, margin]
  rw [hline]
  exact startsLine_key hfirst.key _

/-- A text that starts with a token is read from its first character. -/
theorem toNextToken_start {text : List Char} (h : StartsLine text) :
    (standing true [] [] {} text).toNextToken = some (standing true [] [] {} text) := by
  have hnext := @toNextToken_eq {} text (standing true [] [] {} text) true none rfl
    (skipGap_startsLine _ h) rfl
  rwa [closeBlocks_of_le (by simp [standing])] at hnext

/-- The tokens of a document. -/
theorem readAll_documentText (hfirst : IsEntry first) (hothers : ∀ other ∈ others, IsEntry other)
    (hkey : IsKey key.toList) (hentry : IsEntry entry)
    (hentries : ∀ other ∈ entries, IsEntry other) :
    readAll ((documentText (first :: others) key (entry :: entries)).length + 1)
        { cursor := { rest := documentText (first :: others) key (entry :: entries) } } =
      some (documentTokens (first :: others) key (entry :: entries)) := by
  obtain ⟨position, hposition, hreads⟩ := reads_documentText hfirst hothers hkey hentry hentries
  have hclose : ∀ tokens, (nextLine tokens [2, 0] position []).closeAllBlocks.dropKey =
      some (standing true (.blockEnd :: .blockEnd :: tokens) [] position []) := by
    intro tokens
    rw [nextLine, hposition]
    rfl
  have hall := readAll_of_reads (toNextToken_start (startsLine_documentText hfirst)) hreads
    rest_nextLine (hclose _) (Nat.lt_succ_self _)
  refine hall.trans (congrArg some ?_)
  simp [standing, documentTokens]

end Document

end DalvikHorn.Yaml
