import DalvikHorn.Yaml.Token.Block
import DalvikHorn.Yaml.Token.Flow
import DalvikHorn.Yaml.Token.Tag

/-!
# Reading tokens

Whether a token starts a key is known only when a colon follows it, so the place
of a possible key is kept, and the token that marks the key is put there later.
A key has to end on its line, within 1024 octets.

Block collections start where a mark stands deeper than the collection around
it, and end where a token stands less deep.
-/

namespace DalvikHorn.Yaml

/-! ## The lexer -/

/-- A token that may turn out to start a key. -/
structure PossibleKey where
  /-- Whether nothing but a key may stand here. -/
  required : Bool
  /-- The number of tokens before it. -/
  tokensBefore : Nat
  position : Position
  deriving DecidableEq, Repr

/-- What has been read, and where the lexer is. -/
structure Lexer where
  cursor : Cursor
  /-- The tokens, latest first. -/
  tokens : List Token := []
  /-- The columns of the open block collections, innermost first. -/
  indents : List Nat := []
  /-- Whether a key may start here. -/
  keyAllowed : Bool := true
  /-- The possible key of the innermost flow collection, or outside of all. -/
  possibleKey : Option PossibleKey := none
  /-- The possible keys around it: one for each open flow collection. -/
  outerKeys : List (Option PossibleKey) := []
  deriving DecidableEq, Repr

namespace Lexer

variable (lexer : Lexer)

/-- Whether a flow collection is open. -/
def inFlow : Bool :=
  !lexer.outerKeys.isEmpty

/-- The least column of what belongs to the innermost block collection. -/
def leastColumn : Nat :=
  match lexer.indents with
  | [] => 0
  | indent :: _ => indent + 1

/-- Adds a token. -/
def push (token : Token) : Lexer :=
  { lexer with tokens := token :: lexer.tokens }

/-- Adds a token after a number of tokens. -/
def insert (tokensBefore : Nat) (token : Token) : Lexer :=
  let after := lexer.tokens.length - tokensBefore
  { lexer with tokens := lexer.tokens.take after ++ token :: lexer.tokens.drop after }

/-! ## Indentation -/

/-- Opens a block collection at a column, if it is deeper than the innermost one.  Its token
is put after a number of tokens. -/
def openBlock (column tokensBefore : Nat) (token : Token) : Lexer :=
  if lexer.inFlow || column < lexer.leastColumn then lexer
  else { lexer.insert tokensBefore token with indents := column :: lexer.indents }

/-- Closes the block collections that are deeper than a column. -/
def closeBlocks (column : Nat) : Lexer :=
  if lexer.inFlow then lexer
  else
    let closed := lexer.indents.takeWhile (column < ·)
    { lexer with
      tokens := closed.map (fun _ => .blockEnd) ++ lexer.tokens
      indents := lexer.indents.drop closed.length }

/-- Closes all block collections. -/
def closeAllBlocks : Lexer :=
  if lexer.inFlow then lexer
  else
    { lexer with
      tokens := lexer.indents.map (fun _ => .blockEnd) ++ lexer.tokens
      indents := [] }

/-! ## Possible keys -/

/-- Forgets the possible key, unless it is required. -/
def dropKey : Option Lexer :=
  if lexer.possibleKey.any (·.required) then none else some { lexer with possibleKey := none }

/-- Keeps the place of the next token, if a key may start with it. -/
def saveKey : Option Lexer :=
  if lexer.keyAllowed then
    lexer.dropKey.map fun dropped =>
      { dropped with
        possibleKey := some {
          required := !lexer.inFlow && lexer.indents.head? = some lexer.cursor.column
          tokensBefore := lexer.tokens.length
          position := lexer.cursor.position } }
  else
    some lexer

/-- What is left of a possible key at a position: it may not go on over lines or be too
long. -/
def keepKey (position : Position) (key : Option PossibleKey) : Option (Option PossibleKey) :=
  match key with
  | none => some none
  | some possible =>
      if possible.position.line < position.line ||
          possible.position.offset + 1024 < position.offset then
        if possible.required then none else some none
      else
        some key

/-- Forgets the possible keys that have not ended in time. -/
def dropStaleKeys : Option Lexer := do
  return { lexer with
    possibleKey := ← keepKey lexer.cursor.position lexer.possibleKey
    outerKeys := ← lexer.outerKeys.mapM (keepKey lexer.cursor.position) }

/-! ## Spacing and comments -/

/-- Skips spacing, comments and ends of lines.  A tab may not stand where a key may start.
Returns whether a key may start after it. -/
def skipGap (inFlow comment keyAllowed : Bool) (position : Position) :
    List Char → Bool × Cursor
  | [] => (keyAllowed, { position := position, rest := [] })
  | c :: rest =>
      let continue_ := fun comment keyAllowed =>
        skipGap inFlow comment keyAllowed (position.after c) rest
      if isBreak c then continue_ false (keyAllowed || !inFlow)
      else if comment then continue_ true keyAllowed
      else if c = byteOrderMark && position.column = 0 then continue_ false keyAllowed
      else if c = ' ' || (c = '\t' && (inFlow || !keyAllowed)) then continue_ false keyAllowed
      else if c = '#' then continue_ true keyAllowed
      else (keyAllowed, { position := position, rest := c :: rest })

/-- Goes to the next token. -/
def toNextToken : Option Lexer := do
  let (keyAllowed, cursor) :=
    skipGap lexer.inFlow false lexer.keyAllowed lexer.cursor.position lexer.cursor.rest
  let lexer ← { lexer with keyAllowed := keyAllowed, cursor := cursor }.dropStaleKeys
  return lexer.closeBlocks lexer.cursor.column

/-! ## Tokens of the structure -/

/-- Reads the mark of a document. -/
def readDocumentMark (token : Token) : Option Lexer := do
  let lexer ← lexer.closeAllBlocks.dropKey
  return { lexer.push token with keyAllowed := false, cursor := lexer.cursor.advance 3 }

/-- Reads a directive. -/
def readDirectiveLine : Option Lexer := do
  let lexer ← lexer.closeAllBlocks.dropKey
  let (token, cursor) ← readDirective lexer.cursor.next
  return { lexer.push token with keyAllowed := false, cursor := cursor }

/-- Reads the mark that opens a flow collection. -/
def openFlow (token : Token) : Option Lexer := do
  let lexer ← lexer.saveKey
  return { lexer.push token with
    keyAllowed := true
    possibleKey := none
    outerKeys := lexer.possibleKey :: lexer.outerKeys
    cursor := lexer.cursor.next }

/-- Reads the mark that closes a flow collection. -/
def closeFlow (token : Token) : Option Lexer := do
  let lexer ← lexer.dropKey
  let (possibleKey, outerKeys) :=
    match lexer.outerKeys with
    | [] => (none, [])
    | outer :: others => (outer, others)
  return { lexer.push token with
    keyAllowed := false
    possibleKey := possibleKey
    outerKeys := outerKeys
    cursor := lexer.cursor.next }

/-- Reads the mark between the entries of a flow collection. -/
def readFlowEntry : Option Lexer := do
  let lexer ← lexer.dropKey
  return { lexer.push .flowEntry with keyAllowed := true, cursor := lexer.cursor.next }

/-- Opens a block collection with a mark at the cursor, where a key has to be allowed. -/
def openBlockHere (token : Token) : Option Lexer :=
  if lexer.inFlow then some lexer
  else if lexer.keyAllowed then
    some (lexer.openBlock lexer.cursor.column lexer.tokens.length token)
  else none

/-- Reads the mark of an entry of a block sequence. -/
def readBlockEntry : Option Lexer := do
  let lexer ← (← lexer.openBlockHere .blockSequence).dropKey
  return { lexer.push .blockEntry with keyAllowed := true, cursor := lexer.cursor.next }

/-- Reads the mark of a key. -/
def readKeyMark : Option Lexer := do
  let lexer ← (← lexer.openBlockHere .blockMapping).dropKey
  return { lexer.push .key with keyAllowed := !lexer.inFlow, cursor := lexer.cursor.next }

/-- Reads the mark of a value, which may turn a possible key into a key. -/
def readValueMark : Option Lexer := do
  let lexer ←
    match lexer.possibleKey with
    | some key =>
        let marked := (lexer.insert key.tokensBefore .key).openBlock key.position.column
          key.tokensBefore .blockMapping
        some { marked with possibleKey := none, keyAllowed := false }
    | none =>
        (lexer.openBlockHere .blockMapping).map fun opened =>
          { opened with keyAllowed := !opened.inFlow }
  return { lexer.push .value with cursor := lexer.cursor.next }

/-! ## Tokens of content -/

/-- Reads a token that may start a key. -/
def readContent (read : Cursor → Option (Token × Cursor)) : Option Lexer := do
  let lexer ← lexer.saveKey
  let (token, cursor) ← read lexer.cursor
  return { lexer.push token with keyAllowed := false, cursor := cursor }

/-- Reads a block scalar. -/
def readBlockScalar (literal : Bool) : Option Lexer := do
  let lexer ← lexer.dropKey
  let (text, cursor) ← readBlock literal lexer.leastColumn lexer.cursor.next
  return { lexer.push (.scalar false (String.ofList text)) with
    keyAllowed := true, cursor := cursor }

/-- Reads a quoted scalar. -/
def readQuotedScalar (quote : Char) : Option Lexer :=
  lexer.readContent fun cursor => do
    let start := cursor.next
    let (text, cursor) ← readQuoted quote .plain .none [] start.position start.rest
    return (.scalar false (String.ofList text), cursor)

/-- Reads a plain scalar.  A key may follow if a line has ended after it. -/
def readPlainScalar : Option Lexer := do
  let lexer ← lexer.saveKey
  let (text, ended, cursor) ←
    readPlain lexer.inFlow lexer.leastColumn .none [] lexer.cursor.position lexer.cursor.rest
  return { lexer.push (.scalar true (String.ofList text)) with
    keyAllowed := ended, cursor := cursor }

/-! ## All tokens -/

/-- Whether a plain scalar may start with a character before some text. -/
def startsPlain (inFlow : Bool) (c : Char) (rest : List Char) : Bool :=
  if c = '-' then !rest.head?.any isSpacing
  else if c = '?' || c = ':' then !inFlow && !atGap rest
  else
    let marks := ['#', '&', '*', '!', '|', '>', '\'', '"', '%', '@', '\x60']
    !isGap c && !isFlowMark c && !marks.contains c

/-- Reads the next token, which starts with a character before some text. -/
def readToken (c : Char) (rest : List Char) : Option Lexer :=
  let atLineStart := lexer.cursor.column = 0
  if atLineStart && c = '%' then lexer.readDirectiveLine
  else if atLineStart && atDocumentMark '-' (c :: rest) then lexer.readDocumentMark .documentStart
  else if atLineStart && atDocumentMark '.' (c :: rest) then lexer.readDocumentMark .documentEnd
  else if c = '[' then lexer.openFlow .flowSequence
  else if c = '{' then lexer.openFlow .flowMapping
  else if c = ']' then lexer.closeFlow .flowSequenceEnd
  else if c = '}' then lexer.closeFlow .flowMappingEnd
  else if c = ',' then lexer.readFlowEntry
  else if c = '-' && atGap rest then lexer.readBlockEntry
  else if c = '?' && (lexer.inFlow || atGap rest) then lexer.readKeyMark
  else if c = ':' && (lexer.inFlow || atGap rest) then lexer.readValueMark
  else if c = '*' then
    lexer.readContent fun cursor => (readAnchor cursor.next).map fun (name, c) => (.alias name, c)
  else if c = '&' then
    lexer.readContent fun cursor => (readAnchor cursor.next).map fun (name, c) => (.anchor name, c)
  else if c = '!' then lexer.readContent (readTag lexer.inFlow)
  else if c = '|' && !lexer.inFlow then lexer.readBlockScalar true
  else if c = '>' && !lexer.inFlow then lexer.readBlockScalar false
  else if c = '\'' || c = '"' then lexer.readQuotedScalar c
  else if startsPlain lexer.inFlow c rest then lexer.readPlainScalar
  else none

/-- Reads all tokens.  Every token takes at least one character, so their number is
bounded. -/
def readAll : Nat → Lexer → Option (List Token)
  | 0, _ => none
  | bound + 1, lexer => do
      let lexer ← lexer.toNextToken
      match lexer.cursor.rest with
      | [] => return (← lexer.closeAllBlocks.dropKey).tokens.reverse
      | c :: rest => readAll bound (← lexer.readToken c rest)

end Lexer

/-- The tokens of a text. -/
def Token.scan (text : String) : Option (List Token) :=
  if text.toList.all isAllowed then
    let characters := normalizeBreaks text.toList
    Lexer.readAll (characters.length + 1) { cursor := { rest := characters } }
  else
    none

end DalvikHorn.Yaml
