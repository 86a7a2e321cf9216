import DalvikHorn.Decimal
import DalvikHorn.Yaml.Cursor

/-!
# Plain and quoted scalars

Both may go on over several lines.  What separates two of their words is a gap:
spacing is kept, and a line feed is folded to a space or, before further line
breaks, to nothing.
-/

namespace DalvikHorn.Yaml

/-! ## Gaps -/

/-- What separates two words of a scalar. -/
inductive Gap where
  | none
  /-- Spacing within a line, latest first. -/
  | spacing (text : List Char)
  /-- Ends of lines: the first one unless it is escaped, and the others, latest first. -/
  | lines (first : Option Char) (others : List Char)
  deriving DecidableEq, Repr

namespace Gap

/-- Whether a gap ends a line. -/
def hasBreak : Gap → Bool
  | .lines .. => true
  | _ => false

/-- A gap that goes on with a character of a gap. -/
def extend (gap : Gap) (c : Char) : Gap :=
  match gap with
  | .none => if isBreak c then .lines (some c) [] else .spacing [c]
  | .spacing text => if isBreak c then .lines (some c) [] else .spacing (c :: text)
  | .lines first others => if isBreak c then .lines first (c :: others) else gap

/-- What a gap stands for, latest first. -/
def folded : Gap → List Char
  | .none => []
  | .spacing text => text
  | .lines (some '\n') [] => [' ']
  | .lines (some '\n') others => others
  | .lines (some c) others => others ++ [c]
  | .lines .none others => others

end Gap

/-! ## Plain scalars -/

/-- Whether a character ends a plain scalar in a flow collection. -/
def isFlowMark (c : Char) : Bool :=
  c = ',' || c = '[' || c = ']' || c = '{' || c = '}'

/-- Whether a plain scalar ends before a word, which starts at a column after a gap. -/
def endsPlain (inFlow : Bool) (indent column : Nat) (gap : Gap) (text : List Char) : Bool :=
  (column = 0 && (atDocumentMark '-' text || atDocumentMark '.' text)) ||
    (gap != .none && (text.head? = some '#' || (!inFlow && column < indent)))

/-- Reads a plain scalar, which has to be indented by `indent`.  Returns its text, whether a
line has ended after it, and the cursor after the gap that follows it. -/
def readPlain (inFlow : Bool) (indent : Nat) (gap : Gap) (read : List Char)
    (position : Position) : List Char → Option (List Char × Bool × Cursor)
  | [] => some (read.reverse, gap.hasBreak, { position := position, rest := [] })
  | c :: rest =>
      let done := some (read.reverse, gap.hasBreak, { position := position, rest := c :: rest })
      if isGap c then
        if gap.hasBreak && position.column < indent && c = '\t' then none
        else readPlain inFlow indent (gap.extend c) read (position.after c) rest
      else if endsPlain inFlow indent position.column gap (c :: rest) then done
      else if inFlow && c = ':' && rest.head?.any (fun d => isFlowMark d || d = '?') then none
      else if (c = ':' && atGap rest) || (inFlow && isFlowMark c) then done
      else readPlain inFlow indent .none (c :: (gap.folded ++ read)) (position.after c) rest

/-! ## Quoted scalars -/

/-- What a backslash and a letter stand for. -/
def escapedChar? : Char → Option Char
  | '0' => some '\x00'
  | 'a' => some '\x07'
  | 'b' => some '\x08'
  | 't' => some '\t'
  | '\t' => some '\t'
  | 'n' => some '\n'
  | 'v' => some '\x0b'
  | 'f' => some '\x0c'
  | 'r' => some '\r'
  | 'e' => some '\x1b'
  | ' ' => some ' '
  | '"' => some '"'
  | '/' => some '/'
  | '\\' => some '\\'
  | 'N' => some '\x85'
  | '_' => some '\xa0'
  | 'L' => some '\u2028'
  | 'P' => some '\u2029'
  | _ => none

/-- The number of hexadecimal digits after a backslash and a letter. -/
def escapedDigits? : Char → Option Nat
  | 'x' => some 2
  | 'u' => some 4
  | 'U' => some 8
  | _ => none

/-- The character with a code. -/
def charOfCode? (code : Nat) : Option Char :=
  if code.isValidChar then some (Char.ofNat code) else none

/-- What a quoted scalar is read in the middle of. -/
inductive QuotedPart where
  | plain
  /-- A backslash has been read. -/
  | escape
  /-- Some digits of a code are to come, at least one; those before have a value. -/
  | digits (count value : Nat)
  deriving DecidableEq, Repr

/-- Reads a quoted scalar after its opening quote. -/
def readQuoted (quote : Char) (part : QuotedPart) (gap : Gap) (read : List Char)
    (position : Position) : List Char → Option (List Char × Cursor)
  | [] => none
  | c :: rest =>
      let continue_ := fun part gap read =>
        readQuoted quote part gap read (position.after c) rest
      match part with
      | .escape =>
          if isBreak c then continue_ .plain (.lines none []) read
          else
            match escapedDigits? c, escapedChar? c with
            | some count, _ => continue_ (.digits count 0) .none read
            | none, some character => continue_ .plain .none (character :: read)
            | none, none => none
      | .digits count value =>
          match hexDigit? c with
          | none => none
          | some digit =>
              let code := value * 16 + digit
              if 1 < count then continue_ (.digits (count - 1) code) .none read
              else
                match charOfCode? code with
                | some character => continue_ .plain .none (character :: read)
                | none => none
      | .plain =>
          if isGap c then continue_ .plain (gap.extend c) read
          else if position.column = 0 &&
              (atDocumentMark '-' (c :: rest) || atDocumentMark '.' (c :: rest)) then
            none
          else
            let read := gap.folded ++ read
            if c = quote then
              match rest with
              | '\'' :: after =>
                  if c = '\'' then
                    readQuoted quote .plain .none ('\'' :: read)
                      ((position.after c).after '\'') after
                  else
                    some (read.reverse, { position := position.after c, rest := rest })
              | _ => some (read.reverse, { position := position.after c, rest := rest })
            else if c = '\\' && quote = '"' then continue_ .escape .none read
            else continue_ .plain .none (c :: read)

end DalvikHorn.Yaml
