import DalvikHorn.Yaml.Token.Lexer

/-!
# Nodes of a document

A document is a tree of scalars, sequences and mappings.  An alias stands for the
node with an anchor.  Anchors are numbered, and a number belongs to the last node
that starts with it, so the nodes are known only at the end of the document.
Nothing is said yet about what a scalar means.
-/

namespace DalvikHorn.Yaml

/-- A node.  Only plain scalars can be anything but text. -/
inductive Node where
  | alias (anchor : Nat)
  | scalar (tag : Option Tag) (plain : Bool) (text : String)
  | sequence (tag : Option Tag) (items : List Node)
  | mapping (tag : Option Tag) (entries : List (Node × Node))

/-- The node where nothing is written. -/
def Node.empty (tag : Option Tag) : Node :=
  .scalar tag true ""

/-- A document. -/
structure Document where
  root : Node
  /-- The numbers of anchors and their nodes, of which the first one counts. -/
  anchored : List (Nat × Node) := []
  /-- The number of scalars, aliases, and starts and ends of collections. -/
  size : Nat := 0

/-! ## Reading tokens -/

/-- What is left to read, and what has been declared. -/
structure NodeReader where
  tokens : List Token
  /-- The handles of tags and what they stand for. -/
  handles : List (String × Octets) := []
  /-- The names of anchors and their numbers. -/
  anchors : List (String × Nat) := []
  /-- The numbers of the anchors in the order in which their nodes start, latest first.  The
  place of a node is the count of numbers before its own. -/
  starts : List Nat := []
  /-- The nodes with an anchor and their places. -/
  placed : List (Nat × Node) := []
  size : Nat := 0

/-- The numbers of anchors and their nodes, those that start latest first. -/
def NodeReader.anchored (reader : NodeReader) : List (Nat × Node) :=
  (withPlaces reader.starts).filterMap fun (place, number) =>
    (reader.placed.lookup place).map (number, ·)
where
  /-- The numbers, which are given latest first, with their places. -/
  withPlaces : List Nat → List (Nat × Nat)
    | [] => []
    | number :: earlier => (earlier.length, number) :: withPlaces earlier

/-- A reading step, which may fail. -/
abbrev ReadNode := StateT NodeReader Option

namespace ReadNode

/-- The next token. -/
def peek : ReadNode (Option Token) :=
  return (← get).tokens.head?

/-- Skips the next token. -/
def skip : ReadNode Unit :=
  modify fun reader => { reader with tokens := reader.tokens.drop 1 }

/-- Counts some parts of the document. -/
def count (parts : Nat) : ReadNode Unit :=
  modify fun reader => { reader with size := reader.size + parts }

/-- The node where nothing is written. -/
def emptyNode (tag : Option Tag) : ReadNode Node := do
  count 1
  return .empty tag

/-! ## Anchors and tags -/

/-- Numbers an anchor and gives its node a place.  The number is that of the names known so
far. -/
def declareAnchor (name : String) : ReadNode Nat := do
  let number := (← get).anchors.length
  let place := (← get).starts.length
  modify fun reader =>
    { reader with
      anchors := (name, number) :: reader.anchors.filter (·.1 != name)
      starts := number :: reader.starts }
  return place

/-- Keeps the node that has a place. -/
def keepPlaced (place : Option Nat) (node : Node) : ReadNode Unit :=
  match place with
  | none => return ()
  | some place => modify fun reader => { reader with placed := (place, node) :: reader.placed }

/-- Reads an anchor, if there is one. -/
def readAnchor? : ReadNode (Option String) := do
  match ← peek with
  | some (.anchor name) => skip; return some name
  | _ => return none

/-- Reads the name of a tag, if there is one, and replaces its handle. -/
def readTagName? : ReadNode (Option Octets) := do
  match ← peek with
  | some (.tag handle suffix) =>
      skip
      if handle.isEmpty then return some suffix
      else
        match (← get).handles.lookup handle with
        | some lead => return some (lead ++ suffix)
        | none => failure
  | _ => return none

/-- Reads the anchor of a node and the name of its tag, in either order. -/
def readProperties : ReadNode (Option String × Option Octets) := do
  match ← readAnchor? with
  | some anchor => return (some anchor, ← readTagName?)
  | none =>
      let name ← readTagName?
      if name.isSome then return (← readAnchor?, name) else return (none, none)

/-! ## Nodes -/

/-- Whether nothing is written for a part of a block mapping before a token. -/
def isMissingInBlock : Option Token → Bool
  | some .key | some .value | some .blockEnd => true
  | _ => false

/-- Reads the mark between two entries of a flow collection. -/
def readSeparator (first : Bool) : ReadNode Unit := do
  if first then return ()
  else if (← peek) = some .flowEntry then skip
  else failure

mutual

/-- Reads a node.  `block` says whether it may be a block collection, and `indentless` whether
it may be a sequence at the indentation of the mapping around it. -/
def readNode (block indentless : Bool) : Nat → ReadNode Node
  | 0 => failure
  | bound + 1 => do
      match ← peek with
      | some (.alias name) =>
          skip
          count 1
          match (← get).anchors.lookup name with
          | some number => return .alias number
          | none => failure
      | _ =>
          let (anchor, name) ← readProperties
          let place ← anchor.mapM declareAnchor
          let hasProperties := anchor.isSome || name.isSome
          let node ← readContent block indentless hasProperties (name.bind Tag.ofName?) bound
          keepPlaced place node
          return node

/-- Reads a node after its anchor and tag.  With one of them, nothing else has to be
written. -/
def readContent (block indentless hasProperties : Bool) (tag : Option Tag) :
    Nat → ReadNode Node
  | 0 => failure
  | bound + 1 => do
      let collection := fun (node : ReadNode Node) => do
        count 2
        node
      match ← peek with
      | some (.scalar plain text) =>
          skip
          count 1
          return .scalar tag plain text
      | some .flowSequence =>
          skip
          collection (.sequence tag <$> readFlowSequence true bound)
      | some .flowMapping =>
          skip
          collection (.mapping tag <$> readFlowMapping true bound)
      | token =>
          if indentless && token = some .blockEntry then
            collection (.sequence tag <$> readIndentless bound)
          else if block && token = some .blockSequence then
            skip
            collection (.sequence tag <$> readBlockSequence bound)
          else if block && token = some .blockMapping then
            skip
            collection (.mapping tag <$> readBlockMapping bound)
          else if hasProperties then emptyNode tag
          else failure

/-- Reads the entries of a block sequence. -/
def readBlockSequence : Nat → ReadNode (List Node)
  | 0 => failure
  | bound + 1 => do
      match ← peek with
      | some .blockEntry =>
          skip
          let next ← peek
          let item ←
            if next = some .blockEntry || next = some .blockEnd then emptyNode none
            else readNode true false bound
          return item :: (← readBlockSequence bound)
      | some .blockEnd => skip; return []
      | _ => failure

/-- Reads the entries of a sequence at the indentation of the mapping around it. -/
def readIndentless : Nat → ReadNode (List Node)
  | 0 => failure
  | bound + 1 => do
      match ← peek with
      | some .blockEntry =>
          skip
          let next ← peek
          let item ←
            if next = some .blockEntry || isMissingInBlock next then emptyNode none
            else readNode true false bound
          return item :: (← readIndentless bound)
      | _ => return []

/-- Reads the entries of a block mapping. -/
def readBlockMapping : Nat → ReadNode (List (Node × Node))
  | 0 => failure
  | bound + 1 => do
      match ← peek with
      | some .key =>
          skip
          let key ← readBlockPart bound
          let value ←
            if (← peek) = some .value then do
              skip
              readBlockPart bound
            else emptyNode none
          return (key, value) :: (← readBlockMapping bound)
      | some .blockEnd => skip; return []
      | _ => failure

/-- Reads a key or a value of a block mapping. -/
def readBlockPart : Nat → ReadNode Node
  | 0 => failure
  | bound + 1 => do
      if isMissingInBlock (← peek) then emptyNode none else readNode true true bound

/-- Reads the entries of a flow sequence.  An entry may be a single pair of a mapping. -/
def readFlowSequence (first : Bool) : Nat → ReadNode (List Node)
  | 0 => failure
  | bound + 1 => do
      if (← peek) = some .flowSequenceEnd then
        skip
        return []
      else
        readSeparator first
        match ← peek with
        | some .flowSequenceEnd => skip; return []
        | some .key =>
            skip
            count 2
            let pair ← readFlowPair bound
            return .mapping none [pair] :: (← readFlowSequence false bound)
        | _ =>
            let item ← readNode false false bound
            return item :: (← readFlowSequence false bound)

/-- Reads a single pair in a flow sequence.  If the key is missing, the token after it is
skipped. -/
def readFlowPair : Nat → ReadNode (Node × Node)
  | 0 => failure
  | bound + 1 => do
      let missing := fun (token : Option Token) =>
        token = some .flowEntry || token = some .flowSequenceEnd
      let next ← peek
      let key ←
        if next = some .value || missing next then do
          skip
          emptyNode none
        else readNode false false bound
      if (← peek) = some .value then
        skip
        let value ← if missing (← peek) then emptyNode none else readNode false false bound
        return (key, value)
      else
        return (key, ← emptyNode none)

/-- Reads the entries of a flow mapping.  An entry may be a key alone. -/
def readFlowMapping (first : Bool) : Nat → ReadNode (List (Node × Node))
  | 0 => failure
  | bound + 1 => do
      let missing := fun (token : Option Token) =>
        token = some .flowEntry || token = some .flowMappingEnd
      if (← peek) = some .flowMappingEnd then
        skip
        return []
      else
        readSeparator first
        match ← peek with
        | some .flowMappingEnd => skip; return []
        | some .key =>
            skip
            let next ← peek
            let key ←
              if next = some .value || missing next then emptyNode none
              else readNode false false bound
            if (← peek) = some .value then
              skip
              let value ← if missing (← peek) then emptyNode none else readNode false false bound
              return (key, value) :: (← readFlowMapping false bound)
            else
              let value ← emptyNode none
              return (key, value) :: (← readFlowMapping false bound)
        | _ =>
            let key ← readNode false false bound
            let value ← emptyNode none
            return (key, value) :: (← readFlowMapping false bound)

end

/-! ## Documents -/

/-- Whether a document has no content before a token. -/
def endsDocument : Option Token → Bool
  | none | some (.version ..) | some (.tagHandle ..) | some .documentStart | some .documentEnd =>
      true
  | _ => false

/-- The content of a document.  `explicit` says whether a mark starts it. -/
def readRoot (explicit : Bool) (bound : Nat) : ReadNode Node := do
  if explicit && endsDocument (← peek) then emptyNode none else readNode true false bound

end ReadNode

/-- The handles of tags that need no declaration. -/
def defaultHandles : List (String × Octets) :=
  [("!", octetsOf "!"), ("!!", octetsOf Tag.standardLead)]

/-- Reads the directives before a document: at most one version, which has to be known, and
handles of tags, each declared at most once. -/
def readDirectives (versioned : Bool) (handles : List (String × Octets)) :
    List Token → Option (List (String × Octets) × List Token)
  | .version major minor :: rest =>
      if versioned || major ≠ 1 || (minor ≠ 1 && minor ≠ 2) then none
      else readDirectives true handles rest
  | .tagHandle handle lead :: rest =>
      if (handles.lookup handle).isSome then none
      else readDirectives versioned ((handle, lead) :: handles) rest
  | tokens => some (handles, tokens)

namespace Document

/-- The document of some tokens, of which there may be only one. -/
def ofTokens (tokens : List Token) : Option Document := do
  let (handles, content) ← readDirectives false [] tokens
  let reader : NodeReader := { tokens := content, handles := handles ++ defaultHandles }
  let bound := 4 * tokens.length + 4
  match content with
  | [] => if tokens.isEmpty then return { root := .empty none } else none
  | .documentStart :: rest =>
      finish (← (ReadNode.readRoot true bound).run { reader with tokens := rest })
  | _ =>
      if content.length = tokens.length then
        finish (← (ReadNode.readRoot false bound).run reader)
      else none
where
  /-- The document of a root, after which only marks of its end may follow. -/
  finish (read : Node × NodeReader) : Option Document :=
    if read.2.tokens.all (· = .documentEnd) then
      some { root := read.1, anchored := read.2.anchored, size := read.2.size }
    else
      none

/-- The document of a text. -/
def parse (text : String) : Option Document :=
  (Token.scan text).bind ofTokens

end Document

end DalvikHorn.Yaml
