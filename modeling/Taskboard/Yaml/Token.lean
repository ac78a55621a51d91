import Taskboard.Yaml.Lexeme

/-!
# Yaml/Token — the tokens of a YAML text

`Token.ofText` gives the tokens of a text. Besides what stands in the text there are tokens that the
layout stands for: the starts and ends of blocks by indentation, and the mark of a key, which is
known only when a colon follows. A place where a key may have begun is remembered for each depth of
brackets (`PendingKey`); the mark is put in there once the colon comes. A pending key is dropped
when its line ends or after 1024 characters; one that had to be a key is an error then.
-/

namespace Taskboard.Yaml

/-- A token. -/
inductive Token where
  | directive (d : Directive)
  | documentStart
  | documentEnd
  | streamEnd
  | listOpen
  | listClose
  | mapOpen
  | mapClose
  | comma
  | blockList
  | blockMap
  | blockEnd
  | entry
  | key
  | value
  | alias (name : String)
  | anchor (name : String)
  | tag (name : TagName)
  | scalar (text : String) (plain : Bool)
deriving DecidableEq, Repr

/-- A place where a key may have begun. -/
structure PendingKey where
  /-- How many tokens stand before it. -/
  tokenCount : Nat
  /-- Whether nothing but a key can stand there. -/
  required : Bool
  index : Nat
  line : Nat
  column : Nat

/-- The state of reading tokens. -/
structure Layout where
  cursor : Cursor
  /-- The tokens so far. -/
  tokens : Array Token
  /-- The columns of the open blocks, the innermost first. -/
  blocks : List Nat
  /-- How many brackets are open. -/
  depth : Nat
  /-- Whether a key may begin here. -/
  keyAllowed : Bool
  /-- The pending keys by the depth of brackets. -/
  pending : List (Nat × PendingKey)
  finished : Bool

namespace Layout

/-- The greatest length of a key, in characters. -/
def maxKeyLength : Nat := 1024

def start (s : String) : Layout := ⟨Cursor.ofText s, #[], [], 0, true, [], false⟩

/-- The least column of plain text in the innermost block. -/
def innerColumn (l : Layout) : Nat :=
  match l.blocks with
  | [] => 0
  | c :: _ => c + 1

/-- Takes one character as a token. -/
def pushOne (t : Token) (l : Layout) : Layout :=
  { l with tokens := l.tokens.push t, cursor := l.cursor.forward }

/-- Drops the pending keys that can be none any more. -/
def dropStale (l : Layout) : Read Layout :=
  let stale (k : PendingKey) : Bool :=
    k.line ≠ l.cursor.line || l.cursor.index - k.index > maxKeyLength
  if l.pending.any fun (_, k) => stale k && k.required then malformed
  else .ok { l with pending := l.pending.filter fun (_, k) => !stale k }

/-- Drops the pending key of the present depth. -/
def dropPending (l : Layout) : Read Layout :=
  if l.pending.any fun (d, k) => d = l.depth && k.required then malformed
  else .ok { l with pending := l.pending.filter (·.1 ≠ l.depth) }

/-- Remembers that a key may begin here. -/
def savePending (l : Layout) : Read Layout :=
  if l.keyAllowed then
    l.dropPending.map fun l =>
      let required := l.depth = 0 && l.blocks.head? = some l.cursor.column
      let k : PendingKey :=
        ⟨l.tokens.size, required, l.cursor.index, l.cursor.line, l.cursor.column⟩
      { l with pending := (l.depth, k) :: l.pending }
  else .ok l

/-- The blocks that stay open at a column, and the tokens that end the others. -/
def closeBlocks (column : Nat) : List Nat → Array Token → List Nat × Array Token
  | [], ts => ([], ts)
  | c :: cs, ts => if column < c then closeBlocks column cs (ts.push .blockEnd) else (c :: cs, ts)

/-- Ends the blocks that are deeper than a column. -/
def unwind (column : Nat) (l : Layout) : Layout :=
  if l.depth = 0 then
    let (blocks, tokens) := closeBlocks column l.blocks l.tokens
    { l with blocks := blocks, tokens := tokens }
  else l

/-- Ends all blocks. -/
def unwindAll (l : Layout) : Layout :=
  if l.depth = 0 then
    { l with blocks := [], tokens := l.blocks.foldl (fun ts _ => ts.push .blockEnd) l.tokens }
  else l

/-- Whether a column is deeper than the innermost block. -/
def isDeeper (column : Nat) (l : Layout) : Bool :=
  match l.blocks with
  | [] => true
  | c :: _ => c < column

/-- Opens a block with a token if the present column is deeper. -/
def openBlock (t : Token) (l : Layout) : Layout :=
  if l.isDeeper l.cursor.column then
    { l with blocks := l.cursor.column :: l.blocks, tokens := l.tokens.push t }
  else l

/-- Past spaces, comments and line breaks; a line break outside brackets allows a key. -/
def skipToToken : Nat → Layout → Layout
  | 0, l => l
  | fuel + 1, l =>
    let c := (l.cursor.skipWhile (· = ' ')).skipComment
    if c.nextHas isBreak then
      skipToToken fuel
        { l with cursor := c.lineBreak.2, keyAllowed := l.keyAllowed || l.depth = 0 }
    else { l with cursor := c }

/-! ## One token -/

/-- The end of the text. -/
def endStream (l : Layout) : Read Layout :=
  l.unwindAll.dropPending.map fun l =>
    { l with keyAllowed := false, pending := [], tokens := l.tokens.push .streamEnd,
             finished := true }

/-- A directive. -/
def takeDirective (l : Layout) : Read Layout :=
  l.unwindAll.dropPending.bind fun l =>
    (readDirective l.cursor).map fun (d, c) =>
      { l with keyAllowed := false, cursor := c, tokens := l.tokens.push (.directive d) }

/-- The mark of a document. -/
def takeDocumentMark (t : Token) (l : Layout) : Read Layout :=
  l.unwindAll.dropPending.map fun l =>
    { l with keyAllowed := false, cursor := l.cursor.skip 3, tokens := l.tokens.push t }

/-- An opening bracket. -/
def takeOpen (t : Token) (l : Layout) : Read Layout :=
  l.savePending.map fun l => { l.pushOne t with depth := l.depth + 1, keyAllowed := true }

/-- A closing bracket. -/
def takeClose (t : Token) (l : Layout) : Read Layout :=
  if l.depth = 0 then malformed
  else l.dropPending.map fun l => { l.pushOne t with depth := l.depth - 1, keyAllowed := false }

/-- A comma. -/
def takeComma (l : Layout) : Read Layout :=
  l.dropPending.map fun l => { l.pushOne .comma with keyAllowed := true }

/-- The hyphen of an entry. -/
def takeEntry (l : Layout) : Read Layout :=
  if l.depth = 0 && !l.keyAllowed then malformed
  else
    let l := if l.depth = 0 then l.openBlock .blockList else l
    ({ l with keyAllowed := true } : Layout).dropPending.map (·.pushOne .entry)

/-- The question mark of a key. -/
def takeKey (l : Layout) : Read Layout :=
  if l.depth = 0 && !l.keyAllowed then malformed
  else
    let l := if l.depth = 0 then l.openBlock .blockMap else l
    ({ l with keyAllowed := l.depth = 0 } : Layout).dropPending.map (·.pushOne .key)

/-- An array with something put in at a place. -/
def insertTokens (ts : Array Token) (place : Nat) (new : List Token) : Array Token :=
  (ts.toList.take place ++ new ++ ts.toList.drop place).toArray

/-- The colon of a value. A pending key gets its mark, and perhaps begins a block. -/
def takeValue (l : Layout) : Read Layout :=
  match l.pending.lookup l.depth with
  | some k =>
    let l := { l with pending := l.pending.filter (·.1 ≠ l.depth), keyAllowed := false }
    let opens := l.depth = 0 && l.isDeeper k.column
    let new := if opens then [.blockMap, .key] else [.key]
    let blocks := if opens then k.column :: l.blocks else l.blocks
    let tokens := insertTokens l.tokens k.tokenCount new
    .ok ({ l with blocks := blocks, tokens := tokens }.pushOne .value)
  | none =>
    if l.depth = 0 && !l.keyAllowed then malformed
    else
      let l := if l.depth = 0 then l.openBlock .blockMap else l
      ({ l with keyAllowed := l.depth = 0 } : Layout).dropPending.map (·.pushOne .value)

/-- A word that may begin a key. -/
def takeWord (read : Cursor → Read (Token × Cursor)) (l : Layout) : Read Layout :=
  l.savePending.bind fun l =>
    (read l.cursor).map fun (t, c) =>
      { l with keyAllowed := false, cursor := c, tokens := l.tokens.push t }

/-- A scalar in a block; a key may follow it. -/
def takeBlock (folded : Bool) (l : Layout) : Read Layout :=
  ({ l with keyAllowed := true } : Layout).dropPending.bind fun l =>
    (readBlock folded l.innerColumn l.cursor).map fun (s, c) =>
      { l with cursor := c, tokens := l.tokens.push (.scalar s false) }

/-- A plain scalar; a key may follow where a line break was crossed. -/
def takePlain (l : Layout) : Read Layout :=
  l.savePending.map fun l =>
    let r := readPlain (0 < l.depth) l.innerColumn l.cursor
    { l with
      keyAllowed := r.brokeLine, cursor := r.cursor,
      tokens := l.tokens.push (.scalar (String.ofList r.text) true) }

/-- The characters that begin no plain scalar. -/
def isIndicator (ch : Char) : Bool :=
  isBlankOrBreak ch || "-?:,[]\x7b\x7d#&*!|>'\"%@".toList.contains ch || ch = '\x60'

/-- Whether a plain scalar begins here. -/
def beginsPlain (ch : Char) (l : Layout) : Bool :=
  !isIndicator ch
    || (!l.cursor.endOrHas isBlankOrBreak 1
      && (ch = '-' || (l.depth = 0 && (ch = '?' || ch = ':'))))

/-- The next token, by its first character. -/
def takeToken (ch : Char) (l : Layout) : Read Layout :=
  let separate := l.cursor.endOrHas isBlankOrBreak 1
  let flow := 0 < l.depth
  if ch = '%' && l.cursor.column = 0 then l.takeDirective
  else if l.cursor.column = 0 && l.cursor.atIndicator '-' then l.takeDocumentMark .documentStart
  else if l.cursor.column = 0 && l.cursor.atIndicator '.' then l.takeDocumentMark .documentEnd
  else if ch = '[' then l.takeOpen .listOpen
  else if ch = '\x7b' then l.takeOpen .mapOpen
  else if ch = ']' then l.takeClose .listClose
  else if ch = '\x7d' then l.takeClose .mapClose
  else if ch = ',' then l.takeComma
  else if ch = '-' && separate then l.takeEntry
  else if ch = '?' && (flow || separate) then l.takeKey
  else if ch = ':' && (flow || separate) then l.takeValue
  else if ch = '*' then l.takeWord fun c => (readAnchor c).map fun (s, c) => (.alias s, c)
  else if ch = '&' then l.takeWord fun c => (readAnchor c).map fun (s, c) => (.anchor s, c)
  else if ch = '!' then l.takeWord fun c => (readTag c).map fun (t, c) => (.tag t, c)
  else if ch = '|' && !flow then l.takeBlock false
  else if ch = '>' && !flow then l.takeBlock true
  else if ch = '\'' then
    l.takeWord fun c => (readQuoted false c).map fun (s, c) => (.scalar s false, c)
  else if ch = '"' then
    l.takeWord fun c => (readQuoted true c).map fun (s, c) => (.scalar s false, c)
  else if l.beginsPlain ch then l.takePlain
  else malformed

/-- Reads on to the next token and takes it. -/
def step (l : Layout) : Read Layout :=
  (skipToToken (l.cursor.rest.length + 1) l).dropStale.bind fun l =>
    let l := l.unwind l.cursor.column
    match l.cursor.peek? with
    | none => l.endStream
    | some ch => l.takeToken ch

/-- Steps to the end of the text. -/
def run : Nat → Layout → Read (Array Token)
  | 0, _ => malformed
  | fuel + 1, l => if l.finished then .ok l.tokens else l.step.bind (run fuel)

end Layout

/-- A text without a mark of byte order at its start. -/
def dropByteOrderMark (s : String) : List Char :=
  match s.toList with
  | c :: cs => if c = byteOrderMark then cs else c :: cs
  | [] => []

/-- **The tokens of a text**, which may hold allowed characters only. -/
def Token.ofText (s : String) : Read (List Token) :=
  let cs := dropByteOrderMark s
  if cs.all isAllowed then
    (Layout.run (cs.length + 2) (Layout.start (String.ofList cs))).map Array.toList
  else malformed

end Taskboard.Yaml
