import Taskboard.Text.Base64
import Taskboard.Value.Text
import Taskboard.Yaml.Cursor
import Taskboard.Yaml.Node

/-!
# Yaml/Writer — writing values as YAML

`Yaml.write` lays a value out in blocks: an entry or a member on a line of its own, two columns
deeper per level, lists right below their keys. A text is written plain where it reads back as the
same, otherwise in single quotes, or in double quotes where characters need escapes. Words flow to
the next line past column eighty.
-/

namespace Taskboard.Yaml

/-! ## From values to nodes -/

namespace Node

/-- The text of a real: an exponent follows a point. -/
def realText (x : Binary64) : String :=
  match x with
  | .nan => ".nan"
  | .infinite s => if s then "-.inf" else ".inf"
  | x =>
    let cs := x.text.toList
    if cs.contains '.' || !cs.contains 'e' then x.text
    else String.ofList (cs.takeWhile (· ≠ 'e') ++ ".0".toList ++ cs.dropWhile (· ≠ 'e'))

mutual
/-- The node of a value. -/
def ofValue : Value → Except Fault Node
  | .null => .ok (.scalar (.plain .null) "null")
  | .bool b => .ok (.scalar (.plain .bool) (if b then "true" else "false"))
  | .int n => (wholeText n).map (.scalar (.plain .int))
  | .real x => .ok (.scalar (.plain .real) (realText x))
  | .text s => .ok (.scalar (.plain .text) s)
  | .date d => .ok (.scalar (.plain .time) d.isoText)
  | .moment m => (m.text " ").map (.scalar (.plain .time))
  | .bytes bs => .ok (.scalar .bytes (Base64.encode bs))
  | .list xs => (ofValues xs).map (.list .list)
  | .map es => (ofEntries es).map (.map .map)
  | .set xs => (ofValues xs).map fun ns => .map .set (ns.map (·, .scalar (.plain .null) "null"))
  termination_by structural v => v

/-- The nodes of the members of a list. -/
def ofValues : List Value → Except Fault (List Node)
  | [] => .ok []
  | v :: vs => (ofValue v).bind fun n => (ofValues vs).map (n :: ·)
  termination_by structural vs => vs

/-- The nodes of the entries of a map. -/
def ofEntries : List (Value × Value) → Except Fault (List (Node × Node))
  | [] => .ok []
  | (k, v) :: es => (ofValue k).bind fun k => (ofValue v).bind fun v =>
    (ofEntries es).map ((k, v) :: ·)
  termination_by structural es => es
end

end Node

/-- The short form of a tag. -/
def Tag.short : Tag → String
  | .plain .null => "!!null"
  | .plain .bool => "!!bool"
  | .plain .int => "!!int"
  | .plain .real => "!!float"
  | .plain .time => "!!timestamp"
  | .plain .text => "!!str"
  | .plain .merge => "!!merge"
  | .plain .default => "!!value"
  | .bytes => "!!binary"
  | .list => "!!seq"
  | .map => "!!map"
  | .set => "!!set"
  | .pairs => "!!pairs"
  | .other name => "!<" ++ name ++ ">"

/-! ## The style of a scalar -/

/-- How a scalar is written. -/
inductive Style where
  | plain
  | single
  | double
  | block
deriving DecidableEq, Repr

/-- A character that only double quotes can hold. -/
def isSpecial (c : Char) : Bool :=
  let n := c.toNat
  !(n = 10 || (32 ≤ n && n ≤ 126) || n = 0x85 || (0xA0 ≤ n && n ≤ 0xFFFD && c ≠ byteOrderMark)
    || (0x10000 ≤ n && n < 0x10FFFF))

/-- Whether a scalar has a line break that can be written as such. -/
def isMultiline (cs : List Char) : Bool := cs.any isWrittenBreak

/-- Whether two neighbours of classes `p` and `q` occur. -/
def hasNeighbours (p q : Char → Bool) : List Char → Bool
  | a :: b :: cs => (p a && q b) || hasNeighbours p q (b :: cs)
  | _ => false

/-- The marks that no plain scalar starts with. -/
def leadingMarks : List Char := "#,[]\x7b\x7d&*!|>'\"%@\x60".toList

/-- Whether a plain scalar would be taken for something else. -/
def isMistakable (cs : List Char) : Bool :=
  let markAtStart :=
    match cs with
    | [] => false
    | c :: rest =>
      leadingMarks.contains c || ((c = '?' || c = ':' || c = '-') && rest.head?.all isBlankOrBreak)
  markAtStart || ['-', '-', '-'].isPrefixOf cs || ['.', '.', '.'].isPrefixOf cs
    || hasNeighbours (· = ':') isBlankOrBreak cs || cs.getLast? = some ':'
    || hasNeighbours isBlankOrBreak (· = '#') cs

/-- Whether spaces stand next to a line break or special characters occur. -/
def needsEscapes (cs : List Char) : Bool :=
  cs.any isSpecial || hasNeighbours (· = ' ') isWrittenBreak cs
    || hasNeighbours isWrittenBreak (· = ' ') cs

/-- Whether a scalar may stand without quotes. -/
def allowsPlain (cs : List Char) : Bool :=
  !needsEscapes cs && !isMultiline cs && cs.head? ≠ some ' ' && cs.getLast? ≠ some ' '
    && !isMistakable cs

/-- **The style of a scalar.** The key of an entry stays on one line. -/
def styleOf (tag : Tag) (text : String) (isKey : Bool) : Style :=
  let cs := text.toList
  if tag = .bytes then
    if isKey || cs.isEmpty then .double else .block
  else if tag = .plain (PlainKind.ofText text) && !(isKey && cs.isEmpty) && allowsPlain cs then
    .plain
  else if needsEscapes cs || (isKey && isMultiline cs) then .double
  else .single

/-- Whether the tag of a scalar has to be written. -/
def showsTag (tag : Tag) (text : String) : Style → Bool
  | .plain => tag ≠ .plain (PlainKind.ofText text)
  | _ => tag ≠ .plain .text

/-! ## The page -/

/-- The text written so far. -/
structure Page where
  /-- The characters, the last one first. -/
  written : List Char
  column : Nat
  /-- Whether the next word needs no space before it. -/
  spaced : Bool
  /-- Whether the line holds nothing but indentation and marks. -/
  fresh : Bool

namespace Page

/-- Words flow to the next line past this column. -/
def width : Nat := 80

def empty : Page := ⟨[], 0, true, true⟩

/-- Adds characters. -/
def put (cs : List Char) (p : Page) : Page :=
  { p with written := cs.reverse ++ p.written, column := p.column + cs.length }

/-- Ends the line. -/
def breakLine (c : Char) (p : Page) : Page := ⟨c :: p.written, 0, true, true⟩

/-- Goes to a column, on a new line unless this one is still blank there. -/
def indentTo (n : Nat) (p : Page) : Page :=
  let p := if !p.fresh || n < p.column || (p.column = n && !p.spaced) then p.breakLine '\n' else p
  if p.column < n then { p.put (List.replicate (n - p.column) ' ') with spaced := true } else p

/-- Adds a word, with a space before it where one is needed. -/
def word (s : String) (p : Page) : Page :=
  let cs := s.toList
  { p.put (if p.spaced then cs else ' ' :: cs) with spaced := false, fresh := false }

/-- Adds a mark of a block; the line stays fresh. -/
def mark (s : String) (p : Page) : Page := { p.word s with fresh := p.fresh }

/-- Adds what closes a word. -/
def close (s : String) (p : Page) : Page := { p.put s.toList with spaced := false, fresh := false }

end Page

/-! ## Scalars on the page -/

/-- A text cut into runs of spaces, of line breaks, and of other characters. -/
def runsOf (cs : List Char) : List (List Char) :=
  cs.splitBy fun a b =>
    (a = ' ') == (b = ' ') && isWrittenBreak a == isWrittenBreak b

/-- Writes runs of a text; a space between words past the width becomes a line break, and a line
break that is written as such stands for one less. -/
def writeRuns (indent : Nat) (flows : Bool) (quote : Char → List Char) (first : Bool) :
    List (List Char) → Page → Page
  | [], p => p
  | run :: runs, p =>
    let q :=
      if run.any isWrittenBreak then
        let p := if run.head? = some '\n' then p.breakLine '\n' else p
        (run.foldl (fun p c => p.breakLine c) p).indentTo indent
      else if run = [' '] && flows && !first && !runs.isEmpty && Page.width < p.column then
        p.indentTo indent
      else p.put (run.flatMap quote)
    writeRuns indent flows quote false runs { q with spaced := false, fresh := false }

/-- The escape of a character by one letter. -/
def letterEscape? (c : Char) : Option Char :=
  match c.toNat with
  | 0 => some '0'
  | 7 => some 'a'
  | 8 => some 'b'
  | 9 => some 't'
  | 10 => some 'n'
  | 11 => some 'v'
  | 12 => some 'f'
  | 13 => some 'r'
  | 27 => some 'e'
  | 34 => some '"'
  | 92 => some '\\'
  | 0x85 => some 'N'
  | 0xA0 => some '_'
  | 0x2028 => some 'L'
  | 0x2029 => some 'P'
  | _ => none

/-- Whether double quotes hold a character as an escape only. -/
def isEscaped (c : Char) : Bool :=
  let n := c.toNat
  c = '"' || c = '\\' || n = 0x2028 || n = 0x2029 || c = byteOrderMark
    || !((32 ≤ n && n ≤ 126) || (0xA0 ≤ n && n ≤ 0xFFFD))

/-- The escape of a character. -/
def escapeText (c : Char) : List Char :=
  match letterEscape? c with
  | some l => ['\\', l]
  | none =>
    let n := c.toNat
    let digits (width : Nat) : List Char := (hexText width n).map Char.toUpper
    if n ≤ 0xFF then '\\' :: 'x' :: digits 2
    else if n ≤ 0xFFFF then '\\' :: 'u' :: digits 4
    else '\\' :: 'U' :: digits 8

/-- Goes on in the next line of a text in double quotes, before a given character. -/
def continueQuoted (indent : Nat) (next : Char) (p : Page) : Page :=
  let q := { (p.put ['\\']).indentTo indent with spaced := false, fresh := false }
  if next = ' ' then q.put ['\\'] else q

/-- Writes a text in double quotes from a place on; ordinary characters wait until they are
followed by an escape or a line break. -/
def writeEscaped (indent : Nat) (flows : Bool) (first : Bool) (waiting : List Char) :
    List Char → Page → Page
  | [], p => p.put waiting
  | c :: rest, p =>
    if isEscaped c then
      let q := (p.put waiting).put (escapeText c)
      let q :=
        match rest with
        | next :: _ =>
          if flows && !first && Page.width + 1 < q.column then continueQuoted indent next q else q
        | [] => q
      writeEscaped indent flows false [] rest q
    else if flows && !first && !rest.isEmpty && (c = ' ' || waiting.isEmpty)
        && Page.width < p.column + waiting.length then
      writeEscaped indent flows false [c] rest (continueQuoted indent c (p.put waiting))
    else writeEscaped indent flows false (waiting ++ [c]) rest p

/-- Writes the lines of a text, each one indented. -/
def writeLines (indent : Nat) : List (List Char) → Page → Page
  | [], p => p
  | line :: lines, p =>
    if line.isEmpty then writeLines indent lines p
    else writeLines indent lines (((p.indentTo indent).put line).breakLine '\n')

/-- Writes a scalar in a style. -/
def writeScalar (indent : Nat) (isKey : Bool) (tag : Tag) (text : String) (p : Page) : Page :=
  let style := styleOf tag text isKey
  let p := if showsTag tag text style then p.word tag.short else p
  let cs := text.toList
  match style with
  | .plain => writeRuns indent (!isKey) ([·]) true (runsOf cs) (p.word "")
  | .single =>
    (writeRuns indent (!isKey) (fun c => if c = '\'' then [c, c] else [c]) true (runsOf cs)
      (p.word "'")).close "'"
  | .double => (writeEscaped indent (!isKey) true [] cs (p.word "\"")).close "\""
  | .block => writeLines indent (partsAt '\n' cs) ((p.word "|").breakLine '\n')

/-! ## Nodes on the page -/

/-- How far a level is indented. -/
def levelWidth : Nat := 2

/-- What the text and the tag of a key may take together. -/
def keyLimit : Nat := 128

/-- Whether a key stands on one line with its value. -/
def isSimpleKey : Node → Bool
  | .scalar tag text =>
    text.length + tag.short.length < keyLimit && !text.isEmpty && !isMultiline text.toList
  | .list _ ns => ns.isEmpty
  | .map _ es => es.isEmpty

mutual
/-- Writes a node at a level; the value of an entry may put a list at the level of its key. -/
def writeNode (indent : Nat) (isEntry isKey : Bool) : Node → Page → Page
  | .scalar tag text, p => writeScalar (indent + levelWidth) isKey tag text p
  | .list tag ns, p =>
    let p := if tag = .list then p else p.word tag.short
    match ns with
    | [] => p.word "[]"
    | ns => writeItems (if isEntry && !p.fresh then indent else indent + levelWidth) ns p
  | .map tag es, p =>
    let p := if tag = .map then p else p.word tag.short
    match es with
    | [] => p.word "\x7b\x7d"
    | es => writeEntries (indent + levelWidth) es p
  termination_by structural n => n

/-- Writes the members of a list. -/
def writeItems (indent : Nat) : List Node → Page → Page
  | [], p => p
  | n :: ns, p =>
    writeItems indent ns (writeNode indent false false n ((p.indentTo indent).mark "-"))
  termination_by structural ns => ns

/-- Writes the entries of a map. -/
def writeEntries (indent : Nat) : List (Node × Node) → Page → Page
  | [], p => p
  | (k, v) :: es, p =>
    let p := p.indentTo indent
    let p :=
      if isSimpleKey k then (writeNode indent true true k p).close ":"
      else ((writeNode indent true false k (p.mark "?")).indentTo indent).mark ":"
    writeEntries indent es (writeNode indent true false v p)
  termination_by structural es => es
end

/-- The text of a map's node. -/
def Node.text : Node → String
  | .map .map (e :: es) =>
    String.ofList ((writeEntries 0 (e :: es) .empty).breakLine '\n').written.reverse
  | n => String.ofList ((writeNode 0 false false n .empty).breakLine '\n').written.reverse

/-- **Writes a value as YAML.** -/
def write (v : Value) : Except Fault String := (Node.ofValue v).map Node.text

end Taskboard.Yaml
