import Taskboard.Fault

/-!
# Yaml/Cursor — a place in a YAML text

A `Cursor` holds the rest of a text with the line and column where it starts. Columns count from the
last line break; the marks of byte order do not count.
-/

namespace Taskboard.Yaml

/-- Why a text is no YAML value. -/
inductive YamlFault where
  /-- The text is not well-formed, or has a tag of no known meaning. -/
  | malformed
  /-- A scalar does not name a value of its tag. -/
  | badValue (cause : Fault)
deriving DecidableEq, Repr

/-- The result of reading a part. -/
abbrev Read (α : Type) := Except YamlFault α

def malformed {α : Type} : Read α := .error .malformed

/-- The characters that end a line. -/
def isBreak (c : Char) : Bool :=
  c = '\n' || c = '\r' || c = '\x85' || c = '\u2028' || c = '\u2029'

/-- The characters that end a line other than a carriage return. -/
def isWrittenBreak (c : Char) : Bool := isBreak c && c ≠ '\r'

/-- A line break, a space or a tab. -/
def isBlankOrBreak (c : Char) : Bool := c = ' ' || c = '\t' || isBreak c

/-- Whether a character may occur in a text at all. -/
def isAllowed (c : Char) : Bool :=
  let n := c.toNat
  n = 9 || n = 10 || n = 13 || (32 ≤ n && n ≤ 126) || n = 0x85 || (0xA0 ≤ n && n ≤ 0xD7FF)
    || (0xE000 ≤ n && n ≤ 0xFFFD) || 0x10000 ≤ n

/-- The mark of byte order. -/
def byteOrderMark : Char := '\ufeff'

/-- A place in a text. -/
structure Cursor where
  rest : List Char
  /-- How many characters stand before. -/
  index : Nat
  line : Nat
  column : Nat

namespace Cursor

/-- The start of a text. -/
def ofText (s : String) : Cursor := ⟨s.toList, 0, 0, 0⟩

/-- The next character. -/
def peek? (c : Cursor) : Option Char := c.rest.head?

/-- A character further on. -/
def peekAt? (c : Cursor) (n : Nat) : Option Char := c.rest[n]?

/-- Whether the next character is a given one. -/
def nextIs (ch : Char) (c : Cursor) : Bool := c.peek? = some ch

/-- Whether a class holds of the next character; the end is in no class. -/
def nextHas (p : Char → Bool) (c : Cursor) : Bool := c.peek?.any p

/-- Whether the text ends or a class holds of a character further on. -/
def endOrHas (p : Char → Bool) (n : Nat) (c : Cursor) : Bool := (c.peekAt? n).all p

/-- Past one character. -/
def forward (c : Cursor) : Cursor :=
  match c.rest with
  | [] => c
  | ch :: rest =>
    if isWrittenBreak ch || (ch = '\r' && rest.head? ≠ some '\n') then
      ⟨rest, c.index + 1, c.line + 1, 0⟩
    else if ch = byteOrderMark then ⟨rest, c.index + 1, c.line, c.column⟩
    else ⟨rest, c.index + 1, c.line, c.column + 1⟩

/-- Past some characters. -/
def skip : Nat → Cursor → Cursor
  | 0, c => c
  | n + 1, c => skip n c.forward

/-- The characters of a class from here on, and the place after them. -/
def span (p : Char → Bool) (c : Cursor) : List Char × Cursor :=
  let taken := c.rest.takeWhile p
  (taken, c.skip taken.length)

/-- Past the characters of a class. -/
def skipWhile (p : Char → Bool) (c : Cursor) : Cursor := (c.span p).2

/-- Past a line break, with the character it counts as; nothing if there is none. -/
def lineBreak (c : Cursor) : List Char × Cursor :=
  match c.rest with
  | '\r' :: '\n' :: _ => (['\n'], c.skip 2)
  | ch :: _ =>
    if ch = '\u2028' || ch = '\u2029' then ([ch], c.forward)
    else if isBreak ch then (['\n'], c.forward)
    else ([], c)
  | [] => ([], c)

/-- Past a comment, up to the end of its line. -/
def skipComment (c : Cursor) : Cursor :=
  if c.nextIs '#' then c.skipWhile (!isBreak ·) else c

/-- Whether three equal characters stand here with a blank or the end behind them. -/
def atIndicator (ch : Char) (c : Cursor) : Bool :=
  c.rest.take 3 = [ch, ch, ch] && c.endOrHas isBlankOrBreak 3

/-- Whether the mark of a document's start or end stands here. -/
def atDocumentMark (c : Cursor) : Bool := c.atIndicator '-' || c.atIndicator '.'

end Cursor

end Taskboard.Yaml
