import Taskboard.Value.Text

/-!
# Json/Writer — writing JSON documents

`Value.plain` turns a value into one that JSON can hold: keys become texts, dates are written by a
given rule, and bytes and sets are refused. `write` prints a plain value in one of two layouts.
-/

namespace Taskboard.Json

/-- How a document is laid out. -/
structure Layout where
  /-- Spaces per level; none puts all on one line. -/
  indent : Option Nat
  /-- Whether characters above ASCII are written as escapes. -/
  asciiOnly : Bool

/-- One line, ASCII only. -/
def compactLayout : Layout := ⟨none, true⟩

/-- Two spaces per level, ASCII only. -/
def fileLayout : Layout := ⟨some 2, true⟩

/-- Two spaces per level, all characters as they are. -/
def readableLayout : Layout := ⟨some 2, false⟩

/-- How the dates in a value are written; none refuses them. -/
abbrev DateRule := Value → Except Fault String

/-- Refuses dates. -/
def noDates : DateRule := fun _ => .error .notSerializable

/-- Dates as ISO 8601 texts. -/
def isoDates : DateRule
  | .date d => .ok d.isoText
  | .moment m => m.isoText
  | _ => .error .notSerializable

/-- The text of a real, with the names of what is no finite number. -/
def realText : Binary64 → String
  | .nan => "NaN"
  | .infinite s => if s then "-Infinity" else "Infinity"
  | x => x.text

/-- A key as text: numbers and truth values in their notation. -/
def keyText : Value → Except Fault String
  | .text s => .ok s
  | .int n => wholeText n
  | .real x => .ok (realText x)
  | .bool b => .ok (if b then "true" else "false")
  | .null => .ok "null"
  | _ => .error .notSerializable

mutual
/-- **A value that JSON can hold**: keys are texts, dates are written by the rule, the rest must be
null, a truth value, a number, a text, a list or a map. -/
def plain (dates : DateRule) : Value → Except Fault Value
  | .null => .ok .null
  | .bool b => .ok (.bool b)
  | .int n => (wholeText n).map fun _ => .int n
  | .real x => .ok (.real x)
  | .text s => .ok (.text s)
  | .date d => (dates (.date d)).map .text
  | .moment m => (dates (.moment m)).map .text
  | .bytes _ => .error .notSerializable
  | .set _ => .error .notSerializable
  | .list xs => (plainAll dates xs).map .list
  | .map es => (plainEntries dates es).map .map
  termination_by structural x => x

/-- The members of a list as JSON can hold them. -/
def plainAll (dates : DateRule) : List Value → Except Fault (List Value)
  | [] => .ok []
  | x :: xs => (plain dates x).bind fun y => (plainAll dates xs).map (y :: ·)
  termination_by structural x => x

/-- The entries of a map as JSON can hold them. -/
def plainEntries (dates : DateRule) : List (Value × Value) → Except Fault (List (Value × Value))
  | [] => .ok []
  | (k, v) :: es => (keyText k).bind fun t => (plain dates v).bind fun w =>
    (plainEntries dates es).map ((.text t, w) :: ·)
  termination_by structural x => x
end

/-- The escape of a sixteen bit unit. -/
def unitEscape (n : Nat) : List Char := '\\' :: 'u' :: hexText 4 n

/-- One character of a text. -/
def escapeChar (asciiOnly : Bool) (c : Char) : List Char :=
  match c with
  | '"' => ['\\', '"']
  | '\\' => ['\\', '\\']
  | '\n' => ['\\', 'n']
  | '\r' => ['\\', 'r']
  | '\t' => ['\\', 't']
  | '\x0c' => ['\\', 'f']
  | '\x08' => ['\\', 'b']
  | _ =>
    let n := c.toNat
    if n < 32 then unitEscape n
    else if n < 127 || !asciiOnly then [c]
    else if n < 65536 then unitEscape n
    else
      let m := n - 65536
      unitEscape (0xD800 + m / 1024) ++ unitEscape (0xDC00 + m % 1024)

/-- A text in quotes. -/
def quoted (asciiOnly : Bool) (s : String) : String :=
  String.ofList ('"' :: s.toList.flatMap (escapeChar asciiOnly) ++ ['"'])

/-- A line break with the indentation of a level, or nothing on one line. -/
def breakLine (layout : Layout) (level : Nat) : String :=
  match layout.indent with
  | none => ""
  | some n => String.ofList ('\n' :: List.replicate (n * level) ' ')

/-- What stands between two members. -/
def separator (layout : Layout) (level : Nat) : String :=
  match layout.indent with
  | none => ", "
  | some _ => "," ++ breakLine layout level

mutual
/-- Prints a plain value at a level of nesting. -/
def writeAt (layout : Layout) (level : Nat) : Value → String
  | .null => "null"
  | .bool b => if b then "true" else "false"
  | .int n => intText n
  | .real x => realText x
  | .text s => quoted layout.asciiOnly s
  | .list [] => "[]"
  | .list (x :: xs) =>
    "[" ++ breakLine layout (level + 1)
      ++ String.intercalate (separator layout (level + 1)) (writeAll layout (level + 1) (x :: xs))
      ++ breakLine layout level ++ "]"
  | .map [] => "\x7b\x7d"
  | .map (e :: es) =>
    "\x7b" ++ breakLine layout (level + 1)
      ++ String.intercalate (separator layout (level + 1))
        (writeEntries layout (level + 1) (e :: es))
      ++ breakLine layout level ++ "\x7d"
  | _ => "null"
  termination_by structural x => x

/-- Prints the members of a list. -/
def writeAll (layout : Layout) (level : Nat) : List Value → List String
  | [] => []
  | x :: xs => writeAt layout level x :: writeAll layout level xs
  termination_by structural x => x

/-- Prints the entries of a map. -/
def writeEntries (layout : Layout) (level : Nat) : List (Value × Value) → List String
  | [] => []
  | (k, v) :: es =>
    ((match k with
      | .text s => quoted layout.asciiOnly s
      | _ => "null") ++ ": " ++ writeAt layout level v) :: writeEntries layout level es
  termination_by structural x => x
end

/-- **Prints a value as a JSON document**, if JSON can hold it. -/
def write (layout : Layout) (dates : DateRule) (v : Value) : Except Fault String :=
  (plain dates v).map (writeAt layout 0)

end Taskboard.Json
