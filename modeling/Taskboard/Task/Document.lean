import Taskboard.Task.Basic
import Taskboard.Text.Find
import Taskboard.Yaml.Writer
import Taskboard.Yaml.Content

/-!
# Task/Document — a task as a text

A task file is a text whose head, between two lines of three dashes, holds the attributes as a YAML
map. `Framing.ofText` cuts a text into head and body, `Task.ofDocument` reads a task and
`Task.document` writes one.
-/

namespace Taskboard

/-- How a text is cut by its lines of dashes. -/
inductive Framing where
  /-- The first line is no delimiter: all of the text is body. -/
  | bare
  /-- The second delimiter is missing. -/
  | unterminated
  /-- What stands between the delimiters, and what follows them. -/
  | framed (head body : List Char)
deriving DecidableEq, Repr

namespace Framing

/-- A line of three dashes, perhaps with blanks and tabs behind them. -/
def isDelimiter : List Char → Bool
  | '-' :: '-' :: '-' :: rest => rest.all fun c => c = ' ' || c = '\t'
  | _ => false

/-- Lines up to the delimiter, and those behind it. -/
def beforeDelimiter : List (List Char) → Option (List (List Char) × List (List Char))
  | [] => none
  | line :: rest =>
    if isDelimiter line then some ([], rest)
    else (beforeDelimiter rest).map fun (head, body) => (line :: head, body)

/-- **A text cut by its first two delimiter lines**, the line breaks at the start of the body left
out. -/
def ofText (s : String) : Framing :=
  match partsAt '\n' s.toList with
  | [] => .bare
  | line :: rest =>
    if isDelimiter line then
      match beforeDelimiter rest with
      | none => .unterminated
      | some (head, body) =>
        .framed ('\n' :: head.flatMap (· ++ ['\n'])) ((joinParts '\n' body).dropWhile (· = '\n'))
    else .bare

end Framing

/-- How a text is read as YAML. -/
abbrev YamlReading := String → Yaml.Read Value

namespace Task

/-- The entries of a head as attributes: the keys by their plain texts. -/
def headAttributes : List (Value × Value) → List (String × Value) →
    Except Fault (List (String × Value))
  | [], done => .ok done
  | (k, v) :: es, done => k.shown.bind fun key => headAttributes es (putEntry (· == ·) key v done)

/-- The attributes that the text of a head describes; an empty head has none. -/
def readHead (reading : YamlReading) (id head : String) : Except Fault (List (String × Value)) :=
  match reading head with
  | .error .malformed => .error (.head id .malformed)
  | .error (.badValue cause) => .error cause
  | .ok .null => .ok []
  | .ok (.map es) => headAttributes es []
  | .ok _ => .error (.head id .notMapping)

/-- **The task of a text** with an id, by a reading of the head. -/
def ofDocument (reading : YamlReading) (id text : String) (modified : Option Moment) :
    Except Fault Task :=
  match Framing.ofText text with
  | .bare => .ok ⟨id, [], text, modified⟩
  | .unterminated => .error (.head id .unterminated)
  | .framed head body => (readHead reading id (String.ofList head)).map fun attributes =>
    ⟨id, attributes, String.ofList body, modified⟩

/-- The task of a text. -/
def ofText (id text : String) (modified : Option Moment) : Except Fault Task :=
  ofDocument Yaml.read id text modified

/-- A text without white space at its end. -/
def trimEnd (s : String) : String := String.ofList (s.toList.reverse.dropWhile isBlank).reverse

/-- **The text of a task**: its content, behind a head if it has attributes. -/
def document (t : Task) : Except Fault String :=
  if t.attributes.isEmpty then .ok t.content
  else (Yaml.write (.object t.attributes)).map fun head =>
    "---\n" ++ trimEnd head ++ "\n---\n\n" ++ t.content

end Task

end Taskboard
