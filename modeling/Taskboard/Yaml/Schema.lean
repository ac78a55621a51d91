import Taskboard.Number.Reading
import Taskboard.Text.Find

/-!
# Yaml/Schema — the kinds of plain scalars

A plain scalar is a truth value, a number, a date or null by its spelling (`PlainKind.ofText`), and
otherwise a text. The spellings are those of YAML 1.1: numbers may have low lines, a base, or places
of sixty; a line end behind the last character does not count.
-/

namespace Taskboard.Yaml

/-- What a plain scalar is by its spelling. -/
inductive PlainKind where
  | bool
  | real
  | int
  /-- The key that takes in the entries of another map. -/
  | merge
  | null
  | time
  /-- The key of a map's default value. -/
  | default
  | text
deriving DecidableEq, Repr

namespace PlainKind

def boolWords : List String :=
  ["yes", "Yes", "YES", "no", "No", "NO", "true", "True", "TRUE", "false", "False", "FALSE",
   "on", "On", "ON", "off", "Off", "OFF"]

def nullWords : List String := ["", "~", "null", "Null", "NULL"]

/-- A digit or a low line. -/
def isLoose (c : Char) : Bool := c.isDigit || c = '_'

/-- A text without its sign. -/
def unsigned : List Char → List Char
  | '-' :: cs => cs
  | '+' :: cs => cs
  | cs => cs

/-- An exponent with a sign, or nothing. -/
def isExponent : List Char → Bool
  | [] => true
  | e :: s :: ds =>
    (e = 'e' || e = 'E') && (s = '-' || s = '+') && !ds.isEmpty && ds.all Char.isDigit
  | _ => false

/-- A place of sixty: a digit, perhaps after another one below six. -/
def isSixtieth : List Char → Bool
  | [a] => a.isDigit
  | [a, b] => '0' ≤ a && a ≤ '5' && b.isDigit
  | _ => false

/-- Digits with low lines that start with a digit. -/
def isLooseNumber : List Char → Bool
  | [] => false
  | c :: cs => c.isDigit && cs.all isLoose

/-- A decimal with a point, perhaps with an exponent. -/
def isDecimal (cs : List Char) : Bool :=
  let body := unsigned cs
  let whole := body.takeWhile isLoose
  match body.drop whole.length with
  | '.' :: rest =>
    let fraction := rest.takeWhile isLoose
    let tail := rest.drop fraction.length
    if whole.isEmpty then body.length = cs.length && isLooseNumber fraction && isExponent tail
    else isLooseNumber whole && isExponent tail
  | _ => false

/-- Places of sixty, the last with a point. -/
def isSixtyDecimal (cs : List Char) : Bool :=
  match partsAt ':' (unsigned cs) with
  | first :: second :: more =>
    let places := second :: more
    let last := places.getLast?.getD []
    let whole := last.takeWhile (· ≠ '.')
    isLooseNumber first && places.dropLast.all isSixtieth && isSixtieth whole
      && last.length ≠ whole.length && (last.drop (whole.length + 1)).all isLoose
  | _ => false

/-- Infinity or not a number by name. -/
def isNamedReal (cs : List Char) : Bool :=
  [".inf", ".Inf", ".INF"].contains (String.ofList (unsigned cs))
    || [".nan", ".NaN", ".NAN"].contains (String.ofList cs)

/-- A whole number in a base by its mark, in decimal digits, or in places of sixty. -/
def isWhole (cs : List Char) : Bool :=
  let loose (p : Char → Bool) (ds : List Char) : Bool :=
    !ds.isEmpty && ds.all fun c => p c || c = '_'
  match unsigned cs with
  | ['0'] => true
  | '0' :: 'b' :: ds => loose (fun c => c = '0' || c = '1') ds
  | '0' :: 'x' :: ds =>
    loose (fun c => c.isDigit || ('a' ≤ c && c ≤ 'f') || ('A' ≤ c && c ≤ 'F')) ds
  | '0' :: ds => loose (fun c => '0' ≤ c && c ≤ '7') ds
  | body =>
    match partsAt ':' body with
    | [first] => isLooseNumber first
    | first :: places => isLooseNumber first && places.all isSixtieth
    | [] => false

end PlainKind

/-- The parts of a date or time. -/
structure TimeParts where
  year : Nat
  month : Nat
  day : Nat
  /-- Hour, minute, second, the digits of the fraction, and the offset in seconds. -/
  clock : Option (Nat × Nat × Nat × List Char × Option Int)

namespace TimeParts

/-- A number of digits between two counts. -/
def digits? (least most : Nat) (cs : List Char) : Option (Nat × List Char) :=
  let ds := (cs.take most).takeWhile Char.isDigit
  if ds.length < least then none else some (digitsValue ds, cs.drop ds.length)

/-- The rest after a character. -/
def char? (c : Char) : List Char → Option (List Char)
  | d :: r => if d = c then some r else none
  | [] => none

def isTimeBlank (c : Char) : Bool := c = ' ' || c = '\t'

/-- The offset at the end of a time, with blanks before it; the outer option says whether there is
nothing else. -/
def zone? (cs : List Char) : Option (Option Int) :=
  match cs, cs.dropWhile isTimeBlank with
  | [], _ => some none
  | _, ['Z'] => some (some 0)
  | _, s :: r =>
    if s = '+' || s = '-' then do
      let (h, r) ← digits? 1 2 r
      let m ← match r with
        | [] => some 0
        | ':' :: r => do
          let (m, r) ← digits? 2 2 r
          if r.isEmpty then some m else none
        | _ => none
      let n : Int := h * 3600 + m * 60
      pure (some (if s = '-' then -n else n))
    else none
  | _, [] => none

/-- The time of day behind a date. -/
def clock? (cs : List Char) : Option (Nat × Nat × Nat × List Char × Option Int) := do
  let (h, cs) ← digits? 1 2 cs
  let cs ← char? ':' cs
  let (m, cs) ← digits? 2 2 cs
  let cs ← char? ':' cs
  let (s, cs) ← digits? 2 2 cs
  let (fraction, cs) := match cs with
    | '.' :: r => (r.takeWhile Char.isDigit, r.dropWhile Char.isDigit)
    | r => ([], r)
  let zone ← zone? cs
  pure (h, m, s, fraction, zone)

/-- A date or time in the notation of timestamps. -/
def ofChars? (cs : List Char) : Option TimeParts := do
  let (y, cs) ← digits? 4 4 cs
  let cs ← char? '-' cs
  let (m, cs) ← digits? 1 2 cs
  let cs ← char? '-' cs
  let (d, cs) ← digits? 1 2 cs
  match cs with
  | [] => pure ⟨y, m, d, none⟩
  | c :: rest =>
    let time ← if c = 'T' || c = 't' then some rest
      else if isTimeBlank c then some (rest.dropWhile isTimeBlank) else none
    let clock ← clock? time
    pure ⟨y, m, d, some clock⟩

end TimeParts

/-- A text without the line end behind its last character. -/
def dropFinalBreak (s : String) : List Char :=
  match s.toList.reverse with
  | '\n' :: cs => cs.reverse
  | _ => s.toList

namespace PlainKind

/-- Whether a spelling is one of times: a date alone has two digits for month and day. -/
def isTime (cs : List Char) : Bool :=
  match TimeParts.ofChars? cs with
  | some t => t.clock.isSome || cs.length = 10
  | none => false

/-- **The kind of a plain scalar by its spelling.** -/
def ofText (s : String) : PlainKind :=
  let cs := dropFinalBreak s
  let t := String.ofList cs
  if s = "" then .null
  else if t = "" then .text
  else if boolWords.contains t then .bool
  else if isDecimal cs || isSixtyDecimal cs || isNamedReal cs then .real
  else if isWhole cs then .int
  else if t = "<<" then .merge
  else if nullWords.contains t then .null
  else if isTime cs then .time
  else if t = "=" then .default
  else .text

end PlainKind

end Taskboard.Yaml
