import Taskboard.Fault
import Taskboard.Number.Binary64
import Taskboard.Text.Blank
import Taskboard.Text.Digit

/-!
# Number/Reading — numbers written as text

`readInt` and `readReal` take a whole text, with padding around it, digits of any script, and single
low lines between digits. `leadingNumberText?` takes the number at the start of a text and ignores
what follows; `decimalDigits` is the longest run of digits.
-/

namespace Taskboard

/-- The longest whole number that is converted from or to decimal text, in digits. -/
def maxDecimalDigits : Nat := 4300

/-- A text as number readers see it: digits of all scripts become ASCII ones and white space above
ASCII becomes spaces. -/
def normalizeNumber (cs : List Char) : List Char :=
  cs.map fun c =>
    if c.toNat < 127 then c
    else if isBlank c then ' '
    else match digitValue? c with
      | some d => Char.ofNat (48 + d)
      | none => '?'

/-- The padding that a number reader strips: the ASCII blanks. -/
def isAsciiPadding (c : Char) : Bool := c = ' ' || (9 ≤ c.toNat && c.toNat ≤ 13)

/-- A sign and what follows it. -/
def takeSign : List Char → Bool × List Char
  | '-' :: cs => (true, cs)
  | '+' :: cs => (false, cs)
  | cs => (false, cs)

/-- The value of a run of ASCII digits. -/
def digitsValue (cs : List Char) : Nat := cs.foldl (fun n c => n * 10 + (c.toNat - 48)) 0

/-- A text with the low lines between digits taken out; none if a low line stands elsewhere. -/
def dropLowLines (afterDigit : Bool) : List Char → Option (List Char)
  | [] => some []
  | '_' :: c :: cs =>
    if afterDigit && c.isDigit then dropLowLines false (c :: cs) else none
  | ['_'] => none
  | c :: cs => (dropLowLines c.isDigit cs).map (c :: ·)

/-- A whole number: padding, a sign, digits with low lines between them, padding. -/
def readInt (s : String) : Except Fault Int :=
  let cs := trimWhile isAsciiPadding (normalizeNumber s.toList)
  let (negative, body) := takeSign cs
  match dropLowLines false body with
  | none => .error .unreadableNumber
  | some ds =>
    if ds.isEmpty || !ds.all Char.isDigit then .error .unreadableNumber
    else if maxDecimalDigits < ds.length then .error .tooManyDigits
    else .ok (if negative then -(digitsValue ds : Int) else digitsValue ds)

/-- An unsigned decimal with an optional exponent, as digits and a power of ten; none if the text is
not exactly one. -/
def readDecimal? (cs : List Char) : Option (Nat × Int) :=
  let whole := cs.takeWhile Char.isDigit
  let rest := cs.dropWhile Char.isDigit
  let (fraction, rest) := match rest with
    | '.' :: r => (r.takeWhile Char.isDigit, r.dropWhile Char.isDigit)
    | r => ([], r)
  if whole.isEmpty && fraction.isEmpty then none
  else
    let digits := digitsValue (whole ++ fraction)
    let scale : Int := -(fraction.length : Int)
    match rest with
    | [] => some (digits, scale)
    | e :: r =>
      if e = 'e' || e = 'E' then
        let (negative, ds) := takeSign r
        if ds.isEmpty || !ds.all Char.isDigit then none
        else
          let n : Int := digitsValue ds
          some (digits, scale + if negative then -n else n)
      else none

/-- A real by digits, or an infinity or what is no number by name in any case. -/
def readRealBody? (negative : Bool) (cs : List Char) : Option Binary64 :=
  let word := String.ofList (cs.map Char.toLower)
  if word = "inf" || word = "infinity" then some (.infinite negative)
  else if word = "nan" then some .nan
  else (readDecimal? cs).map fun (digits, exponent) => .ofDecimal negative digits exponent

/-- A real number: padding, a sign, a decimal with low lines between digits or a name, padding. -/
def readReal (s : String) : Except Fault Binary64 :=
  let cs := trimWhile isAsciiPadding (normalizeNumber s.toList)
  match dropLowLines false cs with
  | none => .error .unreadableNumber
  | some body =>
    let (negative, rest) := takeSign body
    match readRealBody? negative rest with
    | some x => .ok x
    | none => .error .unreadableNumber

/-- The digits of any script at the start of a text, and the rest. -/
def decimalDigits (cs : List Char) : List Char × List Char :=
  (cs.takeWhile isDigit, cs.dropWhile isDigit)

/-- A mark of an exponent with its sign and digits, if the text starts with one. -/
def leadingExponent (cs : List Char) : List Char :=
  match cs with
  | e :: r =>
    if e = 'e' || e = 'E' then
      match r with
      | s :: r' =>
        if s = '+' || s = '-' then
          let ds := r'.takeWhile isDigit
          if ds.isEmpty then [] else e :: s :: ds
        else
          let ds := r.takeWhile isDigit
          if ds.isEmpty then [] else e :: ds
      | [] => []
    else []
  | [] => []

/-- The text of the number at the start of a text: blanks, a sign, a decimal, an exponent. -/
def leadingNumberText? (s : String) : Option String :=
  let cs := s.toList
  let blanks := cs.takeWhile isBlank
  let cs := cs.dropWhile isBlank
  let (sign, cs) := match cs with
    | c :: r => if c = '-' || c = '+' then ([c], r) else ([], cs)
    | [] => ([], cs)
  let (whole, rest) := decimalDigits cs
  match whole, rest with
  | [], '.' :: r =>
    let (fraction, tail) := decimalDigits r
    if fraction.isEmpty then none
    else some (String.ofList (blanks ++ sign ++ '.' :: fraction ++ leadingExponent tail))
  | [], _ => none
  | _, '.' :: r =>
    let (fraction, tail) := decimalDigits r
    some (String.ofList (blanks ++ sign ++ whole ++ '.' :: fraction ++ leadingExponent tail))
  | _, _ => some (String.ofList (blanks ++ sign ++ whole ++ leadingExponent rest))

end Taskboard
