import Taskboard.Value.Basic
import Taskboard.Text.Quoted
import Taskboard.Number.Reading

/-!
# Value/Text — values as text

Three texts of one value. `Value.caption` is how a value appears in a task's head: truth values in
lower case, whole reals without a point, lists joined by commas. `Value.shown` is the plain text of
a value, and `Value.literal` the text of a value inside a list or map, with texts in quotes and
dates by their parts.
-/

namespace Taskboard

/-- The decimal text of a whole number, which must not be too long. -/
def wholeText (n : Int) : Except Fault String :=
  if maxDecimalDigits < digitCount 10 n.natAbs then .error .tooManyDigits else .ok (intText n)

/-- The parts of an offset as a length of time: days, then seconds of a day. -/
def offsetLiteral (seconds : Int) : String :=
  if seconds = 0 then "datetime.timezone.utc"
  else
    let days := seconds.fdiv 86400
    let rest := seconds.fmod 86400
    let parts := (if days = 0 then [] else ["days=" ++ intText days])
      ++ (if rest = 0 then [] else ["seconds=" ++ intText rest])
    "datetime.timezone(datetime.timedelta(" ++ String.intercalate ", " parts ++ "))"

/-- A date by its parts. -/
def Date.literal (d : Date) : String :=
  "datetime.date(" ++ String.intercalate ", " ([d.year, d.month, d.day].map natText) ++ ")"

/-- A moment by its parts, the seconds and microseconds only where they count. -/
def Moment.literal (m : Moment) : String :=
  let base := [m.date.year, m.date.month, m.date.day, m.hour, m.minute]
  let fine := if m.micro ≠ 0 then [m.second, m.micro] else if m.second ≠ 0 then [m.second] else []
  let zone := match m.offset with
    | none => []
    | some s => ["tzinfo=" ++ offsetLiteral s]
  "datetime.datetime(" ++ String.intercalate ", " ((base ++ fine).map natText ++ zone) ++ ")"

namespace Value

mutual
/-- The text of a value inside a list or a map. -/
def literal : Value → Except Fault String
  | .null => .ok "None"
  | .bool b => .ok (if b then "True" else "False")
  | .int n => wholeText n
  | .real x => .ok x.text
  | .text s => .ok (quoteText s)
  | .date d => .ok d.literal
  | .moment m => .ok m.literal
  | .bytes bs => .ok (quoteBytes bs)
  | .list xs => (literals xs).map fun ts => "[" ++ String.intercalate ", " ts ++ "]"
  | .map es => (entryLiterals es).map fun ts =>
    "\x7b" ++ String.intercalate ", " ts ++ "\x7d"
  | .set [] => .ok "set()"
  | .set (x :: xs) => (literals (x :: xs)).map fun ts =>
    "\x7b" ++ String.intercalate ", " ts ++ "\x7d"
  termination_by structural x => x

/-- The texts of the members of a list. -/
def literals : List Value → Except Fault (List String)
  | [] => .ok []
  | x :: xs => x.literal.bind fun t => (literals xs).map (t :: ·)
  termination_by structural x => x

/-- The texts of the entries of a map. -/
def entryLiterals : List (Value × Value) → Except Fault (List String)
  | [] => .ok []
  | (k, v) :: es => k.literal.bind fun a => v.literal.bind fun b =>
    (entryLiterals es).map ((a ++ ": " ++ b) :: ·)
  termination_by structural x => x
end

/-- The plain text of a value: a text is itself, and a moment has a space between date and time. -/
def shown : Value → Except Fault String
  | .text s => .ok s
  | .date d => .ok d.isoText
  | .moment m => m.text " "
  | v => v.literal

mutual
/-- **The text of a value as it appears in a task's head.** Truth values are in lower case, whole
reals have no point, and the members of a list are joined by commas. -/
def caption : Value → Except Fault String
  | .null => .ok "null"
  | .bool b => .ok (if b then "true" else "false")
  | .real x => if x.isWhole then wholeText (x.truncate?.getD 0) else .ok x.text
  | .list xs => (captions xs).map (String.intercalate ",")
  | v => v.shown
  termination_by structural x => x

/-- The captions of the members of a list. -/
def captions : List Value → Except Fault (List String)
  | [] => .ok []
  | x :: xs => x.caption.bind fun t => (captions xs).map (t :: ·)
  termination_by structural x => x
end

@[simp] theorem caption_text (s : String) : (Value.text s).caption = .ok s := rfl

end Value

end Taskboard
