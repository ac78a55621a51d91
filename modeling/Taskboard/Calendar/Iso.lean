import Taskboard.Calendar.Moment
import Taskboard.Number.Reading

/-!
# Calendar/Iso — reading dates and times in ISO 8601 form

The inverse of `Date.isoText` and `Moment.isoText`. The time may stop after the hour or the minute,
seconds may have up to six places, and the offset may be `Z`.
-/

namespace Taskboard

/-- A number of exactly so many ASCII digits, and the rest. -/
def fixedDigits? (count : Nat) (cs : List Char) : Option (Nat × List Char) :=
  let ds := cs.take count
  if ds.length = count && ds.all Char.isDigit then some (digitsValue ds, cs.drop count) else none

/-- The rest after an expected character. -/
def dropChar? (c : Char) : List Char → Option (List Char)
  | d :: r => if d = c then some r else none
  | [] => none

/-- A date of four, two and two digits with hyphens between, and the rest. -/
def Date.ofIsoPart? (cs : List Char) : Option (Date × List Char) := do
  let (y, cs) ← fixedDigits? 4 cs
  let cs ← dropChar? '-' cs
  let (m, cs) ← fixedDigits? 2 cs
  let cs ← dropChar? '-' cs
  let (d, cs) ← fixedDigits? 2 cs
  let date ← Date.ofParts? y m d
  pure (date, cs)

/-- A date in ISO 8601 form. -/
def Date.ofIso? (s : String) : Option Date :=
  match Date.ofIsoPart? s.toList with
  | some (d, []) => some d
  | _ => none

namespace Moment

/-- A colon with two digits, if one follows. -/
def colonPart (cs : List Char) : Nat × List Char :=
  match (dropChar? ':' cs).bind (fixedDigits? 2) with
  | some (n, r) => (n, r)
  | none => (0, cs)

/-- The digits after a point as microseconds. -/
def fractionMicros (ds : List Char) : Nat :=
  digitsValue ((ds ++ List.replicate 6 '0').take 6)

/-- The offset at the end of a text; the outer option says whether the text is one. -/
def ofIsoOffset? : List Char → Option (Option Int)
  | [] => some none
  | ['Z'] => some (some 0)
  | c :: cs =>
    if c = '+' || c = '-' then
      match fixedDigits? 2 cs with
      | none => none
      | some (h, r) =>
        let (m, r) := colonPart r
        let (s, r) := colonPart r
        let n : Int := h * 3600 + m * 60 + s
        if r.isEmpty then some (some (if c = '-' then -n else n)) else none
    else none

/-- A moment in ISO 8601 form. -/
def ofIso? (s : String) : Option Moment :=
  match Date.ofIsoPart? s.toList with
  | none => none
  | some (d, []) => some (.midnight d none)
  | some (d, _ :: cs) =>
    match fixedDigits? 2 cs with
    | none => none
    | some (h, r) =>
      let (m, r) := colonPart r
      let (sec, r) := colonPart r
      let (us, r) := match r with
        | '.' :: q => (fractionMicros (q.takeWhile Char.isDigit), q.dropWhile Char.isDigit)
        | q => (0, q)
      (ofIsoOffset? r).bind fun offset => Moment.ofParts? d h m sec us offset

end Moment

end Taskboard
