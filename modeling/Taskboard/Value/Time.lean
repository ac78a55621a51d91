import Taskboard.Calendar.Freeform
import Taskboard.Value.Number

/-!
# Value/Time — values as points in time

A date, a moment or a text that reads as one places a value on the calendar (`Value.moment?`); whole
numbers count as milliseconds since 1970 where an instant is asked for (`Value.epochMs?`).
-/

namespace Taskboard.Value

/-- The moment that a value names, in UTC where it says no zone. -/
def moment? : Value → Option Moment
  | .moment m => some m.withOffset
  | .date d => some (.midnight d (some 0))
  | .text s => Moment.ofText? s
  | _ => none

/-- The day that a value names. -/
def day? (v : Value) : Option Date := v.moment?.map Moment.date

/-- Milliseconds since 1970. Numbers are such already; infinite ones are no time. -/
def epochMs? : Value → Except Fault (Option Int)
  | .bool _ => .ok none
  | .int n => if (Binary64.ofInt? n).isSome then .ok (some n) else .error .numberTooLarge
  | .real x => .ok x.truncate?
  | v =>
    match v.moment? with
    | none => .ok none
    | some m => m.epochMs.map some

/-- Month and day as a label of an axis; the plain text of what is no date. -/
def axisLabel (v : Value) : Except Fault String :=
  match v.day? with
  | some d => .ok d.label
  | none => v.shown

end Taskboard.Value
