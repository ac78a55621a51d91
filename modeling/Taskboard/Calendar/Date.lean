import Taskboard.Number.Shortest

/-!
# Calendar/Date — days of the Gregorian calendar

A `Date` is a day that exists, from year 1 to 9999. `Date.dayNumber` counts days from the first one,
which has number 1, and `Date.ofDayNumber?` finds the day back.
-/

namespace Taskboard

-- sums start from the zero of the naturals, also where an importing module knows other ones
attribute [local instance (high)] Zero.ofOfNat0

/-- A year with 366 days. -/
def isLeapYear (year : Nat) : Bool := year % 4 = 0 && (year % 100 ≠ 0 || year % 400 = 0)

/-- The number of days of a month. -/
def daysInMonth (year month : Nat) : Nat :=
  match month with
  | 2 => if isLeapYear year then 29 else 28
  | 4 | 6 | 9 | 11 => 30
  | _ => 31

/-- The year, month and day belong to a day between the years 1 and 9999. -/
def IsDay (year month day : Nat) : Prop :=
  1 ≤ year ∧ year ≤ 9999 ∧ 1 ≤ month ∧ month ≤ 12 ∧ 1 ≤ day ∧ day ≤ daysInMonth year month

instance (year month day : Nat) : Decidable (IsDay year month day) := by
  unfold IsDay; infer_instance

/-- A day of the calendar. -/
structure Date where
  year : Nat
  month : Nat
  day : Nat
  isDay : IsDay year month day
deriving DecidableEq

namespace Date

/-- The day with these parts, if there is one. -/
def ofParts? (year month day : Nat) : Option Date :=
  if h : IsDay year month day then some ⟨year, month, day, h⟩ else none

@[simp] theorem ofParts?_self (d : Date) : ofParts? d.year d.month d.day = some d := by
  simp [ofParts?, d.isDay]

/-- The days before the first of a year. -/
def daysBeforeYear (year : Nat) : Nat :=
  (year - 1) * 365 + (year - 1) / 4 - (year - 1) / 100 + (year - 1) / 400

/-- The days of a year before the first of a month. -/
def daysBeforeMonth (year month : Nat) : Nat :=
  ((List.range (month - 1)).map fun m => daysInMonth year (m + 1)).sum

/-- The number of a day, 1 for the first day of year 1. -/
def dayNumber (d : Date) : Nat :=
  daysBeforeYear d.year + daysBeforeMonth d.year d.month + d.day

/-- The month and day at a distance from the first day of a year. -/
def monthAndDay (year : Nat) : Nat → Nat → Nat → Nat × Nat
  | 0, month, rest => (month, rest + 1)
  | fuel + 1, month, rest =>
    if rest < daysInMonth year month then (month, rest + 1)
    else monthAndDay year fuel (month + 1) (rest - daysInMonth year month)

/-- The year that holds a day number, by cycles of 400, 100, 4 and 1 years. -/
def yearOfDay (n : Nat) : Nat :=
  let n := n - 1
  let c400 := n / 146097
  let n := n % 146097
  let c100 := min 3 (n / 36524)
  let n := n - c100 * 36524
  let c4 := n / 1461
  let n := n % 1461
  let c1 := min 3 (n / 365)
  c400 * 400 + c100 * 100 + c4 * 4 + c1 + 1

/-- The day with a number. -/
def ofDayNumber? (n : Nat) : Option Date :=
  if n = 0 then none
  else
    let year := yearOfDay n
    let (month, day) := monthAndDay year 12 1 (n - daysBeforeYear year - 1)
    ofParts? year month day

/-- The day of the week, 0 for Monday. -/
def weekday (d : Date) : Nat := (d.dayNumber + 6) % 7

/-- Earlier days come first. -/
def le (a b : Date) : Bool := a.dayNumber ≤ b.dayNumber

def lt (a b : Date) : Bool := a.dayNumber < b.dayNumber

/-- Year of four digits, month and day of two, with hyphens between. -/
def isoText (d : Date) : String :=
  padZeros 4 (natText d.year) ++ "-" ++ padZeros 2 (natText d.month) ++ "-"
    ++ padZeros 2 (natText d.day)

/-- As `isoText`, but the year has no leading zeros. -/
def shortText (d : Date) : String :=
  natText d.year ++ "-" ++ padZeros 2 (natText d.month) ++ "-" ++ padZeros 2 (natText d.day)

/-- Month and day as a label of an axis. -/
def label (d : Date) : String := natText d.month ++ "/" ++ natText d.day

/-- The names of the weekdays, abbreviated, from Monday on. -/
def weekdayNames : List String := ["Mon", "Tue", "Wed", "Thu", "Fri", "Sat", "Sun"]

/-- The names of the months, abbreviated. -/
def monthNames : List String :=
  ["Jan", "Feb", "Mar", "Apr", "May", "Jun", "Jul", "Aug", "Sep", "Oct", "Nov", "Dec"]

end Date

/-- The day that dates with missing parts take them from. -/
def referenceDay : Date := ⟨2024, 1, 31, by decide⟩

end Taskboard
