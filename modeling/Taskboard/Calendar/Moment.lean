import Taskboard.Calendar.Date
import Taskboard.Fault

/-!
# Calendar/Moment — a time of day on a date, with or without an offset

A `Moment` is a date, the microseconds since midnight and perhaps an offset from UTC in seconds. One
without an offset is read as UTC. `Moment.micros` places it on the time line in microseconds since
1970, exactly; `Moment.epochMs` and `Moment.ofEpochMs` go through doubles as clocks do.
-/

namespace Taskboard

-- powers are those of the naturals, also where an importing module knows other ones
attribute [local instance (high)] instPowNat

/-- The microseconds of a day. -/
def dayMicros : Nat := 86400000000

/-- A date and a time of day. -/
structure Moment where
  date : Date
  /-- Microseconds since midnight. -/
  clock : Nat
  clock_lt : clock < dayMicros
  /-- The offset from UTC in seconds, if one is known. -/
  offset : Option Int
deriving DecidableEq

namespace Moment

/-- Midnight at the start of a date. -/
def midnight (d : Date) (offset : Option Int) : Moment := ⟨d, 0, by decide, offset⟩

/-- The moment with these parts, if the clock shows such a time. -/
def ofParts? (d : Date) (hour minute second micro : Nat) (offset : Option Int) : Option Moment :=
  if hour < 24 ∧ minute < 60 ∧ second < 60 ∧ micro < 1000000 then
    let clock := ((hour * 60 + minute) * 60 + second) * 1000000 + micro
    if h : clock < dayMicros then some ⟨d, clock, h, offset⟩ else none
  else none

def hour (m : Moment) : Nat := m.clock / 3600000000
def minute (m : Moment) : Nat := m.clock / 60000000 % 60
def second (m : Moment) : Nat := m.clock / 1000000 % 60
def micro (m : Moment) : Nat := m.clock % 1000000

/-- An offset that has an instant and a text: less than a day either way. -/
def offsetInRange (seconds : Int) : Bool := seconds.natAbs < 86400

/-- The same moment, in UTC where no offset is known. -/
def withOffset (m : Moment) : Moment := { m with offset := some (m.offset.getD 0) }

/-- The number of the first day of 1970. -/
def epochDay : Nat := 719163

/-- Microseconds since the start of 1970 in UTC. -/
def micros (m : Moment) : Int :=
  ((m.date.dayNumber : Int) - epochDay) * dayMicros + m.clock - m.offset.getD 0 * 1000000

/-- Microseconds since 1970, a failure where the offset has no instant. -/
def instant (m : Moment) : Except Fault Int :=
  if offsetInRange (m.offset.getD 0) then .ok m.micros else .error .offsetOutOfRange

/-- Seconds since 1970 as a double. -/
def seconds (m : Moment) : Except Fault Binary64 :=
  m.instant.map fun us => Binary64.ofRatio us 1000000

/-- Whole milliseconds since 1970: the seconds as a double, times a thousand, without fraction. -/
def epochMs (m : Moment) : Except Fault Int :=
  m.seconds.map fun s => ((s * Binary64.ofInt 1000).truncate?).getD 0

/-- The moment at a number of microseconds since 1970 in UTC. -/
def ofMicros? (us : Int) : Option Moment :=
  let day := us.fdiv dayMicros + epochDay
  if day < 1 then none
  else
    (Date.ofDayNumber? day.toNat).bind fun d =>
      let clock := (us.fmod dayMicros).toNat
      if h : clock < dayMicros then some ⟨d, clock, h, some 0⟩ else none

/-- Seconds as a double split into whole seconds and microseconds: the fraction times a million,
rounded half to even. -/
def splitSeconds : Binary64 → Option (Int × Int)
  | .finite s m =>
    let whole : Int := m.units / unitsPerOne
    let fraction := Binary64.ofUnits false (m.units % unitsPerOne) 1 * Binary64.ofInt 1000000
    let us : Int := match fraction with
      | .finite _ f => roundDiv f.units unitsPerOne
      | _ => 0
    some (if s then (-whole, -us) else (whole, us))
  | _ => none

/-- The moment a number of seconds since 1970, in UTC: rounded half to even to a microsecond. -/
def ofSeconds (seconds : Binary64) : Except Fault Moment :=
  match splitSeconds seconds with
  | none => .error .numberTooLarge
  | some (s, us) =>
    if s.natAbs ≥ 2 ^ (63 : Nat) then .error .clockOverflow
    else if s < -67768040609740800 ∨ 67768036191676799 < s then .error .calendarOverflow
    else match ofMicros? (s * 1000000 + us) with
      | some m => .ok m
      | none => .error .timeOutOfRange

/-- The moment a number of milliseconds since 1970, in UTC: divided by a thousand as a double. -/
def ofEpochMs (ms : Int) : Except Fault Moment := ofSeconds (Binary64.ofRatio ms 1000)

/-- An offset as sign, hours and minutes, and seconds where there are some. -/
def offsetText (seconds : Int) : String :=
  let n := seconds.natAbs
  let base := (if seconds < 0 then "-" else "+") ++ padZeros 2 (natText (n / 3600)) ++ ":"
    ++ padZeros 2 (natText (n / 60 % 60))
  if n % 60 = 0 then base else base ++ ":" ++ padZeros 2 (natText (n % 60))

/-- The time of day, with microseconds where there are some. -/
def clockText (m : Moment) : String :=
  let base := padZeros 2 (natText m.hour) ++ ":" ++ padZeros 2 (natText m.minute) ++ ":"
    ++ padZeros 2 (natText m.second)
  if m.micro = 0 then base else base ++ "." ++ padZeros 6 (natText m.micro)

/-- Date, a separator, time of day and offset; a failure where the offset has no text. -/
def text (separator : String) (m : Moment) : Except Fault String :=
  let base := m.date.isoText ++ separator ++ m.clockText
  match m.offset with
  | none => .ok base
  | some s => if offsetInRange s then .ok (base ++ offsetText s) else .error .offsetOutOfRange

/-- The ISO 8601 text. -/
def isoText (m : Moment) : Except Fault String := m.text "T"

end Moment

/-- The least whole number that is no less than a double. -/
def wholeCeil (x : Binary64) : Except Fault Int :=
  match x.ceil? with
  | some n => .ok n
  | none => .error .numberTooLarge

/-- The days, full or begun, between two times in milliseconds: the quotient as a double, rounded
up. -/
def durationDays (start finish : Int) : Except Fault Int :=
  wholeCeil (Binary64.ofRatio (finish - start) 86400000)

end Taskboard
