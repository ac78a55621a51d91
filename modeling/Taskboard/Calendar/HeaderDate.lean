import Taskboard.Calendar.Moment

/-!
# Calendar/HeaderDate — dates as message headers write them

A header date has the day of the week, the day, the month by its name, the year and the time of day,
all in universal time: `Mon, 01 Jan 2024 00:00:00 GMT`.
-/

namespace Taskboard

/-- The day in a header: weekday, day, month and year. -/
def Date.headerText (d : Date) : String :=
  weekdayNames[d.weekday]?.getD "" ++ ", " ++ padZeros 2 (natText d.day) ++ " "
    ++ monthNames[d.month - 1]?.getD "" ++ " " ++ padZeros 4 (natText d.year)

/-- A time of day in a header, without fractions of a second. -/
def headerClock (hour minute second : Nat) : String :=
  padZeros 2 (natText hour) ++ ":" ++ padZeros 2 (natText minute) ++ ":"
    ++ padZeros 2 (natText second) ++ " GMT"

/-- The header date of a day: its midnight. -/
def Date.header (d : Date) : String := d.headerText ++ " " ++ headerClock 0 0 0

/-- The same instant in universal time; a moment without an offset is in it already. -/
def Moment.universal (m : Moment) : Except Fault Moment :=
  m.instant.bind fun us =>
    match ofMicros? us with
    | some m => .ok m
    | none => .error .clockOverflow

/-- The header date of a moment. -/
def Moment.header (m : Moment) : Except Fault String :=
  m.universal.map fun m =>
    m.date.headerText ++ " " ++ headerClock m.hour m.minute m.second

end Taskboard
