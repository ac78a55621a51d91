import Taskboard.Calendar.DateToken
import Taskboard.Calendar.Moment
import Taskboard.Number.Reading

/-!
# Calendar/Freeform — dates and times written freely

`Moment.ofText?` reads a date, a time or both in any of the usual notations: numbers with hyphens,
slashes or points between them, names of months and weekdays, clock times with colons or units, half
days, and zones by name or offset. Every token has to be understood, or the text is no date.

The numbers of a date are collected as they come (`DayNumbers`) and told apart at the end by their
size and place; the rest fills a record of parts (`Parts`). What is missing is taken from the
reference day, at midnight.
-/

namespace Taskboard

-- powers are those of the naturals, also where an importing module knows other ones
attribute [local instance (high)] instPowNat

/-! ## The words of dates -/

namespace DateToken

/-- A word in lower case; all the words of dates are in ASCII. -/
def lowered (t : String) : String := String.ofList (t.toList.map Char.toLower)

/-- The place of a word in a list of its spellings. -/
def indexIn (words : List (List String)) (t : String) : Option Nat :=
  words.findIdx? (·.contains (lowered t))

def weekdayWords : List (List String) :=
  [["mon", "monday"], ["tue", "tuesday"], ["wed", "wednesday"], ["thu", "thursday"],
   ["fri", "friday"], ["sat", "saturday"], ["sun", "sunday"]]

def monthWords : List (List String) :=
  [["jan", "january"], ["feb", "february"], ["mar", "march"], ["apr", "april"], ["may"],
   ["jun", "june"], ["jul", "july"], ["aug", "august"], ["sep", "sept", "september"],
   ["oct", "october"], ["nov", "november"], ["dec", "december"]]

def unitWords : List (List String) :=
  [["h", "hour", "hours"], ["m", "minute", "minutes"], ["s", "second", "seconds"]]

def halfDayWords : List (List String) := [["am", "a"], ["pm", "p"]]

/-- The tokens that say nothing. -/
def fillers : List String :=
  [" ", ".", ",", ";", "-", "/", "'", "at", "on", "and", "ad", "m", "t", "of", "st", "nd", "rd",
   "th"]

/-- A weekday, 0 for Monday. -/
def weekday? (t : String) : Option Nat := indexIn weekdayWords t

/-- A month, 1 for January. -/
def month? (t : String) : Option Nat := (indexIn monthWords t).map (· + 1)

/-- A unit of time: 0 for hours, 1 for minutes, 2 for seconds. -/
def unit? (t : String) : Option Nat := indexIn unitWords t

/-- A half day: 0 before noon, 1 after. -/
def halfDay? (t : String) : Option Nat := indexIn halfDayWords t

def isFiller (t : String) : Bool := fillers.contains (lowered t)

/-- A name of universal time. -/
def isUniversal (t : String) : Bool := ["utc", "gmt", "z"].contains (lowered t)

/-- A token of digits only. -/
def isNumber (t : String) : Bool := !t.isEmpty && t.toList.all isDigit

/-- The number that digits of any script write. -/
def wholeOf? (cs : List Char) : Option Nat :=
  if cs.isEmpty || maxDecimalDigits < cs.length then none
  else cs.foldl (fun acc c => acc.bind fun n => (digitValue? c).map (n * 10 + ·)) (some 0)

/-- A number with a fraction: its digits as one number, and how many stand after the point. -/
structure Amount where
  digits : Nat
  places : Nat

namespace Amount

/-- The number without its fraction. -/
def whole (a : Amount) : Nat := a.digits / 10 ^ a.places

/-- The fraction in sixtieths, cut. -/
def sixtieths (a : Amount) : Nat := 60 * (a.digits % 10 ^ a.places) / 10 ^ a.places

def hasFraction (a : Amount) : Bool := a.digits % 10 ^ a.places ≠ 0

end Amount

/-- A number, perhaps with a fraction. -/
def amount? (t : String) : Option Amount :=
  let whole := t.toList.takeWhile isDigit
  match t.toList.dropWhile isDigit with
  | [] => (wholeOf? whole).map (⟨·, 0⟩)
  | '.' :: fraction =>
    if whole.isEmpty || fraction.isEmpty then none
    else (wholeOf? (whole ++ fraction)).map (⟨·, fraction.length⟩)
  | _ => none

/-- The words that name no number but are read as one. -/
def isUndefinedNumber (t : String) : Bool := ["nan", "inf", "infinity"].contains (lowered t)

end DateToken

open DateToken

/-! ## The numbers of a date -/

/-- The numbers of a date in the order of their reading. -/
structure DayNumbers where
  numbers : List Nat
  /-- Whether a number is a full year. -/
  century : Bool
  yearAt : Option Nat
  monthAt : Option Nat

namespace DayNumbers

def empty : DayNumbers := ⟨[], false, none, none⟩

/-- One more number that is a year. -/
def pushYear? (n : Nat) (century : Bool) (d : DayNumbers) : Option DayNumbers :=
  if d.yearAt.isSome then none
  else some { d with
    numbers := d.numbers ++ [n], century := d.century || century, yearAt := some d.numbers.length }

/-- One more number that is a month. -/
def pushMonth? (n : Nat) (d : DayNumbers) : Option DayNumbers :=
  if d.monthAt.isSome then none
  else some { d with numbers := d.numbers ++ [n], monthAt := some d.numbers.length }

/-- One more number by its digits; three digits or more make a year. -/
def pushDigits? (cs : List Char) (d : DayNumbers) : Option DayNumbers :=
  (wholeOf? cs).bind fun n =>
    if 2 < cs.length then d.pushYear? n true else some { d with numbers := d.numbers ++ [n] }

/-- One more number by its value; more than a hundred is a year. -/
def pushAmount? (a : Amount) (d : DayNumbers) : Option DayNumbers :=
  if 100 < a.whole || (a.whole = 100 && a.hasFraction) then d.pushYear? a.whole true
  else some { d with numbers := d.numbers ++ [a.whole] }

/-- Whether a number can be the day of the month. -/
def couldBeDay (a : Amount) (d : DayNumbers) : Bool :=
  let last := match d.monthAt.bind (d.numbers[·]?) with
    | none => 31
    | some m =>
      match d.yearAt.bind (d.numbers[·]?) with
      | none => daysInMonth 2000 m
      | some y => daysInMonth y m
  1 ≤ a.whole && (a.whole < last || (a.whole = last && !a.hasFraction))

/-- Year, month and day, as far as they are known. -/
abbrev Parted := Option Nat × Option Nat × Option Nat

/-- Tells three numbers apart by the place of the month's name. -/
def partThree (a b c : Nat) (d : DayNumbers) : Parted :=
  match d.monthAt with
  | some 0 => if 31 < b then (some b, some a, some c) else (some c, some a, some b)
  | some 1 => if 31 < a then (some a, some b, some c) else (some c, some b, some a)
  | some _ => if 31 < b then (some b, some c, some a) else (some a, some c, some b)
  | none =>
    if 31 < a || d.yearAt = some 0 then (some a, some b, some c)
    else if 12 < a then (some c, some b, some a)
    else (some c, some a, some b)

/-- Three numbers of which year and month are marked. -/
def partMarked (y m : Nat) (d : DayNumbers) : Parted :=
  let other := [0, 1, 2].find? fun i => i ≠ y && i ≠ m
  (d.numbers[y]?, d.numbers[m]?, other.bind (d.numbers[·]?))

/-- Two numbers, one of them a month by name or none. -/
def partTwo (a b : Nat) (d : DayNumbers) : Parted :=
  match d.monthAt with
  | some i =>
    let (month, other) := if i = 0 then (a, b) else (b, a)
    if 31 < other then (some other, some month, none) else (none, some month, some other)
  | none =>
    if 31 < a then (some a, some b, none)
    else if 31 < b then (some b, some a, none)
    else (none, some a, some b)

/-- **Tells year, month and day apart**; more than three numbers are no date. -/
def parted? (d : DayNumbers) : Option Parted :=
  match d.numbers, d.yearAt, d.monthAt with
  | [], _, _ => some (none, none, none)
  | [a], some _, _ => some (some a, none, none)
  | [a], none, some _ => some (none, some a, none)
  | [a], none, none => some (if 31 < a then (some a, none, none) else (none, none, some a))
  | [_, _], some y, some m => some (d.numbers[y]?, d.numbers[m]?, none)
  | [a, b], _, _ => some (d.partTwo a b)
  | [_, _, _], some y, some m => some (d.partMarked y m)
  | [a, b, c], _, _ => some (d.partThree a b c)
  | _, _, _ => none

end DayNumbers

/-! ## The other parts -/

/-- What a text says besides the numbers of its date. -/
structure Parts where
  day : DayNumbers
  weekday : Option Nat
  hour : Option Nat
  minute : Option Nat
  second : Option Nat
  micro : Option Nat
  zone : Option String
  offset : Option Int

namespace Parts

def empty : Parts := ⟨.empty, none, none, none, none, none, none, none⟩

/-- Whether a token can be the name of a zone: five capital letters at most, after a time of day and
without a zone before. -/
def couldBeZone (p : Parts) (t : String) : Bool :=
  p.hour.isSome && p.zone.isNone && t.length ≤ 5 && (t.toList.all Char.isUpper || t = "z")

/-- An hour in a half day. -/
def adjustHour (hour half : Nat) : Nat :=
  if hour < 12 && half = 1 then hour + 12 else if hour = 12 && half = 0 then 0 else hour

/-- Seconds with a fraction, in microseconds by its first six digits. -/
def seconds? (t : String) : Option (Nat × Nat) :=
  let cs := t.toList
  if cs.contains '.' then
    let fraction := (cs.dropWhile (· ≠ '.')).drop 1
    (wholeOf? (cs.takeWhile (· ≠ '.'))).bind fun s =>
      (wholeOf? ((fraction ++ List.replicate 6 '0').take 6)).map (s, ·)
  else (wholeOf? cs).map (·, 0)

/-- Minutes whose fraction gives seconds. -/
def minuteSecond (a : Amount) : Nat × Option Nat :=
  (a.whole, if a.hasFraction then some a.sixtieths else none)

/-- Hours, minutes or seconds by their unit. -/
def setUnit? (unit : Nat) (t : String) (a : Amount) (p : Parts) : Option Parts :=
  match unit with
  | 0 => some { p with
    hour := some a.whole, minute := if a.hasFraction then some a.sixtieths else p.minute }
  | 1 =>
    let (m, s) := minuteSecond a
    some { p with minute := some m, second := s }
  | 2 => (seconds? t).map fun (s, us) => { p with second := some s, micro := some us }
  | _ => some p

end Parts

/-! ## Reading the tokens

A step takes the tokens before, last first, the one that it reads and those after it. It gives the
parts and how many of the tokens after were read too. -/

/-- The parts after a token, and the count of further tokens that were read. -/
abbrev DateStep := Option (Parts × Nat)

/-- The unit of a number: the word after it, with one blank between at most, or the unit after that
of the word before it. Gives the count of tokens read too. -/
def unitOf? (before rest : List String) : Option (Nat × Nat) :=
  match rest.head?.bind unit? with
  | some u => some (u, 1)
  | none =>
    match (if rest.head? = some " " then rest[1]?.bind unit? else none) with
    | some u => some (u, 2)
    | none =>
      match before.head?.bind unit? with
      | some u => some (u + 1, 0)
      | none =>
        if rest.isEmpty && before.head? = some " " then
          (before[1]?.bind unit?).map fun u => (u + 1, 0)
        else none

/-- A day number by the token after a separator: digits, or the name of a month. -/
def pushToken? (t : String) (d : DayNumbers) : Option DayNumbers :=
  match month? t with
  | some m => d.pushMonth? m
  | none => d.pushDigits? t.toList

/-- A number before a separator of dates, with one or two more numbers after it. -/
def separatedStep (t sep : String) (rest : List String) (p : Parts) : DateStep :=
  (p.day.pushDigits? t.toList).bind fun d =>
    match rest with
    | [] => some ({ p with day := d }, 1)
    | second :: more =>
      if isFiller second then some ({ p with day := d }, 1)
      else
        (if isNumber second then d.pushDigits? second.toList
          else (month? second).bind d.pushMonth?).bind fun d =>
          match more with
          | [] => some ({ p with day := d }, 2)
          | sep2 :: more =>
            if sep2 = sep then
              match more with
              | [] => none
              | third :: _ => (pushToken? third d).map fun d => ({ p with day := d }, 4)
            else some ({ p with day := d }, 2)

/-- A time of day with a colon after its hour. -/
def clockStep (a : Amount) (rest : List String) (p : Parts) : DateStep :=
  match rest with
  | _ :: minutes :: more =>
    (amount? minutes).bind fun m =>
      let (minute, second) := Parts.minuteSecond m
      let p := { p with hour := some a.whole, minute := some minute, second := second }
      match more with
      | ":" :: seconds :: _ =>
        (Parts.seconds? seconds).map fun (s, us) =>
          ({ p with second := some s, micro := some us }, 4)
      | _ => some (p, 2)
  | _ => none

/-- A number of eight digits or more: a full date, perhaps with the time of day. -/
def longNumberStep (cs : List Char) (p : Parts) : DateStep := do
  let year ← wholeOf? (cs.take 4)
  let d ← p.day.pushYear? year true
  let d ← d.pushDigits? ((cs.drop 4).take 2)
  let d ← d.pushDigits? ((cs.drop 6).take 2)
  let p := { p with day := d }
  if cs.length ≤ 8 then pure (p, 0)
  else
    let hour ← wholeOf? ((cs.drop 8).take 2)
    let minute ← wholeOf? ((cs.drop 10).take 2)
    let p := { p with hour := some hour, minute := some minute }
    if cs.length ≤ 12 then pure (p, 0)
    else
      let second ← wholeOf? (cs.drop 12)
      pure ({ p with second := some second }, 0)

/-- A number of six digits: a date without century, or a time of day. -/
def sixDigitStep (t : String) (p : Parts) : DateStep :=
  let cs := t.toList
  if p.day.numbers.isEmpty && !cs.contains '.' then do
    let d ← p.day.pushDigits? (cs.take 2)
    let d ← d.pushDigits? ((cs.drop 2).take 2)
    let d ← d.pushDigits? (cs.drop 4)
    pure ({ p with day := d }, 0)
  else do
    let hour ← wholeOf? (cs.take 2)
    let minute ← wholeOf? ((cs.drop 2).take 2)
    let (s, us) ← Parts.seconds? (String.ofList (cs.drop 4))
    pure ({ p with hour := some hour, minute := some minute, second := some s,
                   micro := some us }, 0)

/-- A time of two or four digits that follows a full date. -/
def shortTimeStep (cs : List Char) (p : Parts) : DateStep := do
  let hour ← wholeOf? (cs.take 2)
  let p := { p with hour := some hour }
  if cs.length = 4 then
    let minute ← wholeOf? (cs.drop 2)
    pure ({ p with minute := some minute }, 0)
  else pure (p, 0)

/-- A number that stands alone, or before a half day. -/
def loneNumberStep (a : Amount) (rest : List String) (p : Parts) : DateStep :=
  if rest.head?.all isFiller then
    match rest[1]?.bind halfDay? with
    | some half => some ({ p with hour := some (Parts.adjustHour a.whole half) }, 2)
    | none => (p.day.pushAmount? a).map fun d => ({ p with day := d }, 1)
  else
    match rest.head?.bind halfDay? with
    | some half =>
      if a.whole < 24 then some ({ p with hour := some (Parts.adjustHour a.whole half) }, 1)
      else dayStep
    | none => dayStep
where
  /-- A day of the month with something unknown behind it. -/
  dayStep : DateStep :=
    if p.day.couldBeDay a then (p.day.pushAmount? a).map fun d => ({ p with day := d }, 0) else none

/-- A number. -/
def numberStep (before : List String) (t : String) (a : Amount) (rest : List String) (p : Parts) :
    DateStep :=
  let cs := t.toList
  let n := cs.length
  let follows := match rest.head? with
    | none => true
    | some r => r ≠ ":" && (unit? r).isNone
  if p.day.numbers.length = 3 && (n = 2 || n = 4) && p.hour.isNone && follows then
    shortTimeStep cs p
  else if n = 6 || (6 < n && cs.findIdx (· = '.') = 6) then sixDigitStep t p
  else if n = 8 || n = 12 || n = 14 then longNumberStep cs p
  else match unitOf? before rest with
  | some (unit, count) => (p.setUnit? unit t a).map (·, count)
  | none =>
    match rest with
    | ":" :: _ :: _ => clockStep a rest p
    | sep :: more =>
      if sep = "-" || sep = "/" || sep = "." then separatedStep t sep more p
      else loneNumberStep a rest p
    | [] => loneNumberStep a rest p

/-- A two digit year in the century around the reference year, unless the century was given. -/
def fullYear (year : Nat) (century : Bool) : Nat :=
  if 100 ≤ year || century then year
  else
    let year := year + referenceDay.year / 100 * 100
    if referenceDay.year + 50 ≤ year then year - 100
    else if year + 50 < referenceDay.year then year + 100
    else year

/-- The name of a month, with numbers behind it. -/
def monthStep (month : Nat) (rest : List String) (p : Parts) : DateStep :=
  (p.day.pushMonth? month).bind fun d =>
    match rest with
    | sep :: more =>
      if sep = "-" || sep = "/" then
        match more with
        | [] => none
        | second :: more =>
          (d.pushDigits? second.toList).bind fun d =>
            match more with
            | sep2 :: more =>
              if sep2 = sep then
                match more with
                | [] => none
                | third :: _ => (d.pushDigits? third.toList).map fun d => ({ p with day := d }, 4)
              else some ({ p with day := d }, 2)
            | [] => some ({ p with day := d }, 2)
      else
        match rest with
        | " " :: word :: " " :: year :: _ =>
          if lowered word = "of" then
            if isNumber year then
              (wholeOf? year.toList).bind fun y =>
                (d.pushYear? (fullYear y false) true).map fun d => ({ p with day := d }, 4)
            else some ({ p with day := d }, 4)
          else some ({ p with day := d }, 0)
        | _ => some ({ p with day := d }, 0)
    | [] => some ({ p with day := d }, 0)

/-- An offset after its sign: hours and minutes in four digits, with a colon, or hours alone; then
perhaps the name of the zone in parentheses. -/
def offsetStep (ahead : Bool) (rest : List String) (p : Parts) : DateStep :=
  match rest with
  | [] => none
  | t :: more =>
    let cs := t.toList
    let parsed : Option (Nat × Nat × Nat) :=
      if cs.length = 4 then do
        let h ← wholeOf? (cs.take 2)
        let m ← wholeOf? (cs.drop 2)
        pure (h, m, 1)
      else match more with
        | ":" :: minutes => do
          let h ← wholeOf? cs
          let m ← minutes.head?.bind fun q => wholeOf? q.toList
          pure (h, m, 3)
        | _ => if cs.length ≤ 2 then (wholeOf? cs).map (·, 0, 1) else none
    parsed.map fun (h, m, used) =>
      let seconds : Int := h * 3600 + m * 60
      let p := { p with offset := some (if ahead then seconds else -seconds) }
      match rest.drop used with
      | filler :: "(" :: name :: ")" :: _ =>
        if isFiller filler && 3 ≤ name.length && p.couldBeZone name then
          ({ p with zone := some name }, used + 4)
        else (p, used)
      | _ => (p, used)

/-- The name of a zone. An offset right behind it counts the other way, and then universal time is
not the zone itself. -/
def zoneStep (t : String) (rest : List String) (p : Parts) : Parts × List String :=
  match rest with
  | sign :: more =>
    if sign = "+" || sign = "-" then
      ({ p with zone := if isUniversal t then none else some t, offset := none },
        (if sign = "+" then "-" else "+") :: more)
    else ({ p with zone := some t, offset := if t = "z" then some 0 else none }, rest)
  | [] => ({ p with zone := some t, offset := if t = "z" then some 0 else none }, rest)

/-- Reads the tokens in order; none if one is not understood. -/
def readParts? : Nat → List String → List String → Parts → Option Parts
  | _, _, [], p => some p
  | 0, _, _, _ => none
  | fuel + 1, before, t :: rest, p =>
    let go (step : DateStep) : Option Parts :=
      step.bind fun (p, count) =>
        readParts? fuel ((rest.take count).reverse ++ t :: before) (rest.drop count) p
    if isUndefinedNumber t then none
    else match amount? t with
    | some a => go (numberStep before t a rest p)
    | none =>
      match weekday? t, month? t, halfDay? t with
      | some d, _, _ => go (some ({ p with weekday := some d }, 0))
      | none, some m, _ => go (monthStep m rest p)
      | none, none, some half =>
        match p.hour with
        | some h =>
          if h ≤ 12 then go (some ({ p with hour := some (Parts.adjustHour h half) }, 0)) else none
        | none => none
      | none, none, none =>
        if p.couldBeZone t && p.offset.isNone then
          let (p, rest) := zoneStep t rest p
          readParts? fuel (t :: before) rest p
        else if p.hour.isSome && (t = "+" || t = "-") then go (offsetStep (t = "+") rest p)
        else if isFiller t then go (some (p, 0))
        else none

/-! ## Building the moment -/

/-- The zone's offset: universal time by name or as an offset of zero, else the offset read, which
no name of a zone unknown here replaces. -/
def Parts.zoneOffset (p : Parts) : Option Int :=
  match p.zone with
  | some name => if isUniversal name then some 0 else p.offset
  | none => p.offset

/-- The greatest offset in days either way. -/
def maxOffsetDays : Int := 999999999

/-- The first day on or after a given one that is a given weekday. -/
def Date.onOrAfter? (weekday : Nat) (d : Date) : Option Date :=
  Date.ofDayNumber? (d.dayNumber + (7 + weekday - d.weekday) % 7)

/-- The moment that the parts name; missing ones come from the reference day, whose day of the month
is taken back to the end of a shorter month. -/
def Parts.moment? (p : Parts) : Option Moment :=
  p.day.parted?.bind fun (year, month, day) =>
    if year.isNone && month.isNone && day.isNone && p.weekday.isNone && p.hour.isNone
        && p.minute.isNone && p.second.isNone then none
    else
      let y := (year.map (fullYear · p.day.century)).getD referenceDay.year
      let m := month.getD referenceDay.month
      let d := day.getD (min referenceDay.day (daysInMonth y m))
      (Date.ofParts? y m d).bind fun date =>
        (match p.weekday, day with
          | some w, none => date.onOrAfter? w
          | _, _ => some date).bind fun date =>
          (Moment.ofParts? date (p.hour.getD 0) (p.minute.getD 0) (p.second.getD 0)
            (p.micro.getD 0) p.zoneOffset).bind fun moment =>
            let days := (p.zoneOffset.getD 0).fdiv 86400
            if days < -maxOffsetDays || maxOffsetDays < days then none else some moment

/-- **Reads a date or time written freely**; one without a zone is in UTC. -/
def Moment.ofText? (s : String) : Option Moment :=
  let tokens := DateToken.ofText s
  (readParts? (tokens.length + 1) [] tokens .empty).bind fun p =>
    p.moment?.map Moment.withOffset

end Taskboard
