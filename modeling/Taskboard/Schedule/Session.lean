import Taskboard.Schedule.Row

/-!
# Schedule/Session — editing a schedule

A session holds the rows of an open schedule. A change counts at once, and the schedule is saved
once its task was left alone for a quiet period: each changed task has a timer of its own, and a
save writes all rows. Operations return the snapshots that they hand to the store; `saveAll` hands
them over, and a store that fails changes nothing about the session.
-/

namespace Taskboard

/-- All rows at the time of a save. -/
abbrev Snapshot := List Row

/-- A save that waits for its time. -/
structure Timer where
  /-- A number that no other timer of the session has. -/
  serial : Nat
  /-- The task that was changed. -/
  task : String
  /-- When the timer rings, in milliseconds. -/
  due : Int
deriving DecidableEq, Repr

/-- An open schedule. -/
structure Session where
  rows : List Row
  /-- The quiet period before a save, in milliseconds. -/
  quiet : Int
  /-- Whether changes are never saved. -/
  readOnly : Bool
  /-- The time that has passed since the opening. -/
  now : Int
  /-- The timers that wait, one per task at most. -/
  timers : List Timer
  /-- The serial of the next timer. -/
  nextSerial : Nat
  closed : Bool

namespace Session

/-- A session that opens on some rows. -/
def start (rows : List Row) (quiet : Int) (readOnly : Bool) : Session :=
  ⟨rows, quiet, readOnly, 0, [], 0, false⟩

/-- The tasks with a save that waits. -/
def pending (s : Session) : List String := s.timers.map Timer.task

/-- The first row of a task. -/
def row? (id : String) (s : Session) : Option Row := s.rows.find? fun r => r.id = id

/-! ## Changes -/

/-- The rows with other times for the first one of a task. -/
def moveRow (id : String) (start finish : Int) (h : start < finish) : List Row → List Row
  | [] => []
  | r :: rs => if r.id = id then r.moved start finish h :: rs else r :: moveRow id start finish h rs

/-- Starts the quiet period of a task anew. -/
def arm (id : String) (s : Session) : Session :=
  if s.readOnly then s
  else
    { s with
      timers := (s.timers.filter fun t => t.task ≠ id) ++ [⟨s.nextSerial, id, s.now + s.quiet⟩]
      nextSerial := s.nextSerial + 1 }

/-- **Moves the row of a task** and says whether it changed. Times out of order, unknown tasks and
closed sessions change nothing. -/
def update (id : String) (start finish : Int) (s : Session) : Bool × Session :=
  if h : start < finish then
    if s.closed then (false, s)
    else match s.row? id with
      | none => (false, s)
      | some r =>
        if r.start = start ∧ r.finish = finish then (false, s)
        else (true, ({ s with rows := moveRow id start finish h s.rows }).arm id)
  else (false, s)

/-- Other rows in place of all. -/
def replace (rows : List Row) (s : Session) : Session := { s with rows }

/-! ## Saves -/

/-- What a timer does when it rings: it saves if it is still the one that its task waits for. -/
def ring (serial : Nat) (s : Session) : Session × List Snapshot :=
  if s.closed then (s, [])
  else if s.timers.any fun t => t.serial = serial then
    ({ s with timers := s.timers.filter fun t => t.serial ≠ serial }, [s.rows])
  else (s, [])

/-- Timers ring one after the other. -/
def ringAll : List Timer → Session → Session × List Snapshot
  | [], s => (s, [])
  | t :: ts, s =>
    let (s, saves) := s.ring t.serial
    let (s, more) := ringAll ts s
    (s, saves ++ more)

/-- A timer put among others in the order of ringing: by due time, then by serial. -/
def insertTimer (t : Timer) : List Timer → List Timer
  | [] => [t]
  | u :: us =>
    if t.due < u.due ∨ (t.due = u.due ∧ t.serial ≤ u.serial) then t :: u :: us
    else u :: insertTimer t us

/-- The timers that are due, in the order of ringing. -/
def due (s : Session) : List Timer :=
  (s.timers.filter fun t => t.due ≤ s.now).foldr insertTimer []

/-- **Lets time pass**: the timers that get due ring. -/
def advance (ms : Int) (s : Session) : Session × List Snapshot :=
  let s := { s with now := s.now + ms }
  ringAll s.due s

/-- Saves now in place of all timers. -/
def flush (s : Session) : Session × List Snapshot :=
  if s.closed || s.readOnly then (s, []) else ({ s with timers := [] }, [s.rows])

/-- Closes for good: nothing that waits is saved. -/
def close (s : Session) : Session := { s with closed := true, timers := [] }

/-! ## The store -/

/-- How a store takes a snapshot: it may refuse it, and is another store afterwards. -/
abbrev Saving (σ : Type) := Snapshot → σ → Except Fault Unit × σ

/-- Hands snapshots to a store one by one; one that it refuses is passed over. -/
def saveAll {σ : Type} (save : Saving σ) : List Snapshot → σ → σ
  | [], store => store
  | rows :: rest, store => saveAll save rest (save rows store).2

end Session

end Taskboard
