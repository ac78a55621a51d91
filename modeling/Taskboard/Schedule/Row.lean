import Taskboard.Task.Basic

/-!
# Schedule/Row — rows of a schedule

A row is a task with a start and a finish in milliseconds since 1970, the start before the finish,
and a progress from zero to one. `Row.ofStored` reads a saved row, `Row.fields` writes one, and
`Row.ofTask?` makes the row of a task by its attributes.
-/

namespace Taskboard

/-- A double from zero to one. -/
structure Progress where
  value : Binary64
  nonneg : Binary64.zero.le value = true
  le_one : value.le (Binary64.ofInt 1) = true
deriving DecidableEq

namespace Progress

/-- Nothing done. -/
def none : Progress := ⟨.zero, by decide +kernel, by decide +kernel⟩

/-- All done. -/
def full : Progress := ⟨.ofInt 1, by decide +kernel, by decide +kernel⟩

/-- The nearest progress: what is not below one counts as one, what is not above zero as zero. -/
def clamp (x : Binary64) : Progress :=
  if h : x.lt (Binary64.ofInt 1) = true then
    if h0 : Binary64.zero.lt x = true then ⟨x, Binary64.le_of_lt h0, Binary64.le_of_lt h⟩ else none
  else full

end Progress

/-- A row of a schedule. -/
structure Row where
  /-- The id of the row's task. -/
  id : String
  name : String
  start : Int
  finish : Int
  start_lt_finish : start < finish
  progress : Progress
  /-- The task that this one depends on, as it was stored. -/
  needs : Value

namespace Row

/-- How long the row lasts, in milliseconds. -/
def duration (r : Row) : Int := r.finish - r.start

theorem duration_pos (r : Row) : 0 < r.duration := by
  have := r.start_lt_finish
  unfold duration
  omega

/-- The row at other times. -/
def moved (r : Row) (start finish : Int) (h : start < finish) : Row :=
  { r with start, finish, start_lt_finish := h }

/-- The failure of a row whose times are out of order. -/
def orderFault (id : String) (start finish : Int) : Fault :=
  match wholeText start, wholeText finish with
  | .ok s, .ok f => .rowOrder id s f
  | _, _ => .tooManyDigits

/-- The progress that a value gives; what counts as nothing is no progress. -/
def readProgress (v : Value) : Except Fault Progress :=
  if v.isTrue then v.toReal.map Progress.clamp else .ok .none

/-- **A row of its parts**, which must be in order. -/
def ofParts (id name : String) (start finish : Int) (progress needs : Value) : Except Fault Row :=
  if h : start < finish then
    (readProgress progress).map fun p => ⟨id, name, start, finish, h, p, needs⟩
  else .error (orderFault id start finish)

/-- **The row that a map describes.** The name is the id's where there is none, and times may be
texts or reals. -/
def ofStored (v : Value) : Except Fault Row := do
  let idValue ← v.item "task_id"
  let id ← idValue.shown
  let given ← v.field? "name"
  let name ← ((given.getD .null).orElse idValue).shown
  let start ← (← v.item "start_time").toInt
  let finish ← (← v.item "end_time").toInt
  let progress ← v.field? "progress"
  let needs ← v.field? "depends_on"
  ofParts id name start finish (progress.getD (.real .zero)) (needs.getD .null)

/-- The row as a map of its fields. -/
def fields (r : Row) : Value :=
  .object [("task_id", .text r.id), ("name", .text r.name), ("start_time", .int r.start),
    ("end_time", .int r.finish), ("progress", .real r.progress.value), ("depends_on", r.needs)]

end Row

/-! ## Rows of tasks -/

/-- The attributes of tasks that rows are made of. -/
structure RowKeys where
  start : String := "start_date"
  finish : String := "end_date"
  progress : String := "progress"
  needs : String := usualNeedsKey
  /-- The attribute with the row's name; with an empty key rows are named by their ids. -/
  title : String := ""

namespace Row

/-- The progress that an attribute gives: unreadable ones count as nothing, and above one it counts
in percent. -/
def taskProgress (v : Value) : Except Fault Binary64 :=
  match v.toReal with
  | .ok x => .ok (if (Binary64.ofInt 1).lt x then x / Binary64.ofInt 100 else x)
  | .error .numberTooLarge => .error .numberTooLarge
  | .error _ => .ok .zero

/-- The name of a task's row. -/
def taskName (title : String) (t : Task) : Except Fault String :=
  let given := if title = "" then .null else t.get title
  if given.isTrue then given.shown else .ok t.displayName

/-- **The row of a task**, none where its dates are missing, unreadable or out of order. -/
def ofTask? (keys : RowKeys) (t : Task) : Except Fault (Option Row) := do
  let start ← (t.get keys.start).epochMs?
  let finish ← (t.get keys.finish).epochMs?
  match start, finish with
  | some s, some f =>
    if s < f then
      let progress ← taskProgress (t.get keys.progress)
      let name ← taskName keys.title t
      let needs : Value := ((t.dependencyIds keys.needs).head?.map Value.text).getD .null
      (ofParts t.id name s f (.real progress) needs).map some
    else pure none
  | _, _ => pure none

/-- The rows of tasks, in order. -/
def ofTasks (keys : RowKeys) : List Task → Except Fault (List Row)
  | [] => .ok []
  | t :: ts => (ofTask? keys t).bind fun row => (ofTasks keys ts).map (row.toList ++ ·)

end Row

end Taskboard
