import Taskboard.Json.Reader
import Taskboard.Json.Writer
import Taskboard.Schedule.Row
import Taskboard.Store.Basic

/-!
# Store/Schedule — the saved schedule

A schedule is saved as a JSON document whose tasks are rows. Reading it back leaves out entries that
make no row; without a file there are none.
-/

namespace Taskboard.Store

/-- The JSON document of a file, none where there is no file. -/
def document? (s : Store) (path : Path) (refusal : Fault) : Except Fault (Option Value) :=
  if path.isClean && s.files.holds path then
    match s.files.file? path with
    | none => .error refusal
    | some (bytes, _) => (textOf bytes).bind fun text =>
      match Json.read text with
      | .ok v => .ok (some v)
      | .error .malformed => .error refusal
      | .error .tooManyDigits => .error .tooManyDigits
  else .ok none

/-- The rows that entries make; one of an unfit shape is left out. -/
def rowsOf : List Value → Except Fault (List Row)
  | [] => .ok []
  | v :: vs =>
    match Row.ofStored v with
    | .ok r => (rowsOf vs).map (r :: ·)
    | .error f => if f.isBadShape then rowsOf vs else .error f

/-- The rows of a saved document. -/
def rowsOfDocument (v : Value) : Except Fault (List Row) :=
  (v.field? "tasks").bind fun tasks => ((tasks.getD (.list [])).members).bind rowsOf

/-- **The rows of the saved schedule.** -/
def loadSchedule (s : Store) : Except Fault (List Row) :=
  (s.document? s.schedulePath .scheduleUnreadable).bind fun v =>
    match v with
    | some v => rowsOfDocument v
    | none => .ok []

/-- The document of some rows. -/
def scheduleDocument (rows : List Row) : Value :=
  .object [("tasks", .list (rows.map Row.fields))]

/-- **Saves a schedule.** -/
def saveSchedule (rows : List Row) (s : Store) : Stored Unit :=
  s.writeDeep s.schedulePath (Json.write Json.fileLayout Json.noDates (scheduleDocument rows))
    .scheduleUnwritable

end Taskboard.Store
