import Taskboard.Service.Basic

/-!
# Service/Schedule — editing the schedule

The schedule is shown, its rows are moved, and it is closed. A request that cannot move a row says
why, and changes nothing.
-/

namespace Taskboard.Service

/-- **Shows the rows of the schedule** and which of them wait to be saved. -/
def showSchedule (s : Service) : Served Reply :=
  match s.openSchedule with
  | (.error f, s) => (.error f, s)
  | (.ok session, s) =>
    let pending := session.pending.mergeSort fun a b => decide (a ≤ b)
    (Reply.ok [("rows", .list (session.rows.map Row.fields)),
      ("pending", .list (pending.map Value.text))], s)

/-- The times of a body, in milliseconds. -/
def bodyTimes (body : Value) : Except Fault (Int × Int) := do
  let start ← (← body.item "start_time").toInt
  let finish ← (← body.item "end_time").toInt
  pure (start, finish)

/-- The body of a request; what counts as nothing is an empty one. -/
def bodyOf (r : Request) : Value := (r.json?.getD .null).orElse (.map [])

/-- The reply to a move after it was tried. -/
def moveReply (id : String) (start finish : Int) (changed : Bool) (session : Session) :
    Except Fault Reply :=
  match session.row? id with
  | none => .ok (.refusal 404 ("Unknown task: " ++ id))
  | some row =>
    if !changed && !(start < finish) then
      .ok (.refusal 422 "end_time must be after start_time")
    else Reply.ok [("changed", .bool changed), ("row", row.fields)]

/-- **Moves a row of the schedule.** -/
def moveRow (id : String) (r : Request) (s : Service) : Served Reply :=
  match bodyTimes (bodyOf r) with
  | .error f =>
    if f.isBadShape then (.ok (.refusal 400 "start_time and end_time are required"), s)
    else (.error f, s)
  | .ok (start, finish) =>
    match s.openSchedule with
    | (.error f, s) => (.error f, s)
    | (.ok session, s) =>
      let (changed, session) := session.update id start finish
      (moveReply id start finish changed session, { s with session := some session })

end Taskboard.Service
