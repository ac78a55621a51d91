import Taskboard.Service.Charts
import Taskboard.Service.Route
import Taskboard.Service.Schedule
import Taskboard.Service.Tasks
import Taskboard.Text.Uppercase

/-!
# Service/Handle — requests and their replies

`Service.handle` finds what a request is for, does it, and makes a reply of whatever comes of it.
-/

namespace Taskboard.Service

/-- What the service says of itself. -/
def healthFields : Value :=
  .object [("status", .text "healthy"), ("app", .text "task-analytics")]

/-- Does what a route asks for. -/
def serve (route : Route) (r : Request) (s : Service) : Served Reply :=
  match route with
  | .listTasks => s.listTasks r
  | .queryTasks => s.queryTasks r
  | .listCycles => s.listCycles
  | .drawChart kind => s.drawChart kind r
  | .showSchedule => s.showSchedule
  | .moveRow id => s.moveRow id r
  | .closeSchedule => (Reply.ok [], s.closeSchedule)
  | .reportHealth => (Reply.json 200 healthFields, s)
  | .sendAsset => (.ok (.page 404), s)

/-- The reply that comes of an action. -/
def replyOf : Except Fault Reply → Reply
  | .ok reply => reply
  | .error f => .ofFault f

/-- A reply as its head alone, if that is all that was asked for. -/
def headOnly (method : String) (reply : Reply) : Reply :=
  if method = "HEAD" then .page reply.status else reply

/-- **The reply to a request, and the service after it.** -/
def handle (r : Request) (s : Service) : Reply × Service :=
  let method := upperText r.method
  match Destination.ofRequest r.path method with
  | .route route =>
    let (result, s) := s.serve route r
    (headOnly method (replyOf result), s)
  | .options => (.page 200, s)
  | .moved => (.page 308, s)
  | .wrongMethod => (.page 405, s)
  | .nowhere => (.page 404, s)

end Taskboard.Service
