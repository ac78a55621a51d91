import Taskboard.Text.Find

/-!
# Service/Route — which request is for what

A path is a chain of parts between slashes. `Resource.ofParts?` says what a path stands for, and
`Resource.route?` what a method does there. A path with doubled slashes that stands for nothing is
sent to the path without them.
-/

namespace Taskboard

/-- What a path stands for. -/
inductive Resource where
  | tasks
  | taskQuery
  | cycles
  | chart (kind : String)
  | schedule
  | scheduleRow (task : String)
  | health
  /-- A file that is served as it is. -/
  | asset
deriving DecidableEq, Repr

/-- What a request is for. -/
inductive Route where
  | listTasks
  | queryTasks
  | listCycles
  | drawChart (kind : String)
  | showSchedule
  | moveRow (task : String)
  | closeSchedule
  | reportHealth
  | sendAsset
deriving DecidableEq, Repr

namespace Resource

/-- **The resource of a path** by its parts. -/
def ofParts? : List String → Option Resource
  | ["api", "tasks"] => some .tasks
  | ["api", "tasks", "query"] => some .taskQuery
  | ["api", "cycles"] => some .cycles
  | ["api", "charts", kind] => if kind = "" then none else some (.chart kind)
  | ["api", "schedule"] => some .schedule
  | ["api", "schedule", task] => if task = "" then none else some (.scheduleRow task)
  | ["health"] => some .health
  | "static" :: name :: _ => if name = "" then none else some .asset
  | _ => none

/-- What a method does at a resource. -/
def route? : Resource → String → Option Route
  | .tasks, "GET" => some .listTasks
  | .taskQuery, "POST" => some .queryTasks
  | .cycles, "GET" => some .listCycles
  | .chart kind, "GET" => some (.drawChart kind)
  | .schedule, "GET" => some .showSchedule
  | .schedule, "DELETE" => some .closeSchedule
  | .scheduleRow task, "POST" => some (.moveRow task)
  | .health, "GET" => some .reportHealth
  | .asset, "GET" => some .sendAsset
  | _, _ => none

end Resource

/-- Where a request leads. -/
inductive Destination where
  | route (r : Route)
  /-- A question for the methods of a resource. -/
  | options
  /-- Another spelling of the path. -/
  | moved
  | wrongMethod
  | nowhere
deriving DecidableEq, Repr

namespace Destination

/-- The parts of a path behind its first slashes. -/
def partsOf (path : List Char) : List String :=
  (partsAt '/' (path.dropWhile (· = '/'))).map String.ofList

/-- The characters of a path with each two slashes in a row made one. -/
def mergeSlashes : List Char → List Char
  | '/' :: '/' :: cs => '/' :: mergeSlashes cs
  | c :: cs => c :: mergeSlashes cs
  | [] => []

/-- The method that stands behind another: a look at the head of a page is a look at the page. -/
def plainMethod (method : String) : String := if method = "HEAD" then "GET" else method

/-- Where a method leads at a resource. -/
def atResource (resource : Resource) (method : String) : Destination :=
  if method = "OPTIONS" then .options
  else match resource.route? (plainMethod method) with
    | some r => .route r
    | none => .wrongMethod

/-- **Where a request leads** by its path and method. -/
def ofRequest (path method : String) : Destination :=
  let behind := path.toList.dropWhile (· = '/')
  match Resource.ofParts? (partsOf behind) with
  | some resource => atResource resource method
  | none =>
    match Resource.ofParts? (partsOf (mergeSlashes behind)) with
    | some resource =>
      match atResource resource method with
      | .wrongMethod => .wrongMethod
      | _ => .moved
    | none => .nowhere

end Destination

end Taskboard
