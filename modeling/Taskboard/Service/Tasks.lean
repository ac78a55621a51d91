import Taskboard.Dependency.Cycle
import Taskboard.Filter.Stored
import Taskboard.Query
import Taskboard.Service.Basic
import Taskboard.Sort.Stored

/-!
# Service/Tasks — lists of tasks

Tasks are listed in a built-in order with conditions on their tags, or by a rule and keys that the
request holds or names. `Service.listCycles` lists the dependency cycles.
-/

namespace Taskboard.Service

/-- The reply with a list of tasks. -/
def taskList (tasks : List Task) : Except Fault Reply :=
  (tasks.mapM Task.fields).bind fun shown =>
    Reply.ok [("tasks", .list shown), ("count", .int tasks.length)]

/-! ## Built-in orders -/

/-- How the names of conditions on tags begin. -/
def tagMark : String := "tag."

/-- The condition on a tag that an entry of a query states. -/
def tagCondition? (entry : String × String) : Option (String × String) :=
  if startsWith tagMark entry.1 then
    some (String.ofList (entry.1.toList.drop tagMark.length), entry.2)
  else none

/-- What a request for a list asks for in an order. -/
def listQuery (criterion : Criterion) (r : Request) : Query :=
  ⟨criterion, [], .everything, r.args.filterMap tagCondition?, []⟩

/-- **Lists the tasks** in a built-in order with conditions on tags. -/
def listTasks (r : Request) (s : Service) : Served Reply :=
  let name := r.argOr "sort" "name-asc"
  match Criterion.named? name with
  | none => (.ok (.refusal 400 ("Unknown sort: " ++ name)), s)
  | some criterion =>
    match s.tasks (lowerText (r.argOr "refresh" "false") = "true") with
    | (.error f, s) => (.error f, s)
    | (.ok tasks, s) => (((listQuery criterion r).run tasks).bind taskList, s)

/-! ## Rules and keys -/

/-- The stored rule and the stored keys of a request, null where there are none. -/
structure Wish where
  rule : Value
  sort : Value

/-- The stored rule of a definition by its name. -/
def namedRule (d : Definitions) (name : Value) : Value :=
  match Definitions.named? name d.filters with
  | some v => v.fieldOrNull "expression"
  | none => .null

/-- The stored keys of a definition by its name. -/
def namedSort (d : Definitions) (name : Value) : Value :=
  (Definitions.named? name d.sorts).getD .null

/-- What a body asks for: a name stands before what the body holds itself. -/
def wish (body : Value) (s : Service) : Except Fault Wish :=
  let ruleName := body.fieldOrNull "filter_name"
  let sortName := body.fieldOrNull "sort_name"
  let own : Wish := ⟨body.fieldOrNull "filter", body.fieldOrNull "sort"⟩
  if ruleName.isTrue || sortName.isTrue then
    (s.store.loadDefinitions "").map fun d =>
      ⟨if ruleName.isTrue then namedRule d ruleName else own.rule,
        if sortName.isTrue then namedSort d sortName else own.sort⟩
  else .ok own

/-- The query of a wish. -/
def Wish.query (w : Wish) (types : AttributeTypes) : Except Fault Query := do
  let spec ← storedSort? w.sort
  let rule ← Rule.ofStored w.rule
  pure ⟨.byName false, spec.getD [], rule, [], types⟩

/-- **Lists the tasks that a body asks for.** -/
def queryTasks (r : Request) (s : Service) : Served Reply :=
  match s.wish (r.json?.getD .null) with
  | .error f => (.error f, s)
  | .ok w =>
    match s.tasks false with
    | (.error f, s) => (.error f, s)
    | (.ok tasks, s) =>
      ((w.query s.settings.attributeTypes).bind fun q => (q.run tasks).bind taskList, s)

/-! ## Cycles -/

/-- **Lists the dependency cycles.** -/
def listCycles (s : Service) : Served Reply :=
  match s.tasks false with
  | (.error f, s) => (.error f, s)
  | (.ok tasks, s) =>
    let cycles := Graph.cycles (Graph.ofTasks s.settings.needsKey tasks)
    (Reply.ok [("cycles", .list (cycles.map fun c => .list (c.map Value.text))),
      ("count", .int cycles.length)], s)

end Taskboard.Service
