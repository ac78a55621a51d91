import Taskboard.Filter.Rule
import Taskboard.Sort.Builtin
import Taskboard.Sort.Custom

/-!
# Query — ordering and filtering together

`query` first sorts, by keys if there are some and else in a built-in order, and then keeps what
passes a rule, or has given tags where there is no rule.
-/

namespace Taskboard

/-- What is asked of a list of tasks. -/
structure Query where
  criterion : Criterion
  spec : SortSpec
  rule : Rule
  tags : List (String × String)
  types : AttributeTypes

/-- The tasks in the order that is asked for. -/
def Query.order (q : Query) (tasks : List Task) : Except Fault (List Task) :=
  if q.spec.isEmpty then sortTasks q.criterion tasks else .ok (sortByKeys q.spec q.types tasks)

/-- The tasks that are asked for, in their order. -/
def Query.select (q : Query) (tasks : List Task) : Except Fault (List Task) :=
  match q.rule with
  | .everything => keepTagged q.tags tasks
  | rule => .ok (rule.keep tasks)

/-- **The tasks that a query asks for, ordered.** -/
def Query.run (q : Query) (tasks : List Task) : Except Fault (List Task) :=
  (q.order tasks).bind q.select

end Taskboard
