import Taskboard.Filter.Compare
import Taskboard.Task.Basic
import Taskboard.Text.Uppercase

/-!
# Filter/Rule — rules that keep tasks

A `Rule` is a tree: a node has a condition on one attribute, or children that its logical operator
combines. `Rule.holds` evaluates it on a task. A condition whose attribute is missing, or whose
comparison fails, does not hold, so incomplete data gives no false hits.
-/

namespace Taskboard

/-- A comparison of one attribute with an operand. -/
structure Condition where
  key : String
  operator : String
  operand : Value

namespace Condition

/-- Whether a task meets a condition; a comparison that fails is not met. -/
def holds (task : Task) (c : Condition) : Bool :=
  match task.get? c.key with
  | none => false
  | some v =>
    match compareValues v c.operator c.operand with
    | .ok b => b
    | .error _ => false

end Condition

/-- A rule about tasks. -/
inductive Rule where
  /-- No rule: all tasks pass. -/
  | everything
  /-- A condition, or children under a logical operator. -/
  | node (condition : Option Condition) (logical : Option String) (children : List Rule)
deriving Inhabited

namespace Rule

def leaf (c : Condition) : Rule := .node (some c) none []

def allOf (rules : List Rule) : Rule := .node none (some "AND") rules

def anyOf (rules : List Rule) : Rule := .node none (some "OR") rules

def negate (rule : Rule) : Rule := .node none (some "NOT") [rule]

/-- How the children of a node are combined. -/
inductive Connective where
  | all
  | any
  /-- Only the first child counts. -/
  | not
  /-- An operator of no known name holds for nothing. -/
  | unknown
deriving DecidableEq, Repr

/-- The connective of a logical operator; a missing or empty one asks for all. -/
def connective : Option String → Connective
  | none => .all
  | some "" => .all
  | some "AND" => .all
  | some "OR" => .any
  | some "NOT" => .not
  | some _ => .unknown

mutual
/-- **Whether a task passes a rule.** -/
def holds (task : Task) : Rule → Bool
  | .everything => true
  | .node (some c) _ _ => c.holds task
  | .node none logical children =>
    match children with
    | [] => true
    | first :: others =>
      match connective logical with
      | .all => holds task first && allHold task others
      | .any => holds task first || anyHolds task others
      | .not => !holds task first
      | .unknown => false
  termination_by structural r => r

/-- Whether a task passes all rules of a list. -/
def allHold (task : Task) : List Rule → Bool
  | [] => true
  | r :: rs => holds task r && allHold task rs
  termination_by structural rs => rs

/-- Whether a task passes a rule of a list. -/
def anyHolds (task : Task) : List Rule → Bool
  | [] => false
  | r :: rs => holds task r || anyHolds task rs
  termination_by structural rs => rs
end

/-- The tasks that pass a rule, in their order. -/
def keep (rule : Rule) (tasks : List Task) : List Task := tasks.filter rule.holds

end Rule

/-- Whether a task has all attributes with captions that contain given texts, in their case. -/
def hasTags (task : Task) : List (String × String) → Except Fault Bool
  | [] => .ok true
  | (key, text) :: rest =>
    match task.get? key with
    | none => .ok false
    | some v => v.caption.bind fun s => if contains text s then hasTags task rest else .ok false

/-- **The tasks whose attributes contain given texts.** -/
def keepTagged (conditions : List (String × String)) : List Task → Except Fault (List Task)
  | [] => .ok []
  | t :: ts =>
    (hasTags t conditions).bind fun b =>
      (keepTagged conditions ts).map fun kept => if b then t :: kept else kept

end Taskboard
