import Taskboard.Task.Basic

/-!
# Analysis/Metric — one number for some tasks

A metric counts tasks, or it adds up or averages the numbers that they have in an attribute. Values
that are no numbers are passed over; a whole number beyond the doubles is a failure.
-/

namespace Taskboard

/-- How numbers become one. -/
inductive Aggregation where
  | count
  | sum
  | average
deriving DecidableEq, Repr

namespace Aggregation

/-- The aggregation of a name. -/
def named? : String → Option Aggregation
  | "count" => some .count
  | "sum" => some .sum
  | "avg" => some .average
  | _ => none

/-- An aggregation by its name; unknown names stand for the average. -/
def ofName (name : String) : Aggregation := (named? name).getD .average

end Aggregation

/-- A number for some tasks. -/
structure Metric where
  name : String := "Tasks"
  aggregation : Aggregation := .count
  /-- The attribute with the numbers; without one the tasks are counted. -/
  attr : String := ""

namespace Metric

/-- The numbers that tasks have in an attribute. -/
def numbers (attr : String) : List Task → Except Fault (List Binary64)
  | [] => .ok []
  | t :: ts =>
    match (t.get attr).toReal with
    | .ok x => (numbers attr ts).map (x :: ·)
    | .error .numberTooLarge => .error .numberTooLarge
    | .error _ => numbers attr ts

/-- The sum from the left. -/
def sum (xs : List Binary64) : Binary64 := xs.foldl (· + ·) .zero

/-- How many there are, as a double. -/
def countOf {α : Type} (xs : List α) : Binary64 := Binary64.ofInt xs.length

/-- **The number of a metric for some tasks.** -/
def evaluate (m : Metric) (tasks : List Task) : Except Fault Binary64 :=
  if m.aggregation = .count ∨ m.attr = "" then .ok (countOf tasks)
  else (numbers m.attr tasks).map fun xs =>
    if xs.isEmpty then .zero
    else if m.aggregation = .sum then sum xs
    else sum xs / countOf xs

end Metric

end Taskboard
