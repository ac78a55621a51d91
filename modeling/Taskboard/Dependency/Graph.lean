import Taskboard.Task.Basic

/-!
# Dependency/Graph — which task depends on which

A `Graph` lists the tasks in order, each with the ids that it depends on. Ids that are no tasks of
the graph may occur; searches skip them.
-/

namespace Taskboard

-- sums start from the zero of the naturals, also where an importing module knows other ones
attribute [local instance (high)] Zero.ofOfNat0

/-- What a task depends on. -/
inductive Links where
  | ids (targets : List String)
  /-- Not a list of ids: a walk that meets it fails. -/
  | unreadable
deriving DecidableEq, Repr

/-- Tasks with their links; each task occurs once. -/
abbrev Graph := List (String × Links)

namespace Graph

/-- The links of a task of the graph. -/
def links? (g : Graph) (id : String) : Option Links := entryAt? id g

/-- Whether an id is a task of the graph. -/
def has (g : Graph) (id : String) : Bool := (g.links? id).isSome

/-- The tasks of the graph in order. -/
def keys (g : Graph) : List String := g.map Prod.fst

/-- The graph with the links of one more task, which replace those of the same id. -/
def put (g : Graph) (id : String) (links : Links) : Graph := putEntry (· == ·) id links g

/-- **The graph of some tasks** by the attribute that holds their dependencies; an empty key stands
for the usual attribute. -/
def ofTasks (key : String) (tasks : List Task) : Graph :=
  let key := if key = "" then usualNeedsKey else key
  tasks.foldl (fun g t => g.put t.id (.ids (t.dependencyIds key))) []

/-- How many targets all links of the graph have together. -/
def linkCount (g : Graph) : Nat :=
  (g.map fun (_, links) =>
    match links with
    | .ids ts => ts.length
    | .unreadable => 0).sum

end Graph

end Taskboard
