import Taskboard.Task.Basic

/-!
# Sort/Builtin — the built-in orders of tasks

By id or by the time of the last change, rising or falling. Ties keep their order.
-/

namespace Taskboard

/-- A built-in order. -/
inductive Criterion where
  | byName (descending : Bool)
  | byChange (descending : Bool)
  /-- The order in which the tasks come. -/
  | asGiven
deriving DecidableEq, Repr

namespace Criterion

/-- The order of a name. -/
def named? : String → Option Criterion
  | "name-asc" => some (.byName false)
  | "name-desc" => some (.byName true)
  | "modified-asc" => some (.byChange false)
  | "modified-desc" => some (.byChange true)
  | _ => none

/-- The order of a name; an unknown name leaves the tasks as they are. -/
def ofName (name : String) : Criterion := (named? name).getD .asGiven

end Criterion

/-- Seconds since 1970 of a task's last change, zero where none is known. -/
def Task.changedAt (t : Task) : Except Fault Binary64 :=
  match t.modified with
  | none => .ok .zero
  | some m => m.seconds

/-- A list with the key of each member. -/
def keyed {α κ : Type} (key : α → Except Fault κ) : List α → Except Fault (List (κ × α))
  | [] => .ok []
  | x :: xs => (key x).bind fun k => (keyed key xs).map ((k, x) :: ·)

/-- Stable order by keys, rising or falling. -/
def orderByKey {α κ : Type} (le : κ → κ → Bool) (descending : Bool) (xs : List (κ × α)) : List α :=
  (xs.mergeSort fun a b => if descending then le b.1 a.1 else le a.1 b.1).map Prod.snd

/-- **Tasks in a built-in order.** -/
def sortTasks (criterion : Criterion) (tasks : List Task) : Except Fault (List Task) :=
  match criterion with
  | .byName descending =>
    .ok (orderByKey (fun a b => decide (a ≤ b)) descending (tasks.map fun t => (t.id, t)))
  | .byChange descending =>
    (keyed Task.changedAt tasks).map (orderByKey (fun a b => a.le b) descending)
  | .asGiven => .ok tasks

end Taskboard
