import Taskboard.Value.Time

/-!
# Task/Basic — tasks

A task has an id, attributes in the order of its file's head, a text, and perhaps the time when it
was last changed.
-/

namespace Taskboard

/-- The attribute with the dependencies of a task, where no other is named. -/
def usualNeedsKey : String := "depends_on"

/-- A task. -/
structure Task where
  id : String
  attributes : List (String × Value)
  content : String
  modified : Option Moment

namespace Task

/-- The value of an attribute, if the task has it. -/
def get? (key : String) (t : Task) : Option Value := entryAt? key t.attributes

/-- The value of an attribute, null where it is missing. -/
def get (key : String) (t : Task) : Value := (t.get? key).getD .null

/-- Whether the task has an attribute. -/
def has (key : String) (t : Task) : Bool := (t.get? key).isSome

/-- The texts of a list that are not empty. -/
def namesOf : List Value → List String
  | [] => []
  | .text s :: vs => if s = "" then namesOf vs else s :: namesOf vs
  | _ :: vs => namesOf vs

/-- The ids that a task depends on: one text, unless it is blank, or the texts of a list. -/
def dependencyIds (key : String) (t : Task) : List String :=
  match t.get key with
  | .text s => if strip s = "" then [] else [s]
  | .list vs => namesOf vs
  | _ => []

/-- The id as words. -/
def displayName (t : Task) : String :=
  String.ofList (t.id.toList.map fun c => if c = '-' || c = '_' then ' ' else c)

/-- A date or moment as ISO 8601 text; other values as they are. -/
def plainDate : Value → Except Fault Value
  | .date d => .ok (.text d.isoText)
  | .moment m => m.isoText.map .text
  | v => .ok v

/-- The attributes with their dates as texts; dates inside lists and maps stay. -/
def plainAttributes : List (String × Value) → Except Fault (List (String × Value))
  | [] => .ok []
  | (k, v) :: es => (plainDate v).bind fun w => (plainAttributes es).map ((k, w) :: ·)

/-- The task as a map of its fields. -/
def fields (t : Task) : Except Fault Value :=
  (plainAttributes t.attributes).bind fun attributes =>
    (match t.modified with
      | some m => m.isoText.map Value.text
      | none => .ok .null).map fun modified =>
      .object [("id", .text t.id), ("attributes", .object attributes),
        ("content", .text t.content), ("modified_at", modified)]

end Task

end Taskboard
