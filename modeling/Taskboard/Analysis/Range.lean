import Taskboard.Analysis.Keys

/-!
# Analysis/Range — tasks in a range of dates

A range may be open at both ends. With an attribute of its own it keeps the tasks whose date in that
attribute lies in it, else those whose time from start to finish overlaps it.
-/

namespace Taskboard

/-- A range of dates. -/
structure DateRange where
  /-- The attribute whose dates count; an empty one is none. -/
  attr : String := ""
  first : Option Date := none
  last : Option Date := none

namespace DateRange

/-- Whether the range restricts anything. -/
def isActive (r : DateRange) : Bool := r.attr ≠ "" || r.first.isSome || r.last.isSome

/-- Whether a date is not before the range. -/
def reaches (r : DateRange) (d : Date) : Bool := r.first.all fun a => a.le d

/-- Whether a date is not after the range. -/
def startsBy (r : DateRange) (d : Date) : Bool := r.last.all fun b => d.le b

/-- Whether a date lies in the range. -/
def contains (r : DateRange) (d : Date) : Bool := r.reaches d && r.startsBy d

/-- Whether a task lies in the range. -/
def holds (keys : ChartKeys) (r : DateRange) (t : Task) : Bool :=
  if r.attr ≠ "" then (t.get r.attr).day?.any r.contains
  else
    match (t.get keys.startKey).day?, (t.get keys.finishKey).day? with
    | some start, some finish => r.startsBy start && r.reaches finish
    | _, _ => false

/-- **The tasks in a range**, all of them without one. -/
def keep (keys : ChartKeys) (r : Option DateRange) (tasks : List Task) : List Task :=
  match r with
  | none => tasks
  | some r => if r.isActive then tasks.filter (r.holds keys) else tasks

end DateRange

end Taskboard
