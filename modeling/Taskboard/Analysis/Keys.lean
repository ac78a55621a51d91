import Taskboard.Task.Basic

/-!
# Analysis/Keys — the attributes that charts are made of

An empty key stands for the usual one; only the title has none, and tasks are then named by their
ids.
-/

namespace Taskboard

/-- A key, or another in place of an empty one. -/
def keyOr (key usual : String) : String := if key = "" then usual else key

/-- The attributes that charts are made of. -/
structure ChartKeys where
  start : String := ""
  finish : String := ""
  status : String := ""
  needs : String := ""
  title : String := ""

namespace ChartKeys

def startKey (k : ChartKeys) : String := keyOr k.start "start_date"

def finishKey (k : ChartKeys) : String := keyOr k.finish "end_date"

def statusKey (k : ChartKeys) : String := keyOr k.status "status"

def needsKey (k : ChartKeys) : String := keyOr k.needs usualNeedsKey

end ChartKeys

end Taskboard
