import Taskboard.Chart.Basic

/-!
# Chart/Diagram — charts as text

`Chart.diagramLines` writes a chart line by line: a schedule has a line per lane and per bar, a pie
one per slice, and bars and lines have five. In labels double quotes become single ones.
-/

namespace Taskboard

/-- A text with one character in place of another. -/
def replaceChar (old new : Char) (s : String) : String :=
  String.ofList (s.toList.map fun c => if c = old then new else c)

namespace Value

/-- The characters of a text; other values have none to replace. -/
def asText : Value → Except Fault String
  | .text s => .ok s
  | .bytes _ | .date _ | .moment _ => .error .wrongType
  | _ => .error .noOperation

/-- A text that can stand in double quotes. -/
def quotable (v : Value) : Except Fault String := v.asText.map (replaceChar '"' '\'')

end Value

/-- A text in double quotes. -/
def inQuotes (s : String) : String := "\"" ++ s ++ "\""

/-- Texts with commas between. -/
def listed (ts : List String) : String := String.intercalate ", " ts

namespace Stretch

/-- The id of the bar that this one follows, as a diagram writes it. -/
def anchorText (v : Value) : Except Fault String :=
  v.asText.map fun s => replaceChar ' ' '_' (replaceChar '-' '_' s)

/-- The line of a bar. -/
def line (s : Stretch) : Except Fault String := do
  if s.needs.isTrue then
    let anchor ← anchorText s.needs
    pure ("    " ++ (← s.title.shown) ++ " :after " ++ anchor ++ ", " ++ (← s.start.shown) ++ "~"
      ++ (← s.finish.shown))
  else
    pure ("    " ++ (← s.title.shown) ++ " :" ++ (← s.start.shown) ++ ", " ++ (← s.finish.shown))

end Stretch

namespace Lane

/-- The lines of a lane: its heading and its bars. -/
def lines (l : Lane) : Except Fault (List String) := do
  let name ← l.name.shown
  let rest ← l.stretches.mapM Stretch.line
  pure (("    section " ++ name) :: rest)

end Lane

/-- What the axis of a diagram reaches beyond the greatest value. -/
def headroom : Int := 5

/-- The lines of a diagram with axes. -/
def axesLines (title : String) (labels : List String) (axisTitle bound mark : String)
    (values : List String) : List String :=
  ["xychart-beta", "    title " ++ inQuotes title,
    "    x-axis [" ++ listed (labels.map inQuotes) ++ "]",
    "    y-axis " ++ inQuotes axisTitle ++ " 0 --> " ++ bound,
    "    " ++ mark ++ " [" ++ listed values ++ "]"]

namespace GanttChart

def lines (c : GanttChart) : Except Fault (List String) := do
  let dateFormat ← c.dateFormat.shown
  let title ← c.title.shown
  let lanes ← c.lanes.mapM Lane.lines
  pure (["gantt", "    dateFormat  " ++ dateFormat, "    title       " ++ title, ""]
    ++ lanes.flatten)

end GanttChart

namespace Slice

def line (s : Slice) : Except Fault String :=
  s.count.shown.map fun count =>
    "    " ++ inQuotes (replaceChar '"' '\'' s.label) ++ " : " ++ count

end Slice

namespace PieChart

def lines (c : PieChart) : Except Fault (List String) := do
  let title ← c.title.shown
  let slices ← c.slices.mapM Slice.line
  pure ("pie" :: ("    title " ++ title) :: slices)

end PieChart

namespace LineChart

def lines (c : LineChart) : Except Fault (List String) := do
  let labels ← c.points.mapM fun p => (Value.text p.date).axisLabel
  let top ← Value.greatest (c.points.map Point.value)
  let values ← c.points.mapM fun p => p.value.compactNumber 1
  let title ← c.title.quotable
  let axisTitle ← c.axisTitle.quotable
  let bound ← wholeText ((← top.ceiling) + headroom)
  pure (axesLines title labels axisTitle bound "line" values)

end LineChart

namespace BarChart

/-- The slices, if there are some. -/
def filledSlices? (c : BarChart) : Option (List Slice) :=
  match c.slices with
  | none => none
  | some [] => none
  | some (s :: ss) => some (s :: ss)

/-- The members of a value that counts as something. -/
def membersOrNone (v : Value) : Except Fault (List Value) := if v.isTrue then v.members else .ok []

/-- The labels of a diagram's columns. -/
def diagramLabels (c : BarChart) : Except Fault (List Value) :=
  match c.filledSlices? with
  | some slices => .ok (slices.map fun s => .text s.label)
  | none => membersOrNone c.labels

/-- The heights of a diagram's columns. -/
def diagramHeights (c : BarChart) : Except Fault (List Value) :=
  match c.filledSlices? with
  | some slices => .ok (slices.map Slice.count)
  | none => membersOrNone c.heights

/-- The given top, or the greatest height. -/
def topOf (c : BarChart) (heights : List Value) : Except Fault Value :=
  match c.top with
  | .null => Value.greatest heights
  | v => .ok v

def lines (c : BarChart) : Except Fault (List String) := do
  let labels ← c.diagramLabels
  let heights ← c.diagramHeights
  let top ← c.topOf heights
  let title ← c.title.quotable
  let labels ← labels.mapM Value.quotable
  let axisTitle ← (c.axisTitle.orElse (.text countTitle)).quotable
  let bound ← (← top.plus headroom).formatted
  let values ← heights.mapM Value.formatted
  pure (axesLines title labels axisTitle bound "bar" values)

end BarChart

namespace Chart

/-- **The lines of a chart's diagram.** -/
def diagramLines : Chart → Except Fault (List String)
  | .pie c => c.lines
  | .bar c => c.lines
  | .line c => c.lines
  | .gantt c => c.lines

/-- **The diagram of a chart.** -/
def diagram (c : Chart) : Except Fault String := c.diagramLines.map (String.intercalate "\n")

end Chart

end Taskboard
