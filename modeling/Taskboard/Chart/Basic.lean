import Taskboard.Value.Time

/-!
# Chart/Basic — what a chart shows

A chart is one of four kinds and says what to show, not how. It has two renderings, the text of a
diagram and an interactive figure. Fields that a saved chart may hold in any form are values.
-/

namespace Taskboard

/-- A label with how much it counts. -/
structure Slice where
  label : String
  count : Value

/-- A value on a date. -/
structure Point where
  date : String
  value : Value

/-- A bar of a schedule. -/
structure Stretch where
  id : Value
  title : Value
  start : Value
  finish : Value
  status : Value
  /-- The bar that this one follows. -/
  needs : Value

/-- Bars under a heading. -/
structure Lane where
  name : Value
  stretches : List Stretch

/-- Parts of a whole. -/
structure PieChart where
  title : Value
  slices : List Slice

/-- Columns side by side, given by slices or by two lists of labels and heights. -/
structure BarChart where
  title : Value
  slices : Option (List Slice)
  /-- The labels; null if there is no such list. -/
  labels : Value
  /-- The heights; null if there is no such list. -/
  heights : Value
  axisTitle : Value
  top : Value

/-- Values over dates. -/
structure LineChart where
  title : Value
  axisTitle : Value
  points : List Point

/-- A schedule in lanes. -/
structure GanttChart where
  title : Value
  dateFormat : Value
  lanes : List Lane

/-- A chart. -/
inductive Chart where
  | pie (c : PieChart)
  | bar (c : BarChart)
  | line (c : LineChart)
  | gantt (c : GanttChart)

/-- How the dates of a schedule are written. -/
def usualDateFormat : String := "YYYY-MM-DD"

/-- What an axis of counts is called. -/
def countTitle : String := "Count"

namespace Value

/-- The name of a value's kind. -/
def kindName : Value → String
  | .null => "NoneType"
  | .bool _ => "bool"
  | .int _ => "int"
  | .real _ => "float"
  | .text _ => "str"
  | .date _ => "date"
  | .moment _ => "datetime"
  | .bytes _ => "bytes"
  | .list _ => "list"
  | .map _ => "dict"
  | .set _ => "set"

end Value

/-- The failure to draw what is no chart. -/
def notAChart (v : Value) : Fault := .unsupportedChart v.kindName

end Taskboard
