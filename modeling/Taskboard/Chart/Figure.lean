import Taskboard.Chart.Diagram
import Taskboard.Chart.Palette

/-!
# Chart/Figure — charts as interactive figures

A figure is a map of traces under `data` and of a `layout`. `Chart.figure` draws a chart in a style;
a property that the renderer would refuse is a failure. Lines are drawn in the order of their dates,
and of a schedule only the bars whose start is before their end.
-/

namespace Taskboard

/-- How charts are drawn. -/
structure FigureStyle where
  /-- The height in pixels; what counts as nothing stands for the usual height. -/
  height : Value := .null
  palette : Palette := []

namespace FigureStyle

/-- The usual height. -/
def usualHeight : Int := 500

/-- The height in effect. -/
def drawnHeight (s : FigureStyle) : Value := s.height.orElse (.int usualHeight)

end FigureStyle

namespace Figure

/-! ## Properties -/

/-- A property of text: texts, and numbers as text; null leaves it out. -/
def textProperty : Value → Except Fault (Option String)
  | .null => .ok none
  | .text s => .ok (some s)
  | v => if v.isNumber then v.shown.map some else .error .badProperty

/-- The title of an axis: a text; null leaves it out. -/
def axisTitle : Value → Except Fault (Option Value)
  | .null => .ok none
  | .text s => .ok (some (.object [("text", .text s)]))
  | _ => .error .badProperty

/-- The least height of a figure. -/
def leastHeight : Int := 10

/-- A height: a number from the least height on. -/
def heightProperty (v : Value) : Except Fault Value :=
  if v.isNumber then
    match v.lessThan (.int leastHeight), v with
    | .ok true, _ => .error .badProperty
    | _, .real .nan => .error .badProperty
    | _, _ => .ok v
  else .error .badProperty

/-- A colour; null leaves it out. -/
def colorProperty : Value → Except Fault (Option Value)
  | .null => .ok none
  | .text s => if isColor s then .ok (some (.text s)) else .error .badProperty
  | _ => .error .badProperty

/-- A field that may be left out. -/
def optional (key : String) (v : Option Value) : List (String × Value) :=
  match v with
  | some v => [(key, v)]
  | none => []

/-- A field of text that may be left out. -/
def optionalText (key : String) (s : Option String) : List (String × Value) :=
  optional key (s.map Value.text)

/-- Texts as a list. -/
def textList (ts : List String) : Value := .list (ts.map Value.text)

/-- What the templates of labels say of a hidden box. -/
def noBox : String := "<extra></extra>"

/-- The colour of the lines of a grid. -/
def gridColor : Value := .text "#e0e0e0"

/-- The colour of columns and lines. -/
def plainColor : Value := .text "#3498db"

/-- The layout that all figures share, with more fields. -/
def layout (style : FigureStyle) (title : Value) (more : List (String × Value)) :
    Except Fault (List (String × Value)) := do
  let text ← textProperty title
  let height ← heightProperty style.drawnHeight
  pure ([("title", .object (optionalText "text" text ++ [("x", .real (.ofRatio 1 2)),
      ("xanchor", .text "center"),
      ("font", .object [("size", .int 18), ("color", .text "#2c3e50")])])),
    ("paper_bgcolor", .text "white"), ("height", height),
    ("margin", .object [("l", .int 40), ("r", .int 40), ("t", .int 60), ("b", .int 60)])] ++ more)

/-- A figure of traces and a layout. -/
def make (traces : List Value) (layout : List (String × Value)) : Value :=
  .object [("data", .list traces), ("layout", .object layout)]

end Figure

open Figure

/-! ## Pies and columns -/

namespace PieChart

def figure (style : FigureStyle) (c : PieChart) : Except Fault Value := do
  let name ← textProperty (c.title.orElse (.text "Distribution"))
  let shownParts := "%\x7blabel\x7d: %\x7bvalue\x7d (%\x7bpercent\x7d)"
  let trace := Value.object (optionalText "name" name ++ [("type", .text "pie"),
    ("labels", textList (c.slices.map Slice.label)),
    ("values", .list (c.slices.map Slice.count)), ("hole", .real (.ofRatio 4 10)),
    ("sort", .bool false), ("texttemplate", .text shownParts),
    ("hovertemplate", .text (shownParts ++ noBox)),
    ("marker", .object [("line", .object [("color", .text "#ffffff"), ("width", .int 2)])])])
  let layout ← layout style (c.title.orElse (.text "Pie Chart")) [("showlegend", .bool true),
    ("legend", .object [("orientation", .text "v"), ("x", .int 0), ("xanchor", .text "left"),
      ("y", .int 1)])]
  pure (make [trace] layout)

end PieChart

namespace BarChart

/-- The labels and heights of a figure's columns: those of the slices, else the two lists if both
are there. -/
def columns (c : BarChart) : Except Fault (List Value × List Value) :=
  match c.filledSlices?, c.labels, c.heights with
  | some slices, _, _ => .ok (slices.map fun s => .text s.label, slices.map Slice.count)
  | none, .null, _ => .ok ([], [])
  | none, _, .null => .ok ([], [])
  | none, labels, heights =>
    labels.members.bind fun labels => heights.members.map fun heights => (labels, heights)

def figure (style : FigureStyle) (c : BarChart) : Except Fault Value := do
  let (labels, heights) ← c.columns
  let name ← textProperty (c.title.orElse (.text countTitle))
  let trace := Value.object (optionalText "name" name ++ [("type", .text "bar"),
    ("x", .list labels), ("y", .list heights), ("width", .real (.ofRatio 6 10)),
    ("marker", .object [("color", plainColor)]),
    ("hovertemplate", .text ("%\x7bx\x7d: %\x7by\x7d" ++ noBox))])
  let axisTitle ← Figure.axisTitle (c.axisTitle.orElse (.text ""))
  let range := if c.top.isTrue then [("range", Value.list [.int 0, c.top])] else []
  let layout ← layout style (c.title.orElse (.text "Bar Chart"))
    [("xaxis", .object [("type", .text "category")]),
      ("yaxis", .object (optional "title" axisTitle ++ ("gridcolor", gridColor) :: range)),
      ("showlegend", .bool false)]
  pure (make [trace] layout)

end BarChart

/-! ## Lines -/

/-- The place of a date in a line: those that are no dates come last, else the earlier instant comes
first. -/
structure DatePlace where
  unreadable : Bool
  /-- Seconds since 1970. -/
  seconds : Binary64

namespace DatePlace

/-- The place of a text. -/
def ofText (s : String) : Except Fault DatePlace :=
  match (Value.text s).moment? with
  | some m => m.seconds.map fun x => ⟨false, x⟩
  | none => .ok ⟨true, .zero⟩

/-- Whether a place comes before another one. -/
def before (a b : DatePlace) : Bool :=
  (!a.unreadable && b.unreadable) || (a.unreadable == b.unreadable && a.seconds.lt b.seconds)

end DatePlace

namespace LineChart

/-- **The points in the order of their dates**; points of one instant keep their order. -/
def ordered (c : LineChart) : Except Fault (List Point) :=
  (c.points.mapM fun p => (DatePlace.ofText p.date).map (·, p)).map fun placed =>
    (placed.mergeSort fun a b => !b.1.before a.1).map Prod.snd

/-- A text that a template can hold. -/
def templateText : Value → Except Fault String
  | .text s => .ok s
  | _ => .error .wrongType

def figure (style : FigureStyle) (c : LineChart) : Except Fault Value := do
  let points ← c.ordered
  let dates := textList (points.map Point.date)
  let texts ← points.mapM fun p => p.value.formatted
  let name ← templateText (c.axisTitle.orElse (.text countTitle))
  let labels ← points.mapM fun p => (Value.text p.date).axisLabel
  let trace := Value.object [("type", .text "scatter"), ("name", .text name), ("x", dates),
    ("y", .list (points.map Point.value)), ("customdata", textList texts),
    ("mode", .text "lines+markers"),
    ("line", .object [("shape", .text "spline"), ("color", plainColor)]),
    ("fill", .text "tozeroy"),
    ("hovertemplate", .text ("%\x7bx\x7d<br>" ++ name ++ ": %\x7bcustomdata\x7d" ++ noBox))]
  let layout ← layout style (c.title.orElse (.text "Line Chart"))
    [("xaxis", .object [("type", .text "category"), ("tickmode", .text "array"),
        ("tickvals", dates), ("ticktext", textList labels)]),
      ("yaxis", .object [("title", .object [("text", .text name)]), ("gridcolor", gridColor)]),
      ("hovermode", .text "x unified"), ("showlegend", .bool false)]
  pure (make [trace] layout)

end LineChart

/-! ## Schedules -/

/-- A bar that can be drawn. -/
structure Bar where
  id : Value
  title : Value
  start : Int
  finish : Int
  start_lt_finish : start < finish
  /-- The status in lower case. -/
  status : String
  /-- The heading of the bar's lane. -/
  lane : Value

namespace Bar

/-- The bar of a stretch, none where its dates are unreadable or out of order. -/
def ofStretch? (lane : Value) (s : Stretch) : Except Fault (Option Bar) := do
  let start ← s.start.epochMs?
  let finish ← s.finish.epochMs?
  match start, finish with
  | some a, some b =>
    if h : a < b then
      match s.status.orElse (.text Palette.unknown) with
      | .text status => pure (some ⟨s.id, s.title, a, b, h, lowerText status, lane⟩)
      | _ => .error .noOperation
    else pure none
  | _, _ => pure none

/-- The text over a bar. -/
def caption (start finish : Moment) (days : String) : String :=
  start.date.label ++ " - " ++ finish.date.label ++ " (" ++ days ++ "d)"

/-- What is shown of a bar under the pointer. -/
def details (b : Bar) (start finish : Moment) (days : String) : Except Fault String := do
  let id ← b.id.shown
  let title ← b.title.shown
  let head := "<b>" ++ id ++ "</b><br>Title: " ++ title ++ "<br>Start: " ++ start.date.shortText
    ++ "<br>End: " ++ finish.date.shortText ++ "<br>Duration: " ++ days ++ " days<br>Status: "
    ++ b.status
  if b.lane.isTrue then b.lane.shown.map fun lane => head ++ "<br>Section: " ++ lane
  else pure head

/-- The trace of a bar; one bar of each status is shown in the legend. -/
def trace (palette : Palette) (legend : Bool) (b : Bar) : Except Fault Value := do
  let start ← Moment.ofEpochMs b.start
  let finish ← Moment.ofEpochMs b.finish
  let days ← wholeText (← durationDays b.start b.finish)
  let details ← b.details start finish days
  let color ← colorProperty (palette.color b.status)
  pure (.object [("type", .text "scatter"),
    ("x", textList [← start.isoText, ← finish.isoText]), ("y", .list [b.id, b.id]),
    ("mode", .text "lines+text"),
    ("line", .object (optional "color" color ++ [("width", .int 20)])),
    ("text", textList ["", caption start finish days]), ("textposition", .text "middle right"),
    ("hovertemplate", .text (details ++ noBox)), ("name", .text b.status),
    ("legendgroup", .text b.status), ("showlegend", .bool legend),
    ("customdata", .list [b.id, b.id])])

/-- The traces of bars, given the statuses seen before. -/
def traces (palette : Palette) (seen : List String) : List Bar → Except Fault (List Value)
  | [] => .ok []
  | b :: bs => do
    let trace ← b.trace palette (!seen.contains b.status)
    let rest ← traces palette (b.status :: seen) bs
    pure (trace :: rest)

end Bar

namespace GanttChart

/-- **The bars that can be drawn**, lane after lane. -/
def bars (c : GanttChart) : Except Fault (List Bar) :=
  (c.lanes.mapM fun (l : Lane) => l.stretches.mapM (Bar.ofStretch? l.name)).map fun lanes =>
    lanes.flatten.filterMap id

/-- Pixels per bar, and beside the bars. -/
def barPixels : Int := 40

def framePixels : Int := 150

/-- The height of a placeholder. -/
def emptyHeight : Int := 300

/-- The height for a count of bars: what the style says, or more. -/
def heightFor (style : FigureStyle) (count : Nat) : Except Fault Value :=
  let least := Value.int (count * barPixels + framePixels)
  (style.drawnHeight.lessThan least).map fun b => if b then least else style.drawnHeight

/-- The figure with a notice in place of bars. -/
def emptyFigure (style : FigureStyle) (title : Value) : Except Fault Value := do
  let notice := Value.object [("text", .text "No tasks with valid dates found"),
    ("xref", .text "paper"), ("yref", .text "paper"), ("x", .real (.ofRatio 1 2)),
    ("y", .real (.ofRatio 1 2)), ("showarrow", .bool false),
    ("font", .object [("size", .int 16), ("color", .text "#7f8c8d")])]
  let hidden := Value.object [("visible", .bool false)]
  let fields ← layout style title
    [("annotations", .list [notice]), ("xaxis", hidden), ("yaxis", hidden)]
  pure (make [] (putEntry (· == ·) "height" (.int emptyHeight) fields))

def figure (style : FigureStyle) (c : GanttChart) : Except Fault Value := do
  let bars ← c.bars
  let title := c.title.orElse (.text "Gantt Chart")
  if bars.isEmpty then emptyFigure style title
  else
    let traces ← Bar.traces style.palette [] bars
    let ids := Value.list (bars.map Bar.id)
    let fields ← layout style title
      [("xaxis", .object [("type", .text "date"), ("gridcolor", gridColor),
          ("showgrid", .bool true), ("rangeslider", .object [("visible", .bool true)])]),
        ("yaxis", .object [("type", .text "category"), ("categoryorder", .text "array"),
          ("categoryarray", ids), ("tickmode", .text "array"), ("tickvals", ids),
          ("ticktext", .list (bars.map Bar.title)), ("autorange", .text "reversed"),
          ("showgrid", .bool false)]),
        ("legend", .object [("orientation", .text "h"), ("yanchor", .text "bottom"),
          ("y", .real (.ofRatio 102 100)), ("xanchor", .text "right"), ("x", .int 1),
          ("title", .object [("text", .text "Status")])])]
    let height ← heightFor style bars.length
    pure (make traces (putEntry (· == ·) "height" height fields))

end GanttChart

namespace Chart

/-- **The figure of a chart.** -/
def figure (style : FigureStyle) : Chart → Except Fault Value
  | .pie c => c.figure style
  | .bar c => c.figure style
  | .line c => c.figure style
  | .gantt c => c.figure style

end Chart

end Taskboard
