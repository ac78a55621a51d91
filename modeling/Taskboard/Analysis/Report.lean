import Taskboard.Analysis.Metric
import Taskboard.Analysis.Range
import Taskboard.Chart.Diagram
import Taskboard.Chart.Stored
import Taskboard.Dependency.Cycle

/-!
# Analysis/Report — charts of tasks

A report is a chart of some tasks with its diagram and with warnings. `Report.pie` and `Report.bar`
show how often the values of an attribute occur, `Report.line` a metric over the dates of an
attribute, and `Report.gantt` the tasks with dates in lanes, with a warning per dependency cycle.
-/

namespace Taskboard

/-- A chart with its diagram and warnings. -/
structure Report where
  chart : Chart
  diagram : String
  warnings : List String

namespace Report

/-- The report of a chart. -/
def ofChart (chart : Chart) (warnings : List String) : Except Fault Report :=
  chart.diagram.map fun diagram => ⟨chart, diagram, warnings⟩

/-- The report as a map. -/
def fields (r : Report) : Value :=
  .object [("mermaid", .text r.diagram), ("data", r.chart.stored),
    ("warnings", .list (r.warnings.map Value.text))]

/-! ## How often values occur -/

/-- The labels of an attribute's value: one per member of a list, none for null and maps. -/
def labelsOf : Value → Except Fault (List String)
  | .null => .ok []
  | .map _ => .ok []
  | .list vs => vs.mapM Value.caption
  | v => v.caption.map ([·])

/-- Counts a label once more, in a list in the order of labels. -/
def countLabel (label : String) : List (String × Nat) → List (String × Nat)
  | [] => [(label, 1)]
  | (l, n) :: rest =>
    if label < l then (label, 1) :: (l, n) :: rest
    else if label = l then (l, n + 1) :: rest
    else (l, n) :: countLabel label rest

/-- **How often each label occurs**, in the order of labels. -/
def countLabels (labels : List String) : List (String × Nat) :=
  labels.foldl (fun counts label => countLabel label counts) []

/-- The labels of some tasks. -/
def taskLabels (category : String) (tasks : List Task) : Except Fault (List String) :=
  (tasks.mapM fun t => labelsOf (t.get category)).map List.flatten

/-- How often each label of an attribute occurs in the tasks of a range. -/
def distribution (keys : ChartKeys) (category : String) (range : Option DateRange)
    (tasks : List Task) : Except Fault (List (String × Nat)) :=
  (taskLabels category (DateRange.keep keys range tasks)).map countLabels

/-- How often the values of an attribute occur, as parts of a whole. -/
def pie (keys : ChartKeys) (category : String) (range : Option DateRange) (tasks : List Task) :
    Except Fault Report := do
  let counts ← distribution keys category range tasks
  ofChart (.pie ⟨.text (category ++ " Distribution"),
    counts.map fun (label, n) => ⟨label, .int n⟩⟩) []

/-- The greatest count, zero if there is none. -/
def greatestCount (counts : List (String × Nat)) : Nat :=
  counts.foldl (fun top (_, n) => max top n) 0

/-- How often the values of an attribute occur, as columns. -/
def bar (keys : ChartKeys) (category : String) (range : Option DateRange) (tasks : List Task) :
    Except Fault Report := do
  let counts ← distribution keys category range tasks
  ofChart (.bar ⟨.text category, none, .list (counts.map fun (label, _) => .text label),
    .list (counts.map fun (_, n) => .int n), .text countTitle, .int (greatestCount counts)⟩) []

/-! ## Values over dates -/

/-- Puts a task under its date, in a list in the order of dates. -/
def putUnder (d : Date) (t : Task) : List (Date × List Task) → List (Date × List Task)
  | [] => [(d, [t])]
  | (e, ts) :: rest =>
    if d = e then (e, ts ++ [t]) :: rest
    else if d.lt e then (d, [t]) :: (e, ts) :: rest
    else (e, ts) :: putUnder d t rest

/-- **The tasks by their dates in an attribute**, dates outside of a range left out. -/
def byDate (attr : String) (range : Option DateRange) (tasks : List Task) :
    List (Date × List Task) :=
  tasks.foldl (fun groups t =>
    match (t.get attr).day? with
    | some d => if range.all fun r => r.contains d then putUnder d t groups else groups
    | none => groups) []

/-- The value of a metric for some tasks, their count without one. -/
def pointValue (metric : Option Metric) (tasks : List Task) : Except Fault Binary64 :=
  match metric with
  | none => .ok (Metric.countOf tasks)
  | some m => m.evaluate tasks

/-- A metric over the dates of an attribute. -/
def line (attr : String) (range : Option DateRange) (axisTitle : String) (metric : Option Metric)
    (tasks : List Task) : Except Fault Report := do
  let points ← (byDate attr range tasks).mapM fun (d, ts) =>
    (pointValue metric ts).map fun x => (⟨d.shortText, .real x⟩ : Point)
  let name := match metric with
    | some m => m.name
    | none => "Tasks"
  ofChart (.line ⟨.text (name ++ " by " ++ attr), .text (keyOr axisTitle countTitle), points⟩) []

/-! ## Schedules -/

/-- The lane of tasks without a value. -/
def noLane : String := "Uncategorized"

/-- The only lane where there are no lanes. -/
def singleLane : String := "Tasks"

/-- What stands over a schedule. -/
structure Heading where
  title : String := "Task Schedule"
  dateFormat : String := usualDateFormat

/-- A task with its days. -/
structure Scheduled where
  task : Task
  start : Date
  finish : Date

/-- The tasks with both days. -/
def withDays (keys : ChartKeys) (tasks : List Task) : List Scheduled :=
  tasks.filterMap fun t =>
    match (t.get keys.startKey).day?, (t.get keys.finishKey).day? with
    | some start, some finish => some ⟨t, start, finish⟩
    | _, _ => none

/-- **The tasks with both days in the order of starts**; tasks with one start keep their order. -/
def scheduled (keys : ChartKeys) (tasks : List Task) : List Scheduled :=
  (withDays keys tasks).mergeSort fun a b => a.start.le b.start

/-- The lane of a task by an attribute; without one there is a single lane. -/
def laneOf (attr : String) (t : Task) : Except Fault String :=
  if attr = "" then .ok singleLane
  else match t.get attr with
    | .null => .ok noLane
    | v => v.caption

/-- The bar of a task. -/
def stretchOf (keys : ChartKeys) (s : Scheduled) : Except Fault Stretch := do
  let given := if keys.title = "" then .null else s.task.get keys.title
  let title ← if given.isTrue then given.caption else pure s.task.displayName
  let status ← match s.task.get keys.statusKey with
    | .null => pure .null
    | v => v.caption.map Value.text
  let needs := (s.task.dependencyIds keys.needsKey).head?.map Value.text
  pure ⟨.text s.task.id, .text title, .text s.start.shortText, .text s.finish.shortText, status,
    needs.getD .null⟩

/-- Puts a bar into its lane; a new lane comes last. -/
def putInLane (lane : String) (s : Stretch) :
    List (String × List Stretch) → List (String × List Stretch)
  | [] => [(lane, [s])]
  | (l, ss) :: rest =>
    if l = lane then (l, ss ++ [s]) :: rest else (l, ss) :: putInLane lane s rest

/-- The bars of tasks in lanes, put to those before. -/
def fillLanes (keys : ChartKeys) (attr : String) (lanes : List (String × List Stretch)) :
    List Scheduled → Except Fault (List (String × List Stretch))
  | [] => .ok lanes
  | s :: rest => do
    let lane ← laneOf attr s.task
    let stretch ← stretchOf keys s
    fillLanes keys attr (putInLane lane stretch lanes) rest

/-- **The bars of tasks in their lanes.** -/
def lanesOf (keys : ChartKeys) (attr : String) (tasks : List Scheduled) :
    Except Fault (List Lane) :=
  (fillLanes keys attr [] tasks).map fun lanes => lanes.map fun (name, ss) => ⟨.text name, ss⟩

/-- The warnings of the cycles among tasks. -/
def cycleWarnings (keys : ChartKeys) (tasks : List Task) : List String :=
  (Graph.cycles (Graph.ofTasks keys.needsKey tasks)).map fun c =>
    "Dependency cycle: " ++ Cycle.text c

/-- The tasks with dates in lanes, by the status unless another attribute is given. -/
def gantt (keys : ChartKeys) (heading : Heading) (laneAttr : Option String)
    (range : Option DateRange) (tasks : List Task) : Except Fault Report := do
  let lanes ← lanesOf keys (laneAttr.getD keys.statusKey)
    (scheduled keys (DateRange.keep keys range tasks))
  ofChart (.gantt ⟨.text heading.title, .text heading.dateFormat, lanes⟩)
    (cycleWarnings keys tasks)

end Report

end Taskboard
