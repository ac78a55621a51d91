import Taskboard.Chart.Safety
import Taskboard.Service.Basic

/-!
# Service/Charts — charts of the tasks

A request names a kind of chart and what it shows. It is turned down if something is missing from
it; a chart that fails to be drawn may be asked for again.
-/

namespace Taskboard.Service

/-- Why there is no chart. -/
inductive ChartRefusal where
  /-- The request lacks something, or names something unknown. -/
  | request (text : String)
  /-- The chart cannot be made. -/
  | fault (cause : Fault)

/-- The range of dates of a request. -/
def dateRange (r : Request) : DateRange :=
  let day (name : String) : Option Date := ((r.arg? name).map Value.text).bind Value.day?
  ⟨r.argOr "filter_date_field" "", day "start_date", day "end_date"⟩

/-- The aggregation that a request names. -/
def aggregation (r : Request) : Except ChartRefusal Aggregation :=
  let name := r.argOr "metric" "count"
  match Aggregation.named? name with
  | some a => .ok a
  | none => .error (.request ("Unknown metric: " ++ name))

/-- The metric of a request, none without a key for it. -/
def metric? (r : Request) (a : Aggregation) : Option Metric :=
  (r.filled? "metric_key").map fun key => ⟨r.argOr "metric_name" "Tasks", a, key⟩

/-- A value that the query of a request must hold. -/
def required (r : Request) (name : String) : Except ChartRefusal String :=
  match r.filled? name with
  | some v => .ok v
  | none => .error (.request (name ++ " is required"))

/-- The report of a kind of chart. -/
def report (settings : Settings) (kind : String) (r : Request) (tasks : List Task) :
    Except ChartRefusal Report :=
  let keys := settings.chartKeys
  let range := some (dateRange r)
  match kind with
  | "pie" => (required r "category").bind fun category =>
    (Report.pie keys category range tasks).mapError .fault
  | "bar" => (required r "category").bind fun category =>
    (Report.bar keys category range tasks).mapError .fault
  | "line" => (required r "date_field").bind fun attr =>
    (aggregation r).bind fun a =>
      (Report.line attr range (r.argOr "y_axis_label" "") (metric? r a) tasks).mapError .fault
  | "gantt" => (Report.gantt keys settings.heading none range tasks).mapError .fault
  | _ => .error (.fault (.unsupportedChart kind))

/-- A report with its figure. -/
def drawing (settings : Settings) (kind : String) (r : Request) (tasks : List Task) :
    Except ChartRefusal (Report × Value) :=
  (report settings kind r tasks).bind fun report =>
    ((report.chart.render settings.figureStyle).mapError .fault).map fun figure => (report, figure)

/-- The reply in place of a chart. -/
def chartRefusal : ChartRefusal → Reply
  | .request text => .refusal 400 text
  | .fault f =>
    if f.kind = .badChart then .refusal 400 f.message
    else ⟨500, some (Reply.failure f.message [("retryable", .bool true)])⟩

/-- **Draws a chart.** -/
def drawChart (kind : String) (r : Request) (s : Service) : Served Reply :=
  match s.tasks false with
  | (.error f, s) => (.error f, s)
  | (.ok tasks, s) =>
    match drawing s.settings kind r tasks with
    | .error e => (.ok (chartRefusal e), s)
    | .ok (report, figure) =>
      (Reply.ok [("dsl", report.chart.stored), ("mermaid", .text report.diagram),
        ("option", figure), ("warnings", .list (report.warnings.map Value.text))], s)

end Taskboard.Service
