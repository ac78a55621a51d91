import Taskboard.Analysis.Report
import Taskboard.Chart.Figure
import Taskboard.Number.Reading
import Taskboard.Schedule.Row
import Taskboard.Store.Path
import Taskboard.Text.Lowercase

/-!
# Settings — what the environment decides

`Settings.ofEnvironment` reads the settings from named texts; each has a usual value. Types of
attributes and colours of statuses are written as pairs, `key:value,key:value`. `Settings.problems`
lists what is wrong with them.
-/

namespace Taskboard

/-- The variables of an environment with their values. -/
abbrev Environment := List (String × String)

/-- The settings of the program. -/
structure Settings where
  /-- The folder with the tasks. -/
  workspace : String
  /-- The file with the saved schedule, from the workspace. -/
  scheduleFile : String
  needsKey : String
  startKey : String
  finishKey : String
  statusKey : String
  progressKey : String
  /-- The attribute with the title of a task; without one tasks are named by their ids. -/
  titleKey : String
  /-- The quiet period before a save, in seconds. -/
  quietSeconds : Binary64
  chartTitle : String
  chartDateFormat : String
  chartTemplate : String
  chartHeight : Int
  /-- The number of the socket that the server listens at. -/
  socket : Int
  debug : Bool
  /-- The types of attributes. -/
  attributeTypes : List (String × String)
  /-- Colours by statuses in lower case. -/
  statusColors : List (String × String)

namespace Settings

/-! ## Pairs -/

/-- A key and its value around the first colon, both stripped; none without a colon. -/
def pair? (cs : List Char) : Option (String × String) :=
  match cs.dropWhile (· ≠ ':') with
  | [] => none
  | _ :: value =>
    some (String.ofList (trimWhile isBlank (cs.takeWhile (· ≠ ':'))),
      String.ofList (trimWhile isBlank value))

/-- Pairs put one after the other, a later value of a key in place of an earlier one. -/
def gather (pairs : List (String × String)) : List (String × String) :=
  pairs.foldl (fun done (k, v) => putEntry (· == ·) k v done) []

/-- **The pairs that a text writes**, between commas. -/
def pairsOf (s : String) : List (String × String) := gather ((partsAt ',' s.toList).filterMap pair?)

/-- Pairs with their keys in lower case. -/
def lowerKeys (pairs : List (String × String)) : List (String × String) :=
  gather (pairs.map fun (k, v) => (lowerText k, v))

/-! ## Reading -/

/-- The value of a variable, or the usual one. -/
def valueOf (env : Environment) (name usual : String) : String := (entryAt? name env).getD usual

/-- **The settings of an environment.** -/
def ofEnvironment (env : Environment) : Except Fault Settings := do
  let quiet ← readReal (valueOf env "SAVE_DEBOUNCE_SECONDS" "0.8")
  let height ← readInt (valueOf env "CHART_HEIGHT" "500")
  let socket ← readInt (valueOf env "PORT" "3000")
  pure {
    workspace := valueOf env "WORKSPACE_PATH" "./workspace"
    scheduleFile := valueOf env "SCHEDULE_FILE" "schedule.json"
    needsKey := valueOf env "DEPENDS_ON_KEY" usualNeedsKey
    startKey := valueOf env "START_DATE_KEY" "start_date"
    finishKey := valueOf env "END_DATE_KEY" "end_date"
    statusKey := valueOf env "STATUS_KEY" "status"
    progressKey := valueOf env "PROGRESS_KEY" "progress"
    titleKey := valueOf env "TITLE_KEY" ""
    quietSeconds := quiet
    chartTitle := valueOf env "CHART_TITLE" "Task Schedule"
    chartDateFormat := valueOf env "CHART_DATE_FORMAT" usualDateFormat
    chartTemplate := valueOf env "CHART_TEMPLATE" "plotly_white"
    chartHeight := height
    socket := socket
    debug := lowerText (valueOf env "DEBUG" "false") = "true"
    attributeTypes := pairsOf (valueOf env "ATTRIBUTE_TYPES" "")
    statusColors := lowerKeys (pairsOf (valueOf env "STATUS_COLORS" "")) }

/-- The settings that are single values, by the names of their variables. -/
def fields (s : Settings) : Value :=
  .object [("WORKSPACE_PATH", .text s.workspace), ("SCHEDULE_FILE", .text s.scheduleFile),
    ("DEPENDS_ON_KEY", .text s.needsKey), ("START_DATE_KEY", .text s.startKey),
    ("END_DATE_KEY", .text s.finishKey), ("STATUS_KEY", .text s.statusKey),
    ("PROGRESS_KEY", .text s.progressKey), ("TITLE_KEY", .text s.titleKey),
    ("SAVE_DEBOUNCE_SECONDS", .real s.quietSeconds), ("CHART_TITLE", .text s.chartTitle),
    ("CHART_DATE_FORMAT", .text s.chartDateFormat), ("CHART_TEMPLATE", .text s.chartTemplate),
    ("CHART_HEIGHT", .int s.chartHeight), ("PORT", .int s.socket), ("DEBUG", .bool s.debug)]

/-! ## Use -/

/-- The folder with the tasks. -/
def workspacePath (s : Settings) : Path := .ofText s.workspace

/-- The file with the saved schedule. -/
def schedulePath (s : Settings) : Path := s.workspacePath.under s.scheduleFile

/-- The attributes that rows are made of. -/
def rowKeys (s : Settings) : RowKeys :=
  ⟨s.startKey, s.finishKey, s.progressKey, s.needsKey, s.titleKey⟩

/-- The attributes that charts are made of. -/
def chartKeys (s : Settings) : ChartKeys :=
  ⟨s.startKey, s.finishKey, s.statusKey, s.needsKey, s.titleKey⟩

/-- What stands over the schedule. -/
def heading (s : Settings) : Report.Heading := ⟨s.chartTitle, s.chartDateFormat⟩

/-- How figures are drawn. -/
def figureStyle (s : Settings) : FigureStyle :=
  ⟨.int s.chartHeight, s.statusColors.map fun (status, color) => (status, .text color)⟩

/-- The quiet period before a save, in milliseconds. -/
def quietMs (s : Settings) : Int :=
  ((s.quietSeconds * Binary64.ofInt 1000).truncate?).getD 0

/-- **What is wrong with the settings**, in a world with these folders. -/
def problems (isFolder : Path → Bool) (s : Settings) : List String :=
  (if isFolder s.workspacePath then [] else ["WORKSPACE_PATH does not exist: " ++ s.workspace])
    ++ if s.quietSeconds.lt .zero then ["SAVE_DEBOUNCE_SECONDS must not be negative"] else []

end Settings

end Taskboard
