import Taskboard.Chart.Basic

/-!
# Chart/Stored — charts as maps

`Chart.stored` writes a chart as a map with its kind under `type`, and `Chart.ofStored` reads one.
Labels and dates become texts, other fields are kept as they are.
-/

namespace Taskboard

/-- Reads each member of a value. -/
def readMembers {α : Type} (read : Value → Except Fault α) (v : Value) : Except Fault (List α) :=
  v.members.bind fun vs => vs.mapM read

/-- A field of a map or another value where it is missing. -/
def fieldOr (key : String) (v w : Value) : Except Fault Value :=
  (v.field? key).map fun f => f.getD w

namespace Slice

def stored (s : Slice) : Value := .object [("label", .text s.label), ("count", s.count)]

def ofStored (v : Value) : Except Fault Slice := do
  let label ← (← v.item "label").shown
  let count ← v.item "count"
  pure ⟨label, count⟩

end Slice

namespace Point

def stored (p : Point) : Value := .object [("date", .text p.date), ("value", p.value)]

def ofStored (v : Value) : Except Fault Point := do
  let date ← (← v.item "date").shown
  let value ← v.item "value"
  pure ⟨date, value⟩

end Point

namespace Stretch

def stored (s : Stretch) : Value :=
  .object [("id", s.id), ("title", s.title), ("start", s.start), ("end", s.finish),
    ("status", s.status), ("depends_on", s.needs)]

/-- The fields that a bar of a schedule can have. -/
def fieldNames : List String := ["id", "title", "start", "end", "status", "depends_on"]

def isFieldName : Value → Bool
  | .text k => fieldNames.contains k
  | _ => false

/-- A bar of a map that has no other fields; the status and what it needs may be missing. -/
def ofStored : Value → Except Fault Stretch
  | .map es =>
    match es.all (isFieldName ·.1), Value.lookup? "id" es, Value.lookup? "title" es,
      Value.lookup? "start" es, Value.lookup? "end" es with
    | true, some id, some title, some start, some finish =>
      .ok ⟨id, title, start, finish, (Value.lookup? "status" es).getD .null,
        (Value.lookup? "depends_on" es).getD .null⟩
    | _, _, _, _, _ => .error .wrongType
  | _ => .error .wrongType

end Stretch

namespace Lane

def stored (l : Lane) : Value :=
  .object [("name", l.name), ("tasks", .list (l.stretches.map Stretch.stored))]

def ofStored (v : Value) : Except Fault Lane := do
  let name ← fieldOr "name" v (.text "")
  let stretches ← readMembers Stretch.ofStored (← fieldOr "tasks" v (.list []))
  pure ⟨name, stretches⟩

end Lane

namespace Chart

/-- Slices, none for null. -/
def slicesOf : Value → Except Fault (Option (List Slice))
  | .null => .ok none
  | v => (readMembers Slice.ofStored v).map some

/-- **The chart as a map** with its kind. -/
def stored : Chart → Value
  | .pie c =>
    .object [("type", .text "pie"), ("title", c.title),
      ("categories", .list (c.slices.map Slice.stored))]
  | .bar c =>
    .object [("type", .text "bar"), ("title", c.title),
      ("categories", match c.slices with
        | some slices => .list (slices.map Slice.stored)
        | none => .null),
      ("x_axis", c.labels), ("values", c.heights), ("y_axis_label", c.axisTitle),
      ("max_value", c.top)]
  | .line c =>
    .object [("type", .text "line"), ("title", c.title), ("y_axis_label", c.axisTitle),
      ("series", .list (c.points.map Point.stored))]
  | .gantt c =>
    .object [("type", .text "gantt"), ("title", c.title), ("date_format", c.dateFormat),
      ("sections", .list (c.lanes.map Lane.stored))]

/-- **The chart that a map describes.** -/
def ofStored (v : Value) : Except Fault Chart := do
  let kind ← fieldOr "type" v .null
  let title ← fieldOr "title" v (.text "")
  match kind with
  | .text "pie" =>
    let slices ← slicesOf (← fieldOr "categories" v .null)
    pure (.pie ⟨title, slices.getD []⟩)
  | .text "bar" =>
    let slices ← slicesOf (← fieldOr "categories" v .null)
    pure (.bar ⟨title, slices, ← fieldOr "x_axis" v .null, ← fieldOr "values" v .null,
      ← fieldOr "y_axis_label" v .null, ← fieldOr "max_value" v .null⟩)
  | .text "line" =>
    let axisTitle ← fieldOr "y_axis_label" v (.text countTitle)
    let points ← readMembers Point.ofStored (← fieldOr "series" v (.list []))
    pure (.line ⟨title, axisTitle, points⟩)
  | .text "gantt" =>
    let dateFormat ← fieldOr "date_format" v (.text usualDateFormat)
    let lanes ← readMembers Lane.ofStored (← fieldOr "sections" v (.list []))
    pure (.gantt ⟨title, dateFormat, lanes⟩)
  | kind => kind.shown.bind fun name => .error (.unsupportedChart name)

end Chart

end Taskboard
