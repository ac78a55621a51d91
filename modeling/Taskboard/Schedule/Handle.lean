import Taskboard.Schedule.Session
import Taskboard.Schedule.Surface

/-!
# Schedule/Handle — dragging bars

Each row has two handles on its bar: one that moves it and one at its end that resizes it. A handle
remembers of its row what a drag keeps, the duration or the start. `Surface.proposal?` says which
times a handle proposes where it stands on a surface, and `Handle.drag` hands them to a session.
-/

namespace Taskboard

/-- What a handle does to its row. -/
inductive Grip where
  /-- It moves the row and keeps the duration. -/
  | move (duration : Int)
  /-- It moves the end and keeps the start. -/
  | resize (start : Int)
deriving DecidableEq, Repr

/-- A rectangle over a bar that can be dragged. -/
structure Handle (α : Type) where
  grip : Grip
  /-- The id of the row's task. -/
  task : String
  /-- The left upper corner. -/
  x : α
  y : α
  width : α
  height : α

namespace Handle

/-- The nearest whole number, a half going up. -/
def roundHalfUp {α : Type} [Scalar α] (x : α) : Except Fault Int := Scalar.floor (x + Scalar.half)

end Handle

/-! ## Handles on a surface -/

namespace Surface

variable {α : Type} [Scalar α]

open Scalar

/-- The height of a bar. -/
def barHeight (s : Surface α) : Except Fault α := s.band.map (· * barShare)

/-- The handle that moves a bar. -/
def moveHandle (s : Surface α) (index : Nat) (r : Row) : Except Fault (Handle α) := do
  let left ← s.pixel r.start index
  let right ← s.pixel r.finish index
  let height ← s.barHeight
  pure ⟨.move r.duration, r.id, left.1, left.2 - height * half, right.1 - left.1, height⟩

/-- The handle at the end of a bar. -/
def resizeHandle (s : Surface α) (index : Nat) (r : Row) : Except Fault (Handle α) := do
  let right ← s.pixel r.finish index
  let height ← s.barHeight
  pure ⟨.resize r.start, r.id, right.1 - gripReach, right.2 - height * half,
    gripReach + gripReach, height⟩

/-- The handles of rows from a place on, two per row. -/
def handlesFrom (s : Surface α) (index : Nat) : List Row → Except Fault (List (Handle α))
  | [] => .ok []
  | r :: rs => do
    let move ← s.moveHandle index r
    let resize ← s.resizeHandle index r
    let rest ← s.handlesFrom (index + 1) rs
    pure (move :: resize :: rest)

/-- The time under a place of the handle, rounded. -/
def timeUnder (s : Surface α) (h : Handle α) (x : α) : Except Fault Int := do
  let point ← s.point x (h.y + h.height * half)
  Handle.roundHalfUp point.1

/-- **The times that a handle proposes where it stands**, none where the end would not be after the
start. -/
def proposal? (s : Surface α) (h : Handle α) : Except Fault (Option (Int × Int)) :=
  match h.grip with
  | .move duration => (s.timeUnder h h.x).map fun start => some (start, start + duration)
  | .resize start => (s.timeUnder h (h.x + gripReach)).map fun finish =>
    if start < finish then some (start, finish) else none

end Surface

/-! ## Handles on an axis -/

namespace Handle

variable {α : Type} [Scalar α]

/-- The handle that moves a bar. -/
def forMove (a : Axis α) (index : Nat) (r : Row) : Except Fault (Handle α) :=
  a.surface.moveHandle index r

/-- The handle at the end of a bar. -/
def forResize (a : Axis α) (index : Nat) (r : Row) : Except Fault (Handle α) :=
  a.surface.resizeHandle index r

/-- The handles of rows from a place on, two per row. -/
def forRowsFrom (a : Axis α) (index : Nat) (rows : List Row) : Except Fault (List (Handle α)) :=
  a.surface.handlesFrom index rows

/-- **The handles of rows**, two per row. -/
def forRows (a : Axis α) (rows : List Row) : Except Fault (List (Handle α)) := forRowsFrom a 0 rows

/-- The handle at another place. -/
def moveTo (x y : α) (h : Handle α) : Handle α := { h with x, y }

/-- The handle moved by a distance. -/
def moveBy (dx dy : α) (h : Handle α) : Handle α := h.moveTo (h.x + dx) (h.y + dy)

/-- The times that a handle proposes where it stands. -/
def proposal? (a : Axis α) (h : Handle α) : Except Fault (Option (Int × Int)) :=
  a.surface.proposal? h

/-- The name of what a handle does. -/
def gripName : Grip → String
  | .move _ => "move"
  | .resize _ => "resize"

/-- The pointer over a handle. -/
def cursor : Grip → String
  | .move _ => "move"
  | .resize _ => "ew-resize"

/-- Handles at ends lie above those of bars. -/
def layer : Grip → Int
  | .move _ => 100
  | .resize _ => 101

/-- The handle as an element of a drawing. -/
def graphic (h : Handle Binary64) : Value :=
  .object [("type", .text "rect"), ("id", .text (h.task ++ ":" ++ gripName h.grip)),
    ("position", .list [.real h.x, .real h.y]),
    ("shape", .object [("width", .real h.width), ("height", .real h.height)]),
    ("style", .object [("fill", .text "rgba(0,0,0,0)"), ("cursor", .text (cursor h.grip))]),
    ("draggable", .bool true), ("z", .int (layer h.grip))]

/-- What a drag of the handle does to a session. -/
def drag (a : Axis α) (h : Handle α) (s : Session) : Except Fault Session :=
  (h.proposal? a).map fun times =>
    match times with
    | some (start, finish) => (s.update h.task start finish).2
    | none => s

end Handle

end Taskboard
