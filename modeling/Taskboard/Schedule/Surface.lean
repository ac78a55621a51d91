import Taskboard.Schedule.Axis

/-!
# Schedule/Surface — where a timeline is drawn

A `Surface` is what the bars of a timeline know of the place where they are drawn: which pixel a
time has on a row, how high the band of a row is, and which time and row lie at a pixel. Whoever
draws the timeline answers these three questions; an axis with bands answers them by its arithmetic
(`Axis.surface`).
-/

namespace Taskboard

/-- Where times and rows are drawn. -/
structure Surface (α : Type) where
  /-- The pixel of a time in the middle of a row's band. -/
  pixel : Int → Nat → Except Fault (α × α)
  /-- The height of a row's band. -/
  band : Except Fault α
  /-- The time and the row at a pixel. -/
  point : α → α → Except Fault (α × α)

/-- **An axis as a surface.** -/
def Axis.surface {α : Type} [Scalar α] (a : Axis α) : Surface α where
  pixel time index := (a.x time).bind fun x => (a.y index).map fun y => (x, y)
  band := .ok a.bandHeight
  point x y := (a.time x).bind fun time => (a.rowAt y).map fun row => (time, row)

end Taskboard
