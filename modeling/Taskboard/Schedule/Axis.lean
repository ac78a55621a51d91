import Taskboard.Schedule.Row

/-!
# Schedule/Axis — time on a line of pixels

An `Axis` maps times to pixels and rows to bands of one height. It works with any scalars that have
the arithmetic of `Scalar`; the screen uses doubles. `Axis.fit?` chooses the scale so that some rows
fill a width.
-/

namespace Taskboard

/-- The arithmetic of an axis. -/
class Scalar (α : Type) extends Add α, Sub α, Mul α, Div α where
  /-- A whole number as a scalar. -/
  ofWhole : Int → Except Fault α
  zero : α
  /-- One half. -/
  half : α
  /-- The part of a band that a bar takes, six tenths. -/
  barShare : α
  /-- Half the width of the handle at a bar's end, five. -/
  gripReach : α
  isZero : α → Bool
  /-- Whether a scalar is zero or less. -/
  notAbove : α → Bool
  /-- The greatest whole number that is not above. -/
  floor : α → Except Fault Int

namespace Binary64

/-- The greatest whole number not above a double. -/
def floor : Binary64 → Except Fault Int
  | .nan => .error .undefinedWhole
  | .infinite _ => .error .infiniteWhole
  | .finite s m => .ok (Int.fdiv (signedUnits s m) unitsPerOne)

end Binary64

/-- Doubles, rounded after each operation. -/
instance : Scalar Binary64 where
  ofWhole n :=
    match Binary64.ofInt? n with
    | some x => .ok x
    | none => .error .numberTooLarge
  zero := .zero
  half := .ofRatio 1 2
  barShare := .ofRatio 6 10
  gripReach := .ofInt 5
  isZero x := x.same .zero
  notAbove x := x.le .zero
  floor := Binary64.floor

/-- Where an axis starts: a whole time, or one between. -/
inductive Origin (α : Type) where
  | whole (time : Int)
  | between (time : α)

/-- A linear axis of time with bands for rows. -/
structure Axis (α : Type) where
  origin : Origin α
  msPerPixel : α
  bandHeight : α
  left : α
  top : α

namespace Axis

variable {α : Type} [Scalar α]

open Scalar

/-- An axis with a scale, which must not be zero or less. -/
def make (origin : Origin α) (msPerPixel bandHeight left top : α) : Except Fault (Axis α) :=
  if notAbove msPerPixel then .error .scaleNotPositive
  else .ok ⟨origin, msPerPixel, bandHeight, left, top⟩

/-- The time of the origin as a scalar. -/
def originTime (a : Axis α) : Except Fault α :=
  match a.origin with
  | .whole t => ofWhole t
  | .between t => .ok t

/-- A time as seen from the origin. -/
def sinceOrigin (a : Axis α) (time : Int) : Except Fault α :=
  match a.origin with
  | .whole t => ofWhole (time - t)
  | .between t => (ofWhole time).map fun (x : α) => x - t

/-- **The pixel of a time.** -/
def x (a : Axis α) (time : Int) : Except Fault α :=
  (a.sinceOrigin time).map fun t => a.left + t / a.msPerPixel

/-- The pixel of the middle of a row's band. -/
def y (a : Axis α) (index : Nat) : Except Fault α :=
  (ofWhole (index : Int)).map fun (i : α) => a.top + (i + half) * a.bandHeight

/-- **The time of a pixel.** -/
def time (a : Axis α) (x : α) : Except Fault α :=
  a.originTime.map fun t => t + (x - a.left) * a.msPerPixel

/-- The row at a pixel; bands without height have none. -/
def rowAt (a : Axis α) (y : α) : Except Fault α :=
  if isZero a.bandHeight then .error .divisionByZero else .ok ((y - a.top) / a.bandHeight - half)

/-- The least start of a row and some others. -/
def firstStart : Row → List Row → Int
  | r, [] => r.start
  | r, s :: rs => min r.start (firstStart s rs)

/-- The greatest finish of a row and some others. -/
def lastFinish : Row → List Row → Int
  | r, [] => r.finish
  | r, s :: rs => max r.finish (lastFinish s rs)

/-- **The axis on which rows fill a width**, none without rows or width. -/
def fit? (rows : List Row) (width bandHeight : α) : Except Fault (Option (Axis α)) :=
  match rows with
  | [] => .ok none
  | r :: rs =>
    if notAbove width then .ok none
    else
      let first := firstStart r rs
      (ofWhole (lastFinish r rs - first)).bind fun (length : α) =>
        (make (.whole first) (length / width) bandHeight zero zero).map some

end Axis

end Taskboard
