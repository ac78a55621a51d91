import Mathlib.Data.Rat.Floor
import Mathlib.Tactic.FieldSimp
import Mathlib.Tactic.Ring
import Taskboard.Schedule.Handle

/-!
# Proofs/Schedule/Exact — axes without rounding

The arithmetic of an axis is that of its scalars.  Over the rational numbers nothing is rounded, so
an axis is a line: `Axis.place` says where a time stands and `Axis.timeAt` which time stands at a
place, as plain rational functions, and the operations of the axis compute them.

* `Axis.place_strictMono` — later times stand further to the right.
* `Axis.timeAt_place_add` — **a distance from a time is so many milliseconds from it**, so pixels
  are converted back to what they are of (`Axis.point_pixel`).
-/

namespace Taskboard

/-- Rational numbers, which are never rounded. -/
instance : Scalar ℚ where
  ofWhole n := .ok n
  zero := 0
  half := 1 / 2
  barShare := 6 / 10
  gripReach := 5
  isZero q := decide (q = 0)
  notAbove q := decide (q ≤ 0)
  floor q := .ok ⌊q⌋

/-- A time as a number. -/
def Origin.value : Origin ℚ → ℚ
  | .whole time => time
  | .between time => time

namespace Axis

variable (a : Axis ℚ)

/-! ## The line -/

/-- Where a time stands. -/
def place (time : ℚ) : ℚ := a.left + (time - a.origin.value) / a.msPerPixel

/-- Which time stands at a place. -/
def timeAt (x : ℚ) : ℚ := a.origin.value + (x - a.left) * a.msPerPixel

/-- The middle of a row's band. -/
def middle (index : ℚ) : ℚ := a.top + (index + 1 / 2) * a.bandHeight

variable {a}

/-- Later times stand further to the right. -/
theorem place_strictMono (hscale : 0 < a.msPerPixel) : StrictMono a.place := by
  intro s t hst
  unfold place
  gcongr

/-- **A distance from a time is so many milliseconds from it.** -/
theorem timeAt_place_add (hscale : 0 < a.msPerPixel) (time distance : ℚ) :
    a.timeAt (a.place time + distance) = time + a.msPerPixel * distance := by
  unfold timeAt place
  field_simp
  ring

/-! ## The axis computes it -/

variable (a)

@[simp] theorem originTime_eq : a.originTime = .ok a.origin.value := by
  unfold originTime Origin.value
  cases a.origin <;> rfl

@[simp] theorem x_eq (time : ℤ) : a.x time = .ok (a.place time) := by
  have hsince : a.sinceOrigin time = .ok ((time : ℚ) - a.origin.value) := by
    unfold sinceOrigin Origin.value
    cases a.origin with
    | whole origin => exact congrArg Except.ok (Int.cast_sub time origin)
    | between origin => rfl
  rw [x, hsince]
  rfl

@[simp] theorem y_eq (index : ℕ) : a.y index = .ok (a.middle index) :=
  congrArg (fun i : ℚ => Except.ok (a.top + (i + 1 / 2) * a.bandHeight)) (Int.cast_natCast index)

@[simp] theorem time_eq (x : ℚ) : a.time x = .ok (a.timeAt x) := by
  rw [time, originTime_eq]
  rfl

variable {a}

theorem rowAt_eq (hband : a.bandHeight ≠ 0) (y : ℚ) :
    a.rowAt y = .ok ((y - a.top) / a.bandHeight - 1 / 2) :=
  if_neg fun h => hband (of_decide_eq_true h)

theorem rowAt_middle (hband : a.bandHeight ≠ 0) (index : ℚ) :
    a.rowAt (a.middle index) = .ok index := by
  rw [rowAt_eq hband, middle, add_sub_cancel_left, mul_div_cancel_right₀ _ hband,
    add_sub_cancel_right]

theorem pixel_eq (time : ℤ) (index : ℕ) :
    a.surface.pixel time index = .ok (a.place time, a.middle index) := by
  change (a.x time).bind _ = _
  rw [x_eq, y_eq]
  rfl

theorem point_eq (hband : a.bandHeight ≠ 0) (x y : ℚ) :
    a.surface.point x y = .ok (a.timeAt x, (y - a.top) / a.bandHeight - 1 / 2) := by
  change (a.time x).bind _ = _
  rw [time_eq, rowAt_eq hband]
  rfl

/-- **The pixel of a time on a row is converted back to that time and row.** -/
theorem point_pixel (hscale : 0 < a.msPerPixel) (hband : a.bandHeight ≠ 0) (time : ℤ) (index : ℕ) :
    ∃ p, a.surface.pixel time index = .ok p ∧
      a.surface.point p.1 p.2 = .ok ((time : ℚ), (index : ℚ)) := by
  refine ⟨_, pixel_eq time index, ?_⟩
  have htime : a.timeAt (a.place time) = time := by
    have h := timeAt_place_add hscale (time : ℚ) 0
    rwa [add_zero, mul_zero, add_zero] at h
  change (a.time _).bind _ = _
  rw [time_eq, rowAt_middle hband, htime]
  rfl

end Axis

end Taskboard
