import Taskboard.Proofs.Analysis.Aggregation
import Taskboard.Proofs.Number.Monotone
import Taskboard.Proofs.Schedule.Handles

/-!
# Proofs/Schedule/Frames — every frame of a drag hands out times in order

A drag is a list of motions.  After each of them the handle stands somewhere (`Handle.stops`), and
there it hands out an update of its task, or none (`Surface.update?`): these are the frames of the
drag.  A surface answers with whatever times it likes.  Handles do not trust them: the handle of a
bar adds the duration that it remembers to the rounded time, and the handle at a bar's end compares
the rounded time with the start that it remembers.

* `Handle.mark_of_mem_stops` — what a handle remembers never changes on the way.
* `Surface.update?_of_mem_stops` — so at every stop one rounded time decides what is handed out.
* `Surface.drags_stay_valid` — **over a surface with finite times** each frame of a move hands out
  an update with the duration of the row, and each frame of a resize one with its start, or none.
-/

namespace Taskboard

-- powers are those of the naturals, also where an importing module knows other ones
attribute [local instance (high)] instPowNat

/-! ## Finite doubles are rounded to whole numbers -/

namespace Magnitude

/-- The units of the greatest finite double. -/
def greatestUnits : Nat := (2 ^ (53 : Nat) - 1) * 2 ^ (2045 : Nat)

theorem units_le_greatest (m : Magnitude) : m.units ≤ greatestUnits := by
  have hlog : m.units.log2 ≤ 2097 := by
    by_cases hzero : m.units = 0
    · rw [hzero]
      decide
    · have hbelow := m.representable.1
      rw [unitsLimit, ← Nat.log2_lt hzero] at hbelow
      exact Nat.le_of_lt_succ hbelow
  have hstep : m.step ≤ 2 ^ (2045 : Nat) :=
    Nat.pow_le_pow_right (by decide) (Nat.sub_le_sub_right hlog 52)
  rw [← m.step_mul_steps, greatestUnits, Nat.mul_comm]
  exact Nat.mul_le_mul (Nat.le_sub_one_of_lt m.steps_lt) hstep

/-- One half. -/
def half : Magnitude := ⟨2 ^ (1073 : Nat), by decide +kernel⟩

end Magnitude

namespace Binary64

theorem half_eq : (Scalar.half : Binary64) = .finite false .half := by decide +kernel

/-- Beyond the greatest finite double there is room for a half before the infinities. -/
theorem isFinite_ofSignedUnits (zeroSign : Bool) {n : Int}
    (h : n.natAbs ≤ Magnitude.greatestUnits + Magnitude.half.units) :
    (ofSignedUnits zeroSign n).isFinite = true := by
  unfold ofSignedUnits
  split
  · rfl
  · rw [isFinite_ofUnits, Magnitude.ofRatio?_isSome_iff]
    exact Nat.lt_of_le_of_lt (Magnitude.roundedUnits_mono h) (by decide +kernel)

/-- **A finite double and a half are finite**, and so they have a floor. -/
theorem exists_roundHalfUp {x : Binary64} (h : x.isFinite = true) :
    ∃ n, Handle.roundHalfUp x = .ok n := by
  have hsum : (x + Scalar.half).isFinite = true := by
    cases x with
    | nan => cases h
    | infinite => cases h
    | finite negative m =>
      rw [half_eq, finite_add_finite]
      refine isFinite_ofSignedUnits _ ?_
      have hunits := m.units_le_greatest
      unfold signedUnits
      split <;> omega
  unfold Handle.roundHalfUp
  generalize x + Scalar.half = y at hsum ⊢
  cases y with
  | nan => cases hsum
  | infinite => cases hsum
  | finite negative m => exact ⟨_, rfl⟩

end Binary64

/-! ## Stops -/

variable {α : Type} [Scalar α]

namespace Handle

/-- The handle after each of some motions. -/
def stops : List (Motion α) → Handle α → List (Handle α)
  | [], _ => []
  | m :: ms, h => h.carried m :: stops ms (h.carried m)

/-- There is one stop for each motion. -/
@[simp] theorem length_stops (ms : List (Motion α)) (h : Handle α) :
    (h.stops ms).length = ms.length := by
  induction ms generalizing h with
  | nil => rfl
  | cons m ms ih => rw [stops, List.length_cons, List.length_cons, ih]

/-- **What a handle remembers, and for which task, stays on the way.** -/
theorem mark_of_mem_stops {ms : List (Motion α)} {h g : Handle α} (hg : g ∈ h.stops ms) :
    g.mark = h.mark := by
  induction ms generalizing h with
  | nil => cases hg
  | cons m ms ih =>
    rcases List.mem_cons.mp hg with rfl | hg
    · exact h.mark_carried m
    · exact (ih hg).trans (h.mark_carried m)

/-- The handle after all of some motions. -/
def carriedAll : List (Motion α) → Handle α → Handle α
  | [], h => h
  | m :: ms, h => carriedAll ms (h.carried m)

/-- The last stop is where all the motions lead. -/
theorem getLast?_stops {ms : List (Motion α)} (hms : ms ≠ []) (h : Handle α) :
    (h.stops ms).getLast? = some (h.carriedAll ms) := by
  induction ms generalizing h with
  | nil => exact absurd rfl hms
  | cons m ms ih =>
    rw [stops, List.getLast?_cons, carriedAll]
    cases ms with
    | nil => rfl
    | cons n ns => rw [ih (List.cons_ne_nil n ns), Option.getD_some]

end Handle

/-! ## Updates -/

/-- What a drag hands out: a task and its new times. -/
structure Update where
  task : String
  start : Int
  finish : Int
deriving DecidableEq, Repr

namespace Surface

variable {s : Surface α} {h : Handle α}

/-- **What a handle hands out where it stands**, none where the end would not be after the start. -/
def update? (s : Surface α) (h : Handle α) : Except Fault (Option Update) :=
  (s.proposal? h).map fun times => times.map fun (start, finish) => ⟨h.task, start, finish⟩

/-- The time under the edge of the bar that a handle holds, its start or its end. -/
def timeHeld (s : Surface α) (h : Handle α) : Except Fault Int :=
  match h.grip with
  | .move _ => s.timeUnder h h.x
  | .resize _ => s.timeUnder h (h.x + Scalar.gripReach)

/-- What a handle makes of that time. -/
def updateAt (task : String) (time : Int) : Grip → Option Update
  | .move duration => some ⟨task, time, time + duration⟩
  | .resize start => if start < time then some ⟨task, start, time⟩ else none

/-- **One rounded time decides what a handle hands out.** -/
theorem update?_eq (s : Surface α) (h : Handle α) :
    s.update? h = (s.timeHeld h).map fun time => updateAt h.task time h.grip := by
  unfold update? proposal? timeHeld
  cases h.grip with
  | move duration => cases s.timeUnder h h.x <;> rfl
  | resize start =>
    cases s.timeUnder h (h.x + Scalar.gripReach) with
    | error => rfl
    | ok time =>
      change Except.ok _ = Except.ok _
      dsimp only [updateAt]
      split <;> rfl

/-- What a handle hands out after some motions, if its surface can tell the time that it holds. -/
theorem update?_of_mem_stops {ms : List (Motion α)} {g : Handle α} {grip : Grip} {task : String}
    (hmark : h.mark = (grip, task)) (hg : g ∈ h.stops ms) {time : Int}
    (htime : s.timeHeld g = .ok time) : s.update? g = .ok (updateAt task time grip) := by
  obtain ⟨hgrip, htask⟩ := Prod.mk.inj ((Handle.mark_of_mem_stops hg).trans hmark)
  rw [update?_eq, htime, hgrip, htask]
  rfl

/-! ## Surfaces that answer -/

/-- A surface that answers every question, and with a finite time at every pixel. -/
structure Answers (s : Surface Binary64) : Prop where
  pixel : ∀ time index, ∃ p, s.pixel time index = .ok p
  band : ∃ height, s.band = .ok height
  point : ∀ x y, ∃ p, s.point x y = .ok p ∧ p.1.isFinite = true

namespace Answers

variable {s : Surface Binary64} (hs : s.Answers)

include hs

theorem barHeight : ∃ height, s.barHeight = .ok height :=
  let ⟨_, hband⟩ := hs.band
  ⟨_, map_eq_ok.mpr ⟨_, hband, rfl⟩⟩

/-- Every bar has a handle that moves it, which remembers the duration. -/
theorem moveHandle (index : Nat) (r : Row) :
    ∃ h, s.moveHandle index r = .ok h ∧ h.mark = (.move r.duration, r.id) := by
  obtain ⟨left, hleft⟩ := hs.pixel r.start index
  obtain ⟨right, hright⟩ := hs.pixel r.finish index
  obtain ⟨height, hheight⟩ := hs.barHeight
  exact ⟨_, do_eq_ok.mpr ⟨left, hleft, do_eq_ok.mpr ⟨right, hright,
    do_eq_ok.mpr ⟨height, hheight, rfl⟩⟩⟩, rfl⟩

/-- Every bar has a handle at its end, which remembers the start. -/
theorem resizeHandle (index : Nat) (r : Row) :
    ∃ h, s.resizeHandle index r = .ok h ∧ h.mark = (.resize r.start, r.id) := by
  obtain ⟨right, hright⟩ := hs.pixel r.finish index
  obtain ⟨height, hheight⟩ := hs.barHeight
  exact ⟨_, do_eq_ok.mpr ⟨right, hright, do_eq_ok.mpr ⟨height, hheight, rfl⟩⟩, rfl⟩

theorem timeUnder (h : Handle Binary64) (x : Binary64) : ∃ time, s.timeUnder h x = .ok time := by
  obtain ⟨p, hp, hfinite⟩ := hs.point x (h.y + h.height * Scalar.half)
  obtain ⟨time, htime⟩ := Binary64.exists_roundHalfUp hfinite
  exact ⟨time, do_eq_ok.mpr ⟨p, hp, htime⟩⟩

/-- Wherever a handle stands, there is a time under the edge that it holds. -/
theorem timeHeld (h : Handle Binary64) : ∃ time, s.timeHeld h = .ok time := by
  unfold Surface.timeHeld
  cases h.grip with
  | move => exact hs.timeUnder h h.x
  | resize => exact hs.timeUnder h (h.x + Scalar.gripReach)

end Answers

/-- **Every frame of a drag hands out times in order.**  Over a surface with finite times a row has
both its handles, and a drag of one of them has a frame for each motion.  The surface may be another
one at each frame, as it is after a zoom.  A frame of the handle that moves the row hands out one
update, from the rounded time on for as long as the row lasted when the handle was made.  A frame of
the handle at the end hands out one from the start that the row had to the rounded time if that is
later, and else none. -/
theorem drags_stay_valid (s : Surface Binary64) (hs : s.Answers) (index : Nat) (r : Row) :
    ∃ move resize, s.moveHandle index r = .ok move ∧ s.resizeHandle index r = .ok resize ∧
      ∀ motions : List (Motion Binary64),
        ((move.stops motions).length = motions.length ∧
          ∀ h ∈ move.stops motions, ∀ now : Surface Binary64, now.Answers →
            ∃ time, now.timeHeld h = .ok time ∧
              now.update? h = .ok (some ⟨r.id, time, time + r.duration⟩) ∧
                time < time + r.duration) ∧
        ((resize.stops motions).length = motions.length ∧
          ∀ h ∈ resize.stops motions, ∀ now : Surface Binary64, now.Answers →
            ∃ time, now.timeHeld h = .ok time ∧
              (time ≤ r.start ∧ now.update? h = .ok none ∨
                r.start < time ∧ now.update? h = .ok (some ⟨r.id, r.start, time⟩))) := by
  obtain ⟨move, hmove, hmoves⟩ := hs.moveHandle index r
  obtain ⟨resize, hresize, hresizes⟩ := hs.resizeHandle index r
  refine ⟨move, resize, hmove, hresize, fun motions => ⟨⟨move.length_stops motions, ?_⟩,
    resize.length_stops motions, ?_⟩⟩
  · intro h hh now hnow
    obtain ⟨time, htime⟩ := hnow.timeHeld h
    have horder : time < time + r.duration := Int.lt_add_of_pos_right time r.duration_pos
    exact ⟨time, htime, update?_of_mem_stops hmoves hh htime, horder⟩
  · intro h hh now hnow
    obtain ⟨time, htime⟩ := hnow.timeHeld h
    have hupdate := update?_of_mem_stops hresizes hh htime
    refine ⟨time, htime, ?_⟩
    rw [hupdate, updateAt]
    rcases Int.lt_or_le r.start time with hlate | hearly
    · exact .inr ⟨hlate, by rw [if_pos hlate]⟩
    · exact .inl ⟨hearly, by rw [if_neg (Int.not_lt.mpr hearly)]⟩

/-- A ruler with a pixel for each millisecond, whose far ends count as its zero. -/
def ruler : Surface Binary64 where
  pixel time index := .ok (.ofInt time, .ofInt (40 * index + 20))
  band := .ok (.ofInt 40)
  point x y := .ok (if x.isFinite then x else .zero, y / .ofInt 40)

theorem answers_ruler : ruler.Answers where
  pixel _ _ := ⟨_, rfl⟩
  band := ⟨_, rfl⟩
  point x y := by
    refine ⟨_, rfl, ?_⟩
    dsimp only
    split
    next h => exact h
    next => rfl

/-- Thirds of a pixel and a place off the ruler: the row lasts a hundred milliseconds throughout. -/
theorem drags_stay_valid_ruler :
    let third : Binary64 := .ofRatio 1 3
    let motions := [.shift third .zero, .shift third third, .place (.infinite true) .nan]
    ruler.Answers ∧ ∃ move, ruler.moveHandle 0 Board.shortRow = .ok move ∧
      (move.stops motions).length = 3 ∧ ∀ h ∈ move.stops motions, ∃ start,
        ruler.update? h = .ok (some ⟨"a", start, start + 100⟩) := by
  intro third motions
  obtain ⟨move, _, hmove, -, hall⟩ := drags_stay_valid ruler answers_ruler 0 Board.shortRow
  obtain ⟨⟨hlength, hframes⟩, -⟩ := hall motions
  refine ⟨answers_ruler, move, hmove, hlength, fun h hh => ?_⟩
  obtain ⟨start, -, hupdate, -⟩ := hframes h hh ruler answers_ruler
  exact ⟨start, hupdate⟩

end Surface

end Taskboard
