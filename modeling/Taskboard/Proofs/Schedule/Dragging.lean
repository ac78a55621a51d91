import Mathlib.Algebra.BigOperators.Group.List.Basic
import Mathlib.Algebra.Order.Round
import Taskboard.Proofs.Schedule.Exact
import Taskboard.Proofs.Schedule.Frames

/-!
# Proofs/Schedule/Dragging — a drag is as long as its way

Without rounding of pixels a handle stands, after any number of shifts, as far from where it was as
the shifts are long together.  Only the time under it is rounded, anew at every stop, and what was
rounded at one stop has no effect on the next.

* `Handle.carriedAll_shifts` — shifts add up.
* `Axis.timeHeld_carriedAll` — the time that a handle holds after them.
* `Axis.last_update_of_way` — **the last update of a drag depends on the way from left to right
  alone**, not on how it was split nor on what went up or down.
-/

namespace Taskboard

/-- Shifts as motions. -/
def Motion.shifts (ds : List (ℚ × ℚ)) : List (Motion ℚ) := ds.map fun d => .shift d.1 d.2

/-- How far shifts lead to the right. -/
def wayRight (ds : List (ℚ × ℚ)) : ℚ := (ds.map Prod.fst).sum

/-- What the last frame of a drag hands out, if there is one. -/
def Surface.lastUpdate {α : Type} [Scalar α] (s : Surface α) (ms : List (Motion α)) (h : Handle α) :
    Option (Except Fault (Option Update)) :=
  (h.stops ms).getLast?.map s.update?

namespace Handle

/-- **Shifts add up**: the handle stands to the right by their sum. -/
theorem carriedAll_shifts (ds : List (ℚ × ℚ)) (h : Handle ℚ) :
    (h.carriedAll (Motion.shifts ds)).x = h.x + wayRight ds ∧
      (h.carriedAll (Motion.shifts ds)).mark = h.mark := by
  induction ds generalizing h with
  | nil => exact ⟨(add_zero h.x).symm, rfl⟩
  | cons d ds ih =>
    obtain ⟨hx, hmark⟩ := ih (h.moveBy d.1 d.2)
    refine ⟨?_, hmark⟩
    calc (carriedAll (Motion.shifts (d :: ds)) h).x
        = h.x + d.1 + wayRight ds := hx
      _ = h.x + wayRight (d :: ds) := by
        rw [add_assoc, wayRight, wayRight, List.map_cons, List.sum_cons]

end Handle

namespace Axis

variable {a : Axis ℚ} {h : Handle ℚ} {ds : List (ℚ × ℚ)}

/-! ## The edge that a handle holds -/

/-- The place of the edge of a bar that a handle holds, its start or its end. -/
def edge (h : Handle ℚ) : ℚ :=
  match h.grip with
  | .move _ => h.x
  | .resize _ => h.x + 5

theorem timeUnder_eq (hband : a.bandHeight ≠ 0) (h : Handle ℚ) (x : ℚ) :
    a.surface.timeUnder h x = .ok (round (a.timeAt x)) := by
  refine do_eq_ok.mpr ⟨_, point_eq hband x _, ?_⟩
  rw [round_eq]
  rfl

/-- The time that a handle holds is that of the edge, rounded. -/
theorem timeHeld_eq (hband : a.bandHeight ≠ 0) (h : Handle ℚ) :
    a.surface.timeHeld h = .ok (round (a.timeAt (edge h))) := by
  unfold Surface.timeHeld edge
  cases h.grip with
  | move => exact timeUnder_eq hband h _
  | resize => exact timeUnder_eq hband h _

/-- The edge goes with the handle. -/
theorem edge_carriedAll (ds : List (ℚ × ℚ)) (h : Handle ℚ) :
    edge (h.carriedAll (Motion.shifts ds)) = edge h + wayRight ds := by
  obtain ⟨hx, hmark⟩ := h.carriedAll_shifts ds
  have hgrip : (h.carriedAll (Motion.shifts ds)).grip = h.grip := congrArg Prod.fst hmark
  unfold edge
  rw [hgrip, hx]
  cases h.grip with
  | move => rfl
  | resize => exact add_right_comm h.x (wayRight ds) 5

/-- **The time that a handle holds after shifts**: the time that it held first, before rounding, and
the milliseconds of the way. -/
theorem timeHeld_carriedAll (hscale : 0 < a.msPerPixel) (hband : a.bandHeight ≠ 0) {time : ℚ}
    (hedge : edge h = a.place time) :
    a.surface.timeHeld (h.carriedAll (Motion.shifts ds)) =
      .ok (round (time + a.msPerPixel * wayRight ds)) := by
  rw [timeHeld_eq hband, edge_carriedAll, hedge, timeAt_place_add hscale]

/-- What the last of some shifts hands out. -/
theorem lastUpdate_shifts (hscale : 0 < a.msPerPixel) (hband : a.bandHeight ≠ 0) (hds : ds ≠ [])
    {time : ℚ} (hedge : edge h = a.place time) {grip : Grip} {task : String}
    (hmark : h.mark = (grip, task)) :
    a.surface.lastUpdate (Motion.shifts ds) h =
      some (.ok (Surface.updateAt task (round (time + a.msPerPixel * wayRight ds)) grip)) := by
  have hms : Motion.shifts ds ≠ [] := fun hnil => hds (List.map_eq_nil_iff.mp hnil)
  obtain ⟨hgrip, htask⟩ := Prod.mk.inj ((h.carriedAll_shifts ds).2.trans hmark)
  rw [Surface.lastUpdate, Handle.getLast?_stops hms, Option.map_some, Surface.update?_eq,
    timeHeld_carriedAll hscale hband hedge, hgrip, htask]
  rfl

/-! ## The handles of a row -/

/-- The handle that moves a bar stands at its start. -/
theorem exists_forMove (a : Axis ℚ) (index : ℕ) (r : Row) :
    ∃ h, Handle.forMove a index r = .ok h ∧ h.mark = (.move r.duration, r.id) ∧
      edge h = a.place r.start :=
  ⟨_, do_eq_ok.mpr ⟨_, pixel_eq r.start index, do_eq_ok.mpr ⟨_, pixel_eq r.finish index,
    do_eq_ok.mpr ⟨_, rfl, rfl⟩⟩⟩, rfl, rfl⟩

/-- The handle at a bar's end reaches over it by half of its width. -/
theorem exists_forResize (a : Axis ℚ) (index : ℕ) (r : Row) :
    ∃ h, Handle.forResize a index r = .ok h ∧ h.mark = (.resize r.start, r.id) ∧
      edge h = a.place r.finish :=
  ⟨_, do_eq_ok.mpr ⟨_, pixel_eq r.finish index, do_eq_ok.mpr ⟨_, rfl, rfl⟩⟩, rfl,
    sub_add_cancel (a.place r.finish) 5⟩

/-! ## Drags -/

/-- **The last update of a drag depends on the way alone.**  After shifts of a handle that moves a
row the start is the old one and the milliseconds of the way to the right, rounded once, and after
shifts of a handle at the end so is the finish, which is handed out if it comes after the start.
Shifts that lead back hand out the old times, and shifts that lead as far hand out the same ones. -/
theorem last_update_of_way (a : Axis ℚ) (hscale : 0 < a.msPerPixel) (hband : a.bandHeight ≠ 0)
    (index : ℕ) (r : Row) :
    ∃ move resize, Handle.forMove a index r = .ok move ∧ Handle.forResize a index r = .ok resize ∧
      ∀ ds : List (ℚ × ℚ), ds ≠ [] →
        let start := ⌊(r.start : ℚ) + a.msPerPixel * (ds.map Prod.fst).sum + 1 / 2⌋
        let finish := ⌊(r.finish : ℚ) + a.msPerPixel * (ds.map Prod.fst).sum + 1 / 2⌋
        a.surface.lastUpdate (Motion.shifts ds) move =
            some (.ok (some ⟨r.id, start, start + r.duration⟩)) ∧
          a.surface.lastUpdate (Motion.shifts ds) resize =
            some (.ok (if r.start < finish then some ⟨r.id, r.start, finish⟩ else none)) ∧
          ((ds.map Prod.fst).sum = 0 → ∀ h ∈ [move, resize],
            a.surface.lastUpdate (Motion.shifts ds) h =
              some (.ok (some ⟨r.id, r.start, r.finish⟩))) ∧
          ∀ es : List (ℚ × ℚ), es ≠ [] → (es.map Prod.fst).sum = (ds.map Prod.fst).sum →
            ∀ h ∈ [move, resize], a.surface.lastUpdate (Motion.shifts es) h =
              a.surface.lastUpdate (Motion.shifts ds) h := by
  obtain ⟨move, hmove, hmoves, hstart⟩ := exists_forMove a index r
  obtain ⟨resize, hresize, hresizes, hfinish⟩ := exists_forResize a index r
  refine ⟨move, resize, hmove, hresize, fun ds hds => ?_⟩
  have hlastMove : ∀ {es : List (ℚ × ℚ)}, es ≠ [] → _ :=
    fun hes => lastUpdate_shifts hscale hband hes hstart hmoves
  have hlastResize : ∀ {es : List (ℚ × ℚ)}, es ≠ [] → _ :=
    fun hes => lastUpdate_shifts hscale hband hes hfinish hresizes
  refine ⟨?_, ?_, fun hzero => ?_, fun es hes hsame => ?_⟩
  · rw [hlastMove hds, round_eq]
    rfl
  · rw [hlastResize hds, round_eq]
    rfl
  · have hback : ∀ time : ℤ, round ((time : ℚ) + a.msPerPixel * wayRight ds) = time := by
      intro time
      rw [wayRight, hzero, mul_zero, add_zero, round_intCast]
    have hduration : r.start + r.duration = r.finish := add_sub_cancel r.start r.finish
    refine List.forall_mem_cons.mpr ⟨?_, List.forall_mem_singleton.mpr ?_⟩
    · rw [hlastMove hds, hback, Surface.updateAt, hduration]
    · rw [hlastResize hds, hback, Surface.updateAt, if_pos r.start_lt_finish]
  · have hway : wayRight es = wayRight ds := hsame
    refine List.forall_mem_cons.mpr ⟨?_, List.forall_mem_singleton.mpr ?_⟩
    · rw [hlastMove hds, hlastMove hes, hway]
    · rw [hlastResize hds, hlastResize hes, hway]

/-- A row of four seconds. -/
def buildRow : Row := ⟨"build", "Build", 1200, 5200, by decide, .none, .null⟩

/-- An axis that starts between two milliseconds, with ten of them to a pixel. -/
def tenthAxis : Axis ℚ := ⟨.between (-7 / 2), 10, 40, 80, 20⟩

/-- Three shifts by less than half a pixel, up and down on the way: ten milliseconds together. -/
theorem last_update_of_way_tenth :
    let ds : List (ℚ × ℚ) := [(33 / 100, 4), (33 / 100, 0), (33 / 100, -70)]
    0 < tenthAxis.msPerPixel ∧ tenthAxis.bandHeight ≠ 0 ∧
      ∃ move, Handle.forMove tenthAxis 3 buildRow = .ok move ∧
        tenthAxis.surface.lastUpdate (Motion.shifts ds) move =
          some (.ok (some ⟨"build", 1210, 5210⟩)) := by
  intro ds
  have hscale : 0 < tenthAxis.msPerPixel := by norm_num [tenthAxis]
  have hband : tenthAxis.bandHeight ≠ 0 := by norm_num [tenthAxis]
  obtain ⟨move, _, hmove, -, hall⟩ := last_update_of_way tenthAxis hscale hband 3 buildRow
  obtain ⟨hlast, -⟩ := hall ds (List.cons_ne_nil _ _)
  have hstart : ⌊((buildRow.start : ℤ) : ℚ) + tenthAxis.msPerPixel * (ds.map Prod.fst).sum + 1 / 2⌋
      = 1210 := by
    norm_num [buildRow, tenthAxis, ds]
  rw [hstart] at hlast
  exact ⟨hscale, hband, move, hmove, hlast⟩

end Axis

end Taskboard
