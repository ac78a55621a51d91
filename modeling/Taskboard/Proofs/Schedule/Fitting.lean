import Taskboard.Proofs.Schedule.Exact

/-!
# Proofs/Schedule/Fitting — an axis that shows every row

`Axis.fit?` lays the time from the first start to the last finish over a width.  The two are of
different rows, as a rule; that the one comes before the other, so that there is a scale at all, is
known of each row by itself.

* `Axis.firstStart_lt_lastFinish` — there is time to lay out.
* `Axis.fit?_cons` — so the scale is positive and an axis is made.
* `Axis.fit_shows_rows` — **every row lies on the width**, with its start left of its finish, and
  the width is used up to both ends.
-/

namespace Taskboard.Axis

/-! ## The ends of the rows -/

theorem firstStart_le (r : Row) (rs : List Row) : ∀ q ∈ r :: rs, firstStart r rs ≤ q.start := by
  induction rs generalizing r with
  | nil => exact List.forall_mem_singleton.mpr (le_refl r.start)
  | cons s rs ih =>
    refine List.forall_mem_cons.mpr ⟨min_le_left _ _, fun q hq => ?_⟩
    exact (min_le_right _ _).trans (ih s q hq)

theorem le_lastFinish (r : Row) (rs : List Row) : ∀ q ∈ r :: rs, q.finish ≤ lastFinish r rs := by
  induction rs generalizing r with
  | nil => exact List.forall_mem_singleton.mpr (le_refl r.finish)
  | cons s rs ih =>
    refine List.forall_mem_cons.mpr ⟨le_max_left _ _, fun q hq => ?_⟩
    exact (ih s q hq).trans (le_max_right _ _)

theorem exists_firstStart (r : Row) (rs : List Row) : ∃ q ∈ r :: rs, q.start = firstStart r rs := by
  induction rs generalizing r with
  | nil => exact ⟨r, List.mem_cons_self, rfl⟩
  | cons s rs ih =>
    rcases min_choice r.start (firstStart s rs) with h | h
    · exact ⟨r, List.mem_cons_self, h.symm⟩
    · obtain ⟨q, hq, hstart⟩ := ih s
      exact ⟨q, List.mem_cons_of_mem r hq, hstart.trans h.symm⟩

theorem exists_lastFinish (r : Row) (rs : List Row) :
    ∃ q ∈ r :: rs, q.finish = lastFinish r rs := by
  induction rs generalizing r with
  | nil => exact ⟨r, List.mem_cons_self, rfl⟩
  | cons s rs ih =>
    rcases max_choice r.finish (lastFinish s rs) with h | h
    · exact ⟨r, List.mem_cons_self, h.symm⟩
    · obtain ⟨q, hq, hfinish⟩ := ih s
      exact ⟨q, List.mem_cons_of_mem r hq, hfinish.trans h.symm⟩

/-- **There is time between the first start and the last finish**, as there is in each row. -/
theorem firstStart_lt_lastFinish (r : Row) (rs : List Row) : firstStart r rs < lastFinish r rs :=
  calc firstStart r rs
      ≤ r.start := firstStart_le r rs r List.mem_cons_self
    _ < r.finish := r.start_lt_finish
    _ ≤ lastFinish r rs := le_lastFinish r rs r List.mem_cons_self

/-! ## The axis of some rows -/

/-- The pixel of any time, whole or between. -/
def xAt {α : Type} [Scalar α] (a : Axis α) : Origin α → Except Fault α
  | .whole time => a.x time
  | .between time => a.originTime.map fun origin => a.left + (time - origin) / a.msPerPixel

theorem xAt_eq (a : Axis ℚ) (time : Origin ℚ) : a.xAt time = .ok (a.place time.value) := by
  cases time with
  | whole time => exact x_eq a time
  | between time =>
    rw [xAt, originTime_eq]
    rfl

/-- An axis from one time on, with a length of time on a width. -/
def spanning (first length : ℤ) (width bandHeight : ℚ) : Axis ℚ :=
  ⟨.whole first, length / width, bandHeight, 0, 0⟩

section Spanning

variable (first : ℤ) {length : ℤ} {width : ℚ} (bandHeight : ℚ)

theorem place_first : (spanning first length width bandHeight).place first = 0 := by
  change 0 + ((first : ℚ) - first) / (length / width) = 0
  rw [sub_self, zero_div, add_zero]

theorem place_last (hlength : length ≠ 0) :
    (spanning first length width bandHeight).place ((first + length : ℤ) : ℚ) = width := by
  change 0 + (((first + length : ℤ) : ℚ) - first) / (length / width) = width
  rw [Int.cast_add, add_sub_cancel_left, zero_add, div_div_cancel₀ (Int.cast_ne_zero.mpr hlength)]

end Spanning

theorem scale_pos {r : Row} {rs : List Row} {width : ℚ} (hwidth : 0 < width) :
    0 < ((lastFinish r rs - firstStart r rs : ℤ) : ℚ) / width :=
  div_pos (Int.cast_pos.mpr (Int.sub_pos.mpr (firstStart_lt_lastFinish r rs))) hwidth

/-- **Rows have an axis on every width that is one**: its scale is positive. -/
theorem fit?_cons (r : Row) (rs : List Row) {width : ℚ} (hwidth : 0 < width) (bandHeight : ℚ) :
    fit? (r :: rs) width bandHeight = .ok (some
      (spanning (firstStart r rs) (lastFinish r rs - firstStart r rs) width bandHeight)) := by
  have hmade : make (.whole (firstStart r rs))
      (((lastFinish r rs - firstStart r rs : ℤ) : ℚ) / width) bandHeight 0 0 =
        .ok (spanning (firstStart r rs) (lastFinish r rs - firstStart r rs) width bandHeight) :=
    if_neg fun h => absurd (of_decide_eq_true h) (not_le.mpr (scale_pos hwidth))
  have hwide : Scalar.notAbove width = false := decide_eq_false (not_le.mpr hwidth)
  rw [fit?, hwide, if_neg Bool.false_ne_true]
  exact congrArg (fun a => Except.map some a) hmade

/-- Without rows, or without a width, there is no axis. -/
theorem fit?_eq_none_iff (rows : List Row) (width bandHeight : ℚ) :
    fit? rows width bandHeight = .ok none ↔ rows = [] ∨ width ≤ 0 := by
  cases rows with
  | nil => exact ⟨fun _ => .inl rfl, fun _ => rfl⟩
  | cons r rs =>
    rcases lt_or_ge 0 width with hwidth | hwidth
    · rw [fit?_cons r rs hwidth]
      constructor
      · intro h
        cases Except.ok.inj h
      · intro h
        exact absurd (h.resolve_left (List.cons_ne_nil r rs)) (not_le.mpr hwidth)
    · exact ⟨fun _ => .inr hwidth, fun _ => if_pos (decide_eq_true hwidth)⟩

/-- **Fitting shows every row.**  There is an axis exactly if there are rows and a width.  On it
every row starts and ends within the width, the start left of the end, some row starts at its left
edge and some row ends at its right edge, and later times stand further to the right. -/
theorem fit_shows_rows (rows : List Row) (width bandHeight : ℚ) :
    (fit? rows width bandHeight = .ok none ↔ rows = [] ∨ width ≤ 0) ∧
      (rows ≠ [] → 0 < width → ∃ a, fit? rows width bandHeight = .ok (some a) ∧
        0 < a.msPerPixel ∧
        (∀ r ∈ rows, ∃ x y, a.x r.start = .ok x ∧ a.x r.finish = .ok y ∧
          0 ≤ x ∧ x < y ∧ y ≤ width) ∧
        (∃ r ∈ rows, a.x r.start = .ok 0) ∧
        (∃ r ∈ rows, a.x r.finish = .ok width) ∧
        ∀ s t : Origin ℚ, s.value < t.value →
          ∃ x y, a.xAt s = .ok x ∧ a.xAt t = .ok y ∧ x < y) := by
  refine ⟨fit?_eq_none_iff rows width bandHeight, fun hrows hwidth => ?_⟩
  obtain ⟨r, rs, rfl⟩ := List.exists_cons_of_ne_nil hrows
  have hlength : lastFinish r rs - firstStart r rs ≠ 0 :=
    Int.ne_of_gt (Int.sub_pos.mpr (firstStart_lt_lastFinish r rs))
  refine ⟨_, fit?_cons r rs hwidth bandHeight, scale_pos hwidth, ?_⟩
  set a := spanning (firstStart r rs) (lastFinish r rs - firstStart r rs) width bandHeight
  have hmono : StrictMono a.place := place_strictMono (scale_pos hwidth)
  have hfirst : a.place (firstStart r rs) = 0 := place_first _ _
  have hlast : a.place (lastFinish r rs) = width := by
    have h := @place_last (firstStart r rs) _ width bandHeight hlength
    rwa [add_sub_cancel] at h
  refine ⟨fun q hq => ⟨_, _, x_eq a _, x_eq a _, ?_, ?_, ?_⟩, ?_, ?_, fun s t hst =>
    ⟨_, _, xAt_eq a s, xAt_eq a t, hmono hst⟩⟩
  · rw [← hfirst]
    exact hmono.monotone (Int.cast_le.mpr (firstStart_le r rs q hq))
  · exact hmono (Int.cast_lt.mpr q.start_lt_finish)
  · rw [← hlast]
    exact hmono.monotone (Int.cast_le.mpr (le_lastFinish r rs q hq))
  · obtain ⟨q, hq, hstart⟩ := exists_firstStart r rs
    exact ⟨q, hq, by rw [x_eq, hstart, hfirst]⟩
  · obtain ⟨q, hq, hfinish⟩ := exists_lastFinish r rs
    exact ⟨q, hq, by rw [x_eq, hfinish, hlast]⟩

/-- Two rows that overlap, the second one longer. -/
def overlappingRows : List Row :=
  [⟨"a", "A", 1000, 2000, by decide, .none, .null⟩, ⟨"b", "B", 1500, 3000, by decide, .none, .null⟩]

theorem fit_shows_rows_overlapping :
    overlappingRows ≠ [] ∧ (0 : ℚ) < 200 ∧
      ∃ a : Axis ℚ, fit? overlappingRows 200 40 = .ok (some a) ∧
      ∀ r ∈ overlappingRows, ∃ x y, a.x r.start = .ok x ∧ a.x r.finish = .ok y ∧
        0 ≤ x ∧ x < y ∧ y ≤ 200 := by
  have hrows : overlappingRows ≠ [] := List.cons_ne_nil _ _
  have hwidth : (0 : ℚ) < 200 := by norm_num
  obtain ⟨a, ha, -, hall, -⟩ := (fit_shows_rows overlappingRows 200 40).2 hrows hwidth
  exact ⟨hrows, hwidth, a, ha, hall⟩

end Taskboard.Axis
