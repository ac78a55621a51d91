import Taskboard.Proofs.Schedule.Projection
import Taskboard.Proofs.Value.Places

/-!
# Proofs/Schedule/Share — more progress is no less of a row

The progress of a task is a number or its text.  Up to one it is a part of the whole, above one it is
taken for a percentage, and what a row shows of it lies between nothing and all.  Each step keeps the
order of numbers: rounding to a double, taking a hundredth, and clamping.  Only where one number is a
part and the other one a percentage they are read on two scales, and then they keep their order
exactly if the part is no more than the hundredth.

* `Binary64.place?_hundredth`, `Progress.place?_clamp_share` — the steps, by their places.
* `Progress.placeOf_mono`, `Progress.placeOf_le_iff` — on one scale and on two.
* `Row.progress_grows` — **more progress is no less of the row.**
-/

namespace Taskboard

-- powers are those of the naturals, also where an importing module knows other ones
attribute [local instance (high)] instPowNat

/-! ## The steps -/

namespace Binary64

variable {x y : Binary64} {k l : Int}

theorem le_iff_of_place (hx : x.place? = some k) (hy : y.place? = some l) :
    x.le y = true ↔ k ≤ l := by
  rw [le, hx, hy, decide_eq_true_iff]

theorem lt_iff_of_place (hx : x.place? = some k) (hy : y.place? = some l) :
    x.lt y = true ↔ k < l := by
  rw [lt, hx, hy, decide_eq_true_iff]

theorem place?_one : (ofInt 1).place? = some (unitsPerOne : Int) :=
  (place?_ofRatio 1 1).trans (congrArg some ratioPlace_one)

attribute [local irreducible] unitsPerOne unitsLimit

/-- The place of a hundredth, for a place above one. -/
def hundredthPlace (k : Int) : Int :=
  if k < unitsLimit then unitsPlace (k.toNat * unitsPerOne) (100 * unitsPerOne) else unitsLimit

theorem hundredthPlace_nonneg (k : Int) : 0 ≤ hundredthPlace k := by
  unfold hundredthPlace
  split <;> omega

/-- **A hundredth of more is no less.** -/
theorem hundredthPlace_mono (h : k ≤ l) : hundredthPlace k ≤ hundredthPlace l := by
  have hle (n : Nat) : unitsPlace n (100 * unitsPerOne) ≤ unitsLimit := Nat.min_le_right _ _
  unfold hundredthPlace
  split
  next =>
    split
    next => exact Int.ofNat_le.mpr (unitsPlace_mono (Nat.mul_le_mul_right _ (Int.toNat_le_toNat h)))
    next => exact Int.ofNat_le.mpr (hle _)
  next hk => rw [if_neg (by omega)]

/-- The hundredth of a double above one. -/
theorem place?_hundredth (h : x.place? = some k) (hone : unitsPerOne < k) :
    (x / ofInt 100).place? = some (hundredthPlace k) := by
  have hpos := unitsPerOne_pos
  have hhundred : ofInt 100 = .finite false (.whole 100 (by decide)) :=
    ofInt_whole (n := 100) (by decide)
  rw [hhundred]
  rcases x with _ | negative | ⟨negative, m⟩
  · cases h
  · obtain rfl := Option.some.inj h
    cases negative with
    | true => exact absurd hone (by simp only [if_true]; omega)
    | false =>
      rw [hundredthPlace, if_neg (by simp)]
      rfl
  · obtain rfl := Option.some.inj h
    have hlimit := m.representable.1
    cases negative with
    | true => exact absurd hone (by simp only [signedUnits, if_true]; omega)
    | false =>
      have hunits : (Magnitude.whole 100 (by decide)).units = 100 * unitsPerOne := rfl
      have hdiv : finite false m / .finite false (.whole 100 (by decide))
          = ofUnits false (m.units * unitsPerOne) (100 * unitsPerOne) := by
        rw [← hunits]
        exact if_neg (by rw [hunits]; omega)
      rw [hdiv, place?_ofUnits_eq, hundredthPlace]
      simp only [signedUnits, Bool.false_eq_true, if_false, Int.toNat_natCast]
      rw [if_pos (by omega)]

end Binary64

namespace Progress

open Binary64

attribute [local irreducible] unitsPerOne

/-- **Clamping**, by places. -/
theorem place?_clamp {x : Binary64} {k : Int} (h : x.place? = some k) :
    (clamp x).value.place? = some (max 0 (min k unitsPerOne)) := by
  have hpos := unitsPerOne_pos
  have hzero : Binary64.zero.place? = some 0 := rfl
  unfold clamp
  split
  next hlt =>
    have hless := (lt_iff_of_place h place?_one).mp hlt
    split
    next hmore =>
      have hmore := (lt_iff_of_place hzero h).mp hmore
      rw [h]
      congr 1
      omega
    next hnone =>
      have hnone := mt (lt_iff_of_place hzero h).mpr hnone
      rw [none, hzero]
      congr 1
      omega
  next hge =>
    have hge := mt (lt_iff_of_place h place?_one).mpr hge
    rw [full, place?_one]
    congr 1
    omega

/-- The place of the progress that a number of a place stands for. -/
def placeOf (k : Int) : Int :=
  max 0 (min (if unitsPerOne < k then hundredthPlace k else k) unitsPerOne)

theorem place?_clamp_share {v : Value} {x : Binary64} {k : Int} (hx : v.toReal = .ok x)
    (hk : x.place? = some k) : (clamp v.share).value.place? = some (placeOf k) := by
  have hlt := lt_iff_of_place place?_one hk
  have hshare : v.share = if (ofInt 1).lt x then x / ofInt 100 else x := by
    rw [Value.share, hx]
  rw [hshare, placeOf]
  by_cases hone : (unitsPerOne : Int) < k
  · rw [if_pos (hlt.mpr hone), if_pos hone]
    exact place?_clamp (place?_hundredth hk hone)
  · rw [if_neg (mt hlt.mp hone), if_neg hone]
    exact place?_clamp hk

variable {k l : Int}

/-- On one scale, more is no less. -/
theorem placeOf_mono (h : k ≤ l) (hscale : l ≤ unitsPerOne ∨ (unitsPerOne : Int) < k) :
    placeOf k ≤ placeOf l := by
  have hmono := hundredthPlace_mono h
  unfold placeOf
  repeat' split
  all_goals omega

/-- A part is no more than a percentage if it is no more than the hundredth. -/
theorem placeOf_le_iff (hk : k ≤ unitsPerOne) (hl : (unitsPerOne : Int) < l) :
    placeOf k ≤ placeOf l ↔ k ≤ hundredthPlace l := by
  have hpos := unitsPerOne_pos
  have hnonneg := hundredthPlace_nonneg l
  rw [placeOf, placeOf, if_neg (by omega), if_pos hl]
  omega

end Progress

/-! ## Tasks -/

/-- **A task with valid dates**: a start, and a later finish. -/
def Task.IsTimed (keys : RowKeys) (t : Task) : Prop :=
  ∃ start finish, (t.get keys.start).epochMs? = .ok (some start) ∧
    (t.get keys.finish).epochMs? = .ok (some finish) ∧ start < finish

/-- **A task whose row has a progress.**  No row is made only where its name cannot be written. -/
def Task.Shows (keys : RowKeys) (t : Task) (p : Progress) : Prop :=
  (Row.ofTask? keys t).map (Option.map Row.progress)
    = (Row.taskName keys.title t).map fun _ => some p

namespace Row

open Binary64

variable {keys : RowKeys} {t u : Task}

/-- What a task with valid dates asks for. -/
theorem ofTask?_of_isTimed (ht : t.IsTimed keys) : ∃ p : { p : Int × Int // p.1 < p.2 },
    ofTask? keys t = (taskProgress (t.get keys.progress)).bind fun progress =>
      (taskName keys.title t).map fun name =>
        some ⟨t.id, name, p.1.1, p.1.2, p.2, .clamp progress, t.firstNeed keys⟩ := by
  obtain ⟨start, finish, hstart, hfinish, hlt⟩ := ht
  obtain ⟨htells, hs⟩ := Value.epochMs?_eq_ok.mp hstart
  obtain ⟨htells', hf⟩ := Value.epochMs?_eq_ok.mp hfinish
  have hstretch : t.stretch? keys = some ⟨(start, finish), hlt⟩ := by
    simp only [Task.stretch?, ← hs, ← hf, Option.bind_some, dif_pos hlt]
  exact ⟨_, ofTask?_of_stretch?_eq_some htells htells' hstretch⟩

theorem shows_of_isTimed (ht : t.IsTimed keys) (hreals : (t.get keys.progress).inReals = true) :
    t.Shows keys (.clamp (t.get keys.progress).share) := by
  obtain ⟨p, hrow⟩ := ofTask?_of_isTimed ht
  rw [Task.Shows, hrow, taskProgress_eq_ok.mpr ⟨hreals, rfl⟩]
  simp only [Except.bind]
  cases taskName keys.title t <;> rfl

/-- A whole number beyond the doubles is no progress. -/
theorem ofTask?_of_not_inReals (ht : t.IsTimed keys)
    (hreals : (t.get keys.progress).inReals = false) :
    ofTask? keys t = .error .numberTooLarge := by
  obtain ⟨p, hrow⟩ := ofTask?_of_isTimed ht
  rw [hrow, taskProgress, Value.toReal_of_not_inReals hreals]
  rfl

/-- **More progress is no less of the row.**  Two tasks with valid dates whose progress is given by
numbers have rows with progress between nothing and all.  Where both numbers are parts of a whole,
or both are percentages, the greater number has no less progress; a part has no more progress than a
percentage exactly if it is no more than the hundredth. -/
theorem progress_grows {p q : Value} (ht : t.IsTimed keys) (hu : u.IsTimed keys)
    (hp : (t.get keys.progress).Gives p) (hq : (u.get keys.progress).Gives q)
    (hle : p.NoMore q) :
    ∃ x y v w, (t.get keys.progress).toReal = .ok x ∧ (u.get keys.progress).toReal = .ok y ∧
      t.Shows keys v ∧ u.Shows keys w ∧
      (zero.le v.value = true ∧ v.value.le (ofInt 1) = true) ∧
      (zero.le w.value = true ∧ w.value.le (ofInt 1) = true) ∧
      (q.NoMore (.int 1) ∨ ¬ p.NoMore (.int 1) → v.value.le w.value = true) ∧
      (p.NoMore (.int 1) → ¬ q.NoMore (.int 1) →
        (v.value.le w.value = true ↔ x.le (y / ofInt 100) = true)) := by
  obtain ⟨a, b, ha, hb, hbehind⟩ := hle
  obtain ⟨hreals, x, hx, hxk⟩ := hp.exists_toReal ha
  obtain ⟨hreals', y, hy, hyl⟩ := hq.exists_toReal hb
  have hkl := Value.doublePlace_mono hbehind
  have hv := Progress.place?_clamp_share hx hxk
  have hw := Progress.place?_clamp_share hy hyl
  refine ⟨x, y, _, _, hx, hy, shows_of_isTimed ht hreals, shows_of_isTimed hu hreals',
    ⟨Progress.nonneg _, Progress.le_one _⟩, ⟨Progress.nonneg _, Progress.le_one _⟩, ?_, ?_⟩
  · rw [Value.noMore_one_iff ha, Value.noMore_one_iff hb, Int.not_le, le_iff_of_place hv hw]
    exact Progress.placeOf_mono hkl
  · rw [Value.noMore_one_iff ha, Value.noMore_one_iff hb, Int.not_le, le_iff_of_place hv hw]
    intro hpart hpercent
    rw [le_iff_of_place hxk (place?_hundredth hyl hpercent)]
    exact Progress.placeOf_le_iff hpart hpercent

/-- A task of ten milliseconds with a progress. -/
def advanced (progress : Value) : Task :=
  ⟨"advanced", [("start_date", .int 0), ("end_date", .int 10), ("progress", progress)], "", none⟩

theorem advanced_isTimed (progress : Value) : (advanced progress).IsTimed {} := by
  have hstart : (advanced progress).get "start_date" = .int 0 := rfl
  have hfinish : (advanced progress).get "end_date" = .int 10 := rfl
  refine ⟨0, 10, ?_, ?_, by decide⟩
  · rw [hstart]
    decide +kernel
  · rw [hfinish]
    decide +kernel

/-- A fifth done is no more than half done, given as a number and as a text. -/
theorem fifth_is_no_more_than_half :
    ∃ v w, (advanced (.int 20)).Shows {} v ∧ (advanced (.text "50")).Shows {} w ∧
      v.value.le w.value = true := by
  obtain ⟨-, -, v, w, -, -, hv, hw, -, -, hgrows, -⟩ := progress_grows
    (p := .int 20) (q := .int 50) (advanced_isTimed (.int 20)) (advanced_isTimed (.text "50"))
    (.itself (by decide +kernel)) (.whole (by decide +kernel))
    (Value.int_noMore_int.mpr (by decide))
  exact ⟨v, w, hv, hw, hgrows (.inr (mt Value.int_noMore_int.mp (by decide)))⟩

/-- **One is all of a row, and two are a fiftieth of it**; a whole number beyond the doubles takes
the row with it. -/
theorem one_is_more_than_two :
    (Value.int 1).NoMore (.int 2) ∧
      (∃ v w, (advanced (.int 1)).Shows {} v ∧ (advanced (.int 2)).Shows {} w ∧
        v.value.le w.value = false) ∧
      ofTask? {} (advanced (.int (Int.pow 10 400))) = .error .numberTooLarge := by
  refine ⟨Value.int_noMore_int.mpr (by decide),
    ⟨_, _, shows_of_isTimed (advanced_isTimed _) (by decide +kernel),
      shows_of_isTimed (advanced_isTimed _) (by decide +kernel), by decide +kernel⟩,
    ofTask?_of_not_inReals (advanced_isTimed _) (by decide +kernel)⟩

end Row

end Taskboard
