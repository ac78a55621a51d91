import Taskboard.Proofs.Number.Scaling

/-!
# Proofs/Calendar/Years — which instants a calendar can show

The calendar has the years 1 to 9999.  An instant in milliseconds goes through doubles twice before
its day is looked up, and rounding neither carries an instant of these years out of them nor brings
another one in: it keeps order, and the years begin and end with whole seconds, which are exact.

* `Date.exists_ofDayNumber?_iff` — the numbers of days.
* `Moment.exists_ofMicros?_iff` — the microseconds that lie on such a day.
* `Moment.exists_ofEpochMs_iff` — **the milliseconds that a calendar can show.**
-/

namespace Taskboard

-- sums and powers are those of the naturals, also where an importing module knows other ones
attribute [local instance (high)] Zero.ofOfNat0 instPowNat

/-! ## Days by their numbers -/

namespace Date

/-- The first day of the calendar. -/
def first : Date := ⟨1, 1, 1, by decide⟩

/-- The last day of the calendar. -/
def last : Date := ⟨9999, 12, 31, by decide⟩

theorem dayNumber_first : first.dayNumber = 1 := by decide

theorem daysInMonth_pos (year month : Nat) : 1 ≤ daysInMonth year month := by
  unfold daysInMonth
  repeat' split
  all_goals decide

/-- A year begins as many days after the one before it as that one has. -/
theorem daysBeforeYear_succ {year : Nat} (h : 1 ≤ year) :
    daysBeforeYear (year + 1) = daysBeforeYear year + 365 + leapDay year := by
  obtain ⟨y, rfl⟩ := Nat.exists_eq_add_of_le' h
  have hleap : leapDay (y + 1) + (if 100 ∣ y + 1 then 1 else 0)
      = (if 4 ∣ y + 1 then 1 else 0) + (if 400 ∣ y + 1 then 1 else 0) := by
    simp only [leapDay, isLeapYear, Bool.and_eq_true, Bool.or_eq_true, decide_eq_true_eq]
    split <;> repeat' split
    all_goals omega
  have hcentury : (if 100 ∣ y + 1 then 1 else 0) ≤ 1 := by split <;> decide
  simp only [daysBeforeYear, Nat.add_sub_cancel, Nat.succ_div]
  generalize leapDay (y + 1) = leap at hleap ⊢
  omega

theorem daysBeforeMonth_thirteen (year : Nat) : daysBeforeMonth year 13 = 365 + leapDay year := by
  simp only [daysBeforeMonth, leapDay, List.range, List.range.loop, List.map, daysInMonth]
  split <;> rfl

/-- Each day but the last one has a next day. -/
theorem exists_next {d : Date} (h : d.dayNumber < 3652059) :
    ∃ e : Date, e.dayNumber = d.dayNumber + 1 := by
  obtain ⟨hyear, hyears, hmonth, hmonths, hday, hdays⟩ := d.isDay
  rcases Nat.lt_or_eq_of_le hdays with hless | hlast
  · exact ⟨⟨d.year, d.month, d.day + 1, hyear, hyears, hmonth, hmonths, by omega, hless⟩, rfl⟩
  rcases Nat.lt_or_eq_of_le hmonths with hless | hdecember
  · refine ⟨⟨d.year, d.month + 1, 1, hyear, hyears, by omega, hless, Nat.le_refl 1,
      daysInMonth_pos _ _⟩, ?_⟩
    simp only [dayNumber, daysBeforeMonth_succ d.year hmonth]
    omega
  have hlength := daysBeforeMonth_thirteen d.year
  rw [daysBeforeMonth_succ d.year (by decide : 1 ≤ 12), ← hdecember, ← hlast] at hlength
  rcases Nat.lt_or_eq_of_le hyears with hless | hend
  · refine ⟨⟨d.year + 1, 1, 1, by omega, hless, by decide, by decide, by decide,
      daysInMonth_pos _ _⟩, ?_⟩
    have hjanuary : daysBeforeMonth (d.year + 1) 1 = 0 := rfl
    simp only [dayNumber, daysBeforeYear_succ hyear, hjanuary]
    omega
  · have hnumber : d.dayNumber = daysBeforeYear 9999 + (365 + leapDay 9999) := by
      rw [dayNumber, Nat.add_assoc, hlength, hend]
    exact absurd (hnumber ▸ h) (by decide)

/-- Every number up to that of the last day is a day's. -/
theorem exists_dayNumber {n : Nat} (hpos : 1 ≤ n) (h : n ≤ 3652059) :
    ∃ d : Date, d.dayNumber = n := by
  induction n, hpos using Nat.le_induction with
  | base => exact ⟨first, dayNumber_first⟩
  | succ n _ ih =>
    obtain ⟨d, rfl⟩ := ih (Nat.le_of_succ_le h)
    exact exists_next h

/-- Behind the last day lies the year 10000. -/
theorem le_yearOfDay {n : Nat} (h : 3652059 < n) : 9999 < yearOfDay n := by
  have hday : 3652059 ≤ n - 1 := by omega
  simp only [yearOfDay]
  generalize n - 1 = day at hday ⊢
  rcases Nat.lt_or_ge day 3652425 with hlt | hge
  · -- the last year of the last cycle
    have h400 : day / 146097 = 24 ∧ 145731 ≤ day % 146097 := by omega
    obtain ⟨h400, hrest⟩ := h400
    have hless : day % 146097 < 146097 := Nat.mod_lt _ (by decide)
    generalize day % 146097 = rest at hrest hless ⊢
    have h100 : min 3 (rest / 36524) = 3 := by omega
    rw [h400, h100]
    generalize hquad : rest - 3 * 36524 = quad
    have h4 : quad / 1461 = 24 ∧ 1095 ≤ quad % 1461 := by omega
    rw [h4.1]
    omega
  · have h400 : 25 ≤ day / 146097 := by omega
    omega

/-- **The numbers of days.** -/
theorem exists_ofDayNumber?_iff {n : Nat} :
    (∃ d, ofDayNumber? n = some d) ↔ 1 ≤ n ∧ n ≤ 3652059 := by
  constructor
  · rintro ⟨d, hd⟩
    unfold ofDayNumber? at hd
    split at hd
    next => cases hd
    next hzero =>
      refine ⟨Nat.pos_of_ne_zero hzero, Nat.le_of_not_lt fun hlate => ?_⟩
      have hyear : ¬ yearOfDay n ≤ 9999 := Nat.not_le.mpr (le_yearOfDay hlate)
      simp [ofParts?, IsDay, hyear] at hd
  · rintro ⟨hpos, hlast⟩
    obtain ⟨d, rfl⟩ := exists_dayNumber hpos hlast
    exact ⟨d, ofDayNumber?_dayNumber d⟩

end Date

namespace Moment

open Magnitude

/-- **The milliseconds since 1970 in the years 1 to 9999.** -/
def InYears (ms : Int) : Prop :=
  Date.first.midnightMs ≤ ms ∧ ms < Date.last.midnightMs + 86400000

theorem midnightMs_first : Date.first.midnightMs = -62135596800000 := by decide

theorem midnightMs_last : Date.last.midnightMs = 253402214400000 := by decide

instance (ms : Int) : Decidable (InYears ms) := by unfold InYears; infer_instance

theorem inYears_iff {ms : Int} :
    InYears ms ↔ -62135596800000 ≤ ms ∧ ms < 253402300800000 := by
  unfold InYears
  rw [midnightMs_first, midnightMs_last]
  omega

/-- The microseconds of the calendar. -/
theorem exists_ofMicros?_iff {us : Int} : (∃ m, ofMicros? us = some m) ↔
    -62135596800000000 ≤ us ∧ us < 253402300800000000 := by
  have hdays : us.fdiv dayMicros = us / 86400000000 := Int.fdiv_eq_ediv_of_nonneg _ (by decide)
  have hclock : us.fmod dayMicros = us % 86400000000 := Int.fmod_eq_emod_of_nonneg _ (by decide)
  have hepoch : (epochDay : Int) = 719163 := rfl
  have hday (n : Int) : (∃ d, Date.ofDayNumber? n.toNat = some d) ↔ 1 ≤ n ∧ n ≤ 3652059 := by
    rw [Date.exists_ofDayNumber?_iff]
    omega
  simp only [ofMicros?, hdays, hclock, hepoch]
  split
  next hearly =>
    refine iff_of_false ?_ (by omega)
    rintro ⟨m, hm⟩
    cases hm
  next hlate =>
    have hlt : (us % 86400000000).toNat < dayMicros := by
      unfold dayMicros
      omega
    simp only [dif_pos hlt]
    rw [← Option.isSome_iff_exists, Option.isSome_bind]
    have hrange := hday (us / 86400000000 + 719163)
    cases hfound : Date.ofDayNumber? (us / 86400000000 + 719163).toNat with
    | none =>
      rw [hfound] at hrange
      have hout := mt hrange.mpr (by simp)
      simp only [Option.any_none, Bool.false_eq_true, false_iff]
      omega
    | some d =>
      have hin := hrange.mp ⟨d, hfound⟩
      simp only [Option.any_some, Option.isSome_some, true_iff]
      omega

/-! ## Seconds -/

/-- The microseconds of a fraction of a second, given in units. -/
def partMicros (units : Nat) : Nat :=
  roundDiv (roundedUnits (roundedUnits units 1 * (1000000 * unitsPerOne)) unitsPerOne) unitsPerOne

/-- The microseconds of a size of seconds, given in units. -/
def secondMicros (units : Nat) : Nat :=
  units / unitsPerOne * 1000000 + partMicros (units % unitsPerOne)

theorem partMicros_mono {m n : Nat} (h : m ≤ n) : partMicros m ≤ partMicros n :=
  roundDiv_mono _ (roundedUnits_mono (Nat.mul_le_mul_right _ (roundedUnits_mono h)))

/-- What the two roundings of a fraction of a second come to at most. -/
theorem fraction_le {u : Nat} (h : u ≤ unitsPerOne) : roundedUnits u 1 ≤ unitsPerOne ∧
    roundedUnits (roundedUnits u 1 * (1000000 * unitsPerOne)) unitsPerOne
      ≤ 1000000 * unitsPerOne := by
  have hfew : roundedUnits u 1 ≤ 1 * unitsPerOne :=
    roundedUnits_le_whole (by decide) Nat.one_pos (by omega)
  rw [Nat.one_mul] at hfew
  refine ⟨hfew, roundedUnits_le_whole (by decide) unitsPerOne_pos ?_⟩
  rw [Nat.mul_comm]
  exact Nat.mul_le_mul_left _ hfew

/-- A fraction of a second has a million microseconds at most. -/
theorem partMicros_le (units : Nat) : partMicros (units % unitsPerOne) ≤ 1000000 := by
  have hmany := (fraction_le (Nat.le_of_lt (Nat.mod_lt units unitsPerOne_pos))).2
  exact Nat.le_trans (roundDiv_mono _ hmany)
    (Nat.le_of_eq (roundDiv_mul_self 1000000 unitsPerOne_pos))

/-- **More seconds are no fewer microseconds.** -/
theorem secondMicros_mono {m n : Nat} (h : m ≤ n) : secondMicros m ≤ secondMicros n := by
  unfold secondMicros
  rcases Nat.lt_or_eq_of_le (Nat.div_le_div_right (c := unitsPerOne) h) with hlt | heq
  · have hless := partMicros_le m
    omega
  · have hmod : m % unitsPerOne ≤ n % unitsPerOne := by
      have hm := Nat.div_add_mod m unitsPerOne
      have hn := Nat.div_add_mod n unitsPerOne
      rw [heq] at hm
      omega
    have := partMicros_mono hmod
    omega

/-- Seconds fall apart into whole ones and microseconds. -/
theorem splitSeconds_finite (negative : Bool) (m : Magnitude) :
    splitSeconds (.finite negative m) = some
      (if negative then
        (-((m.units / unitsPerOne : Nat) : Int), -(partMicros (m.units % unitsPerOne) : Int))
      else ((m.units / unitsPerOne : Nat), (partMicros (m.units % unitsPerOne) : Int))) := by
  obtain ⟨hfew, hmany⟩ := fraction_le (Nat.le_of_lt (Nat.mod_lt m.units unitsPerOne_pos))
  have hlimit : 1000000 * unitsPerOne < unitsLimit := whole_lt_limit (by decide)
  obtain ⟨f, hf, hfraction⟩ := Binary64.exists_ofUnits false
    (Nat.lt_of_le_of_lt hfew (by omega))
  obtain ⟨us, hus, hproduct⟩ := Binary64.exists_ofUnits false (Nat.lt_of_le_of_lt hmany hlimit)
  have hmillion : Binary64.ofInt 1000000 = .finite false (.whole 1000000 (by decide)) :=
    Binary64.ofInt_whole (n := 1000000) (by decide)
  simp only [splitSeconds, hfraction, hmillion, Binary64.finite_mul_finite, hf,
    Magnitude.units_whole, Bool.xor_false, hproduct, hus]
  rfl

/-- Seconds that fall apart so are shown if their microseconds are. -/
theorem exists_ofSeconds_iff {x : Binary64} {s us : Int} (hsplit : splitSeconds x = some (s, us))
    (hus : us.natAbs ≤ 1000000) : (∃ t, ofSeconds x = .ok t) ↔
      -62135596800000000 ≤ s * 1000000 + us ∧ s * 1000000 + us < 253402300800000000 := by
  rw [ofSeconds, hsplit]
  dsimp only
  split
  next hclock =>
    refine iff_of_false ?_ (by omega)
    rintro ⟨t, ht⟩
    cases ht
  next =>
    split
    next hcalendar =>
      refine iff_of_false ?_ (by omega)
      rintro ⟨t, ht⟩
      cases ht
    next =>
      rw [← exists_ofMicros?_iff]
      cases ofMicros? (s * 1000000 + us) <;> simp

/-! ## Milliseconds -/

/-- The units of the seconds in a number of milliseconds. -/
def msUnits (ms : Nat) : Nat := roundedUnits (ms * unitsPerOne) 1000

/-- More milliseconds are no fewer microseconds. -/
theorem secondMicros_msUnits_mono {m n : Nat} (h : m ≤ n) :
    secondMicros (msUnits m) ≤ secondMicros (msUnits n) :=
  secondMicros_mono (roundedUnits_mono (Nat.mul_le_mul_right _ h))

/-- The calendar begins with a whole second, which is exact. -/
theorem secondMicros_first (ms : Nat) :
    secondMicros (msUnits ms) ≤ 62135596800000000 ↔ ms ≤ 62135596800000 := by
  have hfirst : secondMicros (msUnits 62135596800000) = 62135596800000000 := by decide +kernel
  have hbefore : 62135596800000000 < secondMicros (msUnits 62135596800001) := by decide +kernel
  constructor
  · intro h
    refine Nat.not_lt.mp fun hlate => ?_
    have := secondMicros_msUnits_mono (m := 62135596800001) hlate
    omega
  · intro h
    have := secondMicros_msUnits_mono h
    omega

/-- The calendar ends before a whole second, which is exact. -/
theorem secondMicros_last (ms : Nat) :
    secondMicros (msUnits ms) < 253402300800000000 ↔ ms < 253402300800000 := by
  have hlast : secondMicros (msUnits 253402300799999) < 253402300800000000 := by decide +kernel
  have hbehind : secondMicros (msUnits 253402300800000) = 253402300800000000 := by decide +kernel
  constructor
  · intro h
    refine Nat.not_le.mp fun hlate => ?_
    have := secondMicros_msUnits_mono hlate
    omega
  · intro h
    have := secondMicros_msUnits_mono (Nat.le_of_lt_succ h)
    omega

/-- As many milliseconds as the calendar has are not too many for doubles. -/
theorem msUnits_lt {ms : Nat} (h : ms < 253402300800000) : msUnits ms < unitsLimit := by
  have hseconds : msUnits ms ≤ 253402300800 * unitsPerOne := by
    refine roundedUnits_le_whole (by decide) (by decide) ?_
    rw [Nat.mul_right_comm]
    exact Nat.mul_le_mul_right _ (by omega)
  exact Nat.lt_of_le_of_lt hseconds (whole_lt_limit (by decide))

/-- Milliseconds as a double of seconds. -/
theorem ofRatio_thousand (ms : Int) : (∃ m : Magnitude, m.units = msUnits ms.natAbs ∧
    Binary64.ofRatio ms 1000 = .finite (ms < 0) m) ∨
      253402300800000 ≤ ms.natAbs ∧ Binary64.ofRatio ms 1000 = .infinite (ms < 0) := by
  unfold Binary64.ofRatio
  rcases Nat.lt_or_ge (msUnits ms.natAbs) unitsLimit with hlt | hge
  · exact .inl (Binary64.exists_ofUnits _ hlt)
  · refine .inr ⟨Nat.not_lt.mp fun h => ?_, Binary64.ofUnits_of_le hge⟩
    exact absurd (msUnits_lt h) (Nat.not_lt.mpr hge)

/-- **The milliseconds that a calendar can show** are those of its years. -/
theorem exists_ofEpochMs_iff {ms : Int} : (∃ t, ofEpochMs ms = .ok t) ↔ InYears ms := by
  rw [inYears_iff, ofEpochMs]
  rcases ofRatio_thousand ms with ⟨m, hunits, hseconds⟩ | ⟨hmany, hseconds⟩
  · have hearly := secondMicros_first ms.natAbs
    have hlate := secondMicros_last ms.natAbs
    have hless := partMicros_le m.units
    rw [← hunits, secondMicros] at hearly hlate
    have hsplit := splitSeconds_finite (decide (ms < 0)) m
    rw [hseconds]
    by_cases hneg : ms < 0
    · rw [if_pos (decide_eq_true hneg)] at hsplit
      rw [exists_ofSeconds_iff hsplit (by rwa [Int.natAbs_neg, Int.natAbs_natCast])]
      omega
    · rw [if_neg (by rwa [decide_eq_true_eq])] at hsplit
      rw [exists_ofSeconds_iff hsplit (by rwa [Int.natAbs_natCast])]
      omega
  · rw [hseconds]
    refine iff_of_false ?_ (by omega)
    rintro ⟨t, ht⟩
    cases ht

end Moment

end Taskboard
