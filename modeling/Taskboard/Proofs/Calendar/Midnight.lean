import Taskboard.Calendar.Moment
import Taskboard.Proofs.Number.Shortest

/-!
# Proofs/Calendar/Midnight — midnights go through doubles unharmed

Clocks count time in doubles, and a midnight is so many whole seconds that nothing is rounded: its
milliseconds are exact (`epochMs_midnight`), they lead back to the same midnight
(`ofEpochMs_midnight`), and the time between two midnights is a whole number of days
(`durationDays_midnight`).

* `ofDayNumber?_dayNumber` — a day is found back by its number.
* `Binary64.ofRatio_mul`, `Binary64.ofInt_mul_ofInt` — whole numbers of few bits are exact.
-/

namespace Taskboard

-- sums and powers are those of the naturals, also where an importing module knows other ones
attribute [local instance (high)] Zero.ofOfNat0 instPowNat

/-! ## Days by their numbers -/

namespace Date

theorem daysBeforeMonth_succ (year : Nat) {month : Nat} (h : 1 ≤ month) :
    daysBeforeMonth year (month + 1) = daysBeforeMonth year month + daysInMonth year month := by
  obtain ⟨m, rfl⟩ := Nat.exists_eq_add_of_le' h
  simp [daysBeforeMonth, List.range_succ]

theorem daysBeforeMonth_mono (year : Nat) {first month : Nat} (hpos : 1 ≤ first)
    (h : first ≤ month) : daysBeforeMonth year first ≤ daysBeforeMonth year month := by
  induction h with
  | refl => exact Nat.le_refl _
  | step hle ih =>
    rw [daysBeforeMonth_succ year (Nat.le_trans hpos hle)]
    exact Nat.le_trans ih (Nat.le_add_right _ _)

/-- **Counting on from a month leads to the month and day that lie ahead.** -/
theorem monthAndDay_eq {year month day : Nat} (hday : 1 ≤ day)
    (hlast : day ≤ daysInMonth year month) : ∀ (fuel first : Nat), 1 ≤ first → first ≤ month →
      month < first + fuel → monthAndDay year fuel first
        (daysBeforeMonth year month - daysBeforeMonth year first + (day - 1)) = (month, day)
  | 0, first, _, hle, hlt => absurd hlt (Nat.not_lt.mpr hle)
  | fuel + 1, first, hpos, hle, hlt => by
    rw [monthAndDay]
    rcases Nat.lt_or_eq_of_le hle with hless | rfl
    · have hnext := daysBeforeMonth_mono year (Nat.succ_le_succ (Nat.zero_le _)) hless
      rw [daysBeforeMonth_succ year hpos] at hnext
      have hrest : daysBeforeMonth year month - daysBeforeMonth year first + (day - 1)
            - daysInMonth year first
          = daysBeforeMonth year month - daysBeforeMonth year (first + 1) + (day - 1) := by
        rw [daysBeforeMonth_succ year hpos]
        omega
      rw [if_neg (by omega), hrest]
      exact monthAndDay_eq hday hlast fuel (first + 1) (by omega) hless (by omega)
    · rw [Nat.sub_self, Nat.zero_add, if_pos (by omega), Nat.sub_add_cancel hday]

/-- How many days a year has beyond 365. -/
def leapDay (year : Nat) : Nat := if isLeapYear year then 1 else 0

/-- No day of a year lies beyond its last one. -/
theorem dayOfYear_le (d : Date) :
    daysBeforeMonth d.year d.month + d.day ≤ 365 + leapDay d.year := by
  obtain ⟨-, -, hfirst, hlast, -, hday⟩ := d.isDay
  have hnext : daysBeforeMonth d.year (d.month + 1) ≤ daysBeforeMonth d.year 13 :=
    daysBeforeMonth_mono d.year (Nat.le_add_left 1 d.month) (Nat.succ_le_succ hlast)
  rw [daysBeforeMonth_succ d.year hfirst] at hnext
  have hyear : daysBeforeMonth d.year 13 = 365 + leapDay d.year := by
    simp only [daysBeforeMonth, leapDay, List.range, List.range.loop, List.map, daysInMonth]
    split <;> rfl
  omega

theorem leapDay_le (year : Nat) : leapDay year ≤ 1 := by
  unfold leapDay
  split <;> decide

theorem leapDay_eq_zero {year : Nat} (h : year % 4 ≠ 0 ∨ year % 100 = 0 ∧ year % 400 ≠ 0) :
    leapDay year = 0 := by
  rw [leapDay, if_neg]
  simp only [isLeapYear, Bool.and_eq_true, Bool.or_eq_true, decide_eq_true_eq]
  omega

/-- **The year of a day** by the cycles of the calendar: only the last year of a cycle of four may
have a day more, and of the cycles of a hundred years only the fourth one has it. -/
theorem yearOfDay_eq {year n : Nat} (hyear : 1 ≤ year) (hn : n < 365 + leapDay year) :
    yearOfDay (daysBeforeYear year + (n + 1)) = year := by
  obtain ⟨y, rfl⟩ := Nat.exists_eq_add_of_le' hyear
  obtain ⟨a, b, c, t, hb, hc, ht, rfl⟩ : ∃ a b c t, b < 4 ∧ c < 25 ∧ t < 4 ∧
      y = a * 400 + b * 100 + c * 4 + t :=
    ⟨y / 400, y % 400 / 100, y % 100 / 4, y % 4, by omega, by omega, by omega, by omega⟩
  have hle := leapDay_le (a * 400 + b * 100 + c * 4 + t + 1)
  have hquad : t < 3 → n < 365 := fun h => by
    rw [leapDay_eq_zero (Or.inl (by omega))] at hn
    exact hn
  have hcentury : t = 3 → c = 24 → b < 3 → n < 365 := fun ht hc hb => by
    rw [leapDay_eq_zero (Or.inr ⟨by omega, by omega⟩)] at hn
    exact hn
  have hdays : daysBeforeYear (a * 400 + b * 100 + c * 4 + t + 1) + (n + 1) - 1
      = a * 146097 + (b * 36524 + (c * 1461 + (t * 365 + n))) := by
    unfold daysBeforeYear
    rw [Nat.add_sub_cancel]
    omega
  have h400 : (a * 146097 + (b * 36524 + (c * 1461 + (t * 365 + n)))) / 146097 = a ∧
      (a * 146097 + (b * 36524 + (c * 1461 + (t * 365 + n)))) % 146097
        = b * 36524 + (c * 1461 + (t * 365 + n)) :=
    (Nat.div_mod_unique (by decide)).mpr ⟨by omega, by omega⟩
  have h4 : (c * 1461 + (t * 365 + n)) / 1461 = c ∧
      (c * 1461 + (t * 365 + n)) % 1461 = t * 365 + n :=
    (Nat.div_mod_unique (by decide)).mpr ⟨by omega, by omega⟩
  have h100 : min 3 ((b * 36524 + (c * 1461 + (t * 365 + n))) / 36524) = b := by omega
  have h1 : min 3 ((t * 365 + n) / 365) = t := by
    rcases Nat.lt_or_eq_of_le (Nat.le_of_lt_succ ht) with ht | rfl
    · have hdiv := (Nat.div_mod_unique (by decide : 0 < 365)).mpr
        ⟨(Nat.add_comm n (365 * t)).trans (by rw [Nat.mul_comm]), hquad ht⟩
      rw [hdiv.1]
      exact Nat.min_eq_right (Nat.le_of_lt ht)
    · exact Nat.min_eq_left ((Nat.le_div_iff_mul_le (by decide)).mpr (Nat.le_add_right _ _))
  simp only [yearOfDay, hdays]
  rw [h400.1, h400.2, h100]
  have hcut := Nat.add_sub_cancel_left (n := b * 36524) (m := c * 1461 + (t * 365 + n))
  rw [hcut, h4.1, h4.2, h1]

/-- **A day is found back by its number.** -/
theorem ofDayNumber?_dayNumber (d : Date) : ofDayNumber? d.dayNumber = some d := by
  obtain ⟨hyear, -, hfirst, hlast, hpos, hday⟩ := d.isDay
  have hle := dayOfYear_le d
  obtain ⟨n, hn⟩ : ∃ n, daysBeforeMonth d.year d.month + d.day = n + 1 :=
    Nat.exists_eq_add_of_le' (by omega)
  have hnumber : d.dayNumber = daysBeforeYear d.year + (n + 1) := by
    rw [dayNumber, Nat.add_assoc, hn]
  have hback : yearOfDay d.dayNumber = d.year := by
    rw [hnumber]
    exact yearOfDay_eq hyear (by omega)
  have hmonth : monthAndDay d.year 12 1 (d.dayNumber - daysBeforeYear d.year - 1)
      = (d.month, d.day) := by
    have hrest : d.dayNumber - daysBeforeYear d.year - 1
        = daysBeforeMonth d.year d.month - daysBeforeMonth d.year 1 + (d.day - 1) := by
      have hzero : daysBeforeMonth d.year 1 = 0 := rfl
      omega
    rw [hrest]
    exact monthAndDay_eq hpos hday 12 1 (Nat.le_refl 1) hfirst (by omega)
  rw [ofDayNumber?, if_neg (by omega), hback]
  simp only [hmonth]
  exact ofParts?_self d

theorem dayNumber_bounds (d : Date) : 1 ≤ d.dayNumber ∧ d.dayNumber ≤ 3700000 := by
  obtain ⟨hyear, hlast, -, -, hpos, -⟩ := d.isDay
  have hle := dayOfYear_le d
  have hleap := leapDay_le d.year
  have hbefore : daysBeforeYear d.year ≤ 3660000 := by
    have hyears : d.year - 1 ≤ 9998 := by omega
    unfold daysBeforeYear
    omega
  unfold dayNumber
  omega

end Date

/-! ## Whole numbers as doubles -/

namespace Magnitude

/-- **A magnitude is not rounded**, however it is written as a quotient. -/
theorem ofRatio?_units (m : Magnitude) {d : Nat} (hd : 0 < d) :
    ofRatio? (m.units * d) d = some m := by
  have hgrid : gridExponent (m.units * d) d = m.units.log2 - 52 := by
    rw [gridExponent, Nat.mul_div_cancel _ hd]
  have hunits : roundDiv (m.units * d) (d * 2 ^ gridExponent (m.units * d) d)
      * 2 ^ gridExponent (m.units * d) d = m.units := by
    rw [hgrid]
    obtain ⟨q, hq⟩ := m.representable.2
    generalize m.units.log2 - 52 = k at hq ⊢
    have hsplit : m.units * d = q * (d * 2 ^ k) := by
      rw [hq, Nat.mul_comm (2 ^ k), Nat.mul_assoc, Nat.mul_comm (2 ^ k)]
    rw [hsplit, roundDiv_mul_self q (Nat.mul_pos hd (Nat.two_pow_pos k)), hq, Nat.mul_comm]
  unfold ofRatio?
  simp only [hunits, dif_pos m.representable.1]

/-- The magnitude of a whole number with at most 53 bits. -/
def whole (r : Nat) (h : r < 2 ^ (53 : Nat)) : Magnitude where
  units := r * unitsPerOne
  representable := by
    have hlimit : 2 ^ (53 : Nat) * unitsPerOne ≤ unitsLimit := by decide +kernel
    exact ⟨Nat.lt_of_lt_of_le (Nat.mul_lt_mul_of_pos_right h unitsPerOne_pos) hlimit,
      dvd_of_le (Nat.le_of_lt h)⟩

theorem units_whole {r : Nat} (h : r < 2 ^ (53 : Nat)) : (whole r h).units = r * unitsPerOne := rfl

end Magnitude

namespace Binary64

attribute [local irreducible] unitsPerOne

theorem ofUnits_units (negative : Bool) (m : Magnitude) {d : Nat} (hd : 0 < d) :
    ofUnits negative (m.units * d) d = .finite negative m :=
  ofUnits_of_ofRatio? (m.ofRatio?_units hd) negative

/-- A quotient that is a whole number of few bits, by its sign and size. -/
theorem ofRatio_whole {n : Int} {d : Nat} (h : n.natAbs < 2 ^ (53 : Nat)) (hd : 0 < d) :
    ofRatio (n * d) d = .finite (n < 0) (.whole n.natAbs h) := by
  have hsign : n * (d : Int) < 0 ↔ n < 0 := by
    have hd : (0 : Int) < d := Int.natCast_pos.mpr hd
    rw [← Int.zero_mul (d : Int), Int.mul_lt_mul_right hd]
    simp
  have hunits : (n * (d : Int)).natAbs * unitsPerOne = (Magnitude.whole n.natAbs h).units * d := by
    rw [Int.natAbs_mul, Int.natAbs_natCast, Nat.mul_right_comm]
    rfl
  rw [ofRatio, hunits, ofUnits_units _ _ hd]
  simp only [hsign]

theorem ofInt_whole {n : Int} (h : n.natAbs < 2 ^ (53 : Nat)) :
    ofInt n = .finite (n < 0) (.whole n.natAbs h) := by
  have hone := ofRatio_whole h Nat.one_pos
  rwa [Int.natCast_one, Int.mul_one] at hone

/-- **A quotient that is a whole number of few bits** is that number as a double. -/
theorem ofRatio_mul {n : Int} {d : Nat} (h : n.natAbs < 2 ^ (53 : Nat)) (hd : 0 < d) :
    ofRatio (n * d) d = ofInt n := by
  rw [ofRatio_whole h hd, ofInt_whole h]

/-- The signed units of a whole number. -/
theorem signedUnits_whole {n : Int} (h : n.natAbs < 2 ^ (53 : Nat)) :
    signedUnits (n < 0) (.whole n.natAbs h) = n * unitsPerOne := by
  rw [signedUnits, Magnitude.units_whole, Int.natCast_mul]
  by_cases hn : n < 0
  · rw [if_pos (decide_eq_true hn), ← Int.neg_mul]
    congr 1
    omega
  · rw [if_neg (by simpa using hn)]
    congr 1
    omega

theorem truncate?_ofInt {n : Int} (h : n.natAbs < 2 ^ (53 : Nat)) :
    (ofInt n).truncate? = some n := by
  have hpos : (unitsPerOne : Int) ≠ 0 := Int.natCast_ne_zero.mpr (Nat.ne_of_gt unitsPerOne_pos)
  rw [ofInt_whole h, truncate?, signedUnits_whole, Int.mul_tdiv_cancel _ hpos]

theorem ceil?_ofInt {n : Int} (h : n.natAbs < 2 ^ (53 : Nat)) : (ofInt n).ceil? = some n := by
  have hpos : (unitsPerOne : Int) ≠ 0 := Int.natCast_ne_zero.mpr (Nat.ne_of_gt unitsPerOne_pos)
  rw [ofInt_whole h, ceil?, signedUnits_whole, ← Int.neg_mul, Int.mul_fdiv_cancel _ hpos,
    Int.neg_neg]

theorem finite_mul_finite (s t : Bool) (m n : Magnitude) :
    finite s m * finite t n = ofUnits (s ^^ t) (m.units * n.units) unitsPerOne := by
  show mul (finite s m) (finite t n) = _
  rw [mul]

/-- **A product of whole numbers with few bits is exact.** -/
theorem ofInt_mul_ofInt {n : Int} {k : Nat} (hpos : 0 < k) (h : (n * k).natAbs < 2 ^ (53 : Nat))
    (hn : n.natAbs < 2 ^ (53 : Nat)) (hk : k < 2 ^ (53 : Nat)) :
    ofInt n * ofInt k = ofInt (n * k) := by
  have hunits : (Magnitude.whole n.natAbs hn).units * (Magnitude.whole k hk).units
      = (Magnitude.whole (n * k).natAbs h).units * unitsPerOne := by
    simp only [Magnitude.units_whole, Int.natAbs_mul, Int.natAbs_natCast]
    rw [Nat.mul_mul_mul_comm, Nat.mul_assoc (n.natAbs * k)]
  have hsign : n * (k : Int) < 0 ↔ n < 0 := by
    have hk : (0 : Int) < k := Int.natCast_pos.mpr hpos
    rw [← Int.zero_mul (k : Int), Int.mul_lt_mul_right hk]
    simp
  have hkwhole : ofInt k = .finite false (.whole k hk) := by
    rw [ofInt_whole (n := k) hk]
    rfl
  rw [ofInt_whole hn, hkwhole, ofInt_whole h, finite_mul_finite, hunits,
    ofUnits_units _ _ unitsPerOne_pos, Bool.xor_false]
  simp only [hsign]

theorem ofUnits_zero (negative : Bool) {d : Nat} (hd : 0 < d) :
    ofUnits negative 0 d = .finite negative (.whole 0 (by decide)) := by
  have hzero := ofUnits_units negative (.whole 0 (by decide)) hd
  rwa [Magnitude.units_whole, Nat.zero_mul, Nat.zero_mul] at hzero

/-- No part of zero units is a million times as much. -/
theorem ofUnits_zero_mul (s : Bool) (m : Magnitude) :
    ofUnits false 0 1 * .finite s m = .finite s (.whole 0 (by decide)) := by
  rw [ofUnits_zero false Nat.one_pos, finite_mul_finite, Magnitude.units_whole, Nat.zero_mul,
    Nat.zero_mul, ofUnits_zero _ unitsPerOne_pos, Bool.false_xor]

end Binary64

/-! ## Midnights on the time line -/

/-- The midnight at the start of a day in milliseconds since 1970 in UTC. -/
def Date.midnightMs (d : Date) : Int := ((d.dayNumber : Int) - Moment.epochDay) * 86400000

theorem Date.midnightMs_lt {a b : Date} : a.midnightMs < b.midnightMs ↔ a.lt b = true := by
  unfold midnightMs lt
  rw [decide_eq_true_iff]
  omega

namespace Moment

open Binary64

/-- The days since 1970 of a date. -/
def days (d : Date) : Int := (d.dayNumber : Int) - epochDay

theorem natAbs_days_le (d : Date) : (days d).natAbs ≤ 3000000 := by
  have hbounds := d.dayNumber_bounds
  have hepoch : (epochDay : Int) = 719163 := rfl
  unfold days
  omega

/-- The seconds of a midnight have few bits. -/
theorem natAbs_daySeconds_lt (d : Date) : (days d * 86400).natAbs < 2 ^ (53 : Nat) := by
  have hdays := natAbs_days_le d
  omega

theorem natAbs_midnightMs_lt (d : Date) : d.midnightMs.natAbs < 2 ^ (53 : Nat) := by
  have hdays := natAbs_days_le d
  unfold Date.midnightMs
  unfold days at hdays
  omega

theorem seconds_midnight (d : Date) :
    (midnight d (some 0)).seconds = .ok (ofInt (days d * 86400)) := by
  have hmicros : (midnight d (some 0)).micros = days d * 86400 * (1000000 : Nat) := by
    simp only [micros, midnight, dayMicros, days, Option.getD_some]
    omega
  have hinstant : (midnight d (some 0)).instant = .ok (midnight d (some 0)).micros := rfl
  rw [seconds, hinstant, hmicros, Except.map, ofRatio_mul (natAbs_daySeconds_lt d) (by decide)]

/-- **The milliseconds of a midnight are exact.** -/
theorem epochMs_midnight (d : Date) : (midnight d (some 0)).epochMs = .ok d.midnightMs := by
  have hproduct : days d * 86400 * (1000 : Nat) = d.midnightMs := by
    unfold Date.midnightMs days
    omega
  have hthousand : ofInt (days d * 86400) * ofInt 1000 = ofInt d.midnightMs := by
    rw [← hproduct]
    refine ofInt_mul_ofInt (by decide) ?_ (natAbs_daySeconds_lt d) (by decide)
    rw [hproduct]
    exact natAbs_midnightMs_lt d
  rw [epochMs, seconds_midnight, Except.map, hthousand, truncate?_ofInt (natAbs_midnightMs_lt d),
    Option.getD_some]

theorem splitSeconds_ofInt {n : Int} (h : n.natAbs < 2 ^ (53 : Nat)) :
    splitSeconds (ofInt n) = some (n, 0) := by
  have hthousand : ofInt 1000000 = .finite false (.whole 1000000 (by decide)) :=
    ofInt_whole (n := 1000000) (by decide)
  have hrest : ofUnits false ((Magnitude.whole n.natAbs h).units % unitsPerOne) 1
      * ofInt 1000000 = .finite false (.whole 0 (by decide)) := by
    rw [Magnitude.units_whole, Nat.mul_mod_left, hthousand, ofUnits_zero_mul]
  have hround : roundDiv (Magnitude.whole 0 (by decide)).units unitsPerOne = 0 := by
    have hpos := unitsPerOne_pos
    simp [Magnitude.units_whole, roundDiv, hpos]
  have hwhole : ((Magnitude.whole n.natAbs h).units : Int) / unitsPerOne = n.natAbs := by
    rw [Magnitude.units_whole, Int.natCast_mul, Int.mul_ediv_cancel]
    exact Int.natCast_ne_zero.mpr (Nat.ne_of_gt unitsPerOne_pos)
  rw [ofInt_whole h]
  simp only [splitSeconds, hrest, hround, hwhole]
  by_cases hn : n < 0
  · have habs : (n.natAbs : Int) = -n := by omega
    simp only [hn, decide_true, if_true, habs, Int.neg_neg]
    rfl
  · have habs : (n.natAbs : Int) = n := by omega
    simp only [hn, decide_false, Bool.false_eq_true, if_false, habs]
    rfl

theorem ofSeconds_of_splitSeconds {x : Binary64} {s us : Int} {m : Moment}
    (hsplit : splitSeconds x = some (s, us)) (hfew : s.natAbs < 2 ^ (53 : Nat))
    (hlow : -67768040609740800 ≤ s) (hhigh : s ≤ 67768036191676799)
    (hmicros : ofMicros? (s * 1000000 + us) = some m) : ofSeconds x = .ok m := by
  rw [ofSeconds, hsplit]
  dsimp only
  rw [if_neg (by omega), if_neg (by omega), hmicros]

theorem ofMicros?_midnight (d : Date) :
    ofMicros? (days d * dayMicros) = some (midnight d (some 0)) := by
  have hpos : (dayMicros : Int) ≠ 0 := by decide
  have hbounds := d.dayNumber_bounds
  have hday : days d + epochDay = d.dayNumber := Int.sub_add_cancel _ _
  simp only [ofMicros?, Int.mul_fdiv_cancel _ hpos, Int.mul_fmod_left, hday]
  rw [if_neg (by omega), Int.toNat_natCast, Date.ofDayNumber?_dayNumber, Option.bind_some]
  rfl

/-- **The milliseconds of a midnight lead back to it.** -/
theorem ofEpochMs_midnight (d : Date) :
    ofEpochMs d.midnightMs = .ok (midnight d (some 0)) := by
  have hfew := natAbs_daySeconds_lt d
  have hbounds := natAbs_days_le d
  have hseconds : d.midnightMs = days d * 86400 * (1000 : Nat) := by
    unfold Date.midnightMs days
    omega
  have hmicros : days d * 86400 * 1000000 + 0 = days d * dayMicros := by
    unfold dayMicros
    omega
  rw [ofEpochMs, hseconds, ofRatio_mul hfew (by decide)]
  refine ofSeconds_of_splitSeconds (splitSeconds_ofInt hfew) hfew (by omega) (by omega) ?_
  rw [hmicros, ofMicros?_midnight]

end Moment

theorem wholeCeil_ofInt {n : Int} (h : n.natAbs < 2 ^ (53 : Nat)) :
    wholeCeil (Binary64.ofInt n) = .ok n := by
  rw [wholeCeil, Binary64.ceil?_ofInt h]

/-- **The days between two midnights are exact.** -/
theorem durationDays_midnight (a b : Date) :
    durationDays a.midnightMs b.midnightMs = .ok ((b.dayNumber : Int) - a.dayNumber) := by
  have ha := a.dayNumber_bounds
  have hb := b.dayNumber_bounds
  have hdays : b.midnightMs - a.midnightMs
      = ((b.dayNumber : Int) - a.dayNumber) * (86400000 : Nat) := by
    unfold Date.midnightMs
    omega
  have hlt : ((b.dayNumber : Int) - a.dayNumber).natAbs < 2 ^ (53 : Nat) := by omega
  rw [durationDays, hdays, Binary64.ofRatio_mul hlt (by decide), wholeCeil_ofInt hlt]

end Taskboard
