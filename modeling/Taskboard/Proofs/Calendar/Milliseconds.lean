import Taskboard.Proofs.Calendar.Thousandth
import Taskboard.Value.Time

/-!
# Proofs/Calendar/Milliseconds — which milliseconds a clock gives back

A number of milliseconds becomes a double of seconds, then a moment with microseconds, and the
moment becomes a double of seconds again.  The two doubles are the same.  Up to `2 ^ 33` seconds
doubles lie so close together that the microseconds of the first one are those of the milliseconds;
from there on they lie so far apart that its microseconds, whatever they are, are closest to it.  So
the milliseconds that come back are those that a thousandth and a thousandfold leave
(`Proofs/Calendar/Thousandth`).

* `Moment.partMicros_near` — the microseconds of a part of a second, with all their roundings.
* `Moment.roundedUnits_secondMicros` — **microseconds lead back to the seconds they were made of.**
* `Moment.milliseconds_come_back` — **which milliseconds come back**, and as what the others do.
-/

namespace Taskboard

-- powers are those of the naturals, also where an importing module knows other ones
attribute [local instance (high)] instPowNat

namespace Moment

open Magnitude

/-! ## Powers of two -/

/-- The exponent of the step of doubles from one half to one. -/
def grainExponent : Nat := 1021

/-- What a double of one half or more is a multiple of. -/
def grain : Nat := 2 ^ grainExponent

theorem grain_pos : 0 < grain := Nat.two_pow_pos _

theorem two_pow_grain (k : Nat) : 2 ^ (grainExponent + k) = 2 ^ k * grain := by
  rw [Nat.pow_add, Nat.mul_comm, grain]

theorem unitsPerOne_eq : unitsPerOne = 2 ^ (53 : Nat) * grain := by
  have hbits : grainExponent + 53 = 1074 := rfl
  rw [← two_pow_grain, hbits, unitsPerOne]

attribute [local irreducible] unitsPerOne grain grainExponent

/-- How far off a rounded quotient is below a power of two. -/
theorem roundedUnits_grain {n d : Nat} (k : Nat) (hd : 0 < d)
    (h : n < 2 ^ (k + 53) * grain * d) :
    2 * (roundedUnits n d * d) ≤ 2 * n + d * (2 ^ k * grain) ∧
      2 * n ≤ 2 * (roundedUnits n d * d) + d * (2 ^ k * grain) := by
  rw [← two_pow_grain, ← Nat.add_assoc] at h
  rw [← two_pow_grain]
  exact roundedUnits_close hd h

/-! ## Microseconds of a second -/

/-- The microseconds of a part of a second are half a microsecond off, and very little more for the
rounding of the product. -/
theorem partMicros_near {u : Nat} (h : u < unitsPerOne) :
    2 * (partMicros u * unitsPerOne)
        ≤ 2 * (u * 1000000) + (unitsPerOne + 2 ^ (21 : Nat) * grain) ∧
      2 * (u * 1000000)
        ≤ 2 * (partMicros u * unitsPerOne) + (unitsPerOne + 2 ^ (21 : Nat) * grain) := by
  have hunit := unitsPerOne_eq
  have hfew := (fraction_le (Nat.le_of_lt h)).1
  have hfirst := roundedUnits_grain (n := u) (d := 1) 0 Nat.one_pos (by omega)
  have hsecond := roundedUnits_grain (n := roundedUnits u 1 * 1000000) (d := 1) 20 Nat.one_pos
    (by omega)
  have hthird := roundDiv_near (roundedUnits (roundedUnits u 1 * 1000000) 1) unitsPerOne_pos
  have hsame : partMicros u
      = roundDiv (roundedUnits (roundedUnits u 1 * 1000000) 1) unitsPerOne := by
    rw [partMicros, ← Nat.mul_assoc,
      ← roundedUnits_mul (roundedUnits u 1 * 1000000) 1 unitsPerOne_pos, Nat.one_mul]
  rw [← hsame] at hthird
  omega

/-- **So are those of any number of seconds.** -/
theorem secondMicros_near (units : Nat) :
    2 * (secondMicros units * unitsPerOne)
        ≤ 2 * (units * 1000000) + (unitsPerOne + 2 ^ (21 : Nat) * grain) ∧
      2 * (units * 1000000)
        ≤ 2 * (secondMicros units * unitsPerOne) + (unitsPerOne + 2 ^ (21 : Nat) * grain) := by
  have hpart := partMicros_near (Nat.mod_lt units unitsPerOne_pos)
  have hsplit : units = units / unitsPerOne * unitsPerOne + units % unitsPerOne :=
    (Nat.div_add_mod' units unitsPerOne).symm
  have hmicros : secondMicros units * unitsPerOne
      = units / unitsPerOne * unitsPerOne * 1000000
        + partMicros (units % unitsPerOne) * unitsPerOne := by
    rw [secondMicros, Nat.add_mul, Nat.mul_right_comm]
  omega

/-! ## Microseconds of milliseconds -/

/-- **Up to `2 ^ 33` seconds a number of milliseconds has its microseconds.** -/
theorem secondMicros_msUnits {ms : Nat} (h : ms < 2 ^ (33 : Nat) * 1000) :
    secondMicros (msUnits ms) = ms * 1000 := by
  have hunit := unitsPerOne_eq
  have hpos := unitsPerOne_pos
  have hfew : ms * unitsPerOne < 2 ^ (33 : Nat) * 1000 * unitsPerOne :=
    Nat.mul_lt_mul_of_pos_right h hpos
  have hbelow : ms * unitsPerOne < 2 ^ (33 + 53 : Nat) * grain * 1000 := by
    generalize unitsPerOne = u at hunit hfew ⊢
    omega
  have hseconds := roundedUnits_grain 33 (by decide) hbelow
  have hmicros := secondMicros_near (msUnits ms)
  rw [← msUnits] at hseconds
  have hproduct : ms * 1000 * unitsPerOne = 1000 * (ms * unitsPerOne) := by
    rw [Nat.mul_right_comm, Nat.mul_comm]
  refine eq_of_mul_near (c := unitsPerOne) ?_ ?_ <;> omega

/-- Whole seconds are rounded back from their microseconds. -/
theorem secondMicros_whole {units : Nat} (h : units % unitsPerOne = 0) :
    secondMicros units * unitsPerOne = units * 1000000 := by
  have hzero : partMicros 0 = 0 := by simp [partMicros, roundedUnits_zero, roundDiv]
  have hsplit := Nat.div_add_mod' units unitsPerOne
  rw [h, Nat.add_zero] at hsplit
  rw [secondMicros, h, hzero, Nat.add_zero, Nat.mul_right_comm, hsplit]

/-- **From `2 ^ 33` seconds on the doubles are so far apart** that their microseconds lead back to
them. -/
theorem roundedUnits_secondMicros_far {m : Magnitude} (h : 2 ^ (33 : Nat) * unitsPerOne ≤ m.units) :
    roundedUnits (secondMicros m.units * unitsPerOne) 1000000 = m.units := by
  rcases Nat.eq_zero_or_pos (m.units % unitsPerOne) with hwhole | hpart
  · rw [secondMicros_whole hwhole, roundedUnits_units m (by decide)]
  have hunit := unitsPerOne_eq
  have hgrain := grain_pos
  have hnear := secondMicros_near m.units
  have hbits : 2 ^ (grainExponent + 86) ≤ m.units := by
    rw [two_pow_grain]
    omega
  have hne : m.units ≠ 0 := Nat.ne_of_gt (Nat.lt_of_lt_of_le (Nat.two_pow_pos _) hbits)
  have hlog : grainExponent + 86 ≤ m.units.log2 := (Nat.le_log2 hne).mpr hbits
  have hwide : m.narrowBelow = false := by
    have hdvd : unitsPerOne ∣ 2 ^ m.units.log2 := by
      rw [unitsPerOne_eq, ← two_pow_grain]
      exact Nat.pow_dvd_pow 2 (by omega)
    simp only [narrowBelow, Bool.and_eq_false_iff, beq_eq_false_iff_ne]
    refine .inr fun heq => absurd (Nat.mod_eq_zero_of_dvd (heq ▸ hdvd)) (Nat.ne_of_gt hpart)
  have hstep : 2 ^ (34 : Nat) * grain ≤ m.step := by
    rw [← two_pow_grain]
    exact le_step (by omega)
  have hround : m.Near (secondMicros m.units * unitsPerOne) 1000000 := by
    have hlow : 4 * m.units * 1000000 < 4 * (secondMicros m.units * unitsPerOne)
        + (if m.narrowBelow then m.step else 2 * m.step) * 1000000 := by
      rw [hwide, if_neg Bool.false_ne_true]
      omega
    exact ⟨Nat.le_of_lt hlow, by omega, fun _ => ⟨hlow, by omega⟩⟩
  exact hround.round (by decide)

/-- **The microseconds of a number of milliseconds** are as many seconds as the milliseconds. -/
theorem roundedUnits_secondMicros {ms : Nat} (h : msUnits ms < unitsLimit) :
    roundedUnits (secondMicros (msUnits ms) * unitsPerOne) 1000000 = msUnits ms := by
  rcases Nat.lt_or_ge ms (2 ^ (33 : Nat) * 1000) with hnear | hfar
  · have hunits : secondMicros (msUnits ms) * unitsPerOne = ms * unitsPerOne * 1000 := by
      rw [secondMicros_msUnits hnear, Nat.mul_right_comm]
    rw [hunits, roundedUnits_mul (ms * unitsPerOne) 1000 (by decide : 0 < 1000), msUnits]
  · obtain ⟨m, hm, -⟩ := Binary64.exists_ofUnits false h
    have hmany : msUnits (2 ^ (33 : Nat) * 1000) = 2 ^ (33 : Nat) * unitsPerOne := by
      rw [msUnits, Nat.mul_right_comm]
      exact roundedUnits_units (.whole (2 ^ (33 : Nat)) (by decide)) (by decide)
    rw [← msUnits] at hm
    rw [← hm, roundedUnits_secondMicros_far]
    rw [hm, ← hmany]
    exact roundedUnits_mono (Nat.mul_le_mul_right _ hfar)

/-! ## From milliseconds to a moment and back -/

/-- The moment at a number of microseconds, in UTC. -/
theorem micros_of_ofMicros? {us : Int} {t : Moment} (h : ofMicros? us = some t) :
    t.offset = some 0 ∧ t.micros = us := by
  have hepoch : (epochDay : Int) = 719163 := rfl
  have hdays : us.fdiv dayMicros = us / 86400000000 := Int.fdiv_eq_ediv_of_nonneg _ (by decide)
  have hclock : us.fmod dayMicros = us % 86400000000 := Int.fmod_eq_emod_of_nonneg _ (by decide)
  simp only [ofMicros?, hdays, hclock, hepoch] at h
  split at h
  next => cases h
  next hday =>
    obtain ⟨d, hd, h⟩ := Option.bind_eq_some_iff.mp h
    obtain ⟨hpos, hlast⟩ := Date.exists_ofDayNumber?_iff.mp ⟨d, hd⟩
    obtain ⟨e, he⟩ := Date.exists_dayNumber hpos hlast
    obtain rfl : d = e := by
      rw [← he, Date.ofDayNumber?_dayNumber] at hd
      exact (Option.some.inj hd).symm
    split at h
    next =>
      obtain rfl := Option.some.inj h
      refine ⟨rfl, ?_⟩
      have hday : (dayMicros : Int) = 86400000000 := rfl
      simp only [micros, he, hepoch, hday, Option.getD_some]
      omega
    next => cases h

/-- What clocks show of seconds lies at their microseconds. -/
theorem ofMicros?_of_ofSeconds {x : Binary64} {s us : Int} {t : Moment}
    (hsplit : splitSeconds x = some (s, us)) (h : ofSeconds x = .ok t) :
    ofMicros? (s * 1000000 + us) = some t := by
  rw [ofSeconds, hsplit] at h
  dsimp only at h
  split at h
  next => cases h
  next =>
    split at h
    next => cases h
    next =>
      cases hmicros : ofMicros? (s * 1000000 + us) with
      | none =>
        rw [hmicros] at h
        cases h
      | some m =>
        rw [hmicros] at h
        exact congrArg some (Except.ok.inj h)

/-- No milliseconds but zero are no microseconds. -/
theorem secondMicros_pos {ms : Nat} (h : 0 < ms) : 0 < secondMicros (msUnits ms) := by
  have hone : secondMicros (msUnits 1) = 1 * 1000 := secondMicros_msUnits (by decide)
  have hmono : secondMicros (msUnits 1) ≤ secondMicros (msUnits ms) := secondMicros_msUnits_mono h
  omega

/-- The microseconds of a double of milliseconds, with their sign. -/
theorem splitSeconds_thousand {ms : Int} (h : InYears ms) : ∃ s us : Int,
    splitSeconds (Binary64.ofRatio ms 1000) = some (s, us) ∧
      (s * 1000000 + us).natAbs = secondMicros (msUnits ms.natAbs) ∧
        (s * 1000000 + us < 0 ↔ ms < 0) := by
  rw [inYears_iff] at h
  rcases ofRatio_thousand ms with ⟨m, hunits, hseconds⟩ | ⟨hmany, -⟩
  · have hsplit := splitSeconds_finite (decide (ms < 0)) m
    have hlimit : msUnits ms.natAbs < unitsLimit := hunits ▸ m.representable.1
    rw [hseconds, hsplit, ← hunits, secondMicros]
    by_cases hneg : ms < 0
    · have hpos : 0 < secondMicros (msUnits ms.natAbs) := secondMicros_pos (by omega)
      rw [← hunits, secondMicros] at hpos
      rw [if_pos (decide_eq_true hneg)]
      generalize m.units / unitsPerOne = whole at hpos ⊢
      exact ⟨_, _, rfl, by omega, by omega⟩
    · rw [if_neg (by rwa [decide_eq_true_eq])]
      generalize m.units / unitsPerOne = whole
      exact ⟨_, _, rfl, by omega, by omega⟩
  · exact absurd hmany (by omega)

/-- **The moment at a number of milliseconds has the double that they were turned into.** -/
theorem seconds_of_ofEpochMs {ms : Int} {t : Moment} (h : ofEpochMs ms = .ok t) :
    t.seconds = .ok (Binary64.ofRatio ms 1000) := by
  have hyears : InYears ms := exists_ofEpochMs_iff.mp ⟨t, h⟩
  obtain ⟨s, us, hsplit, hsize, hsign⟩ := splitSeconds_thousand hyears
  obtain ⟨hoffset, hmicros⟩ := micros_of_ofMicros? (ofMicros?_of_ofSeconds hsplit h)
  have hinstant : t.instant = .ok (s * 1000000 + us) := by
    rw [instant, hoffset, hmicros]
    rfl
  have hlimit : msUnits ms.natAbs < unitsLimit := msUnits_lt (by
    rw [inYears_iff] at hyears
    omega)
  rw [seconds, hinstant, Except.map, Binary64.ofRatio, Binary64.ofRatio, hsize,
    Binary64.ofUnits_congr (roundedUnits_secondMicros hlimit)]
  simp only [hsign]

/-- **Milliseconds that went through seconds**: those that lose one are one closer to 1970. -/
def throughSeconds (ms : Int) : Int := if LosesOne ms.natAbs then ms - ms.sign else ms

theorem throughSeconds_eq (ms : Int) : throughSeconds ms =
    if ms < 0 then -((if LosesOne ms.natAbs then ms.natAbs - 1 else ms.natAbs : Nat) : Int)
    else (if LosesOne ms.natAbs then ms.natAbs - 1 else ms.natAbs : Nat) := by
  unfold throughSeconds
  rcases Int.lt_trichotomy ms 0 with hneg | rfl | hpos
  · rw [if_pos hneg, Int.sign_eq_neg_one_of_neg hneg]
    split <;> omega
  · decide
  · rw [if_neg (Int.not_lt.mpr (Int.le_of_lt hpos)), Int.sign_eq_one_of_pos hpos]
    split <;> omega

/-- What loses nothing comes back as it is, and else it does not. -/
theorem throughSeconds_eq_self_iff {ms : Int} :
    throughSeconds ms = ms ↔ ¬ LosesOne ms.natAbs := by
  unfold throughSeconds
  split
  next hlost =>
    have hne : ms ≠ 0 := fun hzero => by
      rw [hzero] at hlost
      exact absurd hlost (by decide)
    have hsign : ms.sign ≠ 0 := mt Int.sign_eq_zero_iff_zero.mp hne
    exact iff_of_false (by omega) (not_not_intro hlost)
  next hkept => exact iff_of_true rfl hkept

/-- **The milliseconds of a moment with so many seconds.** -/
theorem epochMs_of_seconds {m : Moment} {ms : Int} (hms : ms.natAbs < 2 ^ (48 : Nat))
    (h : m.seconds = .ok (Binary64.ofRatio ms 1000)) : m.epochMs = .ok (throughSeconds ms) := by
  have hfew : msUnits ms.natAbs ≤ 2 ^ (39 : Nat) * unitsPerOne := by
    refine roundedUnits_le_whole (by decide) (by decide) ?_
    rw [Nat.mul_right_comm]
    exact Nat.mul_le_mul_right _ (by omega)
  have hmany : roundedUnits (msUnits ms.natAbs * (1000 * unitsPerOne)) unitsPerOne
      ≤ 2 ^ (39 : Nat) * 1000 * unitsPerOne := by
    refine roundedUnits_le_whole (by decide) unitsPerOne_pos ?_
    rw [← Nat.mul_assoc (msUnits ms.natAbs), Nat.mul_right_comm (2 ^ (39 : Nat))]
    exact Nat.mul_le_mul_right _ (Nat.mul_le_mul_right _ hfew)
  obtain ⟨s, hs, hseconds⟩ := Binary64.exists_ofUnits (ms < 0)
    (Nat.lt_of_le_of_lt hfew (whole_lt_limit (by decide)))
  have hthousand : Binary64.ofInt 1000 = .finite false (.whole 1000 (by decide)) :=
    Binary64.ofInt_whole (n := 1000) (by decide)
  obtain ⟨p, hp, hproduct⟩ := Binary64.exists_ofUnits (ms < 0)
    (Nat.lt_of_le_of_lt hmany (whole_lt_limit (by decide)))
  have hwhole : (Binary64.finite (ms < 0) p).truncate? = some (throughSeconds ms) := by
    rw [Binary64.truncate?_finite, hp, thousandfold_div hms, throughSeconds_eq]
    simp only [decide_eq_true_eq]
  rw [Binary64.ofRatio, hseconds] at h
  rw [epochMs, h, Except.map, hthousand, Binary64.finite_mul_finite, hs, units_whole,
    Bool.xor_false, ← msUnits, hproduct, hwhole]
  rfl

/-! ## Moments with a whole number of milliseconds -/

/-- A thousand times as many microseconds are as many seconds. -/
theorem seconds_of_instant {m : Moment} {ms : Int} (h : m.instant = .ok (ms * 1000)) :
    m.seconds = .ok (Binary64.ofRatio ms 1000) := by
  have hsign : ms * 1000 < 0 ↔ ms < 0 := by omega
  have hunits : (ms * 1000).natAbs * unitsPerOne = ms.natAbs * unitsPerOne * 1000 := by
    rw [Int.natAbs_mul, Nat.mul_right_comm]
    rfl
  rw [seconds, h, Except.map, Binary64.ofRatio, Binary64.ofRatio, hunits,
    Binary64.ofUnits_congr (roundedUnits_mul (ms.natAbs * unitsPerOne) 1000 (by decide : 0 < 1000))]
  simp only [hsign]

/-- Whatever its offset, a moment has no more milliseconds than have 48 bits. -/
theorem natAbs_of_instant {m : Moment} {ms : Int} (h : m.instant = .ok (ms * 1000)) :
    ms.natAbs < 2 ^ (48 : Nat) := by
  unfold instant at h
  split at h
  next hoffset =>
    have hmicros := Except.ok.inj h
    have hdate := m.date.dayNumber_bounds
    have hclock := m.clock_lt
    have hepoch : (epochDay : Int) = 719163 := rfl
    have hday : (dayMicros : Int) = 86400000000 := rfl
    rw [offsetInRange, decide_eq_true_eq] at hoffset
    simp only [micros, hepoch, hday] at hmicros
    omega
  next => cases h

/-- From a power of two to a thousand times another one, no millisecond is lost. -/
theorem not_losesOne_of_between {ms : Nat} (hlow : 2 ^ (40 : Nat) ≤ ms)
    (hhigh : ms < 1000 * 2 ^ (31 : Nat)) : ¬ LosesOne ms := by
  have hlog : ms.log2 = 40 := by
    refine Nat.le_antisymm ?_ ((Nat.le_log2 (by omega)).mpr hlow)
    exact Nat.le_of_lt_succ ((Nat.log2_lt (by omega)).mpr (by omega))
  intro hlost
  have hbits := hlost.1
  rw [bits62, hlog] at hbits
  omega

theorem seconds_withOffset (m : Moment) : m.withOffset.seconds = m.seconds := rfl

/-- What a moment with so many seconds counts in milliseconds. -/
theorem epochMs?_of_seconds {m : Moment} {ms : Int} (hms : ms.natAbs < 2 ^ (48 : Nat))
    (h : m.seconds = .ok (Binary64.ofRatio ms 1000)) :
    (Value.moment m).epochMs? = .ok (some (throughSeconds ms)) := by
  have hcount := epochMs_of_seconds hms ((seconds_withOffset m).trans h)
  simp only [Value.epochMs?, Value.moment?, hcount, Except.map]

/-- **Which milliseconds a clock gives back.**  A calendar shows the milliseconds of its years.
Those that do not lose one on their way through seconds come back from the moment it shows, and from
any other moment of theirs, whatever its offset; those that do come back as one less, closer to
1970.  Between November 2004 and January 2038 all come back. -/
theorem milliseconds_come_back (ms : Int) :
    ((∃ t, ofEpochMs ms = .ok t) ↔ InYears ms) ∧
      (∀ t, ofEpochMs ms = .ok t → (Value.moment t).epochMs? = .ok (some (throughSeconds ms))) ∧
      (∀ m : Moment, m.instant = .ok (ms * 1000) →
        (Value.moment m).epochMs? = .ok (some (throughSeconds ms))) ∧
      (throughSeconds ms = ms ↔ ¬ LosesOne ms.natAbs) ∧
      (2 ^ (40 : Nat) ≤ ms → ms < 1000 * 2 ^ (31 : Nat) → throughSeconds ms = ms) := by
  refine ⟨exists_ofEpochMs_iff, fun t ht => ?_, fun m hm => ?_, throughSeconds_eq_self_iff,
    fun hlow hhigh => throughSeconds_eq_self_iff.mpr (not_losesOne_of_between ?_ ?_)⟩
  · have hyears := inYears_iff.mp (exists_ofEpochMs_iff.mp ⟨t, ht⟩)
    exact epochMs?_of_seconds (by omega) (seconds_of_ofEpochMs ht)
  · exact epochMs?_of_seconds (natAbs_of_instant hm) (seconds_of_instant hm)
  · omega
  · omega

/-- A moment of the year 2020, two hours ahead of UTC. -/
def newYear : Moment := ⟨⟨2020, 1, 1, by decide⟩, 7200123000, by decide, some 7200⟩

theorem newYear_comes_back :
    newYear.instant = .ok (1577836800123 * 1000) ∧
      (Value.moment newYear).epochMs? = .ok (some 1577836800123) := by
  have hinstant : newYear.instant = .ok (1577836800123 * 1000) := by decide
  obtain ⟨-, -, hmoment, -, hkept⟩ := milliseconds_come_back 1577836800123
  refine ⟨hinstant, ?_⟩
  rw [hmoment newYear hinstant, hkept (by decide) (by decide)]

/-- **A second and a millisecond of 1970 come back without the millisecond**: the seconds are just
below 1.001, a thousand times as much is below 1001, and its fraction is cut off. -/
theorem millisecond_is_lost : ∃ t, ofEpochMs 1001 = .ok t ∧ t.instant = .ok (1001 * 1000) ∧
    (Value.moment t).epochMs? = .ok (some 1000) :=
  ⟨⟨⟨1970, 1, 1, by decide⟩, 1001000, by decide, some 0⟩, by decide +kernel, by decide +kernel,
    by decide +kernel⟩

end Moment

end Taskboard
