import Mathlib.Data.Nat.Log
import Taskboard.Proofs.Number.Shortest

/-!
# Proofs/Number/Monotone — rounding keeps order and stays near

A quotient is rounded on the grid of its own binade.  A greater quotient of the same binade is
rounded on the same grid, and one of a later binade is at least the power of two where the earlier
binade ends, so rounding never swaps two quotients.

* `Magnitude.roundedUnits_mono` — the units of a greater quotient are no fewer.
* `Magnitude.roundedUnits_near` — they are half a step of the grid away at most.
* `Binary64.ratioPlace_mono` — **a greater quotient has no lesser place among the doubles.**
-/

namespace Taskboard

-- powers are those of the naturals, also where an importing module knows other ones
attribute [local instance (high)] instPowNat

/-! ## The nearest integer -/

/-- A greater number is rounded to no lesser quotient. -/
theorem roundDiv_mono {n m : Nat} (d : Nat) (h : n ≤ m) : roundDiv n d ≤ roundDiv m d := by
  rcases Nat.lt_or_eq_of_le (Nat.div_le_div_right (c := d) h) with hlt | heq
  · exact Nat.le_trans (roundDiv_le n d) (Nat.le_trans hlt (div_le_roundDiv m d))
  · have hmod : n % d ≤ m % d := by
      have hn := Nat.div_add_mod n d
      have hm := Nat.div_add_mod m d
      rw [heq] at hn
      omega
    unfold roundDiv
    rw [heq]
    repeat' split
    all_goals omega

/-- A rounded quotient is half a divisor off at most. -/
theorem roundDiv_near (n : Nat) {d : Nat} (hd : 0 < d) :
    2 * (roundDiv n d * d) ≤ 2 * n + d ∧ 2 * n ≤ 2 * (roundDiv n d * d) + d := by
  have hsplit : n / d * d + n % d = n := Nat.div_add_mod' n d
  have hrest : n % d < d := Nat.mod_lt n hd
  unfold roundDiv
  repeat' split
  all_goals
    try rw [Nat.add_mul, Nat.one_mul]
    omega

/-! ## Magnitudes -/

namespace Magnitude

variable {n m d : Nat}

/-- The units that a quotient is rounded to. -/
def roundedUnits (n d : Nat) : Nat :=
  roundDiv n (d * 2 ^ gridExponent n d) * 2 ^ gridExponent n d

theorem units_of_ofRatio? {size : Magnitude} (h : ofRatio? n d = some size) :
    size.units = roundedUnits n d := by
  unfold ofRatio? at h
  dsimp only at h
  split at h
  · exact congrArg Magnitude.units (Option.some.inj h).symm
  · cases h

theorem ofRatio?_isSome_iff : (ofRatio? n d).isSome ↔ roundedUnits n d < unitsLimit := by
  unfold ofRatio? roundedUnits
  dsimp only
  split <;> simp_all

theorem gridExponent_mono (h : n ≤ m) : gridExponent n d ≤ gridExponent m d := by
  rw [gridExponent, gridExponent, Nat.log2_eq_log_two, Nat.log2_eq_log_two]
  exact Nat.sub_le_sub_right (Nat.log_mono_right (Nat.div_le_div_right h)) 52

/-- On a grid that is not the finest one, no quotient is below the first power of two. -/
theorem le_roundedUnits (h : gridExponent n d ≠ 0) :
    2 ^ (52 + gridExponent n d) ≤ roundedUnits n d := by
  have hlog : (n / d).log2 = 52 + gridExponent n d := by
    unfold gridExponent at h ⊢
    omega
  have hne : n / d ≠ 0 := fun hzero => by
    rw [hzero, Nat.log2_zero] at hlog
    omega
  have hquotient : 2 ^ (52 : Nat) ≤ n / d / 2 ^ gridExponent n d := by
    rw [Nat.le_div_iff_mul_le (Nat.two_pow_pos _), ← Nat.pow_add, ← hlog]
    exact Nat.log2_self_le hne
  rw [Nat.div_div_eq_div_mul] at hquotient
  rw [roundedUnits, Nat.pow_add]
  exact Nat.mul_le_mul_right _ (Nat.le_trans hquotient (div_le_roundDiv _ _))

/-- **A greater quotient is rounded to no fewer units.** -/
theorem roundedUnits_mono (h : n ≤ m) : roundedUnits n d ≤ roundedUnits m d := by
  rcases Nat.lt_or_eq_of_le (gridExponent_mono (d := d) h) with hlt | heq
  · calc roundedUnits n d
        ≤ 2 ^ (53 : Nat) * 2 ^ gridExponent n d := Nat.mul_le_mul_right _ (roundDiv_grid_le n d)
      _ = 2 ^ (52 + (gridExponent n d + 1)) := by
        rw [← Nat.pow_add, Nat.add_comm _ 1, ← Nat.add_assoc]
      _ ≤ 2 ^ (52 + gridExponent m d) :=
        Nat.pow_le_pow_right (by decide) (Nat.add_le_add_left hlt 52)
      _ ≤ roundedUnits m d :=
        le_roundedUnits (Nat.ne_of_gt (Nat.lt_of_le_of_lt (Nat.zero_le _) hlt))
  · rw [roundedUnits, roundedUnits, heq]
    exact Nat.mul_le_mul_right _ (roundDiv_mono _ h)

/-- **A rounded quotient is half a step of its grid off at most.** -/
theorem roundedUnits_near (n : Nat) (hd : 0 < d) :
    2 * (roundedUnits n d * d) ≤ 2 * n + d * 2 ^ gridExponent n d ∧
      2 * n ≤ 2 * (roundedUnits n d * d) + d * 2 ^ gridExponent n d := by
  have hnear := roundDiv_near n (Nat.mul_pos hd (Nat.two_pow_pos (gridExponent n d)))
  have hunits : roundDiv n (d * 2 ^ gridExponent n d) * (d * 2 ^ gridExponent n d)
      = roundedUnits n d * d := by
    rw [roundedUnits, Nat.mul_assoc, Nat.mul_comm d]
  rwa [hunits] at hnear

/-- **Quotients more than a step of the grid apart** are rounded apart. -/
theorem roundedUnits_lt {step : Nat} (hd : 0 < d) (hstep : d * 2 ^ gridExponent m d < step)
    (h : n + step ≤ m) : roundedUnits n d < roundedUnits m d := by
  have hbelow := (roundedUnits_near n hd).1
  have habove := (roundedUnits_near m hd).2
  have hgrid : d * 2 ^ gridExponent n d ≤ d * 2 ^ gridExponent m d :=
    Nat.mul_le_mul_left d (Nat.pow_le_pow_right (by decide) (gridExponent_mono (by omega)))
  exact Nat.lt_of_mul_lt_mul_right (a := d) (by omega)

end Magnitude

/-! ## Doubles -/

namespace Binary64

open Magnitude

variable {d : Nat}

/-- The place of units among the doubles: that of an infinity from the limit on. -/
def unitsPlace (n d : Nat) : Nat := min (roundedUnits n d) unitsLimit

/-- The place of a quotient among the doubles. -/
def ratioPlace (n : Int) (d : Nat) : Int :=
  if n < 0 then -(unitsPlace (n.natAbs * unitsPerOne) d : Int)
  else unitsPlace (n.natAbs * unitsPerOne) d

theorem unitsPlace_mono {n m : Nat} (h : n ≤ m) : unitsPlace n d ≤ unitsPlace m d := by
  have := roundedUnits_mono (d := d) h
  unfold unitsPlace
  omega

/-- Below the limit, a quotient is rounded to a finite double. -/
theorem exists_ofUnits (negative : Bool) {n : Nat} (h : roundedUnits n d < unitsLimit) :
    ∃ m : Magnitude, m.units = roundedUnits n d ∧ ofUnits negative n d = .finite negative m := by
  have hsome : (Magnitude.ofRatio? n d).isSome := ofRatio?_isSome_iff.mpr h
  obtain ⟨m, hm⟩ := Option.isSome_iff_exists.mp hsome
  exact ⟨m, units_of_ofRatio? hm, ofUnits_of_ofRatio? hm negative⟩

/-- From the limit on, a quotient is an infinity. -/
theorem ofUnits_of_le {negative : Bool} {n : Nat} (h : unitsLimit ≤ roundedUnits n d) :
    ofUnits negative n d = .infinite negative := by
  unfold ofUnits
  split
  next m hm =>
    have hlt := ofRatio?_isSome_iff.mp (Option.isSome_of_eq_some hm)
    exact absurd hlt (Nat.not_lt.mpr h)
  next => rfl

theorem place?_ofUnits_eq (negative : Bool) (n d : Nat) :
    (ofUnits negative n d).place?
      = some (if negative then -(unitsPlace n d : Int) else unitsPlace n d) := by
  unfold unitsPlace
  rcases Nat.lt_or_ge (roundedUnits n d) unitsLimit with hlt | hge
  · obtain ⟨m, hm, heq⟩ := exists_ofUnits negative hlt
    rw [heq, Nat.min_eq_left (Nat.le_of_lt hlt), ← hm]
    rfl
  · rw [ofUnits_of_le hge, Nat.min_eq_right hge]
    rfl

/-- A quotient has a place among the doubles. -/
theorem place?_ofRatio (n : Int) (d : Nat) : (ofRatio n d).place? = some (ratioPlace n d) := by
  rw [ofRatio, place?_ofUnits_eq, ratioPlace]
  simp only [decide_eq_true_eq]

/-- **A greater quotient has no lesser place.** -/
theorem ratioPlace_mono {a b : Int} (h : a ≤ b) : ratioPlace a d ≤ ratioPlace b d := by
  unfold ratioPlace
  split
  next ha =>
    split
    next hb =>
      have hle : b.natAbs * unitsPerOne ≤ a.natAbs * unitsPerOne :=
        Nat.mul_le_mul_right _ (by omega)
      have := unitsPlace_mono (d := d) hle
      omega
    next => omega
  next ha =>
    rw [if_neg (by omega)]
    have hle : a.natAbs * unitsPerOne ≤ b.natAbs * unitsPerOne :=
      Nat.mul_le_mul_right _ (by omega)
    have := unitsPlace_mono (d := d) hle
    omega

/-! ## Microseconds -/

/-- The microseconds within `2 ^ 33` seconds of 1970, from the year 1698 to the year 2241. -/
def nearMicros : Nat := 2 ^ (33 : Nat) * 1000000

/-- Microseconds near 1970 are rounded to units in less than their distance. -/
theorem unitsPlace_lt {a b : Nat} (h : a < b) (hb : b < nearMicros) :
    unitsPlace (a * unitsPerOne) 1000000 < unitsPlace (b * unitsPerOne) 1000000 := by
  have hless : b * unitsPerOne / 1000000 < 2 ^ (33 : Nat) * unitsPerOne := by
    rw [Nat.div_lt_iff_lt_mul (by decide), Nat.mul_right_comm]
    exact Nat.mul_lt_mul_of_pos_right hb unitsPerOne_pos
  have hgrid : gridExponent (b * unitsPerOne) 1000000 ≤ 1054 := by
    have hlog : (b * unitsPerOne / 1000000).log2 ≤ 1106 := by
      rcases Nat.eq_zero_or_pos (b * unitsPerOne / 1000000) with hzero | hpos
      · rw [hzero, Nat.log2_zero]
        exact Nat.zero_le _
      · have hpow : 2 ^ (33 : Nat) * unitsPerOne = 2 ^ (1107 : Nat) := by decide +kernel
        rw [hpow] at hless
        have hlog := (Nat.log2_lt (Nat.ne_of_gt hpos)).mpr hless
        exact Nat.le_of_lt_succ hlog
    unfold gridExponent
    omega
  have hstep : 1000000 * 2 ^ gridExponent (b * unitsPerOne) 1000000 < unitsPerOne :=
    Nat.lt_of_le_of_lt (Nat.mul_le_mul_left _ (Nat.pow_le_pow_right (by decide) hgrid))
      (by decide +kernel)
  have hfar : a * unitsPerOne + unitsPerOne ≤ b * unitsPerOne := by
    rw [← Nat.succ_mul]
    exact Nat.mul_le_mul_right _ h
  have hlimit : roundedUnits (b * unitsPerOne) 1000000 < unitsLimit :=
    Nat.lt_of_le_of_lt (roundedUnits_mono (Nat.mul_le_mul_right _ (Nat.le_of_lt hb)))
      (by decide +kernel : roundedUnits (nearMicros * unitsPerOne) 1000000 < unitsLimit)
  have hlt := roundedUnits_lt (by decide) hstep hfar
  rwa [unitsPlace, unitsPlace, Nat.min_eq_left (Nat.le_of_lt hlimit),
    Nat.min_eq_left (Nat.le_of_lt (Nat.lt_trans hlt hlimit))]

/-- **Near 1970 a clock tells every microsecond from the next one.** -/
theorem ratioPlace_lt {a b : Int} (h : a < b) (ha : a.natAbs < nearMicros)
    (hb : b.natAbs < nearMicros) : ratioPlace a 1000000 < ratioPlace b 1000000 := by
  have hless {m n : Nat} (hlt : m < n) (hn : n < nearMicros) :=
    Int.ofNat_lt.mpr (unitsPlace_lt hlt hn)
  unfold ratioPlace
  by_cases ha0 : a < 0
  · have hsize : (0 : Int) < unitsPlace (a.natAbs * unitsPerOne) 1000000 :=
      Int.lt_of_le_of_lt (Int.natCast_nonneg _) (hless (Int.natAbs_pos.mpr (by omega)) ha)
    rw [if_pos ha0]
    by_cases hb0 : b < 0
    · rw [if_pos hb0]
      exact Int.neg_lt_neg (hless (by omega) ha)
    · rw [if_neg hb0]
      exact Int.lt_of_lt_of_le (Int.neg_neg_of_pos hsize) (Int.natCast_nonneg _)
  · rw [if_neg ha0, if_neg (by omega)]
    exact hless (by omega) hb

end Binary64

end Taskboard
