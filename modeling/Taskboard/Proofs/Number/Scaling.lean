import Taskboard.Proofs.Calendar.Midnight
import Taskboard.Proofs.Number.Monotone
import Taskboard.Proofs.Number.Rounding

/-!
# Proofs/Number/Scaling — quotients written in other ways

A quotient is rounded by its value, so numerator and denominator may be scaled together, and what
fits the grid is not rounded at all.  Below a power of two the grid is known, and with it how far
off a rounded quotient is.

* `Magnitude.roundedUnits_mul` — **rounding asks for a quotient only.**
* `Magnitude.roundedUnits_le_whole` — what is no more than a whole number stays so.
* `Magnitude.roundedUnits_close` — how far off a rounded quotient is below a power of two.
* `Binary64.ratioPlace_units` — the place of a double, as that of a quotient.
-/

namespace Taskboard

-- powers are those of the naturals, also where an importing module knows other ones
attribute [local instance (high)] instPowNat

/-! ## Scaling a quotient -/

/-- A rounded quotient does not depend on how it is written. -/
theorem roundDiv_mul (n d : Nat) {c : Nat} (hc : 0 < c) :
    roundDiv (n * c) (d * c) = roundDiv n d := by
  have hdiv : n * c / (d * c) = n / d := Nat.mul_div_mul_right n d hc
  have hmod : n * c % (d * c) = n % d * c := Nat.mul_mod_mul_right c n d
  have hassoc : 2 * (n % d * c) = 2 * (n % d) * c := (Nat.mul_assoc _ _ _).symm
  simp only [roundDiv, hdiv, hmod, hassoc, Nat.mul_lt_mul_right hc]

/-- Multiples less than one apart are the same. -/
theorem eq_of_mul_near {a b c : Nat} (hlow : 2 * (b * c) < 2 * (a * c) + 2 * c)
    (hhigh : 2 * (a * c) < 2 * (b * c) + 2 * c) : a = b := by
  have hle {x y : Nat} (h : 2 * (x * c) < 2 * (y * c) + 2 * c) : x ≤ y := by
    refine Nat.le_of_lt_succ (Nat.lt_of_mul_lt_mul_right (a := c) ?_)
    rw [Nat.succ_mul]
    omega
  exact Nat.le_antisymm (hle hhigh) (hle hlow)

namespace Magnitude

variable {n d c e : Nat}

/-- **Rounding asks for a quotient only.** -/
theorem roundedUnits_mul (n d : Nat) (hc : 0 < c) :
    roundedUnits (n * c) (d * c) = roundedUnits n d := by
  have hgrid : gridExponent (n * c) (d * c) = gridExponent n d := by
    rw [gridExponent, gridExponent, Nat.mul_div_mul_right n d hc]
  rw [roundedUnits, hgrid, Nat.mul_right_comm d, roundDiv_mul _ _ hc]
  rfl

/-- A magnitude is not rounded. -/
theorem roundedUnits_units (m : Magnitude) (hd : 0 < d) : roundedUnits (m.units * d) d = m.units :=
  (units_of_ofRatio? (m.ofRatio?_units hd)).symm

theorem roundedUnits_zero (d : Nat) : roundedUnits 0 d = 0 := by
  simp [roundedUnits, roundDiv]

/-- **What is no more than a whole number** is rounded to no more. -/
theorem roundedUnits_le_whole {k : Nat} (hk : k < 2 ^ (53 : Nat)) (hd : 0 < d)
    (h : n ≤ k * unitsPerOne * d) : roundedUnits n d ≤ k * unitsPerOne :=
  Nat.le_trans (roundedUnits_mono h) (Nat.le_of_eq (roundedUnits_units (.whole k hk) hd))

theorem whole_lt_limit {k : Nat} (hk : k < 2 ^ (53 : Nat)) : k * unitsPerOne < unitsLimit :=
  (whole k hk).representable.1

/-! ## Grids -/

/-- A whole number of units with some bits more than the 53 that count. -/
theorem roundedUnits_bits {n : Nat} (grid more : Nat) (hlow : 2 ^ (more + 52) ≤ n)
    (hhigh : n < 2 ^ (more + 53)) :
    roundedUnits (n * 2 ^ grid) 1 = roundDiv n (2 ^ more) * 2 ^ more * 2 ^ grid := by
  have hpow (k : Nat) : 2 ^ (more + grid + k) * 1 = 2 ^ (more + k) * 2 ^ grid := by
    rw [Nat.mul_one, ← Nat.pow_add]
    congr 1
    omega
  have hgrid : gridExponent (n * 2 ^ grid) 1 = more + grid := by
    refine gridExponent_eq (.inr ?_) Nat.one_pos ?_
    · rw [hpow]
      exact Nat.mul_le_mul_right _ hlow
    · rw [hpow]
      exact Nat.mul_lt_mul_of_pos_right hhigh (Nat.two_pow_pos grid)
  rw [roundedUnits, hgrid, Nat.one_mul, Nat.pow_add, roundDiv_mul _ _ (Nat.two_pow_pos grid),
    Nat.mul_assoc]

/-- Quotients below a power of two are rounded on a grid that is fine enough for it. -/
theorem gridExponent_le (hd : 0 < d) (h : n < 2 ^ (e + 53) * d) : gridExponent n d ≤ e := by
  have hlt : n / d < 2 ^ (e + 53) := (Nat.div_lt_iff_lt_mul hd).mpr h
  unfold gridExponent
  rcases Nat.eq_zero_or_pos (n / d) with hzero | hpos
  · rw [hzero, Nat.log2_zero]
    omega
  · have := (Nat.log2_lt (Nat.ne_of_gt hpos)).mpr hlt
    omega

/-- **They are half a step of that grid off at most.** -/
theorem roundedUnits_close (hd : 0 < d) (h : n < 2 ^ (e + 53) * d) :
    2 * (roundedUnits n d * d) ≤ 2 * n + d * 2 ^ e ∧
      2 * n ≤ 2 * (roundedUnits n d * d) + d * 2 ^ e := by
  have hnear := roundedUnits_near n hd
  have hgrid : d * 2 ^ gridExponent n d ≤ d * 2 ^ e :=
    Nat.mul_le_mul_left d (Nat.pow_le_pow_right (by decide) (gridExponent_le hd h))
  omega

/-- A magnitude of many bits lies on a coarse grid. -/
theorem le_step {m : Magnitude} (h : e + 52 ≤ m.units.log2) : 2 ^ e ≤ m.step := by
  rw [step_eq, stepExponent]
  exact Nat.pow_le_pow_right (by decide) (by omega)

end Magnitude

/-! ## Doubles -/

namespace Binary64

/-- Units that are rounded alike are one double. -/
theorem ofUnits_congr {negative : Bool} {n d k e : Nat}
    (h : Magnitude.roundedUnits n d = Magnitude.roundedUnits k e) :
    ofUnits negative n d = ofUnits negative k e := by
  rcases Nat.lt_or_ge (Magnitude.roundedUnits n d) unitsLimit with hlt | hge
  · obtain ⟨⟨units, _⟩, hleft, hn⟩ := exists_ofUnits negative hlt
    obtain ⟨⟨units', _⟩, hright, hk⟩ := exists_ofUnits negative (h ▸ hlt)
    obtain rfl : units = units' := hleft.trans (h.trans hright.symm)
    rw [hn, hk]
  · rw [ofUnits_of_le hge, ofUnits_of_le (h ▸ hge)]

/-- A double without its fraction, by its sign and size. -/
theorem truncate?_finite (negative : Bool) (m : Magnitude) :
    (finite negative m).truncate?
      = some (if negative then -((m.units / unitsPerOne : Nat) : Int)
        else (m.units / unitsPerOne : Nat)) := by
  rw [truncate?, signedUnits]
  split
  · rw [Int.neg_tdiv]
    rfl
  · rfl

/-- The place of a quotient does not depend on how it is written. -/
theorem ratioPlace_mul (n : Int) (d : Nat) {c : Nat} (hc : 0 < c) :
    ratioPlace (n * c) (d * c) = ratioPlace n d := by
  have hsign : n * (c : Int) < 0 ↔ n < 0 := by
    have hc : (0 : Int) < c := Int.natCast_pos.mpr hc
    rw [← Int.zero_mul (c : Int), Int.mul_lt_mul_right hc]
    simp
  have hunits : (n * (c : Int)).natAbs * unitsPerOne = n.natAbs * unitsPerOne * c := by
    rw [Int.natAbs_mul, Int.natAbs_natCast, Nat.mul_right_comm]
  simp only [ratioPlace, unitsPlace, hsign, hunits, Magnitude.roundedUnits_mul _ _ hc]

/-- **A double has the place of its units.** -/
theorem ratioPlace_units (negative : Bool) (m : Magnitude) :
    ratioPlace (signedUnits negative m) unitsPerOne = signedUnits negative m := by
  have hsize : (signedUnits negative m).natAbs = m.units := by
    cases negative <;> simp [signedUnits]
  have hplace : unitsPlace (m.units * unitsPerOne) unitsPerOne = m.units := by
    rw [unitsPlace, m.roundedUnits_units unitsPerOne_pos,
      Nat.min_eq_left (Nat.le_of_lt m.representable.1)]
  rw [ratioPlace, hsize, hplace]
  cases negative with
  | false =>
    have hle : ¬ signedUnits false m < 0 := Int.not_lt.mpr (Int.natCast_nonneg _)
    rw [if_neg hle]
    rfl
  | true =>
    rcases Nat.eq_zero_or_pos m.units with hzero | hpos
    · simp [signedUnits, hzero]
    · have hlt : signedUnits true m < 0 := Int.neg_neg_of_pos (Int.natCast_pos.mpr hpos)
      rw [if_pos hlt]
      rfl

/-- A whole number has the place of its units. -/
theorem ratioPlace_whole (n : Int) :
    ratioPlace (n * unitsPerOne) unitsPerOne = ratioPlace n 1 := by
  have hscaled := ratioPlace_mul n 1 unitsPerOne_pos
  rwa [Nat.one_mul] at hscaled

/-- A whole number with at most 53 bits is not rounded. -/
theorem ratioPlace_natCast {k : Nat} (hk : k < 2 ^ (53 : Nat)) :
    ratioPlace k 1 = (k * unitsPerOne : Nat) := by
  have hplace := ratioPlace_units false (.whole k hk)
  rw [← ratioPlace_whole, ← Int.natCast_mul]
  exact hplace

theorem ratioPlace_one : ratioPlace 1 1 = unitsPerOne :=
  (ratioPlace_natCast (k := 1) (by decide)).trans (congrArg Nat.cast (Nat.one_mul unitsPerOne))

theorem ratioPlace_bounds (n : Int) (d : Nat) :
    -(unitsLimit : Int) ≤ ratioPlace n d ∧ ratioPlace n d ≤ unitsLimit := by
  have hle : unitsPlace (n.natAbs * unitsPerOne) d ≤ unitsLimit := Nat.min_le_right _ _
  unfold ratioPlace
  split <;> omega

end Binary64

end Taskboard
