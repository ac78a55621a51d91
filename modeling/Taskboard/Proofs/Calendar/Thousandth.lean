import Taskboard.Proofs.Calendar.Years

/-!
# Proofs/Calendar/Thousandth — milliseconds as seconds and back

Milliseconds are divided by a thousand, which is rounded to a double of seconds, and these are taken
a thousand times, which is rounded again.  The first rounding is off by half a step of the seconds
at most, and by a thousand times as much behind the product.  Milliseconds have a step of their own
that is mostly more than twice that, so the second rounding makes up for the first.  It is less
where the milliseconds are just above a thousand times a power of two and have not reached the next
power of two yet; there the product may stay below them, and without its fraction it is one less
(`LosesOne`).

* `Magnitude.roundedUnits_thousandth` — the seconds of milliseconds.
* `roundDiv_fine`, `roundDiv_coarse` — where the second rounding makes up for the first.
* `Moment.thousandfold_div` — **what is left of a number of milliseconds.**
-/

namespace Taskboard

-- powers are those of the naturals, also where an importing module knows other ones
attribute [local instance (high)] instPowNat

/-! ## Thousandths on their grid -/

namespace Magnitude

/-- A thousandth of a number of 62 bits or so has the 53 bits that count. -/
theorem roundedUnits_thousandth {n : Nat} (grid : Nat) (hlow : 2 ^ (52 : Nat) * 1000 ≤ n)
    (hhigh : n < 2 ^ (53 : Nat) * 1000) :
    roundedUnits (n * 2 ^ grid) 1000 = roundDiv n 1000 * 2 ^ grid := by
  have hpow (k : Nat) : 2 ^ (grid + k) * 1000 = 2 ^ k * 1000 * 2 ^ grid := by
    rw [Nat.pow_add, Nat.mul_comm (2 ^ grid), Nat.mul_right_comm]
  have hgrid : gridExponent (n * 2 ^ grid) 1000 = grid := by
    refine gridExponent_eq (.inr ?_) (by decide) ?_
    · rw [hpow]
      exact Nat.mul_le_mul_right _ hlow
    · rw [hpow]
      exact Nat.mul_lt_mul_of_pos_right hhigh (Nat.two_pow_pos grid)
  rw [roundedUnits, hgrid, roundDiv_mul _ _ (Nat.two_pow_pos grid)]

end Magnitude

/-! ## A thousand times the nearest thousandth

The numbers here are multiples of 1024, so no thousandth lies in the middle between two. -/

/-- A thousand times the nearest thousandth is off by what a division leaves. -/
theorem roundDiv_thousand {n : Nat} (h : n % 1024 = 0) :
    n % 1000 < 500 ∧ roundDiv n 1000 * 1000 + n % 1000 = n ∨
      500 < n % 1000 ∧ roundDiv n 1000 * 1000 + n % 1000 = n + 1000 := by
  have hsplit := Nat.div_add_mod n 1000
  unfold roundDiv
  split
  next hlow => exact .inl ⟨by omega, by omega⟩
  next hlow =>
    rw [if_pos (by omega)]
    exact .inr ⟨by omega, by omega⟩

/-- What is no less than a multiple of a step is rounded to no less. -/
theorem le_roundDiv_mul {n s step : Nat} (hstep : step ∣ n) (h : n ≤ s) :
    n ≤ roundDiv s step * step := by
  obtain ⟨k, rfl⟩ := hstep
  rcases Nat.eq_zero_or_pos step with rfl | hpos
  · simp
  · have hle : k ≤ s / step := (Nat.le_div_iff_mul_le hpos).mpr (Nat.mul_comm step k ▸ h)
    rw [Nat.mul_comm]
    exact Nat.mul_le_mul_right step (Nat.le_trans hle (div_le_roundDiv s step))

variable {k s r : Nat}

/-- Where numbers lie 512 apart, the thousandfold is rounded back unless the thousandth was rounded
down by more than a quarter of its step. -/
theorem roundDiv_fine (hs : r < 500 ∧ s + r = 1024 * k ∨ 500 < r ∧ s + r = 1024 * k + 1000)
    (hr : r < 1000) :
    if 256 < r ∧ r < 500 then roundDiv s 512 * 512 + 512 = 1024 * k
    else 1024 * k ≤ roundDiv s 512 * 512 ∧ roundDiv s 512 * 512 ≤ 1024 * k + 1024 := by
  have hnear := (roundDiv_near s (by decide : 0 < 512)).1
  split
  next hlost =>
    have hround : roundDiv s 512 = 2 * k - 1 :=
      roundDiv_eq (by decide) (by omega) (by omega) fun _ => ⟨by omega, by omega⟩
    omega
  next hkept =>
    refine ⟨?_, by omega⟩
    rcases Nat.lt_or_ge s (1024 * k) with hless | hge
    · have hround : roundDiv s 512 = 2 * k :=
        roundDiv_eq (by decide) (by omega) (by omega) fun hodd => by omega
      omega
    · exact le_roundDiv_mul ⟨2 * k, by omega⟩ hge

/-- Where they lie 1024 apart, it always is. -/
theorem roundDiv_coarse (hs : r < 500 ∧ s + r = 1024 * k ∨ 500 < r ∧ s + r = 1024 * k + 1000)
    (hr : r < 1000) :
    1024 * k ≤ roundDiv s 1024 * 1024 ∧ roundDiv s 1024 * 1024 ≤ 1024 * k + 1024 := by
  have hnear := (roundDiv_near s (by decide : 0 < 1024)).1
  refine ⟨?_, by omega⟩
  rcases Nat.lt_or_ge s (1024 * k) with hless | hge
  · have hround : roundDiv s 1024 = k :=
      roundDiv_eq (by decide) (by omega) (by omega) fun _ => ⟨by omega, by omega⟩
    omega
  · exact le_roundDiv_mul ⟨k, rfl⟩ hge

/-! ## Milliseconds -/

namespace Moment

open Magnitude

/-- A number shifted until it has 62 bits. -/
def bits62 (ms : Nat) : Nat := ms * 2 ^ (61 - ms.log2)

/-- **A number of milliseconds that loses one on its way through seconds**: with 62 bits it lies
between a thousand times a power of two and the next power of two, and the nearest thousandth of it
is more than a quarter of a thousandth below it. -/
def LosesOne (ms : Nat) : Prop :=
  1000 * 2 ^ (52 : Nat) ≤ bits62 ms ∧ 256 < bits62 ms % 1000 ∧ bits62 ms % 1000 < 500

instance (ms : Nat) : Decidable (LosesOne ms) := by unfold LosesOne; infer_instance

/-- The seconds of milliseconds that have so many binary places, taken a thousand times. -/
theorem thousandfold_eq (more step : Nat) {ms n places : Nat} (hn : ms * 2 ^ places = n)
    (hplaces : places ≤ 1074) (hstep : 2 ^ more = step) (hlow : 2 ^ (52 : Nat) * 1000 ≤ n)
    (hhigh : n < 2 ^ (53 : Nat) * 1000) (hslow : 2 ^ (more + 52) ≤ roundDiv n 1000 * 1000)
    (hshigh : roundDiv n 1000 * 1000 < 2 ^ (more + 53)) :
    roundedUnits (msUnits ms * (1000 * unitsPerOne)) unitsPerOne / unitsPerOne
      = roundDiv (roundDiv n 1000 * 1000) step * step / 2 ^ places := by
  subst hstep
  have hunit : unitsPerOne = 2 ^ places * 2 ^ (1074 - places) := by
    rw [← Nat.pow_add, Nat.add_sub_cancel' hplaces]
    rfl
  have hms : msUnits ms = roundDiv n 1000 * 2 ^ (1074 - places) := by
    rw [msUnits, hunit, ← Nat.mul_assoc, hn, roundedUnits_thousandth _ hlow hhigh]
  have hproduct : msUnits ms * (1000 * unitsPerOne)
      = roundDiv n 1000 * 1000 * 2 ^ (1074 - places) * unitsPerOne := by
    rw [hms, Nat.mul_right_comm (roundDiv n 1000) 1000, Nat.mul_assoc _ 1000]
  have hround := roundedUnits_mul (roundDiv n 1000 * 1000 * 2 ^ (1074 - places)) 1 unitsPerOne_pos
  rw [Nat.one_mul, roundedUnits_bits _ _ hslow hshigh] at hround
  rw [hproduct, hround, hunit, Nat.mul_div_mul_right _ _ (Nat.two_pow_pos _)]

/-- A positive number of less than 48 bits, shifted until it has 62 bits. -/
theorem bits62_bounds {ms : Nat} (hpos : 0 < ms) (h : ms < 2 ^ (48 : Nat)) :
    2 ^ (61 : Nat) ≤ bits62 ms ∧ bits62 ms < 2 ^ (62 : Nat) := by
  have hlog : ms.log2 < 48 := (Nat.log2_lt (Nat.ne_of_gt hpos)).mpr h
  have hpow (k : Nat) : 2 ^ (61 + k) = 2 ^ (ms.log2 + k) * 2 ^ (61 - ms.log2) := by
    rw [← Nat.pow_add]
    congr 1
    omega
  refine ⟨?_, ?_⟩
  · rw [bits62, hpow 0]
    exact Nat.mul_le_mul_right _ (Nat.log2_self_le (Nat.ne_of_gt hpos))
  · rw [bits62, hpow 1]
    exact Nat.mul_lt_mul_of_pos_right Nat.lt_log2_self (Nat.two_pow_pos _)

/-- The whole part of what lies a little above a number of milliseconds. -/
theorem div_of_kept {ms p x : Nat} (hlow : ms * p ≤ x) (hhigh : x < ms * p + p) : x / p = ms :=
  Nat.div_eq_of_lt_le hlow (by rwa [Nat.succ_mul])

/-- The whole part of what lies a little below it. -/
theorem div_of_lost {ms p x gap : Nat} (hpos : 0 < ms) (hx : x + gap = ms * p) (hgap : 0 < gap)
    (hless : gap ≤ p) : x / p = ms - 1 := by
  obtain ⟨k, rfl⟩ : ∃ k, ms = k + 1 := ⟨ms - 1, by omega⟩
  rw [Nat.succ_mul] at hx
  rw [Nat.add_sub_cancel]
  exact div_of_kept (by omega) (by omega)

/-- **What is left of a number of milliseconds** that went through seconds: one less if it loses
one, and else the same. -/
theorem thousandfold_div {ms : Nat} (h : ms < 2 ^ (48 : Nat)) :
    roundedUnits (msUnits ms * (1000 * unitsPerOne)) unitsPerOne / unitsPerOne
      = if LosesOne ms then ms - 1 else ms := by
  rcases Nat.eq_zero_or_pos ms with rfl | hpos
  · simp [msUnits, roundedUnits_zero]
  obtain ⟨hlow, hhigh⟩ := bits62_bounds hpos h
  obtain ⟨k, hplaces⟩ : ∃ k, 61 - ms.log2 = k + 14 := by
    have hlog : ms.log2 < 48 := (Nat.log2_lt (Nat.ne_of_gt hpos)).mpr h
    exact ⟨47 - ms.log2, by omega⟩
  have hpow : 2 ^ (61 - ms.log2) = 1024 * (16 * 2 ^ k) := by
    rw [hplaces, Nat.pow_add, Nat.mul_comm, ← Nat.mul_assoc]
  have hn : bits62 ms = 1024 * (ms * (16 * 2 ^ k)) := by
    rw [bits62, hpow, Nat.mul_left_comm]
  have hfar : 1024 < 2 ^ (61 - ms.log2) := by
    have := Nat.two_pow_pos k
    omega
  have hmod := Nat.mod_lt (bits62 ms) (by decide : 0 < 1000)
  rcases Nat.lt_or_ge (bits62 ms) (1000 * 2 ^ (52 : Nat)) with hcoarse | hfine
  · have htwice : ms * 2 ^ (61 - ms.log2 + 1) = 2 * bits62 ms := by
      rw [Nat.pow_succ, ← Nat.mul_assoc, Nat.mul_comm, bits62]
    have hs := roundDiv_thousand (n := 2 * bits62 ms) (by omega)
    have hmod := Nat.mod_lt (2 * bits62 ms) (by decide : 0 < 1000)
    have hround := roundDiv_coarse (k := 2 * (ms * (16 * 2 ^ k)))
      (by rwa [Nat.mul_left_comm, ← hn]) hmod
    rw [thousandfold_eq 10 1024 htwice (by omega) (by decide) (by omega)
      (by omega) (by omega) (by omega), if_neg fun hlost => absurd hlost.1 (by omega)]
    refine div_of_kept ?_ ?_ <;> omega
  · have hs := roundDiv_thousand (n := bits62 ms) (by omega)
    have hround := roundDiv_fine (hn ▸ hs) (hn ▸ hmod)
    rw [thousandfold_eq 9 512 (n := bits62 ms) rfl (by omega) (by decide)
      (by omega) (by omega) (by omega) (by omega)]
    rw [← hn] at hround
    by_cases hlost : LosesOne ms
    · rw [if_pos hlost]
      rw [if_pos hlost.2] at hround
      exact div_of_lost hpos hround (by decide) (by omega)
    · rw [if_neg hlost]
      rw [if_neg fun hbits => hlost ⟨hfine, hbits⟩] at hround
      exact div_of_kept hround.1 (by rw [← bits62]; omega)

end Moment

end Taskboard
