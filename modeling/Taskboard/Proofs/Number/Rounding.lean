import Taskboard.Number.Shortest

/-!
# Proofs/Number/Rounding — what rounds to a magnitude

`Magnitude.covers` says by comparisons with the midpoints which quotients round to a magnitude, and
`Magnitude.ofRatio?` computes the rounding.  They agree:

* `Magnitude.ofRatio?_of_covers` — a quotient that a magnitude covers is rounded to it.

The grid that the rounding chooses is the one on which the magnitude lies, or the next finer one
where the magnitude is the least of its binade and the quotient lies below.
-/

namespace Taskboard

-- powers are those of the naturals, also where an importing module knows other ones
attribute [local instance (high)] instPowNat

/-- A whole number at most half a divisor away is the rounded quotient, if it is even in a tie. -/
theorem roundDiv_eq {n d q : Nat} (hd : 0 < d) (hlow : 2 * (d * q) ≤ 2 * n + d)
    (hhigh : 2 * n ≤ 2 * (d * q) + d)
    (htie : q % 2 = 1 → 2 * (d * q) < 2 * n + d ∧ 2 * n < 2 * (d * q) + d) : roundDiv n d = q := by
  have hsplit : d * (n / d) + n % d = n := Nat.div_add_mod n d
  have hrest : n % d < d := Nat.mod_lt n hd
  have hle : n / d ≤ q := by
    refine Nat.le_of_not_lt fun hlt => ?_
    have : d * (q + 1) ≤ d * (n / d) := Nat.mul_le_mul_left d hlt
    rw [Nat.mul_add, Nat.mul_one] at this
    omega
  have hge : q ≤ n / d + 1 := by
    refine Nat.le_of_not_lt fun hlt => ?_
    have : d * (n / d + 2) ≤ d * q := Nat.mul_le_mul_left d hlt
    rw [Nat.mul_add] at this
    omega
  rcases Nat.lt_or_eq_of_le hle with hlt | rfl
  · obtain rfl : q = n / d + 1 := Nat.le_antisymm hge hlt
    rw [Nat.mul_add, Nat.mul_one] at hlow hhigh htie
    unfold roundDiv
    repeat' split
    all_goals omega
  · unfold roundDiv
    repeat' split
    all_goals omega

namespace Magnitude

variable {m : Magnitude} {n d : Nat}

/-- The exponent of the step of a magnitude's grid. -/
def stepExponent (m : Magnitude) : Nat := m.units.log2 - 52

theorem step_eq (m : Magnitude) : m.step = 2 ^ m.stepExponent := rfl

theorem step_pos (m : Magnitude) : 0 < m.step := Nat.two_pow_pos _

/-- A magnitude is so many steps of its grid. -/
theorem step_mul_steps (m : Magnitude) : m.step * (m.units / m.step) = m.units :=
  Nat.mul_div_cancel' m.representable.2

theorem steps_lt (m : Magnitude) : m.units / m.step < 2 ^ (53 : Nat) := by
  rw [Nat.div_lt_iff_lt_mul m.step_pos, step_eq, ← Nat.pow_add]
  refine Nat.lt_of_lt_of_le Nat.lt_log2_self (Nat.pow_le_pow_right (by decide) ?_)
  unfold stepExponent
  omega

theorem step_le_units (h : m.units ≠ 0) : m.step ≤ m.units := by
  refine Nat.le_trans (Nat.pow_le_pow_right (by decide) ?_) (Nat.log2_self_le h)
  omega

/-- On a grid that is not the finest one a magnitude has all its leading bits. -/
theorem le_steps (h : m.stepExponent ≠ 0) : 2 ^ (52 : Nat) ≤ m.units / m.step := by
  have hlog : m.units.log2 = m.stepExponent + 52 := by unfold stepExponent at h ⊢; omega
  have hne : m.units ≠ 0 := by
    rintro h0
    rw [h0] at hlog
    simp at hlog
  rw [Nat.le_div_iff_mul_le m.step_pos, step_eq, ← Nat.pow_add, Nat.add_comm, ← hlog]
  exact Nat.log2_self_le hne

/-- A magnitude covers quotients at most half a step away, and those half a step away only if it is
an even step; below the least one of a binade half a step is of the finer grid. -/
structure Near (m : Magnitude) (n d : Nat) : Prop where
  low : 4 * m.units * d ≤ 4 * n + (if m.narrowBelow then m.step else 2 * m.step) * d
  high : 4 * n ≤ 4 * m.units * d + 2 * m.step * d
  tie : m.units / m.step % 2 = 1 →
    4 * m.units * d < 4 * n + (if m.narrowBelow then m.step else 2 * m.step) * d ∧
      4 * n < 4 * m.units * d + 2 * m.step * d

theorem lowWidth_le (h : m.units ≠ 0) :
    (if m.narrowBelow then m.step else 2 * m.step) ≤ 4 * m.units := by
  have := step_le_units h
  split <;> omega

theorem covers_iff (h : m.units ≠ 0) : m.covers n d = true ↔ m.Near n d := by
  have hwidth : m.lowQuarters * d + (if m.narrowBelow then m.step else 2 * m.step) * d
      = 4 * m.units * d := by
    rw [lowQuarters, ← Nat.add_mul, Nat.sub_add_cancel (lowWidth_le h)]
  have hhigh : m.highQuarters * d = 4 * m.units * d + 2 * m.step * d := by
    rw [highQuarters, Nat.add_mul]
  unfold covers
  rw [hhigh]
  split
  next heven =>
    simp only [Bool.and_eq_true, decide_eq_true_eq]
    exact ⟨fun h => ⟨by omega, h.2, fun hodd => by omega⟩,
      fun h => ⟨by have := h.low; omega, h.high⟩⟩
  next hodd =>
    simp only [Bool.and_eq_true, decide_eq_true_eq]
    constructor
    · exact fun h => ⟨by omega, by omega, fun _ => ⟨by omega, h.2⟩⟩
    · intro h
      have := h.tie (by omega)
      exact ⟨by omega, this.2⟩

theorem narrowBelow_of_steps (h : m.stepExponent ≠ 0) (hq : m.units / m.step = 2 ^ (52 : Nat)) :
    m.narrowBelow = true := by
  have hlog : m.units.log2 = 52 + m.stepExponent := by unfold stepExponent at h ⊢; omega
  have hunits : m.units = 2 ^ m.units.log2 := by
    rw [hlog, Nat.pow_add, ← step_eq, ← hq, Nat.mul_comm, step_mul_steps]
  simp only [narrowBelow, Bool.and_eq_true, decide_eq_true_eq, beq_iff_eq]
  exact ⟨by omega, hunits⟩

/-- The grid on which quotients between two powers of two are rounded. -/
theorem gridExponent_eq {e : Nat} (hlow : e = 0 ∨ 2 ^ (e + 52) * d ≤ n) (hd : 0 < d)
    (hhigh : n < 2 ^ (e + 53) * d) : gridExponent n d = e := by
  have hlt : n / d < 2 ^ (e + 53) := (Nat.div_lt_iff_lt_mul hd).2 hhigh
  have hlog : (n / d).log2 < e + 53 := by
    by_cases h0 : n / d = 0
    · simp [h0]
    · exact (Nat.log2_lt h0).2 hlt
  unfold gridExponent
  rcases hlow with rfl | hlow
  · omega
  · have hle : 2 ^ (e + 52) ≤ n / d := (Nat.le_div_iff_mul_le hd).2 hlow
    have h0 : n / d ≠ 0 := fun h => by
      rw [h] at hle
      exact absurd hle (Nat.not_le_of_lt (Nat.two_pow_pos _))
    have := (Nat.le_log2 h0).2 hle
    omega

/-- What `Near` says, counted in steps of the grid. -/
theorem Near.counted (h : m.Near n d) :
    4 * (m.units / m.step * (m.step * d))
        ≤ 4 * n + (if m.narrowBelow then m.step * d else 2 * (m.step * d)) ∧
      4 * n ≤ 4 * (m.units / m.step * (m.step * d)) + 2 * (m.step * d) ∧
      (m.units / m.step % 2 = 1 →
        4 * (m.units / m.step * (m.step * d))
            < 4 * n + (if m.narrowBelow then m.step * d else 2 * (m.step * d)) ∧
          4 * n < 4 * (m.units / m.step * (m.step * d)) + 2 * (m.step * d)) := by
  have hunits : 4 * m.units * d = 4 * (m.units / m.step * (m.step * d)) := by
    rw [← Nat.mul_assoc (m.units / m.step), Nat.mul_comm (m.units / m.step), step_mul_steps,
      Nat.mul_assoc]
  have hwide : 2 * m.step * d = 2 * (m.step * d) := Nat.mul_assoc _ _ _
  have hlow : (if m.narrowBelow then m.step else 2 * m.step) * d
      = if m.narrowBelow then m.step * d else 2 * (m.step * d) := by
    split <;> simp [hwide]
  rw [← hlow, ← hunits, ← hwide]
  exact ⟨h.low, h.high, h.tie⟩

/-- What a magnitude covers lies below the next binade. -/
theorem Near.lt_next (h : m.Near n d) (hd : 0 < d) : n < 2 ^ (m.stepExponent + 53) * d := by
  obtain ⟨-, hhigh, -⟩ := h.counted
  have hgrid : 0 < m.step * d := Nat.mul_pos m.step_pos hd
  have : (m.units / m.step + 1) * (m.step * d) ≤ 2 ^ (53 : Nat) * (m.step * d) :=
    Nat.mul_le_mul_right _ m.steps_lt
  rw [Nat.add_comm, Nat.pow_add, ← step_eq, Nat.mul_assoc]
  rw [Nat.succ_mul] at this
  omega

/-- In the binade of the magnitude, the grid is that of the magnitude. -/
theorem Near.round_within (h : m.Near n d) (hd : 0 < d)
    (habove : m.stepExponent = 0 ∨ 2 ^ (m.stepExponent + 52) * d ≤ n) :
    roundDiv n (d * 2 ^ gridExponent n d) * 2 ^ gridExponent n d = m.units := by
  obtain ⟨hlow, hhigh, htie⟩ := h.counted
  have hwidth : (if m.narrowBelow then m.step * d else 2 * (m.step * d)) ≤ 2 * (m.step * d) := by
    split <;> omega
  have hgrid : 0 < m.step * d := Nat.mul_pos m.step_pos hd
  rw [gridExponent_eq habove hd (h.lt_next hd), ← step_eq, Nat.mul_comm d,
    roundDiv_eq hgrid (q := m.units / m.step)]
  · rw [Nat.mul_comm, step_mul_steps]
  all_goals rw [Nat.mul_comm (m.step * d)]
  · omega
  · omega
  · intro hodd
    have := htie hodd
    omega

/-- Below the binade of the magnitude, which is then its least one, the grid is finer. -/
theorem Near.round_below (h : m.Near n d) (hd : 0 < d) (he : m.stepExponent ≠ 0)
    (hless : n < 2 ^ (m.stepExponent + 52) * d) :
    roundDiv n (d * 2 ^ gridExponent n d) * 2 ^ gridExponent n d = m.units := by
  obtain ⟨hlow, -, -⟩ := h.counted
  have hwidth : (if m.narrowBelow then m.step * d else 2 * (m.step * d)) ≤ 2 * (m.step * d) := by
    split <;> omega
  have hgrid : 0 < m.step * d := Nat.mul_pos m.step_pos hd
  rw [Nat.add_comm, Nat.pow_add, ← step_eq, Nat.mul_assoc] at hless
  have hq : m.units / m.step = 2 ^ (52 : Nat) := by
    refine Nat.le_antisymm (Nat.le_of_not_lt fun hlt => ?_) (le_steps he)
    have : (2 ^ (52 : Nat) + 1) * (m.step * d) ≤ m.units / m.step * (m.step * d) :=
      Nat.mul_le_mul_right _ hlt
    rw [Nat.succ_mul] at this
    omega
  rw [hq, if_pos (narrowBelow_of_steps he hq)] at hlow
  obtain ⟨e, hsucc⟩ := Nat.exists_eq_succ_of_ne_zero he
  have hstep : m.step * d = 2 * (d * 2 ^ e) := by
    rw [step_eq, hsucc, Nat.pow_succ, Nat.mul_comm, ← Nat.mul_assoc, Nat.mul_comm]
  rw [hstep] at hlow hless
  have hfine : 0 < d * 2 ^ e := Nat.mul_pos hd (Nat.two_pow_pos _)
  have hexp : gridExponent n d = e := by
    refine gridExponent_eq (.inr ?_) hd ?_
    · rw [Nat.add_comm, Nat.pow_add, Nat.mul_assoc, Nat.mul_comm (2 ^ e)]
      omega
    · rw [Nat.add_comm, Nat.pow_add, Nat.mul_assoc, Nat.mul_comm (2 ^ e)]
      omega
  rw [hexp, roundDiv_eq hfine (q := 2 ^ (53 : Nat)) (by omega) (by omega)
    (fun hodd => absurd hodd (by decide)), ← step_mul_steps, hq, step_eq, hsucc, Nat.pow_succ]
  omega

/-- **What a magnitude covers rounds to it.** -/
theorem Near.round (h : m.Near n d) (hd : 0 < d) :
    roundDiv n (d * 2 ^ gridExponent n d) * 2 ^ gridExponent n d = m.units := by
  by_cases habove : m.stepExponent = 0 ∨ 2 ^ (m.stepExponent + 52) * d ≤ n
  · exact h.round_within hd habove
  · obtain ⟨he, hless⟩ := not_or.1 habove
    exact h.round_below hd he (Nat.not_le.1 hless)

/-- **A quotient that a magnitude covers is rounded to it.** -/
theorem ofRatio?_of_covers (hm : m.units ≠ 0) (hd : 0 < d) (h : m.covers n d = true) :
    ofRatio? n d = some m := by
  have hround := ((covers_iff hm).1 h).round hd
  unfold ofRatio?
  simp only [hround, dif_pos m.representable.1]

end Magnitude

end Taskboard
