import Taskboard.Proofs.Number.Rounding

/-!
# Proofs/Number/Shortest — the shortest decimal reads back

* `Magnitude.shortest_covered` — the decimal of a magnitude rounds to it.
* `Binary64.ofDecimal_of_covered` — any decimal that rounds to a magnitude is read as it, and so is
  every other way to write that decimal (`Magnitude.Covered.scale`).

Seventeen digits suffice because the decimal grid below them is finer than a quarter of the binary
one (`Magnitude.covered_floor`).
-/

namespace Taskboard

-- powers are those of the naturals, also where an importing module knows other ones
attribute [local instance (high)] instPowNat

theorem unitsPerOne_pos : 0 < unitsPerOne := by decide +kernel

theorem unitsPerOne_le : unitsPerOne ≤ 10 ^ (400 : Nat) := by decide +kernel

/-! ## Powers of ten -/

/-- The whole part of a power of ten: one where the exponent is negative. -/
def tens (e : Int) : Nat := 10 ^ e.toNat

theorem tens_pos (e : Int) : 0 < tens e := Nat.pow_pos (by decide)

theorem tens_of_neg {e : Int} (h : e ≤ 0) : tens e = 1 := by
  rw [tens, Int.toNat_of_nonpos h, Nat.pow_zero]

/-- A power of ten is the quotient of its whole part and that of its inverse. -/
theorem tens_add (e : Int) (k : Nat) :
    tens (e + k) * tens (-e) = 10 ^ k * tens e * tens (-(e + k)) := by
  unfold tens
  rw [← Nat.pow_add, ← Nat.pow_add, ← Nat.pow_add]
  congr 1
  omega

/-- A power of ten is at least another one, with the parts below the point brought across. -/
theorem pow_mul_tens_le {e : Int} {k c : Nat} (h : k ≤ e + c) :
    10 ^ k * tens (-e) ≤ 10 ^ c * tens e := by
  rw [tens, tens, ← Nat.pow_add, ← Nat.pow_add]
  exact Nat.pow_le_pow_right (by decide) (by omega)

/-- The leading digit of a number counts. -/
theorem pow_digitCount_le {b n : Nat} (hb : 2 ≤ b) (hn : 0 < n) : b ^ (digitCount b n - 1) ≤ n := by
  induction n using Nat.strongRecOn with
  | ind n ih =>
    rw [digitCount, dif_pos ⟨hb, hn⟩, Nat.add_sub_cancel]
    by_cases hq : n / b = 0
    · rw [hq, digitCount, dif_neg (by omega)]
      exact hn
    · have hq := Nat.pos_of_ne_zero hq
      have hcount : digitCount b (n / b) ≠ 0 := by
        rw [digitCount, dif_pos ⟨hb, hq⟩]
        omega
      calc b ^ digitCount b (n / b)
          = b ^ (digitCount b (n / b) - 1) * b := by
            rw [← Nat.pow_succ, Nat.succ_eq_add_one, Nat.sub_add_cancel (by omega)]
        _ ≤ n / b * b := Nat.mul_le_mul_right b (ih _ (Nat.div_lt_self hn hb) hq)
        _ ≤ n := Nat.div_mul_le_self n b

/-- A number has no more digits than those that count. -/
theorem lt_pow_digitCount {b : Nat} (hb : 2 ≤ b) (n : Nat) : n < b ^ digitCount b n := by
  induction n using Nat.strongRecOn with
  | ind n ih =>
    rw [digitCount]
    split
    next h =>
      have := ih _ (Nat.div_lt_self h.2 h.1)
      rwa [Nat.div_lt_iff_lt_mul (by omega), ← Nat.pow_succ] at this
    next h =>
      have : n = 0 := by omega
      simp [this]

theorem digitCount_pos {b n : Nat} (hb : 2 ≤ b) (hn : 0 < n) : 0 < digitCount b n := by
  rw [digitCount, dif_pos ⟨hb, hn⟩]
  omega

namespace Magnitude

variable {m : Magnitude} {n : Nat} {e : Int}

theorem decimalUnits_eq (n : Nat) (e : Int) :
    decimalUnits n e = (n * tens e * unitsPerOne, tens (-e)) := by
  unfold decimalUnits
  split
  next h => rw [tens_of_neg (e := -e) (by omega)]; rfl
  next h => rw [tens_of_neg (e := e) (by omega), Nat.mul_one]; rfl

theorem decimalFloor_eq (m : Magnitude) (e : Int) :
    m.decimalFloor e = m.units * tens (-e) / (tens e * unitsPerOne) := by
  unfold decimalFloor
  split
  next h => rw [tens_of_neg (e := -e) (by omega), Nat.mul_one, Nat.mul_comm unitsPerOne]; rfl
  next h => rw [tens_of_neg (e := e) (by omega), Nat.one_mul]; rfl

/-- **A decimal rounds to a magnitude.** -/
def Covered (m : Magnitude) (n : Nat) (e : Int) : Prop :=
  m.covers (n * tens e * unitsPerOne) (tens (-e)) = true

/-- Rounding asks for a quotient only. -/
theorem covers_congr {n d n' d' : Nat} (hd : 0 < d) (hd' : 0 < d') (h : n * d' = n' * d) :
    m.covers n d = m.covers n' d' := by
  have hfour : 4 * n * d' = 4 * n' * d := by rw [Nat.mul_assoc, h, Nat.mul_assoc]
  have hle (x : Nat) : x * d ≤ 4 * n ↔ x * d' ≤ 4 * n' := by
    rw [← Nat.mul_le_mul_right_iff hd', hfour, Nat.mul_right_comm, Nat.mul_le_mul_right_iff hd]
  have hge (x : Nat) : 4 * n ≤ x * d ↔ 4 * n' ≤ x * d' := by
    rw [← Nat.mul_le_mul_right_iff hd', hfour, Nat.mul_right_comm x d, Nat.mul_le_mul_right_iff hd]
  unfold covers
  simp only [hle, hge, ← Nat.not_le]

/-- A decimal may be written with zeros behind it. -/
theorem Covered.scale (k : Nat) : m.Covered n e ↔ m.Covered (n * 10 ^ k) (e - k) := by
  have hsplit := tens_add (e - k) k
  rw [Int.sub_add_cancel] at hsplit
  unfold Covered
  rw [covers_congr (tens_pos _) (tens_pos _)]
  generalize unitsPerOne = u
  calc n * tens e * u * tens (-(e - k))
      = n * u * (tens e * tens (-(e - k))) := by ac_rfl
    _ = n * 10 ^ k * tens (e - k) * u * tens (-e) := by rw [hsplit]; ac_rfl

/-- What rounds to a magnitude that is not zero is more than half of it, and less than twice. -/
theorem Covered.bounds (h : m.Covered n e) (hm : m.units ≠ 0) :
    m.units * tens (-e) ≤ 2 * (n * tens e * unitsPerOne) ∧
      n * tens e * unitsPerOne < 2 * (m.units * tens (-e)) := by
  have hnear := (covers_iff hm).1 h
  have hlow := hnear.low
  have hhigh := hnear.high
  have hpos : 0 < m.units * tens (-e) := Nat.mul_pos (Nat.pos_of_ne_zero hm) (tens_pos _)
  have hstep : m.step * tens (-e) ≤ m.units * tens (-e) := Nat.mul_le_mul_right _ (step_le_units hm)
  rw [Nat.mul_assoc 4, Nat.mul_assoc 2] at hhigh
  rw [Nat.mul_assoc 4] at hlow
  have hwidth : (if m.narrowBelow then m.step else 2 * m.step) * tens (-e)
      ≤ 2 * (m.step * tens (-e)) := by
    rw [← Nat.mul_assoc]
    refine Nat.mul_le_mul_right _ ?_
    split <;> omega
  omega

theorem Covered.digits_ne_zero (h : m.Covered n e) (hm : m.units ≠ 0) : n ≠ 0 := by
  rintro rfl
  have := (h.bounds hm).1
  have hpos : 0 < m.units * tens (-e) := Nat.mul_pos (Nat.pos_of_ne_zero hm) (tens_pos _)
  rw [Nat.zero_mul, Nat.zero_mul] at this
  omega

/-! ## The search -/

theorem pickDecimal?_covered (h : m.pickDecimal? e = some n) : m.Covered n e := by
  have hn : n = m.decimalFloor e ∧ m.Covered (m.decimalFloor e) e ∨
      n = m.decimalFloor e + 1 ∧ m.Covered (m.decimalFloor e + 1) e := by
    unfold pickDecimal? at h
    simp only [decimalUnits_eq] at h
    unfold Covered
    repeat' split at h
    all_goals simp_all
  rcases hn with ⟨rfl, hcovered⟩ | ⟨rfl, hcovered⟩
  · exact hcovered
  · exact hcovered

theorem pickDecimal?_ne_none (h : m.Covered (m.decimalFloor e) e) : m.pickDecimal? e ≠ none := by
  unfold Covered at h
  unfold pickDecimal?
  simp only [decimalUnits_eq, h]
  intro hnone
  repeat' split at hnone
  all_goals simp_all

/-- The search ends at a decimal that reads back, if there is one on a grid that it comes to. -/
theorem shortestFrom_covered {top : Int} {k : Nat} (hk : m.pickDecimal? (top - k) ≠ none) :
    ∀ {fuel count : Nat}, count ≤ k → k < count + fuel →
      m.Covered (m.shortestFrom top fuel count).digits (m.shortestFrom top fuel count).exponent
  | 0, count, hle, hlt => absurd hlt (by omega)
  | fuel + 1, count, hle, hlt => by
    unfold shortestFrom
    split
    next digits hpick => exact pickDecimal?_covered hpick
    next hpick =>
      have hne : count ≠ k := by
        rintro rfl
        exact hk hpick
      exact shortestFrom_covered hk (by omega) (by omega)

/-- **A grid finer than a quarter of the binary one holds a decimal that reads back.** -/
theorem covered_floor (hm : m.units ≠ 0) (hfine : 4 * (tens e * unitsPerOne) < m.step * tens (-e)) :
    m.Covered (m.decimalFloor e) e := by
  have hgap : 0 < tens e * unitsPerOne := Nat.mul_pos (tens_pos e) unitsPerOne_pos
  have hwidth : m.step * tens (-e)
      ≤ (if m.narrowBelow then m.step else 2 * m.step) * tens (-e) := by
    refine Nat.mul_le_mul_right _ ?_
    split <;> omega
  have hle := Nat.div_mul_le_self (m.units * tens (-e)) (tens e * unitsPerOne)
  have hlt := Nat.lt_div_mul_add hgap (a := m.units * tens (-e))
  rw [← decimalFloor_eq] at hle hlt
  unfold Covered
  rw [covers_iff hm, Nat.mul_assoc]
  refine ⟨?_, ?_, fun _ => ⟨?_, ?_⟩⟩
  all_goals
    rw [Nat.mul_assoc 4]
    try rw [Nat.mul_assoc 2]
    omega

/-- The first digit of a magnitude counts. -/
theorem tens_decimalTop_le (hm : m.units ≠ 0) :
    tens m.decimalTop * unitsPerOne ≤ m.units * tens (-m.decimalTop) := by
  unfold decimalTop
  split
  next h =>
    have hq : 0 < m.units / unitsPerOne := Nat.div_pos h unitsPerOne_pos
    have hpow := pow_digitCount_le (b := 10) (by decide) hq
    have hcount := digitCount_pos (b := 10) (by decide) hq
    have htop : ((digitCount 10 (m.units / unitsPerOne) : Int) - 1).toNat
        = digitCount 10 (m.units / unitsPerOne) - 1 := by omega
    rw [tens_of_neg (e := -_) (by omega), Nat.mul_one, tens, htop]
    exact (Nat.le_div_iff_mul_le unitsPerOne_pos).1 hpow
  next h =>
    have hq : 0 < m.units * 10 ^ (400 : Nat) / unitsPerOne := by
      refine Nat.div_pos ?_ unitsPerOne_pos
      exact Nat.le_trans unitsPerOne_le (Nat.le_mul_of_pos_left _ (Nat.pos_of_ne_zero hm))
    have hpow := pow_digitCount_le (b := 10) (by decide) hq
    have hcount := digitCount_pos (b := 10) (by decide) hq
    have hless : m.units * 10 ^ (400 : Nat) / unitsPerOne < 10 ^ (400 : Nat) := by
      have hten : 0 < 10 ^ (400 : Nat) := Nat.pow_pos (by decide)
      rw [Nat.div_lt_iff_lt_mul unitsPerOne_pos, Nat.mul_comm]
      exact Nat.mul_lt_mul_of_pos_left (Nat.lt_of_not_le h) hten
    generalize digitCount 10 (m.units * 10 ^ (400 : Nat) / unitsPerOne) = c at hpow hcount
    have hc : c - 1 < 400 :=
      (Nat.pow_lt_pow_iff_right (by decide)).1 (Nat.lt_of_le_of_lt hpow hless)
    have hsplit : 10 ^ (400 : Nat) = 10 ^ (401 - c) * 10 ^ (c - 1) := by
      rw [← Nat.pow_add]
      congr 1
      omega
    have htop : (-((c : Int) - 401)).toNat = 401 - c := by omega
    rw [tens_of_neg (by omega), Nat.one_mul, tens, htop]
    refine Nat.le_of_mul_le_mul_right (c := 10 ^ (c - 1)) ?_ (Nat.pow_pos (by decide))
    rw [Nat.mul_assoc, ← hsplit, Nat.mul_comm unitsPerOne]
    exact (Nat.le_div_iff_mul_le unitsPerOne_pos).1 hpow

/-- Seventeen digits below the first one make a grid that is fine enough. -/
theorem fine_of_seventeen (hm : m.units ≠ 0) (he : e + (17 : Nat) = m.decimalTop) :
    4 * (tens e * unitsPerOne) < m.step * tens (-e) := by
  have htop := tens_decimalTop_le hm
  have hsplit := tens_add e 17
  rw [he] at hsplit
  have hscaled : 10 ^ (17 : Nat) * (tens e * unitsPerOne) ≤ m.units * tens (-e) := by
    refine Nat.le_of_mul_le_mul_right (c := tens (-m.decimalTop)) ?_ (tens_pos _)
    calc 10 ^ (17 : Nat) * (tens e * unitsPerOne) * tens (-m.decimalTop)
        = 10 ^ (17 : Nat) * tens e * tens (-m.decimalTop) * unitsPerOne := by
          rw [← Nat.mul_assoc, Nat.mul_right_comm]
      _ = tens m.decimalTop * unitsPerOne * tens (-e) := by rw [← hsplit, Nat.mul_right_comm]
      _ ≤ m.units * tens (-m.decimalTop) * tens (-e) := Nat.mul_le_mul_right _ htop
      _ = m.units * tens (-e) * tens (-m.decimalTop) := Nat.mul_right_comm _ _ _
  have hbits : m.units * tens (-e) < 2 ^ (53 : Nat) * (m.step * tens (-e)) := by
    have := Nat.mul_lt_mul_of_pos_left m.steps_lt m.step_pos
    rw [step_mul_steps, Nat.mul_comm] at this
    rw [← Nat.mul_assoc]
    exact Nat.mul_lt_mul_of_pos_right this (tens_pos _)
  omega

/-- **The shortest decimal of a magnitude rounds to it.** -/
theorem shortest_covered (hm : m.units ≠ 0) :
    m.Covered m.shortest.digits m.shortest.exponent := by
  rw [shortest, if_neg hm]
  refine shortestFrom_covered (k := 17) (pickDecimal?_ne_none ?_) (by decide) (by decide)
  exact covered_floor hm (fine_of_seventeen hm (by omega))

/-! ## Reading -/

/-- What rounds to a finite magnitude has no more than four hundred digits before its point. -/
theorem Covered.top_le (h : m.Covered n e) (hm : m.units ≠ 0) : e + digitCount 10 n ≤ 400 := by
  have hn : 0 < n := Nat.pos_of_ne_zero (h.digits_ne_zero hm)
  have hcount := digitCount_pos (b := 10) (by decide) hn
  refine Int.not_lt.1 fun hbig => ?_
  have hpow : 10 ^ (400 : Nat) * tens (-e) ≤ 10 ^ (digitCount 10 n - 1) * tens e :=
    pow_mul_tens_le (k := 400) (by omega)
  have hless : 10 ^ (400 : Nat) * unitsPerOne * tens (-e) < 2 * unitsLimit * tens (-e) := by
    calc 10 ^ (400 : Nat) * unitsPerOne * tens (-e)
        = 10 ^ (400 : Nat) * tens (-e) * unitsPerOne := Nat.mul_right_comm _ _ _
      _ ≤ 10 ^ (digitCount 10 n - 1) * tens e * unitsPerOne := Nat.mul_le_mul_right _ hpow
      _ ≤ n * tens e * unitsPerOne :=
        Nat.mul_le_mul_right _ (Nat.mul_le_mul_right _ (pow_digitCount_le (by decide) hn))
      _ < 2 * (m.units * tens (-e)) := (h.bounds hm).2
      _ ≤ 2 * unitsLimit * tens (-e) := by
        rw [Nat.mul_assoc]
        exact Nat.mul_le_mul_left _ (Nat.mul_le_mul_right _ (Nat.le_of_lt m.representable.1))
  exact absurd (Nat.lt_of_mul_lt_mul_right hless) (by decide +kernel)

/-- What rounds to a magnitude that is not zero has no more than four hundred zeros behind its
point. -/
theorem Covered.le_top (h : m.Covered n e) (hm : m.units ≠ 0) : -400 ≤ e + digitCount 10 n := by
  refine Int.not_lt.1 fun hsmall => ?_
  have hpow : 10 ^ digitCount 10 n * tens e * 10 ^ (401 : Nat) ≤ tens (-e) := by
    have := pow_mul_tens_le (e := -e) (k := digitCount 10 n + 401) (c := 0) (by omega)
    rwa [Int.neg_neg, Nat.pow_add, Nat.pow_zero, Nat.one_mul, Nat.mul_right_comm] at this
  have hpos : 0 < 10 ^ digitCount 10 n * tens e :=
    Nat.mul_pos (Nat.pow_pos (by decide)) (tens_pos _)
  have hless : 10 ^ digitCount 10 n * tens e * 10 ^ (401 : Nat)
      ≤ 10 ^ digitCount 10 n * tens e * (2 * unitsPerOne) := by
    calc 10 ^ digitCount 10 n * tens e * 10 ^ (401 : Nat)
        ≤ 1 * tens (-e) := by rwa [Nat.one_mul]
      _ ≤ m.units * tens (-e) := Nat.mul_le_mul_right _ (Nat.pos_of_ne_zero hm)
      _ ≤ 2 * (n * tens e * unitsPerOne) := (h.bounds hm).1
      _ = n * tens e * (2 * unitsPerOne) := by rw [Nat.mul_left_comm]
      _ ≤ 10 ^ digitCount 10 n * tens e * (2 * unitsPerOne) :=
        Nat.mul_le_mul_right _ (Nat.mul_le_mul_right _
          (Nat.le_of_lt (lt_pow_digitCount (by decide) n)))
  exact absurd (Nat.le_of_mul_le_mul_left hless hpos) (by decide +kernel)

end Magnitude

namespace Binary64

theorem ofUnits_of_ofRatio? {m : Magnitude} {a d : Nat} (h : Magnitude.ofRatio? a d = some m)
    (s : Bool) : ofUnits s a d = .finite s m := by
  unfold ofUnits
  generalize Magnitude.ofRatio? a d = r at h
  subst h
  rfl

/-- **A decimal that rounds to a magnitude is read as it.** -/
theorem ofDecimal_of_covered {m : Magnitude} {n : Nat} {e : Int} (hm : m.units ≠ 0)
    (h : m.Covered n e) (s : Bool) : ofDecimal s n e = .finite s m := by
  have hunits := ofUnits_of_ofRatio? (Magnitude.ofRatio?_of_covers hm (tens_pos _) h) s
  have hhigh := h.top_le hm
  have hlow := h.le_top hm
  simp only [ofDecimal, if_neg (h.digits_ne_zero hm), if_neg (Int.not_lt.2 hhigh),
    if_neg (Int.not_lt.2 hlow)]
  split
  next he => rwa [tens_of_neg (e := -e) (by omega)] at hunits
  next he => rwa [tens_of_neg (e := e) (by omega), Nat.mul_one] at hunits

end Binary64

end Taskboard
