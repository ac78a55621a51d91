import Taskboard.Proofs.Calendar.Years

/-!
# Proofs/Calendar/Duration — the days between two times

The days between two times are the quotient of their distance by the length of a day, as a double,
rounded up.  A quotient of two whole numbers that is no whole number itself stays at least one part
of the divisor away from all of them.  Where the dividend has 53 bits, a step between the doubles
around the quotient is less than two such parts, so rounding, half a step at most, does not reach
a whole number that it does not start from.

* `Magnitude.grid_lt` — the step of the doubles around such a quotient.
* `Magnitude.roundedUnits_lt_whole_iff`, `Magnitude.whole_lt_roundedUnits_iff` — whole numbers lie
  on the same side of the double as of the quotient.
* `Binary64.ceil?_ofRatio` — so both have the same ceiling.
* `durationDays_is_ceiling` — **the days between two times of the calendar are exact.**
-/

namespace Taskboard

-- powers are those of the naturals, also where an importing module knows other ones
attribute [local instance (high)] instPowNat

/-! ## Quotients among whole numbers -/

namespace Magnitude

variable {n d k : Nat}

/-- The doubles around a quotient with a dividend of 53 bits lie less than two parts of the divisor
apart. -/
theorem grid_lt (hn : n < 2 ^ (53 : Nat)) (hd : 0 < d) (hfew : d < 2 * unitsPerOne) :
    d * 2 ^ gridExponent (n * unitsPerOne) d < 2 * unitsPerOne := by
  rcases Nat.eq_zero_or_pos (gridExponent (n * unitsPerOne) d) with hzero | hpos
  · rwa [hzero, Nat.pow_zero, Nat.mul_one]
  · have hlog : 52 + gridExponent (n * unitsPerOne) d = (n * unitsPerOne / d).log2 := by
      unfold gridExponent at hpos ⊢
      omega
    have hne : n * unitsPerOne / d ≠ 0 := fun h => by
      rw [h, Nat.log2_zero] at hlog
      omega
    have hquotient := Nat.log2_self_le hne
    rw [← hlog, Nat.le_div_iff_mul_le hd, Nat.pow_add, Nat.mul_assoc, Nat.mul_comm (2 ^ _) d]
      at hquotient
    have hunits : n * unitsPerOne < 2 ^ (53 : Nat) * unitsPerOne :=
      Nat.mul_lt_mul_of_pos_right hn unitsPerOne_pos
    omega

/-- **The double of a quotient is below a whole number exactly where the quotient is.** -/
theorem roundedUnits_lt_whole_iff (hn : n < 2 ^ (53 : Nat)) (hd : 0 < d)
    (hfew : d < 2 * unitsPerOne) :
    roundedUnits (n * unitsPerOne) d < k * unitsPerOne ↔ n < k * d := by
  constructor
  · refine fun hlt => Nat.lt_of_not_le fun hle => Nat.not_le_of_lt hlt ?_
    have hk : k < 2 ^ (53 : Nat) :=
      Nat.lt_of_le_of_lt (Nat.le_trans (Nat.le_mul_of_pos_right k hd) hle) hn
    calc k * unitsPerOne = roundedUnits (k * unitsPerOne * d) d :=
          (roundedUnits_units (.whole k hk) hd).symm
      _ ≤ roundedUnits (n * unitsPerOne) d := by
        refine roundedUnits_mono ?_
        rw [Nat.mul_right_comm]
        exact Nat.mul_le_mul_right _ hle
  · intro hlt
    have hpart : n * unitsPerOne + unitsPerOne ≤ k * unitsPerOne * d := by
      rw [← Nat.succ_mul, Nat.mul_right_comm]
      exact Nat.mul_le_mul_right _ hlt
    have hnear := (roundedUnits_near (n * unitsPerOne) hd).1
    have hgrid := grid_lt hn hd hfew
    exact Nat.lt_of_mul_lt_mul_right (a := d) (by omega)

/-- **It is above a whole number exactly where the quotient is.** -/
theorem whole_lt_roundedUnits_iff (hn : n < 2 ^ (53 : Nat)) (hd : 0 < d)
    (hfew : d < 2 * unitsPerOne) :
    k * unitsPerOne < roundedUnits (n * unitsPerOne) d ↔ k * d < n := by
  constructor
  · refine fun hlt => Nat.lt_of_not_le fun hle => Nat.not_le_of_lt hlt ?_
    rcases Nat.lt_or_ge k (2 ^ (53 : Nat)) with hk | hk
    · refine roundedUnits_le_whole hk hd ?_
      rw [Nat.mul_right_comm]
      exact Nat.mul_le_mul_right _ hle
    -- a whole number beyond the doubles of one step is above the dividend
    · have hdividend : roundedUnits (n * unitsPerOne) d ≤ n * unitsPerOne :=
        roundedUnits_le_whole hn hd (Nat.le_mul_of_pos_right _ hd)
      have hnk : n ≤ k := Nat.le_of_lt (Nat.lt_of_lt_of_le hn hk)
      exact Nat.le_trans hdividend (Nat.mul_le_mul_right _ hnk)
  · intro hlt
    have hpart : k * unitsPerOne * d + unitsPerOne ≤ n * unitsPerOne := by
      rw [Nat.mul_right_comm, ← Nat.succ_mul]
      exact Nat.mul_le_mul_right _ hlt
    have hnear := (roundedUnits_near (n * unitsPerOne) hd).2
    have hgrid := grid_lt hn hd hfew
    exact Nat.lt_of_mul_lt_mul_right (a := d) (by omega)

end Magnitude

/-! ## Ceilings -/

namespace Binary64

open Magnitude

variable {n : Int} {d : Nat}

/-- A multiple by its sign and size. -/
theorem mul_natCast_eq (k : Int) (c : Nat) :
    k * c = if k < 0 then -((k.natAbs * c : Nat) : Int) else (k.natAbs * c : Nat) := by
  rw [Int.natCast_mul, ← Int.neg_mul]
  split
  next hneg => rw [Int.ofNat_natAbs_of_nonpos (Int.le_of_lt hneg), Int.neg_neg]
  next hpos => rw [Int.natAbs_of_nonneg (Int.not_lt.mp hpos)]

/-- **The double of a quotient is at most a whole number exactly where the quotient is**, whatever
their signs. -/
theorem exists_ofRatio_le_whole_iff (hn : n.natAbs < 2 ^ (53 : Nat)) (hd : 0 < d)
    (hfew : d < 2 * unitsPerOne) : ∃ m : Magnitude, ofRatio n d = .finite (n < 0) m ∧
      ∀ k : Int, signedUnits (n < 0) m ≤ k * unitsPerOne ↔ n ≤ k * d := by
  have hsize : roundedUnits (n.natAbs * unitsPerOne) d ≤ n.natAbs * unitsPerOne :=
    roundedUnits_le_whole hn hd (Nat.le_mul_of_pos_right _ hd)
  obtain ⟨m, hunits, hdouble⟩ := exists_ofUnits (decide (n < 0))
    (Nat.lt_of_le_of_lt hsize (whole_lt_limit hn))
  refine ⟨m, hdouble, fun k => ?_⟩
  have hbelow := roundedUnits_lt_whole_iff (k := k.natAbs) hn hd hfew
  have habove := whole_lt_roundedUnits_iff (k := k.natAbs) hn hd hfew
  have hwhole : k < 0 → 0 < k.natAbs * unitsPerOne := fun hneg =>
    Nat.mul_pos (by omega) unitsPerOne_pos
  have hpart : k < 0 → 0 < k.natAbs * d := fun hneg => Nat.mul_pos (by omega) hd
  rw [← hunits] at hbelow habove
  rw [signedUnits, mul_natCast_eq k unitsPerOne, mul_natCast_eq k d]
  simp only [decide_eq_true_eq]
  generalize k.natAbs * unitsPerOne = whole at hbelow habove hwhole ⊢
  generalize k.natAbs * d = part at hbelow habove hpart ⊢
  split <;> split <;> omega

/-- The ceiling of a double is the least whole number of ones that reaches it. -/
theorem ceil?_finite (negative : Bool) (m : Magnitude) : ∃ k : Int,
    (finite negative m).ceil? = some k ∧ (k - 1) * unitsPerOne < signedUnits negative m ∧
      signedUnits negative m ≤ k * unitsPerOne := by
  have hone : (0 : Int) < unitsPerOne := Int.natCast_pos.mpr unitsPerOne_pos
  have hsplit := Int.mul_fdiv_add_fmod (-signedUnits negative m) unitsPerOne
  have hrest := Int.fmod_nonneg_of_pos (-signedUnits negative m) hone
  have hless := Int.fmod_lt_of_pos (-signedUnits negative m) hone
  refine ⟨_, rfl, ?_, ?_⟩
  · rw [Int.sub_mul, Int.neg_mul, Int.mul_comm _ (unitsPerOne : Int)]
    omega
  · rw [Int.neg_mul, Int.mul_comm _ (unitsPerOne : Int)]
    omega

/-- **A double of a quotient has the ceiling of the quotient**: the only whole number that reaches
the quotient while one less does not. -/
theorem ceil?_ofRatio (hn : n.natAbs < 2 ^ (53 : Nat)) (hd : 0 < d) (hfew : d < 2 * unitsPerOne) :
    ∃ c, (ofRatio n d).ceil? = some c ∧ ∀ k : Int, k = c ↔ (k - 1) * d < n ∧ n ≤ k * d := by
  obtain ⟨m, hdouble, hreach⟩ := exists_ofRatio_le_whole_iff hn hd hfew
  obtain ⟨c, hceil, hlow, hhigh⟩ := ceil?_finite (decide (n < 0)) m
  have hbelow : (c - 1) * d < n := Int.not_le.mp fun hle =>
    Int.not_le.mpr hlow ((hreach (c - 1)).mpr hle)
  have habove : n ≤ c * d := (hreach c).mp hhigh
  refine ⟨c, hdouble ▸ hceil, fun k => ⟨?_, fun ⟨hless, hmore⟩ => ?_⟩⟩
  · rintro rfl
    exact ⟨hbelow, habove⟩
  -- both come after each other's predecessor
  · have hpos : (0 : Int) ≤ d := Int.natCast_nonneg d
    have hk := Int.lt_of_mul_lt_mul_right (Int.lt_of_lt_of_le hless habove) hpos
    have hc := Int.lt_of_mul_lt_mul_right (Int.lt_of_lt_of_le hbelow hmore) hpos
    omega

end Binary64

/-! ## Days -/

/-- Two times of the calendar are a number of 49 bits apart, so the days between them are the
ceiling of the quotient. -/
theorem exists_durationDays_iff {start finish : Int} (hstart : Moment.InYears start)
    (hfinish : Moment.InYears finish) : ∃ n, durationDays start finish = .ok n ∧
      ∀ k : Int, k = n ↔
        (k - 1) * 86400000 < finish - start ∧ finish - start ≤ k * 86400000 := by
  rw [Moment.inYears_iff] at hstart hfinish
  obtain ⟨n, hceil, hn⟩ := Binary64.ceil?_ofRatio (n := finish - start) (d := 86400000) (by omega)
    (by decide) (by decide +kernel)
  exact ⟨n, by rw [durationDays, wholeCeil, hceil], hn⟩

/-- **The days between two times of the calendar** are the only number of days that reaches from one
to the other while one day less does not. -/
theorem durationDays_is_ceiling {start finish : Int} (hstart : ∃ t, Moment.ofEpochMs start = .ok t)
    (hfinish : ∃ t, Moment.ofEpochMs finish = .ok t) :
    ∃ n, durationDays start finish = .ok n ∧
      ∀ k : Int, k = n ↔
        (k - 1) * 86400000 < finish - start ∧ finish - start ≤ k * 86400000 :=
  exists_durationDays_iff (Moment.exists_ofEpochMs_iff.mp hstart)
    (Moment.exists_ofEpochMs_iff.mp hfinish)

/-- A millisecond after the last midnight of the calendar its last day has begun: the quotient is
less than `2 ^ -26` above a whole number. -/
theorem last_day_has_begun :
    (∃ t, Moment.ofEpochMs (-62135596800000) = .ok t) ∧
      (∃ t, Moment.ofEpochMs 253402214400001 = .ok t) ∧
      durationDays (-62135596800000) 253402214400001 = .ok 3652059 := by
  have hfirst : ∃ t, Moment.ofEpochMs (-62135596800000) = .ok t :=
    Moment.exists_ofEpochMs_iff.mpr (by decide)
  have hlast : ∃ t, Moment.ofEpochMs 253402214400001 = .ok t :=
    Moment.exists_ofEpochMs_iff.mpr (by decide)
  obtain ⟨n, hdays, hn⟩ := durationDays_is_ceiling hfirst hlast
  refine ⟨hfirst, hlast, ?_⟩
  rw [hdays, (hn 3652059).mpr (by decide)]

/-- Times that are farther apart than any in the calendar may lose a day that has begun. -/
example : durationDays 0 (2 ^ (27 : Nat) * 86400000 + 1) = .ok (2 ^ (27 : Nat)) := by
  decide +kernel

end Taskboard
