import Taskboard.Proofs.Sort.Order
import Taskboard.Sort.Custom

/-!
# Proofs/Sort/Reals — the sign of a rounded difference

A difference of doubles is rounded, but a count of units that is not zero never rounds to zero: the
least positive double is one unit.  So `compareReals`, which looks at the sign of the difference,
compares the places of two numbers exactly (`compareReals_of_places`); what is not a number is tied
with everything.
-/

namespace Taskboard

-- powers are those of the naturals
attribute [local instance (high)] instPowNat

/-- Some units do not round to none. -/
theorem Magnitude.units_pos {n : Nat} {size : Magnitude} (hn : n ≠ 0)
    (h : Magnitude.ofRatio? n 1 = some size) : 0 < size.units := by
  have hstep : 2 ^ Magnitude.gridExponent n 1 ≤ n := by
    refine Nat.le_trans (Nat.pow_le_pow_right (by decide) ?_) (Nat.log2_self_le hn)
    simp [Magnitude.gridExponent]
  have hround : 0 < roundDiv n (2 ^ Magnitude.gridExponent n 1) :=
    Nat.lt_of_lt_of_le (Nat.div_pos hstep (Nat.two_pow_pos _)) (div_le_roundDiv _ _)
  unfold Magnitude.ofRatio? at h
  simp only [Nat.one_mul] at h
  split at h
  · obtain rfl := Option.some.inj h
    exact Nat.mul_pos hround (Nat.two_pow_pos _)
  · cases h

namespace Binary64

/-- What is a number has a place. -/
theorem exists_place {x : Binary64} (h : x ≠ .nan) : ∃ p, x.place? = some p := by
  cases x with
  | nan => exact absurd rfl h
  | infinite s => exact ⟨_, rfl⟩
  | finite s m => exact ⟨_, rfl⟩

theorem eq_nan_of_place? {x : Binary64} (h : x.place? = none) : x = .nan :=
  Decidable.byContradiction fun hne => by
    obtain ⟨p, hp⟩ := exists_place hne
    rw [hp] at h
    cases h

theorem le_trans {x y z : Binary64} (hxy : x.le y = true) (hyz : y.le z = true) :
    x.le z = true := by
  unfold le at *
  cases hx : x.place? <;> cases hy : y.place? <;> cases hz : z.place? <;> simp_all
  omega

/-- Units that are rounded keep their sign. -/
theorem place?_ofUnits (negative : Bool) {n : Nat} (hn : n ≠ 0) :
    ∃ p, (ofUnits negative n 1).place? = some p ∧ if negative then p < 0 else 0 < p := by
  unfold ofUnits
  split
  next size hsize =>
    have hpos : (0 : Int) < size.units := Int.natCast_pos.mpr (Magnitude.units_pos hn hsize)
    cases negative with
    | false => exact ⟨size.units, rfl, by simpa using hpos⟩
    | true => exact ⟨-size.units, rfl, by simpa using hpos⟩
  next =>
    have hlimit : (0 : Int) < unitsLimit := Int.natCast_pos.mpr unitsLimit_pos
    cases negative with
    | false => exact ⟨unitsLimit, rfl, by rwa [if_neg Bool.false_ne_true]⟩
    | true => exact ⟨-unitsLimit, rfl, by rw [if_pos rfl]; exact Int.neg_neg_of_pos hlimit⟩

theorem abs_signedUnits_lt (negative : Bool) (m : Magnitude) :
    -(unitsLimit : Int) < signedUnits negative m ∧ signedUnits negative m < unitsLimit := by
  have hlt : (m.units : Int) < unitsLimit := Int.ofNat_lt.mpr m.representable.1
  cases negative with
  | false => exact ⟨by simp only [signedUnits, Bool.false_eq_true, if_false]; omega, hlt⟩
  | true => exact ⟨Int.neg_lt_neg hlt, by simp only [signedUnits, if_true]; omega⟩

/-- The sign of a double, none for zero and for what is not a number. -/
def side (x : Binary64) : Ordering :=
  match x.place? with
  | some p => compare p 0
  | none => .eq

@[simp] theorem side_infinite (negative : Bool) :
    (infinite negative).side = if negative then .lt else .gt := by
  have hlimit : (0 : Int) < unitsLimit := Int.natCast_pos.mpr unitsLimit_pos
  cases negative
  · exact Int.compare_eq_gt.mpr hlimit
  · exact Int.compare_eq_lt.mpr (Int.neg_neg_of_pos hlimit)

theorem side_ofSignedUnits (zeroSign : Bool) (s : Int) :
    (ofSignedUnits zeroSign s).side = compare s 0 := by
  unfold ofSignedUnits
  split
  next h =>
    subst h
    cases zeroSign <;> rfl
  next h =>
    obtain ⟨p, hp, hsign⟩ := place?_ofUnits (decide (s < 0)) (n := s.natAbs) (by omega)
    simp only [side, hp]
    by_cases hneg : s < 0
    · have hp : p < 0 := by simpa [hneg] using hsign
      rw [Int.compare_eq_lt.mpr hp, Int.compare_eq_lt.mpr hneg]
    · have hp : 0 < p := by simpa [hneg] using hsign
      rw [Int.compare_eq_gt.mpr hp, Int.compare_eq_gt.mpr (by omega)]

theorem compare_sub_zero (p q : Int) : compare (p - q) 0 = compare p q := by
  obtain h | rfl | h := Int.lt_trichotomy p q
  · rw [Int.compare_eq_lt.mpr h, Int.compare_eq_lt.mpr (by omega)]
  · simp
  · rw [Int.compare_eq_gt.mpr h, Int.compare_eq_gt.mpr (by omega)]

/-- The place of an infinity is beyond all places of finite numbers. -/
theorem compare_infinite_finite (s t : Bool) (n : Magnitude) :
    compare (if s then -(unitsLimit : Int) else unitsLimit) (signedUnits t n)
      = if s then .lt else .gt := by
  obtain ⟨hl, hr⟩ := abs_signedUnits_lt t n
  cases s with
  | false => exact Int.compare_eq_gt.mpr hr
  | true => exact Int.compare_eq_lt.mpr hl

/-! ### The sign of a difference -/

/-- Infinities of one sign have no difference, others differ by an infinity. -/
theorem side_sub_infinite_infinite (s t : Bool) :
    (infinite s - infinite t).side = compare (if s then -(unitsLimit : Int) else unitsLimit)
      (if t then -(unitsLimit : Int) else unitsLimit) := by
  have hlimit : -(unitsLimit : Int) < unitsLimit := by
    have := unitsLimit_pos
    omega
  by_cases hst : t = s
  · subst hst
    have hdiff : infinite t - infinite t = .nan := by cases t <;> rfl
    rw [hdiff]
    exact Std.ReflCmp.compare_self.symm
  · obtain rfl : t = !s := Bool.eq_not.mpr hst
    have hdiff : infinite s - infinite (!s) = .infinite s := by cases s <;> rfl
    rw [hdiff, side_infinite]
    cases s <;> symm
    · exact Int.compare_eq_gt.mpr hlimit
    · exact Int.compare_eq_lt.mpr hlimit

theorem side_sub_infinite_finite (s t : Bool) (n : Magnitude) :
    (infinite s - finite t n).side
      = compare (if s then -(unitsLimit : Int) else unitsLimit) (signedUnits t n) := by
  have hdiff : infinite s - finite t n = .infinite s := rfl
  rw [hdiff, side_infinite, compare_infinite_finite]

theorem side_sub_finite_infinite (s t : Bool) (m : Magnitude) :
    (finite s m - infinite t).side
      = compare (signedUnits s m) (if t then -(unitsLimit : Int) else unitsLimit) := by
  have hdiff : finite s m - infinite t = .infinite (!t) := rfl
  rw [hdiff, side_infinite, Std.OrientedOrd.eq_swap, compare_infinite_finite]
  cases t <;> rfl

theorem side_sub_finite_finite (s t : Bool) (m n : Magnitude) :
    (finite s m - finite t n).side = compare (signedUnits s m) (signedUnits t n) := by
  have hdiff : finite s m - finite t n
      = ofSignedUnits (s && !t) (signedUnits s m + signedUnits (!t) n) := rfl
  have hneg : signedUnits (!t) n = -signedUnits t n := by cases t <;> simp [signedUnits]
  rw [hdiff, side_ofSignedUnits, hneg, ← Int.sub_eq_add_neg, compare_sub_zero]

end Binary64

/-- Two doubles compare by the sign of their difference. -/
theorem compareReals_eq_side (x y : Binary64) : compareReals x y = (x - y).side := by
  have hzero : Binary64.zero.place? = some 0 := rfl
  simp only [compareReals, Binary64.lt, Binary64.side, hzero]
  cases (x - y).place? with
  | none => rfl
  | some p =>
    obtain hp | rfl | hp := Int.lt_trichotomy p 0
    · simp [Int.compare_eq_lt.mpr hp, hp, Int.le_of_lt hp]
    · rfl
    · simp [Int.compare_eq_gt.mpr hp, hp]

/-- What is not a number is tied with everything. -/
theorem compareReals_of_place?_eq_none {x y : Binary64} (h : x.place? = none ∨ y.place? = none) :
    compareReals x y = .eq := by
  have hnan : x - y = .nan := by
    obtain h | h := h
    · rw [Binary64.eq_nan_of_place? h]
      rfl
    · rw [Binary64.eq_nan_of_place? h]
      cases x <;> rfl
  rw [compareReals_eq_side, hnan]
  rfl

/-- **Two numbers compare by their places.** -/
theorem compareReals_of_places {x y : Binary64} {p q : Int} (hx : x.place? = some p)
    (hy : y.place? = some q) : compareReals x y = compare p q := by
  rw [compareReals_eq_side]
  cases x with
  | nan => cases hx
  | infinite s =>
    obtain rfl := Option.some.inj hx
    cases y with
    | nan => cases hy
    | infinite t => exact Option.some.inj hy ▸ Binary64.side_sub_infinite_infinite s t
    | finite t n => exact Option.some.inj hy ▸ Binary64.side_sub_infinite_finite s t n
  | finite s m =>
    obtain rfl := Option.some.inj hx
    cases y with
    | nan => cases hy
    | infinite t => exact Option.some.inj hy ▸ Binary64.side_sub_finite_infinite s t m
    | finite t n => exact Option.some.inj hy ▸ Binary64.side_sub_finite_finite s t m n

end Taskboard
