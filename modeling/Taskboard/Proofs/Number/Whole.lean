import Taskboard.Proofs.Number.Text
import Taskboard.Value.Time

/-!
# Proofs/Number/Whole — whole numbers that are short enough to be written

A whole number is converted to decimal text only up to `maxDecimalDigits` digits. `IsShort` says
that a number is, and so are all that come from elsewhere:

* `isShort_of_readInt` — the numbers read from texts,
* `isShort_of_truncate?` — the doubles without their fractions,
* `isShort_of_epochMs?` — the times that values name.
-/

namespace Taskboard

-- powers are those of the naturals, also where an importing module knows other ones
attribute [local instance (high)] instPowNat

/-- **A whole number is short enough** to be converted to decimal text. -/
def IsShort (n : Int) : Prop := digitCount 10 n.natAbs ≤ maxDecimalDigits

/-- A number below a power has no more digits than its exponent. -/
theorem digitCount_le_of_lt {b n k : Nat} (hb : 2 ≤ b) (h : n < b ^ k) : digitCount b n ≤ k := by
  rcases Nat.eq_zero_or_pos n with rfl | hn
  · rw [digitCount, dif_neg (by omega)]
    exact Nat.zero_le k
  · have hlt := (Nat.pow_lt_pow_iff_right hb).1
      (Nat.lt_of_le_of_lt (pow_digitCount_le hb hn) h)
    omega

theorem isShort_of_natAbs_lt {n : Int} (h : n.natAbs < 10 ^ maxDecimalDigits) : IsShort n :=
  digitCount_le_of_lt (by decide) h

theorem isShort_zero : IsShort 0 := by
  unfold IsShort
  rw [digitCount]
  decide

theorem isShort_neg {n : Int} : IsShort (-n) ↔ IsShort n := by
  rw [IsShort, IsShort, Int.natAbs_neg]

theorem exists_wholeText {n : Int} (h : IsShort n) : ∃ t, wholeText n = .ok t :=
  ⟨_, if_neg (Nat.not_lt.mpr h)⟩

/-! ## Doubles -/

/-- Twice the units beyond the doubles still have few digits. -/
theorem two_mul_unitsLimit_lt : 2 * unitsLimit < 10 ^ maxDecimalDigits := by decide +kernel

/-- A number of units is at most twice the magnitude that it is rounded to. -/
theorem Magnitude.le_of_ofRatio? {n : Nat} {m : Magnitude} (h : ofRatio? n 1 = some m) :
    n ≤ 2 * m.units := by
  unfold ofRatio? at h
  dsimp only at h
  split at h
  next hlt =>
    obtain rfl := Option.some.inj h
    dsimp only
    generalize hk : gridExponent n 1 = k
    have hfloor : n / 2 ^ k ≤ roundDiv n (1 * 2 ^ k) := by
      rw [Nat.one_mul]
      exact div_le_roundDiv n (2 ^ k)
    have hunits : n / 2 ^ k * 2 ^ k ≤ roundDiv n (1 * 2 ^ k) * 2 ^ k :=
      Nat.mul_le_mul_right _ hfloor
    have hsplit := Nat.div_add_mod' n (2 ^ k)
    have hmod := Nat.mod_lt n (Nat.two_pow_pos k)
    -- what is cut off is less than a step, and a step is at most half of the number
    rcases Nat.eq_zero_or_pos k with rfl | hpos
    · rw [Nat.pow_zero, Nat.mod_one] at hsplit
      omega
    · have hlog : k + 1 ≤ n.log2 := by
        unfold gridExponent at hk
        rw [Nat.div_one] at hk
        omega
      have hn : n ≠ 0 := by
        rintro rfl
        rw [Nat.log2_zero] at hlog
        omega
      have hstep : 2 ^ (k + 1) ≤ n := (Nat.le_log2 hn).1 hlog
      rw [Nat.pow_succ] at hstep
      omega
  next => exact absurd h (by simp)

/-- A number with a double near it is short. -/
theorem isShort_of_ofInt? {n : Int} (h : (Binary64.ofInt? n).isSome) : IsShort n := by
  rw [Binary64.ofInt?, Option.isSome_map] at h
  obtain ⟨m, hm⟩ := Option.isSome_iff_exists.1 h
  have hle := Magnitude.le_of_ofRatio? hm
  refine isShort_of_natAbs_lt (Nat.lt_of_le_of_lt ?_ two_mul_unitsLimit_lt)
  calc n.natAbs
      ≤ n.natAbs * unitsPerOne := Nat.le_mul_of_pos_right _ unitsPerOne_pos
    _ ≤ 2 * m.units := hle
    _ ≤ 2 * unitsLimit := Nat.mul_le_mul_left 2 (Nat.le_of_lt m.representable.1)

/-- **A double without its fraction is short.** -/
theorem isShort_of_truncate? {x : Binary64} {n : Int} (h : x.truncate? = some n) : IsShort n := by
  rcases x with _ | s | ⟨s, m⟩
  · exact absurd h (by simp [Binary64.truncate?])
  · exact absurd h (by simp [Binary64.truncate?])
  · obtain rfl := Option.some.inj h
    refine isShort_of_natAbs_lt ?_
    have hunits : (Binary64.signedUnits s m).natAbs = m.units := by
      unfold Binary64.signedUnits
      split <;> simp
    rw [Int.natAbs_tdiv, hunits, Int.natAbs_natCast]
    calc m.units / unitsPerOne
        ≤ m.units := Nat.div_le_self _ _
      _ < unitsLimit := m.representable.1
      _ ≤ 2 * unitsLimit := Nat.le_mul_of_pos_left _ (by decide)
      _ < 10 ^ maxDecimalDigits := two_mul_unitsLimit_lt

theorem isShort_truncate?_getD (x : Binary64) : IsShort (x.truncate?.getD 0) := by
  cases h : x.truncate? with
  | none => exact isShort_zero
  | some n => exact isShort_of_truncate? h

/-! ## Texts -/

theorem digitsValue_lt {cs : List Char} (h : ∀ c ∈ cs, c.isDigit = true) :
    digitsValue cs < 10 ^ cs.length := by
  induction cs with
  | nil => exact Nat.one_pos
  | cons c cs ih =>
    obtain ⟨hc, hcs⟩ := List.forall_mem_cons.1 h
    have hdigit : digitsValue [c] ≤ 9 := by
      have hle : c.toNat ≤ 57 := (Char.isDigit_iff_toNat.1 hc).2
      simp only [digitsValue, List.foldl_cons, List.foldl_nil]
      omega
    have hrest := ih hcs
    have hpow := Nat.mul_le_mul_right (10 ^ cs.length) hdigit
    rw [← List.singleton_append, digitsValue_append, List.length_append, List.length_singleton,
      Nat.add_comm 1, Nat.pow_succ]
    omega

/-- What few digits write is short. -/
theorem isShort_digitsValue {cs : List Char} (h : ∀ c ∈ cs, c.isDigit = true)
    (hlen : cs.length ≤ maxDecimalDigits) (negative : Bool) :
    IsShort (if negative then -(digitsValue cs : Int) else digitsValue cs) := by
  have hvalue : IsShort (digitsValue cs : Int) :=
    isShort_of_natAbs_lt (Nat.lt_of_lt_of_le (digitsValue_lt h)
      (Nat.pow_le_pow_right (by decide) hlen))
  split
  · exact isShort_neg.2 hvalue
  · exact hvalue

/-- **A number that is read from a text is short.** -/
theorem isShort_of_readInt {s : String} {n : Int} (h : readInt s = .ok n) : IsShort n := by
  unfold readInt at h
  dsimp only at h
  split at h
  next => exact absurd h (by simp)
  next ds hds =>
    split at h
    next => exact absurd h (by simp)
    next hdigits =>
      split at h
      next => exact absurd h (by simp)
      next hlen =>
        obtain rfl := Except.ok.inj h
        rw [Bool.or_eq_true, not_or, Bool.not_eq_true', Bool.not_eq_false] at hdigits
        exact isShort_digitsValue (List.all_eq_true.1 hdigits.2) (Nat.not_lt.1 hlen) _

/-! ## Values -/

namespace Value

/-- A value as a whole number is short, unless it is itself one that is not. -/
theorem isShort_of_toInt {v : Value} {n : Int} (hv : ∀ k, v = .int k → IsShort k)
    (h : v.toInt = .ok n) : IsShort n := by
  cases v with
  | bool b =>
    obtain rfl := Except.ok.inj h
    refine isShort_of_natAbs_lt (Nat.lt_of_le_of_lt ?_ two_mul_unitsLimit_lt)
    have := unitsLimit_pos
    split <;> simp
    all_goals omega
  | int k =>
    obtain rfl := Except.ok.inj h
    exact hv k rfl
  | real x =>
    rcases x with _ | s | ⟨s, m⟩
    · exact absurd h (by simp [toInt])
    · exact absurd h (by simp [toInt])
    · obtain rfl := Except.ok.inj h
      exact isShort_truncate?_getD _
  | text s => exact isShort_of_readInt h
  | bytes bs => exact isShort_of_readInt h
  | null | date | moment | list | map | set => exact absurd h (by simp [toInt])

/-- **A time that a value names is short.** -/
theorem isShort_of_epochMs? {v : Value} {n : Int} (h : v.epochMs? = .ok (some n)) : IsShort n := by
  have hmoment {m : Moment} {k : Int} (hk : m.epochMs = .ok k) : IsShort k := by
    rw [Moment.epochMs, map_eq_ok] at hk
    obtain ⟨x, -, rfl⟩ := hk
    exact isShort_truncate?_getD _
  unfold epochMs? at h
  split at h
  next => exact absurd h (by simp)
  next k =>
    split at h
    next hsome =>
      obtain rfl : k = n := by simpa using h
      exact isShort_of_ofInt? hsome
    next => exact absurd h (by simp)
  next x => exact isShort_of_truncate? (Except.ok.inj h)
  next =>
    split at h
    next => exact absurd h (by simp)
    next m _ =>
      rw [map_eq_ok] at h
      obtain ⟨k, hk, hkn⟩ := h
      obtain rfl := Option.some.inj hkn
      exact hmoment hk

end Value

end Taskboard
