import Taskboard.Number.Rounding

/-!
# Number/Binary64 — double precision numbers as exact integers

Every finite double is an integer multiple of `2 ^ -1074`, the least positive one. A `Magnitude` is
that multiple, and `Representable` says which integers occur: those with at most 53 leading
significant bits, below `2 ^ 2098` units. Sums, products and quotients are computed exactly on the
integers and rounded once, by `Magnitude.ofRatio?`, to the nearest representable one with ties to
even, so each operation is correctly rounded by construction.
-/

namespace Taskboard

-- powers are those of the naturals, also where an importing module knows other ones
attribute [local instance (high)] instPowNat

/-- How many units of `2 ^ -1074` make one. -/
def unitsPerOne : Nat := 2 ^ (1074 : Nat)

/-- The units of the least power of two that no finite double reaches, `2 ^ 1024`. -/
def unitsLimit : Nat := 2 ^ (2098 : Nat)

theorem unitsLimit_pos : 0 < unitsLimit := by decide +kernel

/-- An integer of units that a finite double holds: below the limit, with at most 53 significant
bits. -/
def Representable (units : Nat) : Prop :=
  units < unitsLimit ∧ 2 ^ (units.log2 - 52) ∣ units

instance (units : Nat) : Decidable (Representable units) := by
  unfold Representable; infer_instance

/-- The absolute value of a finite double, in units of `2 ^ -1074`. -/
structure Magnitude where
  units : Nat
  representable : Representable units
deriving DecidableEq

namespace Magnitude

theorem log2_two_pow_mul {r k : Nat} (h : r ≠ 0) : (r * 2 ^ k).log2 = r.log2 + k := by
  induction k with
  | zero => simp
  | succ k ih =>
    have : r * 2 ^ k ≠ 0 := Nat.mul_ne_zero h (Nat.ne_of_gt (Nat.two_pow_pos k))
    rw [Nat.pow_succ, ← Nat.mul_assoc, Nat.mul_comm _ 2, Nat.log2_two_mul this, ih]
    omega

/-- **At most `2 ^ 53` steps of a power of two have at most 53 significant bits.** -/
theorem dvd_of_le {r k : Nat} (h : r ≤ 2 ^ (53 : Nat)) :
    2 ^ ((r * 2 ^ k).log2 - 52) ∣ r * 2 ^ k := by
  by_cases h0 : r = 0
  · simp [h0]
  rw [log2_two_pow_mul h0]
  rcases Nat.lt_or_eq_of_le h with hlt | heq
  · have : r.log2 < 53 := (Nat.log2_lt h0).2 hlt
    exact Nat.dvd_trans (Nat.pow_dvd_pow 2 (by omega)) (Nat.dvd_mul_left _ r)
  · subst heq
    rw [Nat.log2_two_pow, ← Nat.pow_add]
    exact Nat.pow_dvd_pow 2 (by omega)

/-- The width, as a power of two, of one step of the grid on which `n / d` units are rounded. -/
def gridExponent (n d : Nat) : Nat := (n / d).log2 - 52

theorem roundDiv_grid_le (n d : Nat) :
    roundDiv n (d * 2 ^ gridExponent n d) ≤ 2 ^ (53 : Nat) := by
  refine Nat.le_trans (roundDiv_le _ _) (Nat.succ_le_of_lt ?_)
  rw [← Nat.div_div_eq_div_mul, Nat.div_lt_iff_lt_mul (Nat.pow_pos (by decide)), ← Nat.pow_add]
  refine Nat.lt_of_lt_of_le (Nat.lt_log2_self (n := n / d)) (Nat.pow_le_pow_right (by decide) ?_)
  unfold gridExponent
  omega

/-- The magnitude nearest to `n / d` units, a tie going to the even step; none from the limit on. -/
def ofRatio? (n d : Nat) : Option Magnitude :=
  let k := gridExponent n d
  let units := roundDiv n (d * 2 ^ k) * 2 ^ k
  if h : units < unitsLimit then some ⟨units, h, dvd_of_le (roundDiv_grid_le n d)⟩ else none

/-- Zero. -/
def zero : Magnitude := ⟨0, unitsLimit_pos, by simp⟩

@[simp] theorem units_zero : zero.units = 0 := rfl

end Magnitude

/-- A double precision number: not a number, an infinity, or a signed magnitude. -/
inductive Binary64 where
  | nan
  | infinite (negative : Bool)
  | finite (negative : Bool) (size : Magnitude)
deriving DecidableEq

namespace Binary64

/-- The double nearest to `± n / d` units, an infinity from the limit on. -/
def ofUnits (negative : Bool) (n d : Nat) : Binary64 :=
  match Magnitude.ofRatio? n d with
  | some size => .finite negative size
  | none => .infinite negative

/-- Positive zero. -/
def zero : Binary64 := .finite false .zero

/-- The double nearest to the quotient of two whole numbers. -/
def ofRatio (n : Int) (d : Nat) : Binary64 :=
  ofUnits (n < 0) (n.natAbs * unitsPerOne) d

/-- The double nearest to a whole number; none where it lies beyond the finite ones. -/
def ofInt? (n : Int) : Option Binary64 :=
  (Magnitude.ofRatio? (n.natAbs * unitsPerOne) 1).map (.finite (n < 0))

/-- The double nearest to a whole number, an infinity beyond the finite ones. -/
def ofInt (n : Int) : Binary64 := ofRatio n 1

/-- The signed units of a finite double. -/
def signedUnits (negative : Bool) (size : Magnitude) : Int :=
  if negative then -size.units else size.units

/-- The double nearest to a sum of signed units; a zero sum has the sign that both parts share. -/
def ofSignedUnits (zeroSign : Bool) (s : Int) : Binary64 :=
  if s = 0 then .finite zeroSign .zero else ofUnits (s < 0) s.natAbs 1

def neg : Binary64 → Binary64
  | .nan => .nan
  | .infinite s => .infinite !s
  | .finite s m => .finite (!s) m

def add : Binary64 → Binary64 → Binary64
  | .nan, _ => .nan
  | _, .nan => .nan
  | .infinite s, .infinite t => if s = t then .infinite s else .nan
  | .infinite s, .finite _ _ => .infinite s
  | .finite _ _, .infinite t => .infinite t
  | .finite s m, .finite t n => ofSignedUnits (s && t) (signedUnits s m + signedUnits t n)

def sub (x y : Binary64) : Binary64 := add x y.neg

def mul : Binary64 → Binary64 → Binary64
  | .nan, _ => .nan
  | _, .nan => .nan
  | .infinite s, .infinite t => .infinite (s ^^ t)
  | .infinite s, .finite t n => if n.units = 0 then .nan else .infinite (s ^^ t)
  | .finite s m, .infinite t => if m.units = 0 then .nan else .infinite (s ^^ t)
  | .finite s m, .finite t n => ofUnits (s ^^ t) (m.units * n.units) unitsPerOne

/-- The quotient; a division by zero gives an infinity, or not a number for a zero numerator. -/
def div : Binary64 → Binary64 → Binary64
  | .nan, _ => .nan
  | _, .nan => .nan
  | .infinite _, .infinite _ => .nan
  | .infinite s, .finite t _ => .infinite (s ^^ t)
  | .finite s _, .infinite t => .finite (s ^^ t) .zero
  | .finite s m, .finite t n =>
    if n.units = 0 then if m.units = 0 then .nan else .infinite (s ^^ t)
    else ofUnits (s ^^ t) (m.units * unitsPerOne) n.units

instance : Neg Binary64 := ⟨neg⟩
instance : Add Binary64 := ⟨add⟩
instance : Sub Binary64 := ⟨sub⟩
instance : Mul Binary64 := ⟨mul⟩
instance : Div Binary64 := ⟨div⟩

def isFinite : Binary64 → Bool
  | .finite _ _ => true
  | _ => false

/-- The place of a number on the extended line, `none` for what has no place: the sign first, then
the signed units, with the infinities outside all of them. -/
def place? : Binary64 → Option Int
  | .nan => none
  | .infinite s => some (if s then -unitsLimit else unitsLimit)
  | .finite s m => some (signedUnits s m)

/-- Strictly less; a number that is none is less than nothing. Both zeros are equal. -/
def lt (x y : Binary64) : Bool :=
  match x.place?, y.place? with
  | some a, some b => a < b
  | _, _ => false

/-- Less or equal, false where one side is not a number. -/
def le (x y : Binary64) : Bool :=
  match x.place?, y.place? with
  | some a, some b => a ≤ b
  | _, _ => false

theorem le_of_lt {x y : Binary64} (h : x.lt y = true) : x.le y = true := by
  unfold lt at h
  unfold le
  split at h
  · simp_all
    omega
  · simp_all

/-- Equal as numbers: both zeros are equal, and what is not a number equals nothing. -/
def same (x y : Binary64) : Bool :=
  match x.place?, y.place? with
  | some a, some b => a = b
  | _, _ => false

/-- Whether the number is a whole one. -/
def isWhole : Binary64 → Bool
  | .finite _ m => m.units % unitsPerOne = 0
  | _ => false

/-- The least whole number not below a finite double. -/
def ceil? : Binary64 → Option Int
  | .finite s m => some (-(Int.fdiv (-signedUnits s m) unitsPerOne))
  | _ => none

/-- A finite double without its fraction. -/
def truncate? : Binary64 → Option Int
  | .finite s m => some (Int.tdiv (signedUnits s m) unitsPerOne)
  | _ => none

/-- The double nearest to `± digits · 10 ^ exponent`. Exponents far outside the range are answered
without computing the power. -/
def ofDecimal (negative : Bool) (digits : Nat) (exponent : Int) : Binary64 :=
  if digits = 0 then .finite negative .zero
  else
    let top := exponent + digitCount 10 digits
    if 400 < top then .infinite negative
    else if top < -400 then .finite negative .zero
    else if 0 ≤ exponent then
      ofUnits negative (digits * 10 ^ exponent.toNat * unitsPerOne) 1
    else ofUnits negative (digits * unitsPerOne) (10 ^ (-exponent).toNat)

end Binary64

end Taskboard
