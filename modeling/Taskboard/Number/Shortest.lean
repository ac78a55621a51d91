import Taskboard.Number.Binary64

/-!
# Number/Shortest — the fewest digits that read back

`Magnitude.shortest` gives a positive magnitude as `digits · 10 ^ exponent` with the fewest digits
among all decimals that round to it, and the nearest of those. A decimal rounds to the magnitude
when it lies in the interval between the midpoints to its neighbours, ends included when the
magnitude is an even step of its grid. For each count of digits only the two neighbours on that
decimal grid are tried: if any point of a grid lies in the interval, one of those does.

`Binary64.text` writes that decimal: positional while the first digit stands between `10 ^ -4` and
`10 ^ 15`, and in scientific form outside.
-/

namespace Taskboard

-- powers are those of the naturals, also where an importing module knows other ones
attribute [local instance (high)] instPowNat

/-- A positive decimal, `digits · 10 ^ exponent`. -/
structure Decimal where
  digits : Nat
  exponent : Int
deriving DecidableEq, Repr

namespace Magnitude

/-- The step of the binary grid on which the magnitude lies, in units. -/
def step (m : Magnitude) : Nat := 2 ^ (m.units.log2 - 52)

/-- A magnitude at the lower end of its binade has a neighbour below at half the distance. -/
def narrowBelow (m : Magnitude) : Bool :=
  m.units.log2 ≥ 53 && m.units == 2 ^ m.units.log2

/-- The least quarter of a unit that rounds to the magnitude, as a multiple. -/
def lowQuarters (m : Magnitude) : Nat :=
  4 * m.units - (if m.narrowBelow then m.step else 2 * m.step)

/-- The greatest quarter of a unit that rounds to the magnitude, as a multiple. -/
def highQuarters (m : Magnitude) : Nat := 4 * m.units + 2 * m.step

/-- Whether the quotient `n / d`, in units, rounds to the magnitude. -/
def covers (m : Magnitude) (n d : Nat) : Bool :=
  if (m.units / m.step) % 2 = 0 then
    m.lowQuarters * d ≤ 4 * n && 4 * n ≤ m.highQuarters * d
  else
    m.lowQuarters * d < 4 * n && 4 * n < m.highQuarters * d

/-- `digits · 10 ^ exponent` in units, as a quotient of whole numbers. -/
def decimalUnits (digits : Nat) (exponent : Int) : Nat × Nat :=
  if 0 ≤ exponent then (digits * 10 ^ exponent.toNat * unitsPerOne, 1)
  else (digits * unitsPerOne, 10 ^ (-exponent).toNat)

/-- The greatest multiple of `10 ^ exponent` not above the magnitude. -/
def decimalFloor (m : Magnitude) (exponent : Int) : Nat :=
  if 0 ≤ exponent then m.units / (unitsPerOne * 10 ^ exponent.toNat)
  else m.units * 10 ^ (-exponent).toNat / unitsPerOne

/-- Of two neighbours on a decimal grid, the one that rounds to the magnitude; of two, the
nearer. -/
def pickDecimal? (m : Magnitude) (exponent : Int) : Option Nat :=
  let low := m.decimalFloor exponent
  let (a, d) := decimalUnits low exponent
  let (b, _) := decimalUnits (low + 1) exponent
  match m.covers a d, m.covers b d with
  | true, true =>
    let below := m.units * d - a
    let above := b - m.units * d
    if below < above then some low
    else if above < below then some (low + 1)
    else if low % 2 = 0 then some low else some (low + 1)
  | true, false => some low
  | false, true => some (low + 1)
  | false, false => none

/-- The exponent of the first decimal digit of a positive magnitude. -/
def decimalTop (m : Magnitude) : Int :=
  if unitsPerOne ≤ m.units then (digitCount 10 (m.units / unitsPerOne) : Int) - 1
  else
    -- the digits of the fraction to 400 places reach the least magnitude
    (digitCount 10 (m.units * 10 ^ (400 : Nat) / unitsPerOne) : Int) - 401

/-- The first grid from the coarsest on that holds a decimal which reads back. -/
def shortestFrom (m : Magnitude) (top : Int) : Nat → Nat → Decimal
  | 0, count => ⟨m.decimalFloor (top - count), top - count⟩
  | fuel + 1, count =>
    match m.pickDecimal? (top - count) with
    | some digits => ⟨digits, top - count⟩
    | none => m.shortestFrom top fuel (count + 1)

/-- **The fewest digits that read back**, the nearest decimal among those. Seventeen digits always
suffice. -/
def shortest (m : Magnitude) : Decimal :=
  if m.units = 0 then ⟨0, 0⟩ else m.shortestFrom m.decimalTop 18 0

end Magnitude

/-- Decimal digits of a number, `0` for zero. -/
def natText (n : Nat) : String := String.ofList (Nat.toDigits 10 n)

/-- Decimal digits with a minus sign before a negative number. -/
def intText (n : Int) : String :=
  if n < 0 then "-" ++ natText n.natAbs else natText n.natAbs

/-- Where a number's text changes form and how its exponent looks. -/
structure RealFormat where
  /-- The first digit's exponents from here on are written positionally. -/
  positionalFrom : Int
  /-- The first digit's exponents below this are written positionally. -/
  positionalBelow : Int
  /-- The least count of digits of an exponent. -/
  exponentDigits : Nat

/-- Reals are positional from `0.0001` to below `10 ^ 16`; an exponent has at least two digits. -/
def realFormat : RealFormat := ⟨-4, 16, 2⟩

/-- Zeros before a text up to a width. -/
def padZeros (width : Nat) (s : String) : String :=
  String.ofList (List.replicate (width - s.length) '0') ++ s

namespace Decimal

/-- The digits without trailing zeros, and the exponent of the first digit. -/
def scientific (x : Decimal) : List Char × Int :=
  let ds := Nat.toDigits 10 x.digits
  let kept := (ds.reverse.dropWhile (· = '0')).reverse
  (if kept.isEmpty then ['0'] else kept, x.exponent + (ds.length : Int) - 1)

/-- A decimal in the library's notation of reals. -/
def text (fmt : RealFormat) (x : Decimal) : String :=
  let (ds, top) := x.scientific
  if fmt.positionalFrom ≤ top && top < fmt.positionalBelow then
    if top < 0 then
      String.ofList ('0' :: '.' :: List.replicate (-top - 1).toNat '0' ++ ds)
    else
      let whole := top.toNat + 1
      let front := ds.take whole ++ List.replicate (whole - ds.length) '0'
      let back := ds.drop whole
      String.ofList (front ++ '.' :: (if back.isEmpty then ['0'] else back))
  else
    let back := ds.drop 1
    let head := ds.take 1 ++ (if back.isEmpty then [] else '.' :: back)
    let sign := if top < 0 then "-" else "+"
    String.ofList head ++ "e" ++ sign ++ padZeros fmt.exponentDigits (natText top.natAbs)

end Decimal

/-- The text of a double: the fewest digits that read back, `inf` and `nan` by name. -/
def Binary64.text : Binary64 → String
  | .nan => "nan"
  | .infinite s => if s then "-inf" else "inf"
  | .finite s m => (if s then "-" else "") ++ m.shortest.text realFormat

end Taskboard
