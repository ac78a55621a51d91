import Taskboard.Number.Shortest

/-!
# Number/FixedPlaces — decimals with a fixed count of places

`Binary64.fixed places x` writes the exact value of a double rounded to so many places after the
point, a tie going to the even last digit. The sign is kept also where all digits are zero.
-/

namespace Taskboard

-- powers are those of the naturals, also where an importing module knows other ones
attribute [local instance (high)] instPowNat

/-- Digits with a point before the last `places` of them. -/
def placePoint (places : Nat) (n : Nat) : String :=
  let ds := (padZeros (places + 1) (natText n)).toList
  let whole := ds.length - places
  if places = 0 then String.ofList ds
  else String.ofList (ds.take whole ++ '.' :: ds.drop whole)

/-- A double rounded to a count of places, half to even. -/
def Binary64.fixed (places : Nat) : Binary64 → String
  | .nan => "nan"
  | .infinite s => if s then "-inf" else "inf"
  | .finite s m =>
    (if s then "-" else "") ++ placePoint places (roundDiv (m.units * 10 ^ places) unitsPerOne)

end Taskboard
