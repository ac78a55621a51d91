/-!
# Number/Rounding — the nearest integer to a quotient

`roundDiv n d` is the integer nearest to `n / d`; of two equally near ones it is the even one. Every
inexact number of the library is made by it: the doubles (`Number/Binary64`), the decimals with
fixed places (`Number/FixedPlaces`), the microseconds of an instant (`Calendar/Moment`).
-/

namespace Taskboard

/-- The integer nearest to `n / d`, a tie going to the even neighbour. -/
def roundDiv (n d : Nat) : Nat :=
  if 2 * (n % d) < d then n / d
  else if d < 2 * (n % d) then n / d + 1
  else if n / d % 2 = 0 then n / d
  else n / d + 1

theorem div_le_roundDiv (n d : Nat) : n / d ≤ roundDiv n d := by
  unfold roundDiv
  repeat' split
  all_goals omega

theorem roundDiv_le (n d : Nat) : roundDiv n d ≤ n / d + 1 := by
  unfold roundDiv
  repeat' split
  all_goals omega

/-- A whole quotient is its own nearest integer. -/
theorem roundDiv_mul_self (n : Nat) {d : Nat} (h : 0 < d) : roundDiv (n * d) d = n := by
  simp [roundDiv, Nat.mul_mod_left, Nat.mul_div_cancel n h, h]

/-- How many digits a number has in base `b`, none for zero. -/
def digitCount (b n : Nat) : Nat :=
  if h : 2 ≤ b ∧ 0 < n then digitCount b (n / b) + 1 else 0
termination_by n
decreasing_by exact Nat.div_lt_self h.2 h.1

theorem digitCount_le {b n : Nat} : digitCount b n ≤ n := by
  induction n using Nat.strongRecOn with
  | ind n ih =>
    rw [digitCount]
    split
    · next h =>
      have hlt : n / b < n := Nat.div_lt_self h.2 h.1
      exact Nat.succ_le_of_lt (Nat.lt_of_le_of_lt (ih _ hlt) hlt)
    · exact Nat.zero_le n

end Taskboard
