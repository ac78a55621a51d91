/-!
# Text/Ranges — sets of characters by their boundaries

A set of characters is an increasing list of code points at which membership changes, starting from
"outside". `inRanges` decides membership by walking the list once.
-/

namespace Taskboard

/-- Whether a code point lies in the set whose boundaries are listed: outside before the first
boundary, inside up to the second, and so on. -/
def inRanges : List Nat → Nat → Bool
  | [], _ => false
  | a :: rest, n => if n < a then false else !inRanges rest n

@[simp] theorem inRanges_nil (n : Nat) : inRanges [] n = false := rfl

theorem inRanges_cons_of_lt {a n : Nat} {rest : List Nat} (h : n < a) :
    inRanges (a :: rest) n = false := by simp [inRanges, h]

theorem inRanges_cons_of_le {a n : Nat} {rest : List Nat} (h : a ≤ n) :
    inRanges (a :: rest) n = !inRanges rest n := by simp [inRanges, Nat.not_lt.2 h]

end Taskboard
