import Taskboard.Sort.Search

/-!
# Sort/Merge — merging two runs

Two runs that stand side by side are merged from the left or from the right, as the shorter one
asks (`mergeRuns`). `mergeFrom` takes elements one by one, and by leaps once one run has won often
in a row; how often makes a merge leap is a threshold that falls while leaps pay.
-/

namespace Taskboard

variable {α ε : Type}

/-- How a merge takes elements from the heads of two runs. -/
structure MergeRule (ε α : Type) where
  /-- Whether the head of the second run comes before the head of the first. -/
  overtakes : α → α → Except ε Bool
  /-- How many elements of the first run come before one of the second. -/
  lead : α → List α → Except ε Nat
  /-- How many elements of the second run come before one of the first. -/
  follow : α → List α → Except ε Nat
  /-- Whether a round of leaps starts in the first run. -/
  leadsFirst : Bool

namespace MergeRule

variable (before : α → α → Except ε Bool)

/-- Merging from the left: the first run is the left one. -/
def rightward : MergeRule ε α where
  overtakes x y := before y x
  lead y first :=
    let places := first.toArray
    leapAhead (testAt (fun x => (before y x).map not) places) places.size
  follow x second :=
    let places := second.toArray
    leapAhead (testAt (fun y => before y x) places) places.size
  leadsFirst := true

/-- Merging from the right: the first run is the right one, and both are turned round. -/
def leftward : MergeRule ε α where
  overtakes x y := before x y
  lead y first :=
    let places := first.reverse.toArray
    (leapBack (testAt (fun x => before x y) places) places.size).map (places.size - ·)
  follow x second :=
    let places := second.reverse.toArray
    (leapBack (testAt (fun y => (before x y).map not) places) places.size).map (places.size - ·)
  leadsFirst := false

end MergeRule

/-- A merge under way: what has come out, latest first, and what is left of both runs. -/
structure Merging (α : Type) where
  out : List α
  first : List α
  second : List α

namespace Merging

/-- What comes out last without further comparisons, once a run is used up or the first one has a
single element left, which is the last of all. -/
def rest? (m : Merging α) : Option (List α) :=
  match m.first, m.second with
  | xs, [] => some xs
  | [], ys => some ys
  | [x], ys => some (ys ++ [x])
  | _, _ => none

/-- Takes some elements from the head of a run, the first or the second one. -/
def take (first : Bool) (k : Nat) (m : Merging α) : Merging α :=
  if first then ⟨(m.first.take k).reverse ++ m.out, m.first.drop k, m.second⟩
  else ⟨(m.second.take k).reverse ++ m.out, m.first, m.second.drop k⟩

/-- How many elements are left. -/
def size (m : Merging α) : Nat := m.first.length + m.second.length

theorem size_take_le (first : Bool) (k : Nat) (m : Merging α) : (m.take first k).size ≤ m.size := by
  cases first <;> simp [take, size]

theorem ne_nil_of_rest? {m : Merging α} (h : m.rest? = none) : m.first ≠ [] ∧ m.second ≠ [] := by
  unfold rest? at h
  split at h <;> simp_all

theorem size_take_one_lt (first : Bool) {m : Merging α} (h : m.rest? = none) :
    (m.take first 1).size < m.size := by
  obtain ⟨h1, h2⟩ := ne_nil_of_rest? h
  have := List.length_pos_iff.mpr h1
  have := List.length_pos_iff.mpr h2
  cases first <;>
    simp only [take, size, List.length_drop, Bool.false_eq_true, if_true, if_false] <;> omega

end Merging

/-- How a merge goes on. -/
inductive Pace where
  /-- One by one, after so many elements in a row from the first run or the second. -/
  | single (first second : Nat)
  /-- With a round of leaps, the first one or another. -/
  | leap (again : Bool)
  /-- With the second half of a round, after a leap over so many elements. -/
  | land (k : Nat)

/-- Leaps over fewer elements do not pay. -/
def payingLeap : Nat := 7

namespace MergeRule

/-- Whether the second run gives the next element. -/
def secondNext (c : MergeRule ε α) (m : Merging α) : Except ε Bool :=
  match m.first, m.second with
  | x :: _, y :: _ => c.overtakes x y
  | _, _ => .ok false

/-- How many elements of a run come before the head of the other one. -/
def reach (c : MergeRule ε α) (first : Bool) (m : Merging α) : Except ε Nat :=
  match m.first, m.second with
  | x :: _, y :: _ => if first then c.lead y m.first else c.follow x m.second
  | _, _ => .ok 0

/-- **Merges two runs**, and gives the threshold for the next merge. -/
def mergeFrom (c : MergeRule ε α) (pace : Pace) (threshold : Nat) (m : Merging α) :
    Except ε (List α × Nat) :=
  match _h : m.rest? with
  | some rest => .ok (m.out.reverse ++ rest, threshold)
  | none =>
    match pace with
    | .single a b => (c.secondNext m).bind fun second =>
      let a := if second then 0 else a + 1
      let b := if second then b + 1 else 0
      let pace := if threshold ≤ max a b then .leap false else .single a b
      c.mergeFrom pace threshold (m.take (!second) 1)
    | .leap again =>
      let threshold := if again && decide (1 < threshold) then threshold - 1 else threshold
      (c.reach c.leadsFirst m).bind fun k =>
        let m₁ := m.take c.leadsFirst k
        match _h₁ : m₁.rest? with
        | some rest => .ok (m₁.out.reverse ++ rest, threshold)
        | none => c.mergeFrom (.land k) threshold (m₁.take (!c.leadsFirst) 1)
    | .land k₁ => (c.reach (!c.leadsFirst) m).bind fun k =>
      let m₁ := m.take (!c.leadsFirst) k
      match _h₁ : m₁.rest? with
      | some rest => .ok (m₁.out.reverse ++ rest, threshold)
      | none =>
        let m₂ := m₁.take c.leadsFirst 1
        if payingLeap ≤ max k₁ k then c.mergeFrom (.leap true) threshold m₂
        else
          -- leaping again is made harder, but not by a merge that is over
          let threshold := if m₂.rest?.isNone then threshold + 1 else threshold
          c.mergeFrom (.single 0 0) threshold m₂
termination_by m.size
decreasing_by
  · exact Merging.size_take_one_lt _ _h
  all_goals
    exact Nat.lt_of_lt_of_le (Merging.size_take_one_lt _ _h₁) (Merging.size_take_le _ _ _)

end MergeRule

/-- **Merges two runs that stand side by side.** What is in place already at both ends stays. -/
def mergeRuns (before : α → α → Except ε Bool) (threshold : Nat) (left right : List α) :
    Except ε (List α × Nat) :=
  match right with
  | [] => .ok (left, threshold)
  | y :: _ => ((MergeRule.rightward before).lead y left).bind fun k =>
    match (left.drop k).getLast? with
    | none => .ok (left ++ right, threshold)
    | some x => ((MergeRule.leftward before).lead x right.reverse).bind fun t =>
      let kept := right.length - t
      let first := left.drop k
      let second := right.take kept
      if kept = 0 then .ok (left ++ right, threshold)
      else if first.length ≤ kept then
        let m : Merging α := ⟨(left.take k).reverse, first, second⟩
        ((MergeRule.rightward before).mergeFrom (.single 0 0) threshold (m.take false 1)).map
          fun (merged, threshold) => (merged ++ right.drop kept, threshold)
      else
        let m : Merging α := ⟨right.drop kept, second.reverse, first.reverse⟩
        ((MergeRule.leftward before).mergeFrom (.single 0 0) threshold (m.take false 1)).map
          fun (merged, threshold) => (left.take k ++ merged.reverse, threshold)

end Taskboard
