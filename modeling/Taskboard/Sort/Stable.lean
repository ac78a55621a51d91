import Taskboard.Sort.Merge
import Taskboard.Sort.Run

/-!
# Sort/Stable — sorting a list by a test that may fail

`stableSort before xs` cuts a list into runs from left to right and merges them, neighbours with
neighbours. Runs that belong together by `runPower`, which asks for the middles of two neighbouring
runs how deep the list has to be halved to part them, are merged while the list is cut, and the rest
at the end. The test is only asked whether an element that stood later comes before one that stood
earlier, so a test that is no order still gives a definite result.
-/

namespace Taskboard

-- powers and sums are those of the naturals, also where an importing module knows other ones
attribute [local instance (high)] instPowNat Zero.ofOfNat0

variable {α ε : Type}

/-- How often a list has to be halved until the middles of two runs that stand side by side lie in
different parts. -/
def runPower (total start left right : Nat) : Nat :=
  let a := 2 * start + left
  let b := a + left + right
  let parted (i : Nat) : Bool := a * 2 ^ i / total ≠ b * 2 ^ i / total
  ((List.range (total.log2 + 2)).find? parted).getD 0 + 1

/-- Runs that wait to be merged, the latest first, each with its power towards the next one. -/
abbrev Pile (α : Type) := List (List α × Nat)

/-- A run on top of a pile, after it was merged with those below that are deeper parted. -/
def settle (before : α → α → Except ε Bool) (power threshold : Nat) (top : List α) :
    Pile α → Except ε (Pile α × Nat)
  | [] => .ok ([(top, power)], threshold)
  | (under, p) :: below =>
    if power < p then (mergeRuns before threshold under top).bind fun (run, threshold) =>
      settle before power threshold run below
    else .ok ((top, power) :: (under, p) :: below, threshold)

/-- Merges all runs that wait, the latest first. -/
def collapse (before : α → α → Except ε Bool) (threshold : Nat) (top : List α) :
    List (List α) → Except ε (List α)
  | [] => .ok top
  | [under] => (mergeRuns before threshold under top).map Prod.fst
  | under :: deeper :: below =>
    if deeper.length < top.length then
      (mergeRuns before threshold deeper under).bind fun (run, threshold) =>
        collapse before threshold top (run :: below)
    else
      (mergeRuns before threshold under top).bind fun (run, threshold) =>
        collapse before threshold run (deeper :: below)
termination_by below => below.length

/-- Cuts a list into runs of a least length and merges them, with a run and a pile from before. -/
def mergeAll (before : α → α → Except ε Bool) (least total threshold : Nat) (top : List α)
    (below : Pile α) : List α → Except ε (List α)
  | [] => collapse before threshold top (below.map Prod.fst)
  | x :: xs => (nextRun before least (x :: xs)).bind fun run =>
    let start := (below.map fun r => r.1.length).sum
    let power := runPower total start top.length run.length
    (settle before power threshold top below).bind fun (below, threshold) =>
      mergeAll before least total threshold run below (xs.drop (run.length - 1))
termination_by xs => xs.length
decreasing_by
  rw [List.length_drop, List.length_cons]
  omega

/-- Sorts a list by a test that may fail. -/
def sortRuns (before : α → α → Except ε Bool) (xs : List α) : Except ε (List α) :=
  let least := leastRun 0 xs.length
  (nextRun before least xs).bind fun run =>
    mergeAll before least xs.length payingLeap run [] (xs.drop run.length)

/-- **Sorts a list by a test that may fail.** The elements go with their places in the list, which
keep equal ones apart and are not compared. -/
def stableSort (before : α → α → Except ε Bool) (xs : List α) : Except ε (List α) :=
  (sortRuns (fun a b => before a.1 b.1) xs.zipIdx).map fun sorted => sorted.map Prod.fst

end Taskboard
