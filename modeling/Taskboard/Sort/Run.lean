import Taskboard.Sort.Search

/-!
# Sort/Run — runs of a list

A run is a part of a list that is in order already. `firstRun` takes the longest one at the start of
a list, turned round if it falls, and `insertAll` puts further elements into a run by halving.
The test says whether an element, the later one in the list, stands before another; it may fail.
-/

namespace Taskboard

variable {α ε : Type}

/-- The part of a list that goes on rising after an element. -/
def risingRun (before : α → α → Except ε Bool) (last : α) : List α → Except ε (List α)
  | [] => .ok []
  | x :: xs => (before x last).bind fun b =>
    if b then .ok [] else (risingRun before x xs).map (x :: ·)

/-- The part of a list that goes on falling after an element. -/
def fallingRun (before : α → α → Except ε Bool) (last : α) : List α → Except ε (List α)
  | [] => .ok []
  | x :: xs => (before x last).bind fun b =>
    if b then (fallingRun before x xs).map (x :: ·) else .ok []

/-- The longest run at the start of a list, in rising order. -/
def firstRun (before : α → α → Except ε Bool) : List α → Except ε (List α)
  | [] => .ok []
  | [x] => .ok [x]
  | x :: y :: ys => (before y x).bind fun b =>
    if b then (fallingRun before y ys).map fun run => (x :: y :: run).reverse
    else (risingRun before y ys).map fun run => x :: y :: run

/-- A run with one more element, after all that it does not stand before. -/
def insertSorted (before : α → α → Except ε Bool) (run : List α) (x : α) : Except ε (List α) :=
  let places := run.toArray
  (bisect (testAt (fun y => (before x y).map not) places) 0 places.size).map fun i =>
    run.take i ++ x :: run.drop i

/-- Puts elements into a run one after another. -/
def insertAll (before : α → α → Except ε Bool) (run : List α) : List α → Except ε (List α)
  | [] => .ok run
  | x :: xs => (insertSorted before run x).bind fun run => insertAll before run xs

/-- The least length of the runs of a long list: what is left of its length after enough halvings,
plus one if a halving had a remainder. -/
def leastRun (spill length : Nat) : Nat :=
  if length < 64 then length + spill else leastRun (max spill (length % 2)) (length / 2)

/-- The run that starts a list, made to have a least length if the list has it. -/
def nextRun (before : α → α → Except ε Bool) (least : Nat) (xs : List α) : Except ε (List α) :=
  (firstRun before xs).bind fun run =>
    insertAll before run ((xs.drop run.length).take (least - run.length))

end Taskboard
