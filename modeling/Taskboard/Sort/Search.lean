/-!
# Sort/Search — looking for a place by a test that may fail

A test of places passes on the first ones and not on the rest; sought is the place where it changes.
`bisect` halves the part in question. `leapAhead` and `leapBack` first take strides from one end,
each longer than the one before, which is quick where the place is near that end. A test that
changes more than once still gives a definite place.
-/

namespace Taskboard

variable {α ε : Type}

/-- The place between two bounds where a test stops passing, found by halving. -/
def bisect (passes : Nat → Except ε Bool) (low high : Nat) : Except ε Nat :=
  if _h : low < high then
    let middle := (low + high) / 2
    (passes middle).bind fun b =>
      if b then bisect passes (middle + 1) high else bisect passes low middle
  else .ok low
termination_by high - low
decreasing_by all_goals omega

/-- Strides from a place on while the test passes: the last place that passed, and the next one,
which is none of the places from the limit on. -/
def stride (passes : Nat → Except ε Bool) (limit last next : Nat) : Except ε (Nat × Nat) :=
  if _h : next < limit then
    (passes next).bind fun b =>
      if b then stride passes limit next (2 * next + 1) else .ok (last, next)
  else .ok (last, limit)
termination_by limit - next
decreasing_by omega

/-- The place among some where a test stops passing, sought from the first one on. -/
def leapAhead (passes : Nat → Except ε Bool) (count : Nat) : Except ε Nat :=
  (passes 0).bind fun b =>
    if b then (stride passes count 0 1).bind fun (last, next) => bisect passes (last + 1) next
    else .ok 0

/-- The place among some where a test stops passing, sought from the last one back. -/
def leapBack (passes : Nat → Except ε Bool) (count : Nat) : Except ε Nat :=
  (passes (count - 1)).bind fun b =>
    if b then .ok count
    else
      (stride (fun i => (passes (count - 1 - i)).map not) count 0 1).bind fun (last, next) =>
        bisect passes (count - next) (count - 1 - last)

/-- The test of the element at a place. -/
def testAt (test : α → Except ε Bool) (xs : Array α) (i : Nat) : Except ε Bool :=
  match xs[i]? with
  | some x => test x
  | none => .ok false

end Taskboard
