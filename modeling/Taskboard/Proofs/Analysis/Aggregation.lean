import Mathlib.Data.List.Induction
import Taskboard.Analysis.Metric
import Taskboard.Proofs.Calendar.Midnight
import Taskboard.Proofs.Value.Measures

/-!
# Proofs/Analysis/Aggregation — the number of a metric

A metric reads the numbers that tasks have in an attribute and passes over what is none.  It fails
for one reason, a whole number beyond the doubles (`Metric.evaluate_eq`); else its number is
`Metric.valueOf`, which is made of the values that are numbers, `inf` and `nan` among them.

* `Binary64.ofInt_add` — counts of tasks add up exactly.
-/

namespace Taskboard

-- powers and sums are those of the naturals, also where an importing module knows other ones
attribute [local instance (high)] instPowNat Zero.ofOfNat0

/-! ## Sums of counts -/

namespace Binary64

attribute [local irreducible] unitsPerOne

theorem finite_add_finite (s t : Bool) (m n : Magnitude) : finite s m + finite t n
    = ofSignedUnits (s && t) (signedUnits s m + signedUnits t n) := by
  change add (finite s m) (finite t n) = _
  rw [add]

/-- The units of a whole number of few bits make that number. -/
theorem ofSignedUnits_whole {n : Nat} (h : n < 2 ^ (53 : Nat)) :
    ofSignedUnits false ((n : Int) * unitsPerOne) = ofInt n := by
  rcases Nat.eq_zero_or_pos n with rfl | hn
  · decide +kernel
  have hunits : ((n : Int) * unitsPerOne).natAbs = (Magnitude.whole n h).units * 1 := by
    rw [Int.natAbs_mul, Int.natAbs_natCast, Int.natAbs_natCast, Nat.mul_one, Magnitude.units_whole]
  have hpos : 0 < (n : Int) * unitsPerOne :=
    Int.mul_pos (Int.natCast_pos.mpr hn) (Int.natCast_pos.mpr unitsPerOne_pos)
  rw [ofInt_whole (n := n) h, ofSignedUnits, if_neg (Int.ne_of_gt hpos),
    decide_eq_false (Int.not_lt.mpr (Int.le_of_lt hpos)), hunits, ofUnits_units _ _ Nat.one_pos,
    decide_eq_false (Int.not_lt.mpr (Int.natCast_nonneg n))]
  rfl

/-- **Whole numbers of few bits add up exactly.** -/
theorem ofInt_add {a b : Nat} (h : a + b < 2 ^ (53 : Nat)) :
    ofInt a + ofInt b = ofInt ((a + b : Nat) : Int) := by
  have ha : (a : Int).natAbs < 2 ^ (53 : Nat) := Nat.lt_of_le_of_lt (Nat.le_add_right a b) h
  have hb : (b : Int).natAbs < 2 ^ (53 : Nat) := Nat.lt_of_le_of_lt (Nat.le_add_left b a) h
  rw [ofInt_whole ha, ofInt_whole hb, finite_add_finite, signedUnits_whole, signedUnits_whole,
    ← Int.add_mul, ← Int.natCast_add, decide_eq_false (Int.not_lt.mpr (Int.natCast_nonneg a)),
    Bool.false_and, ofSignedUnits_whole h]

theorem isFinite_ofUnits (s : Bool) (n d : Nat) :
    (ofUnits s n d).isFinite = (Magnitude.ofRatio? n d).isSome := by
  unfold ofUnits
  generalize Magnitude.ofRatio? n d = o
  cases o <;> rfl

/-- A whole number is finite as a double unless it is beyond the doubles. -/
theorem isFinite_ofInt (n : Int) : (ofInt n).isFinite = (ofInt? n).isSome := by
  rw [ofInt, ofRatio, isFinite_ofUnits, ofInt?, Option.isSome_map]

end Binary64

namespace Metric

theorem sum_concat (xs : List Binary64) (x : Binary64) : sum (xs ++ [x]) = sum xs + x := by
  rw [sum, List.foldl_append]
  rfl

/-- **Counts add up exactly**, up to a number of few bits. -/
theorem sum_ofInt {ns : List Nat} (h : ns.sum < 2 ^ (53 : Nat)) :
    sum (ns.map fun n : Nat => Binary64.ofInt n) = Binary64.ofInt ns.sum := by
  induction ns using List.reverseRecOn with
  | nil => decide +kernel
  | append_singleton ns n ih =>
    rw [List.sum_append, List.sum_singleton] at h ⊢
    rw [List.map_append, List.map_singleton, sum_concat,
      ih (Nat.lt_of_le_of_lt (Nat.le_add_right _ _) h), Binary64.ofInt_add h]

/-! ## The numbers that are read -/

/-- The numbers that tasks have in an attribute; what is no number is passed over. -/
def numbersIn (attr : String) (tasks : List Task) : List Binary64 :=
  tasks.filterMap fun t => (t.get attr).toReal.toOption

/-- A value is beyond the doubles, or a number, or passed over. -/
theorem toReal_cases (v : Value) : v.inReals = false ∧ v.toReal = .error .numberTooLarge ∨
    v.inReals = true ∧ ((∃ x, v.toReal = .ok x) ∨
      ∃ f, v.toReal = .error f ∧ f ≠ .numberTooLarge) := by
  cases hreals : v.inReals with
  | false => exact .inl ⟨rfl, Value.toReal_of_not_inReals hreals⟩
  | true =>
    refine .inr ⟨rfl, ?_⟩
    cases hv : v.toReal with
    | ok x => exact .inl ⟨x, rfl⟩
    | error f =>
      refine .inr ⟨f, rfl, fun hf => ?_⟩
      have hshape := (Value.isBadShape_of_toReal hv).trans hreals
      rw [hf] at hshape
      exact absurd hshape (by decide)

/-- **The numbers of tasks are there unless one is beyond the doubles.** -/
theorem numbers_eq (attr : String) (tasks : List Task) :
    numbers attr tasks = if tasks.all fun t => (t.get attr).inReals then .ok (numbersIn attr tasks)
      else .error .numberTooLarge := by
  induction tasks with
  | nil => rfl
  | cons t ts ih =>
    rw [numbersIn, List.all_cons, List.filterMap_cons, ← numbersIn]
    obtain ⟨hfar, hv⟩ | ⟨hreals, ⟨x, hv⟩ | ⟨f, hv, hf⟩⟩ := toReal_cases (t.get attr)
    · simp only [numbers, hfar, hv, Bool.false_and, Bool.false_eq_true, if_false]
    · simp only [numbers, hreals, hv, Bool.true_and, ih, Except.toOption]
      split
      · rfl
      · rfl
    · simp only [numbers, hreals, hv, Bool.true_and, ih, Except.toOption]

/-- Whether a metric does no more than count. -/
def countsOnly (m : Metric) : Bool := m.aggregation = .count || m.attr = ""

/-- Whether a metric has a number for some tasks. -/
def takes (m : Metric) (tasks : List Task) : Bool :=
  m.countsOnly || tasks.all fun t => (t.get m.attr).inReals

/-- **The number of a metric for some tasks**, where it has one. -/
def valueOf (m : Metric) (tasks : List Task) : Binary64 :=
  if m.countsOnly then countOf tasks
  else if (numbersIn m.attr tasks).isEmpty then .zero
  else if m.aggregation = .sum then sum (numbersIn m.attr tasks)
  else sum (numbersIn m.attr tasks) / countOf (numbersIn m.attr tasks)

theorem valueOf_of_countsOnly {m : Metric} (h : m.countsOnly = true) (tasks : List Task) :
    m.valueOf tasks = countOf tasks := if_pos h

/-- A count is finite if it is far within the doubles. -/
theorem isFinite_countOf {α : Type} {xs : List α} (h : xs.length ≤ 2 ^ (1000 : Nat)) :
    (countOf xs).isFinite = true := by
  have hreals : (Value.int xs.length).inReals = true :=
    Value.inReals_of_natAbs_le (Nat.le_trans h (by decide +kernel))
  rw [countOf, Binary64.isFinite_ofInt]
  exact hreals

/-- **A metric fails only for a whole number beyond the doubles.** -/
theorem evaluate_eq (m : Metric) (tasks : List Task) :
    m.evaluate tasks = if m.takes tasks then .ok (m.valueOf tasks) else .error .numberTooLarge := by
  rw [evaluate, numbers_eq, takes, valueOf, countsOnly]
  by_cases hcount : m.aggregation = .count ∨ m.attr = ""
  · rw [if_pos hcount]
    simp [hcount]
  · rw [if_neg hcount]
    simp only [← Bool.decide_or, hcount, decide_false, Bool.false_or, Bool.false_eq_true, if_false]
    cases tasks.all fun t => (t.get m.attr).inReals with
    | false => rfl
    | true => rfl

end Metric

end Taskboard
