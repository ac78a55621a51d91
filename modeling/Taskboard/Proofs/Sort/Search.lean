import Mathlib.Data.List.Chain
import Taskboard.Sort.Search

/-!
# Proofs/Sort/Search — what a search finds

`Yields safe x P` says of an operation that may fail that its result satisfies `P`, and that there
is a result if it is `safe`.  The searches find a place between one that passed and one that did
not, whether or not the test changes only once (`bisect_yields`, `leapAhead_yields`,
`leapBack_yields`); on the elements of a list this place is `Between` in a relation that the test
decides.
-/

namespace Taskboard

/-! ## Operations that may fail -/

section Yields

variable {α β ε : Type} {safe : Prop} {P : α → Prop} {Q : β → Prop}

/-- **What an operation gives satisfies a property**, and if it is safe it gives something. -/
def Yields (safe : Prop) (x : Except ε α) (P : α → Prop) : Prop :=
  match x with
  | .ok a => P a
  | .error _ => ¬ safe

@[simp] theorem yields_ok {a : α} : Yields safe (.ok a : Except ε α) P ↔ P a := Iff.rfl

namespace Yields

theorem mono {P' : α → Prop} {x : Except ε α} (h : Yields safe x P) (hP : ∀ a, P a → P' a) :
    Yields safe x P' := by
  cases x with
  | ok a => exact hP a h
  | error e => exact h

theorem bind {x : Except ε α} {f : α → Except ε β} (h : Yields safe x P)
    (hf : ∀ a, P a → Yields safe (f a) Q) : Yields safe (x.bind f) Q := by
  cases x with
  | ok a => exact hf a h
  | error e => exact h

theorem map {x : Except ε α} {f : α → β} (h : Yields safe x P) (hf : ∀ a, P a → Q (f a)) :
    Yields safe (x.map f) Q := by
  cases x with
  | ok a => exact hf a h
  | error e => exact h

/-- What is safe gives a result. -/
theorem exists_eq_ok {x : Except ε α} (h : Yields safe x P) (hsafe : safe) :
    ∃ a, x = .ok a ∧ P a := by
  cases x with
  | ok a => exact ⟨a, rfl, h⟩
  | error e => exact absurd hsafe h

end Yields

end Yields

variable {α ε : Type} {safe : Prop}

/-! ## Places -/

section Places

variable {passes : Nat → Except ε Bool} {P Q : Nat → Prop}

/-- The test says of a place that it has the property of those that pass, or of those that fail. -/
def Tells (safe : Prop) (passes : Nat → Except ε Bool) (P Q : Nat → Prop) (i : Nat) : Prop :=
  Yields safe (passes i) fun b => if b then P i else Q i

/-- **Halving finds a place between one that passed and one that failed**, or an end of the part. -/
theorem bisect_yields (low high : Nat) (hle : low ≤ high)
    (h : ∀ i, low ≤ i → i < high → Tells safe passes P Q i) :
    Yields safe (bisect passes low high) fun k =>
      low ≤ k ∧ k ≤ high ∧ (k = low ∨ P (k - 1)) ∧ (k = high ∨ Q k) := by
  rw [bisect]
  split
  next hlt =>
    refine (h ((low + high) / 2) (by omega) (by omega)).bind fun b hb => ?_
    cases b with
    | true =>
      have hrest := bisect_yields ((low + high) / 2 + 1) high (by omega)
        fun i hl hh => h i (by omega) hh
      refine hrest.mono fun k ⟨hl, hh, hp, hq⟩ => ⟨by omega, hh, Or.inr ?_, hq⟩
      rcases hp with rfl | hp
      · exact hb
      · exact hp
    | false =>
      have hrest := bisect_yields low ((low + high) / 2) (by omega)
        fun i hl hh => h i hl (by omega)
      refine hrest.mono fun k ⟨hl, hh, hp, hq⟩ => ⟨hl, by omega, hp, Or.inr ?_⟩
      rcases hq with rfl | hq
      · exact hb
      · exact hq
  next hge =>
    have : low = high := by omega
    simp [this]
  termination_by high - low

/-- Strides end between a place that passed and one that failed, or at the limit. -/
theorem stride_yields (limit last next : Nat) (hlast : last < next) (hlimit : last < limit)
    (hp : P last) (h : ∀ i < limit, Tells safe passes P Q i) :
    Yields safe (stride passes limit last next) fun r =>
      r.1 < r.2 ∧ r.2 ≤ limit ∧ P r.1 ∧ (r.2 = limit ∨ Q r.2) := by
  rw [stride]
  split
  next hlt =>
    refine (h next hlt).bind fun b hb => ?_
    cases b with
    | true => exact stride_yields limit next (2 * next + 1) (by omega) hlt hb h
    | false => exact ⟨hlast, by omega, hp, Or.inr hb⟩
  next hge => exact ⟨hlimit, le_refl _, hp, Or.inl rfl⟩
  termination_by limit - next

theorem leapAhead_yields {count : Nat} (hpos : 0 < count)
    (h : ∀ i < count, Tells safe passes P Q i) :
    Yields safe (leapAhead passes count) fun k =>
      k ≤ count ∧ (k = 0 ∨ P (k - 1)) ∧ (k = count ∨ Q k) := by
  refine (h 0 hpos).bind fun b hb => ?_
  cases b with
  | true =>
    refine (stride_yields count 0 1 (by omega) hpos hb h).bind fun r ⟨hlt, hle, hp, hq⟩ => ?_
    have hrest := bisect_yields (r.1 + 1) r.2 (by omega) fun i _ hh => h i (by omega)
    refine hrest.mono fun k ⟨hl, hh, hk, hk'⟩ => ⟨by omega, Or.inr ?_, ?_⟩
    · rcases hk with rfl | hk
      · exact hp
      · exact hk
    · rcases hk' with rfl | hk'
      · exact hq
      · exact Or.inr hk'
  | false => exact ⟨by omega, Or.inl rfl, Or.inr hb⟩

/-- A test of the places from the last one back. -/
theorem Tells.mirror {count i : Nat} (h : Tells safe passes P Q (count - 1 - i)) :
    Tells safe (fun i => (passes (count - 1 - i)).map not) (fun i => Q (count - 1 - i))
      (fun i => P (count - 1 - i)) i :=
  Yields.map h fun b hb => by cases b <;> simpa using hb

theorem leapBack_yields {count : Nat} (hpos : 0 < count)
    (h : ∀ i < count, Tells safe passes P Q i) :
    Yields safe (leapBack passes count) fun k =>
      k ≤ count ∧ (k = 0 ∨ P (k - 1)) ∧ (k = count ∨ Q k) := by
  refine (h (count - 1) (by omega)).bind fun b hb => ?_
  cases b with
  | true => exact ⟨le_refl _, Or.inr hb, Or.inl rfl⟩
  | false =>
    have hback : ∀ i < count, Tells safe (fun i => (passes (count - 1 - i)).map not)
        (fun i => Q (count - 1 - i)) (fun i => P (count - 1 - i)) i :=
      fun i _ => (h (count - 1 - i) (by omega)).mirror
    refine (stride_yields count 0 1 (by omega) hpos hb hback).bind fun r ⟨hlt, hle, hq, hp⟩ => ?_
    have hrest := bisect_yields (P := P) (Q := Q) (count - r.2) (count - 1 - r.1) (by omega)
      fun i _ _ => h i (by omega)
    refine hrest.mono fun k ⟨hl, hh, hk, hk'⟩ => ⟨by omega, ?_, ?_⟩
    · rcases hk with rfl | hk
      · rcases hp with hp | hp
        · exact Or.inl (by omega)
        · exact Or.inr ((by omega : count - 1 - r.2 = count - r.2 - 1) ▸ hp)
      · exact Or.inr hk
    · rcases hk' with rfl | hk'
      · exact Or.inr hq
      · exact Or.inr hk'

end Places

/-! ## Places in a list -/

/-- A place in a list stands between what comes before an element and what comes after it. -/
def Between (R : α → α → Prop) (xs : List α) (y : α) (k : Nat) : Prop :=
  (∀ x ∈ (xs.take k).getLast?, R x y) ∧ ∀ x ∈ (xs.drop k).head?, R y x

/-- A place after one that passed and not after one that failed. -/
theorem between_of_places {R : α → α → Prop} {xs : List α} {y : α} {k : Nat} (hk : k ≤ xs.length)
    (hp : k = 0 ∨ ∀ x ∈ xs[k - 1]?, R x y) (hq : k = xs.length ∨ ∀ x ∈ xs[k]?, R y x) :
    Between R xs y k := by
  constructor
  · intro x hx
    rw [List.getLast?_take] at hx
    rcases hp with rfl | hp
    · simp at hx
    · split at hx
      · simp at hx
      · rw [List.getElem?_eq_getElem (by omega)] at hx hp
        exact hp x (by simpa using hx)
  · intro x hx
    rw [List.head?_drop] at hx
    rcases hq with rfl | hq
    · simp at hx
    · exact hq x hx

/-- The test of the elements of a list tells at each place what it tells of the element. -/
theorem tells_testAt {test : α → Except ε Bool} {xs : List α} {P Q : α → Prop}
    (h : ∀ x ∈ xs, Yields safe (test x) fun b => if b then P x else Q x) :
    ∀ i < xs.length, Tells safe (testAt test xs.toArray) (fun i => ∀ x ∈ xs[i]?, P x)
      (fun i => ∀ x ∈ xs[i]?, Q x) i := by
  intro i hi
  have hget : testAt test xs.toArray i = test xs[i] := by
    rw [testAt, List.getElem?_toArray, List.getElem?_eq_getElem hi]
  rw [Tells, hget]
  refine (h xs[i] (List.getElem_mem hi)).mono fun b hb => ?_
  rw [List.getElem?_eq_getElem hi]
  simpa using hb

end Taskboard
