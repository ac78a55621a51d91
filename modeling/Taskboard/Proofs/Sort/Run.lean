import Taskboard.Proofs.Sort.Search
import Taskboard.Sort.Run

/-!
# Proofs/Sort/Run — runs are in order

A test `Decides` a relation on an earlier and a later element if it puts them into it one way or the
other.  Where it decides the relation on all pairs of a list, each element of a run (`nextRun`)
stands in the relation to the one after it, and the run holds the elements at the start of the list.
Nothing is asked of the relation itself: only neighbours are spoken of.
-/

namespace Taskboard

variable {α ε : Type} {safe : Prop} {before : α → α → Except ε Bool} {R : α → α → Prop}

/-- The test puts an earlier and a later element into the relation, in the order of its answer. -/
def Decides (safe : Prop) (before : α → α → Except ε Bool) (R : α → α → Prop) (a b : α) : Prop :=
  Yields safe (before b a) fun r => if r then R b a else R a b

/-! ## The run at the start -/

theorem risingRun_yields (last : α) : ∀ xs : List α, (last :: xs).Pairwise (Decides safe before R) →
    Yields safe (risingRun before last xs) fun run => run <+: xs ∧ (last :: run).IsChain R
  | [], _ => by simp [risingRun]
  | x :: xs, h => by
    obtain ⟨hlast, hxs⟩ := List.pairwise_cons.mp h
    refine (hlast x List.mem_cons_self).bind fun b hb => ?_
    cases b with
    | true => exact ⟨List.nil_prefix, .singleton _⟩
    | false =>
      exact (risingRun_yields x xs hxs).map fun run ⟨hpre, hrun⟩ =>
        ⟨List.cons_prefix_cons.mpr ⟨rfl, hpre⟩, hrun.cons_cons hb⟩

theorem fallingRun_yields (last : α) :
    ∀ xs : List α, (last :: xs).Pairwise (Decides safe before R) →
      Yields safe (fallingRun before last xs) fun run =>
        run <+: xs ∧ (last :: run).IsChain fun a b => R b a
  | [], _ => by simp [fallingRun]
  | x :: xs, h => by
    obtain ⟨hlast, hxs⟩ := List.pairwise_cons.mp h
    refine (hlast x List.mem_cons_self).bind fun b hb => ?_
    cases b with
    | true =>
      exact (fallingRun_yields x xs hxs).map fun run ⟨hpre, hrun⟩ =>
        ⟨List.cons_prefix_cons.mpr ⟨rfl, hpre⟩, hrun.cons_cons hb⟩
    | false => exact ⟨List.nil_prefix, .singleton _⟩

/-- A run of a list: the elements at its start, each in the relation to the one after it. -/
structure IsRun (R : α → α → Prop) (xs run : List α) : Prop where
  perm : run.Perm (xs.take run.length)
  chain : run.IsChain R
  ne_nil : xs ≠ [] → run ≠ []

theorem isRun_of_prefix {xs pre run : List α} (hpre : pre <+: xs) (hperm : run.Perm pre)
    (hrun : run.IsChain R) (hne : xs ≠ [] → run ≠ []) : IsRun R xs run where
  perm := by rwa [hperm.length_eq, ← List.prefix_iff_eq_take.mp hpre]
  chain := hrun
  ne_nil := hne

theorem firstRun_yields : ∀ xs : List α, xs.Pairwise (Decides safe before R) →
    Yields safe (firstRun before xs) (IsRun R xs)
  | [], _ => ⟨.nil, .nil, fun h => absurd rfl h⟩
  | [x], _ => ⟨.refl _, .singleton x, fun _ => List.cons_ne_nil x []⟩
  | x :: y :: ys, h => by
    obtain ⟨hx, hys⟩ := List.pairwise_cons.mp h
    refine (hx y List.mem_cons_self).bind fun b hb => ?_
    cases b with
    | true =>
      refine (fallingRun_yields y ys hys).map fun run ⟨hpre, hrun⟩ => ?_
      have hpre' : x :: y :: run <+: x :: y :: ys := by simpa using hpre
      have hchain : (x :: y :: run).IsChain fun a b => R b a := hrun.cons_cons hb
      exact isRun_of_prefix hpre' (List.reverse_perm _) (List.isChain_reverse.mpr hchain) (by simp)
    | false =>
      refine (risingRun_yields y ys hys).map fun run ⟨hpre, hrun⟩ => ?_
      have hpre' : x :: y :: run <+: x :: y :: ys := by simpa using hpre
      exact isRun_of_prefix hpre' (.refl _) (hrun.cons_cons hb) (by simp)

/-! ## Further elements -/

/-- An element put in where it stands between its neighbours. -/
theorem isChain_insert {xs : List α} {y : α} {k : Nat} (hxs : xs.IsChain R)
    (hk : Between R xs y k) : (xs.take k ++ y :: xs.drop k).IsChain R :=
  (hxs.take k).append ((hxs.drop k).cons hk.2) fun x hx z hz => by
    obtain rfl : y = z := by simpa using hz
    exact hk.1 x hx

theorem insertSorted_yields {run : List α} {x : α} (hrun : run.IsChain R)
    (h : ∀ a ∈ run, Decides safe before R a x) :
    Yields safe (insertSorted before run x) fun r => r.Perm (run ++ [x]) ∧ r.IsChain R := by
  have htest : ∀ y ∈ run, Yields safe ((before x y).map not) fun b => if b then R y x else R x y :=
    fun y hy => (h y hy).map fun b hb => by cases b <;> simpa using hb
  have htells := tells_testAt (P := fun y => R y x) (Q := fun y => R x y) htest
  refine (bisect_yields 0 run.toArray.size (Nat.zero_le _) fun i _ hi => htells i hi).map
    fun k ⟨_, hk, hp, hq⟩ => ⟨?_, isChain_insert hrun (between_of_places hk hp hq)⟩
  calc (run.take k ++ x :: run.drop k).Perm (x :: (run.take k ++ run.drop k)) := List.perm_middle
    _ = x :: run := by rw [List.take_append_drop]
    _ |>.Perm (run ++ [x]) := (List.perm_append_singleton x run).symm

theorem insertAll_yields : ∀ (xs run : List α), run.IsChain R →
    (∀ a ∈ run, ∀ x ∈ xs, Decides safe before R a x) → xs.Pairwise (Decides safe before R) →
      Yields safe (insertAll before run xs) fun r => r.Perm (run ++ xs) ∧ r.IsChain R
  | [], run, hrun, _, _ => by simpa [insertAll] using hrun
  | x :: xs, run, hrun, hcross, hxs => by
    obtain ⟨hx, hxs⟩ := List.pairwise_cons.mp hxs
    refine (insertSorted_yields hrun fun a ha => hcross a ha x List.mem_cons_self).bind
      fun r ⟨hperm, hr⟩ => ?_
    have hcross' : ∀ a ∈ r, ∀ y ∈ xs, Decides safe before R a y := by
      intro a ha y hy
      rcases List.mem_append.mp (hperm.mem_iff.mp ha) with ha | ha
      · exact hcross a ha y (List.mem_cons_of_mem x hy)
      · exact List.mem_singleton.mp ha ▸ hx y hy
    refine (insertAll_yields xs r hr hcross' hxs).mono fun s ⟨hs, hchain⟩ => ⟨?_, hchain⟩
    simpa using hs.trans (hperm.append_right xs)

/-- **The next run of a list is a run.** -/
theorem nextRun_yields (least : Nat) {xs : List α} (h : xs.Pairwise (Decides safe before R)) :
    Yields safe (nextRun before least xs) (IsRun R xs) := by
  refine (firstRun_yields xs h).bind fun run hrun => ?_
  have hsplit : (xs.take run.length ++ xs.drop run.length).Pairwise (Decides safe before R) := by
    rwa [List.take_append_drop]
  obtain ⟨-, hrest, hcross⟩ := List.pairwise_append.mp hsplit
  refine (insertAll_yields _ run hrun.chain ?_ (hrest.take)).mono fun r ⟨hperm, hr⟩ => ?_
  · exact fun a ha x hx => hcross a (hrun.perm.mem_iff.mp ha) x (List.mem_of_mem_take hx)
  · have hwhole : r.Perm (xs.take (run.length + (least - run.length))) := by
      rw [List.take_add]
      exact hperm.trans (hrun.perm.append_right _)
    refine isRun_of_prefix (List.take_prefix _ xs) hwhole hr fun hne hnil => ?_
    subst hnil
    exact hrun.ne_nil hne (List.append_eq_nil_iff.mp hperm.nil_eq.symm).1

end Taskboard
