import Taskboard.Proofs.Sort.Merge
import Taskboard.Sort.Stable

/-!
# Proofs/Sort/Stable — sorting puts neighbours in order

The runs that wait while a list is cut stay `Stacked`: each is in order, and the test decides all
pairs of elements of different runs.  So `sortRuns` gives a permutation in which each element stands
in the relation to the next one, whatever relation the test decides on the pairs of the list
(`sortRuns_yields`).  `stableSort` keeps elements apart by their places, of which a relation may
speak too (`stableSort_yields`).
-/

namespace Taskboard

variable {α ε : Type} {safe : Prop} {before : α → α → Except ε Bool} {R : α → α → Prop}

/-- The test decides the relation between the elements of two lists. -/
def DecidesAll (safe : Prop) (before : α → α → Except ε Bool) (R : α → α → Prop)
    (earlier later : List α) : Prop :=
  ∀ a ∈ earlier, ∀ b ∈ later, Decides safe before R a b

theorem DecidesAll.mono {earlier earlier' later later' : List α}
    (h : DecidesAll safe before R earlier later) (h1 : earlier' ⊆ earlier) (h2 : later' ⊆ later) :
    DecidesAll safe before R earlier' later' :=
  fun a ha b hb => h a (h1 ha) b (h2 hb)

/-! ## Runs that wait -/

/-- Runs that wait to be merged, the latest first. -/
structure Stacked (safe : Prop) (before : α → α → Except ε Bool) (R : α → α → Prop)
    (runs : List (List α)) : Prop where
  chain : ∀ run ∈ runs, run.IsChain R
  ne_nil : ∀ run ∈ runs, run ≠ []
  decides : runs.Pairwise fun later earlier => DecidesAll safe before R earlier later

namespace Stacked

variable {run top under deeper : List α} {runs below : List (List α)}

theorem cons (h : Stacked safe before R runs) (hchain : run.IsChain R) (hne : run ≠ [])
    (hrun : DecidesAll safe before R runs.flatten run) : Stacked safe before R (run :: runs) where
  chain := List.forall_mem_cons.mpr ⟨hchain, h.chain⟩
  ne_nil := List.forall_mem_cons.mpr ⟨hne, h.ne_nil⟩
  decides := List.pairwise_cons.mpr
    ⟨fun r hr => hrun.mono (fun _ ha => List.mem_flatten.mpr ⟨r, hr, ha⟩) (List.Subset.refl _),
      h.decides⟩

theorem tail (h : Stacked safe before R (run :: runs)) : Stacked safe before R runs where
  chain := (List.forall_mem_cons.mp h.chain).2
  ne_nil := (List.forall_mem_cons.mp h.ne_nil).2
  decides := (List.pairwise_cons.mp h.decides).2

theorem decides_head (h : Stacked safe before R (run :: runs)) :
    DecidesAll safe before R runs.flatten run := by
  intro a ha
  obtain ⟨r, hr, ha⟩ := List.mem_flatten.mp ha
  exact (List.pairwise_cons.mp h.decides).1 r hr a ha

theorem mem_head (run : List α) (runs : List (List α)) : run ∈ run :: runs := List.mem_cons_self

/-- The latest two runs merged. -/
theorem merge_top (threshold : Nat) (h : Stacked safe before R (top :: under :: below)) :
    Yields safe (mergeRuns before threshold under top) fun r =>
      Stacked safe before R (r.1 :: below) ∧
        (r.1 :: below).flatten.Perm (top :: under :: below).flatten := by
  have htail := h.tail
  have hpair : DecidesAll safe before R under top :=
    h.decides_head.mono (by simp) (List.Subset.refl _)
  refine (mergeRuns_yields threshold (htail.chain under (mem_head _ _)) (h.chain top (mem_head _ _))
    (htail.ne_nil under (mem_head _ _)) hpair).mono fun r ⟨hperm, hchain⟩ => ⟨?_, ?_⟩
  · refine htail.tail.cons hchain (fun hnil => ?_) fun a ha b hb => ?_
    · rw [hnil] at hperm
      exact htail.ne_nil under (mem_head _ _) (List.append_eq_nil_iff.mp hperm.nil_eq.symm).1
    · rcases List.mem_append.mp (hperm.mem_iff.mp hb) with hb | hb
      · exact htail.decides_head a ha b hb
      · exact h.decides_head a (by simpa using Or.inr (List.mem_flatten.mp ha)) b hb
  · have hswap : r.1.Perm (top ++ under) := hperm.trans List.perm_append_comm
    simpa using hswap.append_right below.flatten

/-- The two runs below the latest one merged. -/
theorem merge_under (threshold : Nat)
    (h : Stacked safe before R (top :: under :: deeper :: below)) :
    Yields safe (mergeRuns before threshold deeper under) fun r =>
      Stacked safe before R (top :: r.1 :: below) ∧
        (top :: r.1 :: below).flatten.Perm (top :: under :: deeper :: below).flatten := by
  refine (h.tail.merge_top threshold).mono fun r ⟨hstacked, hperm⟩ => ⟨?_, ?_⟩
  · exact hstacked.cons (h.chain top (mem_head _ _)) (h.ne_nil top (mem_head _ _))
      (h.decides_head.mono hperm.subset (List.Subset.refl _))
  · simpa using hperm.append_left top

end Stacked

theorem settle_yields (power : Nat) : ∀ (below : Pile α) (threshold : Nat) (top : List α),
    Stacked safe before R (top :: below.map Prod.fst) →
      Yields safe (settle before power threshold top below) fun r =>
        Stacked safe before R (r.1.map Prod.fst) ∧
          (r.1.map Prod.fst).flatten.Perm (top :: below.map Prod.fst).flatten
  | [], threshold, top, h => ⟨h, .refl _⟩
  | (under, p) :: below, threshold, top, h => by
    rw [settle]
    split
    · refine (h.merge_top threshold).bind fun r ⟨hstacked, hperm⟩ => ?_
      refine (settle_yields power below r.2 r.1 hstacked).mono fun s ⟨hs, hs'⟩ => ⟨hs, ?_⟩
      exact hs'.trans hperm
    · exact ⟨h, .refl _⟩

theorem collapse_yields (threshold : Nat) (top : List α) (below : List (List α))
    (h : Stacked safe before R (top :: below)) :
    Yields safe (collapse before threshold top below) fun r =>
      r.Perm (top :: below).flatten ∧ r.IsChain R := by
  match below with
  | [] => simpa [collapse] using h.chain top (Stacked.mem_head _ _)
  | [under] =>
    rw [collapse]
    refine (h.merge_top threshold).map fun r hr => ?_
    exact ⟨by simpa using hr.2, hr.1.chain r.1 (Stacked.mem_head _ _)⟩
  | under :: deeper :: below =>
    rw [collapse]
    split
    · refine (h.merge_under threshold).bind fun r hr => ?_
      obtain ⟨hstacked, hperm⟩ := hr
      exact (collapse_yields r.2 top (r.1 :: below) hstacked).mono fun s hs =>
        ⟨hs.1.trans hperm, hs.2⟩
    · refine (h.merge_top threshold).bind fun r hr => ?_
      obtain ⟨hstacked, hperm⟩ := hr
      exact (collapse_yields r.2 r.1 (deeper :: below) hstacked).mono fun s hs =>
        ⟨hs.1.trans hperm, hs.2⟩
  termination_by below.length

/-! ## The whole list -/

/-- A run and what comes after it hold the elements of the list. -/
theorem IsRun.append_drop {xs run : List α} (h : IsRun R xs run) :
    (run ++ xs.drop run.length).Perm xs := by
  have hperm := h.perm.append_right (xs.drop run.length)
  rwa [List.take_append_drop] at hperm

theorem IsRun.subset {xs run : List α} (h : IsRun R xs run) : run ⊆ xs :=
  fun _ ha => List.mem_of_mem_take (h.perm.mem_iff.mp ha)

theorem IsRun.decidesAll {xs run : List α} (h : IsRun R xs run)
    (hxs : xs.Pairwise (Decides safe before R)) :
    DecidesAll safe before R run (xs.drop run.length) := by
  rw [← List.take_append_drop run.length xs] at hxs
  exact fun a ha b hb => (List.pairwise_append.mp hxs).2.2 a (h.perm.mem_iff.mp ha) b hb

open scoped List in
theorem mergeAll_yields (least total threshold : Nat) (top : List α) (below : Pile α)
    (xs : List α) (h : Stacked safe before R (top :: below.map Prod.fst))
    (hcross : DecidesAll safe before R (top :: below.map Prod.fst).flatten xs)
    (hxs : xs.Pairwise (Decides safe before R)) :
    Yields safe (mergeAll before least total threshold top below xs) fun r =>
      r.Perm ((top :: below.map Prod.fst).flatten ++ xs) ∧ r.IsChain R := by
  match xs with
  | [] =>
    rw [mergeAll]
    simpa using collapse_yields threshold top _ h
  | x :: xs =>
    rw [mergeAll]
    refine (nextRun_yields least hxs).bind fun run hrun => ?_
    refine (settle_yields _ below threshold top h).bind fun r hr => ?_
    obtain ⟨hstacked, hperm⟩ := hr
    have hne : run ≠ [] := hrun.ne_nil (List.cons_ne_nil x xs)
    have hdrop : xs.drop (run.length - 1) = (x :: xs).drop run.length := by
      obtain ⟨n, hn⟩ := Nat.exists_eq_succ_of_ne_zero (mt List.length_eq_zero_iff.mp hne)
      rw [hn, List.drop_succ_cons, Nat.succ_sub_one]
    have hstacked' := hstacked.cons hrun.chain hne (hcross.mono hperm.subset hrun.subset)
    have hcross' : DecidesAll safe before R (run :: r.1.map Prod.fst).flatten
        ((x :: xs).drop run.length) := fun a ha b hb => by
      rcases List.mem_append.mp ha with ha | ha
      · exact hrun.decidesAll hxs a ha b hb
      · exact hcross a (hperm.subset ha) b (List.mem_of_mem_drop hb)
    have hrest := mergeAll_yields least total r.2 run r.1 (xs.drop (run.length - 1)) hstacked'
      (hdrop ▸ hcross') (hdrop ▸ hxs.drop)
    refine hrest.mono fun s hr => ⟨?_, hr.2⟩
    have hs := hr.1
    rw [hdrop] at hs
    calc s
        ~ run ++ (r.1.map Prod.fst).flatten ++ (x :: xs).drop run.length := hs
      _ ~ (r.1.map Prod.fst).flatten ++ run ++ (x :: xs).drop run.length :=
        List.perm_append_comm.append_right _
      _ = (r.1.map Prod.fst).flatten ++ (run ++ (x :: xs).drop run.length) := List.append_assoc ..
      _ ~ (top :: below.map Prod.fst).flatten ++ (x :: xs) := hperm.append hrun.append_drop
  termination_by xs.length
  decreasing_by
    rw [List.length_drop, List.length_cons]
    omega

/-- **Sorting gives a permutation whose neighbours are in the relation** that the test decides. -/
theorem sortRuns_yields {xs : List α} (h : xs.Pairwise (Decides safe before R)) :
    Yields safe (sortRuns before xs) fun r => r.Perm xs ∧ r.IsChain R := by
  refine (nextRun_yields _ h).bind fun run hrun => ?_
  by_cases hnil : xs = []
  · subst hnil
    obtain rfl : run = [] := List.subset_nil.mp hrun.subset
    simp [mergeAll, collapse]
  · have hstacked : Stacked safe before R [run] :=
      ⟨by simpa using hrun.chain, by simpa using hrun.ne_nil hnil, List.pairwise_singleton _ _⟩
    have hcross : DecidesAll safe before R [run].flatten (xs.drop run.length) := by
      simpa using hrun.decidesAll h
    refine (mergeAll_yields _ _ _ run [] _ hstacked hcross h.drop).mono fun r hr => ?_
    exact ⟨(hr.1.trans (by simp)).trans hrun.append_drop, hr.2⟩

/-- **A stable sort** gives the elements in an order of their places, and neighbours are in a
relation that the test decides and that may speak of the places. -/
theorem stableSort_yields {R : α × Nat → α × Nat → Prop} {xs : List α}
    (h : xs.zipIdx.Pairwise (Decides safe (fun a b => before a.1 b.1) R)) :
    Yields safe (stableSort before xs) fun r =>
      ∃ placed : List (α × Nat), placed.Perm xs.zipIdx ∧ placed.IsChain R ∧
        r = placed.map Prod.fst :=
  (sortRuns_yields h).map fun placed ⟨hperm, hchain⟩ => ⟨placed, hperm, hchain, rfl⟩

end Taskboard
