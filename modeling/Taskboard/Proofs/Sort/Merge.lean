import Taskboard.Proofs.Sort.Run
import Taskboard.Sort.Merge

/-!
# Proofs/Sort/Merge — a merge keeps neighbours in order

`MergeRule.Sound` says what a rule's comparisons and leaps tell about two runs.  Under a sound rule
a merge under way stays `Ordered`: what came out last may be followed by the head of either run.
So what comes out of two runs whose elements the test decides is in order and holds all of them
(`mergeRuns_yields`); the ends that are left in place are carried along as what came out before and
as a tail.
-/

namespace Taskboard

variable {α ε : Type} {safe : Prop} {before : α → α → Except ε Bool} {R S : α → α → Prop}

/-! ## Rules -/

/-- What the answers of a rule say about two runs. -/
structure MergeRule.Sound (safe : Prop) (S : α → α → Prop) (c : MergeRule ε α)
    (first second : List α) : Prop where
  overtakes : ∀ x ∈ first, ∀ y ∈ second,
    Yields safe (c.overtakes x y) fun b => if b then S y x else S x y
  lead : ∀ y ∈ second, ∀ xs, xs ⊆ first → xs ≠ [] → Yields safe (c.lead y xs) (Between S xs y)
  follow : ∀ x ∈ first, ∀ ys, ys ⊆ second → ys ≠ [] → Yields safe (c.follow x ys) (Between S ys x)

theorem MergeRule.Sound.mono {c : MergeRule ε α} {first second first' second' : List α}
    (h : c.Sound safe S first second) (h1 : first' ⊆ first) (h2 : second' ⊆ second) :
    c.Sound safe S first' second' where
  overtakes := fun x hx y hy => h.overtakes x (h1 hx) y (h2 hy)
  lead := fun y hy xs hxs => h.lead y (h2 hy) xs (fun _ hx => h1 (hxs hx))
  follow := fun x hx ys hys => h.follow x (h1 hx) ys (fun _ hy => h2 (hys hy))

/-- A leap from the head of a list lands between what comes before and after an element. -/
theorem leapAhead_between {test : α → Except ε Bool} {xs : List α} {y : α} (hne : xs ≠ [])
    (h : ∀ x ∈ xs, Yields safe (test x) fun b => if b then R x y else R y x) :
    Yields safe (leapAhead (testAt test xs.toArray) xs.toArray.size) (Between R xs y) :=
  (leapAhead_yields (List.length_pos_iff.mpr hne) (tells_testAt (P := fun x => R x y)
    (Q := fun x => R y x) h)).mono fun _ ⟨hk, hp, hq⟩ => between_of_places hk hp hq

/-- A place counted from the other end. -/
theorem Between.of_reverse {xs : List α} {y : α} {k : Nat} (h : Between R xs.reverse y k) :
    Between (flip R) xs y (xs.length - k) := by
  obtain ⟨hl, hr⟩ := h
  rw [List.take_reverse, List.getLast?_reverse] at hl
  rw [List.drop_reverse, List.head?_reverse] at hr
  exact ⟨hr, hl⟩

/-- So does a leap from the last element back, in the list turned round. -/
theorem leapBack_between {test : α → Except ε Bool} {xs : List α} {y : α} (hne : xs ≠ [])
    (h : ∀ x ∈ xs, Yields safe (test x) fun b => if b then R x y else R y x) :
    Yields safe ((leapBack (testAt test xs.reverse.toArray) xs.reverse.toArray.size).map
      (xs.reverse.toArray.size - ·)) (Between (flip R) xs y) := by
  have hback : ∀ x ∈ xs.reverse, Yields safe (test x) fun b => if b then R x y else R y x :=
    fun x hx => h x (List.mem_reverse.mp hx)
  have hpos : 0 < xs.reverse.toArray.size := by simpa using List.length_pos_iff.mpr hne
  refine (leapBack_yields hpos (tells_testAt (P := fun x => R x y) (Q := fun x => R y x)
    hback)).map fun k ⟨hk, hp, hq⟩ => ?_
  have hsize : xs.reverse.toArray.size = xs.length := by simp
  exact hsize ▸ (between_of_places hk hp hq).of_reverse

namespace MergeRule

variable {left right : List α}

/-- Merging from the left is sound where the test decides a relation. -/
theorem sound_rightward (h : ∀ a ∈ left, ∀ b ∈ right, Decides safe before R a b) :
    (rightward before).Sound safe R left right where
  overtakes := fun x hx y hy => h x hx y hy
  lead := fun y hy xs hxs hne => leapAhead_between hne fun x hx =>
    (h x (hxs hx) y hy).map fun b hb => by cases b <;> simpa using hb
  follow := fun x hx ys hys hne => leapAhead_between hne fun y hy => h x hx y (hys hy)

/-- So is merging from the right, where all is turned round. -/
theorem sound_leftward (h : ∀ a ∈ left, ∀ b ∈ right, Decides safe before R a b) :
    (leftward before).Sound safe (flip R) right left where
  overtakes := fun x hx y hy => h y hy x hx
  lead := fun y hy xs hxs hne => leapBack_between hne fun x hx => h y hy x (hxs hx)
  follow := fun x hx ys hys hne => leapBack_between hne fun y hy =>
    (h y (hys hy) x hx).map fun b hb => by cases b <;> simpa using hb

end MergeRule

/-! ## A merge under way -/

namespace Merging

/-- A merge under way is in order, and its runs may be followed by a tail. -/
structure Ordered (S : α → α → Prop) (tail : List α) (m : Merging α) : Prop where
  first : (m.out.reverse ++ m.first).IsChain S
  second : (m.out.reverse ++ m.second).IsChain S
  first_tail : (m.first ++ tail).IsChain S
  second_tail : (m.second ++ tail).IsChain S
  /-- The first run ends last. -/
  last : ∀ y ∈ m.second.getLast?, ∀ x ∈ m.first.getLast?, S y x
  ne_nil : m.first ≠ [] ∨ m.second ≠ []

/-- The elements of a merge under way. -/
def elements (m : Merging α) : List α := m.out.reverse ++ (m.first ++ m.second)

variable {tail : List α} {m : Merging α}

/-- Taking moves elements and loses none. -/
theorem elements_take (b : Bool) (k : Nat) (m : Merging α) :
    (m.take b k).elements.Perm m.elements := by
  cases b with
  | true => simp [take, elements, ← List.append_assoc (m.first.take k)]
  | false =>
    have hmove := List.perm_append_comm_assoc (m.second.take k) m.first (m.second.drop k)
    rw [List.take_append_drop] at hmove
    simpa [take, elements] using hmove.append_left m.out.reverse

/-- What is taken from the head of one run may be followed by the other run. -/
theorem isChain_take_append {out xs ys : List α} {k : Nat} (hxs : (out ++ xs).IsChain S)
    (hys : (out ++ ys).IsChain S) (h : ∀ x ∈ (xs.take k).getLast?, ∀ y ∈ ys.head?, S x y) :
    (out ++ xs.take k ++ ys).IsChain S := by
  rw [← List.take_append_drop k xs, ← List.append_assoc] at hxs
  refine hxs.left_of_append.append hys.right_of_append fun x hx y hy => ?_
  by_cases hnil : xs.take k = []
  · rw [hnil, List.append_nil] at hx
    exact (List.isChain_append.mp hys).2.2 x hx y hy
  · rw [List.getLast?_append_of_ne_nil _ hnil] at hx
    exact h x hx y hy

theorem isChain_drop_append {xs : List α} (k : Nat) (h : (xs ++ tail).IsChain S) :
    (xs.drop k ++ tail).IsChain S := by
  rw [← List.take_append_drop k xs, List.append_assoc] at h
  exact h.right_of_append

theorem mem_getLast?_of_drop {xs : List α} {x : α} {k : Nat} (h : x ∈ (xs.drop k).getLast?) :
    x ∈ xs.getLast? := by
  rw [List.getLast?_drop] at h
  split at h
  · cases h
  · exact h

/-- One of the two runs, the first or the second one. -/
def run (first : Bool) (m : Merging α) : List α := if first then m.first else m.second

@[simp] theorem run_take_self (b : Bool) (k : Nat) (m : Merging α) :
    (m.take b k).run b = (m.run b).drop k := by
  cases b <;> rfl

@[simp] theorem run_take_not (b : Bool) (k : Nat) (m : Merging α) :
    (m.take b k).run (!b) = m.run (!b) := by
  cases b <;> rfl

theorem run_ne_nil (b : Bool) (hm : m.rest? = none) : m.run b ≠ [] := by
  cases b
  · exact (ne_nil_of_rest? hm).2
  · exact (ne_nil_of_rest? hm).1

/-- **What comes before the head of the other run may be taken.** -/
theorem Ordered.take (h : Ordered S tail m) {b : Bool} {k : Nat} (hother : m.run (!b) ≠ [])
    (hk : ∀ x ∈ ((m.run b).take k).getLast?, ∀ y ∈ (m.run (!b)).head?, S x y) :
    Ordered S tail (m.take b k) := by
  cases b with
  | true =>
    exact {
      first := by simpa [Merging.take] using h.first
      second := by simpa [Merging.take] using isChain_take_append h.first h.second hk
      first_tail := isChain_drop_append k h.first_tail
      second_tail := h.second_tail
      last := fun y hy x hx => h.last y hy x (mem_getLast?_of_drop hx)
      ne_nil := Or.inr hother }
  | false =>
    exact {
      first := by simpa [Merging.take] using isChain_take_append h.second h.first hk
      second := by simpa [Merging.take] using h.second
      first_tail := h.first_tail
      second_tail := isChain_drop_append k h.second_tail
      last := fun y hy x hx => h.last y (mem_getLast?_of_drop hy) x hx
      ne_nil := Or.inl hother }

/-- A head that comes before the other one may be taken. -/
theorem Ordered.take_one (h : Ordered S tail m) {b : Bool} (hother : m.run (!b) ≠ [])
    (hb : ∀ x ∈ (m.run b).head?, ∀ y ∈ (m.run (!b)).head?, S x y) :
    Ordered S tail (m.take b 1) :=
  h.take hother fun x hx => hb x (by cases hrun : m.run b <;> simp_all)

/-- A leap keeps the order… -/
theorem Ordered.leap (h : Ordered S tail m) (hm : m.rest? = none) {b : Bool} {k : Nat}
    (hk : ∀ y ∈ (m.run (!b)).head?, Between S (m.run b) y k) : Ordered S tail (m.take b k) :=
  h.take (run_ne_nil _ hm) fun x hx y hy => (hk y hy).1 x hx

/-- …and so does the head of the other run that is taken after it. -/
theorem Ordered.land {b : Bool} {k : Nat} (h : Ordered S tail (m.take b k))
    (hm : (m.take b k).rest? = none)
    (hk : ∀ y ∈ (m.run (!b)).head?, Between S (m.run b) y k) :
    Ordered S tail ((m.take b k).take (!b) 1) :=
  h.take_one (run_ne_nil _ hm) fun x hx y hy =>
    (hk x (by simpa using hx)).2 y (by simpa using hy)

/-- All ways in which a merge is over. -/
theorem rest?_cases {rest : List α} (h : m.rest? = some rest) :
    (m.second = [] ∧ rest = m.first) ∨ m.second ≠ [] ∧
      (m.first = [] ∧ rest = m.second ∨ ∃ x, m.first = [x] ∧ rest = m.second ++ [x]) := by
  unfold rest? at h
  split at h
  next hsecond => exact Or.inl ⟨hsecond, (Option.some.inj h).symm⟩
  next hfirst hsecond => exact Or.inr ⟨hsecond, Or.inl ⟨hfirst, (Option.some.inj h).symm⟩⟩
  next x hfirst hsecond =>
    exact Or.inr ⟨hsecond, Or.inr ⟨x, hfirst, (Option.some.inj h).symm⟩⟩
  next => cases h

/-- The elements of a merge under way, in order and with the tail after them. -/
def Result (S : α → α → Prop) (tail : List α) (m : Merging α) (merged : List α) : Prop :=
  merged.Perm m.elements ∧ (merged ++ tail).IsChain S

theorem Result.of_take {b : Bool} {k : Nat} {merged : List α}
    (h : Result S tail (m.take b k) merged) : Result S tail m merged :=
  ⟨h.1.trans (elements_take b k m), h.2⟩

/-- **What is left once a merge is over comes out as it is.** -/
theorem Ordered.finish (h : Ordered S tail m) {rest : List α} (hrest : m.rest? = some rest) :
    Result S tail m (m.out.reverse ++ rest) := by
  rcases rest?_cases hrest with ⟨hsecond, rfl⟩ | ⟨hsecond, ⟨hfirst, rfl⟩ | ⟨x, hfirst, rfl⟩⟩
  · have hne : m.first ≠ [] := by simpa [hsecond] using h.ne_nil
    exact ⟨by simp [elements, hsecond], h.first.append_overlap h.first_tail hne⟩
  · exact ⟨by simp [elements, hfirst], h.second.append_overlap h.second_tail hsecond⟩
  · have hperm : (m.second ++ [x]).Perm (m.first ++ m.second) := hfirst ▸ List.perm_append_comm
    have hlast : (m.out.reverse ++ m.second ++ [x]).IsChain S := by
      refine h.second.append (.singleton x) fun y hy z hz => ?_
      rw [List.getLast?_append_of_ne_nil _ hsecond] at hy
      exact h.last y hy z (by rwa [hfirst])
    have htail : ([x] ++ tail).IsChain S := hfirst ▸ h.first_tail
    exact ⟨hperm.append_left _, by
      simpa using hlast.append_overlap htail (List.cons_ne_nil x [])⟩

end Merging

namespace MergeRule

open Merging

variable {c : MergeRule ε α} {m : Merging α} {tail : List α}

theorem Sound.take (h : c.Sound safe S m.first m.second) (b : Bool) (k : Nat) :
    c.Sound safe S (m.take b k).first (m.take b k).second := by
  cases b
  · exact h.mono (List.Subset.refl _) (List.drop_subset k _)
  · exact h.mono (List.drop_subset k _) (List.Subset.refl _)

/-- The head that a rule takes next comes before the other one. -/
theorem Sound.secondNext (h : c.Sound safe S m.first m.second) (hm : m.rest? = none) :
    Yields safe (c.secondNext m) fun second =>
      ∀ x ∈ (m.run (!second)).head?, ∀ y ∈ (m.run second).head?, S x y := by
  obtain ⟨hfirst, hsecond⟩ := ne_nil_of_rest? hm
  obtain ⟨x, xs, hx⟩ := List.exists_cons_of_ne_nil hfirst
  obtain ⟨y, ys, hy⟩ := List.exists_cons_of_ne_nil hsecond
  rw [MergeRule.secondNext, hx, hy]
  refine (h.overtakes x (by simp [hx]) y (by simp [hy])).mono fun second hs => ?_
  cases second <;> simpa [run, hx, hy] using hs

/-- A leap lands where the head of the other run stands. -/
theorem Sound.reach (h : c.Sound safe S m.first m.second) (hm : m.rest? = none) (b : Bool) :
    Yields safe (c.reach b m) fun k => ∀ y ∈ (m.run (!b)).head?, Between S (m.run b) y k := by
  obtain ⟨hfirst, hsecond⟩ := ne_nil_of_rest? hm
  obtain ⟨x, xs, hx⟩ := List.exists_cons_of_ne_nil hfirst
  obtain ⟨y, ys, hy⟩ := List.exists_cons_of_ne_nil hsecond
  cases b with
  | true =>
    have hlead := h.lead y (by simp [hy]) m.first (List.Subset.refl _) hfirst
    simpa [MergeRule.reach, run, hx, hy] using hlead
  | false =>
    have hfollow := h.follow x (by simp [hx]) m.second (List.Subset.refl _) hsecond
    simpa [MergeRule.reach, run, hx, hy] using hfollow

/-- **A merge under a sound rule** loses nothing and brings its elements in order. -/
theorem mergeFrom_yields (pace : Pace) (threshold : Nat) (m : Merging α)
    (hc : c.Sound safe S m.first m.second) (h : Ordered S tail m) :
    Yields safe (c.mergeFrom pace threshold m) fun r => Result S tail m r.1 := by
  rw [mergeFrom.eq_def]
  split
  next rest hrest => exact h.finish hrest
  next hm =>
    cases pace with
    | single a b =>
      refine (hc.secondNext hm).bind fun second hs => ?_
      have htake := h.take_one (b := !second) (run_ne_nil _ hm) (by simpa using hs)
      exact (mergeFrom_yields _ _ _ (hc.take _ _) htake).mono fun r hr => hr.of_take
    | leap again =>
      refine (hc.reach hm c.leadsFirst).bind fun k hk => ?_
      have hleap := h.leap hm hk
      dsimp only
      split
      next rest hrest => exact (hleap.finish hrest).of_take
      next hm₁ =>
        exact (mergeFrom_yields _ _ _ ((hc.take _ _).take _ _) (hleap.land hm₁ hk)).mono
          fun r hr => hr.of_take.of_take
    | land k₁ =>
      refine (hc.reach hm (!c.leadsFirst)).bind fun k hk => ?_
      have hleap := h.leap hm hk
      dsimp only
      split
      next rest hrest => exact (hleap.finish hrest).of_take
      next hm₁ =>
        have hland := hleap.land hm₁ hk
        rw [Bool.not_not] at hland
        -- the round pays or not: only pace and threshold differ
        split <;>
          exact (mergeFrom_yields _ _ _ ((hc.take _ _).take _ _) hland).mono
            fun r hr => hr.of_take.of_take
  termination_by m.size
  decreasing_by
    · exact size_take_one_lt _ ‹m.rest? = none›
    all_goals
      exact Nat.lt_of_lt_of_le (size_take_one_lt _ ‹(m.take _ _).rest? = none›)
        (size_take_le _ _ _)

end MergeRule

/-! ## Runs that stand side by side -/

/-- Two runs that stand side by side, each cut in two: the ends `a` and `d` may stay in place, and
between them `c` has an element to the front and `b` one to the back. -/
structure Overlap (R : α → α → Prop) (a b c d : List α) : Prop where
  left : (a ++ b).IsChain R
  right : (c ++ d).IsChain R
  front : (a ++ c).IsChain R
  back : (b ++ d).IsChain R
  left_ne_nil : b ≠ []
  right_ne_nil : c ≠ []
  head : ∀ y ∈ c.head?, ∀ x ∈ b.head?, R y x
  last : ∀ y ∈ c.getLast?, ∀ x ∈ b.getLast?, R y x

namespace Overlap

variable {a b c d : List α}

/-- A merge from the left puts the head of the right run first. -/
theorem ordered_rightward (h : Overlap R a b c d) :
    ((⟨a.reverse, b, c⟩ : Merging α).take false 1).Ordered R d :=
  Merging.Ordered.take_one (b := false)
    { first := by simpa using h.left
      second := by simpa using h.front
      first_tail := h.back
      second_tail := h.right
      last := h.last
      ne_nil := Or.inl h.left_ne_nil } h.left_ne_nil h.head

/-- A merge from the right puts the end of the left run last. -/
theorem ordered_leftward (h : Overlap R a b c d) :
    ((⟨d, c.reverse, b.reverse⟩ : Merging α).take false 1).Ordered (flip R) a.reverse := by
  have hflip : ∀ {xs ys : List α}, (xs ++ ys).IsChain R →
      (ys.reverse ++ xs.reverse).IsChain (flip R) := fun hchain => by
    rw [← List.reverse_append]
    exact List.isChain_reverse.mpr hchain
  refine Merging.Ordered.take_one (b := false)
    { first := hflip h.right
      second := hflip h.back
      first_tail := hflip h.front
      second_tail := hflip h.left
      last := fun y hy x hx => h.head x (by simpa using hx) y (by simpa using hy)
      ne_nil := Or.inl (by simpa using h.right_ne_nil) }
    (by simpa [Merging.run] using h.right_ne_nil)
    fun y hy x hx => h.last x (by simpa [Merging.run] using hx) y (by simpa [Merging.run] using hy)

/-- Two runs overlap between the place of the right one's head in the left one and the place of the
left one's end in the right one. -/
theorem of_between {left right : List α} {x y : α} {k kept : Nat} (hleft : left.IsChain R)
    (hright : right.IsChain R) (hy : right.head? = some y) (hx : (left.drop k).getLast? = some x)
    (hk : Between R left y k) (hkept : Between R right x kept) (hpos : kept ≠ 0) :
    Overlap R (left.take k) (left.drop k) (right.take kept) (right.drop kept) := by
  have hhead : (right.take kept).head? = some y := by rw [List.head?_take, if_neg hpos, hy]
  refine
    { left := by rwa [List.take_append_drop]
      right := by rwa [List.take_append_drop]
      front := (hleft.take k).append (hright.take kept) fun u hu v hv => ?_
      back := (hleft.drop k).append (hright.drop kept) fun u hu v hv => ?_
      left_ne_nil := fun hnil => by simp [hnil] at hx
      right_ne_nil := fun hnil => by simp [hnil] at hhead
      head := fun v hv u hu => ?_
      last := fun v hv u hu => ?_ }
  · exact Option.some.inj (hhead.symm.trans hv) ▸ hk.1 u hu
  · exact Option.some.inj (hx.symm.trans hu) ▸ hkept.2 v hv
  · exact Option.some.inj (hhead.symm.trans hv) ▸ hk.2 u hu
  · exact Option.some.inj (hx.symm.trans hu) ▸ hkept.1 v hv

/-- The merge from the left, with the end that stays. -/
theorem merge_rightward (h : Overlap R a b c d) (threshold : Nat)
    (hcross : ∀ x ∈ b, ∀ y ∈ c, Decides safe before R x y) :
    Yields safe ((MergeRule.rightward before).mergeFrom (.single 0 0) threshold
      ((⟨a.reverse, b, c⟩ : Merging α).take false 1)) fun r =>
        (r.1 ++ d).Perm ((a ++ b) ++ (c ++ d)) ∧ (r.1 ++ d).IsChain R := by
  have hsound := (MergeRule.sound_rightward hcross).take (m := ⟨a.reverse, b, c⟩) false 1
  refine (MergeRule.mergeFrom_yields _ threshold _ hsound h.ordered_rightward).mono fun r hr => ?_
  refine ⟨?_, hr.2⟩
  have hperm := hr.of_take.1.append_right d
  simpa [Merging.elements] using hperm

/-- The merge from the right, with the front that stays. -/
theorem merge_leftward (h : Overlap R a b c d) (threshold : Nat)
    (hcross : ∀ x ∈ b, ∀ y ∈ c, Decides safe before R x y) :
    Yields safe ((MergeRule.leftward before).mergeFrom (.single 0 0) threshold
      ((⟨d, c.reverse, b.reverse⟩ : Merging α).take false 1)) fun r =>
        (a ++ r.1.reverse).Perm ((a ++ b) ++ (c ++ d)) ∧ (a ++ r.1.reverse).IsChain R := by
  have hturned : (MergeRule.leftward before).Sound safe (flip R) c.reverse b.reverse :=
    (MergeRule.sound_leftward hcross).mono (by simp) (by simp)
  have hsound := hturned.take (m := ⟨d, c.reverse, b.reverse⟩) false 1
  refine (MergeRule.mergeFrom_yields _ threshold _ hsound h.ordered_leftward).mono fun r hr => ?_
  constructor
  · have hperm := (List.reverse_perm r.1).trans hr.of_take.1
    have helements : (Merging.elements ⟨d, c.reverse, b.reverse⟩).Perm (b ++ (c ++ d)) := by
      have hturned := List.reverse_perm (b ++ (c ++ d))
      simpa [Merging.elements] using hturned
    simpa using (hperm.trans helements).append_left a
  · have hchain := List.isChain_reverse.mpr hr.2
    rw [List.reverse_append, List.reverse_reverse] at hchain
    exact hchain

end Overlap

/-- **Two runs side by side become one run.** -/
theorem mergeRuns_yields (threshold : Nat) {left right : List α} (hleft : left.IsChain R)
    (hright : right.IsChain R) (hne : left ≠ [])
    (h : ∀ x ∈ left, ∀ y ∈ right, Decides safe before R x y) :
    Yields safe (mergeRuns before threshold left right) fun r =>
      r.1.Perm (left ++ right) ∧ r.1.IsChain R := by
  cases right with
  | nil => simpa [mergeRuns] using hleft
  | cons y ys =>
    have hlead := (MergeRule.sound_rightward h).lead y List.mem_cons_self left
      (List.Subset.refl _) hne
    refine hlead.bind fun k hk => ?_
    split
    next hnil =>
      -- all of the left run stays in front of the right one
      have hall : left.take k = left := List.take_of_length_le (by simpa using hnil)
      refine ⟨.refl _, hleft.append hright fun u hu v hv => ?_⟩
      exact Option.some.inj hv ▸ hk.1 u (hall.symm ▸ hu)
    next x hx =>
      have hx' : x ∈ left := List.mem_of_mem_drop (List.mem_of_getLast? hx)
      have hback := (MergeRule.sound_leftward h).lead x hx' (y :: ys).reverse (by simp) (by simp)
      refine hback.bind fun t ht => ?_
      have hkept : Between R (y :: ys) x ((y :: ys).length - t) := ht.of_reverse
      generalize (y :: ys).length - t = kept at hkept ⊢
      dsimp only
      split
      next hzero =>
        -- all of the right run stays behind the left one
        subst hzero
        have hlast : left.getLast? = some x := Merging.mem_getLast?_of_drop hx
        refine ⟨.refl _, hleft.append hright fun u hu v hv => ?_⟩
        exact Option.some.inj (hlast.symm.trans hu) ▸ hkept.2 v hv
      next hpos =>
        have hover := Overlap.of_between hleft hright rfl hx hk hkept hpos
        have hcross : ∀ u ∈ left.drop k, ∀ v ∈ (y :: ys).take kept, Decides safe before R u v :=
          fun u hu v hv => h u (List.mem_of_mem_drop hu) v (List.mem_of_mem_take hv)
        split
        · refine (hover.merge_rightward threshold hcross).map fun r hr => ?_
          simpa [List.take_append_drop] using hr
        · refine (hover.merge_leftward threshold hcross).map fun r hr => ?_
          simpa [List.take_append_drop] using hr

end Taskboard
