import Taskboard.Fault
import Taskboard.Proofs.Sort.Stable

/-!
# Proofs/Sort/Order — comparisons that order, and what sorting by them gives

A comparison that may fail is `Coherent` if its answers fit together as those of a total preorder;
if only the answers for a pair fit together it `Mirrors`.  Both kinds come from keys (`ofKey`), and
they stay what they are when turned round (`directed`), when missing values are put last
(`missingLast`) and when a second one decides what the first leaves tied (`andThen`).  Sorting by a
coherent comparison that answers on all pairs of a list gives the elements in its order, tied ones
as they stood (`Coherent.stableSort_sorts`).
-/

namespace Taskboard

variable {α β : Type}

/-! ## Answers for a pair -/

/-- **Asked the other way round, a comparison answers the other way round.** -/
def Mirrors (cmp : α → α → Except Fault Ordering) : Prop :=
  ∀ ⦃a b o⦄, cmp a b = .ok o → cmp b a = .ok o.swap

/-- A comparison of values that may be missing, the missing ones last. -/
def missingLast (cmp : α → α → Except Fault Ordering) (value? : β → Option α) (a b : β) :
    Except Fault Ordering :=
  match value? a, value? b with
  | none, none => .ok .eq
  | none, some _ => .ok .gt
  | some _, none => .ok .lt
  | some v, some w => cmp v w

namespace Mirrors

variable {cmp next : α → α → Except Fault Ordering}

theorem ofKey (key : α → Except Fault β) (order : β → β → Ordering) [Std.OrientedCmp order] :
    Mirrors fun a b => (key a).bind fun x => (key b).map fun y => order x y := by
  intro a b o h
  obtain ⟨x, hx, h⟩ := bind_eq_ok.mp h
  obtain ⟨y, hy, rfl⟩ := map_eq_ok.mp h
  exact bind_eq_ok.mpr ⟨y, hy, map_eq_ok.mpr ⟨x, hx, Std.OrientedCmp.eq_swap⟩⟩

theorem directed (h : Mirrors cmp) (falling : Bool) :
    Mirrors fun a b => (cmp a b).map fun o => if falling then o.swap else o := by
  intro a b o hab
  obtain ⟨o, ho, rfl⟩ := map_eq_ok.mp hab
  exact map_eq_ok.mpr ⟨o.swap, h ho, by cases falling <;> rfl⟩

theorem missingLast (h : Mirrors cmp) (value? : β → Option α) :
    Mirrors (missingLast cmp value?) := by
  intro a b o hab
  unfold Taskboard.missingLast at hab ⊢
  cases ha : value? a <;> cases hb : value? b <;> simp only [ha, hb] at hab ⊢
  case some.some v w => exact h hab
  all_goals exact Except.ok.inj hab ▸ rfl

theorem ofPart (h : Mirrors cmp) (value? : β → Option α) (fault : Fault) :
    Mirrors fun a b => match value? a, value? b with
      | some v, some w => cmp v w
      | _, _ => .error fault := by
  intro a b o hab
  cases ha : value? a <;> cases hb : value? b <;> simp only [ha, hb] at hab ⊢
  case some.some v w => exact h hab
  all_goals contradiction

theorem andThen (h : Mirrors cmp) (hnext : Mirrors next) :
    Mirrors fun a b => (cmp a b).bind fun o =>
      match o with
      | .eq => next a b
      | o => .ok o := by
  intro a b o hab
  obtain ⟨o, ho, hrest⟩ := bind_eq_ok.mp hab
  refine bind_eq_ok.mpr ⟨o.swap, h ho, ?_⟩
  cases o with
  | eq => exact hnext hrest
  | lt | gt => exact Except.ok.inj hrest ▸ rfl

end Mirrors

/-! ## Answers for all -/

/-- **The answers of a comparison fit together**, as far as it has answers. -/
structure Coherent (cmp : α → α → Except Fault Ordering) : Prop where
  swap : Mirrors cmp
  /-- It answers for the ends of a chain that does not fall: they are tied if all of it is tied. -/
  trans : ∀ {a b c o p}, cmp a b = .ok o → cmp b c = .ok p → o ≠ .gt → p ≠ .gt →
    cmp a c = .ok (o.then p)

namespace Coherent

variable {cmp next : α → α → Except Fault Ordering}

theorem eq_trans (h : Coherent cmp) {a b c : α} (hab : cmp a b = .ok .eq)
    (hbc : cmp b c = .ok .eq) : cmp a c = .ok .eq :=
  h.trans hab hbc (by decide) (by decide)

theorem congr (h : Coherent cmp) {cmp' : α → α → Except Fault Ordering}
    (heq : ∀ a b, cmp' a b = cmp a b) : Coherent cmp' :=
  funext₂ heq ▸ h

/-- In an order, the ends of a chain that does not fall do not fall. -/
theorem compare_eq_then {order : β → β → Ordering} [Std.TransCmp order] {x y z : β}
    (hxy : order x y ≠ .gt) (hyz : order y z ≠ .gt) :
    order x z = (order x y).then (order y z) := by
  cases h : order x y <;> cases h' : order y z
  case lt.lt => exact Std.TransCmp.lt_trans h h'
  case lt.eq => exact Std.TransCmp.lt_of_lt_of_eq h h'
  case eq.lt => exact Std.TransCmp.lt_of_eq_of_lt h h'
  case eq.eq => exact Std.TransCmp.eq_trans h h'
  all_goals contradiction

/-- Keys that may be missing for a fault, compared by an order. -/
theorem ofKey (key : α → Except Fault β) (order : β → β → Ordering) [Std.TransCmp order] :
    Coherent fun a b => (key a).bind fun x => (key b).map fun y => order x y where
  swap := .ofKey key order
  trans {a b c o p} hab hbc ho hp := by
    obtain ⟨x, hx, hab⟩ := bind_eq_ok.mp hab
    obtain ⟨y, hy, rfl⟩ := map_eq_ok.mp hab
    obtain ⟨y', hy', hbc⟩ := bind_eq_ok.mp hbc
    obtain ⟨z, hz, rfl⟩ := map_eq_ok.mp hbc
    obtain rfl : y = y' := by simpa [hy] using hy'
    exact bind_eq_ok.mpr ⟨x, hx, map_eq_ok.mpr ⟨z, hz, compare_eq_then ho hp⟩⟩

/-- The answers of a comparison in a direction. -/
theorem directed (h : Coherent cmp) (falling : Bool) :
    Coherent fun a b => (cmp a b).map fun o => if falling then o.swap else o where
  swap := h.swap.directed falling
  trans {a b c _ _} hab hbc hle hle' := by
    obtain ⟨o, ho, rfl⟩ := map_eq_ok.mp hab
    obtain ⟨p, hp, rfl⟩ := map_eq_ok.mp hbc
    cases falling with
    | false => exact map_eq_ok.mpr ⟨_, h.trans ho hp hle hle', rfl⟩
    | true =>
      have hca := h.trans (h.swap hp) (h.swap ho) hle' hle
      refine map_eq_ok.mpr ⟨_, h.swap hca, ?_⟩
      cases o <;> cases p <;> first | rfl | contradiction

/-- Values that may be missing, the missing ones last. -/
theorem missingLast (h : Coherent cmp) (value? : β → Option α) :
    Coherent (missingLast cmp value?) where
  swap := h.swap.missingLast value?
  trans {a b c o p} hab hbc ho hp := by
    unfold Taskboard.missingLast at hab hbc ⊢
    cases ha : value? a <;> cases hb : value? b <;> cases hc : value? c <;>
      simp only [ha, hb, hc] at hab hbc ⊢
    case some.some.some u v w => exact h.trans hab hbc ho hp
    all_goals cases o <;> cases p <;> simp_all

/-- Values that have to be there. -/
theorem ofPart (h : Coherent cmp) (value? : β → Option α) (fault : Fault) :
    Coherent fun a b => match value? a, value? b with
      | some v, some w => cmp v w
      | _, _ => .error fault where
  swap := h.swap.ofPart value? fault
  trans {a b c o p} hab hbc ho hp := by
    cases ha : value? a <;> cases hb : value? b <;> cases hc : value? c <;>
      simp only [ha, hb, hc] at hab hbc ⊢
    case some.some.some u v w => exact h.trans hab hbc ho hp
    all_goals contradiction

/-- A second comparison where the first one leaves a tie. -/
theorem andThen (h : Coherent cmp) (hnext : Coherent next) :
    Coherent fun a b => (cmp a b).bind fun o =>
      match o with
      | .eq => next a b
      | o => .ok o where
  swap := h.swap.andThen hnext.swap
  trans {a b c o p} hab hbc ho hp := by
    obtain ⟨o', hab', hrest⟩ := bind_eq_ok.mp hab
    obtain ⟨p', hbc', hrest'⟩ := bind_eq_ok.mp hbc
    have hle : o' ≠ .gt := by rintro rfl; exact ho (Except.ok.inj hrest).symm
    have hle' : p' ≠ .gt := by rintro rfl; exact hp (Except.ok.inj hrest').symm
    refine bind_eq_ok.mpr ⟨_, h.trans hab' hbc' hle hle', ?_⟩
    cases o' <;> cases p'
    case eq.eq => exact hnext.trans hrest hrest' ho hp
    case lt.lt | lt.eq => obtain rfl := Except.ok.inj hrest; rfl
    case eq.lt =>
      obtain rfl := Except.ok.inj hrest'
      cases o <;> first | rfl | contradiction
    all_goals contradiction

end Coherent

/-! ## Sorting -/

/-- **A list holds the elements of another in the order of a comparison**, tied ones as they
stood. -/
structure SortsStably (cmp : α → α → Except Fault Ordering) (xs sorted : List α) : Prop where
  perm : sorted.Perm xs
  /-- No later element comes before an earlier one. -/
  ordered : sorted.Pairwise fun a b => ∃ o, cmp b a = .ok o ∧ o ≠ .lt
  /-- Those that are tied with one element stand as they stood. -/
  stable : ∀ a, (sorted.filter fun b => cmp a b = .ok .eq) = xs.filter fun b => cmp a b = .ok .eq

/-- The places of a list rise. -/
theorem zipIdx_places (xs : List α) : xs.zipIdx.Pairwise fun p q => p.2 < q.2 := by
  rw [← List.pairwise_map (f := Prod.snd) (R := fun i j : Nat => i < j), List.zipIdx_map_snd]
  exact List.pairwise_lt_range'

theorem pairwise_zipIdx {R : α → α → Prop} {xs : List α} (h : xs.Pairwise R) :
    xs.zipIdx.Pairwise fun p q => R p.1 q.1 := by
  rw [← List.pairwise_map (f := Prod.fst) (R := R), List.zipIdx_map_fst]
  exact h

namespace Coherent

variable {cmp : α → α → Except Fault Ordering}

/-- The order of elements with their places: tied ones go by their places. -/
def PlacedBefore (cmp : α → α → Except Fault Ordering) (p q : α × Nat) : Prop :=
  cmp p.1 q.1 = .ok .lt ∨ cmp p.1 q.1 = .ok .eq ∧ p.2 < q.2

theorem PlacedBefore.trans (h : Coherent cmp) {p q r : α × Nat} (hpq : PlacedBefore cmp p q)
    (hqr : PlacedBefore cmp q r) : PlacedBefore cmp p r := by
  obtain hpq | ⟨hpq, hlt⟩ := hpq <;> obtain hqr | ⟨hqr, hlt'⟩ := hqr
  · exact Or.inl (h.trans hpq hqr (by decide) (by decide))
  · exact Or.inl (h.trans hpq hqr (by decide) (by decide))
  · exact Or.inl (h.trans hpq hqr (by decide) (by decide))
  · exact Or.inr ⟨h.eq_trans hpq hqr, Nat.lt_trans hlt hlt'⟩

/-- Asked whether a later element comes before an earlier one, the comparison decides their order
with places. -/
theorem decides_placedBefore (h : Coherent cmp) {p q : α × Nat} (hlt : p.2 < q.2)
    (hpq : ∃ o, cmp p.1 q.1 = .ok o) :
    Decides True (fun a b => (cmp a.1 b.1).map (· = .lt)) (PlacedBefore cmp) p q := by
  obtain ⟨o, hpq⟩ := hpq
  have hqp := h.swap hpq
  rw [Decides, hqp]
  cases o with
  | lt => exact Or.inl hpq
  | eq => exact Or.inr ⟨hpq, hlt⟩
  | gt => exact Or.inl hqp

/-- Of elements in order with their places, those that are tied with one stand as they stood. -/
theorem filter_placed (h : Coherent cmp) {xs : List α} {placed : List (α × Nat)}
    (hperm : placed.Perm xs.zipIdx) (hplaced : placed.Pairwise (PlacedBefore cmp)) (a : α) :
    ((placed.map Prod.fst).filter fun b => cmp a b = .ok .eq) =
      xs.filter fun b => cmp a b = .ok .eq := by
  have hrising : (placed.filter fun p => cmp a p.1 = .ok .eq).Pairwise fun p q => p.2 < q.2 := by
    refine (hplaced.filter _).imp_of_mem fun {p q} hp hq hpq => ?_
    have hp : cmp a p.1 = .ok .eq := of_decide_eq_true (List.mem_filter.mp hp).2
    have hq : cmp a q.1 = .ok .eq := of_decide_eq_true (List.mem_filter.mp hq).2
    have heq : cmp p.1 q.1 = .ok .eq := h.eq_trans (h.swap hp) hq
    obtain hlt | ⟨-, hlt⟩ := hpq
    · simp [heq] at hlt
    · exact hlt
  -- both hold the same pairs with rising places, so they are one list
  have hsame : (placed.filter fun p => cmp a p.1 = .ok .eq) =
      xs.zipIdx.filter fun p => cmp a p.1 = .ok .eq :=
    (hperm.filter _).eq_of_pairwise (fun p q _ _ hpq hqp => absurd hqp (Nat.lt_asymm hpq))
      hrising ((zipIdx_places xs).filter _)
  have hmap := congrArg (List.map Prod.fst) hsame
  rw [← List.zipIdx_map_fst 0 xs, List.filter_map, List.filter_map]
  exact hmap

/-- **Sorting by a coherent comparison** that answers on all pairs of a list gives a result, with
the elements in its order and tied ones as they stood. -/
theorem stableSort_sorts (h : Coherent cmp) {xs : List α}
    (hxs : xs.Pairwise fun a b => ∃ o, cmp a b = .ok o) :
    ∃ sorted, stableSort (fun a b => (cmp a b).map (· = .lt)) xs = .ok sorted ∧
      SortsStably cmp xs sorted := by
  have hdecides : xs.zipIdx.Pairwise
      (Decides True (fun a b => (cmp a.1 b.1).map (· = .lt)) (PlacedBefore cmp)) :=
    ((zipIdx_places xs).and (pairwise_zipIdx hxs)).imp
      fun hpq => h.decides_placedBefore hpq.1 hpq.2
  have hyields : Yields True (stableSort (fun a b => (cmp a b).map (· = .lt)) xs) _ :=
    stableSort_yields hdecides
  obtain ⟨sorted, hsorted, placed, hperm, hchain, rfl⟩ := hyields.exists_eq_ok trivial
  have : Trans (PlacedBefore cmp) (PlacedBefore cmp) (PlacedBefore cmp) :=
    ⟨PlacedBefore.trans h⟩
  have hplaced := List.isChain_iff_pairwise.mp hchain
  refine ⟨_, hsorted, ?_, ?_, h.filter_placed hperm hplaced⟩
  · simpa using hperm.map Prod.fst
  · refine List.pairwise_map.mpr (hplaced.imp fun {p q} hpq => ?_)
    obtain hlt | ⟨heq, -⟩ := hpq
    · exact ⟨.gt, h.swap hlt, by decide⟩
    · exact ⟨.eq, h.swap heq, by decide⟩

end Coherent

end Taskboard
