import Taskboard.Proofs.Sort.Order

/-!
# Proofs/Sort/Part — the stable order of a part of a list

A comparison that answers on all pairs of a list leaves one stable order of it
(`SortsStably.unique`), and this order restricted to the elements that pass a test is the stable
order of these elements (`SortsStably.filter`).  So it does not matter whether a list is sorted
before or after elements are left out, whichever sort finds the order.

* `sortsStably_mergeSort` — sorting by merges is stable for every total preorder.
-/

namespace Taskboard

variable {α : Type} {cmp : α → α → Except Fault Ordering}

/-! ## One stable order -/

/-- An element with an answer to itself is tied with itself. -/
theorem Coherent.tied_self (h : Coherent cmp) {a : α} (ha : ∃ o, cmp a a = .ok o) :
    cmp a a = .ok .eq := by
  obtain ⟨o, ho⟩ := ha
  have hswap : o = o.swap := Except.ok.inj (ho.symm.trans (h.swap ho))
  cases o with
  | eq => exact ho
  | lt | gt => cases hswap

/-- Two orders of the same elements in which tied ones stand alike are the same. -/
theorem Coherent.eq_of_ordered (h : Coherent cmp) : ∀ {ys zs : List α}, ys.Perm zs →
    (∀ a ∈ ys, cmp a a = .ok .eq) →
    (ys.Pairwise fun a b => ∃ o, cmp b a = .ok o ∧ o ≠ .lt) →
    (zs.Pairwise fun a b => ∃ o, cmp b a = .ok o ∧ o ≠ .lt) →
    (∀ a, (ys.filter fun b => cmp a b = .ok .eq) = zs.filter fun b => cmp a b = .ok .eq) → ys = zs
  | [], _, hperm, _, _, _, _ => hperm.nil_eq
  | y :: ys, [], hperm, _, _, _, _ => absurd hperm.symm.nil_eq (by simp)
  | y :: ys, z :: zs, hperm, hself, hys, hzs, htied => by
    obtain ⟨hy, hys'⟩ := List.pairwise_cons.mp hys
    obtain ⟨hz, hzs'⟩ := List.pairwise_cons.mp hzs
    have hyy := hself y List.mem_cons_self
    -- neither head comes before the other one, so they are tied, and the first of those tied
    have htie : cmp y z = .ok .eq := by
      rcases List.mem_cons.mp (hperm.mem_iff.mpr List.mem_cons_self) with rfl | hmem
      · exact hyy
      rcases List.mem_cons.mp (hperm.mem_iff.mp List.mem_cons_self) with rfl | hmem'
      · exact hyy
      obtain ⟨o, hzy, ho⟩ := hy z hmem
      obtain ⟨p, hyz, hp⟩ := hz y hmem'
      have hswap : p = o.swap := Except.ok.inj (hyz.symm.trans (h.swap hzy))
      cases o with
      | eq => exact hyz.trans (congrArg Except.ok hswap)
      | lt => exact absurd rfl ho
      | gt => exact absurd hswap hp
    obtain rfl : y = z := by
      have heads := htied y
      rw [List.filter_cons_of_pos (by simpa using hyy),
        List.filter_cons_of_pos (by simpa using htie)] at heads
      exact (List.cons_eq_cons.mp heads).1
    refine congrArg (y :: ·) (h.eq_of_ordered hperm.cons_inv
      (fun a ha => hself a (List.mem_cons_of_mem y ha)) hys' hzs' fun a => ?_)
    have hrest := htied a
    rw [List.filter_cons, List.filter_cons] at hrest
    split at hrest
    · exact (List.cons_eq_cons.mp hrest).2
    · exact hrest

namespace SortsStably

variable {xs ys zs : List α}

/-- **A list has one stable order.** -/
theorem unique (h : Coherent cmp) (hxs : ∀ a ∈ xs, ∃ o, cmp a a = .ok o)
    (hys : SortsStably cmp xs ys) (hzs : SortsStably cmp xs zs) : ys = zs :=
  h.eq_of_ordered (hys.perm.trans hzs.perm.symm)
    (fun a ha => h.tied_self (hxs a (hys.perm.mem_iff.mp ha))) hys.ordered hzs.ordered
    fun a => (hys.stable a).trans (hzs.stable a).symm

/-- **What passes a test stands as in the stable order of all that passes it.** -/
theorem filter (h : SortsStably cmp xs ys) (p : α → Bool) :
    SortsStably cmp (xs.filter p) (ys.filter p) where
  perm := h.perm.filter p
  ordered := h.ordered.filter p
  stable a := by rw [List.filter_comm, h.stable, List.filter_comm]

end SortsStably

/-! ## Sorting by merges -/

section Merges

variable (order : α → α → Ordering) [Std.TransCmp order]

theorem isLE_total (a b : α) : ((order a b).isLE || (order b a).isLE) = true := by
  have hswap : order b a = (order a b).swap := Std.OrientedCmp.eq_swap
  rw [hswap]
  cases order a b <;> rfl

/-- **Elements that are tied with each other stand as they stood.** -/
theorem filter_mergeSort {xs : List α} {p : α → Bool}
    (h : ∀ a b, p a = true → p b = true → order a b = .eq) :
    (xs.mergeSort fun a b => (order a b).isLE).filter p = xs.filter p := by
  -- they are in order as they stand, so the sort leaves them as they stand
  have hsub : (xs.filter p).Sublist (xs.mergeSort fun a b => (order a b).isLE) := by
    refine List.sublist_mergeSort (fun _ _ _ => Std.TransCmp.isLE_trans) (isLE_total order)
      (List.pairwise_of_forall_mem_list fun b hb c hc => ?_) List.filter_sublist
    rw [h b c (List.mem_filter.mp hb).2 (List.mem_filter.mp hc).2]
    rfl
  have hfilter := hsub.filter p
  simp only [List.filter_filter, Bool.and_self] at hfilter
  exact (hfilter.eq_of_length ((List.mergeSort_perm xs _).filter p).length_eq.symm).symm

/-- **Sorting by merges is stable.** -/
theorem sortsStably_mergeSort (xs : List α) :
    SortsStably (fun a b => .ok (order a b)) xs (xs.mergeSort fun a b => (order a b).isLE) where
  perm := List.mergeSort_perm xs _
  ordered := by
    refine (List.pairwise_mergeSort (fun _ _ _ => Std.TransCmp.isLE_trans) (isLE_total order)
      xs).imp fun {a b} hle => ⟨_, rfl, fun hlt => ?_⟩
    rw [Std.OrientedCmp.gt_iff_lt.mpr hlt] at hle
    cases hle
  stable a := by
    refine filter_mergeSort order fun b c hb hc => ?_
    have htied {d : α} (hd : decide (Except.ok (order a d) = (.ok .eq : Except Fault Ordering))
        = true) : order a d = .eq := Except.ok.inj (of_decide_eq_true hd)
    rw [Std.TransCmp.eq_trans (Std.OrientedCmp.eq_symm (htied hb)) (htied hc)]

end Merges

end Taskboard
