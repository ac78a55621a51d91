import Taskboard.Proofs.Dependency.Descent

/-!
# Proofs/Dependency/Stack — what the structures of a walk tell of each other

A walk keeps its path four times: as the frames of its stack, as the list of their tasks, as the
places of these on it, and as the tasks that are marked `onPath`.  They change at different points
of a step, and `Walk.Aligned` says that they tell the same between any two steps.

It is said of a walk that starts on any marks, as long as none of them is `onPath`: what other walks
have left done, and what was found, does not matter here.

* `Aligned.congr` — the links that are still unread do not matter either.
* `Aligned.enter`, `Aligned.leave` — a task is put on the path, and taken off it.
-/

namespace Taskboard

namespace Walk

/-- **The structures of a walk tell the same path**, one of distinct ids along edges; from a root
that is a task it goes through tasks only. -/
structure Aligned (g : Graph) (root : String) (w : Walk) : Prop where
  /-- The tasks on the stack are those of the path; the innermost frame comes first. -/
  stack : (w.frames.map Frame.node).reverse = w.path
  nodup : w.path.Nodup
  keys : root ∈ g.keys → ∀ id ∈ w.path, id ∈ g.keys
  chain : w.path.IsChain g.Edge
  /-- `position` is the index map of the path. -/
  position : ∀ id i, w.position.lookup id = some i ↔ w.path[i]? = some id
  onPath : ∀ id, w.search.mark? id = some .onPath ↔ id ∈ w.path

variable {g : Graph} {s : Search} {w v : Walk} {f : Frame} {below : List Frame}
  {root node next : String} {targets : List String}

/-- What stands at a place of a list with one more element. -/
theorem getElem?_concat_eq_some {α : Type} {as : List α} {a b : α} {i : Nat} :
    (as ++ [a])[i]? = some b ↔ as[i]? = some b ∨ i = as.length ∧ a = b := by
  rcases Nat.lt_trichotomy i as.length with hlt | rfl | hlt
  · simp [List.getElem?_append_left hlt, Nat.ne_of_lt hlt]
  · simp
  · have hend : (as ++ [a])[i]? = none := List.getElem?_eq_none (by simp; omega)
    simp [hend, List.getElem?_eq_none (Nat.le_of_lt hlt), Nat.ne_of_gt hlt]

namespace Aligned

/-- A walk stands at its root. -/
theorem start (hpath : ∀ id, s.mark? id ≠ some .onPath) :
    (Walk.start s root targets).Aligned g root where
  stack := rfl
  nodup := List.nodup_singleton root
  keys := fun hroot => by simpa [Walk.start] using hroot
  chain := List.isChain_singleton root
  position := by
    intro id i
    by_cases hid : id = root
    · subst hid
      cases i <;> simp [Walk.start]
    · cases i <;> simp [Walk.start, List.lookup_cons, beq_eq_false_iff_ne.mpr hid, Ne.symm hid]
  onPath := by
    intro id
    show (s.setMark root .onPath).mark? id = _ ↔ id ∈ [root]
    rw [Search.mark?_setMark, List.mem_singleton]
    have := hpath id
    split <;> simp_all

/-- Reading a link changes none of them. -/
theorem congr (h : w.Aligned g root) (hstack : v.frames.map Frame.node = w.frames.map Frame.node)
    (hpath : v.path = w.path) (hposition : v.position = w.position)
    (hmarks : ∀ id, v.search.mark? id = w.search.mark? id) : v.Aligned g root where
  stack := by rw [hstack, hpath, h.stack]
  nodup := hpath ▸ h.nodup
  keys := hpath ▸ h.keys
  chain := hpath ▸ h.chain
  position := by rw [hposition, hpath]; exact h.position
  onPath := by simpa only [hmarks, hpath] using h.onPath

/-- The path up to the innermost task. -/
theorem path_eq (h : w.Aligned g root) (hframes : w.frames = f :: below) :
    w.path = (below.map Frame.node).reverse ++ [f.node] := by
  rw [← h.stack, hframes, List.map_cons, List.reverse_cons]

/-- What is left of the path without the innermost task. -/
theorem mem_path_iff (h : w.Aligned g root) (hframes : w.frames = f :: below) {id : String} :
    id ∈ w.path ↔ id ∈ w.path.dropLast ∨ id = f.node := by
  rw [h.path_eq hframes, List.dropLast_concat, List.mem_append, List.mem_singleton]

theorem mem_path (h : w.Aligned g root) (hframes : w.frames = f :: below) : f.node ∈ w.path :=
  (h.mem_path_iff hframes).mpr (.inr rfl)

/-- The innermost task stands on the stack once. -/
theorem notMem_below (h : w.Aligned g root) (hframes : w.frames = f :: below) :
    f.node ∉ below.map Frame.node := fun hmem => by
  have hnodup := h.nodup
  rw [h.path_eq hframes] at hnodup
  exact (List.nodup_append.mp hnodup).2.2 _ (List.mem_reverse.mpr hmem) _
    (List.mem_singleton_self _) rfl

/-- **A task that has no mark is put on the path**, next to one that depends on it. -/
theorem enter (h : w.Aligned g root) (hframes : w.frames = f :: below) (hedge : g.Edge f.node next)
    (hmark : w.search.mark? next = none) : (w.enter next targets).Aligned g root := by
  have hnew : next ∉ w.path := fun hmem => by
    rw [(h.onPath next).mpr hmem] at hmark
    cases hmark
  have ⟨_, _, _, hhas⟩ := hedge
  refine ⟨?_, ?_, fun hroot id hid => ?_, ?_, fun id i => ?_, fun id => ?_⟩
  · rw [Walk.enter, List.map_cons, List.reverse_cons, h.stack]
  · rw [Walk.enter, ← List.concat_eq_append]
    exact .concat hnew h.nodup
  · rcases List.mem_append.mp hid with hid | hid
    · exact h.keys hroot id hid
    · exact List.mem_singleton.mp hid ▸ Graph.mem_keys_of_has hhas
  · refine List.isChain_append.mpr ⟨h.chain, List.isChain_singleton next, fun last hlast b hb => ?_⟩
    rw [h.path_eq hframes, List.getLast?_concat] at hlast
    obtain rfl := Option.some.inj hlast
    obtain rfl := Option.some.inj hb
    exact hedge
  · show ((next, w.path.length) :: w.position).lookup id = some i ↔ (w.path ++ [next])[i]? = some id
    rw [getElem?_concat_eq_some, ← h.position]
    by_cases hid : id = next
    · subst hid
      have hnone : w.position.lookup id ≠ some i := fun hi =>
        hnew (List.mem_of_getElem? ((h.position id i).mp hi))
      simp [hnone, eq_comm]
    · simp [List.lookup_cons, beq_eq_false_iff_ne.mpr hid, Ne.symm hid]
  · show _ ↔ id ∈ w.path ++ [next]
    rw [mark?_enter, List.mem_append, List.mem_singleton, ← h.onPath id]
    split <;> simp_all

/-- **The innermost task is taken off the path.** -/
theorem leave (h : w.Aligned g root) (hframes : w.frames = f :: below) :
    (w.leave f.node below).Aligned g root := by
  have hpath := h.path_eq hframes
  have hdrop : w.path.dropLast = (below.map Frame.node).reverse := by
    rw [hpath, List.dropLast_concat]
  have hnodup := h.nodup
  have hchain := h.chain
  have hposition := h.position
  have honPath := h.onPath
  rw [hpath] at hnodup hchain
  simp only [hpath] at hposition honPath
  have hout : f.node ∉ (below.map Frame.node).reverse := fun hmem =>
    h.notMem_below hframes (List.mem_reverse.mp hmem)
  refine ⟨hdrop.symm, ?_, fun hroot id hid => ?_, ?_, fun id i => ?_, fun id => ?_⟩
  · show w.path.dropLast.Nodup
    rw [hdrop]
    exact (List.nodup_append.mp hnodup).1
  · exact h.keys hroot id (List.dropLast_subset _ hid)
  · show w.path.dropLast.IsChain g.Edge
    rw [hdrop]
    exact hchain.left_of_append
  · show (w.position.filter (·.1 ≠ f.node)).lookup id = some i ↔ w.path.dropLast[i]? = some id
    rw [hdrop]
    by_cases hid : id = f.node
    · have hnone : (w.position.filter (·.1 ≠ f.node)).lookup f.node = none :=
        List.lookup_eq_none_iff.mpr fun e he =>
          bne_iff_ne.mpr (Ne.symm (of_decide_eq_true (List.mem_filter.mp he).2))
      rw [hid, hnone]
      exact iff_of_false nofun fun hi => hout (List.mem_of_getElem? hi)
    · rw [lookup_filter_ne hid, hposition, getElem?_concat_eq_some]
      simp [Ne.symm hid]
  · show _ ↔ id ∈ w.path.dropLast
    rw [hdrop, mark?_leave]
    split
    next hid => simp [hid, hout]
    next hid => rw [honPath, List.mem_append, List.mem_singleton, or_iff_left hid]

end Aligned

end Walk

end Taskboard
