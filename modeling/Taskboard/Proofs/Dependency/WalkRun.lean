import Taskboard.Proofs.Dependency.Walk

/-!
# Proofs/Dependency/WalkRun — walks from their root to their end

`Walk.closings` lists what a run closes, and `Inv.run` carries the invariant of the steps along the
run.  A step of a walk with frames uses up some of its `work`, so `walkFuel`, which covers all work
that a graph holds, brings every walk to its end (`run_frames_eq_nil`, `work_start_le`).
-/

namespace Taskboard

-- sums start from the zero of the naturals, also where an importing module knows other ones
attribute [local instance (high)] Zero.ofOfNat0

/-- How many ids the links name. -/
def Links.count : Links → Nat
  | .ids targets => targets.length
  | .unreadable => 0

namespace Walk

variable {g : Graph} {s : Search} {log : List Cycle} {w : Walk}

/-! ## Runs -/

/-- The cycles that a run closes, in order. -/
def closings (g : Graph) : Nat → Walk → List Cycle
  | 0, _ => []
  | fuel + 1, w => if w.frames.isEmpty then [] else w.closes g ++ closings g fuel (w.step g)

/-- **A run keeps the invariant**, with all its closings in the log. -/
theorem Inv.run (h : Inv g w log) : ∀ fuel : Nat,
    Inv g (w.run g fuel) (log ++ closings g fuel w) := by
  intro fuel
  induction fuel generalizing w log with
  | zero => simpa [Walk.run, closings] using h
  | succ fuel ih =>
    rw [Walk.run, closings]
    split
    · simpa using h
    · have hrest := ih h.step
      rwa [List.append_assoc] at hrest

/-- A task that has a mark keeps one. -/
theorem isSome_mark?_step {id : String} (h : (w.search.mark? id).isSome) :
    ((w.step g).search.mark? id).isSome := by
  unfold Walk.step
  split
  · exact h
  · rw [mark?_leave]
    split <;> simp [h]
  · dsimp only
    split
    · exact h
    · split
      · exact h
      · rwa [Search.mark?_note]
      · split
        · rw [mark?_enter]
          split <;> simp [h]
        · rw [mark?_abandon]
          split <;> simp [h]

theorem isSome_mark?_run {id : String} : ∀ {fuel : Nat} {w : Walk},
    (w.search.mark? id).isSome → ((w.run g fuel).search.mark? id).isSome
  | 0, _, h => h
  | fuel + 1, w, h => by
    rw [Walk.run]
    split
    · exact h
    · exact isSome_mark?_run (isSome_mark?_step h)

/-! ## Fuel

Every step uses up a unit of the work that is left: the links that the frames have not read, the
frames themselves, and the same for every task that has no mark yet. -/

/-- The work of the tasks that have no mark: one step to leave, and one for each link. -/
def unentered (g : Graph) (s : Search) : Nat :=
  (g.map fun e => if (s.mark? e.1).isSome then 0 else e.2.count + 1).sum

/-- The work that is left to a walk. -/
def work (g : Graph) (w : Walk) : Nat :=
  (w.frames.map fun f => f.unread.length + 1).sum + unentered g w.search

theorem unentered_cons (e : String × Links) (es : Graph) (s : Search) : unentered (e :: es) s
    = (if (s.mark? e.1).isSome then 0 else e.2.count + 1) + unentered es s := by
  rw [unentered, List.map_cons, List.sum_cons]
  rfl

theorem unentered_le {s t : Search}
    (h : ∀ id, (s.mark? id).isSome → (t.mark? id).isSome) : unentered g t ≤ unentered g s := by
  induction g with
  | nil => exact Nat.le_refl 0
  | cons e es ih =>
    rw [unentered_cons, unentered_cons]
    by_cases hs : (s.mark? e.1).isSome
    · rw [if_pos hs, if_pos (h _ hs)]
      omega
    · rw [if_neg hs]
      split <;> omega

/-- Entering a task takes its work out. -/
theorem unentered_setMark {s : Search} {id : String} {links : Links} (hmem : (id, links) ∈ g)
    (hmark : s.mark? id = none) (m : Mark) :
    unentered g (s.setMark id m) + (links.count + 1) ≤ unentered g s := by
  have hkeep : ∀ k, (s.mark? k).isSome → ((s.setMark id m).mark? k).isSome := fun k hk => by
    rw [Search.mark?_setMark]
    split
    · rfl
    · exact hk
  induction g with
  | nil => cases hmem
  | cons e es ih =>
    rw [unentered_cons, unentered_cons]
    rcases List.mem_cons.mp hmem with rfl | hmem
    · have hrest := unentered_le (g := es) hkeep
      simp only [Search.mark?_setMark, hmark, if_true, Option.isSome_some, Option.isSome_none,
        Bool.false_eq_true, if_false]
      omega
    · have hlater := ih hmem
      by_cases hs : (s.mark? e.1).isSome
      · rw [if_pos hs, if_pos (hkeep _ hs)]
        omega
      · rw [if_neg hs]
        split <;> omega

/-- No search leaves more work than the graph holds. -/
theorem unentered_le_total (s : Search) : ∀ g : Graph, unentered g s ≤ g.linkCount + g.length
  | [] => Nat.zero_le _
  | (id, links) :: es => by
    have htotal := unentered_le_total s es
    have hcount : Graph.linkCount ((id, links) :: es) = links.count + Graph.linkCount es := by
      rw [Graph.linkCount, List.map_cons, List.sum_cons]
      cases links <;> rfl
    rw [unentered_cons, hcount, List.length_cons]
    dsimp only
    split <;> omega

/-- **Each step of a walk that has frames uses up work.** -/
theorem work_step_lt (h : w.frames ≠ []) : work g (w.step g) < work g w := by
  rcases hframes : w.frames with _ | ⟨⟨node, _ | ⟨next, unread⟩⟩, below⟩
  · exact absurd hframes h
  · have hle : unentered g (w.leave node below).search ≤ unentered g w.search :=
      unentered_le fun id hid => by
        rw [mark?_leave]
        split <;> simp [hid]
    simp only [Walk.step, hframes, work, List.map_cons, List.sum_cons]
    simp only [Walk.leave] at hle ⊢
    omega
  · have hread : work g { w with frames := ⟨node, unread⟩ :: below } < work g w := by
      simp [work, hframes]
    cases hlinks : g.links? next with
    | none => simpa [Walk.step, hframes, hlinks] using hread
    | some links =>
      cases hmark : w.search.mark? next with
      | none =>
        cases links with
        | ids targets =>
          have hle := unentered_setMark (Graph.mem_of_links? hlinks) hmark .onPath
          simp only [Walk.step, hframes, hlinks, hmark, Walk.enter, work, List.map_cons,
            List.sum_cons, List.length_cons, Links.count] at hle ⊢
          omega
        | unreadable =>
          have hle : unentered g (w.search.finish (w.path ++ [next])) ≤ unentered g w.search :=
            unentered_le fun id hid => by
              rw [Search.mark?_finish]
              split <;> simp [hid]
          simp only [Walk.step, hframes, hlinks, hmark, Walk.abandon, work, List.map_cons,
            List.sum_cons, List.length_cons, List.map_nil, List.sum_nil]
          omega
      | some m =>
        cases m with
        | done => simpa [Walk.step, hframes, hlinks, hmark] using hread
        | onPath =>
          have hsame : unentered g (w.search.note (w.cycleTo next)) = unentered g w.search := by
            simp only [unentered, Search.mark?_note]
          simp [Walk.step, hframes, hlinks, hmark, work, hsame]

/-- **A walk with fuel for its work leaves every frame.** -/
theorem run_frames_eq_nil : ∀ {fuel : Nat} {w : Walk}, work g w ≤ fuel →
    (w.run g fuel).frames = []
  | 0, w, h => by
    rcases hframes : w.frames with _ | ⟨f, below⟩
    · exact hframes
    · simp [work, hframes] at h
  | fuel + 1, w, h => by
    rw [Walk.run]
    split
    · rename_i hempty
      exact List.isEmpty_iff.mp hempty
    · rename_i hne
      have hlt := work_step_lt (g := g) fun hnil => hne (List.isEmpty_iff.mpr hnil)
      exact run_frames_eq_nil (by omega)

/-- The fuel of a walk is enough from the start. -/
theorem work_start_le {s : Search} {root : String} {targets : List String}
    (hlinks : g.links? root = some (.ids targets)) (hmark : s.mark? root = none) :
    work g (Walk.start s root targets) ≤ g.walkFuel := by
  have hroot := unentered_setMark (Graph.mem_of_links? hlinks) hmark .onPath
  have htotal := unentered_le_total s g
  simp only [work, Walk.start, Graph.walkFuel, List.map_cons, List.map_nil, List.sum_cons,
    List.sum_nil, Links.count] at hroot ⊢
  omega

end Walk

end Taskboard
