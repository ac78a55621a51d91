import Mathlib.Data.List.Nodup
import Taskboard.Proofs.Dependency.WalkRun

/-!
# Proofs/Dependency/Search — what a whole search has found

Between walks a search *rests* (`Search.Rests`): no task is on a path, and from the tasks that are
done no endless path of uncut edges leaves.  Each visit keeps this and leaves its root marked, so at
the end every task with readable links is done (`searched_rests`, `mark?_searched`).

`Graph.closings` lists every cycle that the search closes, noted or not.  All of them are genuine,
each loop puts one into its component (`exists_closing_in_component`), and the cycles returned are
those of the closings that came first with their signature.
-/

open Relation

namespace Taskboard

/-- What holds of a search between walks. -/
structure Search.Rests (g : Graph) (s : Search) (log : List Cycle) : Prop where
  logs : s.Logs g log
  noPath : ∀ id, s.mark? id ≠ some .onPath
  settled : ∀ id, s.mark? id = some .done → g.Legible id → Acc (g.Uncut log) id

namespace Graph

/-- Every task has readable links. -/
def Readable (g : Graph) : Prop := ∀ e ∈ g, e.2 ≠ .unreadable

instance (g : Graph) : Decidable g.Readable := inferInstanceAs (Decidable (∀ e ∈ g, _))

/-- The cycles that a visit closes. -/
def visitClosings (g : Graph) (s : Search) (root : String) (links : Links) : List Cycle :=
  if (s.mark? root).isSome then []
  else match links with
    | .ids targets => Walk.closings g g.walkFuel (Walk.start s root targets)
    | .unreadable => []

/-- The cycles that visits close one after the other. -/
def closingsFrom (g : Graph) : Search → List (String × Links) → List Cycle
  | _, [] => []
  | s, (root, links) :: rest =>
    g.visitClosings s root links ++ closingsFrom g (g.visit s root links) rest

/-- **All cycles that the search closes**, noted or not, in the order of closing. -/
def closings (g : Graph) : List Cycle := g.closingsFrom Search.empty g

/-- The search after all visits. -/
def searched (g : Graph) : Search :=
  g.foldl (fun s (root, links) => g.visit s root links) Search.empty

variable {g : Graph} {s : Search} {log : List Cycle} {u : String}

/-! ## Readable links -/

theorem links?_append (a b : Graph) (id : String) :
    links? (a ++ b) id = (a.links? id).or (b.links? id) := by
  induction a with
  | nil => rfl
  | cons e es ih =>
    obtain ⟨k, links⟩ := e
    simp only [links?, List.cons_append, entryAt?] at ih ⊢
    split
    · rfl
    · exact ih

theorem Readable.links? (hg : g.Readable) {id : String} (hmem : id ∈ g.keys) :
    ∃ targets, g.links? id = some (.ids targets) := by
  obtain ⟨links, hlinks⟩ : ∃ links, g.links? id = some links := by
    obtain ⟨⟨k, links⟩, he, rfl⟩ := List.mem_map.mp hmem
    obtain ⟨before, after, rfl⟩ := List.append_of_mem he
    rw [links?_append]
    cases Graph.links? before k <;> simp [Graph.links?, entryAt?]
  cases links with
  | ids targets => exact ⟨targets, hlinks⟩
  | unreadable => exact absurd rfl (hg _ (mem_of_links? hlinks))

theorem Readable.legible (hg : g.Readable) (u : String) : g.Legible u :=
  fun _ _ hlinks => hg _ (mem_of_links? hlinks) rfl

end Graph

/-! ## Visits -/

namespace Search.Rests

variable {g : Graph} {s : Search} {log : List Cycle} {root : String} {links : Links}

theorem empty (g : Graph) : Search.Rests g Search.empty [] where
  logs := ⟨by simp, by simp [Search.empty], rfl, List.nodup_nil, by simp⟩
  noPath := by simp [Search.empty, Search.mark?]
  settled := by simp [Search.empty, Search.mark?]

/-- A walk starts on its invariant. -/
theorem start (h : s.Rests g log) {targets : List String}
    (hlinks : g.links? root = some (.ids targets)) :
    Walk.Inv g (Walk.start s root targets) log := by
  refine ⟨h.logs.congr rfl rfl, rfl, by simp [Walk.start], ?_, fun id => ?_, ?_,
    fun id hid hlegible => ?_⟩
  · simp [Walk.start]
  · show (s.setMark root .onPath).mark? id = _ ↔ id ∈ [root]
    rw [Search.mark?_setMark, List.mem_singleton]
    have := h.noPath id
    split <;> simp_all
  · exact ⟨⟨[], by simpa using hlinks, by simp, by simp⟩, trivial⟩
  · change (s.setMark root .onPath).mark? id = _ at hid
    rw [Search.mark?_setMark] at hid
    split at hid
    · cases hid
    · exact h.settled id hid hlegible

/-- **A visit keeps a search at rest**, with what it closes in the log. -/
theorem visit (h : s.Rests g log)
    (hlinks : s.mark? root = none → links ≠ .unreadable → g.links? root = some links) :
    (g.visit s root links).Rests g (log ++ g.visitClosings s root links) := by
  cases hmark : s.mark? root with
  | some m => simpa [Graph.visit, Graph.visitClosings, hmark] using h
  | none =>
    cases links with
    | unreadable => simpa [Graph.visit, Graph.visitClosings, hmark] using h
    | ids targets =>
      have hroot := hlinks hmark (by simp)
      have hrun := (h.start hroot).run g.walkFuel
      have hframes := Walk.run_frames_eq_nil (Walk.work_start_le hroot hmark)
      have hpath : ((Walk.start s root targets).run g g.walkFuel).path = [] := by
        rw [hrun.path_eq, hframes]
        rfl
      simp only [Graph.visit, Graph.visitClosings, hmark, Option.isSome_none, Bool.false_eq_true,
        if_false]
      refine ⟨hrun.logs, fun id hid => ?_, hrun.settled⟩
      have hmem := (hrun.onPath id).mp hid
      rw [hpath] at hmem
      cases hmem

end Search.Rests

namespace Graph

variable {g : Graph} {s : Search} {log : List Cycle} {root u : String} {links : Links}

theorem isSome_mark?_visit {id : String} (h : (s.mark? id).isSome) :
    ((g.visit s root links).mark? id).isSome := by
  unfold visit
  split
  · exact h
  · cases links with
    | unreadable => exact h
    | ids targets =>
      refine Walk.isSome_mark?_run ?_
      show ((s.setMark root .onPath).mark? id).isSome
      rw [Search.mark?_setMark]
      split <;> simp [h]

/-- A visited task with readable links is marked. -/
theorem isSome_mark?_visit_self (h : links ≠ .unreadable) :
    ((g.visit s root links).mark? root).isSome := by
  unfold visit
  split
  · assumption
  · cases links with
    | unreadable => exact absurd rfl h
    | ids targets =>
      refine Walk.isSome_mark?_run ?_
      show ((s.setMark root .onPath).mark? root).isSome
      rw [Search.mark?_setMark, if_pos rfl]
      rfl

/-- A graph in which a task that occurs twice has readable links both times or never. -/
def Consistent (g : Graph) : Prop :=
  ∀ e ∈ g, e.2 ≠ .unreadable → g.links? e.1 ≠ some .unreadable

theorem Readable.consistent (hg : g.Readable) : g.Consistent :=
  fun _ _ _ hlinks => hg _ (mem_of_links? hlinks) rfl

/-- When the tasks before a task are marked and it is not, this is the first time that it occurs, so
the graph gives its links. -/
theorem Consistent.links?_of_unmarked (hg : g.Consistent) {before rest : Graph}
    (hsplit : g = before ++ (root, links) :: rest)
    (hmarked : ∀ e ∈ before, e.2 ≠ .unreadable → (s.mark? e.1).isSome)
    (hmark : s.mark? root = none) (hreadable : links ≠ .unreadable) :
    g.links? root = some links := by
  have hfirst : g.links? root = (before.links? root).or (some links) := by
    rw [hsplit, links?_append]
    simp [Graph.links?, entryAt?]
  cases hbefore : before.links? root with
  | none => rw [hfirst, hbefore, Option.none_or]
  | some l =>
    have hl : l ≠ .unreadable := fun he =>
      hg (root, links) (by rw [hsplit]; simp) hreadable (by rw [hfirst, hbefore, he]; rfl)
    have := hmarked _ (mem_of_links? hbefore) hl
    rw [hmark] at this
    cases this

/-- **Visits of the rest of a graph**: a search at rest stays so, and all tasks with readable links
are marked in the end. -/
theorem rests_foldl (hg : g.Consistent) : ∀ (before rest : Graph) (s : Search) (log : List Cycle),
    g = before ++ rest → s.Rests g log →
    (∀ e ∈ before, e.2 ≠ .unreadable → (s.mark? e.1).isSome) →
      (rest.foldl (fun s (root, links) => g.visit s root links) s).Rests g
        (log ++ g.closingsFrom s rest) ∧
      ∀ e ∈ g, e.2 ≠ .unreadable →
        ((rest.foldl (fun s (root, links) => g.visit s root links) s).mark? e.1).isSome
  | before, [], s, log, hsplit, h, hmarked => by
    refine ⟨by simpa [closingsFrom] using h, ?_⟩
    rw [hsplit, List.append_nil]
    exact hmarked
  | before, (root, links) :: rest, s, log, hsplit, h, hmarked => by
    have hlinks : s.mark? root = none → links ≠ .unreadable → g.links? root = some links :=
      hg.links?_of_unmarked hsplit hmarked
    rw [List.foldl_cons, closingsFrom, ← List.append_assoc]
    refine rests_foldl hg (before ++ [(root, links)]) rest _ _ (by simpa using hsplit)
      (h.visit hlinks) fun e he hreadable => ?_
    rcases List.mem_append.mp he with he | he
    · exact isSome_mark?_visit (hmarked e he hreadable)
    · obtain rfl := List.mem_singleton.mp he
      exact isSome_mark?_visit_self hreadable

theorem searched_rests (hg : g.Consistent) : g.searched.Rests g g.closings :=
  (rests_foldl hg [] g _ _ rfl (Search.Rests.empty g) (by simp)).1

/-- Every task with readable links is done in the end. -/
theorem mark?_searched (hg : g.Consistent) {targets : List String}
    (hlinks : g.links? u = some (.ids targets)) : g.searched.mark? u = some .done := by
  have hsome : (g.searched.mark? u).isSome :=
    (rests_foldl hg [] g _ _ rfl (Search.Rests.empty g) (by simp)).2 _ (mem_of_links? hlinks)
      (by simp)
  obtain ⟨m, hm⟩ := Option.isSome_iff_exists.mp hsome
  cases m with
  | done => exact hm
  | onPath => exact absurd hm ((searched_rests hg).noPath u)

/-! ## What the closings hold -/

/-- **Every loop is closed somewhere in its component**, unless it reaches unreadable links. -/
theorem exists_closing_in_component (hg : g.Consistent) (hlegible : g.Legible u)
    (hloop : TransGen g.Edge u u) : ∃ c ∈ g.closings, ∀ v ∈ c, v ∈ g.component u := by
  have hrests := searched_rests hg
  obtain ⟨v, ⟨targets, hlinks, -⟩, -⟩ := TransGen.head'_iff.mp hloop
  exact exists_closed_in_component hrests.logs.genuine
    (hrests.settled u (mark?_searched hg hlinks) hlegible) hloop

theorem mem_closings_of_mem_cycles (hg : g.Consistent) {c : Cycle} (hc : c ∈ g.cycles) :
    c ∈ g.closings := (searched_rests hg).logs.found_subset c hc

/-- Of every cycle that is closed one with its signature is returned. -/
theorem exists_cycle_of_closing (hg : g.Consistent) {c : Cycle} (hc : c ∈ g.closings) :
    ∃ d ∈ g.cycles, d.signature = c.signature := by
  have hlogs := (searched_rests hg).logs
  have hmem := hlogs.covered c hc
  rw [hlogs.signatures_eq, List.mem_reverse] at hmem
  exact List.mem_map.mp hmem

/-- No two returned cycles share a signature. -/
theorem nodup_signatures (hg : g.Consistent) : (g.cycles.map Cycle.signature).Nodup := by
  have hlogs := (searched_rests hg).logs
  have hnodup := hlogs.nodup
  rw [hlogs.signatures_eq] at hnodup
  exact List.nodup_reverse.mp hnodup

end Graph

end Taskboard
