import Taskboard.Proofs.Dependency.Search

/-!
# Proofs/Dependency/Malformed — unreadable links do no harm elsewhere

A walk that comes to a task with unreadable links fails: it marks its whole path as done and ends
there, so later walks meet tasks that are done although not all of their links were read.  All of
these reach the unreadable links.  A task that reaches none was left in the usual way, so the loops
of its component are closed in whatever order the walks start and wherever one fails.

* `rests_searchedUpTo` — whether walks failed or not, the search rests between them.
* `returns` — every walk comes to its end, those that fail too.
* `cycles_contain_failures` — **what is returned, whatever the links are.**
-/

open Relation

namespace Taskboard

namespace Graph

variable {g : Graph}

/-- The links of a task that occurs once are those that the graph gives. -/
theorem consistent_of_nodup (hg : g.keys.Nodup) : g.Consistent := by
  rintro ⟨id, links⟩ hmem hreadable hlinks
  have hsame : ((id, links) : String × Links) = (id, .unreadable) :=
    List.inj_on_of_nodup_map hg hmem (mem_of_links? hlinks) rfl
  exact hreadable (congrArg Prod.snd hsame)

/-- The tasks of a cycle have readable links. -/
theorem IsCycle.exists_targets {c : Cycle} (h : g.IsCycle c) {id : String} (hid : id ∈ c) :
    ∃ targets, g.links? id = some (.ids targets) := by
  obtain ⟨next, ⟨targets, hlinks, -⟩, -⟩ := TransGen.head'_iff.mp (h.transGen hid hid)
  exact ⟨targets, hlinks⟩

/-! ## The search between two walks -/

/-- The search after the visits of the tasks at the front of the graph. -/
def searchedUpTo (g : Graph) (before : List (String × Links)) : Search :=
  before.foldl (fun s (root, links) => g.visit s root links) Search.empty

/-- **Between two walks the search rests**, and the tasks visited so far are marked, if their links
are readable. -/
theorem rests_searchedUpTo (hg : g.Consistent) {before rest : List (String × Links)}
    (hsplit : g = before ++ rest) : ∃ log, (g.searchedUpTo before).Rests g log ∧
      ∀ e ∈ before, e.2 ≠ .unreadable → ((g.searchedUpTo before).mark? e.1).isSome := by
  induction before using List.reverseRecOn generalizing rest with
  | nil => exact ⟨[], Search.Rests.empty g, nofun⟩
  | append_singleton before e ih =>
    obtain ⟨root, links⟩ := e
    have hsplit : g = before ++ (root, links) :: rest := by rwa [List.append_cons]
    obtain ⟨log, hrests, hmarked⟩ := ih hsplit
    have hnext : g.searchedUpTo (before ++ [(root, links)])
        = g.visit (g.searchedUpTo before) root links := List.foldl_concat _ _ _ _
    rw [hnext]
    refine ⟨_, hrests.visit (hg.links?_of_unmarked hsplit hmarked), fun e he hreadable => ?_⟩
    rcases List.mem_append.mp he with he | he
    · exact isSome_mark?_visit (hmarked e he hreadable)
    · obtain rfl := List.mem_singleton.mp he
      exact isSome_mark?_visit_self hreadable

/-- **A search returns**: each of its walks comes to an end, where no frame is left and no task is
on a path. -/
def Returns (g : Graph) : Prop :=
  ∀ before rest root targets, g = before ++ (root, .ids targets) :: rest →
    (g.searchedUpTo before).mark? root = none →
      ((Walk.start (g.searchedUpTo before) root targets).run g g.walkFuel).frames = [] ∧
        ∀ id, ((Walk.start (g.searchedUpTo before) root targets).run g g.walkFuel).search.mark? id
          ≠ some .onPath

theorem returns (hg : g.Consistent) : g.Returns := by
  intro before rest root targets hsplit hmark
  obtain ⟨log, hrests, hmarked⟩ := rests_searchedUpTo hg hsplit
  have hlinks := hg.links?_of_unmarked hsplit hmarked hmark (by simp)
  have hvisit := (hrests.visit fun _ _ => hlinks).noPath
  simp only [visit, hmark, Option.isSome_none, Bool.false_eq_true, if_false] at hvisit
  exact ⟨Walk.run_frames_eq_nil (Walk.work_start_le hlinks hmark), hvisit⟩

/-! ## What is returned -/

/-- **Unreadable links do no harm elsewhere.**  The search returns; what it returns are simple
cycles of tasks with readable links; and in each component that has a loop and does not reach
unreadable links there is a simple cycle of whose signature one is returned. -/
theorem cycles_contain_failures (g : Graph) (hg : g.keys.Nodup) :
    g.Returns ∧
      (∀ c ∈ g.cycles, g.IsCycle c ∧ ∀ id ∈ c, ∃ targets, g.links? id = some (.ids targets)) ∧
      ∀ u, TransGen g.Edge u u → g.Legible u →
        ∃ c, g.IsCycle c ∧ (∀ v ∈ c, v ∈ g.component u) ∧
          ∃ d ∈ g.cycles, d.signature = c.signature := by
  have hconsistent := consistent_of_nodup hg
  have hgenuine := (searched_rests hconsistent).logs.genuine
  refine ⟨returns hconsistent, fun c hc => ?_, fun u hloop hlegible => ?_⟩
  · have hcycle := hgenuine c (mem_closings_of_mem_cycles hconsistent hc)
    exact ⟨hcycle, fun id => hcycle.exists_targets⟩
  · obtain ⟨c, hc, hin⟩ := exists_closing_in_component hconsistent hlegible hloop
    exact ⟨c, hgenuine c hc, hin, exists_cycle_of_closing hconsistent hc⟩

/-- The walk from `a` closes a cycle and fails behind it; the one from `c` meets what the first one
left and goes on to a loop that reaches no unreadable links. -/
def halfRead : Graph :=
  [("a", .ids ["b", "bad"]), ("b", .ids ["a"]), ("bad", .unreadable), ("c", .ids ["a", "d", "bad"]),
    ("d", .ids ["e"]), ("e", .ids ["d"])]

theorem legible_halfRead : halfRead.Legible "d" := by
  have hreach : ∀ v, ReflTransGen halfRead.Edge "d" v → v = "d" ∨ v = "e" := by
    intro v h
    induction h with
    | refl => exact .inl rfl
    | tail _ hedge ih =>
      obtain ⟨targets, hlinks, hmem, -⟩ := hedge
      rcases ih with rfl | rfl
      · obtain rfl : ["e"] = targets := Links.ids.inj (Option.some.inj hlinks)
        exact .inr (List.mem_singleton.mp hmem)
      · obtain rfl : ["d"] = targets := Links.ids.inj (Option.some.inj hlinks)
        exact .inl (List.mem_singleton.mp hmem)
  intro v hv
  rcases hreach v hv with rfl | rfl <;> decide

/-- Both cycles are returned, the second one with the signature of a cycle around `d`. -/
theorem halfRead_contains_failures :
    halfRead.keys.Nodup ∧ halfRead.cycles = [["a", "b"], ["d", "e"]] ∧
      TransGen halfRead.Edge "d" "d" ∧ halfRead.Legible "d" ∧ halfRead.Returns ∧
      ∃ c, halfRead.IsCycle c ∧ (∀ v ∈ c, v ∈ halfRead.component "d") ∧
        ∃ d ∈ halfRead.cycles, d.signature = c.signature := by
  have hkeys : halfRead.keys.Nodup := by decide
  have hde : halfRead.Edge "d" "e" := ⟨["e"], by decide, by decide, by decide⟩
  have hed : halfRead.Edge "e" "d" := ⟨["d"], by decide, by decide, by decide⟩
  have hloop : TransGen halfRead.Edge "d" "d" := .tail (.single hde) hed
  obtain ⟨hreturns, -, hclosed⟩ := cycles_contain_failures halfRead hkeys
  exact ⟨hkeys, by decide, hloop, legible_halfRead, hreturns, hclosed "d" hloop legible_halfRead⟩

/-- A loop that reaches unreadable links may be lost: its walk fails before it is closed. -/
example : Graph.cycles [("a", .ids ["bad", "b"]), ("bad", .unreadable), ("b", .ids ["a"])] = [] := by
  decide

end Graph

end Taskboard
