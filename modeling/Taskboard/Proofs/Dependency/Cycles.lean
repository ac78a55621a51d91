import Taskboard.Proofs.Dependency.Search
import Taskboard.Text.Find

/-!
# Proofs/Dependency/Cycles — what the cycles of a graph tell

The cycles that a search returns are genuine, pairwise different, and there are none exactly when
the graph has no loop (`cycles_sound_complete`).  Cycles are told apart by their signature, which
may be one for two cycles when an id holds the separator; `reportsLoops_iff` says that this is all
that can hide a loop.
-/

open Relation

namespace Taskboard

/-! ## Signatures -/

namespace Cycle

theorem toList_signature : ∀ c : Cycle, c.signature.toList = joinParts '>' (c.map String.toList)
  | [] => rfl
  | [id] => by simp [signature, joinParts]
  | id :: next :: rest => by
    have hrest := toList_signature (next :: rest)
    rw [signature] at hrest
    rw [signature, String.intercalate_cons_cons, String.toList_append, String.toList_append, hrest]
    simp [joinParts]

/-- **The signature tells cycles apart** whose ids do not hold the separator. -/
theorem eq_of_signature {c d : Cycle} (hc : c ≠ []) (hd : d ≠ [])
    (hcs : ∀ id ∈ c, '>' ∉ id.toList) (hds : ∀ id ∈ d, '>' ∉ id.toList)
    (h : c.signature = d.signature) : c = d := by
  have hparts : ∀ e : Cycle, e ≠ [] → (∀ id ∈ e, '>' ∉ id.toList) →
      partsAt '>' e.signature.toList = e.map String.toList := fun e he hes => by
    rw [toList_signature]
    exact partsAt_joinParts (by simpa using he) (by simpa using hes)
  have hmap : c.map String.toList = d.map String.toList := by
    rw [← hparts c hc hcs, ← hparts d hd hds, h]
  exact List.map_injective_iff.mpr (fun _ _ => String.toList_inj.mp) hmap

end Cycle

namespace Graph

variable {g : Graph}

/-! ## Soundness and completeness -/

theorem IsCycle.exists_loop {c : Cycle} (h : g.IsCycle c) : ∃ u, TransGen g.Edge u u :=
  have hfirst := List.head_mem h.ne_nil
  ⟨_, h.transGen hfirst hfirst⟩

/-- **The cycles returned are genuine and pairwise different, and none is returned exactly when the
graph has no loop.** -/
theorem cycles_sound_complete (g : Graph) (hg : g.Readable) :
    (∀ c ∈ g.cycles, g.IsCycle c) ∧ g.cycles.Nodup ∧
      (g.cycles = [] ↔ ∀ u, ¬ TransGen g.Edge u u) := by
  have hgenuine : ∀ c ∈ g.cycles, g.IsCycle c := fun c hc =>
    (searched_rests hg.consistent).logs.genuine c (mem_closings_of_mem_cycles hg.consistent hc)
  refine ⟨hgenuine, (nodup_signatures hg.consistent).of_map, ?_⟩
  constructor
  · intro hnil u hloop
    obtain ⟨c, hc, -⟩ := exists_closing_in_component hg.consistent (hg.legible u) hloop
    obtain ⟨d, hd, -⟩ := exists_cycle_of_closing hg.consistent hc
    rw [hnil] at hd
    cases hd
  · intro hnone
    refine List.eq_nil_iff_forall_not_mem.mpr fun c hc => ?_
    obtain ⟨u, hloop⟩ := (hgenuine c hc).exists_loop
    exact hnone u hloop

/-- A self-link, repeated links and a link to no task. -/
theorem cycles_sound_complete_repeated :
    let g : Graph :=
      [("a", .ids ["b", "ghost", "b"]), ("b", .ids ["b", "a", "a"]), ("c", .ids ["a"])]
    g.Readable ∧ g.cycles = [["b"], ["a", "b"]] ∧ (∀ c ∈ g.cycles, g.IsCycle c) ∧
      ∃ u, TransGen g.Edge u u := by
  intro g
  have hg : g.Readable := by decide
  have hcycles : g.cycles = [["b"], ["a", "b"]] := by decide
  obtain ⟨hgenuine, -, hnil⟩ := cycles_sound_complete g hg
  refine ⟨hg, hcycles, hgenuine, ?_⟩
  by_contra hnone
  have := hnil.mpr fun u hloop => hnone ⟨u, hloop⟩
  rw [hcycles] at this
  cases this

/-! ## Loops that are reported -/

/-- Each component with a loop has a cycle of its own among those returned, and a cycle that is
closed is left out only when the very same one is returned. -/
def ReportsLoops (g : Graph) : Prop :=
  (∀ u, TransGen g.Edge u u → ∃ c ∈ g.cycles, ∀ v ∈ c, v ∈ g.component u) ∧
    ∀ c ∈ g.closings, c ∈ g.cycles

/-- **All loops are reported exactly when no two different cycles that the search closes share a
signature**; so it is where no id holds the separator.  In every graph, each component with a loop
has a cycle that the search closes and of whose signature one is returned. -/
theorem reportsLoops_iff (g : Graph) (hg : g.Readable) :
    (g.ReportsLoops
      ↔ ∀ c ∈ g.closings, ∀ d ∈ g.closings, c.signature = d.signature → c = d) ∧
    ((∀ id ∈ g.keys, '>' ∉ id.toList) → g.ReportsLoops) ∧
    ∀ u, TransGen g.Edge u u → ∃ c ∈ g.closings, (∀ v ∈ c, v ∈ g.component u) ∧
      ∃ d ∈ g.cycles, d.signature = c.signature := by
  have hclosing : ∀ u, TransGen g.Edge u u →
      ∃ c ∈ g.closings, ∀ v ∈ c, v ∈ g.component u := fun u hloop =>
    exists_closing_in_component hg.consistent (hg.legible u) hloop
  have hiff : g.ReportsLoops
      ↔ ∀ c ∈ g.closings, ∀ d ∈ g.closings, c.signature = d.signature → c = d := by
    constructor
    · rintro ⟨-, hkept⟩ c hc d hd hsame
      exact List.inj_on_of_nodup_map (nodup_signatures hg.consistent) (hkept c hc) (hkept d hd)
        hsame
    · intro happart
      have hkept : ∀ c ∈ g.closings, c ∈ g.cycles := fun c hc => by
        obtain ⟨d, hd, hsame⟩ := exists_cycle_of_closing hg.consistent hc
        exact happart d (mem_closings_of_mem_cycles hg.consistent hd) c hc hsame ▸ hd
      refine ⟨fun u hloop => ?_, hkept⟩
      obtain ⟨c, hc, hin⟩ := hclosing u hloop
      exact ⟨c, hkept c hc, hin⟩
  refine ⟨hiff, fun hfree => hiff.mpr fun c hc d hd hsame => ?_, fun u hloop => ?_⟩
  · have hgenuine := (searched_rests hg.consistent).logs.genuine
    exact Cycle.eq_of_signature (hgenuine c hc).ne_nil (hgenuine d hd).ne_nil
      (fun id hid => hfree id ((hgenuine c hc).mem_keys id hid))
      (fun id hid => hfree id ((hgenuine d hd).mem_keys id hid)) hsame
  · obtain ⟨c, hc, hin⟩ := hclosing u hloop
    exact ⟨c, hc, hin, exists_cycle_of_closing hg.consistent hc⟩

/-- An id with the separator hides nothing as long as no other cycle spells it. -/
theorem reportsLoops_iff_separator :
    let g : Graph := [("a>b", .ids ["a>b"]), ("c", .ids ["d"]), ("d", .ids ["c"])]
    g.Readable ∧ g.ReportsLoops := by
  intro g
  have hg : g.Readable := by decide
  exact ⟨hg, (reportsLoops_iff g hg).1.mpr (by decide)⟩

/-- **A loop that is hidden**: the self-link of `a>b` has the signature of the cycle of `a` and `b`,
whose component has no cycle among those returned. -/
theorem loop_hidden_by_separator :
    let g : Graph := [("a>b", .ids ["a>b"]), ("a", .ids ["b"]), ("b", .ids ["a"])]
    g.Readable ∧ TransGen g.Edge "a" "a" ∧ (¬ ∃ c ∈ g.cycles, ∀ v ∈ c, v ∈ g.component "a") ∧
      ¬ g.ReportsLoops := by
  intro g
  have hab : g.Edge "a" "b" := ⟨["b"], by decide, by decide, by decide⟩
  have hba : g.Edge "b" "a" := ⟨["a"], by decide, by decide, by decide⟩
  have hloop : TransGen g.Edge "a" "a" := .tail (.single hab) hba
  have hcycles : g.cycles = [["a>b"]] := by decide
  have hreach : ∀ v, ReflTransGen g.Edge "a" v → v = "a" ∨ v = "b" := by
    intro v h
    induction h with
    | refl => exact Or.inl rfl
    | tail _ hedge ih =>
      obtain ⟨targets, hlinks, hmem, -⟩ := hedge
      rcases ih with rfl | rfl
      · obtain rfl : ["b"] = targets := Links.ids.inj (Option.some.inj hlinks)
        exact Or.inr (List.mem_singleton.mp hmem)
      · obtain rfl : ["a"] = targets := Links.ids.inj (Option.some.inj hlinks)
        exact Or.inl (List.mem_singleton.mp hmem)
  have hhidden : ¬ ∃ c ∈ g.cycles, ∀ v ∈ c, v ∈ g.component "a" := by
    rintro ⟨c, hc, hin⟩
    rw [hcycles] at hc
    obtain rfl := List.mem_singleton.mp hc
    have := hreach "a>b" (hin "a>b" (List.mem_singleton.mpr rfl)).1
    revert this
    decide
  exact ⟨by decide, hloop, hhidden, fun hreports => hhidden (hreports.1 "a" hloop)⟩

end Graph

end Taskboard
