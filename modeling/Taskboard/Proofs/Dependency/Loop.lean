import Mathlib.Data.List.Chain
import Taskboard.Dependency.Cycle

/-!
# Proofs/Dependency/Loop — loops and components of a dependency graph

`Graph.Edge` is a link from one task of a graph to another one; links to other ids do not count.
A genuine cycle (`Graph.IsCycle`) is a simple path along edges that its last task closes, and two
tasks share a component (`Graph.component`) when each reaches the other.

* `IsCycle.subset_component` — a cycle stays in the component of any of its tasks.
* `exists_closed_in_component` — if some cycles cut every infinite path from a task, then a loop
  through that task puts one of them into its component.
-/

open Relation

namespace Taskboard

namespace Graph

/-- A link between two tasks of the graph. -/
def Edge (g : Graph) (u v : String) : Prop :=
  ∃ targets, g.links? u = some (.ids targets) ∧ v ∈ targets ∧ g.has v = true

/-- A simple cycle along edges. -/
structure IsCycle (g : Graph) (c : Cycle) : Prop where
  ne_nil : c ≠ []
  nodup : c.Nodup
  mem_keys : ∀ id ∈ c, id ∈ g.keys
  /-- Each task depends on the next. -/
  chain : c.IsChain g.Edge
  /-- The last task depends on the first. -/
  closes : ∀ last ∈ c.getLast?, ∀ first ∈ c.head?, g.Edge last first

/-- The tasks that reach a task and are reached from it. -/
def component (g : Graph) (u : String) : Set String :=
  {v | ReflTransGen g.Edge u v ∧ ReflTransGen g.Edge v u}

variable {g : Graph} {u v : String}

/-! ## Look-up -/

theorem mem_of_links? : ∀ {g : Graph} {links : Links}, g.links? u = some links → (u, links) ∈ g
  | [], _, h => by simp [links?, entryAt?] at h
  | (k, l) :: es, links, h => by
    rw [links?, entryAt?] at h
    split at h
    · rename_i hk
      cases h
      exact hk ▸ List.mem_cons_self
    · exact List.mem_cons_of_mem _ (mem_of_links? (g := es) h)

theorem has_eq_true_iff : g.has u = true ↔ ∃ links, g.links? u = some links :=
  Option.isSome_iff_exists

theorem mem_keys_of_has (h : g.has u = true) : u ∈ g.keys := by
  obtain ⟨links, hlinks⟩ := has_eq_true_iff.mp h
  exact List.mem_map.mpr ⟨_, mem_of_links? hlinks, rfl⟩

/-! ## Paths and cycles -/

/-- Along a path every task reaches all later ones. -/
theorem pairwise_transGen {p : List String} (h : p.IsChain g.Edge) :
    p.Pairwise (TransGen g.Edge) :=
  (h.imp fun _ _ => TransGen.single).pairwise

theorem reflTransGen_getLast {p : List String} (h : p.IsChain g.Edge) (hu : u ∈ p) :
    ∀ last ∈ p.getLast?, ReflTransGen g.Edge u last := by
  intro last hlast
  obtain ⟨before, after, rfl⟩ := List.append_of_mem hu
  have hlast' : (u :: after).getLast (List.cons_ne_nil _ _) = last := by
    rw [List.getLast?_append_of_ne_nil _ (List.cons_ne_nil _ _),
      List.getLast?_eq_some_getLast (List.cons_ne_nil _ _)] at hlast
    exact Option.some.inj hlast
  exact List.relationReflTransGen_of_exists_isChain_cons after (h.right_of_append) hlast'

theorem reflTransGen_head {p : List String} (h : p.IsChain g.Edge) (hu : u ∈ p) :
    ∀ first ∈ p.head?, ReflTransGen g.Edge first u := by
  intro first hfirst
  cases p with
  | nil => cases hu
  | cons a as =>
    obtain rfl : a = first := Option.some.inj hfirst
    rcases List.mem_cons.mp hu with rfl | hu
    · exact .refl
    · exact ((List.pairwise_cons.mp (pairwise_transGen h)).1 u hu).to_reflTransGen

namespace IsCycle

/-- Around a cycle every task reaches every task. -/
theorem transGen {c : Cycle} (h : g.IsCycle c) (hu : u ∈ c) (hv : v ∈ c) :
    TransGen g.Edge u v := by
  have hlast := List.getLast?_eq_some_getLast h.ne_nil
  have hfirst := List.head?_eq_some_head h.ne_nil
  calc TransGen g.Edge u (c.head h.ne_nil) :=
        TransGen.tail' (reflTransGen_getLast h.chain hu _ hlast) (h.closes _ hlast _ hfirst)
    ReflTransGen g.Edge _ v := reflTransGen_head h.chain hv _ hfirst

theorem subset_component {c : Cycle} (h : g.IsCycle c) (hu : u ∈ c) :
    ∀ v ∈ c, v ∈ g.component u := fun _ hv =>
  ⟨(h.transGen hu hv).to_reflTransGen, (h.transGen hv hu).to_reflTransGen⟩

end IsCycle

/-! ## Cutting the loops of a component

A list of cycles *cuts* the edges that have both ends on one of them.  Where every path of uncut
edges from a task ends, a loop through that task cannot avoid the cycles. -/

/-- An edge whose ends share no cycle of a list, read backwards. -/
def Uncut (g : Graph) (log : List Cycle) (v u : String) : Prop :=
  g.Edge u v ∧ ∀ c ∈ log, u ∈ c → v ∉ c

theorem acc_uncut_mono {log more : List Cycle} (hsub : ∀ c ∈ log, c ∈ more)
    (h : Acc (g.Uncut log) u) : Acc (g.Uncut more) u :=
  Subrelation.accessible (fun ⟨hedge, huncut⟩ => ⟨hedge, fun c hc => huncut c (hsub c hc)⟩) h

theorem not_transGen_self_of_acc {r : String → String → Prop} (h : Acc r u) :
    ¬ TransGen r u u := by
  induction h.transGen with
  | intro a _ ih => exact fun ha => ih a ha h ha

/-- A loop through a task runs inside its component. -/
theorem transGen_within_component (h : TransGen g.Edge u v) (hback : ReflTransGen g.Edge v u) :
    TransGen (fun a b => g.Edge a b ∧ a ∈ g.component u ∧ b ∈ g.component u) u v := by
  induction h with
  | single hedge => exact .single ⟨hedge, ⟨.refl, .refl⟩, ⟨.single hedge, hback⟩⟩
  | tail hpath hedge ih =>
    have hback' := hback.head hedge
    have hreach := hpath.to_reflTransGen
    exact (ih hback').tail ⟨hedge, ⟨hreach, hback'⟩, ⟨hreach.tail hedge, hback⟩⟩

/-- **A loop through a task puts a cycle of the list into its component**, if the list cuts every
infinite path from the task. -/
theorem exists_closed_in_component {log : List Cycle} (hlog : ∀ c ∈ log, g.IsCycle c)
    (hacc : Acc (g.Uncut log) u) (hloop : TransGen g.Edge u u) :
    ∃ c ∈ log, ∀ v ∈ c, v ∈ g.component u := by
  by_contra hnone
  have huncut : ∀ a b, g.Edge a b ∧ a ∈ g.component u ∧ b ∈ g.component u → g.Uncut log b a := by
    rintro a b ⟨hedge, ha, -⟩
    refine ⟨hedge, fun c hc hac _ => hnone ⟨c, hc, fun v hv => ?_⟩⟩
    obtain ⟨hav, hva⟩ := (hlog c hc).subset_component hac v hv
    exact ⟨ha.1.trans hav, hva.trans ha.2⟩
  have hwithin := transGen_within_component hloop .refl
  exact not_transGen_self_of_acc hacc (TransGen.swap _ _ (TransGen.mono huncut _ _ hwithin))

end Graph

end Taskboard
