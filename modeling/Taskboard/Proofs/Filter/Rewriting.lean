import Mathlib.Logic.Relation
import Taskboard.Filter.Rule

/-!
# Proofs/Filter/Rewriting — rules that say the same

A node without a condition is a conjunction, a disjunction, a negation of its first child, or false,
by its connective; a node without children holds whatever its connective (`holds_all`, `holds_any`,
`holds_not`).  So the laws of Boolean algebra may be used on it as rewritings (`Rewrites`), those of
duality on nodes with children only.  A rewriting inside of a rule changes nothing around it, as the
truth of a node is a function of that of its children (`holds_node_congr`).

* `Rewrites.holds_eq` — a rewriting at any depth keeps the truth of a rule on every task.
* `holds_of_alike` — **rules that rewritings join hold of the same tasks.**
-/

namespace Taskboard.Rule

namespace Connective

/-- A connective that joins all children, in whichever order. -/
def Joins (c : Connective) : Prop := c = .all ∨ c = .any

/-- What a joining connective turns into under a negation. -/
def dual : Connective → Connective
  | .all => .any
  | .any => .all
  | c => c

end Connective

/-- **One rewriting of a rule**, at any depth. The nodes that are rewritten have no condition; their
children may be of any kind. -/
inductive Rewrites : Rule → Rule → Prop
  /-- The children of a conjunction or disjunction in another order. -/
  | permuted {l : Option String} {cs ds : List Rule} : (connective l).Joins → cs.Perm ds →
      Rewrites (.node none l cs) (.node none l ds)
  /-- A child of a conjunction or disjunction once more. -/
  | repeated {l : Option String} {r : Rule} {cs : List Rule} : (connective l).Joins → r ∈ cs →
      Rewrites (.node none l cs) (.node none l (r :: cs))
  /-- Other children behind the first one of a negation, or none. -/
  | ignored {l : Option String} {r : Rule} {cs ds : List Rule} : connective l = .not →
      Rewrites (.node none l (r :: cs)) (.node none l (r :: ds))
  /-- A negation of a negation. -/
  | doubled {l m : Option String} {r : Rule} {cs ds : List Rule} : connective l = .not →
      connective m = .not → Rewrites (.node none l (.node none m (r :: cs) :: ds)) r
  /-- A conjunction or disjunction as a negation of the other kind, of negated children. -/
  | swapped {l m n : Option String} {cs ds : List Rule} : (connective l).Joins →
      connective m = (connective l).dual → connective n = .not → cs ≠ [] →
      Rewrites (.node none l cs) (.node none n (.node none m (cs.map negate) :: ds))
  /-- The negation of a conjunction or disjunction as one of the other kind, of negated children. -/
  | spread {l m n : Option String} {cs ds : List Rule} : connective n = .not →
      (connective l).Joins → connective m = (connective l).dual → cs ≠ [] →
      Rewrites (.node none n (.node none l cs :: ds)) (.node none m (cs.map negate))
  /-- A child of a node rewritten, whatever the node. -/
  | inside {c : Option Condition} {l : Option String} {r s : Rule} {front back : List Rule} :
      Rewrites r s → Rewrites (.node c l (front ++ r :: back)) (.node c l (front ++ s :: back))

/-- Rules that are joined by rewritings, any number of them and in both directions. -/
def Alike : Rule → Rule → Prop := Relation.EqvGen Rewrites

variable {task : Task} {l m : Option String} {r s : Rule} {cs ds : List Rule}

/-! ## The truth of a node -/

theorem allHold_eq (rs : List Rule) : allHold task rs = rs.all (holds task) := by
  induction rs with
  | nil => rfl
  | cons r rs ih => rw [allHold, List.all_cons, ih]

theorem anyHolds_eq (rs : List Rule) : anyHolds task rs = rs.any (holds task) := by
  induction rs with
  | nil => rfl
  | cons r rs ih => rw [anyHolds, List.any_cons, ih]

/-- A conjunction; without children it holds. -/
theorem holds_all (hl : connective l = .all) :
    holds task (.node none l cs) = cs.all (holds task) := by
  cases cs with
  | nil => rfl
  | cons r rs => simp only [holds, hl, allHold_eq, List.all_cons]

/-- A disjunction, if it has children. -/
theorem holds_any (hl : connective l = .any) (hne : cs ≠ []) :
    holds task (.node none l cs) = cs.any (holds task) := by
  obtain ⟨r, rs, rfl⟩ := List.exists_cons_of_ne_nil hne
  simp only [holds, hl, anyHolds_eq, List.any_cons]

/-- A negation of the first child; the others have no say. -/
theorem holds_not (hl : connective l = .not) :
    holds task (.node none l (r :: cs)) = !holds task r := by
  simp only [holds, hl]

theorem holds_negate (r : Rule) : holds task (negate r) = !holds task r := holds_not rfl

/-- **The truth of a node is a function of that of its children.** -/
theorem holds_node_congr {c : Option Condition} (h : cs.map (holds task) = ds.map (holds task)) :
    holds task (.node c l cs) = holds task (.node c l ds) := by
  have hall : cs.all (holds task) = ds.all (holds task) := by
    simpa only [List.all_map, Function.id_comp] using congrArg (List.all · id) h
  have hany : cs.any (holds task) = ds.any (holds task) := by
    simpa only [List.any_map, Function.id_comp] using congrArg (List.any · id) h
  match c, cs, ds, h with
  | some _, _, _, _ => rfl
  | none, [], [], _ => rfl
  | none, r :: rs, s :: ss, h =>
    rw [holds, holds, allHold_eq, allHold_eq, anyHolds_eq, anyHolds_eq, ← List.all_cons,
      ← List.all_cons, ← List.any_cons, ← List.any_cons, hall, hany, (List.cons.inj h).1]

/-! ## Rewritings -/

/-- A joining node holds by which children it has, not by their order or number. -/
theorem holds_of_same_members (hl : (connective l).Joins) (h : ∀ r, r ∈ cs ↔ r ∈ ds) :
    holds task (.node none l cs) = holds task (.node none l ds) := by
  obtain hl | hl := hl
  · rw [holds_all hl, holds_all hl, Bool.eq_iff_iff]
    simp only [List.all_eq_true, h]
  · by_cases hcs : cs = []
    · obtain rfl : ds = [] := List.eq_nil_iff_forall_not_mem.mpr fun r hr => by
        simpa [hcs] using (h r).mpr hr
      rw [hcs]
    · obtain ⟨r, hr⟩ := List.exists_mem_of_ne_nil cs hcs
      have hds : ds ≠ [] := List.ne_nil_of_mem ((h r).mp hr)
      rw [holds_any hl hcs, holds_any hl hds, Bool.eq_iff_iff]
      simp only [List.any_eq_true, h]

/-- **The law of duality**: the other kind of node with negated children holds where the node does
not. -/
theorem holds_dual (hl : (connective l).Joins) (hm : connective m = (connective l).dual)
    (hne : cs ≠ []) :
    holds task (.node none m (cs.map negate)) = !holds task (.node none l cs) := by
  have hne' : cs.map negate ≠ [] := mt List.map_eq_nil_iff.mp hne
  have hcomp : holds task ∘ negate = fun r => !holds task r := funext holds_negate
  obtain hl | hl := hl
  · rw [hl] at hm
    rw [holds_any hm hne', holds_all hl, List.any_map, hcomp, List.not_all_eq_any_not]
  · rw [hl] at hm
    rw [holds_all hm, holds_any hl hne, List.all_map, hcomp, List.not_any_eq_all_not]

/-- **A rewriting keeps the truth of a rule on every task.** -/
theorem Rewrites.holds_eq (h : Rewrites r s) (task : Task) : r.holds task = s.holds task := by
  induction h with
  | permuted hl hperm => exact holds_of_same_members hl fun _ => hperm.mem_iff
  | repeated hl hr =>
    refine holds_of_same_members hl fun q => ?_
    rw [List.mem_cons, or_iff_right_of_imp]
    rintro rfl
    exact hr
  | ignored hl => rw [holds_not hl, holds_not hl]
  | doubled hl hm => rw [holds_not hl, holds_not hm, Bool.not_not]
  | swapped hl hm hn hne => rw [holds_not hn, holds_dual hl hm hne, Bool.not_not]
  | spread hn hl hm hne => rw [holds_not hn, holds_dual hl hm hne]
  | inside _ ih => exact holds_node_congr (by rw [List.map_append, List.map_append, List.map_cons,
      List.map_cons, ih])

/-- **Rules that rewritings join hold of the same tasks**, so they keep the same ones of a list. -/
theorem holds_of_alike (h : Alike r s) :
    (∀ task, r.holds task = s.holds task) ∧ ∀ tasks, r.keep tasks = s.keep tasks := by
  have heq : ∀ task, r.holds task = s.holds task := by
    intro task
    induction h with
    | rel _ _ h => exact h.holds_eq task
    | refl _ => rfl
    | symm _ _ _ ih => exact ih.symm
    | trans _ _ _ _ _ ih ih' => exact ih.trans ih'
  exact ⟨heq, fun tasks => congrArg (List.filter · tasks) (funext heq)⟩

/-- Conditions on an attribute that is missing and on a number that fails to compare, in a node of
no known connective, in a disjunction under a negation, beside no rule at all. -/
theorem holds_of_alike_spread :
    let lacks := leaf ⟨"owner", "!=", .text "bob"⟩
    let fails := leaf ⟨"effort", "<", .int (Int.pow 10 400)⟩
    let odd := node none (some "XOR") [fails]
    let before := node none none [.everything, negate (anyOf [lacks, odd, fails])]
    let after := node none none
      [.everything, allOf [negate fails, negate odd, negate lacks, negate odd]]
    let task : Task := ⟨"a", [("effort", .int 3)], "", none⟩
    before.holds task = true ∧ after.holds task = true ∧
      ∀ task, before.holds task = after.holds task := by
  intro lacks fails odd before after task
  have hspread : Rewrites (negate (anyOf [lacks, odd, fails]))
      (allOf [negate lacks, negate odd, negate fails]) :=
    .spread rfl (.inr rfl) rfl (List.cons_ne_nil _ _)
  have hrepeated : Rewrites (allOf [negate lacks, negate odd, negate fails])
      (allOf [negate odd, negate lacks, negate odd, negate fails]) :=
    .repeated (.inl rfl) (by simp)
  have hpermuted : Rewrites (allOf [negate odd, negate lacks, negate odd, negate fails])
      (allOf [negate fails, negate odd, negate lacks, negate odd]) :=
    .permuted (.inl rfl) (List.reverse_perm _).symm
  have hinside {r s : Rule} (h : Rewrites r s) :
      Rewrites (node none none ([.everything] ++ r :: []))
        (node none none ([.everything] ++ s :: [])) := .inside h
  have halike : Alike before after :=
    .trans _ _ _ (.rel _ _ (hinside hspread))
      (.trans _ _ _ (.rel _ _ (hinside hrepeated)) (.rel _ _ (hinside hpermuted)))
  exact ⟨by decide +kernel, by decide +kernel, (holds_of_alike halike).1⟩

end Taskboard.Rule
