import Mathlib.Data.List.Nodup
import Mathlib.Data.List.Perm.Basic

/-!
# Proofs/Analysis/Collecting — entries in the order of their keys

A report goes through what it is about one by one and puts each under a key: a label is counted once
more, a task is put behind those of its date.  Both keep the entries in the order of the keys
(`collect`), so that the entries are known from what stands under each key: `Collects` says so, and
one more step changes what stands under one key only.

* `Collects.collect` — **one step.**
* `Collects.unique` — entries in order are known from what stands under their keys.
-/

namespace Taskboard

-- sums are those of the naturals, also where an importing module knows other ones
attribute [local instance (high)] Zero.ofOfNat0

/-- **Entries in the order of their keys, with more under one of them.**  What is put there is made
of what stood there before. -/
def collect {κ β : Type} [DecidableEq κ] (before : κ → κ → Bool) (key : κ) (more : Option β → β) :
    List (κ × β) → List (κ × β)
  | [] => [(key, more none)]
  | (k, b) :: rest =>
    if before key k then (key, more none) :: (k, b) :: rest
    else if key = k then (k, more (some b)) :: rest
    else (k, b) :: collect before key more rest

/-- An order of keys. -/
structure IsKeyOrder {κ : Type} (before : κ → κ → Bool) : Prop where
  irrefl : ∀ a, before a a = false
  trans : ∀ {a b c}, before a b = true → before b c = true → before a c = true
  total : ∀ {a b}, before a b = false → a ≠ b → before b a = true

/-- What comes before something is something else. -/
theorem IsKeyOrder.ne {κ : Type} {before : κ → κ → Bool} (horder : IsKeyOrder before) {a b : κ}
    (h : before a b = true) : a ≠ b := by
  rintro rfl
  rw [horder.irrefl] at h
  cases h

/-- **Entries in the order of their keys**, by what stands under each. -/
structure Collects {κ β : Type} (before : κ → κ → Bool) (under : κ → Option β)
    (entries : List (κ × β)) : Prop where
  rising : entries.Pairwise fun e f => before e.1 f.1 = true
  mem_iff : ∀ k b, (k, b) ∈ entries ↔ under k = some b

section

variable {κ β : Type} [DecidableEq κ] {before : κ → κ → Bool} {key : κ} {more : Option β → β}
  {entries : List (κ × β)}

/-- The keys are those there were and the one that something is put under. -/
theorem key_of_mem_collect {e : κ × β} (h : e ∈ collect before key more entries) :
    e.1 = key ∨ ∃ f ∈ entries, f.1 = e.1 := by
  induction entries with
  | nil => exact .inl (congrArg Prod.fst (List.mem_singleton.mp h))
  | cons f rest ih =>
    rw [collect] at h
    split at h
    · rcases List.mem_cons.mp h with rfl | h
      · exact .inl rfl
      · exact .inr ⟨e, h, rfl⟩
    · split at h
      next heq =>
        rcases List.mem_cons.mp h with rfl | h
        · exact .inl heq.symm
        · exact .inr ⟨e, List.mem_cons_of_mem f h, rfl⟩
      next =>
        rcases List.mem_cons.mp h with rfl | h
        · exact .inr ⟨_, List.mem_cons_self, rfl⟩
        · exact (ih h).imp_right fun ⟨g, hg, hkey⟩ => ⟨g, List.mem_cons_of_mem f hg, hkey⟩

/-- The keys keep their order. -/
theorem rising_collect (horder : IsKeyOrder before)
    (h : entries.Pairwise fun e f => before e.1 f.1 = true) :
    (collect before key more entries).Pairwise fun e f => before e.1 f.1 = true := by
  induction entries with
  | nil => exact List.pairwise_singleton _ _
  | cons e rest ih =>
    obtain ⟨hhead, hrest⟩ := List.pairwise_cons.mp h
    rw [collect]
    split
    next hfirst =>
      refine List.pairwise_cons.mpr ⟨fun f hf => ?_, h⟩
      rcases List.mem_cons.mp hf with rfl | hf
      · exact hfirst
      · exact horder.trans hfirst (hhead f hf)
    next hlater =>
      split
      next => exact List.pairwise_cons.mpr ⟨hhead, hrest⟩
      next hne =>
        refine List.pairwise_cons.mpr ⟨fun f hf => ?_, ih hrest⟩
        rcases key_of_mem_collect hf with hkey | ⟨g, hg, hkey⟩
        · rw [hkey]
          exact horder.total (Bool.not_eq_true _ ▸ hlater) hne
        · exact hkey ▸ hhead g hg

omit [DecidableEq κ] in
/-- A key before that of the first entry is before those of all entries, so it is none of them. -/
theorem ne_of_before_first (horder : IsKeyOrder before) {e : κ × β}
    (h : (e :: entries).Pairwise fun e f => before e.1 f.1 = true)
    (hfirst : before key e.1 = true) : ∀ f ∈ e :: entries, f.1 ≠ key := by
  intro f hf
  rcases List.mem_cons.mp hf with rfl | hf
  · exact (horder.ne hfirst).symm
  · exact (horder.ne (horder.trans hfirst ((List.pairwise_cons.mp h).1 f hf))).symm

omit [DecidableEq κ] in
/-- Nothing is found under a key that no entry has. -/
theorem found_eq_none {found : Option β} (hfound : ∀ b, (key, b) ∈ entries ↔ found = some b)
    (hnone : ∀ e ∈ entries, e.1 ≠ key) : found = none :=
  Option.eq_none_iff_forall_ne_some.mpr fun b hb => hnone _ ((hfound b).mpr hb) rfl

/-- What stands under the key is made of what stood there, and the other entries stay. -/
theorem mem_collect (horder : IsKeyOrder before)
    (h : entries.Pairwise fun e f => before e.1 f.1 = true) {found : Option β}
    (hfound : ∀ b, (key, b) ∈ entries ↔ found = some b) (k : κ) (b : β) :
    (k, b) ∈ collect before key more entries ↔
      k = key ∧ b = more found ∨ k ≠ key ∧ (k, b) ∈ entries := by
  induction entries with
  | nil => simp [collect, found_eq_none hfound]
  | cons e rest ih =>
    obtain ⟨hhead, hrest⟩ := List.pairwise_cons.mp h
    rw [collect]
    split
    next hfirst =>
      have hafter := ne_of_before_first horder h hfirst
      rw [List.mem_cons, Prod.mk.injEq, found_eq_none hfound hafter]
      exact or_congr_right ⟨fun hmem => ⟨hafter _ hmem, hmem⟩, And.right⟩
    next =>
      split
      next heq =>
        subst heq
        have hsome : found = some e.2 := (hfound e.2).mp List.mem_cons_self
        rw [List.mem_cons, List.mem_cons, Prod.mk.injEq, hsome]
        refine or_congr_right ⟨fun hmem => ⟨(horder.ne (hhead _ hmem)).symm, .inr hmem⟩,
          fun ⟨hne, hmem⟩ => ?_⟩
        exact hmem.resolve_left fun heq => hne (congrArg Prod.fst heq)
      next hne =>
        have hfound' : ∀ b, (key, b) ∈ rest ↔ found = some b := fun b => by
          rw [← hfound, List.mem_cons]
          exact (or_iff_right fun heq => hne (congrArg Prod.fst heq)).symm
        rw [List.mem_cons, List.mem_cons, ih hrest hfound']
        constructor
        · rintro (heq | hmem)
          · exact .inr ⟨fun hk => hne (hk.symm.trans (congrArg Prod.fst heq)), .inl heq⟩
          · exact hmem.imp_right fun ⟨hk, hmem⟩ => ⟨hk, .inr hmem⟩
        · rintro (hnew | ⟨hk, heq | hmem⟩)
          · exact .inr (.inl hnew)
          · exact .inl heq
          · exact .inr (.inr ⟨hk, hmem⟩)

/-- What all entries weigh grows by what is put under the key. -/
theorem sum_collect (weight : β → Nat) (n : Nat)
    (hmore : ∀ o : Option β, weight (more o) = o.elim 0 weight + n) :
    ((collect before key more entries).map fun e => weight e.2).sum =
      (entries.map fun e => weight e.2).sum + n := by
  induction entries with
  | nil => simp [collect, hmore]
  | cons e rest ih =>
    rw [collect]
    split
    · simp [hmore, Nat.add_comm]
    · split
      · simp [hmore, Nat.add_right_comm]
      · simp [ih, Nat.add_assoc]

end

namespace Collects

variable {κ β : Type} {before : κ → κ → Bool} {under : κ → Option β} {entries : List (κ × β)}

theorem nil : Collects before (fun _ => none) ([] : List (κ × β)) :=
  ⟨.nil, fun _ _ => by simp⟩

/-- **One more under a key.** -/
theorem collect [DecidableEq κ] (horder : IsKeyOrder before) (h : Collects before under entries)
    (key : κ) (more : Option β → β) :
    Collects before (fun k => if k = key then some (more (under key)) else under k)
      (collect before key more entries) where
  rising := rising_collect horder h.rising
  mem_iff k b := by
    rw [mem_collect horder h.rising (h.mem_iff key) k b, h.mem_iff]
    by_cases hk : k = key
    · simp [hk, eq_comm]
    · simp [hk]

theorem congr {under' : κ → Option β} (h : Collects before under entries)
    (heq : ∀ k, under k = under' k) : Collects before under' entries :=
  (funext heq : under = under') ▸ h

/-- No key stands twice. -/
theorem nodup (horder : IsKeyOrder before) (h : Collects before under entries) :
    entries.Nodup :=
  h.rising.imp fun hlt heq => horder.ne hlt (congrArg Prod.fst heq)

/-- **Entries in order are known from what stands under their keys.** -/
theorem unique (horder : IsKeyOrder before) {others : List (κ × β)}
    (h : Collects before under entries) (hothers : Collects before under others) :
    entries = others := by
  have hperm : entries.Perm others :=
    (List.perm_ext_iff_of_nodup (h.nodup horder) (hothers.nodup horder)).mpr fun e =>
      (h.mem_iff e.1 e.2).trans (hothers.mem_iff e.1 e.2).symm
  exact hperm.eq_of_pairwise (fun e f _ _ hef hfe => absurd rfl (horder.ne (horder.trans hef hfe)))
    h.rising hothers.rising

end Collects

end Taskboard
