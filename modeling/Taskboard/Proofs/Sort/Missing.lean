import Taskboard.Proofs.Sort.Clashes

/-!
# Proofs/Sort/Missing — tasks without a value come last

A task without a value for a key (`SortKey.Missing`) may not stand in front of one with a value,
whichever direction the key has and whatever the keys after it say.  This is known of neighbours
alone, and unlike the order of the values it is handed on along the list, so that the tasks without
a value are its end.

* `SortKey.value?_eq_none_iff` — what it is to be without a value.
* `MayFollow.missing` — a neighbour of a task without a value is without one.
* `exists_missing_last` — the list falls into two parts.
* `sortByKeys_missing_last` — **missing values go last**, if the sort meets no failure.
-/

namespace Taskboard

variable {types : AttributeTypes} {spec : SortSpec} {k : SortKey} {a b t : Task}

/-! ## Missing values -/

namespace SortKey

/-- **A task without a value for a key**: it lacks the attribute, or the attribute is declared as a
date, has no ranking, and its value is no date. -/
def Missing (types : AttributeTypes) (k : SortKey) (t : Task) : Prop :=
  t.get? k.key = none ∨
    k.ranking = [] ∧ entryAt? k.key types = some "Date" ∧ ∀ v ∈ t.get? k.key, v.moment? = none

theorem kind_eq_moment_iff :
    k.kind types = .moment ↔ k.ranking = [] ∧ entryAt? k.key types = some "Date" := by
  by_cases hranking : k.ranking = []
  · simp only [kind, hranking, List.isEmpty_nil, Bool.not_true, Bool.false_eq_true, if_false,
      true_and]
    split <;> simp_all
  · simp [kind, hranking]

/-- A task has no value for a key exactly if it is missing one. -/
theorem value?_eq_none_iff : k.value? types t = none ↔ k.Missing types t := by
  rw [Missing, ← and_assoc, ← kind_eq_moment_iff]
  unfold value?
  cases t.get? k.key with
  | none => simp
  | some v => simp

/-- A task with a value stands before one without, in either direction. -/
theorem compareTasks_missing (ha : k.Missing types a) (hb : ¬k.Missing types b) :
    k.compareTasks types b a = .ok .lt := by
  rw [← value?_eq_none_iff] at ha hb
  obtain ⟨v, hv⟩ := Option.ne_none_iff_exists'.mp hb
  simp only [compareTasks, ha, hv]

end SortKey

/-- **Behind a task without a value for the first key stands one without.** -/
theorem MayFollow.missing {ks : SortSpec} (h : MayFollow types (k :: ks) a b)
    (ha : k.Missing types a) : k.Missing types b := by
  by_contra hb
  obtain ⟨o, ho, hne⟩ := h
  rw [compareTasks, SortKey.compareTasks_missing ha hb] at ho
  exact hne (Except.ok.inj ho).symm

/-! ## Two parts -/

/-- A list along which a property is handed on falls into the elements that lack it and those that
have it. -/
theorem exists_missing_last {α : Type} {P : α → Prop} : ∀ {xs : List α},
    xs.IsChain (fun a b => P a → P b) →
      ∃ front back, xs = front ++ back ∧ (∀ a ∈ front, ¬P a) ∧ ∀ a ∈ back, P a
  | [], _ => ⟨[], [], rfl, List.forall_mem_nil _, List.forall_mem_nil _⟩
  | a :: xs, h => by
    obtain ⟨front, back, rfl, hfront, hback⟩ := exists_missing_last h.tail
    by_cases ha : P a
    · cases front with
      | nil => exact ⟨[], a :: back, rfl, hfront, List.forall_mem_cons.mpr ⟨ha, hback⟩⟩
      | cons b front =>
        have hb := (List.isChain_cons_cons.mp h).1 ha
        exact absurd hb (hfront b List.mem_cons_self)
    · exact ⟨a :: front, back, rfl, List.forall_mem_cons.mpr ⟨ha, hfront⟩, hback⟩

/-! ## Sorting -/

/-- **No comparison that the sort asks for fails.** -/
def SortCompletes (types : AttributeTypes) (spec : SortSpec) (tasks : List Task) : Prop :=
  ∃ sorted, stableSort (comesBefore types spec) tasks = .ok sorted

/-- So it is where no two tasks of the list fail to compare. -/
theorem sortCompletes_of_pairwise {tasks : List Task}
    (h : tasks.Pairwise fun a b => ∃ o, compareTasks types a b spec = .ok o) :
    SortCompletes types spec tasks := by
  have hyields : Yields True (stableSort (comesBefore types spec) tasks) _ :=
    stableSort_yields_mayFollow (h.imp fun hab _ => exists_compareTasks_iff.mp hab)
  obtain ⟨sorted, hsorted, -⟩ := hyields.exists_eq_ok trivial
  exact ⟨sorted, hsorted⟩

/-- A sort that meets no failure is known by its neighbours. -/
theorem SortCompletes.sorted {ks : SortSpec} {tasks : List Task}
    (h : SortCompletes types (k :: ks) tasks) :
    (sortByKeys (k :: ks) types tasks).Perm tasks ∧
      (sortByKeys (k :: ks) types tasks).IsChain (MayFollow types (k :: ks)) := by
  obtain ⟨sorted, hsorted⟩ := h
  have hyields : Yields False (stableSort (comesBefore types (k :: ks)) tasks) _ :=
    stableSort_yields_mayFollow (List.pairwise_of_forall fun _ _ h => h.elim)
  rw [sortByKeys_cons hsorted]
  rwa [hsorted] at hyields

/-- **Missing values go last in both directions**, also where the values themselves compare by no
order.  It is enough that the comparisons which the sort asks for do not fail, as they do not where
none does. -/
theorem sortByKeys_missing_last (types : AttributeTypes) (spec : SortSpec) (tasks : List Task) :
    (tasks.Pairwise (fun a b => ∃ o, compareTasks types a b spec = .ok o) →
        SortCompletes types spec tasks) ∧
      (SortCompletes types spec tasks →
        (sortByKeys spec types tasks).Perm tasks ∧
          ∀ k ∈ spec.head?, ∃ present missing,
            sortByKeys spec types tasks = present ++ missing ∧
              (∀ t ∈ present, ¬k.Missing types t) ∧ ∀ t ∈ missing, k.Missing types t) := by
  refine ⟨sortCompletes_of_pairwise, fun h => ?_⟩
  cases spec with
  | nil => exact ⟨.refl tasks, fun k hk => absurd hk (Option.not_mem_none k)⟩
  | cons k ks =>
    obtain ⟨hperm, hchain⟩ := h.sorted
    refine ⟨hperm, fun j hj => ?_⟩
    obtain rfl : k = j := Option.some.inj hj
    exact exists_missing_last (hchain.imp fun _ _ => MayFollow.missing)

/-- Texts that are no numbers keep the numbers out of order, and the tasks without an effort are
still last, also from the greatest effort down. -/
theorem sortByKeys_missing_last_unparsable :
    let falling : SortKey := { effortKey with direction := "desc" }
    let tasks := [effortTask "a" (.int 1), ⟨"b", [], "", none⟩, effortTask "c" (.text "lots"),
      ⟨"d", [], "", none⟩, effortTask "e" (.int 3)]
    let sorted := sortByKeys [falling] [("effort", "Number")] tasks
    sorted.map Task.id = ["a", "c", "e", "b", "d"] ∧
      ∃ present missing, sorted = present ++ missing ∧
        (∀ t ∈ present, ¬falling.Missing [("effort", "Number")] t) ∧
          ∀ t ∈ missing, falling.Missing [("effort", "Number")] t := by
  intro falling tasks sorted
  obtain ⟨hcompletes, hsorts⟩ := sortByKeys_missing_last [("effort", "Number")] [falling] tasks
  have hpairs : tasks.Pairwise fun a b =>
      ∃ o, compareTasks [("effort", "Number")] a b [falling] = .ok o := by decide +kernel
  exact ⟨by decide +kernel, (hsorts (hcompletes hpairs)).2 falling rfl⟩

end Taskboard
