import Taskboard.Proofs.Sort.Custom
import Taskboard.Proofs.Sort.Reals

/-!
# Proofs/Sort/Numbers — what sorting by numbers promises

Values that are no numbers are tied with all values, so the comparison under a key for numbers is no
preorder, and sorting by it need not bring the numbers in order (`numbers_apart`).  What neighbours
in the result tell of each other is that the later one does not come before the earlier one
(`Follows`).  A task with a number hands this on, and so does one without a value; so two numbers
are in order where no value between them is none (`sortByKeys_numbers`).
-/

namespace Taskboard

instance : Std.OrientedCmp compareReals where
  eq_swap {x y} := by
    cases hx : x.place? with
    | none =>
      rw [compareReals_of_place?_eq_none (Or.inl hx), compareReals_of_place?_eq_none (Or.inr hx)]
      rfl
    | some p =>
      cases hy : y.place? with
      | none =>
        rw [compareReals_of_place?_eq_none (Or.inl hy), compareReals_of_place?_eq_none (Or.inr hy)]
        rfl
      | some q =>
        rw [compareReals_of_places hx hy, compareReals_of_places hy hx]
        exact Std.OrientedCmp.eq_swap

namespace SortKey

/-- A key that compares numbers. -/
structure ForNumbers (types : AttributeTypes) (k : SortKey) : Prop where
  ranking_eq : k.ranking = []
  type_eq : entryAt? k.key types = some "Number"

/-- The number of a task's value, if it has a value and that is a number. -/
def number? (k : SortKey) (t : Task) : Option Binary64 :=
  (t.get? k.key).bind fun v => v.sortNumber.toOption.filter fun x => x ≠ .nan

/-- The numbers of two tasks, where both have one, are in the direction of the key. -/
def NumbersInOrder (k : SortKey) (a b : Task) : Prop :=
  ∀ x ∈ k.number? a, ∀ y ∈ k.number? b, if k.descending then y.le x else x.le y

/-- A task has a value that is no number. -/
def Unparsable (k : SortKey) (t : Task) : Prop := t.has k.key ∧ k.number? t = none

/-- What a task in a sorted list tells of a later one. -/
structure Follows (k : SortKey) (a b : Task) : Prop where
  missing : a.get? k.key = none → b.get? k.key = none
  inOrder : k.NumbersInOrder a b

variable {types : AttributeTypes} {k : SortKey} {a b t : Task}

theorem number?_eq_some {x : Binary64} : k.number? t = some x ↔
    ∃ v, t.get? k.key = some v ∧ v.sortNumber = .ok x ∧ x ≠ .nan := by
  have htoOption : ∀ {y : Except Fault Binary64}, y.toOption = some x ↔ y = .ok x := by
    intro y
    cases y <;> simp [Except.toOption]
  simp [number?, Option.bind_eq_some_iff, Option.filter_eq_some_iff, htoOption]

/-- A task that is not unparsable has a number or no value. -/
theorem number_or_missing (ht : ¬ k.Unparsable t) :
    (∃ z, k.number? t = some z) ∨ t.get? k.key = none := by
  cases hget : t.get? k.key with
  | none => exact Or.inr rfl
  | some v =>
    refine Or.inl (Option.ne_none_iff_exists'.mp fun hnone => ht ⟨?_, hnone⟩)
    simp [Task.has, hget]

theorem number?_of_missing (h : t.get? k.key = none) : k.number? t = none := by
  simp [number?, h]

/-- **What tasks tell is handed on** by a task that has a number or no value. -/
theorem Follows.trans (hat : k.Follows a t) (htb : k.Follows t b) (ht : ¬ k.Unparsable t) :
    k.Follows a b where
  missing ha := htb.missing (hat.missing ha)
  inOrder x hx y hy := by
    obtain ⟨z, hz⟩ | hnone := number_or_missing ht
    · have hxz := hat.inOrder x hx z hz
      have hzy := htb.inOrder z hz y hy
      split at hxz
      next hfalling => simpa [hfalling] using Binary64.le_trans (by simpa [hfalling] using hzy) hxz
      next hfalling => simpa [hfalling] using Binary64.le_trans hxz (by simpa [hfalling] using hzy)
    · rw [number?_of_missing (htb.missing hnone)] at hy
      cases hy

/-- So they are along a list. -/
theorem follows_of_isChain : ∀ (between : List Task) (a : Task),
    (a :: (between ++ [b])).IsChain k.Follows → (∀ t ∈ between, ¬ k.Unparsable t) → k.Follows a b
  | [], a, h, _ => by simpa using h
  | t :: between, a, h, hbetween => by
    obtain ⟨hat, hrest⟩ := List.isChain_cons_cons.mp h
    exact hat.trans (follows_of_isChain between t hrest
      fun u hu => hbetween u (List.mem_cons_of_mem t hu)) (hbetween t List.mem_cons_self)

/-! ## The comparison -/

theorem compareValues_of_number (hk : k.kind types = .number) : k.compareValues types =
    fun v w => v.sortNumber.bind fun x => w.sortNumber.map fun y => compareReals x y := by
  funext v w
  simp only [compareValues, hk]

/-- Any key answers the other way round when asked so. -/
theorem mirrors (types : AttributeTypes) (k : SortKey) : Mirrors (k.compareTasks types) := by
  by_cases hk : k.kind types = .number
  · rw [compareTasks_eq, compareValues_of_number hk]
    exact ((Mirrors.ofKey Value.sortNumber compareReals).directed _).missingLast _
  · exact (coherent hk).swap

theorem ForNumbers.kind_eq (hk : k.ForNumbers types) : k.kind types = .number := by
  simp [kind, hk.ranking_eq, hk.type_eq]

theorem ForNumbers.value?_eq (hk : k.ForNumbers types) : k.value? types = Task.get? k.key := by
  funext t
  unfold value?
  cases t.get? k.key <;> simp [hk.kind_eq]

/-- The conversion of a task's value to a number does not fail, as it does for a whole number beyond
the doubles. -/
def Converts (k : SortKey) (t : Task) : Prop :=
  ∀ v, t.get? k.key = some v → ∃ x, v.sortNumber = .ok x

/-- Only whole numbers may fail. -/
theorem converts_of_no_int (h : ∀ n, t.get? k.key ≠ some (.int n)) : k.Converts t := by
  intro v hv
  unfold Value.sortNumber
  cases v with
  | int n => exact absurd hv (h n)
  | bool b => exact ⟨.nan, rfl⟩
  | real x => exact ⟨x, rfl⟩
  | _ =>
    dsimp only
    split <;> exact ⟨_, rfl⟩

theorem ForNumbers.exists_compareTasks (hk : k.ForNumbers types) (ha : k.Converts a)
    (hb : k.Converts b) : ∃ o, k.compareTasks types a b = .ok o := by
  rw [compareTasks_eq, compareValues_of_number hk.kind_eq, hk.value?_eq]
  unfold missingLast
  cases hget : a.get? k.key with
  | none => cases b.get? k.key <;> exact ⟨_, rfl⟩
  | some v =>
    cases hget' : b.get? k.key with
    | none => exact ⟨_, rfl⟩
    | some w =>
      obtain ⟨x, hx⟩ := ha v hget
      obtain ⟨y, hy⟩ := hb w hget'
      exact ⟨_, by simp only [hx, hy]; rfl⟩

/-- **A task that does not come before another may stand after it.** -/
theorem ForNumbers.follows (hk : k.ForNumbers types) {o : Ordering}
    (h : k.compareTasks types b a = .ok o) (ho : o ≠ .lt) : k.Follows a b := by
  rw [compareTasks_eq, compareValues_of_number hk.kind_eq, hk.value?_eq] at h
  unfold missingLast at h
  refine ⟨fun hnone => ?_, fun x hx y hy => ?_⟩
  · cases hget : b.get? k.key with
    | none => rfl
    | some w =>
      simp only [hnone, hget] at h
      exact absurd (Except.ok.inj h).symm ho
  · obtain ⟨v, hv, hx, hnan⟩ := number?_eq_some.mp hx
    obtain ⟨w, hw, hy, hnan'⟩ := number?_eq_some.mp hy
    obtain ⟨p, hp⟩ := Binary64.exists_place hnan
    obtain ⟨q, hq⟩ := Binary64.exists_place hnan'
    simp only [hv, hw] at h
    obtain ⟨o', ho', rfl⟩ := map_eq_ok.mp h
    obtain ⟨y', hy', ho'⟩ := bind_eq_ok.mp ho'
    obtain ⟨x', hx', rfl⟩ := map_eq_ok.mp ho'
    obtain rfl : y' = y := Except.ok.inj (hy'.symm.trans hy)
    obtain rfl : x' = x := Except.ok.inj (hx'.symm.trans hx)
    rw [compareReals_of_places hq hp] at ho
    cases hfalling : k.descending
    · have hle : p ≤ q := by
        simpa [hfalling, Int.compare_eq_lt] using ho
      simpa [Binary64.le, hp, hq] using hle
    · have hle : q ≤ p := by
        simpa [hfalling, Int.compare_eq_gt] using ho
      simpa [Binary64.le, hp, hq] using hle

end SortKey

/-! ## Sorting -/

open SortKey

theorem compareTasks_singleton (types : AttributeTypes) (k : SortKey) (a b : Task) :
    compareTasks types a b [k] = k.compareTasks types a b := by
  unfold compareTasks
  cases k.compareTasks types a b with
  | error e => rfl
  | ok o => cases o <;> rfl

variable {types : AttributeTypes} {k : SortKey} {a b : Task}

/-- Asked whether the later of two tasks comes before the earlier one, a key for numbers tells which
of them may stand after the other. -/
theorem SortKey.ForNumbers.decides_follows (hk : k.ForNumbers types) (ha : k.Converts a)
    (hb : k.Converts b) : Decides True (comesBefore types [k]) k.Follows a b := by
  obtain ⟨o, ho⟩ := hk.exists_compareTasks hb ha
  have hab := k.mirrors types ho
  rw [Decides, comesBefore, compareTasks_singleton, ho]
  cases o with
  | lt => exact hk.follows hab (by decide)
  | eq => exact hk.follows ho (by decide)
  | gt => exact hk.follows ho (by decide)

/-- **The numbers of two tasks are in order** in a list sorted by a key for numbers, if no task
between them has a value that is no number. -/
theorem sortByKeys_numbers (k : SortKey) (types : AttributeTypes) (tasks : List Task)
    (hk : k.ForNumbers types) (htasks : ∀ t ∈ tasks, k.Converts t) :
    (sortByKeys [k] types tasks).Perm tasks ∧
      ∀ front a between b back,
        sortByKeys [k] types tasks = front ++ a :: (between ++ b :: back) →
          (∀ t ∈ between, ¬ k.Unparsable t) → k.NumbersInOrder a b := by
  have hdecides : tasks.zipIdx.Pairwise (Decides True
      (fun p q => comesBefore types [k] p.1 q.1) fun p q => k.Follows p.1 q.1) :=
    (zipIdx_places tasks).imp_of_mem fun {p q} hp hq _ =>
      hk.decides_follows (htasks p.1 (List.fst_mem_of_mem_zipIdx hp))
        (htasks q.1 (List.fst_mem_of_mem_zipIdx hq))
  have hyields : Yields True (stableSort (comesBefore types [k]) tasks) _ :=
    stableSort_yields hdecides
  obtain ⟨sorted, hsorted, placed, hperm, hchain, rfl⟩ := hyields.exists_eq_ok trivial
  rw [sortByKeys_cons hsorted]
  refine ⟨by simpa using hperm.map Prod.fst, fun front a between b back heq hbetween => ?_⟩
  have hfollows : (placed.map Prod.fst).IsChain k.Follows := (List.isChain_map Prod.fst).mpr hchain
  have hsplit : placed.map Prod.fst = front ++ ((a :: (between ++ [b])) ++ back) := by
    rw [heq]
    simp
  rw [hsplit] at hfollows
  exact (follows_of_isChain between a hfollows.right_of_append.left_of_append hbetween).inOrder

/-- A key for numbers, the least first. -/
def effortKey : SortKey := ⟨"effort", "asc", []⟩

/-- A task of some effort. -/
def effortTask (id : String) (effort : Value) : Task := ⟨id, [("effort", effort)], "", none⟩

theorem converts_effortTask {id : String} {n : Int} {x : Binary64}
    (h : (Value.int n).sortNumber = .ok x) : effortKey.Converts (effortTask id (.int n)) := by
  rintro v hv
  obtain rfl : .int n = v := Option.some.inj hv
  exact ⟨x, h⟩

/-- The numbers after the text are in order; the one before it stays. -/
theorem sortByKeys_numbers_text :
    let tasks := [effortTask "a" (.int 2), effortTask "b" (.text "lots"), effortTask "c" (.int 3),
      effortTask "d" (.int 1)]
    let sorted := sortByKeys [effortKey] [("effort", "Number")] tasks
    sorted.map Task.id = ["a", "b", "d", "c"] ∧ sorted.Perm tasks ∧
      ∀ front a between b back, sorted = front ++ a :: (between ++ b :: back) →
        (∀ t ∈ between, ¬ effortKey.Unparsable t) → effortKey.NumbersInOrder a b := by
  refine ⟨by decide +kernel, sortByKeys_numbers effortKey _ _ ⟨rfl, by decide⟩ ?_⟩
  simp only [List.forall_mem_cons]
  exact ⟨converts_effortTask (x := .ofInt 2) (by decide +kernel),
    converts_of_no_int (fun n hn => nomatch hn),
    converts_effortTask (x := .ofInt 3) (by decide +kernel),
    converts_effortTask (x := .ofInt 1) (by decide +kernel), nofun⟩

/-- **A text keeps numbers apart**: it is tied with those on both sides, which stay as they are. -/
theorem numbers_apart :
    effortKey.ForNumbers [("effort", "Number")] ∧
      ¬ (sortByKeys [effortKey] [("effort", "Number")] [effortTask "a" (.int 3),
        effortTask "b" (.text "x"), effortTask "c" (.int 1)]).Pairwise
          effortKey.NumbersInOrder := by
  refine ⟨⟨rfl, by decide⟩, fun h => ?_⟩
  have hnumbers : (sortByKeys [effortKey] [("effort", "Number")] [effortTask "a" (.int 3),
      effortTask "b" (.text "x"), effortTask "c" (.int 1)]).map effortKey.number? =
        [some (.ofInt 3), none, some (.ofInt 1)] := by decide +kernel
  have hpairs := List.pairwise_map (f := effortKey.number?) (R := fun o p => ∀ x ∈ o, ∀ y ∈ p,
    if effortKey.descending then y.le x else x.le y) |>.mpr h
  rw [hnumbers] at hpairs
  have hle := (List.pairwise_cons.mp hpairs).1 (some (.ofInt 1)) (by simp) _ rfl _ rfl
  revert hle
  decide +kernel

end Taskboard
