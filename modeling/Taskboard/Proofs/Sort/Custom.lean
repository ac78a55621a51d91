import Taskboard.Proofs.Sort.Order
import Taskboard.Sort.Custom

/-!
# Proofs/Sort/Custom — sorting tasks by several attributes

Keys that do not compare numbers compare coherently (`SortKey.coherent`), and so do any number of
them in turn (`coherent_compareTasks`): whatever values are missing, are no dates or have no rank,
and whichever directions the keys have.  Where the comparison fails on no two tasks of a list, they
come out in its order, tied ones as they stood (`sortByKeys_sorts`).
-/

namespace Taskboard

/-! ## Values -/

/-- The place of a caption in a ranking; captions without one share the place after all. -/
def rankOf (ranking : List String) (a : String) : Nat := (ranking.idxOf? a).getD ranking.length

/-- Ranks first, then captions. -/
theorem compareRanked_eq (ranking : List String) :
    compareRanked ranking = compareLex (compareOn (rankOf ranking)) compare := by
  funext a b
  have hlt : ∀ {s : String} {i : Nat}, ranking.idxOf? s = some i → i < ranking.length :=
    fun h => (List.idxOf?_eq_some_iff.mp h).1
  cases ha : ranking.idxOf? a with
  | none =>
    cases hb : ranking.idxOf? b with
    | none => simp [compareRanked, compareLex, compareOn, rankOf, ha, hb]
    | some j =>
      have hj : compare ranking.length j = .gt := Nat.compare_eq_gt.mpr (hlt hb)
      simp [compareRanked, compareLex, compareOn, rankOf, ha, hb, hj]
  | some i =>
    cases hb : ranking.idxOf? b with
    | none =>
      have hi : compare i ranking.length = .lt := Nat.compare_eq_lt.mpr (hlt ha)
      simp [compareRanked, compareLex, compareOn, rankOf, ha, hb, hi]
    | some j =>
      -- one place in the ranking holds one caption, so no tie is left for the captions
      have heq : compare i j = .eq → compare a b = .eq := by
        intro hij
        obtain rfl := Nat.compare_eq_eq.mp hij
        obtain ⟨_, rfl, -⟩ := List.idxOf?_eq_some_iff.mp ha
        obtain ⟨_, rfl, -⟩ := List.idxOf?_eq_some_iff.mp hb
        exact Std.ReflCmp.compare_self
      cases hij : compare i j <;>
        simp [compareRanked, compareLex, compareOn, rankOf, ha, hb, hij, heq]

instance (ranking : List String) : Std.TransCmp (compareRanked ranking) :=
  compareRanked_eq ranking ▸ inferInstance

/-- Two moments compare if they have one offset, or instants. -/
theorem compareMoments_eq_ok {m n : Moment} {o : Ordering} : compareMoments m n = .ok o ↔
    (m.offset = n.offset ∨ Moment.offsetInRange (m.offset.getD 0) ∧
      Moment.offsetInRange (n.offset.getD 0)) ∧ compare m.micros n.micros = o := by
  by_cases heq : m.offset = n.offset
  · simp [compareMoments, heq]
  · cases hm : Moment.offsetInRange (m.offset.getD 0) <;>
      cases hn : Moment.offsetInRange (n.offset.getD 0) <;>
        simp [compareMoments, Moment.instant, heq, hm, hn, Except.bind, Except.map]

theorem coherent_compareMoments : Coherent compareMoments where
  swap {m n o} h := by
    obtain ⟨hoffset, rfl⟩ := compareMoments_eq_ok.mp h
    exact compareMoments_eq_ok.mpr ⟨hoffset.imp Eq.symm And.symm, Std.OrientedCmp.eq_swap⟩
  trans {l m n o p} hlm hmn ho hp := by
    obtain ⟨hoffset, rfl⟩ := compareMoments_eq_ok.mp hlm
    obtain ⟨hoffset', rfl⟩ := compareMoments_eq_ok.mp hmn
    refine compareMoments_eq_ok.mpr ⟨?_, Coherent.compare_eq_then ho hp⟩
    obtain heq | ⟨hl, hm⟩ := hoffset
    · rwa [heq]
    · obtain heq | ⟨-, hn⟩ := hoffset'
      · exact Or.inr ⟨hl, heq ▸ hm⟩
      · exact Or.inr ⟨hl, hn⟩

/-! ## Keys -/

namespace SortKey

theorem kind_ne_number {types : AttributeTypes} {k : SortKey}
    (h : k.ranking ≠ [] ∨ entryAt? k.key types ≠ some "Number") : k.kind types ≠ .number := by
  unfold kind
  split
  · decide
  next hranking =>
    have hranking : k.ranking = [] := by simpa using hranking
    have hnumber := h.resolve_left fun hne => hne hranking
    split <;> simp_all

/-- Values under a key that does not compare numbers. -/
theorem coherent_compareValues {types : AttributeTypes} {k : SortKey}
    (hk : k.kind types ≠ .number) : Coherent (k.compareValues types) := by
  cases hkind : k.kind types with
  | ranked =>
    refine (Coherent.ofKey Value.caption (compareRanked k.ranking)).congr fun a b => ?_
    simp only [compareValues, hkind]
  | number => exact absurd hkind hk
  | moment =>
    refine (coherent_compareMoments.ofPart Value.moment? .wrongType).congr fun a b => ?_
    simp only [compareValues, hkind]
    cases a.moment? <;> cases b.moment? <;> rfl
  | caption =>
    refine (Coherent.ofKey Value.caption compare).congr fun a b => ?_
    simp only [compareValues, hkind]

/-- A key compares values in its direction, missing ones last. -/
theorem compareTasks_eq (types : AttributeTypes) (k : SortKey) :
    k.compareTasks types = missingLast (fun v w => (k.compareValues types v w).map
      fun o => if k.descending then o.swap else o) (k.value? types) := by
  funext a b
  unfold compareTasks missingLast
  cases k.value? types a <;> cases k.value? types b <;> rfl

/-- **A key that does not compare numbers** compares tasks coherently. -/
theorem coherent {types : AttributeTypes} {k : SortKey} (hk : k.kind types ≠ .number) :
    Coherent (k.compareTasks types) :=
  compareTasks_eq types k ▸ ((coherent_compareValues hk).directed _).missingLast _

end SortKey

/-! ## Several keys -/

/-- **Keys that do not compare numbers** compare tasks coherently in turn. -/
theorem coherent_compareTasks {types : AttributeTypes} : ∀ spec : SortSpec,
    (∀ k ∈ spec, k.kind types ≠ .number) → Coherent fun a b => compareTasks types a b spec
  | [], _ => { swap := fun _ _ _ h => Except.ok.inj h ▸ rfl,
               trans := fun h h' _ _ => Except.ok.inj h ▸ Except.ok.inj h' ▸ rfl }
  | k :: ks, h =>
    (SortKey.coherent (h k List.mem_cons_self)).andThen
      (coherent_compareTasks ks fun k' hk' => h k' (List.mem_cons_of_mem k hk'))

/-- A list as it stands, under a comparison that leaves all tied. -/
theorem sortsStably_self {α : Type} {cmp : α → α → Except Fault Ordering} {xs : List α}
    (h : ∀ a b, cmp a b = .ok .eq) : SortsStably cmp xs xs where
  perm := .refl xs
  ordered := List.pairwise_of_forall fun a b => ⟨.eq, h b a, by decide⟩
  stable _ := rfl

/-- Where the sort gives a result, that is the order of the tasks. -/
theorem sortByKeys_cons {k : SortKey} {ks : SortSpec} {types : AttributeTypes}
    {tasks sorted : List Task} (h : stableSort (comesBefore types (k :: ks)) tasks = .ok sorted) :
    sortByKeys (k :: ks) types tasks = sorted := by
  simp only [sortByKeys, List.isEmpty_cons, Bool.false_eq_true, if_false, h]

/-- **Tasks in the order of keys that do not compare numbers**: the comparison by all keys is a
total preorder as far as it answers, and where it answers on all pairs of a list the tasks come out
in its order, tied ones as they stood. -/
theorem sortByKeys_sorts (spec : SortSpec) (types : AttributeTypes) (tasks : List Task)
    (hspec : ∀ k ∈ spec, k.ranking ≠ [] ∨ entryAt? k.key types ≠ some "Number")
    (htasks : tasks.Pairwise fun a b => ∃ o, compareTasks types a b spec = .ok o) :
    Coherent (fun a b => compareTasks types a b spec) ∧
      SortsStably (fun a b => compareTasks types a b spec) tasks (sortByKeys spec types tasks) := by
  have hcoherent := coherent_compareTasks spec fun k hk => SortKey.kind_ne_number (hspec k hk)
  refine ⟨hcoherent, ?_⟩
  cases spec with
  | nil => exact sortsStably_self fun _ _ => rfl
  | cons k ks =>
    obtain ⟨sorted, hsorted, hsorts⟩ := hcoherent.stableSort_sorts htasks
    exact sortByKeys_cons hsorted ▸ hsorts

/-- The latest due day first, then the stage by rank. -/
def dueSpec : SortSpec := [⟨"due", "desc", []⟩, ⟨"stage", "asc", ["open", "done"]⟩]

/-- Tasks one of which has no due day, and two of which are due on one day. -/
def dueTasks : List Task :=
  [⟨"a", [("due", .date ⟨2024, 5, 1, by decide⟩), ("stage", .text "done")], "", none⟩,
   ⟨"b", [("stage", .text "open")], "", none⟩,
   ⟨"c", [("due", .date ⟨2024, 5, 2, by decide⟩), ("stage", .text "done")], "", none⟩,
   ⟨"d", [("due", .date ⟨2024, 5, 1, by decide⟩), ("stage", .text "done")], "", none⟩]

/-- The tie keeps its order in the falling key, and the task without a due day is last. -/
theorem sortByKeys_sorts_due :
    (sortByKeys dueSpec [("due", "Date")] dueTasks).map Task.id = ["c", "a", "d", "b"] ∧
      Coherent (fun a b => compareTasks [("due", "Date")] a b dueSpec) ∧
      SortsStably (fun a b => compareTasks [("due", "Date")] a b dueSpec) dueTasks
        (sortByKeys dueSpec [("due", "Date")] dueTasks) :=
  ⟨by decide +kernel,
    sortByKeys_sorts dueSpec [("due", "Date")] dueTasks (by decide) (by decide +kernel)⟩

end Taskboard
