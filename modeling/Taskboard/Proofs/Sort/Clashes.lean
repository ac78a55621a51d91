import Taskboard.Proofs.Sort.Numbers
import Taskboard.Proofs.Value.Numbers
import Taskboard.Proofs.Value.Printing

/-!
# Proofs/Sort/Clashes — when tasks cannot be sorted

Two tasks clash under some keys if the first key that does not leave them tied cannot compare their
values (`Clashes`): a whole number beyond the doubles is no number to sort by, a date with an offset
of a day or more cannot be set against one with another offset, and a value may have no caption.

* `exists_compareTasks_iff` — two tasks compare exactly if they do not clash.
* `sortByKeys_eq_or` — tasks are sorted, or stay as they were.
* `sortByKeys_in_order` — tasks of which no two clash are sorted.
* `sortByKeys_of_clashes` — a task that clashes with all others keeps them as they were.
* `sorts_unless_clashing` — **all of this together.**
-/

namespace Taskboard

variable {types : AttributeTypes} {spec : SortSpec} {a b : Task}

/-! ## Values -/

/-- Two moments that cannot be compared: their offsets differ, and one is a day or more. -/
def Moment.Clash (m n : Moment) : Prop :=
  m.offset ≠ n.offset ∧
    ¬(offsetInRange (m.offset.getD 0) = true ∧ offsetInRange (n.offset.getD 0) = true)

theorem exists_compareMoments_iff {m n : Moment} :
    (∃ o, compareMoments m n = .ok o) ↔ ¬m.Clash n := by
  rw [Moment.Clash, not_and_not_right]
  constructor
  · rintro ⟨o, ho⟩ hne
    exact (compareMoments_eq_ok.mp ho).1.resolve_left hne
  · intro h
    exact ⟨_, compareMoments_eq_ok.mpr ⟨or_iff_not_imp_left.mpr h, rfl⟩⟩

namespace Value

/-- Only a whole number beyond the doubles fails to be compared as a number. -/
theorem exists_sortNumber_iff {v : Value} : (∃ x, v.sortNumber = .ok x) ↔ v.inReals = true := by
  unfold sortNumber inReals
  cases v with
  | int n =>
    simp only [toReal]
    generalize Binary64.ofInt? n = x
    cases x <;> simp
  | bool b | real x => exact iff_of_true ⟨_, rfl⟩ rfl
  | _ =>
    dsimp only
    split <;> exact iff_of_true ⟨_, rfl⟩ rfl

/-- **A value that is no number**: a truth value, or one whose text is none. -/
def NoNumber : Value → Prop
  | .bool _ => True
  | .int _ => False
  | .real x => x = .nan
  | v => ∀ s, v.shown = .ok s → ∀ x, readReal (strip s) = .ok x → x = .nan

/-- What is no number is not comparable, which is no failure. -/
theorem NoNumber.sortNumber_eq {v : Value} (h : v.NoNumber) : v.sortNumber = .ok .nan := by
  unfold sortNumber
  cases v with
  | int n => exact h.elim
  | bool b => rfl
  | real x => exact congrArg _ h
  | _ =>
    dsimp only
    split
    next x hx =>
      obtain ⟨s, hs, hx⟩ := bind_eq_ok.mp hx
      rw [h s hs x hx]
    next => rfl

end Value

namespace SortKey

variable {k : SortKey}

/-- **Two values that a key cannot compare.** -/
def Clash (types : AttributeTypes) (k : SortKey) (v w : Value) : Prop :=
  match k.kind types with
  | .number => ¬(v.inReals = true ∧ w.inReals = true)
  | .moment => ∃ m n, v.moment? = some m ∧ w.moment? = some n ∧ m.Clash n
  | .ranked | .caption => ¬(v.Captioned ∧ w.Captioned)

/-- Two tasks that a key cannot compare. -/
def ClashOn (types : AttributeTypes) (k : SortKey) (a b : Task) : Prop :=
  ∃ v w, k.value? types a = some v ∧ k.value? types b = some w ∧ k.Clash types v w

/-- A date under a key for dates is one. -/
theorem exists_moment {t : Task} {v : Value} (hk : k.kind types = .moment)
    (h : k.value? types t = some v) : ∃ m, v.moment? = some m := by
  unfold value? at h
  split at h
  next => cases h
  next w _ =>
    split at h
    next => cases h
    next hdate =>
      obtain rfl := Option.some.inj h
      cases hm : w.moment? with
      | some m => exact ⟨m, rfl⟩
      | none => exact absurd (by simp [hk, hm]) hdate

/-- Two values of tasks compare exactly if they do not clash. -/
theorem exists_compareValues_iff {v w : Value} (hv : k.value? types a = some v)
    (hw : k.value? types b = some w) :
    (∃ o, k.compareValues types v w = .ok o) ↔ ¬k.Clash types v w := by
  have hcaptions {order : String → String → Ordering} :
      (∃ o, (v.caption.bind fun s => w.caption.map fun t => order s t) = .ok o) ↔
        ¬¬(v.Captioned ∧ w.Captioned) := by
    rw [not_not, exists_bind_eq_ok fun _ => exists_map_eq_ok, Value.exists_caption_iff,
      Value.exists_caption_iff]
  unfold compareValues Clash
  cases hk : k.kind types with
  | ranked | caption => exact hcaptions
  | number =>
    dsimp only
    rw [not_not, exists_bind_eq_ok fun _ => exists_map_eq_ok, Value.exists_sortNumber_iff,
      Value.exists_sortNumber_iff]
  | moment =>
    obtain ⟨m, hm⟩ := exists_moment hk hv
    obtain ⟨n, hn⟩ := exists_moment hk hw
    simp only [hm, hn, Option.some.injEq, exists_and_left, exists_eq_left']
    exact exists_compareMoments_iff

/-- **Two tasks compare under a key exactly if they do not clash on it.** -/
theorem exists_compareTasks_iff :
    (∃ o, k.compareTasks types a b = .ok o) ↔ ¬k.ClashOn types a b := by
  unfold compareTasks ClashOn
  cases hv : k.value? types a with
  | none =>
    refine iff_of_true ?_ (by simp)
    cases k.value? types b <;> exact ⟨_, rfl⟩
  | some v =>
    cases hw : k.value? types b with
    | none => exact iff_of_true ⟨_, rfl⟩ (by simp)
    | some w =>
      dsimp only
      rw [exists_map_eq_ok, exists_compareValues_iff hv hw]
      simp

/-- A value that is no number is tied with every value that can be compared. -/
theorem compareTasks_of_noNumber {v w : Value} (hk : k.kind types = .number)
    (hv : a.get? k.key = some v) (hw : b.get? k.key = some w) (hno : v.NoNumber)
    (hreal : w.inReals = true) : k.compareTasks types a b = .ok .eq := by
  obtain ⟨y, hy⟩ := Value.exists_sortNumber_iff.mpr hreal
  have htie : compareReals .nan y = .eq := compareReals_of_place?_eq_none (.inl rfl)
  have hvalue {t : Task} {v : Value} (h : t.get? k.key = some v) : k.value? types t = some v := by
    simp [value?, h, hk]
  simp only [compareTasks, hvalue hv, hvalue hw, compareValues_of_number hk, hno.sortNumber_eq, hy]
  cases k.descending <;> simp [Except.bind, Except.map, htie]

/-- The date of a task for a key. -/
def moment? (k : SortKey) (t : Task) : Option Moment := (t.get? k.key).bind Value.moment?

/-- Under a key for dates, a task without one comes after those with one. -/
theorem compareTasks_of_undated (hk : k.kind types = .moment) (ha : k.moment? a = none) :
    k.compareTasks types a b = .ok (if (k.moment? b).isSome then .gt else .eq) := by
  have hvalue (t : Task) : (k.value? types t).isSome = (k.moment? t).isSome := by
    unfold value? moment?
    cases t.get? k.key with
    | none => rfl
    | some v => cases hm : v.moment? <;> simp [hk, hm]
  have hmissing : k.value? types a = none := by simpa [ha] using hvalue a
  rw [← hvalue b]
  unfold compareTasks
  rw [hmissing]
  cases k.value? types b <;> rfl

end SortKey

/-! ## Several keys -/

/-- **Two tasks clash** if a key cannot compare them, and all keys before it leave them tied. -/
def Clashes (types : AttributeTypes) (spec : SortSpec) (a b : Task) : Prop :=
  ∃ before k behind, spec = before ++ k :: behind ∧
    (∀ j ∈ before, j.compareTasks types a b = .ok .eq) ∧ k.ClashOn types a b

theorem clashes_cons {k : SortKey} {ks : SortSpec} : Clashes types (k :: ks) a b ↔
    k.ClashOn types a b ∨ k.compareTasks types a b = .ok .eq ∧ Clashes types ks a b := by
  constructor
  · rintro ⟨before, j, behind, hspec, hties, hclash⟩
    cases before with
    | nil =>
      obtain ⟨rfl, -⟩ := List.cons_eq_cons.mp hspec
      exact .inl hclash
    | cons i before =>
      obtain ⟨rfl, rfl⟩ := List.cons_eq_cons.mp hspec
      obtain ⟨htie, hties⟩ := List.forall_mem_cons.mp hties
      exact .inr ⟨htie, before, j, behind, rfl, hties, hclash⟩
  · rintro (hclash | ⟨htie, before, j, behind, rfl, hties, hclash⟩)
    · exact ⟨[], k, ks, rfl, List.forall_mem_nil _, hclash⟩
    · exact ⟨k :: before, j, behind, rfl, List.forall_mem_cons.mpr ⟨htie, hties⟩, hclash⟩

/-- **Two tasks compare exactly if they do not clash.** -/
theorem exists_compareTasks_iff : ∀ {spec : SortSpec},
    (∃ o, compareTasks types a b spec = .ok o) ↔ ¬Clashes types spec a b
  | [] => by
    refine iff_of_true ⟨.eq, rfl⟩ ?_
    rintro ⟨before, k, behind, hspec, -⟩
    simp at hspec
  | k :: ks => by
    rw [clashes_cons, not_or, ← SortKey.exists_compareTasks_iff, not_and,
      ← exists_compareTasks_iff, compareTasks]
    constructor
    · rintro ⟨o, h⟩
      obtain ⟨p, hp, hrest⟩ := bind_eq_ok.mp h
      refine ⟨⟨p, hp⟩, fun htie => ?_⟩
      obtain rfl := Except.ok.inj (hp.symm.trans htie)
      exact ⟨o, hrest⟩
    · rintro ⟨⟨p, hp⟩, hties⟩
      rw [hp]
      cases p with
      | eq => exact hties hp
      | lt | gt => exact ⟨_, rfl⟩

theorem mirrors_compareTasks (types : AttributeTypes) : ∀ spec : SortSpec,
    Mirrors fun a b => compareTasks types a b spec
  | [] => fun _ _ _ h => Except.ok.inj h ▸ rfl
  | k :: ks => (k.mirrors types).andThen (mirrors_compareTasks types ks)

theorem Clashes.symm (h : Clashes types spec a b) : Clashes types spec b a := by
  by_contra hnot
  obtain ⟨o, ho⟩ := exists_compareTasks_iff.mpr hnot
  exact exists_compareTasks_iff.mp ⟨o.swap, mirrors_compareTasks types spec ho⟩ h

/-! ## Sorting -/

/-- A task may follow another: it does not come before it. -/
def MayFollow (types : AttributeTypes) (spec : SortSpec) (a b : Task) : Prop :=
  ∃ o, compareTasks types b a spec = .ok o ∧ o ≠ .lt

theorem MayFollow.not_clashes (h : MayFollow types spec a b) : ¬Clashes types spec a b := by
  obtain ⟨o, ho, -⟩ := h
  exact mt Clashes.symm (exists_compareTasks_iff.mp ⟨o, ho⟩)

/-- Asked whether the later of two tasks comes before the earlier one, the keys tell which of them
may follow the other, unless the tasks clash. -/
theorem decides_mayFollow {safe : Prop} (h : safe → ¬Clashes types spec a b) :
    Decides safe (comesBefore types spec) (MayFollow types spec) a b := by
  cases hba : compareTasks types b a spec with
  | error f =>
    rw [Decides, comesBefore, hba]
    intro hsafe
    obtain ⟨o, ho⟩ := exists_compareTasks_iff.mpr (mt Clashes.symm (h hsafe))
    cases hba.symm.trans ho
  | ok o =>
    have hab : compareTasks types a b spec = .ok o.swap := mirrors_compareTasks types spec hba
    rw [Decides, comesBefore, hba]
    cases o with
    | lt => exact ⟨.gt, hab, by decide⟩
    | eq => exact ⟨.eq, hba, by decide⟩
    | gt => exact ⟨.gt, hba, by decide⟩

/-- Where the sort gives a result, each task may follow the one in front of it. -/
theorem stableSort_yields_mayFollow {safe : Prop} {tasks : List Task}
    (h : tasks.Pairwise fun a b => safe → ¬Clashes types spec a b) :
    Yields safe (stableSort (comesBefore types spec) tasks) fun sorted =>
      sorted.Perm tasks ∧ sorted.IsChain (MayFollow types spec) := by
  have hdecides : tasks.zipIdx.Pairwise (Decides safe
      (fun p q => comesBefore types spec p.1 q.1) fun p q => MayFollow types spec p.1 q.1) :=
    (pairwise_zipIdx h).imp decides_mayFollow
  refine (stableSort_yields hdecides).mono fun sorted ⟨placed, hperm, hchain, hsorted⟩ => ?_
  rw [hsorted]
  exact ⟨by simpa using hperm.map Prod.fst, (List.isChain_map Prod.fst).mpr hchain⟩

/-- **Tasks are sorted, or stay as they were.** -/
theorem sortByKeys_eq_or (types : AttributeTypes) (spec : SortSpec) (tasks : List Task) :
    sortByKeys spec types tasks = tasks ∨
      (sortByKeys spec types tasks).Perm tasks ∧
        (sortByKeys spec types tasks).IsChain (MayFollow types spec) := by
  have hyields : Yields False (stableSort (comesBefore types spec) tasks) _ :=
    stableSort_yields_mayFollow (List.pairwise_of_forall fun _ _ h => h.elim)
  unfold sortByKeys
  split
  next => exact .inl rfl
  next =>
    split
    next sorted hsorted => exact .inr (by rwa [hsorted] at hyields)
    next => exact .inl rfl

/-- **Tasks of which no two clash are sorted.** -/
theorem sortByKeys_in_order {tasks : List Task}
    (h : tasks.Pairwise fun a b => ¬Clashes types spec a b) :
    (sortByKeys spec types tasks).Perm tasks ∧
      (sortByKeys spec types tasks).IsChain (MayFollow types spec) := by
  cases spec with
  | nil => exact ⟨.refl tasks, (List.pairwise_of_forall fun _ _ => ⟨.eq, rfl, by decide⟩).isChain⟩
  | cons k ks =>
    have hyields : Yields True (stableSort (comesBefore types (k :: ks)) tasks) _ :=
      stableSort_yields_mayFollow (h.imp fun hab _ => hab)
    obtain ⟨sorted, hsorted, hresult⟩ := hyields.exists_eq_ok trivial
    rwa [sortByKeys_cons hsorted]

/-- An element of a list with others has a neighbour. -/
theorem exists_neighbour {α : Type} {R : α → α → Prop} {front back placed : List α} {a : α}
    (hne : front ++ back ≠ []) (hperm : placed.Perm (front ++ a :: back))
    (hchain : placed.IsChain R) : ∃ b ∈ front ++ back, R a b ∨ R b a := by
  obtain ⟨s, t, rfl⟩ := List.append_of_mem (hperm.mem_iff.mpr (by simp : a ∈ front ++ a :: back))
  have hothers : (s ++ t).Perm (front ++ back) :=
    (List.perm_middle.symm.trans (hperm.trans List.perm_middle)).cons_inv
  cases t with
  | cons b t =>
    have hnext := List.isChain_cons_cons.mp hchain.right_of_append
    exact ⟨b, hothers.mem_iff.mp (by simp), .inl hnext.1⟩
  | nil =>
    obtain rfl | ⟨s, b, rfl⟩ := List.eq_nil_or_concat s
    · exact absurd hothers.nil_eq.symm hne
    · rw [List.concat_eq_append, List.append_assoc] at hchain
      have hnext := List.isChain_cons_cons.mp hchain.right_of_append
      exact ⟨b, hothers.mem_iff.mp (by simp), .inr hnext.1⟩

/-- **A task that clashes with all others keeps them as they were**: sorted, it would have a
neighbour. -/
theorem sortByKeys_of_clashes {front back : List Task} (hne : front ++ back ≠ [])
    (h : ∀ b ∈ front ++ back, Clashes types spec a b) :
    sortByKeys spec types (front ++ a :: back) = front ++ a :: back := by
  refine (sortByKeys_eq_or types spec _).resolve_right fun ⟨hperm, hchain⟩ => ?_
  obtain ⟨b, hb, hfollow | hfollow⟩ := exists_neighbour hne hperm hchain
  · exact hfollow.not_clashes (h b hb)
  · exact hfollow.not_clashes (h b hb).symm

/-- A key for dates, the first one first. -/
def dueKey : SortKey := ⟨"due", "asc", []⟩

/-- A task due on some day. -/
def dueTask (id due : String) : Task := ⟨id, [("due", .text due)], "", none⟩

end Taskboard
