import Taskboard.Proofs.Sort.Custom
import Taskboard.Proofs.Sort.Part
import Taskboard.Proofs.Sort.Reals
import Taskboard.Proofs.Value.Captions
import Taskboard.Query

/-!
# Proofs/Query — sorting and selecting commute

A query sorts first and selects then.  Each of its orders is the stable order of one comparison of
two tasks (`Query.compare`), and what is left of a stable order when elements are left out is the
stable order of the others, so a query may as well select first.

* `sortTasks_sorts` — a built-in order is stable, rising and falling.
* `Query.order_sorts` — **a query sorts stably** by its comparison.
* `Query.run_eq_order_select` — **a query gives what selecting first and sorting then gives**: each
  task that it asks for, as often as the list has it, and nothing else.
-/

namespace Taskboard

/-! ## Built-in orders -/

/-- An order, or the same one falling. -/
def directed {α : Type} (falling : Bool) (order : α → α → Ordering) (a b : α) : Ordering :=
  if falling then order b a else order a b

instance {α : Type} (falling : Bool) (order : α → α → Ordering) [Std.TransCmp order] :
    Std.TransCmp (directed falling order) := by
  cases falling with
  | false => exact inferInstanceAs (Std.TransCmp order)
  | true => exact inferInstanceAs (Std.TransCmp fun a b => order b a)

/-- The place of a task's last change on the line, zero where none is known. -/
def Task.changePlace (t : Task) : Int := (t.changedAt.toOption.bind Binary64.place?).getD 0

/-- The order that a criterion stands for. -/
def Criterion.compare : Criterion → Task → Task → Ordering
  | .byName falling => directed falling (compareOn Task.id)
  | .byChange falling => directed falling (compareOn Task.changePlace)
  | .asGiven => fun _ _ => .eq

instance (c : Criterion) : Std.TransCmp c.compare := by
  cases c with
  | byName falling => exact inferInstanceAs (Std.TransCmp (directed falling _))
  | byChange falling => exact inferInstanceAs (Std.TransCmp (directed falling _))
  | asGiven => exact { eq_swap := rfl, isLE_trans := fun _ _ => rfl }

section Keys

variable {α κ : Type}

/-- Where each member has a key, each is listed with its key. -/
theorem keyed_eq_ok {key : α → Except Fault κ} : ∀ {xs : List α}, (∀ x ∈ xs, ∃ k, key x = .ok k) →
    ∃ pairs, keyed key xs = .ok pairs ∧ pairs.map Prod.snd = xs ∧ ∀ p ∈ pairs, key p.2 = .ok p.1
  | [], _ => ⟨[], rfl, rfl, fun _ hp => nomatch hp⟩
  | x :: xs, h => by
    obtain ⟨k, hk⟩ := h x List.mem_cons_self
    obtain ⟨pairs, hpairs, hsnd, hkeys⟩ := keyed_eq_ok fun y hy => h y (List.mem_cons_of_mem x hy)
    refine ⟨(k, x) :: pairs, bind_eq_ok.mpr ⟨k, hk, map_eq_ok.mpr ⟨pairs, hpairs, rfl⟩⟩, ?_, ?_⟩
    · rw [List.map_cons, hsnd]
    · exact List.forall_mem_cons.mpr ⟨hk, hkeys⟩

/-- Keys that compare as their members do sort the members stably. -/
theorem orderByKey_sorts (le : κ → κ → Bool) (order : α → α → Ordering) [Std.TransCmp order]
    (pairs : List (κ × α)) (falling : Bool)
    (h : ∀ p ∈ pairs, ∀ q ∈ pairs, le p.1 q.1 = (order p.2 q.2).isLE) :
    SortsStably (fun a b => .ok (directed falling order a b)) (pairs.map Prod.snd)
      (orderByKey le falling pairs) := by
  have hmap : orderByKey le falling pairs =
      (pairs.map Prod.snd).mergeSort fun a b => (directed falling order a b).isLE := by
    refine List.map_mergeSort fun p hp q hq => ?_
    cases falling with
    | false => exact h p hp q hq
    | true => exact h q hq p hp
  exact hmap ▸ sortsStably_mergeSort (directed falling order) _

end Keys

theorem Binary64.ofUnits_ne_nan (negative : Bool) (n d : Nat) : ofUnits negative n d ≠ .nan := by
  unfold ofUnits
  split <;> nofun

/-- A change that is told in UTC has a time, and that is a number. -/
theorem Task.exists_changedAt {t : Task} (h : ∀ m ∈ t.modified, m.offset.getD 0 = 0) :
    ∃ x, t.changedAt = .ok x ∧ x.place? = some t.changePlace := by
  have hplace {x : Binary64} (hx : t.changedAt = .ok x) (hnan : x ≠ .nan) :
      ∃ x, t.changedAt = .ok x ∧ x.place? = some t.changePlace := by
    obtain ⟨p, hp⟩ := Binary64.exists_place hnan
    refine ⟨x, hx, hp.trans ?_⟩
    simp [changePlace, hx, hp, Except.toOption]
  cases hm : t.modified with
  | none =>
    have hx : t.changedAt = .ok .zero := by simp only [changedAt, hm]
    exact hplace hx nofun
  | some m =>
    have hrange : Moment.offsetInRange 0 = true := by decide
    have hx : t.changedAt = .ok (.ofRatio m.micros 1000000) := by
      simp only [changedAt, hm, Moment.seconds, Moment.instant, h m hm, hrange, if_true, Except.map]
    exact hplace hx (Binary64.ofUnits_ne_nan _ _ _)

/-- **A built-in order is stable**, if the changes are told in UTC. -/
theorem sortTasks_sorts (c : Criterion) {tasks : List Task}
    (hmodified : ∀ t ∈ tasks, ∀ m ∈ t.modified, m.offset.getD 0 = 0) :
    ∃ sorted, sortTasks c tasks = .ok sorted ∧
      SortsStably (fun a b => .ok (c.compare a b)) tasks sorted := by
  cases c with
  | asGiven => exact ⟨tasks, rfl, sortsStably_self fun _ _ => rfl⟩
  | byName falling =>
    have hsorts := orderByKey_sorts (fun a b : String => decide (a ≤ b)) (compareOn Task.id)
      (tasks.map fun t => (t.id, t)) falling ?_
    · have hsnd : (tasks.map fun t => (t.id, t)).map Prod.snd = tasks := by
        simp [Function.comp_def]
      rw [hsnd] at hsorts
      exact ⟨_, rfl, hsorts⟩
    · intro p hp q hq
      obtain ⟨a, -, rfl⟩ := List.mem_map.mp hp
      obtain ⟨b, -, rfl⟩ := List.mem_map.mp hq
      rw [Bool.eq_iff_iff, decide_eq_true_iff]
      exact (isLE_compareOfLessAndEq String.le_antisymm String.not_le String.le_total).symm
  | byChange falling =>
    obtain ⟨pairs, hpairs, hsnd, hkeys⟩ := keyed_eq_ok fun t ht =>
      (Task.exists_changedAt (hmodified t ht)).imp fun _ h => h.1
    have hplace {p : Binary64 × Task} (hp : p ∈ pairs) : p.1.place? = some p.2.changePlace := by
      obtain ⟨x, hx, hplace⟩ := Task.exists_changedAt (hmodified p.2 (hsnd ▸ List.mem_map_of_mem hp))
      rwa [Except.ok.inj ((hkeys p hp).symm.trans hx)]
    refine ⟨_, map_eq_ok.mpr ⟨pairs, hpairs, rfl⟩, ?_⟩
    have hsorts := orderByKey_sorts (fun a b : Binary64 => a.le b) (compareOn Task.changePlace)
      pairs falling ?_
    · rwa [hsnd] at hsorts
    · intro p hp q hq
      rw [Bool.eq_iff_iff]
      simp only [Binary64.le, hplace hp, hplace hq, decide_eq_true_iff]
      exact Std.isLE_compare.symm

/-! ## Orders by keys -/

/-- A task whose attributes all have texts. -/
def Task.HasText (t : Task) : Prop := ∀ e ∈ t.attributes, e.2.HasText

theorem Task.hasText_of_get? {t : Task} (h : t.HasText) {key : String} {v : Value}
    (hv : t.get? key = some v) : v.HasText :=
  h _ (mem_of_entryAt? hv)

namespace SortKey

/-- A key with a ranking, or of an attribute that is declared neither a number nor a date, compares
captions. -/
theorem kind_eq_ranked_or_caption {types : AttributeTypes} {k : SortKey}
    (h : k.ranking ≠ [] ∨ entryAt? k.key types ≠ some "Number" ∧ entryAt? k.key types ≠ some "Date") :
    k.kind types = .ranked ∨ k.kind types = .caption := by
  unfold kind
  split
  · exact Or.inl rfl
  next hranking =>
    have hranking : k.ranking = [] := by simpa using hranking
    obtain ⟨hnumber, hdate⟩ := h.resolve_left fun hne => hne hranking
    split <;> simp_all

/-- Two tasks whose attributes have texts compare under a key that compares captions. -/
theorem exists_compareTasks {types : AttributeTypes} {k : SortKey}
    (hk : k.kind types = .ranked ∨ k.kind types = .caption) {a b : Task} (ha : a.HasText)
    (hb : b.HasText) : ∃ o, k.compareTasks types a b = .ok o := by
  have hvalue {t : Task} (ht : t.HasText) {v : Value} (hv : k.value? types t = some v) :
      ∃ s, v.caption = .ok s := by
    unfold value? at hv
    split at hv
    · cases hv
    next w hw =>
      split at hv
      · cases hv
      · exact Option.some.inj hv ▸ Value.exists_caption w (Task.hasText_of_get? ht hw)
  unfold compareTasks
  cases hv : k.value? types a <;> cases hw : k.value? types b
  case some.some v w =>
    obtain ⟨s, hs⟩ := hvalue ha hv
    obtain ⟨t, ht⟩ := hvalue hb hw
    rcases hk with hk | hk <;>
      exact ⟨_, map_eq_ok.mpr ⟨_, by simp only [compareValues, hk, hs, ht]; rfl, rfl⟩⟩
  all_goals exact ⟨_, rfl⟩

end SortKey

/-- Two tasks whose attributes have texts compare under keys that compare captions. -/
theorem exists_compareTasks {types : AttributeTypes} {a b : Task} (ha : a.HasText)
    (hb : b.HasText) : ∀ spec : SortSpec,
    (∀ k ∈ spec, k.kind types = .ranked ∨ k.kind types = .caption) →
      ∃ o, compareTasks types a b spec = .ok o
  | [], _ => ⟨.eq, rfl⟩
  | k :: ks, h => by
    obtain ⟨o, ho⟩ := SortKey.exists_compareTasks (h k List.mem_cons_self) ha hb
    obtain ⟨p, hp⟩ := exists_compareTasks ha hb ks fun k' hk' => h k' (List.mem_cons_of_mem k hk')
    cases o with
    | eq => exact ⟨p, bind_eq_ok.mpr ⟨.eq, ho, hp⟩⟩
    | lt | gt => exact ⟨_, bind_eq_ok.mpr ⟨_, ho, rfl⟩⟩

namespace Query

variable {q : Query} {tasks : List Task}

/-- The comparison that a query sorts by. -/
def compare (q : Query) (a b : Task) : Except Fault Ordering :=
  if q.spec.isEmpty then .ok (q.criterion.compare a b) else compareTasks q.types a b q.spec

theorem coherent_compare
    (hspec : ∀ k ∈ q.spec, k.kind q.types = .ranked ∨ k.kind q.types = .caption) :
    Coherent q.compare := by
  unfold compare
  split
  · exact Coherent.ofKey Except.ok q.criterion.compare
  · refine coherent_compareTasks q.spec fun k hk => ?_
    rcases hspec k hk with h | h <;> simp [h]

theorem exists_compare
    (hspec : ∀ k ∈ q.spec, k.kind q.types = .ranked ∨ k.kind q.types = .caption) {a b : Task}
    (ha : a.HasText) (hb : b.HasText) : ∃ o, q.compare a b = .ok o := by
  unfold compare
  split
  · exact ⟨_, rfl⟩
  · exact exists_compareTasks ha hb q.spec hspec

/-- **A query sorts stably** by its comparison. -/
theorem order_sorts
    (hspec : ∀ k ∈ q.spec, k.kind q.types = .ranked ∨ k.kind q.types = .caption)
    (hmodified : ∀ t ∈ tasks, ∀ m ∈ t.modified, m.offset.getD 0 = 0)
    (htexts : ∀ t ∈ tasks, t.HasText) :
    ∃ sorted, q.order tasks = .ok sorted ∧ SortsStably q.compare tasks sorted := by
  have hcoherent := coherent_compare hspec
  have hanswers : tasks.Pairwise fun a b => ∃ o, q.compare a b = .ok o :=
    List.pairwise_of_forall_mem_list fun a ha b hb =>
      exists_compare hspec (htexts a ha) (htexts b hb)
  unfold order
  cases hkeys : q.spec with
  | nil =>
    have hcompare : q.compare = fun a b => .ok (q.criterion.compare a b) := by
      simp [funext_iff, compare, hkeys]
    exact hcompare ▸ sortTasks_sorts q.criterion hmodified
  | cons k ks =>
    have hcompare : q.compare = fun a b => compareTasks q.types a b (k :: ks) := by
      simp [funext_iff, compare, hkeys]
    rw [hcompare] at hcoherent hanswers ⊢
    obtain ⟨sorted, hsorted, hsorts⟩ := hcoherent.stableSort_sorts hanswers
    exact ⟨sorted, congrArg Except.ok (sortByKeys_cons hsorted), hsorts⟩

/-! ## Selecting -/

/-- Whether a task has attributes with captions that contain given texts. -/
def carries (t : Task) (tags : List (String × String)) : Bool :=
  tags.all fun (key, text) =>
    ((t.get? key).bind fun v => v.caption.toOption).any fun s => contains text s

/-- **Whether a query asks for a task**: by its rule if it has one, else by its tags. -/
def admits (q : Query) (t : Task) : Bool :=
  match q.rule with
  | .everything => carries t q.tags
  | rule => rule.holds t

theorem hasTags_eq {t : Task} (h : t.HasText) : ∀ tags, hasTags t tags = .ok (carries t tags)
  | [] => rfl
  | (key, text) :: rest => by
    have hrest := hasTags_eq h rest
    cases hv : t.get? key with
    | none => simp [hasTags, carries, hv]
    | some v =>
      obtain ⟨s, hs⟩ := Value.exists_caption v (Task.hasText_of_get? h hv)
      rw [carries] at hrest ⊢
      cases hfind : contains text s <;>
        simp [hasTags, hv, hs, hfind, hrest, Except.bind, Except.toOption]

theorem keepTagged_eq (tags : List (String × String)) : ∀ {tasks : List Task},
    (∀ t ∈ tasks, t.HasText) → keepTagged tags tasks = .ok (tasks.filter fun t => carries t tags)
  | [], _ => rfl
  | t :: ts, h => by
    have hts := keepTagged_eq tags fun u hu => h u (List.mem_cons_of_mem t hu)
    rw [keepTagged, hasTags_eq (h t List.mem_cons_self), hts, List.filter_cons]
    rfl

/-- A query keeps the tasks that it asks for. -/
theorem select_eq (htexts : ∀ t ∈ tasks, t.HasText) :
    q.select tasks = .ok (tasks.filter q.admits) := by
  unfold select admits
  cases q.rule with
  | everything => exact keepTagged_eq q.tags htexts
  | node condition logical children => rfl

/-! ## Both -/

/-- **Sorting and selecting commute.**  Whatever the criterion, the rule and the tags, and whatever
keys with a ranking or of an attribute that is declared neither a number nor a date: a query gives
what selecting first and sorting then gives, and that is each task that it asks for, as often as the
list has it. -/
theorem run_eq_order_select (q : Query) (tasks : List Task)
    (hmodified : ∀ t ∈ tasks, ∀ m ∈ t.modified, m.offset.getD 0 = 0)
    (htexts : ∀ t ∈ tasks, t.HasText)
    (hspec : ∀ k ∈ q.spec, k.ranking ≠ [] ∨
      entryAt? k.key q.types ≠ some "Number" ∧ entryAt? k.key q.types ≠ some "Date") :
    ∃ result, q.run tasks = .ok result ∧ (q.select tasks).bind q.order = .ok result ∧
      q.select tasks = .ok (tasks.filter q.admits) ∧ result.Perm (tasks.filter q.admits) := by
  have hkinds := fun k hk => SortKey.kind_eq_ranked_or_caption (hspec k hk)
  obtain ⟨sorted, hsorted, hsorts⟩ := order_sorts hkinds hmodified htexts
  obtain ⟨result, hresult, hparts⟩ := @order_sorts q (tasks.filter q.admits) hkinds
    (fun t ht => hmodified t (List.mem_of_mem_filter ht))
    fun t ht => htexts t (List.mem_of_mem_filter ht)
  have hselect := select_eq (q := q) htexts
  have hself : ∀ t ∈ tasks.filter q.admits, ∃ o, q.compare t t = .ok o := fun t ht =>
    have ht := htexts t (List.mem_of_mem_filter ht)
    exists_compare hkinds ht ht
  -- what is selected from the sorted list and the sorted selection are stable orders of one list
  have heq : sorted.filter q.admits = result :=
    (hsorts.filter q.admits).unique (coherent_compare hkinds) hself hparts
  refine ⟨result, bind_eq_ok.mpr ⟨sorted, hsorted, ?_⟩, ?_, hselect, hparts.perm⟩
  · rw [select_eq fun t ht => htexts t (hsorts.perm.mem_iff.mp ht), heq]
  · rw [hselect]
    exact hresult

/-- What is not done, by the stage from the last rank down, then by its labels. -/
def openQuery : Query where
  criterion := .asGiven
  spec := [⟨"stage", "desc", ["open", "done"]⟩, ⟨"labels", "asc", []⟩]
  rule := .negate (.leaf ⟨"stage", "==", .text "Done"⟩)
  tags := []
  types := [("due", "Date")]

/-- Tasks one of which is listed twice, and one of which has no stage. -/
def openTasks : List Task :=
  [⟨"a", [("stage", .text "open"), ("labels", .list [.text "ui", .int 2])], "", none⟩,
   ⟨"b", [("labels", .text "api")], "", none⟩,
   ⟨"c", [("stage", .text "done")], "", some (.midnight ⟨2024, 5, 6, by decide⟩ (some 0))⟩,
   ⟨"d", [("stage", .text "open"), ("labels", .text "api")], "", none⟩,
   ⟨"a", [("stage", .text "open"), ("labels", .list [.text "ui", .int 2])], "", none⟩]

/-- The task that is listed twice comes twice, and the one without a stage is last. -/
theorem run_eq_order_select_open :
    (openQuery.run openTasks).toOption.map (List.map Task.id) = some ["d", "a", "a", "b"] ∧
      ∃ result, openQuery.run openTasks = .ok result ∧
        (openQuery.select openTasks).bind openQuery.order = .ok result ∧
        openQuery.select openTasks = .ok (openTasks.filter openQuery.admits) ∧
        result.Perm (openTasks.filter openQuery.admits) :=
  ⟨by decide +kernel, run_eq_order_select openQuery openTasks
    (by simp [openTasks, Moment.midnight])
    (by simp [-Prod.forall, openTasks, Task.HasText, Value.HasText, Value.AllHaveText, IsShort,
      digitCount, maxDecimalDigits])
    (by decide)⟩

end Query

end Taskboard
