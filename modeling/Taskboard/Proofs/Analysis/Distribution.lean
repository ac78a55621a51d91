import Taskboard.Proofs.Analysis.Collecting
import Taskboard.Proofs.Chart.Diagram

/-!
# Proofs/Analysis/Distribution — how often values occur

The parts of a pie and the columns beside it are made of the same counts.  A category gives each
task some values, the captions of the values are labels, and `IsTally` says of counts that they are
in the order of the labels and tell how often each one occurs.  This leaves one list of counts for
some labels, whatever order they come in.

* `isTally_countLabels`, `sum_countLabels` — the counts are a tally, and they add up to the number
  of labels.
* `Report.taskLabels_eq` — the labels are the captions of the values.
* `Report.distribution_conserves` — **the pie and the columns of some tasks.**
-/

namespace Taskboard

-- powers and sums are those of the naturals, also where an importing module knows other ones
attribute [local instance (high)] instPowNat Zero.ofOfNat0

/-! ## Tallies -/

/-- **A tally of labels**: in the order of the labels, each with how often it occurs. -/
structure IsTally (labels : List String) (counts : List (String × Nat)) : Prop where
  rising : (counts.map Prod.fst).Pairwise (· < ·)
  mem_iff : ∀ l n, (l, n) ∈ counts ↔ 0 < n ∧ n = labels.count l

namespace Report

/-- Whether a label comes before another one. -/
def labelBefore (a b : String) : Bool := decide (a < b)

theorem isKeyOrder_labelBefore : IsKeyOrder labelBefore where
  irrefl a := decide_eq_false (String.lt_irrefl a)
  trans hab hbc :=
    decide_eq_true (String.lt_trans (of_decide_eq_true hab) (of_decide_eq_true hbc))
  total hab hne :=
    decide_eq_true (Std.lt_of_le_of_ne (String.not_lt.mp (of_decide_eq_false hab)) hne.symm)

/-- One more after so many. -/
def oneMore (o : Option Nat) : Nat := o.elim 0 id + 1

theorem countLabel_eq_collect (label : String) (counts : List (String × Nat)) :
    countLabel label counts = collect labelBefore label oneMore counts := by
  induction counts with
  | nil => rfl
  | cons e rest ih =>
    rw [countLabel, collect, ih]
    simp only [labelBefore, decide_eq_true_eq, oneMore, Option.elim, id]

theorem countLabels_concat (labels : List String) (label : String) :
    countLabels (labels ++ [label]) = countLabel label (countLabels labels) := by
  rw [countLabels, List.foldl_append]
  rfl

/-- How often a label occurs, if it does. -/
def times? (labels : List String) (l : String) : Option Nat :=
  if labels.count l = 0 then none else some (labels.count l)

theorem times?_eq_some {labels : List String} {l : String} {n : Nat} :
    times? labels l = some n ↔ 0 < n ∧ n = labels.count l := by
  unfold times?
  split
  · simp only [reduceCtorEq, false_iff]
    omega
  · rw [Option.some.injEq]
    omega

/-- One label more is counted once more, and the others as often. -/
theorem times?_concat (labels : List String) (label l : String) :
    times? (labels ++ [label]) l
      = if l = label then some (oneMore (times? labels label)) else times? labels l := by
  unfold times?
  rw [List.count_append, List.count_singleton]
  by_cases hl : l = label
  · subst hl
    by_cases hnone : labels.count l = 0
    · simp [hnone, oneMore]
    · simp [hnone, oneMore]
  · simp [hl, Ne.symm hl]

/-- Label after label, the counts tell how often each one occurred so far. -/
theorem collects_countLabels (labels : List String) :
    Collects labelBefore (times? labels) (countLabels labels) := by
  induction labels using List.reverseRecOn with
  | nil => exact .nil
  | append_singleton labels label ih =>
    rw [countLabels_concat, countLabel_eq_collect]
    exact (ih.collect isKeyOrder_labelBefore label oneMore).congr fun l =>
      (times?_concat labels label l).symm

/-- **The counts of labels are their tally.** -/
theorem isTally_countLabels (labels : List String) : IsTally labels (countLabels labels) where
  rising := List.pairwise_map.mpr
    ((collects_countLabels labels).rising.imp fun hlt => of_decide_eq_true hlt)
  mem_iff l n := ((collects_countLabels labels).mem_iff l n).trans times?_eq_some

/-- **No label is lost**: the counts add up to the number of labels. -/
theorem sum_countLabels (labels : List String) :
    ((countLabels labels).map Prod.snd).sum = labels.length := by
  induction labels using List.reverseRecOn with
  | nil => rfl
  | append_singleton labels label ih =>
    rw [countLabels_concat, countLabel_eq_collect, List.length_append, List.length_singleton, ← ih]
    exact sum_collect id 1 fun o => by cases o <;> rfl

/-- The counts do not depend on the order of the labels. -/
theorem countLabels_perm {labels others : List String} (h : labels.Perm others) :
    countLabels labels = countLabels others :=
  (collects_countLabels labels).unique isKeyOrder_labelBefore <|
    (collects_countLabels others).congr fun l => by rw [times?, times?, h.count_eq]

/-- The greatest count, zero if there is none. -/
theorem greatestCount_eq (counts : List (String × Nat)) :
    greatestCount counts = (counts.map Prod.snd).max?.getD 0 := by
  have hfold : greatestCount counts = (counts.map Prod.snd).foldl max 0 := by
    rw [List.foldl_map]
    rfl
  rw [hfold, List.foldl_max, Nat.zero_max]

/-- No label occurs more often than there are labels. -/
theorem count_le_length {labels : List String} {e : String × Nat} (h : e ∈ countLabels labels) :
    e.2 ≤ labels.length := by
  obtain ⟨-, hn⟩ := ((isTally_countLabels labels).mem_iff e.1 e.2).mp h
  exact hn ▸ List.count_le_length

theorem greatestCount_le (labels : List String) :
    greatestCount (countLabels labels) ≤ labels.length := by
  rw [greatestCount_eq]
  cases hmax : ((countLabels labels).map Prod.snd).max? with
  | none => exact Nat.zero_le _
  | some n =>
    obtain ⟨e, he, rfl⟩ := List.mem_map.mp (List.max?_eq_some_iff.mp hmax).1
    exact count_le_length he

/-! ## The values of a category -/

/-- **The values that count in the value of an attribute**: the members of a list; null and maps
have none. -/
def countedIn : Value → List Value
  | .null => []
  | .map _ => []
  | .list vs => vs
  | v => [v]

/-- The values that tasks have in a category; a task without the attribute has none. -/
def categoryValues (category : String) (tasks : List Task) : List Value :=
  tasks.flatMap fun t => (t.get? category).elim [] countedIn

theorem labelsOf_eq (v : Value) : labelsOf v = (countedIn v).mapM Value.caption := by
  have hone : ∀ w : Value, w.caption.map ([·]) = [w].mapM Value.caption := fun w => by
    rw [List.mapM_cons, List.mapM_nil]
    cases w.caption <;> rfl
  cases v with
  | null | map es | list vs => rfl
  | bool | int | real | text | date | moment | bytes | set =>
    simp only [labelsOf, countedIn, hone]

/-- **The labels of tasks are the captions of their values.** -/
theorem taskLabels_eq (category : String) (tasks : List Task) :
    taskLabels category tasks = (categoryValues category tasks).mapM Value.caption := by
  induction tasks with
  | nil => rfl
  | cons t ts ih =>
    have hhead : labelsOf (t.get category)
        = ((t.get? category).elim [] countedIn).mapM Value.caption := by
      rw [labelsOf_eq, Task.get]
      cases t.get? category <;> rfl
    rw [categoryValues, List.flatMap_cons, List.mapM_append, ← hhead, ← categoryValues, ← ih,
      taskLabels, List.mapM_cons, taskLabels]
    cases labelsOf (t.get category) with
    | error f => rfl
    | ok ls => cases ts.mapM fun t => labelsOf (t.get category) <;> rfl

/-- Values in another order have the same labels in another order. -/
theorem exists_labels_of_perm {values others : List Value} (h : others.Perm values)
    {labels : List String} (hlabels : values.mapM Value.caption = .ok labels) :
    ∃ ls, others.mapM Value.caption = .ok ls ∧ ls.Perm labels := by
  obtain ⟨ls, hls, hperm⟩ := List.perm_comp_forall₂ h (mapM_eq_ok.mp hlabels)
  exact ⟨ls, mapM_eq_ok.mpr hls, hperm⟩

theorem keep_perm (keys : ChartKeys) (range : Option DateRange) {tasks others : List Task}
    (h : others.Perm tasks) :
    (DateRange.keep keys range others).Perm (DateRange.keep keys range tasks) := by
  unfold DateRange.keep
  split
  · exact h
  · split
    · exact h.filter _
    · exact h

/-- Tasks in another order have the same counts, or have none either. -/
theorem distribution_perm (keys : ChartKeys) (category : String) (range : Option DateRange)
    {tasks others : List Task} (h : others.Perm tasks) :
    (distribution keys category range others).toOption
      = (distribution keys category range tasks).toOption := by
  have hvalues {ts us : List Task} (h : us.Perm ts) :
      (categoryValues category (DateRange.keep keys range us)).Perm
        (categoryValues category (DateRange.keep keys range ts)) :=
    (keep_perm keys range h).flatMap_right _
  rw [distribution, distribution, taskLabels_eq, taskLabels_eq]
  cases hlabels : (categoryValues category (DateRange.keep keys range tasks)).mapM
      Value.caption with
  | ok labels =>
    obtain ⟨ls, hls, hperm⟩ := exists_labels_of_perm (hvalues h) hlabels
    rw [hls]
    exact congrArg some (countLabels_perm hperm)
  | error f =>
    cases hothers : (categoryValues category (DateRange.keep keys range others)).mapM
        Value.caption with
    | error g => rfl
    | ok ls =>
      obtain ⟨labels, hok, -⟩ := exists_labels_of_perm (hvalues h.symm) hothers
      rw [hlabels] at hok
      cases hok

/-! ## The two charts -/

theorem toOption_bind {α β : Type} (x : Except Fault α) (f : α → Except Fault β) :
    (x.bind f).toOption = x.toOption.bind fun a => (f a).toOption := by
  cases x <;> rfl

/-- A number of labels that is far within the doubles can be shown. -/
theorem isMeasure_of_le {n k : Nat} (h : n ≤ k) (hk : k ≤ 2 ^ (1000 : Nat)) :
    (Value.int n).IsMeasure :=
  Nat.le_trans h hk

/-- There is a report of a chart of texts and numbers that can be shown. -/
theorem exists_ofChart_of_isMeasured {c : Chart} (hc : c.IsTyped) (hmeasured : c.IsMeasured)
    (warnings : List String) : ∃ r, ofChart c warnings = .ok r := by
  obtain ⟨lines, hlines⟩ := Chart.exists_diagramLines hc hmeasured
  exact exists_map_eq_ok.mpr (exists_map_eq_ok.mpr ⟨lines, hlines⟩)

/-- The parts of a pie by the counts of labels. -/
def pieOf (category : String) (counts : List (String × Nat)) : PieChart :=
  ⟨.text (category ++ " Distribution"), counts.map fun (label, n) => ⟨label, .int n⟩⟩

/-- Columns by the counts of labels. -/
def barOf (category : String) (counts : List (String × Nat)) : BarChart :=
  ⟨.text category, none, .list (counts.map fun (label, _) => .text label),
    .list (counts.map fun (_, n) => .int n), .text countTitle, .int (greatestCount counts)⟩

/-- **A pie and columns that show the same counts**, label for label. -/
structure ShareCounts (counts : List (String × Nat)) (p : PieChart) (b : BarChart) : Prop where
  slices : p.slices = counts.map fun (label, n) => ⟨label, .int n⟩
  /-- The columns are the parts of the pie once more. -/
  columns : ∃ xs ys, b.slices = none ∧ b.labels = .list xs ∧ b.heights = .list ys ∧
    xs.length = ys.length ∧ xs.zip ys = p.slices.map fun s => (.text s.label, s.count)
  /-- They reach to the greatest count, or to zero if there is none. -/
  top : b.top = .int ((counts.map Prod.snd).max?.getD 0)

theorem shareCounts (category : String) (counts : List (String × Nat)) :
    ShareCounts counts (pieOf category counts) (barOf category counts) where
  slices := rfl
  columns := by
    refine ⟨_, _, rfl, rfl, rfl, ?_, ?_⟩
    · rw [List.length_map, List.length_map]
    · rw [pieOf, List.map_map, List.zip_map']
      rfl
  top := by rw [barOf, greatestCount_eq]

theorem exists_ofChart_pie (category : String) {labels : List String}
    (h : labels.length ≤ 2 ^ (1000 : Nat)) :
    ∃ r, ofChart (.pie (pieOf category (countLabels labels))) [] = .ok r := by
  have hslices : ∀ s ∈ (pieOf category (countLabels labels)).slices, s.count.IsMeasure := by
    intro s hs
    obtain ⟨e, he, rfl⟩ := List.mem_map.mp hs
    exact isMeasure_of_le (count_le_length he) h
  exact exists_ofChart_of_isMeasured
    (c := .pie _) ⟨⟨_, rfl⟩, fun s hs => (hslices s hs).isNumber⟩ hslices []

theorem exists_ofChart_bar (category : String) {labels : List String}
    (h : labels.length ≤ 2 ^ (1000 : Nat)) :
    ∃ r, ofChart (.bar (barOf category (countLabels labels))) [] = .ok r := by
  have hheights : ∀ v ∈ (countLabels labels).map fun (_, n) => Value.int n, v.IsMeasure := by
    intro v hv
    obtain ⟨e, he, rfl⟩ := List.mem_map.mp hv
    exact isMeasure_of_le (count_le_length he) h
  have htop : (Value.int (greatestCount (countLabels labels))).IsMeasure :=
    isMeasure_of_le (greatestCount_le labels) h
  have htyped : (barOf category (countLabels labels)).IsTyped := by
    refine ⟨⟨_, rfl⟩, fun ss hss => (nomatch hss), .inr ⟨_, rfl, fun v hv => ?_⟩,
      .inr ⟨_, rfl, fun v hv => (hheights v hv).isNumber⟩, .inr ⟨_, rfl⟩, .inr rfl⟩
    obtain ⟨e, -, rfl⟩ := List.mem_map.mp hv
    exact ⟨e.1, rfl⟩
  refine exists_ofChart_of_isMeasured (c := .bar _) htyped
    ⟨fun ss hss => (nomatch hss), fun vs hvs => ?_, .inr htop⟩ []
  obtain rfl := Value.list.inj hvs
  exact hheights

/-- **A distribution conserves values.**  The values that the tasks of a range have in a category
are counted by their captions, and the pie and the columns show these counts, label for label in
the order of the labels, with nothing lost and nothing made up.  Where a value has no caption there
is no report.  The order of the tasks has no say. -/
theorem distribution_conserves (keys : ChartKeys) (category : String) (range : Option DateRange)
    (tasks : List Task) :
    (∀ f, (categoryValues category (DateRange.keep keys range tasks)).mapM Value.caption
        = .error f →
      pie keys category range tasks = .error f ∧ bar keys category range tasks = .error f) ∧
    (∀ labels, (categoryValues category (DateRange.keep keys range tasks)).mapM Value.caption
        = .ok labels →
      ∃ counts p b, IsTally labels counts ∧ (counts.map Prod.snd).sum = labels.length ∧
        ShareCounts counts p b ∧ pie keys category range tasks = ofChart (.pie p) [] ∧
        bar keys category range tasks = ofChart (.bar b) [] ∧
        (labels.length ≤ 2 ^ (1000 : Nat) → (∃ r, pie keys category range tasks = .ok r) ∧
          ∃ r, bar keys category range tasks = .ok r)) ∧
    ∀ others, others.Perm tasks →
      (pie keys category range others).toOption = (pie keys category range tasks).toOption ∧
      (bar keys category range others).toOption = (bar keys category range tasks).toOption := by
  refine ⟨fun f hf => ?_, fun labels hlabels => ?_, fun others hperm => ?_⟩
  · have hnone : distribution keys category range tasks = .error f := by
      rw [distribution, taskLabels_eq, hf]
      rfl
    rw [pie, bar, hnone]
    exact ⟨rfl, rfl⟩
  · have hcounts : distribution keys category range tasks = .ok (countLabels labels) := by
      rw [distribution, taskLabels_eq, hlabels]
      rfl
    have hpie : pie keys category range tasks
        = ofChart (.pie (pieOf category (countLabels labels))) [] := by
      rw [pie, hcounts]
      rfl
    have hbar : bar keys category range tasks
        = ofChart (.bar (barOf category (countLabels labels))) [] := by
      rw [bar, hcounts]
      rfl
    refine ⟨countLabels labels, _, _, isTally_countLabels labels, sum_countLabels labels,
      shareCounts category _, hpie, hbar, fun hfew => ?_⟩
    rw [hpie, hbar]
    exact ⟨exists_ofChart_pie category hfew, exists_ofChart_bar category hfew⟩
  · have hcounts := distribution_perm keys category range hperm
    constructor
    · exact (toOption_bind _ _).trans (hcounts ▸ (toOption_bind _ _).symm)
    · exact (toOption_bind _ _).trans (hcounts ▸ (toOption_bind _ _).symm)

/-- Tasks with a list, a truth value, a map and nothing under one attribute. -/
def mixedTags : List Task :=
  [⟨"a", [("tags", .list [.int 1, .text "1", .null])], "", none⟩,
    ⟨"b", [("tags", .bool true)], "", none⟩, ⟨"c", [("tags", .map [])], "", none⟩,
    ⟨"d", [], "", none⟩]

/-- Four values are counted, two of them under one label, and in the opposite order as well. -/
theorem mixedTags_are_conserved : ∃ counts p b, IsTally ["1", "1", "null", "true"] counts ∧
    (counts.map Prod.snd).sum = 4 ∧ ShareCounts counts p b ∧
    pie {} "tags" none mixedTags = ofChart (.pie p) [] ∧
    (∃ r, pie {} "tags" none mixedTags = .ok r) ∧
    (pie {} "tags" none mixedTags.reverse).toOption
      = (pie {} "tags" none mixedTags).toOption := by
  have hlabels : (categoryValues "tags" (DateRange.keep {} none mixedTags)).mapM Value.caption
      = .ok ["1", "1", "null", "true"] := by decide +kernel
  obtain ⟨-, hcounted, horder⟩ := distribution_conserves {} "tags" none mixedTags
  obtain ⟨counts, p, b, htally, hsum, hshare, hpie, -, hfew⟩ := hcounted _ hlabels
  exact ⟨counts, p, b, htally, hsum, hshare, hpie, (hfew (by decide +kernel)).1,
    (horder _ (List.reverse_perm _)).1⟩

end Report

end Taskboard
