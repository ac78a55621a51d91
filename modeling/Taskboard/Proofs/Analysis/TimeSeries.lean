import Taskboard.Proofs.Analysis.Aggregation
import Taskboard.Proofs.Analysis.Distribution
import Taskboard.Proofs.Calendar.TextOrder

/-!
# Proofs/Analysis/TimeSeries — tasks by their dates

A line shows the days that tasks have in an attribute, and a number for the tasks of each day.  The
days are collected task by task; what stands under a day are its tasks in the order of the input
(`collects_byDate`), whatever their dates looked like.

* `Report.isSeries_days` — the days rise, and no task with a day in the range is lost.
* `Report.line_eq` — a line in terms of its days: it fails for a number beyond the doubles, or where
  its diagram does.
* `Report.line_partitions` — **the line of some tasks.**
-/

namespace Taskboard

-- powers and sums are those of the naturals, also where an importing module knows other ones
attribute [local instance (high)] instPowNat Zero.ofOfNat0

/-- The short text of a day names that day. -/
theorem Value.day?_shortText {d : Date} (h : 100 ≤ d.year) :
    (Value.text d.shortText).day? = some d := by
  rw [day?, moment?, Moment.ofText?_shortText h]
  rfl

namespace Report

/-! ## The tasks of a day -/

/-- Whether a day lies in a range, which holds every day if there is none. -/
def within (range : Option DateRange) (d : Date) : Bool := range.all fun r => r.contains d

/-- **The tasks of a day**, in the order of the input. -/
def tasksOn (attr : String) (d : Date) (tasks : List Task) : List Task :=
  tasks.filter fun t => (t.get attr).day? = some d

/-- The tasks with a day in the range. -/
def dated (attr : String) (range : Option DateRange) (tasks : List Task) : List Task :=
  tasks.filter fun t => (t.get attr).day?.any (within range)

/-- **The days of some tasks in a range.** -/
structure IsSeries (attr : String) (range : Option DateRange) (tasks : List Task)
    (days : List Date) : Prop where
  rising : days.Pairwise fun d e => d.lt e = true
  mem_iff : ∀ d, d ∈ days ↔ within range d = true ∧ ∃ t ∈ tasks, (t.get attr).day? = some d
  /-- Every task with a day in the range is on one of them. -/
  total : (days.map fun d => (tasksOn attr d tasks).length).sum = (dated attr range tasks).length

theorem isKeyOrder_lt : IsKeyOrder Date.lt where
  irrefl _ := decide_eq_false (Nat.lt_irrefl _)
  trans hab hbc :=
    decide_eq_true (Nat.lt_trans (of_decide_eq_true hab) (of_decide_eq_true hbc))
  total hab hne :=
    decide_eq_true (Nat.lt_of_le_of_ne (Nat.not_lt.mp (of_decide_eq_false hab)) fun heq =>
      hne (Date.eq_of_dayNumber_eq heq.symm))

/-- One more behind those of a day. -/
def andThen (t : Task) (o : Option (List Task)) : List Task := o.elim [] id ++ [t]

theorem putUnder_eq_collect (d : Date) (t : Task) (groups : List (Date × List Task)) :
    putUnder d t groups = collect Date.lt d (andThen t) groups := by
  induction groups with
  | nil => rfl
  | cons e rest ih =>
    rw [putUnder, collect, ih]
    by_cases hd : d = e.1
    · rw [if_pos hd, if_neg (by rw [hd, isKeyOrder_lt.irrefl]; exact Bool.false_ne_true), if_pos hd]
      rfl
    · rw [if_neg hd, if_neg hd]
      rfl

variable (attr : String) (range : Option DateRange)

/-- The day of a task, if it lies in the range. -/
def dayWithin? (t : Task) : Option Date := (t.get attr).day?.filter (within range)

theorem byDate_concat (tasks : List Task) (t : Task) :
    byDate attr range (tasks ++ [t]) = (dayWithin? attr range t).elim (byDate attr range tasks)
      fun d => putUnder d t (byDate attr range tasks) := by
  rw [byDate, List.foldl_append, ← byDate, List.foldl_cons, List.foldl_nil, dayWithin?]
  cases (t.get attr).day? with
  | none => rfl
  | some d =>
    rw [Option.filter_some, within]
    dsimp only
    split <;> rfl

/-- The tasks of a day in the range, if there are some. -/
def group? (tasks : List Task) (d : Date) : Option (List Task) :=
  if within range d ∧ tasksOn attr d tasks ≠ [] then some (tasksOn attr d tasks) else none

theorem dayWithin?_eq_some {t : Task} {d : Date} : dayWithin? attr range t = some d ↔
    within range d = true ∧ (t.get attr).day? = some d := by
  rw [dayWithin?, Option.filter_eq_some_iff, and_comm]

/-- A task more is put behind those of its day, if the day lies in the range. -/
theorem group?_concat (tasks : List Task) (t : Task) (d : Date) :
    group? attr range (tasks ++ [t]) d = if dayWithin? attr range t = some d
      then some (andThen t (group? attr range tasks d)) else group? attr range tasks d := by
  simp only [dayWithin?_eq_some, group?, tasksOn, List.filter_append, List.filter_singleton]
  by_cases hwithin : within range d = true
  · by_cases hday : (t.get attr).day? = some d
    · by_cases hnone : tasks.filter (fun t => (t.get attr).day? = some d) = []
      · simp [hwithin, hday, hnone, andThen]
      · simp [hwithin, hday, hnone, andThen]
    · simp [hday]
  · simp [hwithin]

/-- **Task after task, the tasks of a day stand under it** in the order of the input. -/
theorem collects_byDate (tasks : List Task) :
    Collects Date.lt (group? attr range tasks) (byDate attr range tasks) := by
  induction tasks using List.reverseRecOn with
  | nil => exact Collects.nil.congr fun d => by simp [group?, tasksOn]
  | append_singleton tasks t ih =>
    rw [byDate_concat]
    cases hday : dayWithin? attr range t with
    | none =>
      refine ih.congr fun d => ?_
      rw [group?_concat, hday, if_neg (Option.some_ne_none d).symm]
    | some e =>
      rw [Option.elim_some, putUnder_eq_collect]
      refine (ih.collect isKeyOrder_lt e (andThen t)).congr fun d => ?_
      rw [group?_concat, hday]
      by_cases hd : d = e
      · rw [if_pos hd, if_pos (congrArg some hd.symm), hd]
      · rw [if_neg hd, if_neg fun heq => hd (Option.some.inj heq).symm]

/-- The tasks by their dates are as many as have a day in the range. -/
theorem sum_byDate (tasks : List Task) :
    ((byDate attr range tasks).map fun e => e.2.length).sum
      = (dated attr range tasks).length := by
  induction tasks using List.reverseRecOn with
  | nil => rfl
  | append_singleton tasks t ih =>
    have hdated : dated attr range (tasks ++ [t]) = dated attr range tasks
        ++ (dayWithin? attr range t).elim [] fun _ => [t] := by
      rw [dated, List.filter_append, List.filter_singleton, dayWithin?, ← dated]
      cases (t.get attr).day? with
      | none => rfl
      | some d =>
        rw [Option.filter_some, Option.any_some]
        cases within range d <;> rfl
    rw [byDate_concat, hdated, List.length_append, ← ih]
    cases dayWithin? attr range t with
    | none => rfl
    | some d =>
      rw [Option.elim_some, Option.elim_some, putUnder_eq_collect, List.length_singleton]
      exact sum_collect List.length 1 fun o => by cases o <;> simp [andThen]

/-- **The days that tasks have**, those in a range. -/
def days (tasks : List Task) : List Date := (byDate attr range tasks).map Prod.fst

theorem group?_eq_some {tasks ts : List Task} {d : Date} : group? attr range tasks d = some ts ↔
    (within range d = true ∧ tasksOn attr d tasks ≠ []) ∧ tasksOn attr d tasks = ts := by
  rw [group?, Option.ite_none_right_eq_some, Option.some.injEq]

/-- What stands under a day are its tasks. -/
theorem byDate_eq (tasks : List Task) : byDate attr range tasks
    = (days attr range tasks).map fun d => (d, tasksOn attr d tasks) := by
  rw [days, List.map_map]
  refine (List.map_id _).symm.trans (List.map_congr_left fun e he => ?_)
  have hgroup := ((collects_byDate attr range tasks).mem_iff e.1 e.2).mp he
  exact Prod.ext rfl ((group?_eq_some attr range).mp hgroup).2.symm

theorem mem_days {tasks : List Task} {d : Date} : d ∈ days attr range tasks ↔
    within range d = true ∧ ∃ t ∈ tasks, (t.get attr).day? = some d := by
  have hsome : tasksOn attr d tasks ≠ [] ↔ ∃ t ∈ tasks, (t.get attr).day? = some d := by
    simp [tasksOn]
  rw [← hsome]
  constructor
  · intro hd
    obtain ⟨e, he, rfl⟩ := List.mem_map.mp hd
    have hgroup := ((collects_byDate attr range tasks).mem_iff e.1 e.2).mp he
    exact ((group?_eq_some attr range).mp hgroup).1
  · intro hd
    have hgroup := (group?_eq_some attr range).mpr ⟨hd, rfl⟩
    exact List.mem_map_of_mem (f := Prod.fst)
      (((collects_byDate attr range tasks).mem_iff d _).mpr hgroup)

/-- **The days rise, and no task with a day in the range is lost.** -/
theorem isSeries_days (tasks : List Task) : IsSeries attr range tasks (days attr range tasks) where
  rising := List.pairwise_map.mpr (collects_byDate attr range tasks).rising
  mem_iff _ := mem_days attr range
  total := by
    rw [← sum_byDate, byDate_eq, List.map_map]
    rfl

/-! ## The line of some days -/

/-- A line with a point for each day. -/
def lineOf (name axisTitle : String) (days : List Date) (value : Date → Binary64) : LineChart :=
  ⟨.text (name ++ " by " ++ attr), .text (keyOr axisTitle countTitle),
    days.map fun d => ⟨d.shortText, .real (value d)⟩⟩

/-- What may fail for one cause only is there for all, or fails for that cause. -/
theorem mapM_ite {α β : Type} (p : α → Bool) (f : α → β) (cause : Fault) (xs : List α) :
    (xs.mapM fun x => if p x then Except.ok (f x) else .error cause)
      = if xs.all p then .ok (xs.map f) else .error cause := by
  induction xs with
  | nil => rfl
  | cons x rest ih =>
    rw [List.mapM_cons, ih, List.all_cons, List.map_cons]
    cases p x with
    | false => rfl
    | true => cases rest.all p <;> rfl

/-- What holds of the tasks of every day holds of all tasks with a day in the range. -/
theorem all_tasksOn (p : Task → Bool) (tasks : List Task) :
    ((days attr range tasks).all fun d => (tasksOn attr d tasks).all p)
      = (dated attr range tasks).all p := by
  rw [Bool.eq_iff_iff]
  simp only [List.all_eq_true, mem_days, tasksOn, dated, List.mem_filter, decide_eq_true_eq,
    Option.any_eq_true]
  constructor
  · rintro h t ⟨ht, d, hd, hwithin⟩
    exact h d ⟨hwithin, t, ht, hd⟩ t ⟨ht, hd⟩
  · rintro h d ⟨hwithin, -⟩ t ⟨ht, hd⟩
    exact h t ⟨ht, d, hd, hwithin⟩

theorem takes_dated (m : Metric) (tasks : List Task) :
    ((days attr range tasks).all fun d => m.takes (tasksOn attr d tasks))
      = m.takes (dated attr range tasks) := by
  unfold Metric.takes
  cases m.countsOnly with
  | true => exact List.all_eq_true.mpr fun _ _ => rfl
  | false => exact all_tasksOn attr range _ tasks

variable (axisTitle : String)

/-- The line of a metric over the days of some tasks. -/
def lineChart (m : Metric) (tasks : List Task) : LineChart :=
  lineOf attr m.name axisTitle (days attr range tasks) fun d => m.valueOf (tasksOn attr d tasks)

/-- **A line in terms of its days.** -/
theorem line_eq (m : Metric) (tasks : List Task) :
    line attr range axisTitle (some m) tasks = if m.takes (dated attr range tasks)
      then ofChart (.line (lineChart attr range axisTitle m tasks)) []
      else .error .numberTooLarge := by
  have hpoints : ((days attr range tasks).mapM fun d =>
      (m.evaluate (tasksOn attr d tasks)).map fun x => (⟨d.shortText, .real x⟩ : Point))
      = if m.takes (dated attr range tasks)
        then .ok (lineChart attr range axisTitle m tasks).points else .error .numberTooLarge := by
    rw [← takes_dated, lineChart, lineOf, ← mapM_ite]
    congr 1
    funext d
    rw [Metric.evaluate_eq]
    split <;> rfl
  rw [line, byDate_eq, List.mapM_map]
  change ((days attr range tasks).mapM fun d =>
    (m.evaluate (tasksOn attr d tasks)).map fun x => (⟨d.shortText, .real x⟩ : Point)) >>= _ = _
  rw [hpoints]
  split <;> rfl

/-- The line of the counts of tasks. -/
def countChart (tasks : List Task) : LineChart :=
  lineOf attr "Tasks" axisTitle (days attr range tasks) fun d =>
    Metric.countOf (tasksOn attr d tasks)

/-- Without a metric the tasks are counted. -/
theorem line_none (tasks : List Task) : line attr range axisTitle none tasks
    = ofChart (.line (countChart attr range axisTitle tasks)) [] := by
  have hvalues : lineChart attr range axisTitle {} tasks = countChart attr range axisTitle tasks :=
    congrArg (lineOf attr "Tasks" axisTitle (days attr range tasks)) <| funext fun d =>
      Metric.valueOf_of_countsOnly rfl (tasksOn attr d tasks)
  rw [← hvalues]
  exact line_eq attr range axisTitle {} tasks

/-- The texts of days from the year 1000 on rise with the days. -/
theorem IsSeries.rising_texts {attr : String} {range : Option DateRange} {tasks : List Task}
    {ds : List Date} (h : IsSeries attr range tasks ds) (hyears : ∀ d ∈ ds, 1000 ≤ d.year) :
    (ds.map Date.shortText).Pairwise (· < ·) :=
  List.pairwise_map.mpr <| h.rising.imp_of_mem fun hd he hlt =>
    (Date.shortText_lt_iff (hyears _ hd) (hyears _ he)).mpr hlt

/-- There is a line of counts that are far within the doubles. -/
theorem exists_line_none {tasks : List Task} (h : tasks.length ≤ 2 ^ (1000 : Nat)) :
    ∃ r, line attr range axisTitle none tasks = .ok r := by
  rw [line_none]
  have hvalues : ∀ p ∈ (countChart attr range axisTitle tasks).points, p.value.IsMeasure := by
    intro p hp
    obtain ⟨d, -, rfl⟩ := List.mem_map.mp hp
    exact Metric.isFinite_countOf (Nat.le_trans (List.length_filter_le _ _) h)
  exact exists_ofChart_of_isMeasured (c := .line _)
    ⟨⟨_, rfl⟩, ⟨_, rfl⟩, fun p hp => (hvalues p hp).isNumber⟩ hvalues []

/-- Tasks with one day in two forms, with a later one, with none and with one that is too late. -/
def dueTasks : List Task :=
  [⟨"a", [("due", .text "2024-05-02"), ("effort", .int 2)], "", none⟩,
    ⟨"b", [("due", .text "2024-05-01T23:30:00+05:00"), ("effort", .text "0.5")], "", none⟩,
    ⟨"c", [("due", .text "May 2, 2024"), ("effort", .text "much")], "", none⟩,
    ⟨"d", [("due", .text "soon")], "", none⟩, ⟨"e", [("due", .text "2024-06-01")], "", none⟩]

/-- The effort of tasks, added up. -/
def effort : Metric := ⟨"Effort", .sum, "effort"⟩

/-- The days before June 2024. -/
def beforeJune : DateRange := ⟨"", none, some ⟨2024, 5, 31, by decide⟩⟩

end Report

end Taskboard
