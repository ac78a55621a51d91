import Taskboard.Proofs.Analysis.Lanes
import Taskboard.Proofs.Analysis.TimeSeries
import Taskboard.Proofs.Chart.Points
import Taskboard.Proofs.Chart.Scheduled

/-!
# Proofs/Analysis/Rereading — the days of a report, read from its chart

A report writes days as short texts, and its chart reads them again: a line to sort its points, a
schedule to draw its bars.  What is read is known for every day (`Date.reread`), and it is that day
exactly if its year has three digits or more.

* `Value.IsReread` — what a chart makes of a written day.
* `Point.isLE_order_iff_reread` — the points of a line stand as the days read.
* `Report.written_days_are_reread` — **the days of lines and schedules, written and read.**
-/

namespace Taskboard

-- powers and sums are those of the naturals, also where an importing module knows other ones
attribute [local instance (high)] instPowNat Zero.ofOfNat0

/-! ## Days as texts -/

/-- **A day that a report writes**, and what its chart reads. -/
structure Value.IsReread (v : Value) (d : Date) : Prop where
  text : v = .text d.shortText
  day : v.day? = d.reread
  /-- That is the day that was written if its year has three digits. -/
  same : v.day? = some d ↔ 100 ≤ d.year
  /-- The instant is the midnight of what is read. -/
  ms : v.epochMs? = .ok (d.reread.map Date.midnightMs)

theorem Value.moment?_shortText (d : Date) :
    (Value.text d.shortText).moment? = d.reread.map fun e => .midnight e (some 0) :=
  Moment.ofText?_shortText_eq d

theorem Value.day?_eq_reread (d : Date) : (Value.text d.shortText).day? = d.reread := by
  rw [day?, moment?_shortText, Option.map_map]
  cases d.reread <;> rfl

/-- **What a chart makes of the short text of a day.** -/
theorem Value.isReread_shortText (d : Date) : (Value.text d.shortText).IsReread d where
  text := rfl
  day := day?_eq_reread d
  same := by rw [day?_eq_reread, Date.reread_eq_self_iff]
  ms := by
    have hmoment := moment?_shortText d
    cases hread : d.reread with
    | none =>
      rw [hread, Option.map_none] at hmoment
      simp only [epochMs?, hmoment, Option.map_none]
    | some e =>
      rw [hread, Option.map_some] at hmoment
      exact epochMs?_text_of_moment hmoment (Moment.epochMs_midnight e)

/-! ## Points at midnights -/

namespace Moment

theorem micros_midnight (d : Date) : (midnight d (some 0)).micros = days d * 86400 * 1000000 := by
  simp only [micros, midnight, dayMicros, days, Option.getD_some]
  omega

/-- The place of a midnight on a clock. -/
theorem ratioPlace_midnight (d : Date) : Binary64.ratioPlace (midnight d (some 0)).micros 1000000
    = days d * 86400 * unitsPerOne := by
  have hplace := Binary64.place?_ofRatio (days d * 86400 * (1000000 : Nat)) 1000000
  rw [Binary64.ofRatio_whole (natAbs_daySeconds_lt d) (by decide), Binary64.place?,
    Binary64.signedUnits_whole] at hplace
  rw [micros_midnight]
  exact (Option.some.inj hplace).symm

end Moment

/-- **The order of days that were read**: those that are none come last. -/
def Date.noLater : Option Date → Option Date → Bool
  | some a, some b => a.le b
  | none, some _ => false
  | _, none => true

namespace Point

variable {p q : Point} {d e : Date}

/-- The instant of a point with the short text of a day. -/
theorem instant?_of_date (h : p.date = d.shortText) : p.instant?
    = d.reread.map fun e => (Moment.midnight e (some 0)).micros := by
  rw [instant?, moment?, h, Value.moment?_shortText, Option.map_map]
  rfl

/-- **Points with short texts stand as the days that they are read as.** -/
theorem isLE_order_iff_reread (hp : p.date = d.shortText) (hq : q.date = e.shortText) :
    (order p q).isLE = Date.noLater d.reread e.reread := by
  have horder : order p q = (compare p.instant?.isNone q.instant?.isNone).then
      (compare (p.clock?.getD 0) (q.clock?.getD 0)) := rfl
  have hpi := instant?_of_date hp
  have hqi := instant?_of_date hq
  cases hd : d.reread with
  | none =>
    rw [hd, Option.map_none] at hpi
    cases he : e.reread with
    | none =>
      rw [he, Option.map_none] at hqi
      rw [horder, clock?, clock?, hpi, hqi]
      rfl
    | some b =>
      rw [he, Option.map_some] at hqi
      rw [horder, hpi, hqi]
      rfl
  | some a =>
    rw [hd, Option.map_some] at hpi
    cases he : e.reread with
    | none =>
      rw [he, Option.map_none] at hqi
      rw [horder, hpi, hqi]
      rfl
    | some b =>
      rw [he, Option.map_some] at hqi
      have hpos : (0 : Int) < unitsPerOne := Int.natCast_pos.mpr unitsPerOne_pos
      rw [Bool.eq_iff_iff, isLE_order_iff hpi hqi, Moment.ratioPlace_midnight,
        Moment.ratioPlace_midnight, Int.mul_le_mul_right hpos, Date.noLater, Date.le,
        decide_eq_true_iff, Moment.days, Moment.days]
      omega

end Point

namespace LineChart

variable {c : LineChart} {ds : List Date}

theorem exists_date_of_mem (hdates : c.points.map Point.date = ds.map Date.shortText) {p : Point}
    (hp : p ∈ c.points) : ∃ d ∈ ds, p.date = d.shortText := by
  obtain ⟨d, hd, heq⟩ := List.mem_map.mp (hdates ▸ List.mem_map_of_mem (f := Point.date) hp)
  exact ⟨d, hd, heq.symm⟩

/-- Points with short texts have an order. -/
theorem exists_ordered_of_dates (hdates : c.points.map Point.date = ds.map Date.shortText) :
    ∃ ps, c.ordered = .ok ps := by
  refine exists_ordered_iff.mpr fun p hp => ?_
  obtain ⟨d, -, hd⟩ := exists_date_of_mem hdates hp
  rw [hd]
  exact (Value.epochMs?_eq_ok.mp (Value.isReread_shortText d).ms).1

/-- **Sorting a line again leaves it as it is** exactly if the days that it is read as stand in
order. -/
theorem ordered_eq_self_iff (hdates : c.points.map Point.date = ds.map Date.shortText) :
    c.ordered = .ok c.points ↔
      (ds.map Date.reread).Pairwise fun a b => Date.noLater a b = true := by
  have hreread : ds.map Date.reread = c.points.map fun p => (Value.text p.date).day? := by
    have htexts := congrArg (List.map fun s => (Value.text s).day?) hdates
    rw [List.map_map, List.map_map] at htexts
    rw [Function.comp_def, Function.comp_def] at htexts
    rw [htexts]
    exact List.map_congr_left fun d _ => (Value.day?_eq_reread d).symm
  have horder : (c.points.Pairwise fun p q => (Point.order p q).isLE = true) ↔
      c.points.Pairwise fun p q =>
        Date.noLater (Value.text p.date).day? (Value.text q.date).day? = true := by
    refine List.Pairwise.iff_of_mem fun {p q} hp hq => ?_
    obtain ⟨d, -, hd⟩ := exists_date_of_mem hdates hp
    obtain ⟨e, -, he⟩ := exists_date_of_mem hdates hq
    rw [Point.isLE_order_iff_reread hd he, hd, he, Value.day?_eq_reread, Value.day?_eq_reread]
  rw [hreread, List.pairwise_map, ← horder]
  constructor
  · exact pairwise_of_ordered
  · intro hsorted
    obtain ⟨ps, hps⟩ := exists_ordered_of_dates hdates
    rw [hps, ordered_eq_ok hps, List.mergeSort_of_pairwise hsorted]

end LineChart

namespace Report

/-! ## Lines -/

/-- Days in order that are all read back are read in order. -/
theorem IsSeries.noLater {attr : String} {range : Option DateRange} {tasks : List Task}
    {ds : List Date} (h : IsSeries attr range tasks ds) (hyears : ∀ d ∈ ds, 100 ≤ d.year) :
    (ds.map Date.reread).Pairwise fun a b => Date.noLater a b = true := by
  refine List.pairwise_map.mpr (h.rising.imp_of_mem fun hd he hlt => ?_)
  rw [Date.reread_of_le (hyears _ hd), Date.reread_of_le (hyears _ he)]
  exact decide_eq_true (Nat.le_of_lt (of_decide_eq_true hlt))

/-- The points of a line are the days of its tasks, as texts. -/
theorem exists_points_of_line {attr axisTitle : String} {range : Option DateRange}
    {metric : Option Metric} {tasks : List Task} {r : Report}
    (h : line attr range axisTitle metric tasks = .ok r) : ∃ c : LineChart, r.chart = .line c ∧
      c.points.map Point.date = (days attr range tasks).map Date.shortText := by
  have hdates (name : String) (value : Date → Binary64) :
      (lineOf attr name axisTitle (days attr range tasks) value).points.map Point.date
        = (days attr range tasks).map Date.shortText := List.map_map
  cases metric with
  | none =>
    rw [line_none] at h
    obtain ⟨diagram, -, rfl⟩ := map_eq_ok.mp h
    exact ⟨_, rfl, hdates _ _⟩
  | some m =>
    rw [line_eq] at h
    split at h
    next =>
      obtain ⟨diagram, -, rfl⟩ := map_eq_ok.mp h
      exact ⟨_, rfl, hdates _ _⟩
    next => cases h

/-! ## Schedules -/

/-- Tasks with both days have these. -/
theorem spans_of_mem_withDays {keys : ChartKeys} {tasks : List Task} {s : Scheduled}
    (h : s ∈ withDays keys tasks) : s.task ∈ tasks ∧ s.task.Spans keys s.start s.finish := by
  obtain ⟨t, ht, hs⟩ := List.mem_filterMap.mp h
  split at hs
  next a b ha hb =>
    obtain rfl := Option.some.inj hs
    exact ⟨ht, ha, hb⟩
  next => cases hs

theorem mem_of_mem_keep {keys : ChartKeys} {range : Option DateRange} {tasks : List Task} {t : Task}
    (h : t ∈ DateRange.keep keys range tasks) : t ∈ tasks := by
  cases range with
  | none => exact h
  | some r =>
    rw [DateRange.keep] at h
    split at h
    next => exact List.mem_of_mem_filter h
    next => exact h

/-- **The days that reports write, as their charts read them.**  The short text of a day is read as
that day exactly if its year has three digits or more; else it is read as what `Date.reread` says.
The points of a line have the days of its tasks, and sorting them again leaves them as they are
exactly if the days read stand in order, as they do if all are read back.  The stretches of a
schedule have the days of its tasks as well. -/
theorem written_days_are_reread (attr axisTitle : String) (metric : Option Metric)
    (keys : ChartKeys) (heading : Heading) (laneAttr : Option String) (range : Option DateRange)
    (tasks : List Task) :
    (∀ d : Date, (Value.text d.shortText).IsReread d) ∧
    (∀ r, line attr range axisTitle metric tasks = .ok r → ∃ c ds, r.chart = .line c ∧
      IsSeries attr range tasks ds ∧ c.points.map Point.date = ds.map Date.shortText ∧
      (c.ordered = .ok c.points ↔
        (ds.map Date.reread).Pairwise fun a b => Date.noLater a b = true) ∧
      ((∀ d ∈ ds, 100 ≤ d.year) → c.ordered = .ok c.points)) ∧
    ∀ r, gantt keys heading laneAttr range tasks = .ok r → ∃ g : GanttChart, r.chart = .gantt g ∧
      ∀ l ∈ g.lanes, ∀ s ∈ l.stretches, ∃ t ∈ tasks, ∃ a b, t.Spans keys a b ∧
        s.id = .text t.id ∧ s.start.IsReread a ∧ s.finish.IsReread b := by
  refine ⟨Value.isReread_shortText, fun r hr => ?_, fun r hr => ?_⟩
  · obtain ⟨c, hchart, hdates⟩ := exists_points_of_line hr
    have hseries := isSeries_days attr range tasks
    exact ⟨c, _, hchart, hseries, hdates, c.ordered_eq_self_iff hdates,
      fun hyears => (c.ordered_eq_self_iff hdates).mpr (hseries.noLater hyears)⟩
  · obtain ⟨lanes, hlanes, hr⟩ := do_eq_ok.mp hr
    obtain ⟨filled, hfilled, rfl⟩ := map_eq_ok.mp hlanes
    obtain ⟨diagram, -, rfl⟩ := map_eq_ok.mp hr
    have hfills := Fills.nil.append hfilled
    rw [List.nil_append] at hfills
    refine ⟨_, rfl, fun l hl b hb => ?_⟩
    obtain ⟨e, he, rfl⟩ := List.mem_map.mp hl
    obtain ⟨s, hs, hstretch⟩ := hfills.exists_task he b hb
    obtain ⟨ht, hspans⟩ :=
      spans_of_mem_withDays ((inOrder_scheduled keys _).perm.mem_iff.mp hs)
    have hof := isOf_of_stretchOf hstretch
    exact ⟨s.task, mem_of_mem_keep ht, s.start, s.finish, hspans, hof.id,
      hof.start ▸ Value.isReread_shortText s.start, hof.finish ▸ Value.isReread_shortText s.finish⟩

/-- The line of starts in May 2024 and the schedule of a weekend have the days of the tasks. -/
theorem weekend_is_reread : (∃ r c, line "start_date" none "" none dueStretches = .ok r ∧
      r.chart = .line c ∧ c.ordered = .ok c.points) ∧
    ∃ r g, gantt {} {} none none [weekend] = .ok r ∧ r.chart = .gantt g ∧
      ∀ l ∈ g.lanes, ∀ s ∈ l.stretches, s.start.day? = some ⟨2024, 3, 1, by decide⟩ := by
  obtain ⟨-, hline, -⟩ := written_days_are_reread "start_date" "" none {} {} none none dueStretches
  obtain ⟨-, -, hgantt⟩ := written_days_are_reread "" "" none {} {} none none [weekend]
  have hyears : ∀ d ∈ days "start_date" none dueStretches, 100 ≤ d.year := by decide +kernel
  obtain ⟨r, hr⟩ : ∃ r, line "start_date" none "" none dueStretches = .ok r :=
    exists_line_none "start_date" none "" (by decide +kernel)
  obtain ⟨c, ds, hchart, hseries, -, -, hkept⟩ := hline r hr
  obtain ⟨r', -, -, hr', -⟩ := exists_gantt_of_spans {} (hasCaptions_plainTask _ _ _) spans_weekend
  obtain ⟨g, hlanes, hstretches⟩ := hgantt r' hr'
  refine ⟨⟨r, c, hr, hchart, hkept fun d hd => ?_⟩, r', g, hr', hlanes, fun l hl s hs => ?_⟩
  · exact hyears d ((mem_days "start_date" none).mpr ((hseries.mem_iff d).mp hd))
  · obtain ⟨t, ht, a, b, hspans, -, hstart, -⟩ := hstretches l hl s hs
    obtain rfl := List.mem_singleton.mp ht
    obtain ⟨rfl, -⟩ := spans_weekend.unique hspans
    exact hstart.same.mpr (by decide)

/-- One task begins in the year 50, another one in 2024. -/
def farApart : List Task :=
  [⟨"a", [("start_date", .date ⟨50, 1, 2, by decide⟩)], "", none⟩,
    ⟨"b", [("start_date", .text "2024-05-02")], "", none⟩]

/-- **The year 50 is written with two digits and read as 2050**, so a line that begins in it is put
into another order. -/
theorem early_year_is_misread :
    (Value.text (⟨50, 1, 2, by decide⟩ : Date).shortText).day? = some ⟨2050, 1, 2, by decide⟩ ∧
    ∃ r c, line "start_date" none "" none farApart = .ok r ∧ r.chart = .line c ∧
      c.ordered ≠ .ok c.points := by
  obtain ⟨r, hr⟩ : ∃ r, line "start_date" none "" none farApart = .ok r :=
    exists_line_none "start_date" none "" (by decide +kernel)
  obtain ⟨c, hchart, hdates⟩ := exists_points_of_line hr
  have hswapped : ¬ ((days "start_date" none farApart).map Date.reread).Pairwise
      fun a b => Date.noLater a b = true := by decide +kernel
  exact ⟨Value.day?_eq_reread _, r, c, hr, hchart, mt (c.ordered_eq_self_iff hdates).mp hswapped⟩

end Report

end Taskboard
