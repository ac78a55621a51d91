import Taskboard.Analysis.Report
import Taskboard.Proofs.Calendar.Midnight
import Taskboard.Proofs.Calendar.ShortText
import Taskboard.Proofs.Chart.Safety
import Taskboard.Proofs.Value.Printing

/-!
# Proofs/Chart/Bars — the bar of one task

A chart reads two days off a task and writes them as texts, from which the renderer reads instants
again. A text of a day names its midnight, so the bar of a task lasts from midnight to midnight, and
there is one exactly if the days are in order.

* `Report.exists_stretchOf_iff`, `Report.isOf_of_stretchOf` — when a task has a stretch, and that it
  is its own.
* `Report.exists_gantt_of_spans` — the lane and the stretch of one task.
* `Bar.exists_ofStretch?`, `Bar.ofStretch?_eq_none` — whether a stretch has a bar.
* `Bar.isTraceOf_of_trace` — the trace of a bar stands at its id.
-/

namespace Taskboard

open Figure Json

/-! ## Days as texts -/

namespace Value

theorem epochMs?_text_of_moment {s : String} {m : Moment} {ms : Int}
    (hm : Moment.ofText? s = some m) (hms : m.epochMs = .ok ms) :
    (Value.text s).epochMs? = .ok (some ms) := by
  have hmoment : (Value.text s).moment? = some m := hm
  simp only [epochMs?, hmoment]
  exact map_eq_ok.mpr ⟨ms, hms, rfl⟩

/-- **The short text of a day names its midnight.** -/
theorem epochMs?_shortText {d : Date} (h : 100 ≤ d.year) :
    (Value.text d.shortText).epochMs? = .ok (some d.midnightMs) :=
  epochMs?_text_of_moment (Moment.ofText?_shortText h) (Moment.epochMs_midnight d)

end Value

/-! ## The lanes of one task -/

namespace Value

/-- A text or nothing. -/
def IsOptionalText (v : Value) : Prop := v = .null ∨ ∃ s, v = .text s

theorem IsOptionalText.getD_map (s : Option String) :
    IsOptionalText ((s.map Value.text).getD .null) := by
  cases s with
  | none => exact .inl rfl
  | some s => exact .inr ⟨s, rfl⟩

theorem IsOptionalText.asText {v : Value} (h : IsOptionalText v) (htrue : v.isTrue = true) :
    ∃ s, v.asText = .ok s := by
  rcases h with rfl | ⟨s, rfl⟩
  · cases htrue
  · exact ⟨s, rfl⟩

theorem IsOptionalText.orElse {v : Value} (h : IsOptionalText v) (s : String) :
    ∃ t, v.orElse (.text s) = .text t := by
  rcases h with rfl | ⟨t, rfl⟩
  · exact ⟨s, rfl⟩
  · rw [Value.orElse]
    split
    · exact ⟨t, rfl⟩
    · exact ⟨s, rfl⟩

end Value

/-- A stretch of the task with an id from day to day, all of whose other fields are texts. -/
structure Stretch.IsOf (s : Stretch) (id : String) (a b : Date) : Prop where
  id : s.id = .text id
  title : ∃ t, s.title = .text t
  start : s.start = .text a.shortText
  finish : s.finish = .text b.shortText
  status : s.status.IsOptionalText
  needs : s.needs.IsOptionalText

/-- There is a line in a diagram for the stretch of a task. -/
theorem Stretch.IsOf.exists_line {s : Stretch} {id : String} {a b : Date} (h : s.IsOf id a b) :
    ∃ line, s.line = .ok line := by
  obtain ⟨title, htitle⟩ := h.title
  rw [Stretch.line, htitle, h.start, h.finish]
  split
  next hneeds =>
    obtain ⟨anchor, hanchor⟩ := h.needs.asText hneeds
    rw [anchorText, hanchor]
    exact ⟨_, rfl⟩
  next => exact ⟨_, rfl⟩

/-- The texts that a chart shows of a task exist. -/
structure Task.HasCaptions (keys : ChartKeys) (t : Task) : Prop where
  title : keys.title ≠ "" → ∃ s, (t.get keys.title).caption = .ok s
  status : ∃ s, (t.get keys.statusKey).caption = .ok s

/-- The days that a chart reads off a task. -/
structure Task.Spans (keys : ChartKeys) (t : Task) (a b : Date) : Prop where
  start : (t.get keys.startKey).day? = some a
  finish : (t.get keys.finishKey).day? = some b

theorem Task.Spans.unique {keys : ChartKeys} {t : Task} {a b c d : Date} (h : t.Spans keys a b)
    (h' : t.Spans keys c d) : c = a ∧ d = b :=
  ⟨Option.some.inj (h'.start.symm.trans h.start), Option.some.inj (h'.finish.symm.trans h.finish)⟩

namespace Report

variable {keys : ChartKeys} {t : Task} {a b : Date}

/-- A task has a lane if its value has a text, or if there is a single lane. -/
theorem exists_laneOf_iff {attr : String} :
    (∃ lane, laneOf attr t = .ok lane) ↔ (attr ≠ "" → ∃ s, (t.get attr).caption = .ok s) := by
  unfold laneOf
  split
  next hnone => exact iff_of_true ⟨_, rfl⟩ fun h => absurd hnone h
  next hsome =>
    rw [imp_iff_right hsome]
    split
    next hnull => exact iff_of_true ⟨_, rfl⟩ (hnull ▸ ⟨_, rfl⟩)
    next => rfl

/-- The title of a task's stretch. -/
def titleOf (keys : ChartKeys) (t : Task) : Except Fault String :=
  let given := if keys.title = "" then .null else t.get keys.title
  if given.isTrue then given.caption else .ok t.displayName

/-- The status of a task's stretch. -/
def statusOf (keys : ChartKeys) (t : Task) : Except Fault Value :=
  match t.get keys.statusKey with
  | .null => .ok .null
  | v => v.caption.map .text

theorem stretchOf_eq (keys : ChartKeys) (s : Scheduled) : stretchOf keys s =
    (titleOf keys s.task).bind fun title => (statusOf keys s.task).bind fun status =>
      .ok ⟨.text s.task.id, .text title, .text s.start.shortText, .text s.finish.shortText, status,
        ((s.task.dependencyIds keys.needsKey).head?.map Value.text).getD .null⟩ := by
  unfold stretchOf titleOf statusOf
  dsimp only
  generalize (if keys.title = "" then Value.null else s.task.get keys.title) = given
  generalize s.task.get keys.statusKey = v
  split
  · refine congrArg (Except.bind _) (funext fun title => ?_)
    cases v <;> rfl
  · refine congrArg (Except.bind _) (funext fun title => ?_)
    cases v <;> rfl

theorem exists_titleOf_iff : (∃ title, titleOf keys t = .ok title) ↔
    (keys.title ≠ "" → (t.get keys.title).isTrue = true →
      ∃ c, (t.get keys.title).caption = .ok c) := by
  unfold titleOf
  by_cases hkey : keys.title = ""
  · rw [if_pos hkey]
    exact iff_of_true ⟨t.displayName, rfl⟩ fun h => absurd hkey h
  · rw [if_neg hkey, imp_iff_right hkey]
    dsimp only
    split
    next htrue => rw [imp_iff_right htrue]
    next hfalse => exact iff_of_true ⟨_, rfl⟩ fun h => absurd h hfalse

theorem exists_statusOf_iff : (∃ status, statusOf keys t = .ok status) ↔
    ∃ c, (t.get keys.statusKey).caption = .ok c := by
  unfold statusOf
  split
  next hnull => exact iff_of_true ⟨_, rfl⟩ (hnull ▸ ⟨_, rfl⟩)
  next => exact exists_map_eq_ok

/-- **A task has a stretch exactly if** its title and its status exist. -/
theorem exists_stretchOf_iff {s : Scheduled} : (∃ b, stretchOf keys s = .ok b) ↔
    (∃ title, titleOf keys s.task = .ok title) ∧ ∃ status, statusOf keys s.task = .ok status := by
  rw [stretchOf_eq]
  exact exists_bind_eq_ok fun title =>
    (exists_bind_eq_ok fun status => iff_of_true ⟨_, rfl⟩ trivial).trans
      (and_iff_left trivial)

/-- The stretch of a task is one of its own, with its days. -/
theorem isOf_of_stretchOf {s : Scheduled} {b : Stretch} (h : stretchOf keys s = .ok b) :
    b.IsOf s.task.id s.start s.finish := by
  rw [stretchOf_eq] at h
  obtain ⟨title, -, h⟩ := bind_eq_ok.mp h
  obtain ⟨status, hstatus, h⟩ := bind_eq_ok.mp h
  obtain rfl := Except.ok.inj h
  refine ⟨rfl, ⟨title, rfl⟩, rfl, rfl, ?_, .getD_map _⟩
  unfold statusOf at hstatus
  split at hstatus
  · exact .inl (Except.ok.inj hstatus).symm
  · obtain ⟨c, -, rfl⟩ := map_eq_ok.mp hstatus
    exact .inr ⟨c, rfl⟩

theorem exists_laneOf (h : t.HasCaptions keys) : ∃ lane, laneOf keys.statusKey t = .ok lane :=
  exists_laneOf_iff.mpr fun _ => h.status

theorem exists_stretchOf (h : t.HasCaptions keys) (a b : Date) :
    ∃ s, stretchOf keys ⟨t, a, b⟩ = .ok s ∧ s.IsOf t.id a b := by
  obtain ⟨s, hs⟩ := (exists_stretchOf_iff (s := ⟨t, a, b⟩)).mpr
    ⟨exists_titleOf_iff.mpr fun hkey _ => h.title hkey, exists_statusOf_iff.mpr h.status⟩
  exact ⟨s, hs, isOf_of_stretchOf hs⟩

theorem scheduled_of_spans (h : t.Spans keys a b) : scheduled keys [t] = [⟨t, a, b⟩] := by
  simp [scheduled, withDays, h.start, h.finish]

theorem scheduled_of_not_spans (h : ¬ ∃ a b, t.Spans keys a b) : scheduled keys [t] = [] := by
  have hnone : withDays keys [t] = [] := by
    cases ha : (t.get keys.startKey).day? with
    | none => simp [withDays, ha]
    | some a =>
      cases hb : (t.get keys.finishKey).day? with
      | none => simp [withDays, ha, hb]
      | some b => exact absurd ⟨a, b, ha, hb⟩ h
  rw [scheduled, hnone, List.mergeSort_nil]

/-- There is a report of lanes that have lines. -/
theorem exists_ofChart {title dateFormat : String} {lanes : List Lane} {lines : List (List String)}
    (h : lanes.mapM Lane.lines = .ok lines) (warnings : List String) :
    ∃ report, ofChart (.gantt ⟨.text title, .text dateFormat, lanes⟩) warnings = .ok report ∧
      report.chart = .gantt ⟨.text title, .text dateFormat, lanes⟩ := by
  have hdrawn : (⟨.text title, .text dateFormat, lanes⟩ : GanttChart).lines = .ok _ :=
    do_eq_ok.mpr ⟨dateFormat, rfl, do_eq_ok.mpr ⟨title, rfl, do_eq_ok.mpr ⟨lines, h, rfl⟩⟩⟩
  exact ⟨_, map_eq_ok.mpr ⟨_, map_eq_ok.mpr ⟨_, hdrawn, rfl⟩, rfl⟩, rfl⟩

/-- **A task with two days has one lane with one stretch.** -/
theorem exists_gantt_of_spans (heading : Heading) (h : t.HasCaptions keys)
    (hspans : t.Spans keys a b) :
    ∃ report lane s, gantt keys heading none none [t] = .ok report ∧ s.IsOf t.id a b ∧
      report.chart = .gantt ⟨.text heading.title, .text heading.dateFormat,
        [⟨.text lane, [s]⟩]⟩ := by
  obtain ⟨lane, hlane⟩ := exists_laneOf h
  obtain ⟨s, hs, hof⟩ := exists_stretchOf h a b
  obtain ⟨line, hline⟩ := hof.exists_line
  have hlines : [(⟨.text lane, [s]⟩ : Lane)].mapM Lane.lines
      = .ok [[("    section " ++ lane), line]] := by
    simp only [List.mapM_cons, List.mapM_nil, Lane.lines, hline]
    rfl
  obtain ⟨report, hreport, hchart⟩ := exists_ofChart hlines (cycleWarnings keys [t])
  refine ⟨report, lane, s, ?_, hof, hchart⟩
  rw [gantt, DateRange.keep, scheduled_of_spans hspans, Option.getD_none]
  refine do_eq_ok.mpr ⟨_, map_eq_ok.mpr ⟨[(lane, [s])], ?_, rfl⟩, hreport⟩
  exact do_eq_ok.mpr ⟨lane, hlane, do_eq_ok.mpr ⟨s, hs, rfl⟩⟩

/-- A task without two days has no lane. -/
theorem exists_gantt_of_not_spans (heading : Heading) (h : ¬ ∃ a b, t.Spans keys a b) :
    ∃ report, gantt keys heading none none [t] = .ok report ∧
      report.chart = .gantt ⟨.text heading.title, .text heading.dateFormat, []⟩ := by
  obtain ⟨report, hreport, hchart⟩ := @exists_ofChart _ _ [] _ rfl (cycleWarnings keys [t])
  refine ⟨report, ?_, hchart⟩
  rw [gantt, DateRange.keep, scheduled_of_not_spans h]
  exact do_eq_ok.mpr ⟨[], rfl, hreport⟩

end Report

/-! ## The bars of one stretch -/

/-- A bar of the task with an id from day to day, whose title and lane are texts. -/
structure Bar.IsOf (b : Bar) (id : String) (first last : Date) : Prop where
  id : b.id = .text id
  title : ∃ t, b.title = .text t
  start : b.start = first.midnightMs
  finish : b.finish = last.midnightMs
  lane : ∃ t, b.lane = .text t

variable {id lane : String} {s : Stretch} {a b : Date}

/-- **A stretch has a bar if its days are in order.** -/
theorem Bar.exists_ofStretch? (h : s.IsOf id a b) (ha : 100 ≤ a.year) (hb : 100 ≤ b.year)
    (hlt : a.lt b = true) :
    ∃ bar, Bar.ofStretch? (.text lane) s = .ok (some bar) ∧ bar.IsOf id a b := by
  obtain ⟨status, hstatus⟩ := h.status.orElse Palette.unknown
  have hms : a.midnightMs < b.midnightMs := Date.midnightMs_lt.mpr hlt
  refine ⟨⟨s.id, s.title, a.midnightMs, b.midnightMs, hms, lowerText status, .text lane⟩, ?_,
    h.id, h.title, rfl, rfl, lane, rfl⟩
  rw [Bar.ofStretch?, h.start, h.finish, Value.epochMs?_shortText ha, Value.epochMs?_shortText hb]
  refine (dif_pos hms).trans ?_
  rw [hstatus]
  rfl

/-- Else it has none. -/
theorem Bar.ofStretch?_eq_none (h : s.IsOf id a b) (ha : 100 ≤ a.year) (hb : 100 ≤ b.year)
    (hlt : a.lt b ≠ true) : Bar.ofStretch? (.text lane) s = .ok none := by
  have hms : ¬ a.midnightMs < b.midnightMs := mt Date.midnightMs_lt.mp hlt
  rw [Bar.ofStretch?, h.start, h.finish, Value.epochMs?_shortText ha, Value.epochMs?_shortText hb]
  exact dif_neg hms

theorem GanttChart.bars_of_stretch {title dateFormat : Value} {bar : Option Bar}
    (h : Bar.ofStretch? (.text lane) s = .ok bar) :
    (⟨title, dateFormat, [⟨.text lane, [s]⟩]⟩ : GanttChart).bars = .ok bar.toList := by
  simp only [GanttChart.bars, List.mapM_cons, List.mapM_nil, h]
  cases bar <;> rfl

/-! ## The figure of one bar -/

namespace Figure

/-- **A plain figure has a trace for an id**: one that stands at the id from end to end. -/
def Draws (id : String) (w : Value) : Prop :=
  ∃ traces, w.field? "data" = .ok (some (.list traces)) ∧
    ∃ v ∈ traces, v.field? "y" = .ok (some (.list [.text id, .text id]))

theorem draws_framed {traces : List Value} {layout : Value} :
    Draws id (framed traces layout) ↔
      ∃ v ∈ traces, v.field? "y" = .ok (some (.list [.text id, .text id])) := by
  have hdata : (framed traces layout).field? "data" = .ok (some (.list traces)) := by
    simp [framed, Value.field?, Value.lookup?]
  simp only [Draws, hdata, Except.ok.injEq, Option.some.injEq, Value.list.injEq, exists_eq_left']

/-- A figure of plain parts has a plain form with the plain forms of its traces. -/
theorem sanitize_make_of_isPlain {traces : List Value} {fields : List (String × Value)}
    (htraces : ∀ v ∈ traces, IsPlain isoDates v) (hfields : ∀ e ∈ fields, IsPlain isoDates e.2) :
    sanitize (make traces fields)
      = .ok (framed (strictAll traces) (strict (.object fields))) := by
  have hplain : IsPlain isoDates (make traces fields) := by
    simp only [make, isPlain_object, List.forall_mem_cons, isPlain_list]
    exact ⟨htraces, hfields, by simp⟩
  exact map_eq_ok.mpr ⟨_, hplain, rfl⟩

/-- A trace that stands at an id, as it leaves. -/
structure IsTraceOf (id : String) (v : Value) : Prop where
  plain : IsPlain isoDates v
  place : (strict v).field? "y" = .ok (some (.list [.text id, .text id]))

theorem isPlain_of_colorProperty {v : Value} {color : Option Value}
    (h : colorProperty v = .ok color) : ∀ c ∈ color, IsPlain isoDates c := by
  intro c hc
  cases v with
  | null => cases h; cases hc
  | text s =>
    rw [colorProperty] at h
    split at h
    · cases h; cases hc; exact isPlain_text s
    · cases h
  | _ => cases h

end Figure

/-- There is a trace of a bar whose colour is one. -/
theorem Bar.IsOf.exists_trace {bar : Bar} (h : bar.IsOf id a b) {palette : Palette}
    {color : Option Value} (hcolor : colorProperty (palette.color bar.status) = .ok color)
    (legend : Bool) : ∃ v, bar.trace palette legend = .ok v := by
  obtain ⟨title, htitle⟩ := h.title
  obtain ⟨lane, hlane⟩ := h.lane
  obtain ⟨days, hdays⟩ : ∃ days, wholeText ((b.dayNumber : Int) - a.dayNumber) = .ok days := by
    have ha := a.dayNumber_bounds
    have hb := b.dayNumber_bounds
    exact exists_wholeText (isShort_of_natAbs_lt (Nat.lt_of_lt_of_le (m := 10 ^ 7) (by omega)
      (Nat.pow_le_pow_right (by decide) (by decide))))
  obtain ⟨details, hdetails⟩ : ∃ details, bar.details (.midnight a (some 0)) (.midnight b (some 0))
      days = .ok details := by
    rw [Bar.details, h.id, htitle, hlane]
    split
    · exact ⟨_, rfl⟩
    · exact ⟨_, rfl⟩
  rw [Bar.trace, h.start, h.finish, Moment.ofEpochMs_midnight, Moment.ofEpochMs_midnight,
    durationDays_midnight]
  exact ⟨_, do_eq_ok.mpr ⟨_, rfl, do_eq_ok.mpr ⟨_, rfl, do_eq_ok.mpr ⟨_, rfl,
    do_eq_ok.mpr ⟨_, hdays, do_eq_ok.mpr ⟨_, hdetails, do_eq_ok.mpr ⟨_, hcolor,
    do_eq_ok.mpr ⟨_, rfl, do_eq_ok.mpr ⟨_, rfl, rfl⟩⟩⟩⟩⟩⟩⟩⟩⟩

/-- **The trace of a bar stands at its id.** -/
theorem Bar.isTraceOf_of_trace {bar : Bar} {palette : Palette} {legend : Bool} {v : Value}
    (h : bar.trace palette legend = .ok v) (hid : bar.id = .text id) : IsTraceOf id v := by
  simp only [Bar.trace, do_eq_ok] at h
  obtain ⟨first, -, last, -, days, -, text, -, details, -, color, hcolor, x, -, y, -, h⟩ := h
  cases h
  have hplain := isPlain_of_colorProperty hcolor
  have hwidth : IsPlain isoDates (.int 20) := isPlain_int (by decide)
  rw [hid]
  constructor
  · cases color with
    | none => simp [isPlain_list, textList, Figure.optional, hwidth]
    | some c => simp [isPlain_list, textList, Figure.optional, hwidth, hplain c rfl]
  · simp [strict, strictAll, strictEntries, putEntry, Value.object, Value.same, Value.field?,
      Value.lookup?]

end Taskboard
