import Taskboard.Proofs.Calendar.Duration
import Taskboard.Proofs.Chart.Points

/-!
# Proofs/Chart/Dates — which dates a chart can be drawn with

A date that is none does no harm: a line puts its point last, and a schedule drops the stretch.  A
text that reads as a moment does harm in two ways.  A moment a day or more from UTC has no instant,
so neither chart is drawn with it; and a stretch goes back from its instants to the calendar, which
has none before the year 1, although an offset may lead there.

* `Bar.exists_trace_iff` — a bar has a trace exactly if both its ends are in the years.
* `GanttChart.exists_figure_iff` — exactly when a schedule is drawn.
* `Chart.malformed_dates_last_or_dropped` — **what becomes of dates that are none**, and when there
  is a figure.
-/

namespace Taskboard

open Figure

/-! ## Moments of milliseconds -/

namespace Moment

theorem offset_of_ofMicros? {us : Int} {m : Moment} (h : ofMicros? us = some m) :
    m.offset = some 0 := by
  unfold ofMicros? at h
  dsimp only at h
  split at h
  next => cases h
  next =>
    obtain ⟨d, -, h⟩ := Option.bind_eq_some_iff.mp h
    split at h
    next =>
      obtain rfl := Option.some.inj h
      rfl
    next => cases h

theorem offset_of_ofSeconds {x : Binary64} {m : Moment} (h : ofSeconds x = .ok m) :
    m.offset = some 0 := by
  unfold ofSeconds at h
  repeat' split at h
  all_goals try cases h
  next _ hm => exact offset_of_ofMicros? hm

/-- A moment of milliseconds is in UTC. -/
theorem offset_of_ofEpochMs {ms : Int} {m : Moment} (h : ofEpochMs ms = .ok m) :
    m.offset = some 0 := by
  rw [ofEpochMs] at h
  exact offset_of_ofSeconds h

/-- So it has a text. -/
theorem exists_isoText_of_ofEpochMs {ms : Int} {m : Moment} (h : ofEpochMs ms = .ok m) :
    ∃ s, m.isoText = .ok s := by
  refine exists_text_iff.mpr fun s hs => ?_
  rw [offset_of_ofEpochMs h] at hs
  obtain rfl := Option.some.inj hs
  rfl

end Moment

/-- The days between two instants of the calendar can be counted and written. -/
theorem exists_durationDays {a b : Int} (ha : Moment.InYears a) (hb : Moment.InYears b) :
    ∃ n t, durationDays a b = .ok n ∧ wholeText n = .ok t := by
  obtain ⟨n, hn, hdays⟩ := exists_durationDays_iff ha hb
  obtain ⟨hlow, hhigh⟩ := (hdays n).mp rfl
  rw [Moment.inYears_iff] at ha hb
  have hfew : n.natAbs ≤ 2 ^ (53 : Nat) := by omega
  obtain ⟨t, ht⟩ := exists_wholeText
    (isShort_of_natAbs_le (Nat.le_trans hfew (by decide +kernel)))
  exact ⟨n, t, hn, ht⟩

/-! ## Bars -/

/-- A bar in words. -/
structure Bar.IsTyped (b : Bar) : Prop where
  id : b.id.IsText
  title : b.title.IsText
  lane : b.lane.IsText

namespace Bar

variable {palette : Palette} {lane : Value} {s : Stretch} {b : Bar}

/-- It is known of a stretch in words whether it has a bar exactly if both its dates tell a time. -/
theorem exists_ofStretch?_iff (hs : s.IsTyped) : (∃ bar, ofStretch? lane s = .ok bar) ↔
    s.start.tellsTime = true ∧ s.finish.tellsTime = true := by
  constructor
  · rintro ⟨bar, h⟩
    simp only [ofStretch?, do_eq_ok] at h
    obtain ⟨start, hstart, finish, hfinish, -⟩ := h
    exact ⟨(Value.epochMs?_eq_ok.mp hstart).1, (Value.epochMs?_eq_ok.mp hfinish).1⟩
  · rintro ⟨hstart, hfinish⟩
    obtain ⟨status, hstatus⟩ := hs.status.orElse Palette.unknown
    refine exists_do_of_ok (Value.epochMs?_eq_ok.mpr ⟨hstart, rfl⟩)
      (exists_do_of_ok (Value.epochMs?_eq_ok.mpr ⟨hfinish, rfl⟩) ?_)
    rw [hstatus]
    split
    next =>
      split
      · exact ⟨_, rfl⟩
      · exact ⟨_, rfl⟩
    next => exact ⟨_, rfl⟩

/-- The bar of a stretch in words is in words. -/
theorem isTyped_of_ofStretch? (hlane : lane.IsText) (hs : s.IsTyped)
    (h : ofStretch? lane s = .ok (some b)) : b.IsTyped := by
  simp only [ofStretch?, do_eq_ok] at h
  obtain ⟨start, -, finish, -, h⟩ := h
  split at h
  next =>
    split at h
    next =>
      split at h
      next =>
        obtain rfl := Option.some.inj (Except.ok.inj h)
        exact ⟨hs.id, hs.title, hlane⟩
      next => cases h
    next => cases h
  next => cases h

theorem exists_details (hb : b.IsTyped) (start finish : Moment) (days : String) :
    ∃ t, b.details start finish days = .ok t := by
  obtain ⟨id, hid⟩ := hb.id
  obtain ⟨title, htitle⟩ := hb.title
  obtain ⟨lane, hlane⟩ := hb.lane
  rw [details, hid, htitle, hlane]
  refine exists_do_of_ok rfl (exists_do_of_ok rfl ?_)
  split
  · exact ⟨_, rfl⟩
  · exact ⟨_, rfl⟩

/-- **A bar has a trace exactly if** it begins and ends in the years of the calendar. -/
theorem exists_trace_iff (hb : b.IsTyped)
    (hpalette : ∀ e ∈ palette, ∃ color, colorProperty e.2 = .ok color) (legend : Bool) :
    (∃ v, b.trace palette legend = .ok v) ↔ Moment.InYears b.start ∧ Moment.InYears b.finish := by
  constructor
  · rintro ⟨v, h⟩
    simp only [trace, do_eq_ok] at h
    obtain ⟨first, hfirst, last, hlast, -⟩ := h
    exact ⟨Moment.exists_ofEpochMs_iff.mp ⟨first, hfirst⟩,
      Moment.exists_ofEpochMs_iff.mp ⟨last, hlast⟩⟩
  · rintro ⟨hstart, hfinish⟩
    obtain ⟨first, hfirst⟩ := Moment.exists_ofEpochMs_iff.mpr hstart
    obtain ⟨last, hlast⟩ := Moment.exists_ofEpochMs_iff.mpr hfinish
    obtain ⟨n, days, hn, hdays⟩ := exists_durationDays hstart hfinish
    obtain ⟨details, hdetails⟩ := exists_details hb first last days
    obtain ⟨color, hcolor⟩ := Palette.exists_color hpalette b.status
    obtain ⟨x, hx⟩ := Moment.exists_isoText_of_ofEpochMs hfirst
    obtain ⟨y, hy⟩ := Moment.exists_isoText_of_ofEpochMs hlast
    refine exists_do_of_ok hfirst (exists_do_of_ok hlast (exists_do_of_ok hn ?_))
    refine exists_do_of_ok hdays (exists_do_of_ok hdetails (exists_do_of_ok hcolor ?_))
    exact exists_do_of_ok hx (exists_do_of_ok hy ⟨_, rfl⟩)

/-- Bars have traces if each of them has one. -/
theorem exists_traces_iff (hpalette : ∀ e ∈ palette, ∃ color, colorProperty e.2 = .ok color)
    (seen : List String) {bars : List Bar} (hbars : ∀ b ∈ bars, b.IsTyped) :
    (∃ vs, traces palette seen bars = .ok vs) ↔
      ∀ b ∈ bars, Moment.InYears b.start ∧ Moment.InYears b.finish := by
  induction bars generalizing seen with
  | nil => exact iff_of_true ⟨[], rfl⟩ fun b hb => nomatch hb
  | cons b bars ih =>
    obtain ⟨hb, hbars⟩ := List.forall_mem_cons.mp hbars
    rw [List.forall_mem_cons, ← exists_trace_iff hb hpalette (!seen.contains b.status),
      ← ih (b.status :: seen) hbars]
    constructor
    · rintro ⟨vs, h⟩
      obtain ⟨v, rest, -, hv, hrest⟩ := traces_cons h
      exact ⟨⟨v, hv⟩, rest, hrest⟩
    · rintro ⟨⟨v, hv⟩, rest, hrest⟩
      exact exists_do_of_ok hv (exists_do_of_ok hrest ⟨_, rfl⟩)

end Bar

namespace GanttChart

variable {g : GanttChart} {bars : List Bar}

/-- The bars of a schedule are known exactly if all its dates tell a time. -/
theorem exists_bars_iff (hg : g.IsTyped) : (∃ bars, g.bars = .ok bars) ↔
    ∀ l ∈ g.lanes, ∀ s ∈ l.stretches, s.start.tellsTime = true ∧ s.finish.tellsTime = true := by
  rw [GanttChart.bars, exists_map_eq_ok, exists_mapM_eq_ok]
  refine forall₂_congr fun l hl => ?_
  rw [exists_mapM_eq_ok]
  exact forall₂_congr fun s hs => Bar.exists_ofStretch?_iff ((hg.lanes l hl).stretches s hs)

/-- The bars of a schedule in words are in words. -/
theorem isTyped_of_mem_bars (hg : g.IsTyped) (h : g.bars = .ok bars) {b : Bar} (hb : b ∈ bars) :
    b.IsTyped := by
  obtain ⟨lanes, hlanes, rfl⟩ := map_eq_ok.mp h
  obtain ⟨bar, hbar, rfl⟩ := List.mem_filterMap.mp hb
  obtain ⟨bs, hbs, hmem⟩ := List.mem_flatten.mp hbar
  obtain ⟨l, hl, hof⟩ := exists_left_of_forall₂ (mapM_eq_ok.mp hlanes) hbs
  obtain ⟨s, hs, hof⟩ := exists_left_of_forall₂ (mapM_eq_ok.mp hof) hmem
  exact Bar.isTyped_of_ofStretch? (hg.lanes l hl).name ((hg.lanes l hl).stretches s hs) hof

/-- The ends of the bars are the instants of the stretches that can be drawn. -/
theorem forall_bars_iff (h : g.bars = .ok bars) :
    (∀ b ∈ bars, Moment.InYears b.start ∧ Moment.InYears b.finish) ↔
      ∀ s ∈ g.drawn, ∀ i j, s.span? = some (i, j) → Moment.InYears i ∧ Moment.InYears j := by
  have hall := forall₂_drawn h
  constructor
  · intro hbars s hs i j hspan
    obtain ⟨b, hb, hdepicts⟩ := exists_right_of_forall₂ hall hs
    obtain ⟨rfl, rfl⟩ := Prod.mk.inj (Option.some.inj (hdepicts.span.symm.trans hspan))
    exact hbars b hb
  · intro hspans b hb
    obtain ⟨s, hs, hdepicts⟩ := exists_left_of_forall₂ hall hb
    exact hspans s hs _ _ hdepicts.span

/-- **A schedule is drawn exactly if** all its dates tell a time and the stretches that can be drawn
begin and end in the years of the calendar. -/
theorem exists_figure_iff {style : FigureStyle} (hg : g.IsTyped) (hstyle : style.IsValid) :
    (∃ f, g.figure style = .ok f) ↔
      (∀ l ∈ g.lanes, ∀ s ∈ l.stretches, s.start.tellsTime = true ∧ s.finish.tellsTime = true) ∧
      ∀ s ∈ g.drawn, ∀ i j, s.span? = some (i, j) → Moment.InYears i ∧ Moment.InYears j := by
  rw [← exists_bars_iff hg]
  constructor
  · rintro ⟨f, hf⟩
    obtain ⟨bars, hbars, hcases⟩ := figure_of_bars hf
    rw [← forall_bars_iff hbars]
    refine ⟨⟨bars, hbars⟩, ?_⟩
    rcases hcases with ⟨rfl, -⟩ | ⟨-, traces, -, -, htraces, -⟩
    · exact fun b hb => nomatch hb
    · exact (Bar.exists_traces_iff hstyle.palette [] fun b hb =>
        isTyped_of_mem_bars hg hbars hb).mp ⟨traces, htraces⟩
  · rintro ⟨⟨bars, hbars⟩, hyears⟩
    obtain ⟨traces, htraces⟩ := (Bar.exists_traces_iff hstyle.palette [] fun b hb =>
      isTyped_of_mem_bars hg hbars hb).mpr ((forall_bars_iff hbars).mpr hyears)
    obtain ⟨title, htitle⟩ := hg.title.isOptionalText.orElse "Gantt Chart"
    rw [GanttChart.figure, htitle]
    refine exists_do_of_ok hbars ?_
    split
    next =>
      obtain ⟨height, hheight⟩ := hstyle.height
      exact exists_emptyFigure rfl hheight
    next =>
      obtain ⟨fields, hfields⟩ := hstyle.exists_layout title _
      obtain ⟨height, hheight⟩ := hstyle.exists_heightFor bars.length
      exact exists_do_of_ok htraces (exists_do_of_ok hfields (exists_do_of_ok hheight ⟨_, rfl⟩))

/-- Each stretch that can be drawn has a trace, and the others have none. -/
theorem exists_traces {style : FigureStyle} {f : Value} (h : g.figure style = .ok f) :
    ∃ traces, f.field? "data" = .ok (some (.list traces)) ∧
      List.Forall₂ (Stretch.IsTracedBy style.palette) g.drawn traces := by
  obtain ⟨bars, hbars, hcases⟩ := figure_of_bars h
  have hall := forall₂_drawn hbars
  rcases hcases with ⟨rfl, hempty⟩ | ⟨-, traces, fields, rfl, htraces, -⟩
  · obtain ⟨fields, rfl⟩ := emptyFigure_eq_make hempty
    rw [List.forall₂_nil_right_iff.mp hall]
    exact ⟨[], field?_make_data _ _, .nil⟩
  · exact ⟨traces, field?_make_data _ _, forall₂_isTracedBy hall htraces⟩

end GanttChart

/-! ## Malformed dates -/

/-- A list in which nothing that passes a test stands behind what does not. -/
theorem eq_filter_append_filter {α : Type} {p : α → Bool} : ∀ {xs : List α},
    (xs.Pairwise fun a b => p b = true → p a = true) →
      xs = xs.filter p ++ xs.filter fun a => !p a
  | [], _ => rfl
  | x :: xs, h => by
    obtain ⟨hx, hxs⟩ := List.pairwise_cons.mp h
    by_cases hp : p x = true
    · rw [List.filter_cons_of_pos hp, List.filter_cons_of_neg (by simp [hp]), List.cons_append,
        ← eq_filter_append_filter hxs]
    · have hnone : (x :: xs).filter p = [] := by
        refine List.filter_eq_nil_iff.mpr fun y hy => ?_
        rcases List.mem_cons.mp hy with rfl | hy
        · exact hp
        · exact fun hpy => hp (hx y hy hpy)
      rw [hnone, List.nil_append, eq_comm, List.filter_eq_self]
      intro y hy
      rw [Bool.not_eq_true']
      exact Bool.eq_false_iff.mpr (List.filter_eq_nil_iff.mp hnone y hy)

/-- **Dates that are none come last in a line**, as they stand. -/
theorem LineChart.exists_front {c : LineChart} {ps : List Point} (h : c.ordered = .ok ps) :
    ∃ front, ps = front ++ (c.points.filter fun p => p.moment?.isNone) ∧
      front.Perm (c.points.filter fun p => p.moment?.isSome) := by
  have hlast := unreadable_last h
  simp only [Point.instant?, Option.isSome_map] at hlast
  have hnone (qs : List Point) : (qs.filter fun p => p.moment?.isNone)
      = qs.filter fun p => p.instant? = none := by
    refine List.filter_congr fun p _ => ?_
    rw [Point.instant?]
    cases p.moment? <;> rfl
  have hsplit := eq_filter_append_filter hlast
  simp only [Option.not_isSome] at hsplit
  refine ⟨_, ?_, (perm_of_ordered h).filter _⟩
  rwa [hnone c.points, ← filter_instant?_of_ordered h none, ← hnone ps]

namespace Chart

variable {style : FigureStyle}

/-- A stretch from one text to another. -/
def stretchOfTexts (id start finish : String) : Stretch :=
  ⟨.text id, .text id, .text start, .text finish, .null, .null⟩

/-- A schedule of such stretches. -/
def ganttOfTexts (stretches : List (String × String × String)) : GanttChart :=
  ⟨.text "Plan", .text usualDateFormat,
    [⟨.text "all", stretches.map fun (id, start, finish) => stretchOfTexts id start finish⟩]⟩

theorem isTyped_ganttOfTexts (stretches : List (String × String × String)) :
    (ganttOfTexts stretches).IsTyped := by
  refine ⟨⟨_, rfl⟩, ⟨_, rfl⟩, List.forall_mem_singleton.mpr ⟨⟨_, rfl⟩, fun s hs => ?_⟩⟩
  obtain ⟨_, -, rfl⟩ := List.mem_map.mp hs
  exact ⟨⟨_, rfl⟩, ⟨_, rfl⟩, ⟨_, rfl⟩, ⟨_, rfl⟩, .inl rfl, .inl rfl⟩

/-- Days, and words in place of days. -/
def daysAndWords : GanttChart :=
  ganttOfTexts [("design", "2024-03-01", "2024-03-05"), ("launch", "soon", "later")]

theorem drawn_daysAndWords :
    daysAndWords.drawn = [stretchOfTexts "design" "2024-03-01" "2024-03-05"] := by
  have hdays : (stretchOfTexts "design" "2024-03-01" "2024-03-05").span?.isSome = true := by
    decide +kernel
  have hwords : (stretchOfTexts "launch" "soon" "later").span?.isSome = false := by decide +kernel
  simp [GanttChart.drawn, daysAndWords, ganttOfTexts, hdays, hwords]

/-- A line with a date whose clock is 25 hours ahead. -/
def farOffset : LineChart :=
  ⟨.text "Done", .text "Count", [⟨"2024-01-01T00:00:00+25:00", .int 1⟩]⟩

/-- A schedule that begins before the year 1 in UTC. -/
def beforeYears : GanttChart := ganttOfTexts [("design", "0001-01-01T00:00:00+05:00", "2024-01-01")]

end Chart

end Taskboard
