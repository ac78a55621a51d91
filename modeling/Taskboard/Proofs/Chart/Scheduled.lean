import Taskboard.Proofs.Chart.Typed
import Taskboard.Schedule.Row

/-!
# Proofs/Chart/Scheduled — rows of a schedule and bars of a chart

A row and a bar are made of the same two attributes. A row is made of instants, which whole numbers
may give as well. A bar is made of days: numbers name none, and the time of day is left out before
start and finish are compared. So a task with a row has a bar exactly if its attributes name two
days in order (`gantt_draws_iff_days`); a task of a few hours has a row and no bar
(`workday_is_not_drawn`).

* `Chart.exists_isDrawnAs_of_bar`, `Chart.exists_isDrawnAs_of_no_bars` — there is a figure, with a
  trace or a notice.
-/

namespace Taskboard

open Figure Json

variable {id : String} {a b : Date}

/-! ## Styles that charts can be drawn in -/

/-- **A style to draw in**: the height is a whole number of pixels that a figure may have, and all
colours are colours. -/
structure FigureStyle.IsFit (style : FigureStyle) : Prop where
  height : ∃ n : Int, style.drawnHeight = .int n ∧ leastHeight ≤ n ∧
    digitCount 10 n.natAbs ≤ maxDecimalDigits
  palette : ∀ e ∈ style.palette, ∃ color, colorProperty e.2 = .ok color

namespace FigureStyle.IsFit

variable {style : FigureStyle}

/-- There is a layout: plain fields, and what is put to them. -/
theorem exists_layout (h : style.IsFit) (title : String) :
    ∃ base : List (String × Value), (∀ e ∈ base, IsPlain isoDates e.2) ∧
      ∀ more, layout style (.text title) more = .ok (base ++ more) := by
  obtain ⟨n, hn, hleast, hdigits⟩ := h.height
  have hheight := heightProperty_int hleast
  have hint : ∀ n : Int, n.natAbs ≤ 60 → IsPlain isoDates (.int n) := fun n hn =>
    isPlain_int (Nat.le_trans hn (by decide))
  simp only [layout, hn]
  refine ⟨_, ?_, fun more => do_eq_ok.mpr ⟨_, rfl, do_eq_ok.mpr ⟨_, hheight, rfl⟩⟩⟩
  simp [optionalText, Figure.optional, hint, isPlain_int_of_digits hdigits]

/-- There is a height for one bar, and it is plain. -/
theorem exists_heightFor (h : style.IsFit) :
    ∃ height, GanttChart.heightFor style 1 = .ok height ∧ IsPlain isoDates height := by
  obtain ⟨n, hn, -, hdigits⟩ := h.height
  rw [GanttChart.heightFor, hn]
  refine ⟨_, map_eq_ok.mpr ⟨_, rfl, rfl⟩, ?_⟩
  split
  · exact isPlain_int (by decide)
  · exact isPlain_int_of_digits hdigits

end FigureStyle.IsFit

/-! ## What is drawn of a task -/

namespace Chart

variable {style : FigureStyle}

/-- **A chart is drawn as a plain figure**: it leaves unless executable text is found in it. -/
def IsDrawnAs (style : FigureStyle) (c : Chart) (w : Value) : Prop :=
  c.plainFigure style = .ok w ∧ ∃ flaw, flaw? w = .ok flaw ∧
    c.render style = if flaw = some .executable then .error .unsafeFigure else .ok w

/-- A schedule of one bar is drawn, with a trace at the bar's id. -/
theorem exists_isDrawnAs_of_bar {g : GanttChart} {title : String} {bar : Bar}
    (hbars : g.bars = .ok [bar]) (htitle : g.title = .text title) (hof : bar.IsOf id a b)
    (hstyle : style.IsFit) : ∃ w, IsDrawnAs style (.gantt g) w ∧ Draws id w := by
  obtain ⟨shown, hshown⟩ := hof.title
  obtain ⟨color, hcolor⟩ := Palette.exists_color hstyle.palette bar.status
  obtain ⟨trace, htrace⟩ := hof.exists_trace hcolor true
  have htraceOf := Bar.isTraceOf_of_trace htrace hof.id
  have htraces : Bar.traces style.palette [] [bar] = .ok [trace] :=
    do_eq_ok.mpr ⟨trace, htrace, rfl⟩
  obtain ⟨words, hwords⟩ := (Value.IsOptionalText.orElse (.inr ⟨title, rfl⟩) "Gantt Chart")
  obtain ⟨base, hbase, hlayout⟩ := hstyle.exists_layout words
  obtain ⟨height, hheight, hheightPlain⟩ := hstyle.exists_heightFor
  obtain ⟨fields, hfigure, hfields⟩ : ∃ fields, g.figure style = .ok (make [trace] fields) ∧
      ∀ e ∈ fields, IsPlain isoDates e.2 := by
    have hint : ∀ n : Int, n.natAbs ≤ 1 → IsPlain isoDates (.int n) := fun n hn =>
      isPlain_int (Nat.le_trans hn (by decide))
    rw [GanttChart.figure, hbars, htitle, hwords]
    exact ⟨_, do_eq_ok.mpr ⟨[bar], rfl, do_eq_ok.mpr ⟨[trace], htraces, do_eq_ok.mpr ⟨_, hlayout _,
      do_eq_ok.mpr ⟨height, hheight, rfl⟩⟩⟩⟩,
        forall_mem_putEntry (P := fun e => IsPlain isoDates e.2) hheightPlain
          (fun _ _ _ _ => hheightPlain) (List.forall_mem_append.mpr ⟨hbase, by
            simp [isPlain_list, gridColor, hint, hof.id, hshown]⟩)⟩
  have hsanitized := sanitize_make_of_isPlain
    (List.forall_mem_singleton.mpr htraceOf.plain) hfields
  have hdrawn : (Chart.gantt g).plainFigure style = .ok _ :=
    bind_eq_ok.mpr ⟨_, hfigure, hsanitized⟩
  have hflaw := flaw?_framed (List.cons_ne_nil _ _) hsanitized
  exact ⟨_, ⟨hdrawn, _, hflaw, render_of_flaw hdrawn hflaw⟩,
    draws_framed.mpr ⟨strict trace, List.mem_cons_self, htraceOf.place⟩⟩

/-- A schedule without bars is drawn as a notice, without traces. -/
theorem exists_isDrawnAs_of_no_bars {g : GanttChart} {title : String} (hbars : g.bars = .ok [])
    (htitle : g.title = .text title) (hstyle : style.IsFit) :
    ∃ w, IsDrawnAs style (.gantt g) w ∧ (Chart.gantt g).render style = .ok w ∧
      ∀ id, ¬ Draws id w := by
  obtain ⟨words, hwords⟩ := (Value.IsOptionalText.orElse (.inr ⟨title, rfl⟩) "Gantt Chart")
  obtain ⟨n, hn, hleast, -⟩ := hstyle.height
  have htext : textProperty g.shownTitle = .ok (some words) := by
    rw [GanttChart.shownTitle, htitle, hwords]
    rfl
  have hheight : heightProperty style.drawnHeight = .ok (.int n) := by
    rw [hn]
    exact heightProperty_int hleast
  obtain ⟨f, hf⟩ := GanttChart.exists_emptyFigure htext hheight
  have hs := GanttChart.sanitize_emptyFigure hf
  have hdrawn : (Chart.gantt g).plainFigure style = .ok (strict f) :=
    bind_eq_ok.mpr ⟨f, (GanttChart.figure_of_bars_eq_nil hbars).trans hf, hs⟩
  obtain ⟨fields, rfl⟩ := GanttChart.emptyFigure_eq_make hf
  obtain ⟨traces, layout, htraces, heq⟩ := sanitize_make hs
  rw [htraces.mpr rfl] at heq
  have hflaw : flaw? (strict (make [] fields)) = .ok (some .noTraces) := by
    rw [heq, flaw?_framed_nil]
  refine ⟨_, ⟨hdrawn, _, hflaw, render_of_flaw hdrawn hflaw⟩, render_of_notice hbars hf,
    fun id hdraws => ?_⟩
  rw [heq, draws_framed] at hdraws
  obtain ⟨v, hv, -⟩ := hdraws
  cases hv

end Chart

/-! ## Rows and bars -/

/-- The keys of rows that are made of the same attributes as charts. -/
def ChartKeys.rowKeys (keys : ChartKeys) (progress : String) : RowKeys :=
  ⟨keys.startKey, keys.finishKey, progress, keys.needsKey, keys.title⟩

/-- A row has the id of its task. -/
theorem Row.id_of_ofTask? {keys : RowKeys} {t : Task} {row : Row}
    (h : Row.ofTask? keys t = .ok (some row)) : row.id = t.id := by
  simp only [Row.ofTask?, do_eq_ok] at h
  obtain ⟨start, -, finish, -, h⟩ := h
  cases start with
  | none => cases h
  | some s =>
    cases finish with
    | none => cases h
    | some f =>
      by_cases hlt : s < f
      · simp only [if_pos hlt, do_eq_ok, map_eq_ok, Row.ofParts, dif_pos hlt] at h
        obtain ⟨progress, -, name, -, r, ⟨p, -, rfl⟩, hr⟩ := h
        cases hr
        rfl
      · simp only [if_neg hlt] at h
        cases h

namespace Report

variable {keys : ChartKeys} {style : FigureStyle} {t : Task} {a b : Date}

/-- A task with days in order is drawn. -/
theorem exists_bar (heading : Heading) (hcaptions : t.HasCaptions keys) (hspans : t.Spans keys a b)
    (ha : 100 ≤ a.year) (hb : 100 ≤ b.year) (hlt : a.lt b = true) (hstyle : style.IsFit) :
    ∃ report w, gantt keys heading none none [t] = .ok report ∧ report.chart.IsDrawnAs style w ∧
      Draws t.id w := by
  obtain ⟨report, lane, s, hreport, hof, hchart⟩ := exists_gantt_of_spans heading hcaptions hspans
  obtain ⟨bar, hbar, hbarOf⟩ := @Bar.exists_ofStretch? _ lane _ _ _ hof ha hb hlt
  obtain ⟨w, hdrawn, hdraws⟩ := Chart.exists_isDrawnAs_of_bar
    (GanttChart.bars_of_stretch hbar) rfl hbarOf hstyle
  exact ⟨report, w, hreport, hchart ▸ hdrawn, hdraws⟩

/-- A task without days in order is not drawn: there is a notice. -/
theorem exists_notice (heading : Heading) (hcaptions : t.HasCaptions keys)
    (hyears : ∀ a b, t.Spans keys a b → 100 ≤ a.year ∧ 100 ≤ b.year)
    (hdays : ¬ ∃ a b, t.Spans keys a b ∧ a.lt b = true) (hstyle : style.IsFit) :
    ∃ report w, gantt keys heading none none [t] = .ok report ∧ report.chart.IsDrawnAs style w ∧
      report.chart.render style = .ok w ∧ ∀ id, ¬ Draws id w := by
  by_cases hspans : ∃ a b, t.Spans keys a b
  · obtain ⟨a, b, hspans⟩ := hspans
    obtain ⟨ha, hb⟩ := hyears a b hspans
    obtain ⟨report, lane, s, hreport, hof, hchart⟩ :=
      exists_gantt_of_spans heading hcaptions hspans
    have hnone : Bar.ofStretch? (.text lane) s = .ok none :=
      Bar.ofStretch?_eq_none hof ha hb fun hlt => hdays ⟨a, b, hspans, hlt⟩
    obtain ⟨w, hw⟩ := Chart.exists_isDrawnAs_of_no_bars
      (GanttChart.bars_of_stretch hnone) rfl hstyle
    exact ⟨report, w, hreport, hchart ▸ hw⟩
  · obtain ⟨report, hreport, hchart⟩ := exists_gantt_of_not_spans heading hspans
    obtain ⟨w, hw⟩ := Chart.exists_isDrawnAs_of_no_bars
      (g := ⟨.text heading.title, .text heading.dateFormat, []⟩) rfl rfl hstyle
    exact ⟨report, w, hreport, hchart ▸ hw⟩

/-- **A task with a row has a trace exactly if its attributes name two days in order.** The day of a
moment is the one it shows, whatever its time of day and its offset. -/
theorem gantt_draws_iff_days (heading : Heading) {progress : String} {row : Row}
    (hrow : Row.ofTask? (keys.rowKeys progress) t = .ok (some row))
    (hcaptions : t.HasCaptions keys)
    (hyears : ∀ a b, t.Spans keys a b → 100 ≤ a.year ∧ 100 ≤ b.year) (hstyle : style.IsFit) :
    ∃ report w, gantt keys heading none none [t] = .ok report ∧ report.chart.IsDrawnAs style w ∧
      (Draws row.id w ↔ ∃ a b, t.Spans keys a b ∧ a.lt b = true) := by
  rw [Row.id_of_ofTask? hrow]
  by_cases hdays : ∃ a b, t.Spans keys a b ∧ a.lt b = true
  · obtain ⟨a, b, hspans, hlt⟩ := hdays
    obtain ⟨ha, hb⟩ := hyears a b hspans
    obtain ⟨report, w, hreport, hdrawn, hdraws⟩ :=
      exists_bar heading hcaptions hspans ha hb hlt hstyle
    exact ⟨report, w, hreport, hdrawn, iff_of_true hdraws ⟨a, b, hspans, hlt⟩⟩
  · obtain ⟨report, w, hreport, hdrawn, -, hnone⟩ :=
      exists_notice heading hcaptions hyears hdays hstyle
    exact ⟨report, w, hreport, hdrawn, iff_of_false (hnone _) hdays⟩

/-- A task with the usual keys for its start and finish and nothing else. -/
def plainTask (id : String) (start finish : Value) : Task :=
  ⟨id, [("start_date", start), ("end_date", finish)], "", none⟩

theorem hasCaptions_plainTask (id : String) (start finish : Value) :
    (plainTask id start finish).HasCaptions {} :=
  ⟨fun h => absurd rfl h, "null", rfl⟩

theorem isFit_usual : ({} : FigureStyle).IsFit :=
  ⟨⟨500, rfl, by decide, Nat.le_trans digitCount_le (by decide)⟩, fun _ h => nomatch h⟩

theorem exists_row_of_isSome {x : Except Fault (Option Row)} (h : x.toOption.join.isSome = true) :
    ∃ row, x = .ok (some row) := by
  rcases x with _ | _ | row
  · cases h
  · cases h
  · exact ⟨row, rfl⟩

/-- From a Friday to the Monday after. -/
def weekend : Task :=
  plainTask "weekend" (.date ⟨2024, 3, 1, by decide⟩) (.date ⟨2024, 3, 4, by decide⟩)

theorem spans_weekend : weekend.Spans {} ⟨2024, 3, 1, by decide⟩ ⟨2024, 3, 4, by decide⟩ :=
  ⟨rfl, rfl⟩

/-- A weekend has a row and a trace. -/
theorem weekend_is_drawn : ∃ row report w,
    Row.ofTask? (({} : ChartKeys).rowKeys "progress") weekend = .ok (some row) ∧
    gantt {} {} none none [weekend] = .ok report ∧ report.chart.IsDrawnAs {} w ∧
    Draws row.id w := by
  obtain ⟨row, hrow⟩ := exists_row_of_isSome (x := Row.ofTask? (({} : ChartKeys).rowKeys "progress")
    weekend) (by decide +kernel)
  obtain ⟨report, w, hreport, hdrawn, hdraws⟩ := gantt_draws_iff_days {} hrow
    (hasCaptions_plainTask _ _ _) (fun a b hab => by
      obtain ⟨rfl, rfl⟩ := spans_weekend.unique hab
      decide) isFit_usual
  exact ⟨row, report, w, hrow, hreport, hdrawn, hdraws.mpr ⟨_, _, spans_weekend, by decide⟩⟩

/-- A Friday from nine to five. -/
def workday : Task :=
  plainTask "workday" (.moment ⟨⟨2024, 3, 1, by decide⟩, 32400000000, by decide, none⟩)
    (.moment ⟨⟨2024, 3, 1, by decide⟩, 61200000000, by decide, none⟩)

theorem spans_workday : workday.Spans {} ⟨2024, 3, 1, by decide⟩ ⟨2024, 3, 1, by decide⟩ :=
  ⟨rfl, rfl⟩

/-- **A working day has a row and no trace**: its moments are on one day. -/
theorem workday_is_not_drawn : ∃ row report w,
    Row.ofTask? (({} : ChartKeys).rowKeys "progress") workday = .ok (some row) ∧
    gantt {} {} none none [workday] = .ok report ∧ report.chart.render {} = .ok w ∧
    ¬ Draws row.id w := by
  obtain ⟨row, hrow⟩ := exists_row_of_isSome (x := Row.ofTask? (({} : ChartKeys).rowKeys "progress")
    workday) (by decide +kernel)
  obtain ⟨report, w, hreport, -, hw, hnone⟩ := exists_notice (t := workday) {}
    (hasCaptions_plainTask _ _ _) (fun a b hab => by
      obtain ⟨rfl, rfl⟩ := spans_workday.unique hab
      decide) (fun ⟨a, b, hab, hlt⟩ => by
      obtain ⟨rfl, rfl⟩ := spans_workday.unique hab
      exact absurd hlt (by decide)) isFit_usual
  exact ⟨row, report, w, hrow, hreport, hw, hnone _⟩

end Report

end Taskboard
