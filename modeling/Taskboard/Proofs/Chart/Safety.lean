import Taskboard.Proofs.Chart.Marks

/-!
# Proofs/Chart/Safety — executable text in figures that leave

A figure with traces leaves only if none of its texts, at any depth and keys among them, carries a
mark of executable text.  A figure without traces is not looked at: the notice in place of a
schedule without bars carries the schedule's title as it is.  `rendersSafely_iff` says that this is
all that gets out.
-/

namespace Taskboard

namespace Figure

open Json

/-! ## Figures in plain form -/

/-- A figure of traces and a layout in plain form. -/
def framed (traces : List Value) (layout : Value) : Value :=
  .map [(.text "data", .list traces), (.text "layout", layout)]

/-- The plain form of a figure has traces if the figure does. -/
theorem sanitize_make {traces : List Value} {fields : List (String × Value)} {w : Value}
    (h : sanitize (make traces fields) = .ok w) :
    ∃ ts l, (ts = [] ↔ traces = []) ∧ w = framed ts l := by
  obtain ⟨v, hv, rfl⟩ := map_eq_ok.mp h
  simp only [make, Value.object, List.map_cons, List.map_nil, plain, plainEntries, keyText,
    bind_eq_ok, map_eq_ok] at hv
  obtain ⟨_, ⟨_, hk, _, ⟨ts, hts, hd⟩, _, ⟨_, hk', l, hl, _, hnil, hes⟩, hes'⟩, hv⟩ := hv
  cases hk; cases hk'; cases hnil
  subst hd hes hes' hv
  refine ⟨strictAll ts, strict l, ?_, rfl⟩
  cases traces with
  | nil => cases hts; simp [strictAll]
  | cons t traces =>
    obtain ⟨_, -, h⟩ := bind_eq_ok.mp hts
    obtain ⟨_, -, rfl⟩ := map_eq_ok.mp h
    simp [strictAll]

/-! ## The check -/

/-- Without traces nothing is looked at. -/
theorem flaw?_framed_nil (layout : Value) : flaw? (framed [] layout) = .ok (some .noTraces) := rfl

/-- **With traces the whole document is searched** for marks. -/
theorem flaw?_framed {traces : List Value} {layout f : Value} (htraces : traces ≠ [])
    (h : sanitize f = .ok (framed traces layout)) :
    flaw? (framed traces layout) =
      .ok (if hasMarker (writeAt compactLayout 0 (framed traces layout)) then some .executable
        else none) := by
  obtain ⟨t, ts, rfl⟩ := List.exists_cons_of_ne_nil htraces
  have hdata : (framed (t :: ts) layout).field? "data" = .ok (some (.list (t :: ts))) := by
    simp [framed, Value.field?, Value.lookup?]
  rw [flaw?_of_filled (isPlain_sanitize h) hdata rfl, documented_of_isStrict (isStrict_sanitize h)]

/-! ## Heights -/

theorem heightProperty_int {n : Int} (h : leastHeight ≤ n) :
    heightProperty (.int n) = .ok (.int n) := by
  have hle : ¬ n * unitsPerOne < leastHeight * unitsPerOne :=
    Int.not_lt.mpr (Int.mul_le_mul_of_nonneg_right h (Int.natCast_nonneg _))
  have hless : (Value.int n).lessThan (.int leastHeight) = .ok false := by
    simp only [Value.lessThan, Value.linePlace, hle, Int.lt_irrefl, decide_false, Bool.and_false,
      Bool.or_false]
  simp only [heightProperty, Value.isNumber, hless, if_true]

end Figure

open Figure Json

variable {style : FigureStyle} {f w : Value}

/-! ## Which figures have traces -/

theorem PieChart.figure_eq_make {c : PieChart} (h : c.figure style = .ok f) :
    ∃ trace fields, f = make [trace] fields := by
  simp only [PieChart.figure, do_eq_ok] at h
  obtain ⟨name, -, fields, -, h⟩ := h
  cases h
  exact ⟨_, _, rfl⟩

theorem BarChart.figure_eq_make {c : BarChart} (h : c.figure style = .ok f) :
    ∃ trace fields, f = make [trace] fields := by
  simp only [BarChart.figure, do_eq_ok] at h
  obtain ⟨columns, -, name, -, axisTitle, -, fields, -, h⟩ := h
  cases h
  exact ⟨_, _, rfl⟩

theorem LineChart.figure_eq_make {c : LineChart} (h : c.figure style = .ok f) :
    ∃ trace fields, f = make [trace] fields := by
  simp only [LineChart.figure, do_eq_ok] at h
  obtain ⟨points, -, texts, -, name, -, labels, -, fields, -, h⟩ := h
  cases h
  exact ⟨_, _, rfl⟩

theorem Bar.traces_ne_nil {palette : Palette} {seen : List String} {b : Bar} {bs : List Bar}
    {traces : List Value} (h : Bar.traces palette seen (b :: bs) = .ok traces) : traces ≠ [] := by
  simp only [Bar.traces, do_eq_ok] at h
  obtain ⟨trace, -, rest, -, h⟩ := h
  cases h
  exact List.cons_ne_nil _ _

namespace GanttChart

/-- The title over a schedule. -/
def shownTitle (g : GanttChart) : Value := g.title.orElse (.text "Gantt Chart")

theorem figure_cases {g : GanttChart} (h : g.figure style = .ok f) :
    (∃ traces fields, traces ≠ [] ∧ f = make traces fields) ∨
      g.bars = .ok [] ∧ emptyFigure style g.shownTitle = .ok f := by
  simp only [GanttChart.figure, do_eq_ok] at h
  obtain ⟨bars, hbars, h⟩ := h
  cases bars with
  | nil => exact .inr ⟨hbars, h⟩
  | cons b bs =>
    simp only [List.isEmpty_cons, Bool.false_eq_true, if_false, do_eq_ok] at h
    obtain ⟨traces, htraces, fields, -, height, -, h⟩ := h
    cases h
    exact .inl ⟨_, _, Bar.traces_ne_nil htraces, rfl⟩

theorem figure_of_bars_eq_nil {g : GanttChart} (h : g.bars = .ok []) :
    g.figure style = emptyFigure style g.shownTitle := by
  rw [GanttChart.figure, h]
  rfl

/-! ## The notice in place of bars -/

/-- The words of a notice that are the library's own. -/
def noticeWords : List String :=
  ["data", "layout", "title", "text", "x", "xanchor", "center", "font", "size", "color", "#2c3e50",
    "paper_bgcolor", "white", "height", "margin", "l", "r", "t", "b", "annotations",
    "No tasks with valid dates found", "xref", "paper", "yref", "y", "showarrow", "#7f8c8d",
    "xaxis", "yaxis", "visible"]

theorem hasMarker_noticeWords : ∀ s ∈ noticeWords, hasMarker s = false := by decide

theorem isFinite_half : (Binary64.ofRatio 1 2).isFinite = true := by decide +kernel

/-- There is a notice if its title and its height are fit. -/
theorem exists_emptyFigure {title height : Value} {text : Option String}
    (htext : textProperty title = .ok text)
    (hheight : heightProperty style.drawnHeight = .ok height) :
    ∃ f, emptyFigure style title = .ok f :=
  ⟨_, do_eq_ok.mpr ⟨_, do_eq_ok.mpr ⟨text, htext, do_eq_ok.mpr ⟨height, hheight, rfl⟩⟩, rfl⟩⟩

theorem emptyFigure_eq_make {title : Value} (h : emptyFigure style title = .ok f) :
    ∃ fields, f = make [] fields := by
  obtain ⟨_, -, h⟩ := do_eq_ok.mp h
  cases h
  exact ⟨_, rfl⟩

theorem height_of_emptyFigure {title : Value} (h : emptyFigure style title = .ok f) :
    ∃ height, heightProperty style.drawnHeight = .ok height := by
  obtain ⟨_, hlayout, -⟩ := do_eq_ok.mp h
  obtain ⟨_, -, hlayout⟩ := do_eq_ok.mp hlayout
  obtain ⟨height, hheight, -⟩ := do_eq_ok.mp hlayout
  exact ⟨height, hheight⟩

theorem sanitize_emptyFigure {title : Value} (h : emptyFigure style title = .ok f) :
    sanitize f = .ok (strict f) := by
  simp only [emptyFigure, layout, do_eq_ok] at h
  obtain ⟨fields, ⟨text, -, height, -, hfields⟩, h⟩ := h
  cases hfields
  cases h
  have hint : ∀ n : Int, n.natAbs ≤ 300 → IsPlain isoDates (.int n) := fun n hn =>
    isPlain_int (Nat.le_trans hn (by decide))
  refine map_eq_ok.mpr ⟨_, ?_, rfl⟩
  rw [← IsPlain]
  cases text <;>
    simp [make, isPlain_list, putEntry, optionalText, Figure.optional, emptyHeight, hint]

/-- **A notice carries executable text exactly when its title does.** -/
theorem isMarked_notice {title : Value} (h : emptyFigure style title = .ok f) :
    IsMarked (strict f) ↔ ∃ t, textProperty title = .ok (some t) ∧ hasMarker t = true := by
  simp only [emptyFigure, layout, do_eq_ok] at h
  obtain ⟨fields, ⟨text, htext, height, -, hfields⟩, h⟩ := h
  cases hfields
  cases h
  rw [htext]
  have hwords := hasMarker_noticeWords
  simp only [noticeWords, List.forall_mem_cons] at hwords
  cases text <;>
    simp [IsMarked, make, strict, strictAll, strictEntries, putEntry, Value.object, optionalText,
      Figure.optional, Value.same, Value.texts, Value.textsAll, Value.textsEntries, isFinite_half,
      hwords]

end GanttChart

namespace Chart

theorem render_of_flaw {c : Chart} {flaw : Option Flaw} (hw : c.plainFigure style = .ok w)
    (hflaw : flaw? w = .ok flaw) :
    c.render style = if flaw = some .executable then .error .unsafeFigure else .ok w := by
  obtain ⟨f, hf, hs⟩ := bind_eq_ok.mp hw
  simp only [render, hf, hs, hflaw, bind, Except.bind]
  rcases flaw with _ | _ | _ | _ <;> rfl

theorem figure_cases {c : Chart} (h : c.figure style = .ok f) :
    (∃ traces fields, traces ≠ [] ∧ f = make traces fields) ∨
      ∃ g, c = .gantt g ∧ g.bars = .ok [] ∧
        GanttChart.emptyFigure style g.shownTitle = .ok f := by
  cases c with
  | pie c =>
    obtain ⟨trace, fields, rfl⟩ := PieChart.figure_eq_make h
    exact .inl ⟨_, _, List.cons_ne_nil _ _, rfl⟩
  | bar c =>
    obtain ⟨trace, fields, rfl⟩ := BarChart.figure_eq_make h
    exact .inl ⟨_, _, List.cons_ne_nil _ _, rfl⟩
  | line c =>
    obtain ⟨trace, fields, rfl⟩ := LineChart.figure_eq_make h
    exact .inl ⟨_, _, List.cons_ne_nil _ _, rfl⟩
  | gantt g => exact (GanttChart.figure_cases h).imp_right fun ⟨hbars, h⟩ => ⟨g, rfl, hbars, h⟩

/-- **With traces, executable text keeps a figure from leaving.** -/
theorem render_of_traces {c : Chart} {traces : List Value} {fields : List (String × Value)}
    (hc : c.figure style = .ok (make traces fields)) (htraces : traces ≠ [])
    (hw : c.plainFigure style = .ok w) (hmarked : IsMarked w) :
    c.render style = .error .unsafeFigure := by
  obtain ⟨f, hf, hs⟩ := bind_eq_ok.mp hw
  obtain rfl : f = make traces fields := Except.ok.inj (hf.symm.trans hc)
  have hplain : IsPlain isoDates w := isPlain_sanitize hs
  obtain ⟨ts, l, hts, rfl⟩ := sanitize_make hs
  rw [render_of_flaw hw (flaw?_framed (mt hts.mp htraces) hs), hasMarker_writeAt hplain hmarked]
  rfl

/-- A notice leaves unchecked, whatever its title. -/
theorem render_of_notice {g : GanttChart} (hbars : g.bars = .ok [])
    (h : GanttChart.emptyFigure style g.shownTitle = .ok f) :
    (Chart.gantt g).render style = .ok (strict f) := by
  have hs : sanitize f = .ok (strict f) := GanttChart.sanitize_emptyFigure h
  have hw : (Chart.gantt g).plainFigure style = .ok (strict f) :=
    bind_eq_ok.mpr ⟨f, (GanttChart.figure_of_bars_eq_nil hbars).trans h, hs⟩
  have hflaw : flaw? (strict f) = .ok (some .noTraces) := by
    obtain ⟨fields, rfl⟩ := GanttChart.emptyFigure_eq_make h
    obtain ⟨ts, l, hts, heq⟩ := sanitize_make hs
    rw [heq, hts.mpr rfl, flaw?_framed_nil]
  rw [render_of_flaw hw hflaw]
  rfl

/-! ## What leaves -/

/-- What the renderer promises of a chart: what leaves carries no executable text at any depth, and
a figure that carries some is refused as unsafe. -/
def RendersSafely (style : FigureStyle) (c : Chart) : Prop :=
  (∀ v, c.render style = .ok v → ¬ IsMarked v) ∧
    ∀ w, c.plainFigure style = .ok w → IsMarked w → c.render style = .error .unsafeFigure

/-- A schedule without bars to draw whose title carries executable text. -/
def HasMarkedNotice (style : FigureStyle) : Chart → Prop
  | .gantt g => g.bars = .ok [] ∧ (∃ height, heightProperty style.drawnHeight = .ok height) ∧
      ∃ t, textProperty g.shownTitle = .ok (some t) ∧ hasMarker t = true
  | _ => False

/-- **The renderer keeps its promise for exactly the charts without a marked notice**: whatever the
kind of the chart and wherever the executable text is in it, nothing else gets out. -/
theorem rendersSafely_iff (style : FigureStyle) (c : Chart) :
    c.RendersSafely style ↔ ¬ c.HasMarkedNotice style := by
  constructor
  · intro hsafe hnotice
    cases c with
    | gantt g =>
      obtain ⟨hbars, ⟨height, hheight⟩, t, ht, hmark⟩ := hnotice
      obtain ⟨f, hf⟩ := GanttChart.exists_emptyFigure ht hheight
      exact hsafe.1 _ (render_of_notice hbars hf)
        ((GanttChart.isMarked_notice hf).mpr ⟨t, ht, hmark⟩)
    | pie _ | bar _ | line _ => exact hnotice
  · intro hnotice
    -- whether it has traces decides if a marked figure is looked at
    have hrefused : ∀ w, c.plainFigure style = .ok w → IsMarked w →
        c.render style = .error .unsafeFigure := by
      intro w hw hmarked
      obtain ⟨f, hf, hs⟩ := bind_eq_ok.mp hw
      rcases figure_cases hf with ⟨traces, fields, htraces, rfl⟩ | ⟨g, rfl, hbars, hempty⟩
      · exact render_of_traces hf htraces hw hmarked
      · obtain rfl : strict f = w :=
          Except.ok.inj ((GanttChart.sanitize_emptyFigure hempty).symm.trans hs)
        exact absurd ⟨hbars, GanttChart.height_of_emptyFigure hempty,
          (GanttChart.isMarked_notice hempty).mp hmarked⟩ hnotice
    refine ⟨fun v hv hmarked => ?_, hrefused⟩
    rw [hrefused v (plainFigure_of_render hv) hmarked] at hv
    cases hv

/-- A schedule without lanes and with a call for its title leaves with it. -/
theorem marked_title_leaves :
    ¬ (Chart.gantt ⟨.text "eval(x)", .text usualDateFormat, []⟩).RendersSafely {} := by
  intro hsafe
  obtain ⟨f, hf⟩ : ∃ f, GanttChart.emptyFigure {} (.text "eval(x)") = .ok f :=
    GanttChart.exists_emptyFigure rfl (heightProperty_int (by decide))
  exact hsafe.1 _ (render_of_notice rfl hf)
    ((GanttChart.isMarked_notice hf).mpr ⟨"eval(x)", rfl, by decide⟩)

end Chart

end Taskboard
