import Mathlib.Data.List.Forall2
import Taskboard.Proofs.Chart.Safety
import Taskboard.Proofs.Chart.Stored

/-!
# Proofs/Chart/Traces — the traces of a schedule

A schedule is drawn in three loops: its stretches become bars, the bars become traces, and the axis
is listed from the bars once more.  All three go through the stretches that can be drawn, lane after
lane (`GanttChart.drawn`), and the one thing that a trace depends on beside its bar is which
statuses were seen before.

* `GanttChart.forall₂_drawn` — the bars are those of the stretches that can be drawn, in order.
* `Bar.traces_append` — the traces of bars that come in two parts.
* `GanttChart.figure_is_faithful` — **what a schedule shows of its stretches.**
-/

namespace Taskboard

open Figure

/-! ## Stretches that can be drawn -/

namespace Stretch

/-- The instants of a stretch, if both can be read and the start is before the finish. -/
def span? (s : Stretch) : Option (Int × Int) :=
  match s.start.epochMs?, s.finish.epochMs? with
  | .ok (some a), .ok (some b) => if a < b then some (a, b) else none
  | _, _ => none

/-- The status of a stretch in lower case. -/
def shownStatus (s : Stretch) : String :=
  match s.status.orElse (.text Palette.unknown) with
  | .text t => lowerText t
  | _ => ""

end Stretch

/-- **The stretches of a schedule that can be drawn**, lane after lane. -/
def GanttChart.drawn (g : GanttChart) : List Stretch :=
  (g.lanes.flatMap Lane.stretches).filter fun s => s.span?.isSome

/-- A bar is that of a stretch. -/
structure Bar.Depicts (s : Stretch) (b : Bar) : Prop where
  span : s.span? = some (b.start, b.finish)
  id : b.id = s.id
  title : b.title = s.title
  status : b.status = s.shownStatus

/-- **A stretch has a bar exactly if it can be drawn.** -/
theorem Bar.ofStretch?_cases {lane : Value} {s : Stretch} {bar : Option Bar}
    (h : Bar.ofStretch? lane s = .ok bar) :
    (s.span? = none ∧ bar = none) ∨ ∃ b, bar = some b ∧ b.Depicts s := by
  simp only [Bar.ofStretch?, do_eq_ok] at h
  obtain ⟨start, hstart, finish, hfinish, h⟩ := h
  rw [Stretch.span?, hstart, hfinish]
  rcases start, finish with ⟨_ | a, _ | b⟩
  case some.some =>
    by_cases hlt : a < b
    · simp only [dif_pos hlt] at h
      split at h
      next status hstatus =>
        obtain rfl := Except.ok.inj h
        refine .inr ⟨_, rfl, ?_, rfl, rfl, ?_⟩
        · rw [Stretch.span?, hstart, hfinish]
          exact if_pos hlt
        · rw [Stretch.shownStatus, hstatus]
      next => cases h
    · simp only [dif_neg hlt] at h
      exact .inl ⟨if_neg hlt, (Except.ok.inj h).symm⟩
  all_goals exact .inl ⟨rfl, (Except.ok.inj h).symm⟩

namespace GanttChart

/-- The bars of one lane. -/
theorem forall₂_bars_of_lane {lane : Value} : ∀ {ss : List Stretch} {bars : List (Option Bar)},
    ss.mapM (Bar.ofStretch? lane) = .ok bars →
      List.Forall₂ Bar.Depicts (ss.filter fun s => s.span?.isSome) (bars.filterMap id)
  | [], _, h => by
    obtain rfl := Except.ok.inj h
    exact .nil
  | s :: ss, _, h => by
    rw [List.mapM_cons] at h
    obtain ⟨bar, hbar, h⟩ := do_eq_ok.1 h
    obtain ⟨bars, hbars, h⟩ := do_eq_ok.1 h
    obtain rfl := Except.ok.inj h
    have hrest := forall₂_bars_of_lane hbars
    rcases Bar.ofStretch?_cases hbar with ⟨hnone, rfl⟩ | ⟨b, rfl, hb⟩
    · simpa [hnone] using hrest
    · simpa [hb.span] using List.Forall₂.cons hb hrest

/-- The bars of lanes are those of one lane after another. -/
theorem forall₂_bars_of_lanes : ∀ {lanes : List Lane} {bars : List (List (Option Bar))},
    (lanes.mapM fun (l : Lane) => l.stretches.mapM (Bar.ofStretch? l.name)) = .ok bars →
      List.Forall₂ Bar.Depicts ((lanes.flatMap Lane.stretches).filter fun s => s.span?.isSome)
        (bars.flatten.filterMap id)
  | [], _, h => by
    obtain rfl := Except.ok.inj h
    exact .nil
  | l :: lanes, _, h => by
    rw [List.mapM_cons] at h
    obtain ⟨first, hfirst, h⟩ := do_eq_ok.1 h
    obtain ⟨rest, hrest, h⟩ := do_eq_ok.1 h
    obtain rfl := Except.ok.inj h
    rw [List.flatMap_cons, List.filter_append, List.flatten_cons, List.filterMap_append]
    exact List.rel_append (forall₂_bars_of_lane hfirst) (forall₂_bars_of_lanes hrest)

/-- **The bars of a schedule are those of the stretches that can be drawn**, in order. -/
theorem forall₂_drawn {g : GanttChart} {bars : List Bar} (h : g.bars = .ok bars) :
    List.Forall₂ Bar.Depicts g.drawn bars := by
  obtain ⟨lanes, hlanes, rfl⟩ := map_eq_ok.1 h
  exact forall₂_bars_of_lanes hlanes

end GanttChart

/-! ## Traces -/

/-- What is on the right side of a correspondence has something on the left. -/
theorem exists_left_of_forall₂ {α β : Type} {R : α → β → Prop} {xs : List α} {ys : List β}
    (h : List.Forall₂ R xs ys) {y : β} (hy : y ∈ ys) : ∃ x ∈ xs, R x y := by
  induction h with
  | nil => cases hy
  | cons hxy _ ih =>
    rcases List.mem_cons.1 hy with rfl | hy
    · exact ⟨_, List.mem_cons_self, hxy⟩
    · obtain ⟨x, hx, hxy⟩ := ih hy
      exact ⟨x, List.mem_cons_of_mem _ hx, hxy⟩

/-- What is on the left side of a correspondence has something on the right. -/
theorem exists_right_of_forall₂ {α β : Type} {R : α → β → Prop} {xs : List α} {ys : List β}
    (h : List.Forall₂ R xs ys) {x : α} (hx : x ∈ xs) : ∃ y ∈ ys, R x y :=
  exists_left_of_forall₂ h.flip hx

theorem Value.field?_object (key : String) (fields : List (String × Value)) :
    (object fields).field? key = .ok (entryAt? key fields) := by
  rw [object, field?, lookup?_object]

namespace Figure

/-- A trace is of a status: the legend groups it with the others of the status. -/
def HasStatus (status : String) (v : Value) : Prop :=
  v.field? "legendgroup" = .ok (some (.text status))

/-- Whether a trace is shown in the legend. -/
def ShowsLegend (shown : Bool) (v : Value) : Prop :=
  v.field? "showlegend" = .ok (some (.bool shown))

theorem HasStatus.unique {status other : String} {v : Value} (h : HasStatus status v)
    (h' : HasStatus other v) : other = status := by
  rw [HasStatus, h] at h'
  cases h'
  rfl

end Figure

/-- **A trace is that of a stretch**: it lasts from the start of the stretch to the finish, at the
stretch's id, in the colour of its status. -/
structure Stretch.IsTracedBy (palette : Palette) (s : Stretch) (v : Value) : Prop where
  times : ∃ a b first last x y, s.span? = some (a, b) ∧ Moment.ofEpochMs a = .ok first ∧
    Moment.ofEpochMs b = .ok last ∧ first.isoText = .ok x ∧ last.isoText = .ok y ∧
    v.field? "x" = .ok (some (textList [x, y]))
  place : v.field? "y" = .ok (some (.list [s.id, s.id]))
  name : v.field? "name" = .ok (some (.text s.shownStatus))
  status : HasStatus s.shownStatus v
  line : ∃ color, colorProperty (palette.color s.shownStatus) = .ok color ∧
    v.field? "line" = .ok (some (.object (Figure.optional "color" color ++ [("width", .int 20)])))
  data : v.field? "customdata" = .ok (some (.list [s.id, s.id]))

namespace Bar

variable {palette : Palette} {seen : List String} {bars : List Bar} {traces : List Value}

/-- The status and the legend of a bar's trace. -/
theorem hasStatus_of_trace {b : Bar} {legend : Bool} {v : Value}
    (h : b.trace palette legend = .ok v) : HasStatus b.status v ∧ ShowsLegend legend v := by
  simp only [trace, do_eq_ok] at h
  obtain ⟨first, -, last, -, days, -, text, -, details, -, color, -, x, -, y, -, h⟩ := h
  obtain rfl := Except.ok.inj h
  constructor <;> simp only [HasStatus, ShowsLegend, Value.field?_object] <;> rfl

/-- The trace of a bar is that of the bar's stretch. -/
theorem isTracedBy_of_trace {s : Stretch} {b : Bar} {legend : Bool} {v : Value}
    (hb : b.Depicts s) (h : b.trace palette legend = .ok v) : s.IsTracedBy palette v := by
  have hstatus : HasStatus s.shownStatus v := hb.status ▸ (hasStatus_of_trace h).1
  simp only [trace, do_eq_ok] at h
  obtain ⟨first, hfirst, last, hlast, days, -, text, -, details, -, color, hcolor, x, hx, y, hy, h⟩
    := h
  obtain rfl := Except.ok.inj h
  rw [hb.status] at hcolor
  refine ⟨⟨_, _, first, last, x, y, hb.span, hfirst, hlast, hx, hy, ?_⟩, ?_, ?_, hstatus,
    ⟨color, hcolor, ?_⟩, ?_⟩ <;>
    simp only [Value.field?_object, ← hb.status, ← hb.id] <;> rfl

/-- The first bar has the first trace. -/
theorem traces_cons {b : Bar} (h : Bar.traces palette seen (b :: bars) = .ok traces) :
    ∃ v rest, traces = v :: rest ∧ b.trace palette (!seen.contains b.status) = .ok v ∧
      Bar.traces palette (b.status :: seen) bars = .ok rest := by
  simp only [Bar.traces, do_eq_ok] at h
  obtain ⟨v, hv, rest, hrest, h⟩ := h
  exact ⟨v, rest, (Except.ok.inj h).symm, hv, hrest⟩

/-- **Each bar has one trace**, in order; none whose status was seen before is in the legend. -/
theorem forall₂_traces (h : Bar.traces palette seen bars = .ok traces) :
    List.Forall₂ (fun b v => ∃ legend, b.trace palette legend = .ok v ∧
      (b.status ∈ seen → legend = false)) bars traces := by
  induction bars generalizing seen traces with
  | nil =>
    obtain rfl := Except.ok.inj h
    exact .nil
  | cons b bars ih =>
    obtain ⟨v, rest, rfl, hv, hrest⟩ := traces_cons h
    refine .cons ⟨_, hv, fun hseen => by simp [hseen]⟩ ((ih hrest).imp ?_)
    rintro c w ⟨legend, hw, hlegend⟩
    exact ⟨legend, hw, fun hc => hlegend (List.mem_cons_of_mem _ hc)⟩

/-- The traces of bars that come in two parts: the statuses of the first part are seen. -/
theorem traces_append {front back : List Bar}
    (h : Bar.traces palette seen (front ++ back) = .ok traces) :
    ∃ ts us, traces = ts ++ us ∧ Bar.traces palette seen front = .ok ts ∧
      Bar.traces palette ((front.map Bar.status).reverse ++ seen) back = .ok us := by
  induction front generalizing seen traces with
  | nil => exact ⟨[], traces, rfl, rfl, h⟩
  | cons b front ih =>
    obtain ⟨v, rest, rfl, hv, hrest⟩ := traces_cons h
    obtain ⟨ts, us, rfl, hts, hus⟩ := ih hrest
    refine ⟨v :: ts, us, rfl, ?_, ?_⟩
    · simp only [Bar.traces, hv, hts]
      rfl
    · rwa [List.map_cons, List.reverse_cons, List.append_assoc, List.singleton_append]

/-- A trace of a status is that of a bar of the status. -/
theorem exists_of_hasStatus (h : Bar.traces palette seen bars = .ok traces) {status : String}
    {v : Value} (hv : v ∈ traces) (hstatus : HasStatus status v) :
    status ∈ bars.map Bar.status ∧ (status ∈ seen → ShowsLegend false v) := by
  obtain ⟨b, hb, legend, htrace, hlegend⟩ := exists_left_of_forall₂ (forall₂_traces h) hv
  obtain ⟨hof, hshows⟩ := hasStatus_of_trace htrace
  obtain rfl := hstatus.unique hof
  exact ⟨List.mem_map_of_mem hb, fun hseen => hlegend hseen ▸ hshows⟩

/-- **The legend shows each status once**, with the first trace of the status. -/
theorem exists_first_trace (h : Bar.traces palette [] bars = .ok traces) {status : String}
    (hstatus : status ∈ bars.map Bar.status) :
    ∃ front t back, traces = front ++ t :: back ∧ HasStatus status t ∧ ShowsLegend true t ∧
      (∀ u ∈ front, ¬ HasStatus status u) ∧
      ∀ u ∈ back, HasStatus status u → ShowsLegend false u := by
  obtain ⟨before, behind, hsplit, hnew⟩ := List.eq_append_cons_of_mem hstatus
  obtain ⟨front, rest, rfl, rfl, hrest⟩ := List.map_eq_append_iff.1 hsplit
  obtain ⟨b, back, rfl, rfl, rfl⟩ := List.map_eq_cons_iff.1 hrest
  obtain ⟨ts, us, rfl, hfront, hus⟩ := traces_append h
  obtain ⟨t, rest, rfl, ht, hback⟩ := traces_cons hus
  have hunseen : ((front.map Bar.status).reverse ++ []).contains b.status = false := by
    simpa using hnew
  rw [hunseen, Bool.not_false] at ht
  obtain ⟨hof, hshows⟩ := hasStatus_of_trace ht
  refine ⟨ts, t, rest, rfl, hof, hshows, fun u hu hu' => ?_, fun u hu hu' => ?_⟩
  · exact hnew (exists_of_hasStatus hfront hu hu').1
  · exact (exists_of_hasStatus hback hu hu').2 List.mem_cons_self

end Bar

/-! ## Figures -/

/-- One more entry is found under its own key only. -/
theorem entryAt?_putEntry_of_ne {α : Type} {k key : String} (h : k ≠ key) (v : α) :
    ∀ es : List (String × α), entryAt? key (putEntry (· == ·) k v es) = entryAt? key es
  | [] => by simp [putEntry, entryAt?, h]
  | (l, w) :: es => by
    rw [putEntry]
    split
    next hl => simp [entryAt?, eq_of_beq hl, h]
    next => rw [entryAt?, entryAt?, entryAt?_putEntry_of_ne h v es]

namespace Figure

/-- The figures of all charts have four fields in their layout; the others are the chart's own. -/
theorem entryAt?_layout {style : FigureStyle} {title : Value}
    {more fields : List (String × Value)} {key : String} (h : layout style title more = .ok fields)
    (hkey : key ∉ ["title", "paper_bgcolor", "height", "margin"]) :
    entryAt? key fields = entryAt? key more := by
  simp only [layout, do_eq_ok] at h
  obtain ⟨text, -, height, -, h⟩ := h
  obtain rfl := Except.ok.inj h
  simp only [List.mem_cons, List.not_mem_nil, or_false, not_or] at hkey
  obtain ⟨htitle, hpaper, hheight, hmargin⟩ := hkey
  simp [entryAt?, Ne.symm htitle, Ne.symm hpaper, Ne.symm hheight, Ne.symm hmargin]

theorem field?_make_data (traces : List Value) (fields : List (String × Value)) :
    (make traces fields).field? "data" = .ok (some (.list traces)) := by
  rw [make, Value.field?_object]
  rfl

theorem field?_make_layout (traces : List Value) (fields : List (String × Value)) :
    (make traces fields).field? "layout" = .ok (some (.object fields)) := by
  rw [make, Value.field?_object]
  rfl

end Figure

namespace GanttChart

variable {style : FigureStyle} {f : Value}

/-- **The axis of a schedule**: where the stretches stand, what is listed along the axis, and the
titles beside it. -/
def HasAxis (f : Value) (ids titles : List Value) : Prop :=
  ∃ layout axis, f.field? "layout" = .ok (some layout) ∧
    layout.field? "yaxis" = .ok (some axis) ∧
    axis.field? "categoryarray" = .ok (some (.list ids)) ∧
    axis.field? "tickvals" = .ok (some (.list ids)) ∧
    axis.field? "ticktext" = .ok (some (.list titles))

/-- The figure of bars: their traces, with their ids and titles along the axis. -/
theorem figure_of_bars {g : GanttChart} (h : g.figure style = .ok f) :
    ∃ bars, g.bars = .ok bars ∧
      (bars = [] ∧ emptyFigure style g.shownTitle = .ok f ∨
        bars ≠ [] ∧ ∃ traces fields, f = make traces fields ∧
          Bar.traces style.palette [] bars = .ok traces ∧
          HasAxis f (bars.map Bar.id) (bars.map Bar.title)) := by
  simp only [GanttChart.figure, do_eq_ok] at h
  obtain ⟨bars, hbars, h⟩ := h
  refine ⟨bars, hbars, ?_⟩
  cases bars with
  | nil => exact .inl ⟨rfl, h⟩
  | cons b bars =>
    simp only [List.isEmpty_cons, Bool.false_eq_true, if_false, do_eq_ok] at h
    obtain ⟨traces, htraces, fields, hfields, height, -, h⟩ := h
    obtain rfl := Except.ok.inj h
    have haxis : entryAt? "yaxis" fields = _ := entryAt?_layout hfields (by decide)
    rw [← entryAt?_putEntry_of_ne (by decide : "height" ≠ "yaxis") height] at haxis
    refine .inr ⟨List.cons_ne_nil _ _, traces, _, rfl, htraces, _, _, field?_make_layout _ _,
      (Value.field?_object _ _).trans (congrArg Except.ok haxis), ?_⟩
    refine ⟨?_, ?_, ?_⟩ <;> rw [Value.field?_object] <;> rfl

/-- The traces of a schedule are those of its stretches. -/
theorem forall₂_isTracedBy {palette : Palette} {ss : List Stretch} {bars : List Bar}
    {traces : List Value} (hbars : List.Forall₂ Bar.Depicts ss bars)
    (htraces : Bar.traces palette [] bars = .ok traces) :
    List.Forall₂ (Stretch.IsTracedBy palette) ss traces := by
  have hall := Bar.forall₂_traces htraces
  clear htraces
  induction hbars generalizing traces with
  | nil =>
    cases hall
    exact .nil
  | cons hb _ ih =>
    obtain _ | ⟨⟨legend, hv, -⟩, hrest⟩ := hall
    exact .cons (Bar.isTracedBy_of_trace hb hv) (ih hrest)

/-- What bars have of their stretches is listed alike. -/
theorem map_of_depicts {α : Type} {ofBar : Bar → α} {ofStretch : Stretch → α} {ss : List Stretch}
    {bars : List Bar} (h : List.Forall₂ Bar.Depicts ss bars)
    (hof : ∀ s b, Bar.Depicts s b → ofBar b = ofStretch s) :
    bars.map ofBar = ss.map ofStretch := by
  induction h with
  | nil => rfl
  | cons hb _ ih => rw [List.map_cons, List.map_cons, hof _ _ hb, ih]

/-- **What a schedule shows of its stretches.** If it is drawn at all, each stretch that can be
drawn has one trace, in the order of the lanes, and the axis lists the ids and titles in the same
order.  The legend shows each status once, with the first of its traces, and the traces of a status
share one line.  The notice is drawn exactly if no stretch can be. -/
theorem figure_is_faithful {g : GanttChart} (h : g.figure style = .ok f) :
    (emptyFigure style g.shownTitle = .ok f ↔ g.drawn = []) ∧
    ∃ traces, f.field? "data" = .ok (some (.list traces)) ∧
      List.Forall₂ (Stretch.IsTracedBy style.palette) g.drawn traces ∧
      (g.drawn ≠ [] → HasAxis f (g.drawn.map Stretch.id) (g.drawn.map Stretch.title)) ∧
      (∀ status ∈ g.drawn.map Stretch.shownStatus, ∃ front t back, traces = front ++ t :: back ∧
        HasStatus status t ∧ ShowsLegend true t ∧ (∀ u ∈ front, ¬ HasStatus status u) ∧
        ∀ u ∈ back, HasStatus status u → ShowsLegend false u) ∧
      ∀ status, ∀ t ∈ traces, ∀ u ∈ traces, HasStatus status t → HasStatus status u →
        t.field? "line" = u.field? "line" := by
  obtain ⟨bars, hbars, hcases⟩ := figure_of_bars h
  have hdepicts := forall₂_drawn hbars
  rcases hcases with ⟨rfl, hempty⟩ | ⟨hne, traces, fields, rfl, htraces, haxis⟩
  · have hnone : g.drawn = [] := List.forall₂_nil_right_iff.1 hdepicts
    obtain ⟨fields, rfl⟩ := emptyFigure_eq_make hempty
    rw [hnone]
    exact ⟨iff_of_true hempty rfl, [], field?_make_data _ _, .nil, by simp, by simp, by simp⟩
  · have hsome : g.drawn ≠ [] := by
      intro hnone
      rw [hnone] at hdepicts
      exact hne (List.forall₂_nil_left_iff.1 hdepicts)
    have hall := forall₂_isTracedBy hdepicts htraces
    refine ⟨iff_of_false (fun hempty => ?_) hsome, traces, field?_make_data _ _, hall, fun _ => ?_,
      fun status hstatus => ?_, fun status t ht u hu hts hus => ?_⟩
    · obtain ⟨_, heq⟩ := emptyFigure_eq_make hempty
      have hdata := field?_make_data traces fields
      rw [heq, field?_make_data] at hdata
      obtain ⟨b, bars, rfl⟩ := List.exists_cons_of_ne_nil hne
      exact Bar.traces_ne_nil htraces (by simpa using hdata.symm)
    · rwa [map_of_depicts hdepicts fun _ _ hb => hb.id,
        map_of_depicts hdepicts fun _ _ hb => hb.title] at haxis
    · rw [← map_of_depicts hdepicts fun _ _ hb => hb.status] at hstatus
      exact Bar.exists_first_trace htraces hstatus
    · obtain ⟨s, -, hs⟩ := exists_left_of_forall₂ hall ht
      obtain ⟨r, -, hr⟩ := exists_left_of_forall₂ hall hu
      obtain ⟨color, hcolor, hline⟩ := hs.line
      obtain ⟨other, hother, hline'⟩ := hr.line
      rw [hts.unique hs.status] at hcolor
      rw [hus.unique hr.status, hcolor] at hother
      rw [hline, hline', Except.ok.inj hother]

/-- A stretch from one second after 1970 to another. -/
def secondsStretch (id status : String) (start finish : Int) : Stretch :=
  ⟨.text id, .text id, .int (1000 * start), .int (1000 * finish), .text status, .null⟩

/-- Two lanes with two stretches of one status, and with one that ends before it starts. -/
def twoLanes : GanttChart :=
  ⟨.text "Plan", .null, [⟨.text "first", [secondsStretch "a" "Done" 0 60,
    secondsStretch "b" "todo" 60 0]⟩, ⟨.text "second", [secondsStretch "c" "done" 30 90]⟩]⟩

/-- They have two traces, the first of which is in the legend. -/
theorem twoLanes_is_faithful : ∃ f t u, twoLanes.figure {} = .ok f ∧
    f.field? "data" = .ok (some (.list [t, u])) ∧ ShowsLegend true t ∧ ShowsLegend false u ∧
    t.field? "line" = u.field? "line" ∧
    HasAxis f [.text "a", .text "c"] [.text "a", .text "c"] := by
  have hok : (twoLanes.figure {}).isOk = true := by decide +kernel
  obtain ⟨f, hf⟩ := exists_ok_of_isOk hok
  have hdrawn : twoLanes.drawn
      = [secondsStretch "a" "Done" 0 60, secondsStretch "c" "done" 30 90] := by
    have ha : (secondsStretch "a" "Done" 0 60).span?.isSome = true := by decide +kernel
    have hb : (secondsStretch "b" "todo" 60 0).span?.isSome = false := by decide +kernel
    have hc : (secondsStretch "c" "done" 30 90).span?.isSome = true := by decide +kernel
    simp [drawn, twoLanes, ha, hb, hc]
  have hstatus : (secondsStretch "a" "Done" 0 60).shownStatus = "done" ∧
      (secondsStretch "c" "done" 30 90).shownStatus = "done" := by decide +kernel
  obtain ⟨-, traces, hdata, hall, haxis, hlegend, hline⟩ := figure_is_faithful hf
  rw [hdrawn] at hall haxis
  obtain _ | ⟨ht, _ | ⟨hu, _ | _⟩⟩ := hall
  rename_i t u
  have hts : HasStatus "done" t := hstatus.1 ▸ ht.status
  have hus : HasStatus "done" u := hstatus.2 ▸ hu.status
  obtain ⟨front, shown, back, hsplit, -, hshown, hfront, hback⟩ := hlegend "done"
    (by simp [hdrawn, hstatus])
  have hfirst : front = [] ∧ shown = t ∧ back = [u] := by
    rcases List.cons_eq_append_iff.1 hsplit with ⟨rfl, heq⟩ | ⟨rest, rfl, -⟩
    · obtain ⟨rfl, rfl⟩ := List.cons_eq_cons.1 heq
      exact ⟨rfl, rfl, rfl⟩
    · exact absurd hts (hfront t List.mem_cons_self)
  obtain ⟨rfl, rfl, rfl⟩ := hfirst
  refine ⟨f, shown, u, hf, hdata, hshown, hback u List.mem_cons_self hus, ?_, haxis (by simp)⟩
  exact hline "done" shown (by simp) u (by simp) hts hus

end GanttChart

end Taskboard
