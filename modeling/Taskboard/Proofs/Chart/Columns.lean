import Taskboard.Proofs.Chart.Traces
import Taskboard.Proofs.Chart.Typed

/-!
# Proofs/Chart/Columns — the two renderings of columns

A diagram and a figure read the labels and heights of columns off the chart on their own.  Both
prefer slices, and both take the two lists if both are there; but where one list is missing, the
figure has no columns at all and the diagram has those of the other list.

* `BarChart.diagram_columns_iff` — exactly when both have the same labels and heights.
* `BarChart.exists_lines`, `BarChart.exists_figure` — there are both renderings.
* `BarChart.renderings_agree_iff` — **when the renderings show the same data.**
-/

namespace Taskboard

open Figure

namespace Value

/-- Only what counts as nothing is without members. -/
theorem members_eq_nil_iff {v : Value} {xs : List Value} (h : v.members = .ok xs) :
    xs = [] ↔ v.isTrue = false := by
  cases v with
  | list ys | set ys =>
    obtain rfl := Except.ok.inj h
    rw [isTrue, Bool.not_eq_false', List.isEmpty_iff]
  | map es =>
    obtain rfl := Except.ok.inj h
    rw [isTrue, Bool.not_eq_false', List.isEmpty_iff, List.map_eq_nil_iff]
  | text s =>
    obtain rfl := Except.ok.inj h
    rw [isTrue, decide_eq_false_iff_not, not_not, List.map_eq_nil_iff, String.toList_eq_nil_iff]
  | bytes bs =>
    obtain rfl := Except.ok.inj h
    rw [isTrue, Bool.not_eq_false', List.isEmpty_iff, List.map_eq_nil_iff]
  | null | bool | int | real | date | moment => cases h

end Value

namespace BarChart

variable {c : BarChart} {labels heights : List Value}

/-- The members of a value that is there, as a diagram reads them. -/
theorem membersOrNone_of_members {v : Value} {xs : List Value} (h : v.members = .ok xs) :
    membersOrNone v = .ok xs := by
  unfold membersOrNone
  split
  next => exact h
  next hnone => rw [(Value.members_eq_nil_iff h).mpr (Bool.eq_false_iff.mpr hnone)]

/-- What a diagram reads is nothing exactly if it counts as nothing. -/
theorem membersOrNone_eq_nil_iff {v : Value} {xs : List Value} (h : membersOrNone v = .ok xs) :
    xs = [] ↔ v.isTrue = false := by
  unfold membersOrNone at h
  split at h
  next => exact Value.members_eq_nil_iff h
  next hnone =>
    obtain rfl := Except.ok.inj h
    exact iff_of_true rfl (Bool.eq_false_iff.mpr hnone)

/-- **The chart has its columns in one form**: slices, or both lists, or neither of them. -/
def InOneForm (c : BarChart) : Prop :=
  c.filledSlices?.isSome = true ∨ (c.labels ≠ .null ∧ c.heights ≠ .null) ∨
    (c.labels.isTrue = false ∧ c.heights.isTrue = false)

/-- Lists of which one is missing are the same in a diagram if both count as nothing. -/
theorem eq_nil_and_iff {labels' heights' : List Value}
    (hlabels : membersOrNone c.labels = .ok labels')
    (hheights : membersOrNone c.heights = .ok heights') (hslices : c.filledSlices? = none)
    (hmissing : c.labels = .null ∨ c.heights = .null) :
    labels' = [] ∧ heights' = [] ↔ c.InOneForm := by
  rw [membersOrNone_eq_nil_iff hlabels, membersOrNone_eq_nil_iff hheights]
  refine ⟨fun h => .inr (.inr h), fun h => ?_⟩
  rcases h with hsome | ⟨hl, hh⟩ | h
  · rw [hslices] at hsome
    cases hsome
  · exact absurd hmissing (not_or.mpr ⟨hl, hh⟩)
  · exact h

/-- **Diagram and figure have the same columns exactly if** the chart has them in one form. -/
theorem diagram_columns_iff (hcolumns : c.columns = .ok (labels, heights))
    {labels' heights' : List Value} (hlabels : c.diagramLabels = .ok labels')
    (hheights : c.diagramHeights = .ok heights') :
    labels' = labels ∧ heights' = heights ↔ c.InOneForm := by
  unfold columns at hcolumns
  unfold diagramLabels at hlabels
  unfold diagramHeights at hheights
  split at hcolumns
  next slices _ _ hslices =>
    rw [hslices] at hlabels hheights
    obtain ⟨rfl, rfl⟩ := Prod.mk.inj (Except.ok.inj hcolumns)
    obtain rfl := Except.ok.inj hlabels
    obtain rfl := Except.ok.inj hheights
    exact iff_of_true ⟨rfl, rfl⟩ (.inl (Option.isSome_of_eq_some hslices))
  next hslices hnull =>
    rw [hslices] at hlabels hheights
    obtain ⟨rfl, rfl⟩ := Prod.mk.inj (Except.ok.inj hcolumns)
    exact eq_nil_and_iff hlabels hheights hslices (.inl hnull)
  next hslices hnull _ =>
    rw [hslices] at hlabels hheights
    obtain ⟨rfl, rfl⟩ := Prod.mk.inj (Except.ok.inj hcolumns)
    exact eq_nil_and_iff hlabels hheights hslices (.inr hnull)
  next hslices hl hh =>
    rw [hslices] at hlabels hheights
    obtain ⟨ls, hls, hcolumns⟩ := bind_eq_ok.mp hcolumns
    obtain ⟨hs, hhs, heq⟩ := map_eq_ok.mp hcolumns
    obtain ⟨rfl, rfl⟩ := Prod.mk.inj heq
    obtain rfl := Except.ok.inj (hlabels.symm.trans (membersOrNone_of_members hls))
    obtain rfl := Except.ok.inj (hheights.symm.trans (membersOrNone_of_members hhs))
    exact iff_of_true ⟨rfl, rfl⟩ (.inr (.inl ⟨hl, hh⟩))

/-- A figure of a chart in neither form has no columns. -/
theorem columns_eq_nil (hcolumns : c.columns = .ok (labels, heights)) (hform : ¬ c.InOneForm) :
    labels = [] ∧ heights = [] := by
  unfold columns at hcolumns
  split at hcolumns
  next hslices => exact absurd (.inl (Option.isSome_of_eq_some hslices)) hform
  next => exact (Prod.mk.inj (Except.ok.inj hcolumns)).imp Eq.symm Eq.symm
  next => exact (Prod.mk.inj (Except.ok.inj hcolumns)).imp Eq.symm Eq.symm
  next _ hl hh => exact absurd (.inr (.inl ⟨hl, hh⟩)) hform

/-! ## What the diagram shows -/

/-- **A diagram shows columns**: the labels in quotes on one line, and the texts of the heights on
another one. -/
def ShowsColumns (lines : List String) (labels heights : List Value) : Prop :=
  ∃ ls hs, List.Forall₂ (fun (v : Value) t => v.quotable = .ok t) labels ls ∧
    List.Forall₂ (fun (v : Value) t => v.formatted = .ok t) heights hs ∧
    lines[2]? = some ("    x-axis [" ++ listed (ls.map inQuotes) ++ "]") ∧
    lines[4]? = some ("    bar [" ++ listed hs ++ "]")

/-- A diagram shows the columns that it read. -/
theorem exists_showsColumns {lines : List String} (h : c.lines = .ok lines) :
    ∃ labels heights, c.diagramLabels = .ok labels ∧ c.diagramHeights = .ok heights ∧
      ShowsColumns lines labels heights := by
  simp only [BarChart.lines, do_eq_ok] at h
  obtain ⟨labels, hlabels, heights, hheights, top, -, title, -, ls, hls, axisTitle, -, w, -,
    bound, -, hs, hhs, h⟩ := h
  obtain rfl := Except.ok.inj h
  exact ⟨labels, heights, hlabels, hheights, ls, hs, mapM_eq_ok.mp hls, mapM_eq_ok.mp hhs, rfl, rfl⟩

/-- Texts are listed as nothing only if there are none. -/
theorem eq_nil_of_listed {ts : List String} (hne : ∀ t ∈ ts, t.toList ≠ [])
    (h : (listed ts).toList = []) : ts = [] := by
  cases ts with
  | nil => rfl
  | cons t ts =>
    refine absurd ?_ (hne t List.mem_cons_self)
    rw [listed] at h
    cases ts with
    | nil => rwa [String.intercalate_singleton] at h
    | cons u ts =>
      rw [String.intercalate_cons_cons, String.toList_append, String.toList_append,
        List.append_eq_nil_iff, List.append_eq_nil_iff] at h
      exact h.1.1

/-- **What shows no columns was read from none.** -/
theorem ShowsColumns.eq_nil {lines : List String} (h : ShowsColumns lines labels heights)
    (hnone : ShowsColumns lines [] []) : labels = [] ∧ heights = [] := by
  obtain ⟨ls, hs, hls, hhs, hxaxis, hbar⟩ := h
  obtain ⟨ls', hs', hls', hhs', hxaxis', hbar'⟩ := hnone
  obtain rfl := List.forall₂_nil_left_iff.mp hls'
  obtain rfl := List.forall₂_nil_left_iff.mp hhs'
  rw [hxaxis] at hxaxis'
  rw [hbar] at hbar'
  have hlisted : (listed (ls.map inQuotes)).toList = [] ∧ (listed hs).toList = [] := by
    constructor
    · simpa [listed] using congrArg String.toList (Option.some.inj hxaxis')
    · simpa [listed] using congrArg String.toList (Option.some.inj hbar')
  have hlabels : ls.map inQuotes = [] := eq_nil_of_listed (fun t ht => by
    obtain ⟨s, -, rfl⟩ := List.mem_map.mp ht
    simp [inQuotes]) hlisted.1
  have hheights : hs = [] := eq_nil_of_listed (fun t ht => by
    obtain ⟨v, -, hv⟩ := exists_left_of_forall₂ hhs ht
    exact (Value.isNumberText_of_compactNumber hv).1) hlisted.2
  rw [List.map_eq_nil_iff.mp hlabels] at hls
  rw [hheights] at hhs
  exact ⟨List.forall₂_nil_right_iff.mp hls, List.forall₂_nil_right_iff.mp hhs⟩

/-! ## What the figure shows -/

/-- **A figure has columns**: the labels and the heights of its trace. -/
def HasColumns (f : Value) (labels heights : List Value) : Prop :=
  ∃ trace, f.field? "data" = .ok (some (.list [trace])) ∧
    trace.field? "x" = .ok (some (.list labels)) ∧ trace.field? "y" = .ok (some (.list heights))

variable {style : FigureStyle} {f : Value}

theorem HasColumns.unique {labels' heights' : List Value} (h : HasColumns f labels heights)
    (h' : HasColumns f labels' heights') : labels' = labels ∧ heights' = heights := by
  obtain ⟨trace, hdata, hx, hy⟩ := h
  obtain ⟨trace', hdata', hx', hy'⟩ := h'
  rw [hdata] at hdata'
  cases hdata'
  rw [hx] at hx'
  rw [hy] at hy'
  cases hx'
  cases hy'
  exact ⟨rfl, rfl⟩

/-- A figure has the columns that it read. -/
theorem exists_hasColumns (h : c.figure style = .ok f) :
    ∃ labels heights, c.columns = .ok (labels, heights) ∧ HasColumns f labels heights := by
  simp only [BarChart.figure, do_eq_ok] at h
  obtain ⟨⟨labels, heights⟩, hcolumns, name, -, axisTitle, -, fields, -, h⟩ := h
  obtain rfl := Except.ok.inj h
  refine ⟨labels, heights, hcolumns, _, field?_make_data _ _, ?_, ?_⟩ <;>
    rw [Value.field?_object] <;> cases name <;> rfl

/-! ## Both renderings -/

/-- **The renderings agree**: the diagram shows the columns of the figure. -/
def Agree (lines : List String) (f : Value) : Prop :=
  ∃ labels heights, HasColumns f labels heights ∧ ShowsColumns lines labels heights

/-- **The renderings of a chart agree exactly if** it has its columns in one form. -/
theorem agree_iff {lines : List String} (hlines : c.lines = .ok lines)
    (hfigure : c.figure style = .ok f) : Agree lines f ↔ c.InOneForm := by
  obtain ⟨labels, heights, hcolumns, hhas⟩ := exists_hasColumns hfigure
  obtain ⟨labels', heights', hlabels, hheights, hshows⟩ := exists_showsColumns hlines
  have hiff := diagram_columns_iff hcolumns hlabels hheights
  constructor
  · rintro ⟨ls, hs, hhas', hshows'⟩
    by_contra hform
    obtain ⟨rfl, rfl⟩ := hhas.unique hhas'
    obtain ⟨rfl, rfl⟩ := columns_eq_nil hcolumns hform
    exact hform (hiff.mp (hshows.eq_nil hshows'))
  · intro hform
    obtain ⟨rfl, rfl⟩ := hiff.mpr hform
    exact ⟨_, _, hhas, hshows⟩

/-! ## Charts that have both renderings -/

/-- A list of a chart, as a diagram reads it. -/
theorem exists_membersOrNone {P : Value → Prop} {v : Value}
    (h : v = .null ∨ ∃ vs, v = .list vs ∧ ∀ w ∈ vs, P w) :
    ∃ vs, membersOrNone v = .ok vs ∧ ∀ w ∈ vs, P w := by
  rcases h with rfl | ⟨vs, rfl, hvs⟩
  · exact ⟨[], rfl, fun w hw => nomatch hw⟩
  · exact ⟨vs, membersOrNone_of_members rfl, hvs⟩

/-- The slices of a chart are among those that it was given. -/
theorem mem_slices {ss : List Slice} (h : c.filledSlices? = some ss) : ss ∈ c.slices := by
  unfold filledSlices? at h
  split at h
  next => cases h
  next => cases h
  next s rest hslices => exact hslices.trans h

/-- The labels of a diagram are texts. -/
theorem exists_diagramLabels (hc : c.IsTyped) :
    ∃ labels, c.diagramLabels = .ok labels ∧ ∀ v ∈ labels, v.IsText := by
  unfold diagramLabels
  split
  next slices _ =>
    refine ⟨_, rfl, fun v hv => ?_⟩
    obtain ⟨s, -, rfl⟩ := List.mem_map.mp hv
    exact ⟨s.label, rfl⟩
  next => exact exists_membersOrNone hc.labels

/-- The heights of a diagram are measures. -/
theorem exists_diagramHeights (hc : c.IsTyped) (hmeasured : (Chart.bar c).IsMeasured) :
    ∃ heights, c.diagramHeights = .ok heights ∧ ∀ v ∈ heights, v.IsMeasure := by
  obtain ⟨hslices, hheights, -⟩ := hmeasured
  unfold diagramHeights
  split
  next slices hfilled =>
    refine ⟨_, rfl, fun v hv => ?_⟩
    obtain ⟨s, hs, rfl⟩ := List.mem_map.mp hv
    exact hslices slices (mem_slices hfilled) s hs
  next => exact exists_membersOrNone (hc.heights.imp_right fun ⟨vs, hvs, _⟩ =>
    ⟨vs, hvs, hheights vs hvs⟩)

/-- The top of a diagram is a measure. -/
theorem exists_topOf (hmeasured : (Chart.bar c).IsMeasured) {heights : List Value}
    (h : ∀ v ∈ heights, v.IsMeasure) : ∃ top, c.topOf heights = .ok top ∧ top.IsMeasure := by
  unfold topOf
  split
  next =>
    exact Value.IsMeasure.exists_greatest h
  next hgiven => exact ⟨_, rfl, hmeasured.2.2.resolve_left hgiven⟩

/-- **There is a diagram** of texts and measures. -/
theorem exists_lines (hc : c.IsTyped) (hmeasured : (Chart.bar c).IsMeasured) :
    ∃ lines, c.lines = .ok lines := by
  obtain ⟨labels, hlabels, htexts⟩ := exists_diagramLabels hc
  obtain ⟨heights, hheights, hmeasures⟩ := exists_diagramHeights hc hmeasured
  obtain ⟨top, htop, htopMeasure⟩ := exists_topOf hmeasured hmeasures
  obtain ⟨title, htitle⟩ := hc.title.exists_quotable
  obtain ⟨ls, hls⟩ := exists_mapM_eq_ok.mpr fun v hv => (htexts v hv).exists_quotable
  obtain ⟨axisTitle, haxisTitle⟩ := Value.IsText.exists_quotable (hc.axisTitle.orElse countTitle)
  obtain ⟨w, bound, hw, hbound⟩ := htopMeasure.exists_bound
  obtain ⟨hs, hhs⟩ := exists_mapM_eq_ok.mpr fun v hv => (hmeasures v hv).exists_compactNumber 2
  refine exists_do_of_ok hlabels (exists_do_of_ok hheights (exists_do_of_ok htop ?_))
  refine exists_do_of_ok htitle (exists_do_of_ok hls (exists_do_of_ok haxisTitle ?_))
  exact exists_do_of_ok hw (exists_do_of_ok hbound (exists_do_of_ok hhs ⟨_, rfl⟩))

/-- The two lists of a chart have members if they are there. -/
theorem exists_columns (hc : c.IsTyped) : ∃ columns, c.columns = .ok columns := by
  unfold columns
  split
  next => exact ⟨_, rfl⟩
  next => exact ⟨_, rfl⟩
  next => exact ⟨_, rfl⟩
  next _ hl hh =>
    obtain ⟨ls, hls, -⟩ := hc.labels.resolve_left hl
    obtain ⟨hs, hhs, -⟩ := hc.heights.resolve_left hh
    rw [hls, hhs]
    exact ⟨_, rfl⟩

/-- **There is a figure** of texts and numbers. -/
theorem exists_figure (hc : c.IsTyped) (hstyle : style.IsValid) :
    ∃ f, c.figure style = .ok f := by
  obtain ⟨columns, hcolumns⟩ := exists_columns hc
  obtain ⟨name, hname⟩ := hc.title.isOptionalText.orElse countTitle
  obtain ⟨axisTitle, haxisTitle⟩ := hc.axisTitle.orElse ""
  obtain ⟨title, htitle⟩ := hc.title.isOptionalText.orElse "Bar Chart"
  rw [BarChart.figure, hname, haxisTitle, htitle]
  refine exists_do_of_ok hcolumns (exists_do_of_ok rfl (exists_do_of_ok rfl ?_))
  obtain ⟨fields, hfields⟩ := hstyle.exists_layout title _
  exact exists_do_of_ok hfields ⟨_, rfl⟩

/-- **When the renderings of columns show the same data.**  A chart of texts and measures has both
renderings, in a style that the renderer takes.  Where there are both, they agree exactly if the
chart has its columns in one form: slices, or both lists, or neither of them. -/
theorem renderings_agree_iff (c : BarChart) (style : FigureStyle) :
    (c.IsTyped → (Chart.bar c).IsMeasured → style.IsValid →
      (∃ lines, c.lines = .ok lines) ∧ ∃ f, c.figure style = .ok f) ∧
    ∀ lines f, c.lines = .ok lines → c.figure style = .ok f → (Agree lines f ↔ c.InOneForm) := by
  constructor
  · exact fun hc hmeasured hstyle => ⟨exists_lines hc hmeasured, exists_figure hc hstyle⟩
  · exact fun lines f hlines hfigure => agree_iff hlines hfigure

/-- Columns given by slices. -/
def byOwner : BarChart :=
  ⟨.text "By owner", some [⟨"ann", .int 2⟩, ⟨"bo", .int 4⟩], .null, .null, .null, .null⟩

/-- Both renderings show the slices. -/
theorem byOwner_agrees : ∃ lines f, byOwner.lines = .ok lines ∧ byOwner.figure {} = .ok f ∧
    Agree lines f := by
  have htyped : byOwner.IsTyped := by
    refine ⟨⟨_, rfl⟩, fun ss hss s hs => ?_, .inl rfl, .inl rfl, .inl rfl, .inl rfl⟩
    obtain rfl := Option.some.inj hss
    rcases List.mem_pair.mp hs with rfl | rfl <;> rfl
  have hmeasured : (Chart.bar byOwner).IsMeasured := by
    refine ⟨fun ss hss s hs => ?_, (fun vs hvs => nomatch hvs), .inl rfl⟩
    obtain rfl := Option.some.inj hss
    rcases List.mem_pair.mp hs with rfl | rfl
    · exact (by decide +kernel : (2 : Int).natAbs ≤ 2 ^ (1000 : Nat))
    · exact (by decide +kernel : (4 : Int).natAbs ≤ 2 ^ (1000 : Nat))
  obtain ⟨hexists, hagree⟩ := renderings_agree_iff byOwner {}
  obtain ⟨⟨lines, hlines⟩, f, hf⟩ := hexists htyped hmeasured .usual
  exact ⟨lines, f, hlines, hf, (hagree lines f hlines hf).mpr (.inl rfl)⟩

/-- A list of labels without heights. -/
def labelsAlone : BarChart := ⟨.text "Empty", none, .list [.text "a"], .null, .null, .null⟩

/-- **The diagram shows a label that the figure has not.** -/
theorem labelsAlone_disagrees : ∃ lines f, labelsAlone.lines = .ok lines ∧
    labelsAlone.figure {} = .ok f ∧ ¬ Agree lines f := by
  have htyped : labelsAlone.IsTyped := by
    refine ⟨⟨_, rfl⟩, (fun ss hss => nomatch hss), .inr ⟨_, rfl, fun v hv => ?_⟩, .inl rfl,
      .inl rfl, .inl rfl⟩
    rw [List.mem_singleton.mp hv]
    exact ⟨_, rfl⟩
  obtain ⟨lines, hlines⟩ := exists_lines htyped
    ⟨(fun ss hss => nomatch hss), (fun vs hvs => nomatch hvs), .inl rfl⟩
  obtain ⟨f, hf⟩ := exists_figure htyped .usual
  refine ⟨lines, f, hlines, hf, fun hagree => ?_⟩
  rcases (agree_iff hlines hf).mp hagree with hslices | ⟨-, hheights⟩ | ⟨hlabels, -⟩
  · cases hslices
  · exact hheights rfl
  · cases hlabels

end BarChart

end Taskboard
