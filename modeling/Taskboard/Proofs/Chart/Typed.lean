import Taskboard.Proofs.Chart.Bars
import Taskboard.Proofs.Value.Measures

/-!
# Proofs/Chart/Typed — charts and styles as they are meant to be

The fields of a saved chart may be values of any kind.  `IsTyped` says of each kind of chart that
its words are texts and its numbers are numbers; nothing is said of what is in a text, a date or
another one.

A style has a say in three things, the height of a figure, the height of a schedule with so many
bars and the colours of the bars.  `FigureStyle.IsValid` says that the renderer takes the first and
the last; the second is then one of two numbers that can be compared.
-/

namespace Taskboard

open Figure

/-! ## Charts -/

/-- A text. -/
def Value.IsText (v : Value) : Prop := ∃ s, v = .text s

theorem Value.IsText.isOptionalText {v : Value} (h : v.IsText) : v.IsOptionalText := .inr h

/-- A text can be put in quotes. -/
theorem Value.IsText.exists_quotable {v : Value} (h : v.IsText) : ∃ t, v.quotable = .ok t := by
  obtain ⟨s, rfl⟩ := h
  exact ⟨_, rfl⟩

/-- A pie of numbers. -/
structure PieChart.IsTyped (c : PieChart) : Prop where
  title : c.title.IsText
  counts : ∀ s ∈ c.slices, s.count.isNumber = true

/-- Columns of numbers under words, in either of the two forms. -/
structure BarChart.IsTyped (c : BarChart) : Prop where
  title : c.title.IsText
  slices : ∀ ss ∈ c.slices, ∀ s ∈ ss, s.count.isNumber = true
  labels : c.labels = .null ∨ ∃ vs, c.labels = .list vs ∧ ∀ v ∈ vs, v.IsText
  heights : c.heights = .null ∨ ∃ vs, c.heights = .list vs ∧ ∀ v ∈ vs, v.isNumber = true
  axisTitle : c.axisTitle.IsOptionalText
  top : c.top = .null ∨ c.top.isNumber = true

/-- A line of numbers. -/
structure LineChart.IsTyped (c : LineChart) : Prop where
  title : c.title.IsText
  axisTitle : c.axisTitle.IsText
  values : ∀ p ∈ c.points, p.value.isNumber = true

/-- A stretch in words. -/
structure Stretch.IsTyped (s : Stretch) : Prop where
  id : s.id.IsText
  title : s.title.IsText
  start : s.start.IsText
  finish : s.finish.IsText
  status : s.status.IsOptionalText
  needs : s.needs.IsOptionalText

/-- A lane in words. -/
structure Lane.IsTyped (l : Lane) : Prop where
  name : l.name.IsText
  stretches : ∀ s ∈ l.stretches, s.IsTyped

/-- A schedule in words. -/
structure GanttChart.IsTyped (c : GanttChart) : Prop where
  title : c.title.IsText
  dateFormat : c.dateFormat.IsText
  lanes : ∀ l ∈ c.lanes, l.IsTyped

/-- **A chart of texts and numbers.** -/
def Chart.IsTyped : Chart → Prop
  | .pie c => c.IsTyped
  | .bar c => c.IsTyped
  | .line c => c.IsTyped
  | .gantt c => c.IsTyped

/-- **The numbers of a chart are such that a diagram can show.** -/
def Chart.IsMeasured : Chart → Prop
  | .pie c => ∀ s ∈ c.slices, s.count.IsMeasure
  | .bar c => (∀ ss ∈ c.slices, ∀ s ∈ ss, s.count.IsMeasure) ∧
      (∀ vs, c.heights = .list vs → ∀ v ∈ vs, v.IsMeasure) ∧ (c.top = .null ∨ c.top.IsMeasure)
  | .line c => ∀ p ∈ c.points, p.value.IsMeasure
  | .gantt _ => True

/-! ## Colours -/

theorem Palette.usual_fit : ∀ e ∈ usual, ∃ color, colorProperty e.2 = .ok color := by
  have hall : ∀ e ∈ usual, (colorProperty e.2).isOk = true := by decide
  intro e he
  exact exists_ok_of_isOk (hall e he)

/-- **Every status has a colour**, if those of a palette are colours. -/
theorem Palette.exists_color {p : Palette} (h : ∀ e ∈ p, ∃ color, colorProperty e.2 = .ok color)
    (status : String) : ∃ color, colorProperty (p.color status) = .ok color := by
  have hfound : ∀ {status : String} {v : Value}, p.color? status = some v →
      ∃ color, colorProperty v = .ok color := by
    intro status v hv
    rcases Option.or_eq_some_iff.mp hv with hv | ⟨-, hv⟩
    · exact h _ (List.mem_reverse.mp (mem_of_entryAt? hv))
    · exact usual_fit _ (mem_of_entryAt? hv)
  rw [color]
  cases hcolor : (p.color? status).or (p.color? unknown) with
  | none => exact ⟨none, rfl⟩
  | some v =>
    rcases Option.or_eq_some_iff.mp hcolor with hv | ⟨-, hv⟩
    · exact hfound hv
    · exact hfound hv

/-! ## Styles -/

/-- **A style that the renderer takes**: its height is one of a figure, and its colours are
colours. -/
structure FigureStyle.IsValid (style : FigureStyle) : Prop where
  height : ∃ height, heightProperty style.drawnHeight = .ok height
  palette : ∀ e ∈ style.palette, ∃ color, colorProperty e.2 = .ok color

namespace FigureStyle.IsValid

variable {style : FigureStyle}

theorem usual : ({} : FigureStyle).IsValid :=
  ⟨⟨_, heightProperty_int (by decide)⟩, fun e he => nomatch he⟩

/-- A figure with a title in words has a layout. -/
theorem exists_layout (h : style.IsValid) (title : String) (more : List (String × Value)) :
    ∃ fields, layout style (.text title) more = .ok fields := by
  obtain ⟨height, hheight⟩ := h.height
  exact ⟨_, do_eq_ok.mpr ⟨_, rfl, do_eq_ok.mpr ⟨height, hheight, rfl⟩⟩⟩

/-- A height of a figure is a number. -/
theorem isNumber (h : style.IsValid) : style.drawnHeight.isNumber = true := by
  obtain ⟨height, hheight⟩ := h.height
  unfold heightProperty at hheight
  split at hheight
  next hnumber => exact hnumber
  next => cases hheight

/-- There is a height for any count of bars. -/
theorem exists_heightFor (h : style.IsValid) (count : Nat) :
    ∃ height, GanttChart.heightFor style count = .ok height := by
  obtain ⟨b, hb⟩ := Value.exists_lessThan h.isNumber
    (rfl : (Value.int (count * GanttChart.barPixels + GanttChart.framePixels)).isNumber = true)
  exact ⟨_, map_eq_ok.mpr ⟨b, hb, rfl⟩⟩

end FigureStyle.IsValid

end Taskboard
