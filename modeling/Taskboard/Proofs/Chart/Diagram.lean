import Taskboard.Proofs.Chart.Columns
import Taskboard.Proofs.Chart.Lines
import Taskboard.Proofs.Chart.Points

/-!
# Proofs/Chart/Diagram — the lines of a diagram and the quotes on them

A diagram is written item by item, one text for each.  Nothing takes line breaks out of the words
that are put in, so the diagram has a line for each item and one more for each line break in a word
(`Chart.words`).  Double quotes are taken out of what is put in quotes, but for a date that cannot
be read, and then a line is read back into exactly these texts.

* `GanttChart.lines_of_isTyped` and its kin — the lines of each kind of chart.
* `Chart.diagram_is_faithful` — **how many lines a diagram has, and what is read back from them.**
-/

namespace Taskboard

-- lists of characters are gone through one by one, and sums are those of the naturals, also where
-- an importing module knows other ways
attribute [local instance (high)] List.decidableBAll Zero.ofOfNat0

/-! ## Words -/

/-- The word that a value is, if it is a text. -/
def Value.word : Value → String
  | .text s => s
  | _ => ""

/-- The words of a stretch that a diagram writes. -/
def Stretch.words (s : Stretch) : List String :=
  [s.title.word, s.needs.word, s.start.word, s.finish.word]

/-- The words of a lane. -/
def Lane.words (l : Lane) : List String := l.name.word :: l.stretches.flatMap Stretch.words

/-- The words under columns. -/
def BarChart.labelWords (c : BarChart) : List String :=
  match c.filledSlices?, c.labels with
  | some slices, _ => slices.map Slice.label
  | none, .list vs => vs.map Value.word
  | none, _ => []

namespace Chart

/-- **The words that a diagram writes.** -/
def words : Chart → List String
  | .pie c => c.title.word :: c.slices.map Slice.label
  | .bar c => c.title.word :: c.axisTitle.word :: c.labelWords
  | .line c => c.title.word :: c.axisTitle.word :: c.points.map Point.label
  | .gantt c => c.dateFormat.word :: c.title.word :: c.lanes.flatMap Lane.words

/-- **The items of a diagram.** -/
def itemCount : Chart → Nat
  | .pie c => 2 + c.slices.length
  | .bar _ => 5
  | .line _ => 5
  | .gantt c => 4 + (c.lanes.map fun l => 1 + l.stretches.length).sum

end Chart

/-! ## Schedules -/

namespace Stretch

variable {s : Stretch} {t : String}

/-- The line of a stretch breaks where its words do. -/
theorem lineBreaks_line (hs : s.IsTyped) (h : s.line = .ok t) : lineBreaks t = breaks s.words := by
  obtain ⟨title, htitle⟩ := hs.title
  obtain ⟨start, hstart⟩ := hs.start
  obtain ⟨finish, hfinish⟩ := hs.finish
  rw [Stretch.line, htitle, hstart, hfinish] at h
  rw [words, htitle, hstart, hfinish]
  rcases hs.needs with hneeds | ⟨needs, hneeds⟩
  · rw [hneeds] at h ⊢
    obtain rfl := Except.ok.inj h
    simp [Value.word, lineBreaks]
  · have hanchor : lineBreaks (replaceChar ' ' '_' (replaceChar '-' '_' needs))
        = lineBreaks needs := by
      rw [lineBreaks_replaceChar (by decide) (by decide),
        lineBreaks_replaceChar (by decide) (by decide)]
    rw [hneeds] at h ⊢
    split at h
    next =>
      obtain rfl := Except.ok.inj h
      unfold lineBreaks at hanchor
      simp [Value.word, lineBreaks, hanchor]
    next hnone =>
      have hempty : needs = "" := by simpa [Value.isTrue] using hnone
      obtain rfl := Except.ok.inj h
      simp [Value.word, lineBreaks, hempty]

/-- A stretch in words has a line. -/
theorem exists_line (hs : s.IsTyped) : ∃ t, s.line = .ok t := by
  obtain ⟨title, htitle⟩ := hs.title
  obtain ⟨start, hstart⟩ := hs.start
  obtain ⟨finish, hfinish⟩ := hs.finish
  rw [Stretch.line, htitle, hstart, hfinish]
  split
  next hneeds =>
    obtain ⟨anchor, hanchor⟩ := hs.needs.asText hneeds
    rw [anchorText, hanchor]
    exact ⟨_, rfl⟩
  next => exact ⟨_, rfl⟩

end Stretch

namespace Lane

variable {l : Lane} {ts : List String}

/-- The lines of a lane are its heading and one for each stretch, and they break where its words
do. -/
theorem lines_of_isTyped (hl : l.IsTyped) (h : l.lines = .ok ts) :
    ts.length = 1 + l.stretches.length ∧ breaks ts = breaks l.words := by
  obtain ⟨name, hname⟩ := hl.name
  simp only [Lane.lines, hname, do_eq_ok] at h
  obtain ⟨heading, hheading, rest, hrest, h⟩ := h
  obtain rfl := Except.ok.inj hheading
  obtain rfl := Except.ok.inj h
  have hbreaks : breaks rest = breaks (l.stretches.flatMap Stretch.words) := by
    rw [breaks_flatMap, breaks, map_eq_map_of_mapM hrest hl.stretches fun s t hs ht =>
      Stretch.lineBreaks_line hs ht]
  constructor
  · rw [List.length_cons, (mapM_eq_ok.mp hrest).length_eq, Nat.add_comm]
  · rw [words, hname, breaks_cons, breaks_cons, hbreaks]
    simp [Value.word, lineBreaks]

theorem exists_lines (hl : l.IsTyped) : ∃ ts, l.lines = .ok ts := by
  obtain ⟨name, hname⟩ := hl.name
  obtain ⟨rest, hrest⟩ := exists_mapM_eq_ok.mpr fun s hs => Stretch.exists_line (hl.stretches s hs)
  rw [Lane.lines, hname]
  exact exists_do_of_ok rfl (exists_do_of_ok hrest ⟨_, rfl⟩)

end Lane

namespace GanttChart

variable {c : GanttChart} {lines : List String}

/-- **The lines of a schedule**: four, and those of its lanes. -/
theorem lines_of_isTyped (hc : c.IsTyped) (h : c.lines = .ok lines) :
    lines.length = (Chart.gantt c).itemCount ∧ breaks lines = breaks (Chart.gantt c).words := by
  obtain ⟨dateFormat, hdateFormat⟩ := hc.dateFormat
  obtain ⟨title, htitle⟩ := hc.title
  simp only [GanttChart.lines, hdateFormat, htitle, do_eq_ok] at h
  obtain ⟨_, hfirst, _, hsecond, rest, hrest, h⟩ := h
  obtain rfl := Except.ok.inj hfirst
  obtain rfl := Except.ok.inj hsecond
  obtain rfl := Except.ok.inj h
  have hlength := map_eq_map_of_mapM hrest hc.lanes fun l ts hl hts =>
    (Lane.lines_of_isTyped hl hts).1
  have hbreaks := map_eq_map_of_mapM hrest hc.lanes fun l ts hl hts =>
    (Lane.lines_of_isTyped hl hts).2
  constructor
  · rw [List.length_append, List.length_flatten, hlength]
    rfl
  · rw [breaks_append, breaks_flatten, hbreaks, Chart.words, hdateFormat, htitle]
    simp only [breaks_cons, breaks_flatMap]
    simp [Value.word, lineBreaks]
    omega

theorem exists_lines (hc : c.IsTyped) : ∃ lines, c.lines = .ok lines := by
  obtain ⟨dateFormat, hdateFormat⟩ := hc.dateFormat
  obtain ⟨title, htitle⟩ := hc.title
  obtain ⟨rest, hrest⟩ := exists_mapM_eq_ok.mpr fun l hl => Lane.exists_lines (hc.lanes l hl)
  rw [GanttChart.lines, hdateFormat, htitle]
  exact exists_do_of_ok rfl (exists_do_of_ok rfl (exists_do_of_ok hrest ⟨_, rfl⟩))

end GanttChart

/-! ## Pies -/

/-- A number is written in the characters of numbers, or as a word. -/
theorem Value.isNumeric_or_isAlpha {v : Value} {t : String} (hv : v.isNumber = true)
    (h : v.shown = .ok t) : ∀ c ∈ t.toList, Json.isNumeric c = true ∨ c.isAlpha = true := by
  cases v with
  | bool b =>
    obtain rfl := Except.ok.inj h
    cases b <;> decide
  | int n => exact fun c hc => .inl ((isNumberText_of_wholeText h).2 c hc)
  | real x =>
    obtain rfl := Except.ok.inj h
    intro c hc
    cases x with
    | finite s m => exact .inl (Json.isNumeric_realText (.finite s m) c hc)
    | nan => exact (by decide : ∀ c ∈ "nan".toList, Json.isNumeric c = true ∨ c.isAlpha = true) c hc
    | infinite s =>
      refine .inl ?_
      revert c
      cases s <;> decide
  | null | text | date | moment | bytes | list | map | set => cases hv

namespace Slice

variable {s : Slice} {t : String}

/-- The line of a slice breaks where its label does, and its label is read back. -/
theorem line_of_isNumber (hs : s.count.isNumber = true) (h : s.line = .ok t) :
    lineBreaks t = lineBreaks s.label ∧ readQuoted t = [unquoted s.label] := by
  obtain ⟨count, hcount, rfl⟩ := map_eq_ok.mp h
  have hnone {c : Char} (hnumeric : Json.isNumeric c = false) (halpha : c.isAlpha = false) :
      c ∉ count.toList := fun hmem => by
    rcases Value.isNumeric_or_isAlpha hs hcount c hmem with h | h
    · exact absurd h (hnumeric ▸ Bool.false_ne_true)
    · exact absurd h (halpha ▸ Bool.false_ne_true)
  have hbreaks : lineBreaks count = 0 :=
    List.count_eq_zero_of_not_mem (hnone (by decide) (by decide))
  constructor
  · rw [lineBreaks_append, lineBreaks_append, lineBreaks_append, hbreaks, lineBreaks_inQuotes,
      lineBreaks_replaceChar (by decide) (by decide)]
    exact Nat.zero_add _
  · rw [String.append_assoc]
    refine (readQuoted_append (by decide) (quote_not_mem_unquoted s.label) _).trans ?_
    rw [readQuoted_of_not_mem]
    rw [String.toList_append]
    exact fun hmem => (List.mem_append.mp hmem).elim (by decide) (hnone (by decide) (by decide))

end Slice

namespace PieChart

variable {c : PieChart} {lines : List String}

/-- **The lines of a pie**: two, and one for each slice, whose label is read back. -/
theorem lines_of_isTyped (hc : c.IsTyped) (h : c.lines = .ok lines) :
    lines.length = (Chart.pie c).itemCount ∧ breaks lines = breaks (Chart.pie c).words ∧
      (lines.drop 2).map readQuoted = c.slices.map fun s => [unquoted s.label] := by
  obtain ⟨title, htitle⟩ := hc.title
  simp only [PieChart.lines, htitle, do_eq_ok] at h
  obtain ⟨_, hshown, rest, hrest, h⟩ := h
  obtain rfl := Except.ok.inj hshown
  obtain rfl := Except.ok.inj h
  have hbreaks := map_eq_map_of_mapM hrest hc.counts fun s t hs ht =>
    (Slice.line_of_isNumber hs ht).1
  have hquoted := map_eq_map_of_mapM hrest hc.counts fun s t hs ht =>
    (Slice.line_of_isNumber hs ht).2
  refine ⟨?_, ?_, hquoted⟩
  · rw [List.length_cons, List.length_cons, ← (mapM_eq_ok.mp hrest).length_eq]
    exact Nat.add_comm _ 2
  · have hslices : breaks rest = breaks (c.slices.map Slice.label) := by
      rw [breaks, hbreaks, breaks, List.map_map]
      rfl
    rw [breaks_cons, breaks_cons, lineBreaks_append, hslices, Chart.words, breaks_cons, htitle]
    exact (Nat.zero_add _).trans (congrArg (· + _) (Nat.zero_add _))

/-- There are lines for numbers that can be shown. -/
theorem exists_lines (hc : c.IsTyped) (hmeasured : (Chart.pie c).IsMeasured) :
    ∃ lines, c.lines = .ok lines := by
  obtain ⟨title, htitle⟩ := hc.title
  obtain ⟨rest, hrest⟩ := exists_mapM_eq_ok.mpr fun s (hs : s ∈ c.slices) =>
    exists_map_eq_ok.mpr (hmeasured s hs).exists_shown
  rw [PieChart.lines, htitle]
  exact exists_do_of_ok rfl (exists_do_of_ok hrest ⟨_, rfl⟩)

end PieChart

/-- What can be quoted is a text without double quotes that breaks no further line. -/
theorem Value.quotable_eq_ok {v : Value} {t : String} (h : v.quotable = .ok t) :
    t = unquoted v.word := by
  obtain ⟨s, hs, rfl⟩ := map_eq_ok.mp h
  cases v with
  | text =>
    obtain rfl := Except.ok.inj hs
    rfl
  | null | bool | int | real | date | moment | bytes | list | map | set => cases hs

/-! ## Columns -/

namespace BarChart

variable {c : BarChart} {lines : List String}

/-- The labels of a diagram are the words under the columns. -/
theorem word_diagramLabels (hc : c.IsTyped) {labels : List Value}
    (h : c.diagramLabels = .ok labels) : labels.map Value.word = c.labelWords := by
  unfold diagramLabels at h
  unfold labelWords
  cases hslices : c.filledSlices? with
  | some slices =>
    rw [hslices] at h
    obtain rfl := Except.ok.inj h
    rw [List.map_map]
    rfl
  | none =>
    rw [hslices] at h
    rcases hc.labels with hnull | ⟨vs, hvs, -⟩
    · rw [hnull] at h ⊢
      obtain rfl := Except.ok.inj h
      rfl
    · rw [hvs] at h ⊢
      obtain rfl := Except.ok.inj (h.symm.trans (membersOrNone_of_members rfl))
      rfl

/-- The name of the axis breaks no line that the given one does not. -/
theorem lineBreaks_axisTitle (hc : c.IsTyped) :
    lineBreaks (c.axisTitle.orElse (.text countTitle)).word = lineBreaks c.axisTitle.word := by
  rw [Value.orElse]
  split
  next => rfl
  next hnone =>
    rcases hc.axisTitle with hnull | ⟨s, hs⟩
    · rw [hnull]
      decide
    · rw [hs] at hnone ⊢
      have hempty : s = "" := by simpa [Value.isTrue] using hnone
      rw [hempty]
      decide

/-- **The lines of columns**: five, and the title, the labels and the name of the axis are read
back. -/
theorem lines_of_isTyped (hc : c.IsTyped) (h : c.lines = .ok lines) :
    lines.length = (Chart.bar c).itemCount ∧ breaks lines = breaks (Chart.bar c).words ∧
      lines.map readQuoted = [[], [unquoted c.title.word], c.labelWords.map unquoted,
        [unquoted (c.axisTitle.orElse (.text countTitle)).word], []] := by
  simp only [BarChart.lines, do_eq_ok] at h
  obtain ⟨labels, hlabels, heights, -, top, -, title, htitle, ls, hls, axisTitle, haxisTitle, w, -,
    bound, hbound, values, hvalues, h⟩ := h
  obtain rfl := Except.ok.inj h
  obtain rfl := Value.quotable_eq_ok htitle
  obtain rfl := Value.quotable_eq_ok haxisTitle
  have hlabelWords : ls = c.labelWords.map unquoted := by
    rw [← word_diagramLabels hc hlabels, List.map_map]
    exact (List.map_id ls).symm.trans
      (map_eq_map_of_mapM hls (fun _ _ => trivial) fun v t _ ht => Value.quotable_eq_ok ht)
  have hnumber := Value.isNumberText_of_compactNumber hbound
  obtain ⟨hbreaks, hquotes⟩ := breaks_numbers hvalues
  refine ⟨rfl, ?_, ?_⟩
  · rw [breaks_axesLines (lineBreaks_of_isNumberText hnumber) (by decide) hbreaks, hlabelWords,
      lineBreaks_unquoted, lineBreaks_unquoted, breaks_map lineBreaks_unquoted,
      lineBreaks_axisTitle hc]
    simp only [Chart.words, breaks_cons]
    omega
  · rw [readQuoted_axesLines (quote_not_mem_unquoted _) (quote_not_mem_unquoted _)
      (quote_not_mem_of_isNumberText hnumber) (by decide) hquotes, hlabelWords, readQuoted_labels]
    intro t ht
    obtain ⟨s, -, rfl⟩ := List.mem_map.mp ht
    exact quote_not_mem_unquoted s

end BarChart

/-! ## Lines over dates -/

/-- The label of a date has no quotes. -/
theorem Date.quote_not_mem_label (d : Date) : '"' ∉ d.label.toList := by
  have hnone (n : Nat) : '"' ∉ (natText n).toList := fun hmem => by
    rw [natText, String.toList_ofList] at hmem
    exact absurd (isDigit_toDigits hmem) (by decide)
  simp [Date.label, hnone]

namespace Point

/-- The label of a point has quotes only where its date is none that can be read. -/
theorem quote_not_mem_label {p : Point}
    (h : (Value.text p.date).day? = none → '"' ∉ p.date.toList) : '"' ∉ p.label.toList := by
  unfold label
  cases hday : (Value.text p.date).day? with
  | none => exact h hday
  | some d => exact d.quote_not_mem_label

end Point

namespace LineChart

variable {c : LineChart} {lines : List String}

/-- **The lines of values over dates**: five, and the title and the name of the axis are read back;
so are the labels if what is no date has no quotes. -/
theorem lines_of_isTyped (h : c.lines = .ok lines) :
    lines.length = (Chart.line c).itemCount ∧ breaks lines = breaks (Chart.line c).words ∧
      ∃ labels, lines.map readQuoted
          = [[], [unquoted c.title.word], labels, [unquoted c.axisTitle.word], []] ∧
        ((∀ p ∈ c.points, (Value.text p.date).day? = none → '"' ∉ p.date.toList) →
          labels = c.points.map Point.label) := by
  simp only [LineChart.lines, do_eq_ok] at h
  obtain ⟨labels, hlabels, top, -, values, hvalues, title, htitle, axisTitle, haxisTitle, n, -,
    bound, hbound, h⟩ := h
  obtain rfl := Except.ok.inj h
  obtain rfl := Value.quotable_eq_ok htitle
  obtain rfl := Value.quotable_eq_ok haxisTitle
  have hlabelTexts : labels = c.points.map Point.label :=
    Except.ok.inj (hlabels.symm.trans (Point.mapM_axisLabel c.points))
  have hnumber := Value.isNumberText_of_wholeText hbound
  have hnumbers : (c.points.map Point.value).mapM (·.compactNumber 1) = .ok values := by
    rw [List.mapM_map]
    exact hvalues
  obtain ⟨hbreaks, hquotes⟩ := breaks_numbers hnumbers
  refine ⟨rfl, ?_, _, readQuoted_axesLines (quote_not_mem_unquoted _) (quote_not_mem_unquoted _)
      (quote_not_mem_of_isNumberText hnumber) (by decide) hquotes, fun hdates => ?_⟩
  · rw [breaks_axesLines (lineBreaks_of_isNumberText hnumber) (by decide) hbreaks, hlabelTexts,
      lineBreaks_unquoted, lineBreaks_unquoted]
    simp only [Chart.words, breaks_cons]
    omega
  · rw [hlabelTexts, readQuoted_labels]
    intro t ht
    obtain ⟨p, hp, rfl⟩ := List.mem_map.mp ht
    exact Point.quote_not_mem_label (hdates p hp)

/-- There are lines for numbers that can be shown. -/
theorem exists_lines (hc : c.IsTyped) (hmeasured : (Chart.line c).IsMeasured) :
    ∃ lines, c.lines = .ok lines := by
  have hvalues : ∀ v ∈ c.points.map Point.value, v.IsMeasure := fun v hv => by
    obtain ⟨p, hp, rfl⟩ := List.mem_map.mp hv
    exact hmeasured p hp
  obtain ⟨top, htop, htopMeasure⟩ := Value.IsMeasure.exists_greatest hvalues
  obtain ⟨values, hvalues⟩ := exists_mapM_eq_ok.mpr fun p (hp : p ∈ c.points) =>
    Value.IsMeasure.exists_compactNumber (hmeasured p hp) 1
  obtain ⟨title, htitle⟩ := hc.title.exists_quotable
  obtain ⟨axisTitle, haxisTitle⟩ := hc.axisTitle.exists_quotable
  obtain ⟨n, bound, hn, hbound⟩ := htopMeasure.exists_ceiling
  refine exists_do_of_ok (Point.mapM_axisLabel c.points) (exists_do_of_ok htop ?_)
  refine exists_do_of_ok hvalues (exists_do_of_ok htitle (exists_do_of_ok haxisTitle ?_))
  exact exists_do_of_ok hn (exists_do_of_ok hbound ⟨_, rfl⟩)

end LineChart

/-! ## Charts -/

namespace Chart

/-- **What is read back from the items of a diagram**: each text in quotes, with single quotes for
double ones. -/
def ReadBack : Chart → List String → Prop
  | .pie c, items => (items.drop 2).map readQuoted = c.slices.map fun s => [unquoted s.label]
  | .bar c, items => items.map readQuoted = [[], [unquoted c.title.word],
      c.labelWords.map unquoted, [unquoted (c.axisTitle.orElse (.text countTitle)).word], []]
  | .line c, items => ∃ labels, items.map readQuoted
      = [[], [unquoted c.title.word], labels, [unquoted c.axisTitle.word], []] ∧
      ((∀ p ∈ c.points, (Value.text p.date).day? = none → '"' ∉ p.date.toList) →
        labels = c.points.map Point.label)
  | .gantt _, _ => True

variable {c : Chart} {items : List String}

theorem diagramLines_of_isTyped (hc : c.IsTyped) (h : c.diagramLines = .ok items) :
    items.length = c.itemCount ∧ breaks items = breaks c.words ∧ c.ReadBack items := by
  cases c with
  | pie c => exact PieChart.lines_of_isTyped hc h
  | bar c => exact BarChart.lines_of_isTyped hc h
  | line c => exact LineChart.lines_of_isTyped h
  | gantt c =>
    obtain ⟨hlength, hbreaks⟩ := GanttChart.lines_of_isTyped hc h
    exact ⟨hlength, hbreaks, trivial⟩

theorem exists_diagramLines (hc : c.IsTyped) (hmeasured : c.IsMeasured) :
    ∃ items, c.diagramLines = .ok items := by
  cases c with
  | pie c => exact PieChart.exists_lines hc hmeasured
  | bar c => exact BarChart.exists_lines hc hmeasured
  | line c => exact LineChart.exists_lines hc hmeasured
  | gantt c => exact GanttChart.exists_lines hc

theorem itemCount_pos (c : Chart) : 0 < c.itemCount := by
  unfold itemCount
  split <;> omega

/-- A pie with double quotes in a label. -/
def quotedLabel : Chart := .pie ⟨.text "Answers", [⟨"say \"no\"", .int 2⟩]⟩

/-- A pie with a line break in its title. -/
def brokenTitle : Chart := .pie ⟨.text "a\nb", [⟨"x", .int 1⟩]⟩

end Chart

end Taskboard