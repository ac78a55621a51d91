import Taskboard.Proofs.Chart.Traces
import Taskboard.Proofs.Chart.Typed
import Taskboard.Proofs.Sort.Part

/-!
# Proofs/Chart/Points — the points of a line in order

The points of a line are sorted by what their dates are on a clock, the seconds as a double.  A
later instant is never earlier on the clock, but instants a few microseconds apart may be one on it,
and then the points stand as in the chart, whichever instant comes first.

* `LineChart.ordered_eq_ok` — when there is an order, and that it is a sort by one comparison.
* `LineChart.pairwise_inOrder_iff` — exactly when it is the order of the instants.
* `LineChart.figure_plots_in_order` — **what a line shows of its points.**
-/

namespace Taskboard

open Figure

-- powers are those of the naturals, also where an importing module knows other ones
attribute [local instance (high)] instPowNat

/-! ## Points in time -/

namespace Point

/-- The moment of a point's date, if it is one. -/
def moment? (p : Point) : Option Moment := (Value.text p.date).moment?

/-- The instant of a point in microseconds since 1970. -/
def instant? (p : Point) : Option Int := p.moment?.map Moment.micros

/-- The place of an instant on a clock, among the doubles that count its seconds. -/
def clock? (p : Point) : Option Int := p.instant?.map fun us => Binary64.ratioPlace us 1000000

/-- Points in time come first, and of them the earlier ones on the clock. -/
def order : Point → Point → Ordering :=
  compareLex (compareOn fun p => p.instant?.isNone) (compareOn fun p => p.clock?.getD 0)

instance : Std.TransCmp order := by
  unfold order
  infer_instance

/-- Two points stand as their instants do, if they have some. -/
def InOrder (p q : Point) : Prop := ∀ i ∈ p.instant?, ∀ j ∈ q.instant?, i ≤ j

/-- The label of a point: month and day, or its text as it is. -/
def label (p : Point) : String := (Value.text p.date).day?.elim p.date Date.label

theorem axisLabel_eq (p : Point) : (Value.text p.date).axisLabel = .ok p.label := by
  unfold Value.axisLabel label
  cases (Value.text p.date).day? <;> rfl

theorem mapM_axisLabel (ps : List Point) :
    ps.mapM (fun p => (Value.text p.date).axisLabel) = .ok (ps.map label) :=
  mapM_eq_ok.mpr (List.forall₂_map_right_iff.mpr (List.forall₂_same.mpr fun p _ => axisLabel_eq p))

/-- **The place of a date** tells whether the point has an instant, and where the clock has it. -/
theorem ofText_eq_ok {p : Point} {d : DatePlace} (h : DatePlace.ofText p.date = .ok d) :
    d.unreadable = p.instant?.isNone ∧ d.seconds.place? = some (p.clock?.getD 0) := by
  unfold DatePlace.ofText at h
  unfold clock? instant? moment?
  cases hm : (Value.text p.date).moment? with
  | none =>
    rw [hm] at h
    obtain rfl := Except.ok.inj h
    exact ⟨rfl, by simp [Binary64.place?, Binary64.zero, Binary64.signedUnits]⟩
  | some m =>
    rw [hm] at h
    obtain ⟨x, hx, rfl⟩ := map_eq_ok.mp h
    obtain ⟨us, hus, rfl⟩ := map_eq_ok.mp hx
    unfold Moment.instant at hus
    split at hus
    next =>
      obtain rfl := Except.ok.inj hus
      rw [Option.map_some, Option.map_some, Option.getD_some]
      refine ⟨rfl, ?_⟩
      dsimp only
      rw [Binary64.place?_ofRatio]
    next => cases hus

/-- A date has a place if it is none, or if its moment has an instant. -/
theorem exists_ofText_iff (p : Point) :
    (∃ d, DatePlace.ofText p.date = .ok d) ↔ (Value.text p.date).tellsTime = true := by
  have htells : (Value.text p.date).tellsTime
      = (Value.text p.date).moment?.all fun m => Moment.offsetInRange (m.offset.getD 0) := rfl
  rw [DatePlace.ofText, htells]
  cases (Value.text p.date).moment? with
  | none => exact iff_of_true ⟨_, rfl⟩ rfl
  | some m =>
    rw [Option.all_some, exists_map_eq_ok, ← Value.exists_epochMs]
    exact exists_map_eq_ok.symm

/-- **The places of dates are in the order of the points.** -/
theorem before_eq {p q : Point} {d e : DatePlace} (hd : DatePlace.ofText p.date = .ok d)
    (he : DatePlace.ofText q.date = .ok e) : (!e.before d) = (order p q).isLE := by
  obtain ⟨hunreadable, hseconds⟩ := ofText_eq_ok hd
  obtain ⟨hunreadable', hseconds'⟩ := ofText_eq_ok he
  have horder : order p q = (compare p.instant?.isNone q.instant?.isNone).then
      (compare (p.clock?.getD 0) (q.clock?.getD 0)) := rfl
  unfold DatePlace.before Binary64.lt
  rw [horder, hunreadable, hunreadable', hseconds, hseconds']
  generalize p.clock?.getD 0 = i
  generalize q.clock?.getD 0 = j
  generalize p.instant?.isNone = x
  generalize q.instant?.isNone = y
  have hle : (compare i j).isLE = !decide (j < i) := by
    rw [Bool.eq_iff_iff, Int.isLE_compare, Bool.not_eq_true', decide_eq_false_iff_not, Int.not_lt]
  cases x <;> cases y
  · simp [hle]
  · rfl
  · rfl
  · simp [hle]

theorem clock?_of_instant? {p : Point} {us : Int} (h : p.instant? = some us) :
    p.clock? = some (Binary64.ratioPlace us 1000000) := by
  rw [clock?, h, Option.map_some]

/-- Points in time are in the order of the clock. -/
theorem isLE_order_iff {p q : Point} {i j : Int} (hp : p.instant? = some i)
    (hq : q.instant? = some j) : (order p q).isLE = true ↔
      Binary64.ratioPlace i 1000000 ≤ Binary64.ratioPlace j 1000000 := by
  have horder : order p q = (compare p.instant?.isNone q.instant?.isNone).then
      (compare (p.clock?.getD 0) (q.clock?.getD 0)) := rfl
  rw [horder, clock?_of_instant? hp, clock?_of_instant? hq, hp, hq, Option.getD_some,
    Option.getD_some]
  exact Int.isLE_compare

end Point

/-! ## The order of a line -/

namespace LineChart

variable {c : LineChart} {ps : List Point}

/-- There is an order if every date is none, or has an instant. -/
theorem exists_ordered_iff :
    (∃ ps, c.ordered = .ok ps) ↔ ∀ p ∈ c.points, (Value.text p.date).tellsTime = true := by
  rw [ordered, exists_map_eq_ok, exists_mapM_eq_ok]
  refine forall₂_congr fun p _ => ?_
  rw [exists_map_eq_ok, Point.exists_ofText_iff]

/-- **The order of a line is a sort of its points** by one comparison. -/
theorem ordered_eq_ok (h : c.ordered = .ok ps) :
    ps = c.points.mergeSort fun a b => (Point.order a b).isLE := by
  obtain ⟨placed, hplaced, rfl⟩ := map_eq_ok.mp h
  have hall := mapM_eq_ok.mp hplaced
  have hplace (e : DatePlace × Point) (he : e ∈ placed) : DatePlace.ofText e.2.date = .ok e.1 := by
    obtain ⟨p, -, hp⟩ := exists_left_of_forall₂ hall he
    obtain ⟨d, hd, rfl⟩ := map_eq_ok.mp hp
    exact hd
  have hpoints : c.points = placed.map Prod.snd := by
    rw [← List.forall₂_eq_eq_eq, List.forall₂_map_right_iff]
    refine hall.imp fun p e hp => ?_
    obtain ⟨d, -, rfl⟩ := map_eq_ok.mp hp
    rfl
  rw [hpoints]
  exact List.map_mergeSort fun a ha b hb => Point.before_eq (hplace a ha) (hplace b hb)

/-- The order of a line keeps its points. -/
theorem perm_of_ordered (h : c.ordered = .ok ps) : ps.Perm c.points := by
  rw [ordered_eq_ok h]
  exact List.mergeSort_perm _ _

/-- No later point comes before an earlier one. -/
theorem pairwise_of_ordered (h : c.ordered = .ok ps) :
    ps.Pairwise fun p q => (Point.order p q).isLE = true := by
  rw [ordered_eq_ok h]
  exact List.pairwise_mergeSort (fun _ _ _ => Std.TransCmp.isLE_trans) (isLE_total Point.order) _

/-- The points in time are in the order of the clock. -/
theorem pairwise_clock?_of_ordered (h : c.ordered = .ok ps) :
    ps.Pairwise fun p q => ∀ i ∈ p.clock?, ∀ j ∈ q.clock?, i ≤ j := by
  refine (pairwise_of_ordered h).imp fun {p q} hle i hi j hj => ?_
  obtain ⟨us, hp, rfl⟩ := Option.map_eq_some_iff.mp hi
  obtain ⟨vs, hq, rfl⟩ := Option.map_eq_some_iff.mp hj
  exact (Point.isLE_order_iff hp hq).mp hle

/-- **Points that are not in time come last.** -/
theorem unreadable_last (h : c.ordered = .ok ps) :
    ps.Pairwise fun p q => q.instant?.isSome = true → p.instant?.isSome = true := by
  refine (pairwise_of_ordered h).imp fun {p q} hle hq => ?_
  obtain ⟨j, hj⟩ := Option.isSome_iff_exists.mp hq
  cases hp : p.instant? with
  | some i => rfl
  | none =>
    simp only [Point.order, compareLex, compareOn, hp, hj] at hle
    cases hle

/-- **Points of one place on the clock stand as in the chart**, so those of one instant do, and
those that are not in time. -/
theorem filter_clock?_of_ordered (h : c.ordered = .ok ps) (k : Option Int) :
    (ps.filter fun p => p.clock? = k) = c.points.filter fun p => p.clock? = k := by
  rw [ordered_eq_ok h]
  refine filter_mergeSort Point.order fun p q hp hq => ?_
  have hclock : p.clock? = q.clock? := (of_decide_eq_true hp).trans (of_decide_eq_true hq).symm
  have hnone : p.instant?.isNone = q.instant?.isNone := by
    have hmap := congrArg Option.isNone hclock
    rwa [Point.clock?, Point.clock?, Option.isNone_map, Option.isNone_map] at hmap
  simp only [Point.order, compareLex, compareOn, hclock, hnone, Std.ReflCmp.compare_self]
  rfl

/-- So do those of one instant, and those that are not in time. -/
theorem filter_instant?_of_ordered (h : c.ordered = .ok ps) (k : Option Int) :
    (ps.filter fun p => p.instant? = k) = c.points.filter fun p => p.instant? = k := by
  let place : Option Int := k.map fun us => Binary64.ratioPlace us 1000000
  have hpart (qs : List Point) : (qs.filter fun p => p.instant? = k)
      = (qs.filter fun p => p.clock? = place).filter fun p => p.instant? = k := by
    rw [List.filter_filter]
    refine List.filter_congr fun p _ => ?_
    by_cases hp : p.instant? = k
    · simp [hp, Point.clock?, place]
    · simp [hp]
  rw [hpart ps, hpart c.points, filter_clock?_of_ordered h]

/-- Two points that stand so in a line stand so in the chart, if they are at one place. -/
theorem sublist_iff_of_clock? (h : c.ordered = .ok ps) {p q : Point}
    (hclock : p.clock? = q.clock?) : [p, q].Sublist ps ↔ [p, q].Sublist c.points := by
  have hpair : [p, q].filter (fun r => decide (r.clock? = q.clock?)) = [p, q] := by
    simp [hclock]
  have hfilter := filter_clock?_of_ordered h q.clock?
  constructor
  · intro hsub
    have hpart := hsub.filter fun r => decide (r.clock? = q.clock?)
    rw [hpair, hfilter] at hpart
    exact hpart.trans List.filter_sublist
  · intro hsub
    have hpart := hsub.filter fun r => decide (r.clock? = q.clock?)
    rw [hpair, ← hfilter] at hpart
    exact hpart.trans List.filter_sublist

/-- **A line is in the order of the instants exactly if** no two of its points that stand against
it are at one place on the clock. -/
theorem pairwise_inOrder_iff (h : c.ordered = .ok ps) : ps.Pairwise Point.InOrder ↔
    c.points.Pairwise fun p q => p.clock? = q.clock? → p.InOrder q := by
  rw [List.pairwise_iff_forall_sublist, List.pairwise_iff_forall_sublist]
  constructor
  · intro hps p q hsub hclock
    exact hps ((sublist_iff_of_clock? h hclock).mpr hsub)
  · intro hpoints p q hsub i hi j hj
    by_cases hclock : p.clock? = q.clock?
    · exact hpoints ((sublist_iff_of_clock? h hclock).mp hsub) hclock i hi j hj
    · -- no place is before that of an earlier instant, so it is the other way round
      have hle := List.pairwise_iff_forall_sublist.mp (pairwise_of_ordered h) hsub
      rw [Point.isLE_order_iff hi hj] at hle
      rw [Point.clock?_of_instant? hi, Point.clock?_of_instant? hj] at hclock
      refine Int.not_lt.mp fun hlt => hclock ?_
      rw [Int.le_antisymm hle (Binary64.ratioPlace_mono (Int.le_of_lt hlt))]

/-- Near 1970 a line is in the order of the instants. -/
theorem pairwise_inOrder_of_near (h : c.ordered = .ok ps)
    (hnear : ∀ p ∈ c.points, ∀ us ∈ p.instant?, us.natAbs < Binary64.nearMicros) :
    ps.Pairwise Point.InOrder := by
  rw [pairwise_inOrder_iff h]
  refine List.pairwise_of_forall_mem_list fun p hp q hq hclock i hi j hj => ?_
  rw [Point.clock?_of_instant? hi, Point.clock?_of_instant? hj] at hclock
  refine Int.not_lt.mp fun hlt => ?_
  have hplace := Binary64.ratioPlace_lt hlt (hnear q hq j hj) (hnear p hp i hi)
  rw [Option.some.inj hclock] at hplace
  exact Int.lt_irrefl _ hplace

end LineChart

/-! ## What a line shows -/

/-- **A figure plots points**: at each index of its lists stand the date of a point, its value, the
text of the value, and the tick with its label. -/
structure Figure.Plots (f : Value) (ps : List Point) : Prop where
  trace : ∃ trace, f.field? "data" = .ok (some (.list [trace])) ∧
    trace.field? "x" = .ok (some (textList (ps.map Point.date))) ∧
    trace.field? "y" = .ok (some (.list (ps.map Point.value))) ∧
    ∃ texts, List.Forall₂ (fun (p : Point) t => p.value.formatted = .ok t) ps texts ∧
      trace.field? "customdata" = .ok (some (textList texts))
  ticks : ∃ layout axis, f.field? "layout" = .ok (some layout) ∧
    layout.field? "xaxis" = .ok (some axis) ∧
    axis.field? "tickvals" = .ok (some (textList (ps.map Point.date))) ∧
    axis.field? "ticktext" = .ok (some (textList (ps.map Point.label)))

namespace LineChart

variable {c : LineChart} {style : FigureStyle} {f : Value}

/-- A line plots its points in order. -/
theorem exists_plots (h : c.figure style = .ok f) : ∃ ps, c.ordered = .ok ps ∧ Plots f ps := by
  simp only [figure, do_eq_ok] at h
  obtain ⟨ps, hps, texts, htexts, name, -, labels, hlabels, fields, hfields, h⟩ := h
  obtain rfl := Except.ok.inj h
  have hlabel : ps.map Point.label = labels :=
    Except.ok.inj ((Point.mapM_axisLabel ps).symm.trans hlabels)
  have haxis : entryAt? "xaxis" fields = _ := entryAt?_layout hfields (by decide)
  refine ⟨ps, hps, ⟨_, field?_make_data _ _, ?_, ?_, texts, mapM_eq_ok.mp htexts, ?_⟩,
    _, _, field?_make_layout _ _, (Value.field?_object _ _).trans (congrArg Except.ok haxis), ?_,
    ?_⟩
  all_goals rw [Value.field?_object]
  · rfl
  · rfl
  · rfl
  · rfl
  · rw [hlabel]
    rfl

/-- **A line is drawn exactly if** each date is none or has an instant, and each value is no whole
number beyond the doubles. -/
theorem exists_figure_iff (hc : c.IsTyped) (hstyle : style.IsValid) :
    (∃ f, c.figure style = .ok f) ↔
      ∀ p ∈ c.points, (Value.text p.date).tellsTime = true ∧ p.value.inReals = true := by
  constructor
  · rintro ⟨f, hf⟩ p hp
    obtain ⟨ps, hps, hplots⟩ := exists_plots hf
    obtain ⟨trace, -, -, -, texts, htexts, -⟩ := hplots.trace
    obtain ⟨t, -, ht⟩ := exists_right_of_forall₂ htexts ((perm_of_ordered hps).mem_iff.mpr hp)
    exact ⟨exists_ordered_iff.mp ⟨ps, hps⟩ p hp,
      (Value.exists_compactNumber_iff (hc.values p hp) 2).mp ⟨t, ht⟩⟩
  · intro h
    obtain ⟨ps, hps⟩ := exists_ordered_iff.mpr fun p hp => (h p hp).1
    have hmem {p : Point} (hp : p ∈ ps) : p ∈ c.points := (perm_of_ordered hps).mem_iff.mp hp
    obtain ⟨texts, htexts⟩ := exists_mapM_eq_ok.mpr fun p (hp : p ∈ ps) =>
      (Value.exists_compactNumber_iff (hc.values p (hmem hp)) 2).mpr (h p (hmem hp)).2
    obtain ⟨name, hname⟩ := hc.axisTitle.isOptionalText.orElse countTitle
    obtain ⟨title, htitle⟩ := hc.title.isOptionalText.orElse "Line Chart"
    have hnamed : templateText (c.axisTitle.orElse (.text countTitle)) = .ok name := by
      rw [hname]
      rfl
    rw [figure, htitle]
    refine exists_do_of_ok hps (exists_do_of_ok htexts (exists_do_of_ok hnamed
      (exists_do_of_ok (Point.mapM_axisLabel ps) ?_)))
    obtain ⟨fields, hfields⟩ := hstyle.exists_layout title _
    exact exists_do_of_ok hfields ⟨_, rfl⟩

/-- **What a line shows of its points.**  If it is drawn it plots the points of the chart, those in
time before the others and in the order of the clock; points of one instant, and those that are not
in time, stand as in the chart.  The order is that of the instants exactly if no two points that
stand against it are at one place on the clock, and always near 1970. -/
theorem figure_plots_in_order (h : c.figure style = .ok f) :
    ∃ ps, Plots f ps ∧ ps.Perm c.points ∧
      (ps.Pairwise fun p q => q.instant?.isSome = true → p.instant?.isSome = true) ∧
      (ps.Pairwise fun p q => ∀ i ∈ p.clock?, ∀ j ∈ q.clock?, i ≤ j) ∧
      (∀ k, (ps.filter fun p => p.instant? = k) = c.points.filter fun p => p.instant? = k) ∧
      (ps.Pairwise Point.InOrder ↔
        c.points.Pairwise fun p q => p.clock? = q.clock? → p.InOrder q) ∧
      ((∀ p ∈ c.points, ∀ us ∈ p.instant?, us.natAbs < Binary64.nearMicros) →
        ps.Pairwise Point.InOrder) := by
  obtain ⟨ps, hps, hplots⟩ := exists_plots h
  exact ⟨ps, hplots, perm_of_ordered hps, unreadable_last hps, pairwise_clock?_of_ordered hps,
    filter_instant?_of_ordered hps, pairwise_inOrder_iff hps, pairwise_inOrder_of_near hps⟩

/-- Two days, the later one first, with a word between them. -/
def unsorted : LineChart :=
  ⟨.text "Done", .text "Count", [⟨"2024-03-10", .int 1⟩, ⟨"soon", .int 2⟩, ⟨"2024-03-02", .int 3⟩]⟩

/-- They are plotted in order, the word behind them. -/
theorem unsorted_is_plotted_in_order : ∃ f ps, unsorted.figure {} = .ok f ∧ Plots f ps ∧
    ps.Perm unsorted.points ∧ ps.Pairwise Point.InOrder ∧
    ps.Pairwise fun p q => q.instant?.isSome = true → p.instant?.isSome = true := by
  have hnear : ∀ p ∈ unsorted.points, ∀ us ∈ p.instant?, us.natAbs < Binary64.nearMicros := by
    decide +kernel
  obtain ⟨f, hf⟩ := (exists_figure_iff (c := unsorted) ⟨⟨_, rfl⟩, ⟨_, rfl⟩, by decide⟩ .usual).mpr
    (by decide +kernel)
  obtain ⟨ps, hplots, hperm, hlast, -, -, -, horder⟩ := figure_plots_in_order hf
  exact ⟨f, ps, hf, hplots, hperm, horder hnear, hlast⟩

/-- Two instants a microsecond apart in the year 9999, the later one first. -/
def closeBy : LineChart :=
  ⟨.text "Done", .text "Count", [⟨"9999-01-01T00:00:00.000002", .int 1⟩,
    ⟨"9999-01-01T00:00:00.000001", .int 2⟩]⟩

/-- **They are plotted as they stand**: the clock has them at one place. -/
theorem closeBy_stays : ∃ f, closeBy.figure {} = .ok f ∧ Plots f closeBy.points ∧
    ¬ closeBy.points.Pairwise Point.InOrder := by
  obtain ⟨f, hf⟩ := (exists_figure_iff (c := closeBy) ⟨⟨_, rfl⟩, ⟨_, rfl⟩, by decide⟩ .usual).mpr
    (by decide +kernel)
  obtain ⟨ps, hps, hplots⟩ := exists_plots hf
  have hstand : closeBy.points.Pairwise fun p q => (Point.order p q).isLE = true := by
    decide +kernel
  rw [ordered_eq_ok hps, List.mergeSort_of_pairwise hstand] at hplots
  refine ⟨f, hf, hplots, fun horder => ?_⟩
  have hfirst := (List.pairwise_cons.mp horder).1 _ List.mem_cons_self
  have hlate : (253370764800000002 : Int) ≤ 253370764800000001 :=
    hfirst _ (by decide +kernel) _ (by decide +kernel)
  exact absurd hlate (by decide)

end LineChart

end Taskboard
