import Taskboard.Proofs.Analysis.TimeSeries

/-!
# Proofs/Analysis/Answering — when a metric has a line

A metric passes over what is no number.  `inf` and `nan` are numbers, though, and a whole number
beyond the doubles stops the metric; and the axis of the diagram ends beyond the greatest number of
the line, which has to be finite.

* `Value.greatest_reals` — the greatest of some doubles and zero: what is undefined is never
  exceeded where it comes first, and never exceeds anything.
* `LineChart.lines_of_reals` — which doubles have a diagram.
* `Report.line_answers_iff` — **exactly which tasks have a line.**
-/

namespace Taskboard

-- powers and sums are those of the naturals, also where an importing module knows other ones
attribute [local instance (high)] instPowNat Zero.ofOfNat0

/-! ## The greatest of some doubles -/

namespace Value

/-- The greater of two numbers, the first one if none is. -/
def higher (top v : Value) : Except Fault Value :=
  (top.lessThan v).map fun b => if b then v else top

theorem lessThan_finite (s t : Bool) (m n : Magnitude) :
    lessThan (.real (.finite s m)) (.real (.finite t n))
      = .ok (decide (Binary64.signedUnits s m < Binary64.signedUnits t n)) := rfl

theorem lessThan_zero (s : Bool) (m : Magnitude) : lessThan (.real (.finite s m)) (.int 0)
    = .ok (decide (Binary64.signedUnits s m < 0 * unitsPerOne)) := rfl

/-- **The greater of two doubles**: an undefined one stays if it comes first and goes if it comes
second, and positive infinity stays and comes. -/
theorem exists_higher (x y : Binary64) : ∃ t, higher (.real x) (.real y) = .ok (.real t) ∧
    (t = .nan ↔ x = .nan) ∧
      (x ≠ .nan → (t = .infinite false ↔ x = .infinite false ∨ y = .infinite false)) := by
  unfold higher
  cases x with
  | nan => cases y <;> exact ⟨.nan, rfl, Iff.rfl, fun h => absurd rfl h⟩
  | infinite s =>
    cases y with
    | nan => cases s <;> exact ⟨_, rfl, by simp⟩
    | infinite t => cases s <;> cases t <;> exact ⟨_, rfl, by simp⟩
    | finite t n => cases s <;> exact ⟨_, rfl, by simp⟩
  | finite s m =>
    cases y with
    | nan => exact ⟨_, rfl, by simp⟩
    | infinite t => cases t <;> exact ⟨_, rfl, by simp⟩
    | finite t n =>
      rw [lessThan_finite]
      cases decide (Binary64.signedUnits s m < Binary64.signedUnits t n) with
      | false => exact ⟨.finite s m, rfl, by simp⟩
      | true => exact ⟨.finite t n, rfl, by simp⟩

/-- **Going along doubles**, the top is undefined if the first one is, and else infinite if one of
them is. -/
theorem exists_highest (x : Binary64) (xs : List Binary64) :
    ∃ t, (xs.map Value.real).foldlM higher (.real x) = .ok (.real t) ∧ (t = .nan ↔ x = .nan) ∧
      (x ≠ .nan → (t = .infinite false ↔ .infinite false ∈ x :: xs)) := by
  induction xs generalizing x with
  | nil => exact ⟨x, rfl, Iff.rfl, fun _ => by simp [eq_comm]⟩
  | cons y ys ih =>
    obtain ⟨u, hu, hnan, hinf⟩ := exists_higher x y
    obtain ⟨t, ht, hnan', hinf'⟩ := ih u
    refine ⟨t, ?_, hnan'.trans hnan, fun hx => ?_⟩
    · rw [List.map_cons, List.foldlM_cons, hu]
      exact ht
    · rw [hinf' fun h => hx (hnan.mp h), List.mem_cons, eq_comm, hinf hx, List.mem_cons,
        List.mem_cons, or_assoc, eq_comm, @eq_comm _ y]

/-- A double and zero: the greater one can be shown unless it is undefined or infinite. -/
theorem exists_higher_zero (x : Binary64) : ∃ top, higher (.real x) (.int 0) = .ok top ∧
    (x = .nan → top = .real .nan) ∧ (x = .infinite false → top = .real (.infinite false)) ∧
      (x ≠ .nan → x ≠ .infinite false → top.IsMeasure) := by
  cases x with
  | nan => exact ⟨_, rfl, fun _ => rfl, nofun, fun h => absurd rfl h⟩
  | infinite s =>
    cases s with
    | false => exact ⟨_, rfl, nofun, fun _ => rfl, fun _ h => absurd rfl h⟩
    | true => exact ⟨.int 0, rfl, nofun, nofun, fun _ _ => Nat.zero_le _⟩
  | finite s m =>
    rw [higher, lessThan_zero]
    cases decide (Binary64.signedUnits s m < 0 * unitsPerOne) with
    | false => exact ⟨.real (.finite s m), rfl, nofun, nofun, fun _ _ => rfl⟩
    | true => exact ⟨.int 0, rfl, nofun, nofun, fun _ _ => Nat.zero_le _⟩

/-- **The greatest of some doubles and zero** can be shown unless it is undefined or infinite. -/
theorem greatest_reals (x : Binary64) (xs : List Binary64) :
    ∃ top, greatest ((x :: xs).map Value.real) = .ok top ∧ (x = .nan → top = .real .nan) ∧
      (x ≠ .nan → .infinite false ∈ x :: xs → top = .real (.infinite false)) ∧
      (x ≠ .nan → .infinite false ∉ x :: xs → top.IsMeasure) := by
  obtain ⟨t, ht, hnan, hinf⟩ := exists_highest x xs
  obtain ⟨top, htop, htopNan, htopInf, hmeasure⟩ := exists_higher_zero t
  refine ⟨top, ?_, fun hx => htopNan (hnan.mpr hx), fun hx hmem => htopInf ((hinf hx).mpr hmem),
    fun hx hmem => hmeasure (fun h => hx (hnan.mp h)) fun h => hmem ((hinf hx).mp h)⟩
  change ((xs.map Value.real) ++ [Value.int 0]).foldlM higher (.real x) = _
  rw [List.foldlM_append, ht]
  change [Value.int 0].foldlM higher (.real t) = _
  rw [List.foldlM_cons, htop]
  rfl

/-- **What keeps the axis of a diagram from reaching some doubles**, if anything does. -/
def axisFault? (xs : List Binary64) : Option Fault :=
  if xs.head? = some .nan then some .undefinedWhole
  else if .infinite false ∈ xs then some .infiniteWhole
  else none

theorem exists_top (xs : List Binary64) : ∃ top, greatest (xs.map Value.real) = .ok top ∧
    (∀ f, axisFault? xs = some f → top.ceiling = .error f) ∧
      (axisFault? xs = none → top.IsMeasure) := by
  cases xs with
  | nil => exact ⟨.int 0, rfl, nofun, fun _ => Nat.zero_le _⟩
  | cons x xs =>
    obtain ⟨top, htop, hnan, hinf, hmeasure⟩ := greatest_reals x xs
    refine ⟨top, htop, ?_⟩
    unfold axisFault?
    split
    next hx =>
      rw [hnan (Option.some.inj hx)]
      exact ⟨fun f hf => congrArg Except.error (Option.some.inj hf),
        fun h => absurd h (Option.some_ne_none _)⟩
    next hx =>
      have hx : x ≠ .nan := fun h => hx (congrArg some h)
      split
      next hmem =>
        rw [hinf hx hmem]
        exact ⟨fun f hf => congrArg Except.error (Option.some.inj hf),
          fun h => absurd h (Option.some_ne_none _)⟩
      next hmem =>
        exact ⟨fun f hf => absurd hf.symm (Option.some_ne_none f), fun _ => hmeasure hx hmem⟩

end Value

namespace LineChart

/-- **A line of doubles has a diagram** unless its axis cannot reach them. -/
theorem lines_of_reals {c : LineChart} (hc : c.IsTyped) {xs : List Binary64}
    (hvalues : c.points.map Point.value = xs.map Value.real) :
    (∀ f, Value.axisFault? xs = some f → c.lines = .error f) ∧
      (Value.axisFault? xs = none → ∃ lines, c.lines = .ok lines) := by
  obtain ⟨top, htop, hfault, hmeasure⟩ := Value.exists_top xs
  rw [← hvalues] at htop
  have hreal : ∀ p ∈ c.points, ∃ x, p.value = .real x := fun p hp => by
    have hmem : p.value ∈ xs.map Value.real := hvalues ▸ List.mem_map_of_mem hp
    obtain ⟨x, -, hx⟩ := List.mem_map.mp hmem
    exact ⟨x, hx.symm⟩
  obtain ⟨texts, htexts⟩ := exists_mapM_eq_ok.mpr fun p (hp : p ∈ c.points) =>
    (Value.exists_compactNumber_iff (hc.values p hp) 1).mpr <| by
      obtain ⟨x, hx⟩ := hreal p hp
      rw [hx]
      rfl
  obtain ⟨title, htitle⟩ := hc.title.exists_quotable
  obtain ⟨axisTitle, haxisTitle⟩ := hc.axisTitle.exists_quotable
  have hlines : c.lines = (do
      let bound ← wholeText ((← top.ceiling) + headroom)
      pure (axesLines title (c.points.map Point.label) axisTitle bound "line" texts)) := by
    rw [lines, Point.mapM_axisLabel, htop, htexts, htitle, haxisTitle]
    rfl
  rw [hlines]
  refine ⟨fun f hf => ?_, fun hnone => ?_⟩
  · rw [hfault f hf]
    rfl
  · obtain ⟨n, bound, hn, hbound⟩ := (hmeasure hnone).exists_ceiling
    exact exists_do_of_ok hn (exists_do_of_ok hbound ⟨_, rfl⟩)

end LineChart

namespace Metric

/-- **What is no number is passed over.** -/
theorem valueOf_filter {m : Metric} (h : m.countsOnly = false) (tasks : List Task) :
    m.valueOf (tasks.filter fun t => (t.get m.attr).toReal.isOk) = m.valueOf tasks := by
  have hnumbers : numbersIn m.attr (tasks.filter fun t => (t.get m.attr).toReal.isOk)
      = numbersIn m.attr tasks := by
    rw [numbersIn, List.filterMap_filter, numbersIn]
    congr 1
    funext t
    cases (t.get m.attr).toReal <;> rfl
  have hnot : ¬ m.countsOnly = true := Bool.eq_false_iff.mp h
  rw [valueOf, valueOf, if_neg hnot, if_neg hnot, hnumbers]

end Metric

namespace Report

variable (attr : String) (range : Option DateRange) (axisTitle : String)

/-- The numbers of a metric for some days. -/
def metricValues (m : Metric) (tasks : List Task) (ds : List Date) : List Binary64 :=
  ds.map fun d => m.valueOf (tasksOn attr d tasks)

/-- Why there is no line of a metric, if there is none. -/
def lineFault? (m : Metric) (tasks : List Task) (ds : List Date) : Option Fault :=
  if m.takes (dated attr range tasks) then Value.axisFault? (metricValues attr m tasks ds)
  else some .numberTooLarge

theorem line_of_lineFault? (m : Metric) (tasks : List Task) :
    (∀ f, lineFault? attr range m tasks (days attr range tasks) = some f →
      line attr range axisTitle (some m) tasks = .error f) ∧
    (lineFault? attr range m tasks (days attr range tasks) = none →
      ∃ r, line attr range axisTitle (some m) tasks = .ok r) := by
  have hvalues : (lineChart attr range axisTitle m tasks).points.map Point.value
      = (metricValues attr m tasks (days attr range tasks)).map Value.real := by
    rw [lineChart, lineOf, metricValues, List.map_map, List.map_map]
    rfl
  have htyped : (lineChart attr range axisTitle m tasks).IsTyped :=
    ⟨⟨_, rfl⟩, ⟨_, rfl⟩, fun p hp => by
      obtain ⟨d, -, rfl⟩ := List.mem_map.mp hp
      rfl⟩
  obtain ⟨hfails, hexists⟩ := LineChart.lines_of_reals htyped hvalues
  rw [line_eq, lineFault?]
  split
  next =>
    refine ⟨fun f hf => ?_, fun hnone => ?_⟩
    · exact map_eq_error.mpr (map_eq_error.mpr (hfails f hf))
    · exact exists_map_eq_ok.mpr (exists_map_eq_ok.mpr (hexists hnone))
  next =>
    exact ⟨fun f hf => congrArg _ (Option.some.inj hf), fun h => absurd h (Option.some_ne_none _)⟩

/-- A line fails for the one cause that there is, if there is one. -/
theorem line_eq_error_iff (m : Metric) (tasks : List Task) (f : Fault) :
    line attr range axisTitle (some m) tasks = .error f ↔
      lineFault? attr range m tasks (days attr range tasks) = some f := by
  obtain ⟨hfails, hexists⟩ := line_of_lineFault? attr range axisTitle m tasks
  refine ⟨fun h => ?_, hfails f⟩
  cases hfault : lineFault? attr range m tasks (days attr range tasks) with
  | none =>
    obtain ⟨r, hr⟩ := hexists hfault
    rw [hr] at h
    cases h
  | some g =>
    rw [hfails g hfault] at h
    exact congrArg some (Except.error.inj h)

theorem lineFault?_eq_none {m : Metric} {tasks : List Task} {ds : List Date} :
    lineFault? attr range m tasks ds = none ↔ m.takes (dated attr range tasks) = true ∧
      (metricValues attr m tasks ds).head? ≠ some .nan ∧
        .infinite false ∉ metricValues attr m tasks ds := by
  unfold lineFault? Value.axisFault?
  split
  next htakes =>
    split
    next hnan => simp [hnan]
    next hnan => simp [htakes, hnan]
  next htakes => simp [htakes]

/-- A task with some effort. -/
def effortTask (v : Value) : Task := ⟨"a", [("due", .text "2024-05-01"), ("effort", v)], "", none⟩

end Report

end Taskboard
