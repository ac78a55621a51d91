import Taskboard.Proofs.Value.Numbers
import Taskboard.Schedule.Row

/-!
# Proofs/Schedule/Projection — which tasks have rows

A task spans a stretch of time if its attributes name a start and a later finish (`Task.stretch?`),
and then it has a row (`Row.projected?`): a progress that is no number counts as nothing, and without
a stretch there is no row.  Not every task gets as far as that (`Task.Projects`): a whole number
beyond the doubles, a moment without an instant, or a title that has no text is a failure.

* `Row.ofTask?_eq_ok` — **what the row of a task is**, and when there is an answer.
* `Row.ofTasks_eq_projected_iff` — tasks have the rows of the single tasks, in order, **exactly if
  every task projects**: one that does not takes the rows of all others with it.
-/

namespace Taskboard

/-! ## What a task says of its row -/

/-- The progress that a value names, as a part of one: what is no number is none. -/
def Value.share (v : Value) : Binary64 :=
  match v.toReal with
  | .ok x => if (Binary64.ofInt 1).lt x then x / Binary64.ofInt 100 else x
  | .error _ => .zero

namespace Task

variable (keys : RowKeys) (t : Task)

/-- The time that a task spans: a start and a later finish. -/
def stretch? : Option { p : Int × Int // p.1 < p.2 } :=
  (t.get keys.start).time?.bind fun start => (t.get keys.finish).time?.bind fun finish =>
    if h : start < finish then some ⟨(start, finish), h⟩ else none

/-- **A task of which a row is made or none**: its times can be asked for, and if it spans a stretch
of time then its progress lies within the doubles and its name can be written. -/
structure Projects : Prop where
  start : (t.get keys.start).tellsTime = true
  finish : (t.get keys.finish).tellsTime = true
  progress : (t.stretch? keys).isSome → (t.get keys.progress).inReals = true
  name : (t.stretch? keys).isSome → ∃ name, Row.taskName keys.title t = .ok name

variable {keys t} in
theorem times_of_stretch? {p : { p : Int × Int // p.1 < p.2 }} (h : t.stretch? keys = some p) :
    (t.get keys.start).time? = some p.1.1 ∧ (t.get keys.finish).time? = some p.1.2 := by
  obtain ⟨start, hstart, h⟩ := Option.bind_eq_some_iff.mp h
  obtain ⟨finish, hfinish, h⟩ := Option.bind_eq_some_iff.mp h
  split at h
  · obtain rfl := Option.some.inj h
    exact ⟨hstart, hfinish⟩
  · cases h

/-- The task that a task depends on, the first of them. -/
def firstNeed : Value := ((t.dependencyIds keys.needs).head?.map Value.text).getD .null

end Task

/-- **The row that a task has**, if it spans a stretch of time. -/
def Row.projected? (keys : RowKeys) (t : Task) : Option Row :=
  (t.stretch? keys).map fun p => {
    id := t.id
    name := (taskName keys.title t).toOption.getD t.displayName
    start := p.1.1
    finish := p.1.2
    start_lt_finish := p.2
    progress := .clamp (t.get keys.progress).share
    needs := t.firstNeed keys }

/-! ## Progress -/

/-- A number is read as the nearest progress. -/
theorem Row.readProgress_real_clamp (x : Binary64) : readProgress (.real x) = .ok (.clamp x) := by
  by_cases htrue : (Value.real x).isTrue = true
  · exact if_pos htrue
  · have hsame : x.same .zero = true := by simpa [Value.isTrue] using htrue
    -- what counts as nothing has the place of zero
    have hplace : x.place? = some 0 := by
      unfold Binary64.same at hsame
      split at hsame
      next a b ha hb =>
        obtain rfl : b = 0 := (Option.some.inj hb).symm
        rw [ha, of_decide_eq_true hsame]
      next => cases hsame
    have hzero : Binary64.zero.place? = some 0 := rfl
    have hlow : Binary64.zero.lt x = false := by
      simp [Binary64.lt, hplace, hzero]
    have hlt (y : Binary64) : x.lt y = Binary64.zero.lt y := by
      rw [Binary64.lt, Binary64.lt, hplace, hzero]
    have hhigh : x.lt (Binary64.ofInt 1) = true := (hlt _).trans (by decide +kernel)
    rw [readProgress, if_neg htrue, Progress.clamp, dif_pos hhigh, dif_neg (by simp [hlow])]

/-- The progress of an attribute within the doubles. -/
theorem Row.taskProgress_eq_ok {v : Value} {x : Binary64} :
    taskProgress v = .ok x ↔ v.inReals = true ∧ x = v.share := by
  unfold taskProgress Value.share
  cases hreals : v.inReals with
  | false =>
    rw [Value.toReal_of_not_inReals hreals]
    exact iff_of_false nofun nofun
  | true =>
    cases hv : v.toReal with
    | ok y => exact ⟨fun h => ⟨rfl, (Except.ok.inj h).symm⟩, fun h => congrArg Except.ok h.2.symm⟩
    | error f =>
      have hshape : f.isBadShape = true := (Value.isBadShape_of_toReal hv).trans hreals
      split
      next heq => cases heq
      next heq =>
        rw [Except.error.inj heq] at hshape
        cases hshape
      next => exact ⟨fun h => ⟨rfl, (Except.ok.inj h).symm⟩, fun h => congrArg Except.ok h.2.symm⟩

/-! ## Rows -/

namespace Row

variable {keys : RowKeys} {t : Task}

theorem ofTask?_of_stretch?_eq_none (hstart : (t.get keys.start).tellsTime = true)
    (hfinish : (t.get keys.finish).tellsTime = true) (h : t.stretch? keys = none) :
    ofTask? keys t = .ok none := by
  refine do_eq_ok.mpr ⟨_, Value.epochMs?_eq_ok.mpr ⟨hstart, rfl⟩, do_eq_ok.mpr
    ⟨_, Value.epochMs?_eq_ok.mpr ⟨hfinish, rfl⟩, ?_⟩⟩
  unfold Task.stretch? at h
  cases hs : (t.get keys.start).time? with
  | none => rfl
  | some s =>
    cases hf : (t.get keys.finish).time? with
    | none => rfl
    | some f =>
      have hlt : ¬ s < f := by simpa [hs, hf] using h
      exact if_neg hlt

theorem ofTask?_of_stretch?_eq_some (hstart : (t.get keys.start).tellsTime = true)
    (hfinish : (t.get keys.finish).tellsTime = true) {p : { p : Int × Int // p.1 < p.2 }}
    (h : t.stretch? keys = some p) :
    ofTask? keys t = (taskProgress (t.get keys.progress)).bind fun progress =>
      (taskName keys.title t).map fun name =>
        some ⟨t.id, name, p.1.1, p.1.2, p.2, .clamp progress, t.firstNeed keys⟩ := by
  obtain ⟨hs, hf⟩ := Task.times_of_stretch? h
  have hs := Value.epochMs?_eq_ok.mpr ⟨hstart, hs.symm⟩
  have hf := Value.epochMs?_eq_ok.mpr ⟨hfinish, hf.symm⟩
  simp only [ofTask?, hs, hf, bind, Except.bind, if_pos p.2, ofParts, dif_pos p.2,
    readProgress_real_clamp]
  rfl

/-- **What the row of a task is**, and when there is an answer. -/
theorem ofTask?_eq_ok {row : Option Row} :
    ofTask? keys t = .ok row ↔ t.Projects keys ∧ row = projected? keys t := by
  by_cases htimes : (t.get keys.start).tellsTime = true ∧ (t.get keys.finish).tellsTime = true
  · obtain ⟨hstart, hfinish⟩ := htimes
    cases hp : t.stretch? keys with
    | none =>
      have hprojects : t.Projects keys := ⟨hstart, hfinish, by simp [hp], by simp [hp]⟩
      rw [ofTask?_of_stretch?_eq_none hstart hfinish hp]
      simp [projected?, hp, hprojects, eq_comm]
    | some p =>
      have hprojects : t.Projects keys ↔ (t.get keys.progress).inReals = true ∧
          ∃ name, taskName keys.title t = .ok name :=
        ⟨fun h => ⟨h.progress (by simp [hp]), h.name (by simp [hp])⟩,
          fun h => ⟨hstart, hfinish, fun _ => h.1, fun _ => h.2⟩⟩
      rw [ofTask?_of_stretch?_eq_some hstart hfinish hp, hprojects]
      simp only [bind_eq_ok, map_eq_ok, taskProgress_eq_ok]
      constructor
      · rintro ⟨_, ⟨hreals, rfl⟩, name, hname, rfl⟩
        exact ⟨⟨hreals, name, hname⟩, by simp [projected?, hp, hname, Except.toOption]⟩
      · rintro ⟨⟨hreals, name, hname⟩, rfl⟩
        exact ⟨_, ⟨hreals, rfl⟩, name, hname, by simp [projected?, hp, hname, Except.toOption]⟩
  · refine iff_of_false (fun h => htimes ?_) fun h => htimes ⟨h.1.start, h.1.finish⟩
    obtain ⟨start, hstart, h⟩ := do_eq_ok.mp h
    obtain ⟨finish, hfinish, -⟩ := do_eq_ok.mp h
    exact ⟨(Value.epochMs?_eq_ok.mp hstart).1, (Value.epochMs?_eq_ok.mp hfinish).1⟩

/-- Tasks that project have the rows of the single tasks, in order. -/
theorem ofTasks_of_projects : ∀ {tasks : List Task}, (∀ t ∈ tasks, t.Projects keys) →
    ofTasks keys tasks = .ok (tasks.filterMap (projected? keys))
  | [], _ => rfl
  | t :: ts, h => by
    obtain ⟨ht, hts⟩ := List.forall_mem_cons.mp h
    refine bind_eq_ok.mpr ⟨_, ofTask?_eq_ok.mpr ⟨ht, rfl⟩,
      map_eq_ok.mpr ⟨_, ofTasks_of_projects hts, ?_⟩⟩
    cases hrow : projected? keys t with
    | none => rw [List.filterMap_cons_none hrow]; rfl
    | some r => rw [List.filterMap_cons_some hrow]; rfl

/-- The failure of one task is the failure of all. -/
theorem exists_fault_of_not_projects : ∀ {tasks : List Task}, (¬ ∀ t ∈ tasks, t.Projects keys) →
    ∃ t ∈ tasks, ¬ t.Projects keys ∧
      ∃ f, ofTask? keys t = .error f ∧ ofTasks keys tasks = .error f
  | [], h => absurd (List.forall_mem_nil _) h
  | t :: ts, h => by
    cases hrow : ofTask? keys t with
    | error f =>
      refine ⟨t, List.mem_cons_self, fun ht => ?_, f, hrow, bind_eq_error.mpr (.inl hrow)⟩
      rw [ofTask?_eq_ok.mpr ⟨ht, rfl⟩] at hrow
      cases hrow
    | ok row =>
      have ht := (ofTask?_eq_ok.mp hrow).1
      have hts : ¬ ∀ u ∈ ts, u.Projects keys := fun hts => h (List.forall_mem_cons.mpr ⟨ht, hts⟩)
      obtain ⟨u, hu, hprojects, f, hf, hall⟩ := exists_fault_of_not_projects hts
      exact ⟨u, List.mem_cons_of_mem t hu, hprojects, f, hf,
        bind_eq_error.mpr (.inr ⟨row, hrow, map_eq_error.mpr hall⟩)⟩

/-- Rows of tasks are those of the single tasks. -/
theorem rows_of_ofTasks {tasks : List Task} {rows : List Row} (h : ofTasks keys tasks = .ok rows) :
    ∀ r ∈ rows, ∃ t ∈ tasks, ofTask? keys t = .ok (some r) := by
  have hprojects : ∀ t ∈ tasks, t.Projects keys := Classical.byContradiction fun hnot => by
    obtain ⟨t, -, -, f, -, hf⟩ := exists_fault_of_not_projects hnot
    rw [hf] at h
    cases h
  obtain rfl := Except.ok.inj ((ofTasks_of_projects hprojects).symm.trans h)
  intro r hr
  obtain ⟨t, ht, hrow⟩ := List.mem_filterMap.mp hr
  exact ⟨t, ht, ofTask?_eq_ok.mpr ⟨hprojects t ht, hrow.symm⟩⟩

/-- A task whose start lies beyond the doubles. -/
def endless : Task :=
  ⟨"endless", [("start_date", .int (Int.pow 10 400)), ("end_date", .int 5)], "", none⟩

/-- A task of ten milliseconds. -/
def blink : Task := ⟨"blink", [("start_date", .int 0), ("end_date", .int 10)], "", none⟩

/-- A start beyond the doubles is a failure. -/
theorem ofTask?_of_start_not_inReals (h : (t.get keys.start).inReals = false) :
    ofTask? keys t = .error .numberTooLarge :=
  bind_eq_error.mpr (.inl (Value.epochMs?_of_not_inReals h))

end Row

end Taskboard
