import Taskboard.Proofs.Json.Faithful
import Taskboard.Proofs.Schedule.Record
import Taskboard.Store.Schedule

/-!
# Proofs/Schedule/Stored — rows are read as they were stored

A row is *storable* (`Row.Storable`) if its document says all of it: it has a name, its times are
short, its progress is what is read of it, and it needs one task or none.

* `Row.Storable.ofStored_fields` — **a storable row is read from its fields.**
* `Store.rowsOfDocument_scheduleDocument` — and so are all rows of a schedule.
* `Row.storable_of_ofTasks` — **rows of tasks are storable**, and they stay so when they are moved.
-/

namespace Taskboard

/-! ## Progress -/

/-- A number above another is not the same. -/
theorem Binary64.same_of_lt {x y : Binary64} (h : x.lt y = true) : y.same x = false := by
  unfold lt at h
  unfold same
  split at h
  next hx hy =>
    rw [hx, hy]
    have hlt := of_decide_eq_true h
    exact decide_eq_false (by omega)
  next => exact absurd h (by decide)

namespace Progress

/-- A number between the bounds, both excluded, is kept. -/
theorem clamp_of_lt {x : Binary64} (h0 : Binary64.zero.lt x = true)
    (h1 : x.lt (Binary64.ofInt 1) = true) : (clamp x).value = x := by
  rw [clamp, dif_pos h1, dif_pos h0]

/-- **A progress is read as itself** once it was taken of a number. -/
theorem readProgress_clamp (x : Binary64) :
    Row.readProgress (.real (clamp x).value) = .ok (clamp x) := by
  by_cases h1 : x.lt (Binary64.ofInt 1) = true
  · by_cases h0 : Binary64.zero.lt x = true
    · have htrue : (Value.real x).isTrue = true := by
        rw [Value.isTrue, Binary64.same_of_lt h0]
        rfl
      rw [clamp_of_lt h0 h1, Row.readProgress, if_pos htrue]
      rfl
    · rw [clamp, dif_pos h1, dif_neg h0]
      decide +kernel
  · rw [clamp, dif_neg h1]
    decide +kernel

theorem readProgress_of_readProgress {v : Value} {p : Progress}
    (h : Row.readProgress v = .ok p) : Row.readProgress (.real p.value) = .ok p := by
  unfold Row.readProgress at h
  split at h
  next =>
    obtain ⟨x, -, rfl⟩ := map_eq_ok.1 h
    exact readProgress_clamp x
  next =>
    obtain rfl := Except.ok.inj h
    decide +kernel

end Progress

/-! ## Rows -/

namespace Row

/-- **A row whose document says all of it.** -/
structure Storable (r : Row) : Prop where
  named : r.name ≠ ""
  start_short : IsShort r.start
  finish_short : IsShort r.finish
  progress : readProgress (.real r.progress.value) = .ok r.progress
  needs : r.needs = .null ∨ ∃ id, r.needs = .text id

variable {r : Row}

/-- **A storable row is read from its fields.** -/
theorem Storable.ofStored_fields (h : r.Storable) : ofStored r.fields = .ok r := by
  have hname : (Value.text r.name).orElse (.text r.id) = .text r.name := by
    rw [Value.orElse, if_pos (by simpa [Value.isTrue] using h.named)]
  have hparts : ofParts r.id r.name r.start r.finish (.real r.progress.value) r.needs = .ok r := by
    rw [ofParts, dif_pos r.start_lt_finish, h.progress]
    rfl
  simp only [ofStored, fields, Value.object, List.map_cons, List.map_nil, Value.item, Value.field?,
    Value.lookup?]
  simpa [hname, Value.shown, Value.toInt, bind, Except.bind] using hparts

/-- JSON can hold a row if it can hold its times and what it needs. -/
theorem faithful_fields (hstart : IsShort r.start) (hfinish : IsShort r.finish)
    (hneeds : Json.Faithful r.needs) : Json.Faithful r.fields := by
  have hkeys : ["task_id", "name", "start_time", "end_time", "progress", "depends_on"].Nodup := by
    decide
  refine Json.FaithfulNamed.faithful ⟨?_, hkeys⟩
  simp only [List.forall_mem_cons, Json.Faithful]
  exact ⟨trivial, trivial, hstart, hfinish, trivial, hneeds, List.forall_mem_nil _⟩

/-- JSON can hold a storable row. -/
theorem Storable.faithful_fields (h : r.Storable) : Json.Faithful r.fields := by
  refine Row.faithful_fields h.start_short h.finish_short ?_
  rcases h.needs with hneeds | ⟨id, hneeds⟩ <;> rw [hneeds] <;> trivial

/-- A storable row stays so at other times. -/
theorem Storable.moved (h : r.Storable) {start finish : Int} (horder : start < finish)
    (hstart : IsShort start) (hfinish : IsShort finish) : (r.moved start finish horder).Storable :=
  ⟨h.named, hstart, hfinish, h.progress, h.needs⟩

/-- **A storable row is written, and read back.** -/
theorem Storable.write_read (h : r.Storable) (layout : Json.Layout) (dates : Json.DateRule) :
    ∃ text v, Json.write layout dates r.fields = .ok text ∧ Json.read text = .ok v ∧
      ofStored v = .ok r := by
  obtain ⟨text, hwrite, hread⟩ := Json.read_write layout dates h.faithful_fields
  exact ⟨text, _, hwrite, hread, h.ofStored_fields⟩

end Row

/-! ## Schedules -/

namespace Store

theorem rowsOf_fields {rows : List Row} (h : ∀ r ∈ rows, r.Storable) :
    rowsOf (rows.map Row.fields) = .ok rows := by
  induction rows with
  | nil => rfl
  | cons r rows ih =>
    obtain ⟨hr, hrows⟩ := List.forall_mem_cons.1 h
    rw [List.map_cons, rowsOf, hr.ofStored_fields]
    exact map_eq_ok.2 ⟨rows, ih hrows, rfl⟩

/-- **Storable rows are read from their document.** -/
theorem rowsOfDocument_scheduleDocument {rows : List Row} (h : ∀ r ∈ rows, r.Storable) :
    rowsOfDocument (scheduleDocument rows) = .ok rows :=
  rowsOf_fields h

/-- JSON can hold a schedule of storable rows. -/
theorem faithful_scheduleDocument {rows : List Row} (h : ∀ r ∈ rows, r.Storable) :
    Json.Faithful (scheduleDocument rows) := by
  have hrows : Json.FaithfulAll (rows.map Row.fields) := by
    induction rows with
    | nil => trivial
    | cons r rows ih =>
      obtain ⟨hr, hrows⟩ := List.forall_mem_cons.1 h
      exact ⟨hr.faithful_fields, ih hrows⟩
  have hkeys : ["tasks"].Nodup := by decide
  exact Json.FaithfulNamed.faithful ⟨List.forall_mem_singleton.2 hrows, hkeys⟩

end Store

/-! ## Rows of tasks -/

theorem intText_ne_empty (n : Int) : intText n ≠ "" := by
  rw [Ne, ← String.toList_eq_nil_iff, Json.toList_intText]
  simp [Nat.toDigits_ne_nil]

theorem Binary64.text_ne_empty (x : Binary64) : x.text ≠ "" := by
  rcases x with _ | s | ⟨s, m⟩
  · decide
  · cases s <;> decide
  · obtain ⟨n, hfit, htext, -⟩ := exists_numeral s m
    rw [Ne, ← String.toList_eq_nil_iff, htext]
    simp [Numeral.text, hfit.whole_ne_nil]

namespace Value

theorem literal_ne_empty {v : Value} {s : String} (h : v.literal = .ok s) : s ≠ "" := by
  cases v with
  | null => obtain rfl := Except.ok.inj h; decide
  | bool b => obtain rfl := Except.ok.inj h; cases b <;> decide
  | int n =>
    rw [literal, wholeText] at h
    split at h
    next => exact absurd h (by simp)
    next =>
      obtain rfl := Except.ok.inj h
      exact intText_ne_empty n
  | real x => rw [literal] at h; obtain rfl := Except.ok.inj h; exact x.text_ne_empty
  | text t => rw [literal] at h; obtain rfl := Except.ok.inj h; simp [quoteText]
  | date d => rw [literal] at h; obtain rfl := Except.ok.inj h; simp [Date.literal]
  | moment m =>
    rw [literal] at h
    obtain rfl := Except.ok.inj h
    unfold Moment.literal
    simp
  | bytes bs => rw [literal] at h; obtain rfl := Except.ok.inj h; simp [quoteBytes]
  | list xs =>
    rw [literal] at h
    obtain ⟨ts, -, rfl⟩ := map_eq_ok.1 h
    simp
  | map es =>
    rw [literal] at h
    obtain ⟨ts, -, rfl⟩ := map_eq_ok.1 h
    simp
  | set xs =>
    cases xs with
    | nil => obtain rfl := Except.ok.inj h; decide
    | cons x xs =>
      rw [literal] at h
      obtain ⟨ts, -, rfl⟩ := map_eq_ok.1 h
      simp

/-- What counts as something shows. -/
theorem shown_ne_empty {v : Value} {s : String} (htrue : v.isTrue = true)
    (h : v.shown = .ok s) : s ≠ "" := by
  cases v with
  | text t =>
    obtain rfl := Except.ok.inj h
    simpa [isTrue] using htrue
  | date d => obtain rfl := Except.ok.inj h; simp [Date.isoText]
  | moment m =>
    change m.text " " = _ at h
    unfold Moment.text at h
    split at h
    next => obtain rfl := Except.ok.inj h; simp
    next =>
      split at h
      next => obtain rfl := Except.ok.inj h; simp
      next => exact absurd h (by simp)
  | _ => exact literal_ne_empty h

end Value

namespace Row

theorem taskName_ne_empty {title : String} {t : Task} {name : String} (hid : t.id ≠ "")
    (h : taskName title t = .ok name) : name ≠ "" := by
  unfold taskName at h
  generalize (if title = "" then Value.null else t.get title) = given at h
  dsimp only at h
  split at h
  next htrue => exact Value.shown_ne_empty htrue h
  next =>
    obtain rfl := Except.ok.inj h
    simpa [Task.displayName] using hid

/-- A row made of parts has them. -/
theorem ofParts_eq_ok {id name : String} {start finish : Int} {progress needs : Value} {r : Row}
    (h : ofParts id name start finish progress needs = .ok r) :
    ∃ (horder : start < finish) (p : Progress), readProgress progress = .ok p ∧
      r = ⟨id, name, start, finish, horder, p, needs⟩ := by
  unfold ofParts at h
  split at h
  next horder =>
    obtain ⟨p, hp, rfl⟩ := map_eq_ok.1 h
    exact ⟨horder, p, hp, rfl⟩
  next => exact absurd h (by simp)

/-- **The row of a task is storable.** -/
theorem storable_of_ofTask? {keys : RowKeys} {t : Task} {r : Row} (hid : t.id ≠ "")
    (h : ofTask? keys t = .ok (some r)) : r.Storable := by
  obtain ⟨start?, hstart, h⟩ := do_eq_ok.1 h
  obtain ⟨finish?, hfinish, h⟩ := do_eq_ok.1 h
  split at h
  next start finish =>
    split at h
    next =>
      obtain ⟨progress, -, h⟩ := do_eq_ok.1 h
      obtain ⟨name, hname, h⟩ := do_eq_ok.1 h
      obtain ⟨row, hrow, hr⟩ := map_eq_ok.1 h
      obtain rfl := Option.some.inj hr
      obtain ⟨-, p, hp, rfl⟩ := ofParts_eq_ok hrow
      refine ⟨taskName_ne_empty hid hname, Value.isShort_of_epochMs? hstart,
        Value.isShort_of_epochMs? hfinish, Progress.readProgress_of_readProgress hp, ?_⟩
      cases (t.dependencyIds keys.needs).head? with
      | none => exact .inl rfl
      | some id => exact .inr ⟨id, rfl⟩
    next => exact absurd h (by simp [pure, Except.pure])
  next => exact absurd h (by simp [pure, Except.pure])

/-- **Rows of tasks are storable.** -/
theorem storable_of_ofTasks {keys : RowKeys} : ∀ {tasks : List Task} {rows : List Row},
    (∀ t ∈ tasks, t.id ≠ "") → ofTasks keys tasks = .ok rows → ∀ r ∈ rows, r.Storable
  | [], rows, _, h => by
    obtain rfl := Except.ok.inj h
    exact List.forall_mem_nil _
  | t :: tasks, rows, hids, h => by
    obtain ⟨hid, hids⟩ := List.forall_mem_cons.1 hids
    rw [ofTasks, bind_eq_ok] at h
    obtain ⟨row?, hrow, h⟩ := h
    obtain ⟨more, hmore, rfl⟩ := map_eq_ok.1 h
    refine List.forall_mem_append.2 ⟨fun r hr => ?_, storable_of_ofTasks hids hmore⟩
    obtain rfl : row? = some r := by simpa using hr
    exact storable_of_ofTask? hid hrow

end Row

end Taskboard
