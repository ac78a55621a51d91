import Mathlib.Data.List.Forall2
import Taskboard.Proofs.Schedule.Run

/-!
# Proofs/Schedule/Record — rows stay valid though their fields are set freely

A `Row` carries the proof that its times are in order.  A `Record` has the same fields without
proofs, and a `Sheet` keeps records and sets their fields as an editing session does: an update
assigns two times after its guard, and nothing checks the record again.

* `Sheet.Valid.run` — from valid records every run of actions leads to valid records.
* `Session.sheet_run` — a session steps as its sheet does, so its rows are these records.
* `Record.Valid.copy` — a valid record can be copied, which checks it and takes its progress anew.
* `Sheet.answers` — an update says that it changed something exactly if it did, and then it has set
  the times of the first record of its task.
-/

namespace Taskboard

/-! ## Records -/

/-- A row of a schedule whose fields are whatever they were set to. -/
structure Record where
  id : String
  name : String
  start : Int
  finish : Int
  progress : Binary64
  needs : Value

/-- The fields of a row. -/
def Row.record (r : Row) : Record :=
  ⟨r.id, r.name, r.start, r.finish, r.progress.value, r.needs⟩

namespace Record

/-- What every row of a schedule has to satisfy. -/
structure Valid (e : Record) : Prop where
  start_lt_finish : e.start < e.finish
  nonneg : Binary64.zero.le e.progress = true
  le_one : e.progress.le (Binary64.ofInt 1) = true

/-- A copy of a record: a row made anew of its fields. -/
def copy (e : Record) : Except Fault Row :=
  Row.ofParts e.id e.name e.start e.finish (.real e.progress) e.needs

/-- Copies of records, one after the other. -/
def copies : List Record → Except Fault (List Row)
  | [] => .ok []
  | e :: es => e.copy.bind fun r => (copies es).map (r :: ·)

/-- A row has the fields of a record, the progress as a number. -/
structure IsCopy (e : Record) (r : Row) : Prop where
  fields : { r.record with progress := e.progress } = e
  progress : r.progress.value.same e.progress = true

end Record

theorem Row.record_valid (r : Row) : r.record.Valid :=
  ⟨r.start_lt_finish, r.progress.nonneg, r.progress.le_one⟩

/-! ## Copies -/

theorem Binary64.same_comm (x y : Binary64) : x.same y = y.same x := by
  unfold same
  cases x.place? <;> cases y.place? <;> simp [eq_comm]

theorem Binary64.same_of_le {x y : Binary64} (h : x.le y = true) (hlt : x.lt y ≠ true) :
    x.same y = true := by
  unfold le at h
  unfold lt at hlt
  unfold same
  cases hx : x.place? <;> cases hy : y.place? <;> simp_all
  omega

theorem Binary64.same_self {x y : Binary64} (h : x.le y = true) : x.same x = true := by
  unfold le at h
  unfold same
  cases hx : x.place? <;> simp_all

theorem Progress.value_none : Progress.none.value = .zero := rfl

theorem Progress.value_full : Progress.full.value = .ofInt 1 := by
  simp only [Progress.full]

/-- **A number from zero to one is its own progress**, up to the sign of zero. -/
theorem Row.readProgress_real {x : Binary64} (h0 : Binary64.zero.le x = true)
    (h1 : x.le (Binary64.ofInt 1) = true) :
    ∃ p, readProgress (.real x) = .ok p ∧ p.value.same x = true := by
  have hclamp : (Progress.clamp x).value.same x = true := by
    unfold Progress.clamp
    split
    next =>
      split
      next => exact Binary64.same_self h1
      next hpos =>
        rw [Progress.value_none]
        exact Binary64.same_of_le h0 hpos
    next hlt =>
      rw [Progress.value_full, Binary64.same_comm]
      exact Binary64.same_of_le h1 hlt
  unfold readProgress
  split
  next => exact ⟨_, rfl, hclamp⟩
  next hzero =>
    refine ⟨_, rfl, ?_⟩
    rw [Progress.value_none, Binary64.same_comm]
    simpa [Value.isTrue] using hzero

namespace Record

/-- **A valid record can be copied**: the check passes and the fields are the same. -/
theorem Valid.copy {e : Record} (h : e.Valid) : ∃ r, e.copy = .ok r ∧ e.IsCopy r := by
  obtain ⟨p, hp, hsame⟩ := Row.readProgress_real h.nonneg h.le_one
  refine ⟨⟨e.id, e.name, e.start, e.finish, h.start_lt_finish, p, e.needs⟩, ?_, rfl, hsame⟩
  rw [Record.copy, Row.ofParts, dif_pos h.start_lt_finish, hp]
  rfl

theorem copies_of_valid : ∀ records : List Record, (∀ e ∈ records, e.Valid) →
    ∃ rows, copies records = .ok rows ∧ List.Forall₂ IsCopy records rows
  | [], _ => ⟨[], rfl, .nil⟩
  | e :: es, h => by
    obtain ⟨r, hr, hcopy⟩ := (h e List.mem_cons_self).copy
    obtain ⟨rows, hrows, hcopies⟩ := copies_of_valid es fun d hd => h d (List.mem_cons_of_mem e hd)
    exact ⟨r :: rows, by rw [copies, hr]; exact map_eq_ok.mpr ⟨rows, hrows, rfl⟩,
      .cons hcopy hcopies⟩

/-- A record at other times. -/
def moved (e : Record) (start finish : Int) : Record := { e with start, finish }

theorem Valid.moved {e : Record} (h : e.Valid) {start finish : Int} (horder : start < finish) :
    (e.moved start finish).Valid :=
  ⟨horder, h.nonneg, h.le_one⟩

end Record

/-! ## Sheets -/

/-- The records of an open schedule. -/
structure Sheet where
  records : List Record
  closed : Bool

namespace Sheet

open Session (Action)

/-- The records with other times for the first one of a task. -/
def moveRecord (id : String) (start finish : Int) : List Record → List Record
  | [] => []
  | e :: es =>
    if e.id = id then e.moved start finish :: es else e :: moveRecord id start finish es

/-- Sets the times of the first record of a task, and says whether it did. -/
def update (id : String) (start finish : Int) (s : Sheet) : Bool × Sheet :=
  if start < finish then
    if s.closed then (false, s)
    else match s.records.find? fun e => e.id = id with
      | none => (false, s)
      | some e =>
        if e.start = start ∧ e.finish = finish then (false, s)
        else (true, { s with records := moveRecord id start finish s.records })
  else (false, s)

/-- What an action does to the records. -/
def perform : Action → Sheet → Sheet
  | .update id start finish, s => (s.update id start finish).2
  | .replace rows, s => { s with records := rows.map Row.record }
  | .close, s => { s with closed := true }
  | .flush, s | .advance _, s | .ring _, s => s

/-- Actions one after the other. -/
def run : List Action → Sheet → Sheet
  | [], s => s
  | a :: as, s => run as (s.perform a)

/-- A copy of the first record of a task, if there is one. -/
def copy? (id : String) (s : Sheet) : Except Fault (Option Row) :=
  match s.records.find? fun e => e.id = id with
  | none => .ok none
  | some e => e.copy.map some

/-- All records satisfy what rows have to. -/
def Valid (s : Sheet) : Prop := ∀ e ∈ s.records, e.Valid

theorem moveRecord_append {id : String} {start finish : Int} {e : Record} (he : e.id = id)
    (after : List Record) : ∀ before : List Record, (∀ d ∈ before, d.id ≠ id) →
      moveRecord id start finish (before ++ e :: after) = before ++ e.moved start finish :: after
  | [], _ => by rw [List.nil_append, moveRecord, if_pos he, List.nil_append]
  | d :: before, h => by
    rw [List.cons_append, moveRecord, if_neg (h d List.mem_cons_self), List.cons_append,
      moveRecord_append he after before fun c hc => h c (List.mem_cons_of_mem d hc)]

/-- **All that an update can do**: nothing, or it sets the times of the first record of its task,
which stood elsewhere. -/
theorem update_cases (id : String) (start finish : Int) (s : Sheet) :
    s.update id start finish = (false, s) ∨ ∃ before e after, s.records = before ++ e :: after ∧
      (∀ d ∈ before, d.id ≠ id) ∧ e.id = id ∧ start < finish ∧ e.moved start finish ≠ e ∧
        s.update id start finish =
          (true, { s with records := before ++ e.moved start finish :: after }) := by
  unfold update
  split
  next horder =>
    split
    next => exact Or.inl rfl
    next =>
      split
      next => exact Or.inl rfl
      next e hfind =>
        split
        next => exact Or.inl rfl
        next hmoves =>
          obtain ⟨he, before, after, hsplit, hbefore⟩ := List.find?_eq_some_iff_append.mp hfind
          have he : e.id = id := by simpa using he
          have hbefore : ∀ d ∈ before, d.id ≠ id := fun d hd => by simpa using hbefore d hd
          refine Or.inr ⟨before, e, after, hsplit, hbefore, he, horder, fun heq => hmoves ?_, ?_⟩
          · exact ⟨(congrArg Record.start heq).symm, (congrArg Record.finish heq).symm⟩
          · rw [hsplit, moveRecord_append he after before hbefore]
  next => exact Or.inl rfl

/-- An update says whether it changed the records, and a change is that of the times of the first
record of its task to the given ones. -/
structure Answers (id : String) (start finish : Int) (s : Sheet) : Prop where
  changed_iff : (s.update id start finish).1 = true ↔
    (s.update id start finish).2.records ≠ s.records
  change : (s.update id start finish).1 = true → ∃ before e after,
    s.records = before ++ e :: after ∧ (∀ d ∈ before, d.id ≠ id) ∧ e.id = id ∧
      (s.update id start finish).2.records = before ++ { e with start, finish } :: after

/-- **Every update answers right.** -/
theorem answers (id : String) (start finish : Int) (s : Sheet) : s.Answers id start finish := by
  obtain hno | ⟨before, e, after, hsplit, hbefore, he, -, hne, hyes⟩ :=
    update_cases id start finish s
  · constructor <;> simp [hno]
  · constructor
    · simpa [hyes, hsplit] using hne
    · exact fun _ => ⟨before, e, after, hsplit, hbefore, he, by rw [hyes]; rfl⟩

/-- All records are valid, and copies are made: of all of them, and of the first of a task. -/
structure Copied (s : Sheet) : Prop where
  valid : s.Valid
  all : ∃ rows, Record.copies s.records = .ok rows ∧ List.Forall₂ Record.IsCopy s.records rows
  one : ∀ id, ∃ r, s.copy? id = .ok r

namespace Valid

variable {s : Sheet}

/-- The guard of an update keeps the times in order. -/
theorem update (h : s.Valid) (id : String) (start finish : Int) :
    (s.update id start finish).2.Valid := by
  obtain hno | ⟨before, e, after, hsplit, -, -, horder, -, hyes⟩ := update_cases id start finish s
  · rwa [hno]
  · rw [hyes]
    rw [Sheet.Valid, hsplit] at h
    intro d hd
    obtain hd | rfl | hd := by simpa using hd
    · exact h d (by simp [hd])
    · exact (h e (by simp)).moved horder
    · exact h d (by simp [hd])

/-- **Each action keeps the records valid.** -/
theorem perform (h : s.Valid) (a : Action) : (s.perform a).Valid := by
  cases a with
  | update id start finish => exact h.update id start finish
  | replace rows =>
    intro e he
    obtain ⟨r, -, rfl⟩ := List.mem_map.mp he
    exact r.record_valid
  | flush | advance ms | ring serial | close => exact h

/-- **…and so does every run.** -/
theorem run (h : s.Valid) : ∀ actions : List Action, (s.run actions).Valid := by
  intro actions
  induction actions generalizing s with
  | nil => exact h
  | cons a as ih => exact ih (h.perform a)

theorem copied (h : s.Valid) : s.Copied where
  valid := h
  all := Record.copies_of_valid s.records h
  one id := by
    unfold copy?
    split
    next => exact ⟨none, rfl⟩
    next e hfind =>
      obtain ⟨r, hr, -⟩ := (h e (List.mem_of_find?_eq_some hfind)).copy
      exact ⟨some r, map_eq_ok.mpr ⟨r, hr, rfl⟩⟩

end Valid

end Sheet

/-! ## The rows of a session -/

namespace Session

/-- The records of a session's rows. -/
def sheet (s : Session) : Sheet := ⟨s.rows.map Row.record, s.closed⟩

@[simp] theorem sheet_arm (id : String) (s : Session) : (s.arm id).sheet = s.sheet := by
  unfold arm
  split <;> rfl

theorem map_record_moveRow (id : String) {start finish : Int} (h : start < finish) :
    ∀ rows : List Row, (moveRow id start finish h rows).map Row.record =
      Sheet.moveRecord id start finish (rows.map Row.record)
  | [] => rfl
  | r :: rs => by
    rw [moveRow, List.map_cons, Sheet.moveRecord]
    by_cases hid : r.id = id
    · rw [if_pos hid, if_pos (show r.record.id = id from hid)]
      rfl
    · rw [if_neg hid, if_neg (show ¬ r.record.id = id from hid), List.map_cons,
        map_record_moveRow id h rs]

/-- An update of a session is that of its sheet. -/
theorem sheet_update (id : String) (start finish : Int) (s : Session) :
    s.sheet.update id start finish =
      ((s.update id start finish).1, (s.update id start finish).2.sheet) := by
  have hfind : (s.sheet.records.find? fun e => e.id = id) = (s.row? id).map Row.record :=
    List.find?_map
  unfold Sheet.update update
  by_cases horder : start < finish
  · rw [if_pos horder, dif_pos horder, show s.sheet.closed = s.closed from rfl, hfind]
    by_cases hclosed : s.closed = true
    · rw [if_pos hclosed, if_pos hclosed]
    · rw [if_neg hclosed, if_neg hclosed]
      cases s.row? id with
      | none => rfl
      | some r =>
        by_cases hsame : r.start = start ∧ r.finish = finish
        · have hsame' : r.record.start = start ∧ r.record.finish = finish := hsame
          simp only [Option.map_some, if_pos hsame, if_pos hsame']
        · have hsame' : ¬ (r.record.start = start ∧ r.record.finish = finish) := hsame
          simp only [Option.map_some, if_neg hsame, if_neg hsame', sheet_arm]
          rw [sheet, sheet, map_record_moveRow]
  · rw [if_neg horder, dif_neg horder]

/-- A callback leaves the rows alone, and what it saves is these rows. -/
theorem ring_rows (serial : Nat) (s : Session) :
    (s.ring serial).1.rows = s.rows ∧ (s.ring serial).1.closed = s.closed ∧
      ∀ rows ∈ (s.ring serial).2, rows = s.rows := by
  obtain hring | hring := ring_cases serial s <;> simp [hring]

theorem ringAll_rows : ∀ (ts : List Timer) (s : Session),
    (ringAll ts s).1.rows = s.rows ∧ (ringAll ts s).1.closed = s.closed ∧
      ∀ rows ∈ (ringAll ts s).2, rows = s.rows
  | [], s => ⟨rfl, rfl, by simp [ringAll]⟩
  | t :: ts, s => by
    obtain ⟨hrows, hclosed, hsaves⟩ := ring_rows t.serial s
    obtain ⟨hrows', hclosed', hsaves'⟩ := ringAll_rows ts (s.ring t.serial).1
    rw [ringAll_cons]
    refine ⟨hrows'.trans hrows, hclosed'.trans hclosed, fun rows hmem => ?_⟩
    obtain hmem | hmem := List.mem_append.mp hmem
    · exact hsaves rows hmem
    · exact (hsaves' rows hmem).trans hrows

theorem flush_rows (s : Session) :
    s.flush.1.rows = s.rows ∧ s.flush.1.closed = s.closed ∧ ∀ rows ∈ s.flush.2, rows = s.rows := by
  unfold flush
  split <;> simp

/-- **A session steps as its sheet does.** -/
theorem sheet_perform (a : Action) (s : Session) : (s.perform a).1.sheet = s.sheet.perform a := by
  cases a with
  | update id start finish => exact (congrArg Prod.snd (sheet_update id start finish s)).symm
  | replace rows => rfl
  | flush =>
    obtain ⟨hrows, hclosed, -⟩ := flush_rows s
    exact congrArg₂ Sheet.mk (congrArg _ hrows) hclosed
  | advance ms =>
    obtain ⟨hrows, hclosed, -⟩ := ringAll_rows _ { s with now := s.now + ms }
    exact congrArg₂ Sheet.mk (congrArg _ hrows) hclosed
  | ring serial =>
    obtain ⟨hrows, hclosed, -⟩ := ring_rows serial s
    exact congrArg₂ Sheet.mk (congrArg _ hrows) hclosed
  | close => rfl

theorem sheet_run (s : Session) : ∀ actions : List Action,
    (s.run actions).1.sheet = s.sheet.run actions := by
  intro actions
  induction actions generalizing s with
  | nil => rfl
  | cons a as ih =>
    rw [run, Sheet.run, ← sheet_perform]
    exact ih (s.perform a).1

/-- What an action saves is the rows that it leaves. -/
theorem saved_perform {a : Action} {s : Session} {rows : Snapshot}
    (h : .saved rows ∈ (s.perform a).2) : rows = (s.perform a).1.rows := by
  cases a with
  | update id start finish => simp [perform] at h
  | replace rows => cases h
  | close => cases h
  | flush =>
    obtain ⟨hrows, -, hsaves⟩ := flush_rows s
    exact (hsaves rows (by simpa [perform] using h)).trans hrows.symm
  | advance ms =>
    obtain ⟨hrows, -, hsaves⟩ := ringAll_rows _ { s with now := s.now + ms }
    obtain ⟨saved, hsaved, heq⟩ := List.mem_map.mp h
    exact Event.saved.inj heq ▸ (hsaves saved hsaved).trans hrows.symm
  | ring serial =>
    obtain ⟨hrows, -, hsaves⟩ := ring_rows serial s
    exact (hsaves rows (by simpa [perform] using h)).trans hrows.symm

/-- What a run saves is the rows of a state that it passes. -/
theorem saved_run {rows : Snapshot} : ∀ {actions : List Action} {s : Session},
    .saved rows ∈ (s.run actions).2 → ∃ n ≤ actions.length,
      rows = (s.run (actions.take n)).1.rows
  | [], s, h => by cases h
  | a :: as, s, h => by
    obtain h | h := List.mem_append.mp h
    · exact ⟨1, by simp, saved_perform h⟩
    · obtain ⟨n, hn, hrows⟩ := saved_run h
      exact ⟨n + 1, by simpa using hn, hrows⟩

/-- **Rows stay valid, copies never fail, and updates say whether they changed something.**  In
every state that a session reaches its rows are records that the actions have set without a check.
All of them satisfy what rows have to, so copies are made of them all, for a reader, for one row and
for a save; and what was saved are the records of a state on the way.  An update says that it
changed the rows exactly if it did, and then it has set the times of the first row of its task. -/
theorem rows_stay_valid (rows : List Row) (quiet : Int) (readOnly : Bool) (actions : List Action) :
    let s := ((start rows quiet readOnly).run actions).1
    let history := ((start rows quiet readOnly).run actions).2
    let sheet (actions : List Action) := (start rows quiet readOnly).sheet.run actions
    s.sheet = sheet actions ∧ (sheet actions).Copied ∧
      (∀ saved, .saved saved ∈ history → ∃ n ≤ actions.length,
        saved.map Row.record = (sheet (actions.take n)).records ∧
          (sheet (actions.take n)).Copied) ∧
      ∀ id first last,
        (sheet actions).update id first last =
            ((s.update id first last).1, (s.update id first last).2.sheet) ∧
          (sheet actions).Answers id first last := by
  intro s history sheet
  have hvalid : ∀ actions, (sheet actions).Valid := fun actions =>
    Sheet.Valid.run (fun e he => by
      obtain ⟨r, -, rfl⟩ := List.mem_map.mp he
      exact r.record_valid) actions
  have hsheet : ∀ actions, ((start rows quiet readOnly).run actions).1.sheet = sheet actions :=
    sheet_run _
  refine ⟨hsheet actions, (hvalid actions).copied, fun saved hsaved => ?_, fun id first last => ?_⟩
  · obtain ⟨n, hn, rfl⟩ := saved_run hsaved
    exact ⟨n, hn, congrArg Sheet.records (hsheet _), (hvalid _).copied⟩
  · exact ⟨hsheet actions ▸ sheet_update id first last s, Sheet.answers id first last _⟩

/-- A change, one whose times are out of order, and the save of what the first one left. -/
theorem rows_stay_valid_saved :
    let rows : List Row := [⟨"design", "Design", 0, 1000, by decide, .none, .null⟩]
    let actions : List Action := [.update "design" 100 900, .update "design" 900 100, .advance 800]
    ∃ saved, .saved saved ∈ ((start rows 800 false).run actions).2 ∧ ∃ n ≤ 3,
      saved.map Row.record = ((start rows 800 false).sheet.run (actions.take n)).records ∧
        ((start rows 800 false).sheet.run (actions.take n)).Copied := by
  intro rows actions
  obtain ⟨-, -, hsaved, -⟩ := rows_stay_valid rows 800 false actions
  have hmem : .saved ((start rows 800 false).run actions).1.rows ∈
      ((start rows 800 false).run actions).2 := List.mem_cons_of_mem _ List.mem_cons_self
  exact ⟨_, hmem, hsaved _ hmem⟩

end Session

end Taskboard
