import Taskboard.Schedule.Session

/-!
# Proofs/Schedule/Run — runs of an editing session

An `Action` is anything that can happen to a session: one of its operations, time that passes, or
the callback of a timer, which may come late or be superseded.  `Session.run` takes a session
through actions and keeps the history of what it accepted and what it saved; `AwaitsSave` reads off
a history which changes no save has covered yet.

* `ring_cases` — all that a callback can do: it saves every row, or it does nothing.
* `ringAll_covering` — callbacks of all waiting timers save the rows and leave no timer.
-/

namespace Taskboard

namespace Session

/-- What can happen to a session. -/
inductive Action where
  | update (id : String) (start finish : Int)
  | replace (rows : List Row)
  | flush
  /-- Time passes, in milliseconds. -/
  | advance (ms : Nat)
  /-- The callback of a timer runs, whether or not the timer still waits. -/
  | ring (serial : Nat)
  | close

/-- What a session lets others see. -/
inductive Event where
  /-- A change of the task's row was accepted. -/
  | changed (id : String)
  /-- The store was asked to save a snapshot. -/
  | saved (rows : Snapshot)

/-- One action, with what it lets others see. -/
def perform : Action → Session → Session × List Event
  | .update id start finish, s =>
    let r := s.update id start finish
    (r.2, if r.1 then [.changed id] else [])
  | .replace rows, s => (s.replace rows, [])
  | .flush, s => (s.flush.1, s.flush.2.map .saved)
  | .advance ms, s => ((s.advance ms).1, (s.advance ms).2.map .saved)
  | .ring serial, s => ((s.ring serial).1, (s.ring serial).2.map .saved)
  | .close, s => (s.close, [])

/-- **A run**: actions one after the other, with the history that they leave. -/
def run : List Action → Session → Session × List Event
  | [], s => (s, [])
  | a :: as, s =>
    let r := run as (s.perform a).1
    (r.1, (s.perform a).2 ++ r.2)

/-! ## Changes that no save has covered -/

/-- The task was changed and no save came after. -/
def AwaitsSave (id : String) (history : List Event) : Prop :=
  ∃ earlier later, history = earlier ++ .changed id :: later ∧ ∀ rows, .saved rows ∉ later

theorem not_awaitsSave_nil (id : String) : ¬ AwaitsSave id [] := by
  rintro ⟨earlier, later, h, -⟩
  simp at h

/-- The last event decides: a change awaits its save, and a save covers all before it. -/
theorem awaitsSave_concat {id : String} {history : List Event} {e : Event} :
    AwaitsSave id (history ++ [e])
      ↔ e = .changed id ∨ AwaitsSave id history ∧ ∀ rows, e ≠ .saved rows := by
  constructor
  · rintro ⟨earlier, later, h, unsaved⟩
    rcases List.eq_nil_or_concat later with rfl | ⟨between, last, rfl⟩
    · exact Or.inl (List.append_inj_right' h rfl |> List.singleton_inj.mp)
    · have hsplit : history ++ [e] = (earlier ++ .changed id :: between) ++ [last] := by
        simpa using h
      obtain ⟨rfl, hlast⟩ := List.append_inj' hsplit rfl
      obtain rfl : e = last := List.singleton_inj.mp hlast
      refine Or.inr ⟨⟨earlier, between, rfl, fun rows hmem => ?_⟩, fun rows he => ?_⟩
      · exact unsaved rows (by simp [hmem])
      · exact unsaved rows (by simp [he])
  · rintro (rfl | ⟨⟨earlier, later, rfl, unsaved⟩, hne⟩)
    · exact ⟨history, [], rfl, by simp⟩
    · refine ⟨earlier, later ++ [e], by simp, fun rows hmem => ?_⟩
      rcases List.mem_append.mp hmem with hmem | hmem
      · exact unsaved rows hmem
      · exact hne rows (List.mem_singleton.mp hmem).symm

/-! ## Changes -/

/-- **All that a change can do**: it is refused, or it moves a row that stood elsewhere and starts
the quiet period of its task. -/
theorem update_cases (id : String) (start finish : Int) (s : Session) :
    s.update id start finish = (false, s) ∨ ∃ (r : Row) (h : start < finish), s.closed = false ∧
      s.row? id = some r ∧ ¬ (r.start = start ∧ r.finish = finish) ∧ s.update id start finish
        = (true, ({ s with rows := moveRow id start finish h s.rows }).arm id) := by
  by_cases horder : start < finish
  · cases hclosed : s.closed with
    | true => exact Or.inl (by rw [update, dif_pos horder, hclosed, if_pos rfl])
    | false =>
      rw [update, dif_pos horder, hclosed, if_neg Bool.false_ne_true]
      cases hrow : s.row? id with
      | none => exact Or.inl rfl
      | some r =>
        by_cases hsame : r.start = start ∧ r.finish = finish
        · exact Or.inl (if_pos hsame)
        · exact Or.inr ⟨r, horder, rfl, rfl, hsame, if_neg hsame⟩
  · exact Or.inl (by rw [update, dif_neg horder])

@[simp] theorem arm_rows (id : String) (s : Session) : (s.arm id).rows = s.rows := by
  unfold arm; split <;> rfl

@[simp] theorem arm_closed (id : String) (s : Session) : (s.arm id).closed = s.closed := by
  unfold arm; split <;> rfl

@[simp] theorem arm_quiet (id : String) (s : Session) : (s.arm id).quiet = s.quiet := by
  unfold arm; split <;> rfl

@[simp] theorem arm_readOnly (id : String) (s : Session) : (s.arm id).readOnly = s.readOnly := by
  unfold arm; split <;> rfl

@[simp] theorem arm_now (id : String) (s : Session) : (s.arm id).now = s.now := by
  unfold arm; split <;> rfl

/-- The timers after a task's quiet period has started anew. -/
theorem mem_timers_arm {s : Session} (hwritable : s.readOnly = false) {id : String} {t : Timer} :
    t ∈ (s.arm id).timers
      ↔ (t ∈ s.timers ∧ t.task ≠ id) ∨ t = ⟨s.nextSerial, id, s.now + s.quiet⟩ := by
  rw [arm, hwritable, if_neg Bool.false_ne_true]
  simp

/-- A task whose quiet period starts is pending, and the others stay so. -/
theorem mem_pending_arm {s : Session} (hwritable : s.readOnly = false) {id k : String} :
    k ∈ (s.arm id).pending ↔ k = id ∨ k ∈ s.pending := by
  simp only [pending, List.mem_map, mem_timers_arm hwritable]
  constructor
  · rintro ⟨t, ⟨ht, -⟩ | rfl, rfl⟩
    · exact Or.inr ⟨t, ht, rfl⟩
    · exact Or.inl rfl
  · rintro (rfl | ⟨t, ht, rfl⟩)
    · exact ⟨_, Or.inr rfl, rfl⟩
    · by_cases hid : t.task = id
      · exact ⟨_, Or.inr rfl, hid.symm⟩
      · exact ⟨t, Or.inl ⟨ht, hid⟩, rfl⟩

/-! ## Callbacks -/

/-- **All that a callback can do.** -/
theorem ring_cases (serial : Nat) (s : Session) :
    s.ring serial = (s, []) ∨ s.ring serial
      = ({ s with timers := s.timers.filter fun t => t.serial ≠ serial }, [s.rows]) := by
  unfold ring
  split
  · exact Or.inl rfl
  · split
    · exact Or.inr rfl
    · exact Or.inl rfl

/-- The callback of a timer that waits saves. -/
theorem ring_of_mem {s : Session} {t : Timer} (hopen : s.closed = false) (ht : t ∈ s.timers) :
    s.ring t.serial
      = ({ s with timers := s.timers.filter fun u => u.serial ≠ t.serial }, [s.rows]) := by
  have hany : (s.timers.any fun u => u.serial = t.serial) = true :=
    List.any_eq_true.mpr ⟨t, ht, by simp⟩
  rw [ring, hopen, if_neg Bool.false_ne_true, if_pos hany]

/-- The callback of a timer that does not wait does nothing. -/
theorem ring_of_not_mem {s : Session} {serial : Nat} (h : ∀ t ∈ s.timers, t.serial ≠ serial) :
    s.ring serial = (s, []) := by
  have hany : (s.timers.any fun u => u.serial = serial) = false := by simpa using h
  rw [ring, hany, if_neg Bool.false_ne_true, ite_self]

theorem ringAll_cons (t : Timer) (ts : List Timer) (s : Session) :
    ringAll (t :: ts) s = ((ringAll ts (s.ring t.serial).1).1,
      (s.ring t.serial).2 ++ (ringAll ts (s.ring t.serial).1).2) := rfl

/-- **Callbacks of all waiting timers leave none**, change nothing else, and each of their saves
holds all rows; there is a save if a timer waited. -/
theorem ringAll_covering : ∀ (ts : List Timer) (s : Session), s.closed = false →
    (∀ t ∈ s.timers, ∃ u ∈ ts, u.serial = t.serial) →
      ∃ saves, ringAll ts s = ({ s with timers := [] }, saves) ∧ (∀ rows ∈ saves, rows = s.rows) ∧
        (s.timers ≠ [] → saves ≠ [])
  | [], s, _, hcover => by
    have hnone : s.timers = [] := List.eq_nil_iff_forall_not_mem.mpr fun t ht => by
      obtain ⟨u, hu, -⟩ := hcover t ht
      exact List.not_mem_nil hu
    refine ⟨[], ?_, by simp, fun h => absurd hnone h⟩
    rw [ringAll, ← hnone]
  | t :: ts, s, hopen, hcover => by
    by_cases ht : ∃ u ∈ s.timers, u.serial = t.serial
    · obtain ⟨u, hu, hserial⟩ := ht
      have hring := ring_of_mem hopen hu
      rw [hserial] at hring
      obtain ⟨saves, hrest, hrows, -⟩ := ringAll_covering ts
        { s with timers := s.timers.filter fun u => u.serial ≠ t.serial } hopen (by
          intro v hv
          obtain ⟨hvs, hne⟩ := List.mem_filter.mp hv
          obtain ⟨w, hw, hws⟩ := hcover v hvs
          rcases List.mem_cons.mp hw with rfl | hw
          · simp [hws] at hne
          · exact ⟨w, hw, hws⟩)
      refine ⟨s.rows :: saves, ?_, List.forall_mem_cons.mpr ⟨rfl, hrows⟩, by simp⟩
      rw [ringAll_cons, hring, hrest, List.singleton_append]
    · have hnot : ∀ v ∈ s.timers, v.serial ≠ t.serial := fun v hv he => ht ⟨v, hv, he⟩
      obtain ⟨saves, hrest, hrows, hsome⟩ := ringAll_covering ts s hopen (by
        intro v hv
        obtain ⟨w, hw, hws⟩ := hcover v hv
        rcases List.mem_cons.mp hw with rfl | hw
        · exact absurd hws.symm (hnot v hv)
        · exact ⟨w, hw, hws⟩)
      refine ⟨saves, ?_, hrows, hsome⟩
      rw [ringAll_cons, ring_of_not_mem hnot, hrest, List.nil_append]

/-! ## Timers that are due -/

@[simp] theorem mem_insertTimer {t u : Timer} : ∀ {ts : List Timer},
    u ∈ insertTimer t ts ↔ u = t ∨ u ∈ ts
  | [] => by simp [insertTimer]
  | v :: vs => by
    rw [insertTimer]
    split
    · simp
    · rw [List.mem_cons, mem_insertTimer, List.mem_cons, or_left_comm]

theorem mem_foldr_insertTimer {t : Timer} : ∀ {ts : List Timer},
    t ∈ ts.foldr insertTimer [] ↔ t ∈ ts
  | [] => Iff.rfl
  | u :: us => by rw [List.foldr_cons, mem_insertTimer, mem_foldr_insertTimer, List.mem_cons]

/-- What rings is what waits and has got due. -/
theorem mem_due {s : Session} {t : Timer} : t ∈ s.due ↔ t ∈ s.timers ∧ t.due ≤ s.now := by
  rw [due, mem_foldr_insertTimer, List.mem_filter, decide_eq_true_iff]

end Session

end Taskboard
