import Taskboard.Proofs.Schedule.Run

/-!
# Proofs/Schedule/Pending — no accepted change is lost

A writable session is *on record* (`OnRecord`) with a history when every change of the history that
awaits its save has a timer, and no timer is due later than one quiet period from now.  Each action
keeps this, so it holds after every run (`OnRecord.run`).  While the session is open, one quiet
period without further actions then saves all rows and leaves nothing pending.
-/

namespace Taskboard

namespace Session

/-- What a writable session owes to its history. -/
structure OnRecord (quiet : Int) (history : List Event) (s : Session) : Prop where
  writable : s.readOnly = false
  quiet_eq : s.quiet = quiet
  due_le : ∀ t ∈ s.timers, t.due ≤ s.now + quiet
  pending : s.closed = false → ∀ id, AwaitsSave id history → id ∈ s.pending

variable {quiet : Int} {history : List Event} {s : Session}

theorem onRecord_start (rows : List Row) (quiet : Int) :
    OnRecord quiet [] (start rows quiet false) where
  writable := rfl
  quiet_eq := rfl
  due_le := by simp [start]
  pending := fun _ id h => absurd h (not_awaitsSave_nil id)

namespace OnRecord

/-- Other rows leave the timers alone. -/
theorem replace (h : OnRecord quiet history s) (rows : List Row) :
    OnRecord quiet history { s with rows } :=
  ⟨h.writable, h.quiet_eq, h.due_le, h.pending⟩

/-- A change gets a timer. -/
theorem arm (h : OnRecord quiet history s) (hopen : s.closed = false) (id : String) :
    OnRecord quiet (history ++ [.changed id]) (s.arm id) where
  writable := (arm_readOnly id s).trans h.writable
  quiet_eq := (arm_quiet id s).trans h.quiet_eq
  due_le := fun t ht => by
    rw [arm_now]
    rcases (mem_timers_arm h.writable).mp ht with ⟨ht, -⟩ | rfl
    · exact h.due_le t ht
    · exact Int.le_of_eq (congrArg (s.now + ·) h.quiet_eq)
  pending := fun _ k hk => (mem_pending_arm h.writable).mpr <| by
    rcases awaitsSave_concat.mp hk with hk | ⟨hk, -⟩
    · exact Or.inl (Event.changed.inj hk).symm
    · exact Or.inr (h.pending hopen k hk)

theorem update (h : OnRecord quiet history s) (id : String) (start finish : Int) :
    OnRecord quiet (history ++ (s.perform (.update id start finish)).2)
      (s.perform (.update id start finish)).1 := by
  rcases update_cases id start finish s with hno | ⟨r, horder, hopen, -, -, hyes⟩
  · simpa [Session.perform, hno] using h
  · have hmoved := h.replace (moveRow id start finish horder s.rows)
    simpa [Session.perform, hyes] using hmoved.arm hopen id

/-- Time that passes leaves the timers alone. -/
theorem tick (h : OnRecord quiet history s) (ms : Nat) :
    OnRecord quiet history { s with now := s.now + ms } where
  writable := h.writable
  quiet_eq := h.quiet_eq
  due_le := fun t ht => by
    have := h.due_le t ht
    show t.due ≤ s.now + ms + quiet
    omega
  pending := h.pending

/-- After a save nothing awaits one, whatever the timers. -/
theorem saved (h : OnRecord quiet history s) (rows : Snapshot) {timers : List Timer}
    (hsub : ∀ t ∈ timers, t ∈ s.timers) :
    OnRecord quiet (history ++ [.saved rows]) { s with timers } where
  writable := h.writable
  quiet_eq := h.quiet_eq
  due_le := fun t ht => h.due_le t (hsub t ht)
  pending := fun _ id hid => by
    rcases awaitsSave_concat.mp hid with hid | ⟨-, hid⟩
    · cases hid
    · exact absurd rfl (hid rows)

/-- A timer goes only with a save. -/
theorem ring (h : OnRecord quiet history s) (serial : Nat) :
    OnRecord quiet (history ++ (s.ring serial).2.map .saved) (s.ring serial).1 := by
  rcases ring_cases serial s with hring | hring <;> rw [hring]
  · simpa using h
  · exact h.saved s.rows fun t ht => (List.mem_filter.mp ht).1

theorem ringAll (h : OnRecord quiet history s) : ∀ ts : List Timer,
    OnRecord quiet (history ++ (Session.ringAll ts s).2.map .saved) (Session.ringAll ts s).1 := by
  intro ts
  induction ts generalizing history s with
  | nil => simpa [Session.ringAll] using h
  | cons t ts ih =>
    have hrest := ih (h.ring t.serial)
    rw [List.append_assoc, ← List.map_append] at hrest
    rw [ringAll_cons]
    exact hrest

theorem flush (h : OnRecord quiet history s) :
    OnRecord quiet (history ++ s.flush.2.map .saved) s.flush.1 := by
  unfold Session.flush
  split
  · simpa using h
  · exact h.saved s.rows (by simp)

theorem close (h : OnRecord quiet history s) : OnRecord quiet history s.close where
  writable := h.writable
  quiet_eq := h.quiet_eq
  due_le := by simp [Session.close]
  pending := fun hopen => by simp [Session.close] at hopen

/-- **Each action keeps the record.** -/
theorem perform (h : OnRecord quiet history s) (a : Action) :
    OnRecord quiet (history ++ (s.perform a).2) (s.perform a).1 := by
  cases a with
  | update id start finish => exact h.update id start finish
  | replace rows => simpa [Session.perform, Session.replace] using h.replace rows
  | flush => exact h.flush
  | advance ms => exact (h.tick ms).ringAll _
  | ring serial => exact h.ring serial
  | close => simpa [Session.perform] using h.close

/-- **…and so does every run.** -/
theorem run (h : OnRecord quiet history s) : ∀ actions : List Action,
    OnRecord quiet (history ++ (s.run actions).2) (s.run actions).1 := by
  intro actions
  induction actions generalizing history s with
  | nil => simpa [Session.run] using h
  | cons a as ih =>
    have hrest := ih (h.perform a)
    rw [List.append_assoc] at hrest
    exact hrest

/-- **A quiet period saves all rows** and leaves nothing pending: by then every timer is due. -/
theorem advance_quiet (h : OnRecord quiet history s) (hopen : s.closed = false)
    (hsome : s.pending ≠ []) :
    ∃ saves, s.advance quiet = ({ s with now := s.now + quiet, timers := [] }, saves) ∧
      saves.getLast? = some s.rows := by
  have hcover : ∀ t ∈ s.timers,
      ∃ u ∈ ({ s with now := s.now + quiet } : Session).due, u.serial = t.serial :=
    fun t ht => ⟨t, mem_due.mpr ⟨ht, h.due_le t ht⟩, rfl⟩
  obtain ⟨saves, hring, hrows, hsaves⟩ :=
    ringAll_covering _ { s with now := s.now + quiet } hopen hcover
  have hne : saves ≠ [] := hsaves fun ht => hsome (List.map_eq_nil_iff.mpr ht)
  refine ⟨saves, hring, ?_⟩
  rw [List.getLast?_eq_some_getLast hne]
  exact congrArg some (hrows _ (List.getLast_mem hne))

end OnRecord

/-- **No accepted change is lost.**  After any run of a writable session that is still open, each
change that no save has covered is pending; and if anything is, one quiet period without further
actions leaves nothing pending, keeps the rows, and ends with a save of exactly these rows. -/
theorem changes_get_saved (rows : List Row) (quiet : Int) (actions : List Action) :
    let s := ((start rows quiet false).run actions).1
    let history := ((start rows quiet false).run actions).2
    s.closed = false →
      (∀ id, AwaitsSave id history → id ∈ s.pending) ∧
        (s.pending ≠ [] → (s.advance quiet).1.pending = [] ∧ (s.advance quiet).1.rows = s.rows ∧
          (s.advance quiet).2.getLast? = some s.rows) := by
  intro s history hopen
  have hrecord : OnRecord quiet ([] ++ history) s := (onRecord_start rows quiet).run actions
  refine ⟨hrecord.pending hopen, fun hsome => ?_⟩
  obtain ⟨saves, hadvance, hlast⟩ := hrecord.advance_quiet hopen hsome
  rw [hadvance]
  exact ⟨rfl, rfl, hlast⟩

/-- Two tasks whose quiet periods overlap: the save for one covers the other, which is then changed
again. -/
theorem changes_get_saved_overlapping :
    let rows : List Row := [⟨"design", "Design", 0, 1000, by decide, .none, .null⟩,
      ⟨"build", "Build", 1000, 5000, by decide, .none, .text "design"⟩]
    let actions : List Action := [.update "build" 1200 5200, .advance 500, .update "design" 100 900,
      .advance 300, .update "build" 1300 5200]
    let s := ((start rows 800 false).run actions).1
    s.closed = false ∧ s.pending = ["design", "build"] ∧ (s.advance 800).1.pending = [] ∧
      (s.advance 800).2.getLast? = some s.rows := by
  intro rows actions s
  have hopen : s.closed = false := by decide
  have hpending : s.pending = ["design", "build"] := by decide
  have hsaved := (changes_get_saved rows 800 actions hopen).2 (by rw [hpending]; simp)
  exact ⟨hopen, hpending, hsaved.1, hsaved.2.2⟩

end Session

end Taskboard
