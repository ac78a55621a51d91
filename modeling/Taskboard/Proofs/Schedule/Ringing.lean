import Mathlib.Data.List.Nodup
import Taskboard.Proofs.Schedule.Run

/-!
# Proofs/Schedule/Ringing — which timers ring when time passes

The timers of a session are `Tidy`: they stand in the order in which they were started, with rising
serials, and there is none once the session is closed.  So each timer that is due rings once when
time passes, and all others stay (`advance_eq`).
-/

namespace Taskboard

namespace Session

/-- The timers of a writable session stand in the order of their serials, and a closed one has
none. -/
structure Tidy (quiet : Int) (s : Session) : Prop where
  writable : s.readOnly = false
  quiet_eq : s.quiet = quiet
  rising : s.timers.Pairwise fun t u => t.serial < u.serial
  serial_lt : ∀ t ∈ s.timers, t.serial < s.nextSerial
  closed : s.closed = true → s.timers = []

variable {quiet : Int} {s : Session}

theorem tidy_start (rows : List Row) (quiet : Int) : Tidy quiet (start rows quiet false) where
  writable := rfl
  quiet_eq := rfl
  rising := .nil
  serial_lt := nofun
  closed _ := rfl

/-! ## Ringing -/

/-- **Timers that wait ring once each**: there is a save of the rows for each, and the others
stay. -/
theorem ringAll_eq : ∀ (ts : List Timer) (s : Session), s.closed = false →
    (∀ t ∈ ts, t ∈ s.timers) → ts.Pairwise (fun t u => t.serial ≠ u.serial) →
      ringAll ts s =
        ({ s with timers := s.timers.filter fun t => ∀ u ∈ ts, t.serial ≠ u.serial },
          List.replicate ts.length s.rows)
  | [], s, _, _, _ => by
    have hall : s.timers.filter (fun t => ∀ u ∈ ([] : List Timer), t.serial ≠ u.serial) =
        s.timers := List.filter_eq_self.mpr fun t _ => by simp
    rw [hall]
    rfl
  | t :: ts, s, hopen, hmem, hdistinct => by
    obtain ⟨ht, hdistinct⟩ := List.pairwise_cons.mp hdistinct
    have hrest := ringAll_eq ts
      { s with timers := s.timers.filter fun u => u.serial ≠ t.serial } hopen (fun u hu =>
        List.mem_filter.mpr ⟨hmem u (List.mem_cons_of_mem t hu), by simpa using (ht u hu).symm⟩)
      hdistinct
    rw [ringAll_cons, ring_of_mem hopen (hmem t List.mem_cons_self), hrest]
    simp [List.filter_filter, List.replicate_succ, Bool.and_comm]

theorem perm_insertTimer (t : Timer) : ∀ ts : List Timer, (insertTimer t ts).Perm (t :: ts)
  | [] => .refl _
  | u :: us => by
    rw [insertTimer]
    split
    · exact .refl _
    · exact ((perm_insertTimer t us).cons u).trans (.swap t u us)

theorem perm_foldr_insertTimer : ∀ ts : List Timer, (ts.foldr insertTimer []).Perm ts
  | [] => .refl _
  | t :: ts => (perm_insertTimer t _).trans ((perm_foldr_insertTimer ts).cons t)

/-- What rings is what is due, in another order. -/
theorem perm_due (s : Session) : s.due.Perm (s.timers.filter fun t => t.due ≤ s.now) :=
  perm_foldr_insertTimer _

namespace Tidy

/-- No two timers have one serial. -/
theorem eq_of_serial (h : Tidy quiet s) {t u : Timer} (ht : t ∈ s.timers) (hu : u ∈ s.timers)
    (heq : t.serial = u.serial) : t = u := by
  have hnodup : (s.timers.map Timer.serial).Nodup :=
    List.pairwise_map.mpr (h.rising.imp fun hlt => Nat.ne_of_lt hlt)
  exact List.inj_on_of_nodup_map hnodup ht hu heq

/-- **All timers that are due ring**, and only they go. -/
theorem ringAll_due (h : Tidy quiet s) : ringAll s.due s =
    ({ s with timers := s.timers.filter fun t => ¬ t.due ≤ s.now },
      List.replicate (s.timers.countP fun t => t.due ≤ s.now) s.rows) := by
  by_cases hclosed : s.closed = true
  · have hnone := h.closed hclosed
    have hdue : s.due = [] := by simp [due, hnone]
    have hself : { s with timers := [] } = s := by rw [← hnone]
    rw [hdue, hnone, List.filter_nil, hself]
    rfl
  · have hdistinct : s.due.Pairwise fun t u => t.serial ≠ u.serial :=
      ((perm_due s).pairwise_iff fun hne => hne.symm).mpr
        ((h.rising.filter _).imp fun hlt => Nat.ne_of_lt hlt)
    have hstay : (s.timers.filter fun t => ∀ u ∈ s.due, t.serial ≠ u.serial) =
        s.timers.filter fun t => ¬ t.due ≤ s.now := by
      refine List.filter_congr fun t ht => ?_
      simp only [mem_due, decide_eq_decide]
      constructor
      · exact fun hstays hdue => hstays t ⟨ht, hdue⟩ rfl
      · rintro hlate u ⟨hu, hdue⟩ heq
        exact hlate (h.eq_of_serial ht hu heq ▸ hdue)
    have hopen : s.closed = false := Bool.eq_false_iff.mpr hclosed
    rw [ringAll_eq s.due s hopen (fun t ht => (mem_due.mp ht).1) hdistinct, hstay,
      (perm_due s).length_eq, ← List.countP_eq_length_filter]

/-- Time that passes leaves the timers alone. -/
theorem tick (h : Tidy quiet s) (ms : Int) : Tidy quiet { s with now := s.now + ms } :=
  ⟨h.writable, h.quiet_eq, h.rising, h.serial_lt, h.closed⟩

/-- **When time passes**, each timer that gets due saves the rows, and the others stay. -/
theorem advance_eq (h : Tidy quiet s) (ms : Int) : s.advance ms =
    ({ s with now := s.now + ms, timers := s.timers.filter fun t => ¬ t.due ≤ s.now + ms },
      List.replicate (s.timers.countP fun t => t.due ≤ s.now + ms) s.rows) :=
  (h.tick ms).ringAll_due

/-- Timers that go leave the others as they stand. -/
theorem filter (h : Tidy quiet s) (stays : Timer → Bool) :
    Tidy quiet { s with timers := s.timers.filter stays } where
  writable := h.writable
  quiet_eq := h.quiet_eq
  rising := h.rising.filter stays
  serial_lt t ht := h.serial_lt t (List.mem_filter.mp ht).1
  closed hclosed := by simp [h.closed hclosed]

theorem replace (h : Tidy quiet s) (rows : List Row) : Tidy quiet { s with rows } :=
  ⟨h.writable, h.quiet_eq, h.rising, h.serial_lt, h.closed⟩

/-- A timer that is started stands last. -/
theorem timers_arm (h : Tidy quiet s) (id : String) : (s.arm id).timers =
    (s.timers.filter fun t => t.task ≠ id) ++ [⟨s.nextSerial, id, s.now + quiet⟩] := by
  rw [Session.arm, h.writable, if_neg Bool.false_ne_true, h.quiet_eq]

theorem nextSerial_arm (h : Tidy quiet s) (id : String) :
    (s.arm id).nextSerial = s.nextSerial + 1 := by
  rw [Session.arm, h.writable, if_neg Bool.false_ne_true]

theorem arm (h : Tidy quiet s) (hopen : s.closed = false) (id : String) :
    Tidy quiet (s.arm id) where
  writable := (arm_readOnly id s).trans h.writable
  quiet_eq := (arm_quiet id s).trans h.quiet_eq
  rising := by
    rw [h.timers_arm]
    refine List.pairwise_append.mpr ⟨h.rising.filter _, List.pairwise_singleton _ _, ?_⟩
    intro t ht u hu
    obtain rfl := List.mem_singleton.mp hu
    exact h.serial_lt t (List.mem_filter.mp ht).1
  serial_lt t ht := by
    rw [h.nextSerial_arm]
    obtain ⟨ht, -⟩ | rfl := (mem_timers_arm h.writable).mp ht
    · exact Nat.lt_succ_of_lt (h.serial_lt t ht)
    · exact Nat.lt_succ_self s.nextSerial
  closed hclosed := by
    have hsame : (s.arm id).closed = s.closed := by unfold Session.arm; split <;> rfl
    rw [hsame, hopen] at hclosed
    cases hclosed

/-- A save in place of all timers, unless the session is closed. -/
theorem flush_eq (h : Tidy quiet s) :
    s.flush = ({ s with timers := [] }, if s.closed then [] else [s.rows]) := by
  have hguard : (s.closed || s.readOnly) = s.closed := by rw [h.writable, Bool.or_false]
  rw [Session.flush, hguard]
  split
  next hclosed =>
    have hself : { s with timers := [] } = s := by rw [← h.closed hclosed]
    rw [hself]
  next => rfl

/-- **Each action keeps the timers tidy.** -/
theorem perform (h : Tidy quiet s) (a : Action) : Tidy quiet (s.perform a).1 := by
  have hcleared : Tidy quiet { s with timers := [] } := by simpa using h.filter fun _ => false
  cases a with
  | update id start finish =>
    obtain hno | ⟨r, horder, hopen, -, -, hyes⟩ := update_cases id start finish s
    · simpa [Session.perform, hno] using h
    · have hmoved := (h.replace (moveRow id start finish horder s.rows)).arm hopen id
      simpa [Session.perform, hyes] using hmoved
  | replace rows => exact h.replace rows
  | flush =>
    rw [Session.perform, h.flush_eq]
    exact hcleared
  | advance ms =>
    rw [Session.perform, h.advance_eq]
    exact (h.tick ms).filter _
  | ring serial =>
    obtain hring | hring := ring_cases serial s
    · simpa [Session.perform, hring] using h
    · simpa [Session.perform, hring] using h.filter fun t => t.serial ≠ serial
  | close => exact ⟨h.writable, h.quiet_eq, .nil, nofun, fun _ => rfl⟩

end Tidy

end Session

end Taskboard
