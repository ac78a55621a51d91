import Taskboard.Proofs.Schedule.Ringing

/-!
# Proofs/Schedule/Debounce — exactly which saves a session makes

A `Course` is a run of a writable session in which timers ring when time passes and at no other
time.  Its steps are counted, and what is said of a step looks at the actions before it only: the
save for a change *waits* (`Course.waits`) as long as no later change of its task, no flush and no
close came and the clock has not reached the change's time plus the quiet period, and it *fires*
(`Course.fires`) when the clock gets there.

* `Course.timers_eq` — the timers of a state are those of the changes whose saves wait.
* `Course.exact_debounce` — the saves of the run are those of its flushes and of the saves that
  fire, each with the rows of its moment; a save fires once, and the callback of a timer whose save
  no longer waits does nothing.
-/

namespace Taskboard

namespace Session

/-- The snapshots of a history. -/
def savesOf (history : List Event) : List Snapshot :=
  history.filterMap fun
    | .saved rows => some rows
    | .changed _ => none

@[simp] theorem savesOf_append (earlier later : List Event) :
    savesOf (earlier ++ later) = savesOf earlier ++ savesOf later :=
  List.filterMap_append

@[simp] theorem savesOf_map_saved (saves : List Snapshot) :
    savesOf (saves.map Event.saved) = saves := by
  simp [savesOf, List.filterMap_map]

/-- A run with one more action. -/
theorem run_concat (a : Action) : ∀ (actions : List Action) (s : Session),
    s.run (actions ++ [a]) = (((s.run actions).1.perform a).1,
      (s.run actions).2 ++ ((s.run actions).1.perform a).2)
  | [], s => by simp [run]
  | b :: actions, s => by
    simp only [List.cons_append, run, run_concat a actions (s.perform b).1, List.append_assoc]

/-- A run of a writable session whose timers ring when time passes, and at no other time. -/
structure Course where
  rows : List Row
  quiet : Int
  actions : List Action
  no_ring : ∀ serial, .ring serial ∉ actions

namespace Course

/-! ## What happens in a step -/

/-- The run of the first actions. -/
def upTo (c : Course) (n : Nat) : Session × List Event :=
  (start c.rows c.quiet false).run (c.actions.take n)

/-- The state before a step. -/
def state (c : Course) (n : Nat) : Session := (c.upTo n).1

/-- The task of the change that a step makes, if it makes one. -/
def changed? (c : Course) (n : Nat) : Option String :=
  match c.actions[n]? with
  | some (.update id start finish) =>
    if ((c.state n).update id start finish).1 then some id else none
  | _ => none

/-- When the quiet period after a step ends. -/
def due (c : Course) (n : Nat) : Int := (c.state n).now + c.quiet

/-- Whether the clock reaches a time in a step. -/
def reaches (c : Course) (time : Int) (n : Nat) : Bool :=
  match c.actions[n]? with
  | some (.advance ms) => time ≤ (c.state n).now + ms
  | _ => false

/-- Whether a step takes the place of a save that waits for a task: a change of the task, a flush or
a close. -/
def cancels (c : Course) (id : String) (n : Nat) : Bool :=
  match c.actions[n]? with
  | some .flush | some .close => true
  | _ => c.changed? n = some id

/-- The task that a step changes. -/
def task (c : Course) (n : Nat) : String := (c.changed? n).getD ""

/-- Whether the save for the change of step `i` still waits before step `n`. -/
def waits (c : Course) (i n : Nat) : Bool :=
  (c.changed? i).isSome && i < n &&
    decide (∀ m < n, i < m → c.cancels (c.task i) m = false ∧ c.reaches (c.due i) m = false)

/-- Whether the save for the change of step `i` is made in step `n`. -/
def fires (c : Course) (i n : Nat) : Bool := c.waits i n && c.reaches (c.due i) n

/-- The saves that a step has to make, each of all rows: one for a flush while the session is open,
and one for each change whose save fires. -/
def expected (c : Course) (n : Nat) : List Snapshot :=
  match c.actions[n]? with
  | some .flush => if (c.state n).closed then [] else [(c.state n).rows]
  | some (.advance _) => .replicate ((List.range n).countP (c.fires · n)) (c.state n).rows
  | _ => []

/-- The timer that a change starts. -/
def timer (c : Course) (n : Nat) : Timer := ⟨(c.state n).nextSerial, c.task n, c.due n⟩

variable {c : Course}

/-! ## Steps -/

theorem upTo_succ {n : Nat} {a : Action} (ha : c.actions[n]? = some a) :
    c.upTo (n + 1) = (((c.state n).perform a).1, (c.upTo n).2 ++ ((c.state n).perform a).2) := by
  have htake : c.actions.take (n + 1) = c.actions.take n ++ [a] := by
    rw [List.take_add_one, ha]
    rfl
  rw [upTo, htake, run_concat]
  rfl

theorem state_succ {n : Nat} {a : Action} (ha : c.actions[n]? = some a) :
    c.state (n + 1) = ((c.state n).perform a).1 := by
  rw [state, upTo_succ ha]

/-- After the last action nothing happens. -/
theorem state_succ_of_none {n : Nat} (hn : c.actions[n]? = none) : c.state (n + 1) = c.state n := by
  have hlen : c.actions.length ≤ n := List.getElem?_eq_none_iff.mp hn
  rw [state, state, upTo, upTo, List.take_of_length_le hlen,
    List.take_of_length_le (Nat.le_succ_of_le hlen)]

theorem tidy (c : Course) : ∀ n, Tidy c.quiet (c.state n)
  | 0 => tidy_start c.rows c.quiet
  | n + 1 => by
    cases ha : c.actions[n]? with
    | none => exact state_succ_of_none ha ▸ c.tidy n
    | some a => exact state_succ ha ▸ (c.tidy n).perform a

/-! ## Saves that wait -/

/-- A change whose step was just made waits. -/
theorem waits_succ_self (n : Nat) : c.waits n (n + 1) = (c.changed? n).isSome := by
  have hnone : ∀ m < n + 1, n < m →
      c.cancels (c.task n) m = false ∧ c.reaches (c.due n) m = false :=
    fun m hm hn => absurd hn (Nat.not_lt_of_le (Nat.le_of_lt_succ hm))
  rw [waits, decide_eq_true hnone, decide_eq_true (Nat.lt_succ_self n), Bool.and_true,
    Bool.and_true]

/-- An earlier one goes on waiting unless the step ends that. -/
theorem waits_succ {i n : Nat} (hi : i < n) : c.waits i (n + 1) =
    (c.waits i n && (!c.cancels (c.task i) n && !c.reaches (c.due i) n)) := by
  rw [Bool.eq_iff_iff]
  simp only [waits, Bool.and_eq_true, decide_eq_true_eq, Bool.not_eq_true', Nat.lt_succ_of_lt hi,
    hi, and_true, Nat.forall_lt_succ_right, forall_const]
  exact and_assoc.symm

/-- The changes whose saves wait before a step, the earliest first. -/
def waiting (c : Course) (n : Nat) : List Nat := (List.range n).filter fun i => c.waits i n

theorem waiting_succ (n : Nat) : c.waiting (n + 1) =
    ((c.waiting n).filter fun i => !c.cancels (c.task i) n && !c.reaches (c.due i) n) ++
      if (c.changed? n).isSome then [n] else [] := by
  rw [waiting, List.range_succ, List.filter_append, waiting, List.filter_filter]
  congr 1
  · refine List.filter_congr fun i hi => ?_
    rw [waits_succ (List.mem_range.mp hi), Bool.and_comm]
  · simp [waits_succ_self, List.filter_cons]

/-! ## Timers -/

/-- **What a step does to the timers**: those whose saves it takes the place of go, and those that
get due; and a change starts one. -/
theorem timers_succ (n : Nat) : (c.state (n + 1)).timers =
    ((c.state n).timers.filter fun t => !c.cancels t.task n && !c.reaches t.due n) ++
      if (c.changed? n).isSome then [c.timer n] else [] := by
  have hself : (c.state n).timers.filter (fun _ => true) = (c.state n).timers :=
    List.filter_eq_self.mpr fun _ _ => rfl
  cases ha : c.actions[n]? with
  | none => simp [state_succ_of_none ha, cancels, reaches, changed?, ha, hself]
  | some a =>
    rw [state_succ ha]
    cases a with
    | update id start finish =>
      obtain hno | ⟨r, horder, hopen, -, -, hyes⟩ := update_cases id start finish (c.state n)
      · simp [perform, cancels, reaches, changed?, ha, hno, hself]
      · have htask : c.changed? n = some id := by simp [changed?, ha, hyes]
        have harm :=
          ((c.tidy n).replace (moveRow id start finish horder (c.state n).rows)).timers_arm id
        simp [perform, cancels, reaches, ha, hyes, harm, htask, timer, task, due, eq_comm]
    | replace rows => simp [perform, replace, cancels, reaches, changed?, ha, hself]
    | flush => simp [perform, (c.tidy n).flush_eq, cancels, changed?, ha]
    | advance ms =>
      simp only [perform, (c.tidy n).advance_eq, cancels, reaches, changed?, ha, decide_not]
      simp
    | ring serial => exact absurd (List.mem_of_getElem? ha) (c.no_ring serial)
    | close => simp [perform, close, cancels, changed?, ha]

/-- **The timers of a state** are those of the changes whose saves wait. -/
theorem timers_eq : ∀ n, (c.state n).timers = (c.waiting n).map c.timer
  | 0 => rfl
  | n + 1 => by
    rw [timers_succ, timers_eq n, waiting_succ, List.map_append, List.filter_map]
    congr 1
    split <;> rfl

/-! ## Serials -/

theorem nextSerial_succ (n : Nat) :
    (c.state (n + 1)).nextSerial =
      (c.state n).nextSerial + if (c.changed? n).isSome then 1 else 0 := by
  cases ha : c.actions[n]? with
  | none => simp [state_succ_of_none ha, changed?, ha]
  | some a =>
    rw [state_succ ha]
    cases a with
    | update id start finish =>
      obtain hno | ⟨r, horder, hopen, -, -, hyes⟩ := update_cases id start finish (c.state n)
      · simp [perform, changed?, ha, hno]
      · have harm :=
          ((c.tidy n).replace (moveRow id start finish horder (c.state n).rows)).nextSerial_arm id
        simp [perform, changed?, ha, hyes, harm]
    | replace rows => simp [perform, replace, changed?, ha]
    | flush => simp [perform, (c.tidy n).flush_eq, changed?, ha]
    | advance ms => simp [perform, (c.tidy n).advance_eq, changed?, ha]
    | ring serial => exact absurd (List.mem_of_getElem? ha) (c.no_ring serial)
    | close => simp [perform, close, changed?, ha]

theorem nextSerial_mono {m n : Nat} (h : m ≤ n) :
    (c.state m).nextSerial ≤ (c.state n).nextSerial := by
  induction h with
  | refl => exact Nat.le_refl _
  | step _ ih =>
    rw [nextSerial_succ]
    exact Nat.le_trans ih (Nat.le_add_right _ _)

/-- A later timer has a greater serial. -/
theorem serial_lt {i j : Nat} (hi : (c.changed? i).isSome) (h : i < j) :
    (c.timer i).serial < (c.timer j).serial := by
  have hstep := nextSerial_succ (c := c) i
  rw [if_pos hi] at hstep
  have hmono := nextSerial_mono (c := c) (show i + 1 ≤ j from h)
  simp only [timer]
  omega

/-- The callback of a timer whose save no longer waits does nothing. -/
theorem ring_of_not_waits {i n : Nat} (hi : (c.changed? i).isSome) (hwaits : c.waits i n = false) :
    (c.state n).ring (c.timer i).serial = (c.state n, []) := by
  refine ring_of_not_mem fun t ht hserial => ?_
  rw [timers_eq] at ht
  obtain ⟨j, hj, rfl⟩ := List.mem_map.mp ht
  have hj : c.waits j n = true := (List.mem_filter.mp hj).2
  have hchanged : (c.changed? j).isSome := by
    simp only [waits, Bool.and_eq_true] at hj
    exact hj.1.1
  obtain hlt | rfl | hlt := Nat.lt_trichotomy i j
  · exact absurd hserial (Nat.ne_of_gt (serial_lt hi hlt))
  · rw [hwaits] at hj
    cases hj
  · exact absurd hserial (Nat.ne_of_lt (serial_lt hchanged hlt))

/-! ## Saves -/

/-- **What a step saves** is what it has to save. -/
theorem saves_step {n : Nat} {a : Action} (ha : c.actions[n]? = some a) :
    savesOf ((c.state n).perform a).2 = c.expected n := by
  unfold expected
  rw [ha]
  cases a with
  | update id start finish =>
    simp only [perform]
    split <;> rfl
  | replace rows => rfl
  | flush =>
    rw [perform, (c.tidy n).flush_eq, savesOf_map_saved]
  | advance ms =>
    have hcount : (c.state n).timers.countP (fun t => t.due ≤ (c.state n).now + ms) =
        (List.range n).countP (c.fires · n) := by
      rw [timers_eq, List.countP_map, waiting, List.countP_filter]
      refine List.countP_congr fun i _ => ?_
      simp only [fires, reaches, ha, timer, Function.comp_apply, Bool.and_comm]
      exact Iff.rfl
    rw [perform, (c.tidy n).advance_eq, savesOf_map_saved, hcount]
  | ring serial => exact absurd (List.mem_of_getElem? ha) (c.no_ring serial)
  | close => rfl

/-- The saves of the first steps are what these have to save. -/
theorem saves_upTo : ∀ n ≤ c.actions.length,
    savesOf (c.upTo n).2 = (List.range n).flatMap c.expected
  | 0, _ => rfl
  | n + 1, hn => by
    have ha := List.getElem?_eq_getElem (show n < c.actions.length from hn)
    rw [upTo_succ ha, savesOf_append, saves_upTo n (Nat.le_of_succ_le hn), saves_step ha,
      List.range_succ, List.flatMap_append, List.flatMap_singleton]

/-- A save that fired waits no longer. -/
theorem le_of_fires {i m n : Nat} (hm : c.fires i m = true) (hn : c.waits i n = true) : n ≤ m := by
  simp only [fires, waits, Bool.and_eq_true, decide_eq_true_eq] at hm hn
  refine Nat.le_of_not_lt fun hlt => ?_
  have hreaches := (hn.2 m hlt hm.1.1.2).2
  rw [hm.2] at hreaches
  cases hreaches

theorem fires_once {i m n : Nat} (hm : c.fires i m = true) (hn : c.fires i n = true) : m = n :=
  Nat.le_antisymm (le_of_fires hn (Bool.and_eq_true_iff.mp hm).1)
    (le_of_fires hm (Bool.and_eq_true_iff.mp hn).1)

/-- **Exactly the saves of the debounce.**  The saves of a course are, step by step, one for a flush
while the session is open and one for each change whose save fires, each of all rows of that moment.
The timers of a state are those of the changes whose saves wait.  The save for a change fires once
at most; and the callback of a timer whose save does not wait, because it fired or another step took
its place, neither saves nor changes anything. -/
theorem exact_debounce (c : Course) :
    savesOf ((start c.rows c.quiet false).run c.actions).2 =
        (List.range c.actions.length).flatMap c.expected ∧
      (∀ n, (c.state n).timers = (c.waiting n).map c.timer) ∧
      (∀ i m n, c.fires i m = true → c.fires i n = true → m = n) ∧
      ∀ i n, (c.changed? i).isSome → c.waits i n = false →
        (c.state n).ring (c.timer i).serial = (c.state n, []) := by
  refine ⟨?_, timers_eq, fun i m n => fires_once, fun i n => ring_of_not_waits⟩
  have hall := saves_upTo (c := c) c.actions.length (Nat.le_refl _)
  rwa [upTo, List.take_length] at hall

/-- Two tasks, one of which is changed again within its quiet period. -/
def overlapping : Course where
  rows := [⟨"design", "Design", 0, 1000, by decide, .none, .null⟩,
    ⟨"build", "Build", 1000, 5000, by decide, .none, .text "design"⟩]
  quiet := 800
  actions := [.update "design" 100 900, .update "build" 1200 5200, .advance 500,
    .update "design" 200 900, .advance 500, .advance 300]
  no_ring := by simp

/-- The save for the first change never fires, and its callback does nothing; the other two fire. -/
theorem exact_debounce_overlapping :
    overlapping.fires 1 4 = true ∧ overlapping.fires 3 5 = true ∧
      savesOf ((start overlapping.rows 800 false).run overlapping.actions).2 =
        [(overlapping.state 4).rows, (overlapping.state 5).rows] ∧
      overlapping.waits 0 4 = false ∧
        (overlapping.state 4).ring (overlapping.timer 0).serial = (overlapping.state 4, []) := by
  obtain ⟨hsaves, -, -, hring⟩ := exact_debounce overlapping
  refine ⟨by decide +kernel, by decide +kernel, hsaves.trans rfl, by decide +kernel, ?_⟩
  exact hring 0 4 (by decide +kernel) (by decide +kernel)

end Course

end Session

end Taskboard
