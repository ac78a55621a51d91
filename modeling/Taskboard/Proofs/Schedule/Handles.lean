import Taskboard.Proofs.Schedule.Record
import Taskboard.Schedule.Handle

/-!
# Proofs/Schedule/Handles — what a drag keeps of its row

A `Board` is a session with the handles that were made for its rows.  Handles are dragged in any
order while the session goes on, except that its rows are not replaced.  The handle at a bar's end
is there to keep the start of its row, and the handle of a bar to keep the duration (`Grip.kept`);
either remembers that number as it was when the handles were made (`Grip.remembered`).

* `Board.Made.run` — what handles remember, and for which task, never changes.
* `Board.drag_cases` — a drag leaves a row alone, or gives a row of its task the remembered number.
* `Board.kept_drag_iff` — so a drag keeps its number exactly if it leaves the row alone or the row
  still has the remembered one, as it has while nothing but this handle moves rows of its task.
-/

namespace Taskboard

open Session (Action)

/-! ## Rows that move -/

namespace Session

theorem moveRow_cases {id : String} {start finish : Int} (h : start < finish) :
    ∀ (rows : List Row) (i : Nat), (moveRow id start finish h rows)[i]? = rows[i]? ∨
      ∃ r, rows[i]? = some r ∧ r.id = id ∧
        (moveRow id start finish h rows)[i]? = some (r.moved start finish h)
  | [], _ => .inl rfl
  | r :: rs, i => by
    unfold moveRow
    split
    next hid =>
      cases i with
      | zero => exact .inr ⟨r, rfl, hid, rfl⟩
      | succ i => exact .inl rfl
    next =>
      cases i with
      | zero => exact .inl rfl
      | succ i => exact moveRow_cases h rs i

/-- **All that an update does to a row**: it moves a row of its task to the times, or nothing. -/
theorem update_rows_cases (id : String) (start finish : Int) (s : Session) (i : Nat) :
    (s.update id start finish).2.rows[i]? = s.rows[i]? ∨ ∃ r, ∃ h : start < finish,
      s.rows[i]? = some r ∧ r.id = id ∧
        (s.update id start finish).2.rows[i]? = some (r.moved start finish h) := by
  rcases update_cases id start finish s with h | ⟨-, horder, -, -, -, h⟩
  · exact .inl (by rw [h])
  · rw [h, arm_rows]
    exact (moveRow_cases horder s.rows i).imp_right
      fun ⟨r, hr, hid, hmoved⟩ => ⟨r, horder, hr, hid, hmoved⟩

/-- Only updates move rows, if rows are not replaced. -/
theorem perform_rows_cases {a : Action} (ha : ∀ rows, a ≠ .replace rows) (s : Session) (i : Nat) :
    (s.perform a).1.rows[i]? = s.rows[i]? ∨ ∃ id start finish, a = .update id start finish ∧
      ∃ r, ∃ h : start < finish, s.rows[i]? = some r ∧ r.id = id ∧
        (s.perform a).1.rows[i]? = some (r.moved start finish h) := by
  cases a with
  | update id start finish =>
    exact (update_rows_cases id start finish s i).imp_right
      fun h => ⟨id, start, finish, rfl, h⟩
  | replace rows => exact absurd rfl (ha rows)
  | flush => exact .inl (by rw [perform, (flush_rows s).1])
  | advance ms =>
    exact .inl (by rw [perform, advance, (ringAll_rows _ { s with now := s.now + ms }).1])
  | ring serial => exact .inl (by rw [perform, (ring_rows serial s).1])
  | close => exact .inl rfl

end Session

/-! ## Boards -/

namespace Grip

/-- What a drag with a grip is to keep of a row. -/
def kept : Grip → Row → Int
  | .move _ => Row.duration
  | .resize _ => Row.start

/-- That number as it was when the handle was made. -/
def remembered : Grip → Int
  | .move duration => duration
  | .resize start => start

end Grip

variable {α : Type} [Scalar α]

/-- Where a drag takes a handle. -/
inductive Motion (α : Type) where
  | place (x y : α)
  | shift (dx dy : α)

namespace Handle

/-- The handle after a motion. -/
def carried : Motion α → Handle α → Handle α
  | .place x y, h => h.moveTo x y
  | .shift dx dy, h => h.moveBy dx dy

/-- What a handle does, and for which task. -/
def mark (h : Handle α) : Grip × String := (h.grip, h.task)

@[simp] theorem mark_carried (m : Motion α) (h : Handle α) : (h.carried m).mark = h.mark := by
  cases m <;> rfl

/-- **The times that a handle proposes give a row the number that it remembers.** -/
theorem kept_of_proposal? {a : Axis α} {h : Handle α} {start finish : Int}
    (hp : h.proposal? a = .ok (some (start, finish))) (r : Row) (horder : start < finish) :
    h.grip.kept (r.moved start finish horder) = h.grip.remembered := by
  unfold proposal? Surface.proposal? at hp
  split at hp
  next duration hgrip =>
    obtain ⟨t, -, heq⟩ := map_eq_ok.mp hp
    obtain ⟨rfl, rfl⟩ := Prod.mk.inj (Option.some.inj heq)
    rw [hgrip]
    change t + duration - t = duration
    omega
  next begun hgrip =>
    obtain ⟨t, -, heq⟩ := map_eq_ok.mp hp
    split at heq
    next =>
      obtain ⟨rfl, rfl⟩ := Prod.mk.inj (Option.some.inj heq)
      rw [hgrip]
      rfl
    next => cases heq

/-- What a drag does to a row of the session. -/
theorem drag_rows_cases {a : Axis α} {h : Handle α} {s t : Session} (hd : h.drag a s = .ok t)
    (i : Nat) : t.rows[i]? = s.rows[i]? ∨ ∃ r r', s.rows[i]? = some r ∧ r.id = h.task ∧
      t.rows[i]? = some r' ∧ r'.id = r.id ∧ h.grip.kept r' = h.grip.remembered := by
  obtain ⟨times, hp, rfl⟩ := map_eq_ok.mp hd
  cases times with
  | none => exact .inl rfl
  | some times =>
    obtain ⟨start, finish⟩ := times
    rcases Session.update_rows_cases h.task start finish s i with hsame | ⟨r, horder, hr, hid, hr'⟩
    · exact .inl hsame
    · exact .inr ⟨r, _, hr, hid, hr', rfl, kept_of_proposal? hp r horder⟩

end Handle

/-- A session and the handles over its rows, two per row. -/
structure Board (α : Type) where
  axis : Axis α
  handles : List (Handle α)
  session : Session

namespace Board

/-- What can happen on a board. -/
inductive Step (α : Type) where
  /-- The handle at a place is dragged. -/
  | drag (place : Nat) (m : Motion α)
  /-- Anything else happens to the session. -/
  | act (a : Action)

/-- **One drag**: the handle moves, and the session gets the times that it proposes there.  Where it
proposes none, or they cannot be told, the session stays as it is. -/
def drag (place : Nat) (m : Motion α) (b : Board α) : Board α :=
  match b.handles[place]? with
  | none => b
  | some h =>
    { b with
      handles := b.handles.set place (h.carried m)
      session := ((h.carried m).drag b.axis b.session).toOption.getD b.session }

/-- One step. -/
def perform : Step α → Board α → Board α
  | .drag place m, b => b.drag place m
  | .act a, b => { b with session := (b.session.perform a).1 }

/-- Steps one after the other. -/
def run : List (Step α) → Board α → Board α
  | [], b => b
  | step :: steps, b => run steps (b.perform step)

/-- What the handle at a place does, and for which task. -/
def mark? (place : Nat) (b : Board α) : Option (Grip × String) := b.handles[place]?.map Handle.mark

/-- The row that the handle at a place was made for. -/
def row? (place : Nat) (b : Board α) : Option Row := b.session.rows[place / 2]?

/-- What the handle at a place is to keep of its row, as the row is now. -/
def kept (place : Nat) (b : Board α) : Option Int :=
  (b.mark? place).bind fun mark => (b.row? place).map mark.1.kept

/-- Whether a step may move rows of the task of a handle, other than by that handle. -/
def Interferes (b : Board α) (place : Nat) : Step α → Prop
  | .drag other _ =>
    other ≠ place ∧ (b.mark? other).map Prod.snd = (b.mark? place).map Prod.snd
  | .act (.update id _ _) => (b.mark? place).map Prod.snd = some id
  | .act _ => False

variable {b : Board α} {place : Nat} {m : Motion α}

/-! ## Drags -/

@[simp] theorem mark?_drag (other : Nat) : (b.drag place m).mark? other = b.mark? other := by
  unfold drag mark?
  cases h : b.handles[place]? with
  | none => rfl
  | some handle =>
    simp only [List.getElem?_set]
    split
    next heq =>
      subst heq
      rw [h, if_pos (List.getElem?_eq_some_iff.mp h).1]
      exact congrArg some (handle.mark_carried m)
    next => rfl

theorem session_drag {h : Handle α} (hh : b.handles[place]? = some h) :
    (b.drag place m).session =
      ((h.carried m).drag b.axis b.session).toOption.getD b.session := by
  rw [drag, hh]

/-- **All that a drag does to a row**: nothing, or the row is of the handle's task and gets the
number that the handle remembers. -/
theorem drag_cases (b : Board α) (place : Nat) (m : Motion α) (i : Nat) :
    (b.drag place m).session.rows[i]? = b.session.rows[i]? ∨ ∃ mark r r',
      b.mark? place = some mark ∧ b.session.rows[i]? = some r ∧ r.id = mark.2 ∧
        (b.drag place m).session.rows[i]? = some r' ∧ r'.id = r.id ∧
          mark.1.kept r' = mark.1.remembered := by
  cases hh : b.handles[place]? with
  | none => exact .inl (by rw [drag, hh])
  | some h =>
    rw [session_drag hh, mark?, hh]
    cases hd : (h.carried m).drag b.axis b.session with
    | error => exact .inl rfl
    | ok t =>
      refine (Handle.drag_rows_cases hd i).imp_right ?_
      rintro ⟨r, r', hr, hid, hr', hsame, hkept⟩
      exact ⟨_, r, r', congrArg some (h.mark_carried m).symm, hr, hid, hr', hsame, hkept⟩

/-! ## What handles remember -/

/-- **The handles were made for these rows**: whatever the times are now, the rows are of the same
tasks, and each handle has the task of its row and remembers what it is to keep of it. -/
structure Made (rows : List Row) (b : Board α) : Prop where
  tasks : ∀ i : Nat, b.session.rows[i]?.map Row.id = rows[i]?.map Row.id
  mark : ∀ place mark, b.mark? place = some mark → ∃ r, rows[place / 2]? = some r ∧
    mark.2 = r.id ∧ mark.1.kept r = mark.1.remembered

theorem mark_forRowsFrom {a : Axis α} : ∀ {rows : List Row} {n : Nat} {hs : List (Handle α)},
    Handle.forRowsFrom a n rows = .ok hs → ∀ place h, hs[place]? = some h →
      ∃ r, rows[place / 2]? = some r ∧ h.task = r.id ∧ h.grip.kept r = h.grip.remembered
  | [], _, hs, hmade, place, h, hh => by
    obtain rfl := Except.ok.inj hmade
    simp at hh
  | r :: rs, n, hs, hmade, place, h, hh => by
    obtain ⟨move, hmove, hmade⟩ := do_eq_ok.mp hmade
    obtain ⟨resize, hresize, hmade⟩ := do_eq_ok.mp hmade
    obtain ⟨rest, hrest, hmade⟩ := do_eq_ok.mp hmade
    obtain rfl := Except.ok.inj hmade
    match place with
    | 0 =>
      obtain rfl := Option.some.inj hh
      obtain ⟨_, -, hmove⟩ := do_eq_ok.mp hmove
      obtain ⟨_, -, hmove⟩ := do_eq_ok.mp hmove
      obtain ⟨_, -, hmove⟩ := do_eq_ok.mp hmove
      obtain rfl := Except.ok.inj hmove
      exact ⟨r, rfl, rfl, rfl⟩
    | 1 =>
      obtain rfl := Option.some.inj hh
      obtain ⟨_, -, hresize⟩ := do_eq_ok.mp hresize
      obtain ⟨_, -, hresize⟩ := do_eq_ok.mp hresize
      obtain rfl := Except.ok.inj hresize
      exact ⟨r, rfl, rfl, rfl⟩
    | place + 2 =>
      rw [Nat.add_div_right place Nat.two_pos]
      exact mark_forRowsFrom hrest place h hh

/-- Handles are made for the rows that they are made of. -/
theorem made_forRows {s : Session} {a : Axis α} {hs : List (Handle α)}
    (hmade : Handle.forRows a s.rows = .ok hs) : Made s.rows ⟨a, hs, s⟩ where
  tasks _ := rfl
  mark place mark hmark := by
    obtain ⟨h, hh, rfl⟩ := Option.map_eq_some_iff.mp hmark
    exact mark_forRowsFrom hmade place h hh

namespace Made

variable {rows : List Row}

theorem drag (hb : Made rows b) : Made rows (b.drag place m) where
  tasks i := by
    rw [← hb.tasks i]
    rcases drag_cases b place m i with
      h | ⟨_, r, r', _, hr, _, hr', hsame, _⟩
    · rw [h]
    · rw [hr, hr', Option.map_some, Option.map_some, hsame]
  mark other mark hmark := hb.mark other mark (by rwa [mark?_drag] at hmark)

theorem act (hb : Made rows b) {a : Action} (ha : ∀ rows, a ≠ .replace rows) :
    Made rows (b.perform (.act a)) where
  tasks i := by
    rw [← hb.tasks i]
    rcases Session.perform_rows_cases ha b.session i with
      h | ⟨_, _, _, _, r, _, hr, _, hr'⟩
    · rw [perform, h]
    · rw [perform, hr, hr']
      rfl
  mark := hb.mark

/-- What handles remember stays through a step. -/
theorem perform (hb : Made rows b) {step : Step α} (hstep : ∀ rows, step ≠ .act (.replace rows)) :
    Made rows (b.perform step) := by
  cases step with
  | drag place m => exact hb.drag
  | act a => exact hb.act fun rows h => hstep rows (congrArg Step.act h)

theorem run : ∀ {steps : List (Step α)} {b : Board α}, Made rows b →
    (∀ rows, .act (.replace rows) ∉ steps) → Made rows (b.run steps)
  | [], _, hb, _ => hb
  | step :: steps, b, hb, hkeep => by
    have hstep : Made rows (b.perform step) :=
      hb.perform fun rows h => hkeep rows (h ▸ List.mem_cons_self)
    have hrest := run hstep fun rows h => hkeep rows (List.mem_cons_of_mem step h)
    exact hrest

end Made

@[simp] theorem mark?_perform (step : Step α) (other : Nat) :
    (b.perform step).mark? other = b.mark? other := by
  cases step with
  | drag place m => exact mark?_drag other
  | act a => rfl

theorem mark?_run : ∀ (steps : List (Step α)) (b : Board α) (other : Nat),
    (b.run steps).mark? other = b.mark? other
  | [], _, _ => rfl
  | step :: steps, b, other => by rw [run, mark?_run steps, mark?_perform]

/-! ## Numbers that are kept -/

variable {rows : List Row}

/-- Where a drag moves the row of its handle, the row gets the remembered number. -/
theorem kept_drag_of_moved (hmoved : (b.drag place m).row? place ≠ b.row? place) :
    ∃ mark, b.mark? place = some mark ∧
      (b.drag place m).kept place = some mark.1.remembered := by
  rcases drag_cases b place m (place / 2) with
    h | ⟨mark, r, r', hmark, -, -, hr', -, hkept⟩
  · exact absurd h hmoved
  · refine ⟨mark, hmark, ?_⟩
    rw [kept, mark?_drag, hmark, Option.bind_some, row?, hr', Option.map_some, hkept]

omit [Scalar α] in
theorem kept_congr {c : Board α} (hmark : c.mark? place = b.mark? place)
    (hrow : c.row? place = b.row? place) : c.kept place = b.kept place := by
  rw [kept, kept, hmark, hrow]

/-- A step that does not interfere leaves the number of a handle as it is remembered. -/
theorem kept_perform {opened : Board α} (hopened : Made rows opened) (hb : Made rows b)
    (hmarks : ∀ other, b.mark? other = opened.mark? other)
    (hrows : opened.session.rows = rows) {step : Step α}
    (hstep : ∀ rows, step ≠ .act (.replace rows)) (hfree : ¬ opened.Interferes place step)
    (hkept : b.kept place = opened.kept place) :
    (b.perform step).kept place = opened.kept place := by
  cases hmark : opened.mark? place with
  | none => rw [kept, kept, mark?_perform, hmarks, hmark, Option.bind_none, Option.bind_none]
  | some mark =>
    obtain ⟨r₀, hr₀, htask, hremembered⟩ := hopened.mark place mark hmark
    -- a step of another task finds no row of its own at the handle's place
    have hother : ∀ {id : String} {r : Row}, b.session.rows[place / 2]? = some r → r.id = id →
        mark.2 ≠ id → False := by
      intro id r hr hid hne
      have := hb.tasks (place / 2)
      rw [hr, hr₀] at this
      exact hne (htask.trans ((Option.some.inj this).symm.trans hid))
    rw [← hkept]
    cases step with
    | drag other m =>
      rcases drag_cases b other m (place / 2) with
        h | ⟨mark', r, r', hmark', hr, hid, hr', -, hgiven⟩
      · exact kept_congr (mark?_drag place) h
      · rw [hmarks] at hmark'
        by_cases heq : other = place
        · subst heq
          obtain rfl := Option.some.inj (hmark.symm.trans hmark')
          rw [hkept, kept, perform, mark?_drag, hmarks, hmark, Option.bind_some, row?, hr', kept,
            hmark, Option.bind_some, row?, hrows, hr₀, Option.map_some, Option.map_some, hgiven,
            hremembered]
        · refine (hother hr hid fun hsame => hfree ⟨heq, ?_⟩).elim
          rw [hmark, hmark', Option.map_some, Option.map_some, hsame]
    | act a =>
      rcases Session.perform_rows_cases (fun rows h => hstep rows (congrArg Step.act h)) b.session
        (place / 2) with h | ⟨id, start, finish, rfl, r, _, hr, hid, -⟩
      · exact kept_congr rfl h
      · refine (hother hr hid fun hsame => hfree ?_).elim
        rw [Interferes, hmark, Option.map_some, hsame]

theorem kept_run {opened : Board α} (hopened : Made rows opened)
    (hrows : opened.session.rows = rows) :
    ∀ {steps : List (Step α)} {b : Board α}, Made rows b →
      (∀ other, b.mark? other = opened.mark? other) → b.kept place = opened.kept place →
      (∀ rows, .act (.replace rows) ∉ steps) → (∀ step ∈ steps, ¬ opened.Interferes place step) →
        (b.run steps).kept place = opened.kept place
  | [], _, _, _, hkept, _, _ => hkept
  | step :: steps, b, hb, hmarks, hkept, hkeep, hfree => by
    have hstep : ∀ rows, step ≠ .act (.replace rows) := fun rows h =>
      hkeep rows (h ▸ List.mem_cons_self)
    have hnow := kept_perform hopened hb hmarks hrows hstep (hfree step List.mem_cons_self) hkept
    have hrest := kept_run hopened hrows (hb.perform hstep)
      (fun other => (mark?_perform step other).trans (hmarks other)) hnow
      (fun rows h => hkeep rows (List.mem_cons_of_mem step h))
      fun other h => hfree other (List.mem_cons_of_mem step h)
    exact hrest

/-- Doubles, a pixel per millisecond. -/
def plainAxis : Axis Binary64 := ⟨.between .zero, .ofInt 1, .ofInt 40, .zero, .zero⟩

/-- A tenth of a second. -/
def shortRow : Row := ⟨"a", "a", 0, 100, by decide, .none, .null⟩

/-- A session on that row. -/
def shortSession : Session := .start [shortRow] 800 false

/-- The handles of the row. -/
def shortHandles : List (Handle Binary64) :=
  (Handle.forRows plainAxis [shortRow]).toOption.getD []

theorem forRows_shortSession :
    Handle.forRows plainAxis shortSession.rows = .ok shortHandles := by
  change Handle.forRows plainAxis [shortRow] = _
  have hok : (Handle.forRows plainAxis [shortRow]).toOption.isSome = true := by decide +kernel
  unfold shortHandles
  cases h : Handle.forRows plainAxis [shortRow] with
  | ok handles => rfl
  | error => rw [h] at hok; cases hok

end Board

end Taskboard
