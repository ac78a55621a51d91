import Taskboard.Proofs.Schedule.Debounce
import Taskboard.Proofs.Schedule.Record

/-!
# Proofs/Schedule/Persistence — what saving and closing leave alone

* `closing_is_final` — whatever follows the close of a session, callbacks of timers included, only
  other rows that are put in place and the clock show in its state: nothing is saved, nothing waits
  and every update is refused.
* `persistence_never_influences` — a `Desk` is a session with its store.  Desks that differ only in
  how their store takes snapshots, or in whether they save at all, answer all requests alike and
  show the same rows after each of them.

The second result relates runs in lockstep: `Session.SameView` is what two sessions have in common,
each request keeps it, and what else they hold never reaches an answer.
-/

namespace Taskboard

namespace Session

/-! ## Closing -/

/-- The rows after actions that can only put other rows in place. -/
def replacedBy (rows : List Row) : Action → List Row
  | .replace rows => rows
  | _ => rows

/-- The time that an action takes. -/
def Action.elapsed : Action → Int
  | .advance ms => ms
  | _ => 0

/-- A closed session without timers. -/
structure Finished (s : Session) : Prop where
  closed : s.closed = true
  timers : s.timers = []

theorem finished_close (s : Session) : s.close.Finished := ⟨rfl, rfl⟩

namespace Finished

variable {s : Session}

theorem update_eq (h : s.Finished) (id : String) (start finish : Int) :
    s.update id start finish = (false, s) := by
  obtain hno | ⟨_, _, hopen, _⟩ := update_cases id start finish s
  · exact hno
  · rw [h.closed] at hopen
    cases hopen

/-- **Each action on a closed session shows nothing**: only its rows and its clock can change. -/
theorem perform_eq (h : s.Finished) (a : Action) : s.perform a =
    ({ s with rows := replacedBy s.rows a, now := s.now + a.elapsed }, []) := by
  cases a with
  | update id start finish => simp [perform, h.update_eq, replacedBy, Action.elapsed]
  | replace rows => simp [perform, replace, replacedBy, Action.elapsed]
  | flush =>
    have hflush : s.flush = (s, []) := if_pos (by rw [h.closed, Bool.true_or])
    simp [perform, hflush, replacedBy, Action.elapsed]
  | advance ms =>
    have hdue : ({ s with now := s.now + ms } : Session).due = [] := by simp [due, h.timers]
    simp [perform, advance, hdue, ringAll, replacedBy, Action.elapsed]
  | ring serial =>
    have hring : s.ring serial = (s, []) := if_pos h.closed
    simp [perform, hring, replacedBy, Action.elapsed]
  | close =>
    have hsame : s.close = s := by rw [close, ← h.closed, ← h.timers]
    simp [perform, hsame, replacedBy, Action.elapsed]

theorem run_eq (h : s.Finished) : ∀ actions : List Action, s.run actions =
    ({ s with
        rows := actions.foldl replacedBy s.rows
        now := actions.foldl (fun now a => now + a.elapsed) s.now }, []) := by
  intro actions
  induction actions generalizing s with
  | nil => simp [run]
  | cons a as ih =>
    have hstep := h.perform_eq a
    have hrest := ih (s := (s.perform a).1) (by rw [hstep]; exact ⟨h.closed, h.timers⟩)
    rw [run, hrest, hstep]
    rfl

end Finished

/-- **Closing is final.**  After a close, whatever went before it and whatever comes after, no save
is made, no task is pending and every update is refused without a change.  The rows are those of the
close or the last ones that were put in their place. -/
theorem closing_is_final (s : Session) (before after : List Action) :
    let closed := (s.run (before ++ [.close])).1
    let last := (closed.run after).1
    (closed.run after).2 = [] ∧ last.pending = [] ∧
      (∀ id start finish, last.update id start finish = (false, last)) ∧
      last.rows = after.foldl replacedBy closed.rows := by
  intro closed last
  have hclosed : closed = (s.run before).1.close := by
    simp only [closed, run_concat]
    rfl
  have hfinished : closed.Finished := hclosed ▸ finished_close _
  have hrun := hfinished.run_eq after
  have hlast : last.Finished := by
    simp only [last, hrun]
    exact ⟨hfinished.closed, hfinished.timers⟩
  refine ⟨by rw [hrun], ?_, hlast.update_eq, ?_⟩
  · rw [pending, hlast.timers, List.map_nil]
  · simp only [last, hrun]

/-! ## What sessions have in common -/

/-- What editing sees of a session: two sessions that agree on it answer alike. -/
structure SameView (s t : Session) : Prop where
  rows : s.rows = t.rows
  closed : s.closed = t.closed

namespace SameView

variable {s t : Session}

theorem row? (h : s.SameView t) (id : String) : s.row? id = t.row? id := by
  rw [Session.row?, h.rows, Session.row?]

/-- **An update looks at nothing but the view.** -/
theorem update (h : s.SameView t) (id : String) (start finish : Int) :
    (s.update id start finish).1 = (t.update id start finish).1 ∧
      (s.update id start finish).2.SameView (t.update id start finish).2 := by
  unfold Session.update
  rw [h.closed, h.row? id]
  split
  next horder =>
    split
    next => exact ⟨rfl, h⟩
    next =>
      split
      next => exact ⟨rfl, h⟩
      next r hrow =>
        split
        next => exact ⟨rfl, h⟩
        next => exact ⟨rfl, by simp [h.rows], by simp⟩
  next => exact ⟨rfl, h⟩

/-- **Each action keeps the view the same**, though it may save in one session and not in the
other. -/
theorem perform (h : s.SameView t) (a : Action) : (s.perform a).1.SameView (t.perform a).1 := by
  cases a with
  | update id start finish => exact (h.update id start finish).2
  | replace rows => exact ⟨rfl, h.closed⟩
  | flush =>
    obtain ⟨hs, hsc, -⟩ := flush_rows s
    obtain ⟨ht, htc, -⟩ := flush_rows t
    exact ⟨hs.trans (h.rows.trans ht.symm), hsc.trans (h.closed.trans htc.symm)⟩
  | advance ms =>
    obtain ⟨hs, hsc, -⟩ := ringAll_rows _ { s with now := s.now + ms }
    obtain ⟨ht, htc, -⟩ := ringAll_rows _ { t with now := t.now + ms }
    exact ⟨hs.trans (h.rows.trans ht.symm), hsc.trans (h.closed.trans htc.symm)⟩
  | ring serial =>
    obtain ⟨hs, hsc, -⟩ := ring_rows serial s
    obtain ⟨ht, htc, -⟩ := ring_rows serial t
    exact ⟨hs.trans (h.rows.trans ht.symm), hsc.trans (h.closed.trans htc.symm)⟩
  | close => exact ⟨h.rows, rfl⟩

end SameView

/-- A session that never saves. -/
structure Unsaved (s : Session) : Prop where
  readOnly : s.readOnly = true
  timers : s.timers = []

theorem unsaved_start (rows : List Row) (quiet : Int) : (start rows quiet true).Unsaved :=
  ⟨rfl, rfl⟩

/-- **Each action on a read-only session saves nothing** and starts no timer. -/
theorem Unsaved.perform {s : Session} (h : s.Unsaved) (a : Action) :
    (s.perform a).1.Unsaved ∧ savesOf (s.perform a).2 = [] := by
  cases a with
  | update id start finish =>
    obtain hno | ⟨r, horder, -, -, -, hyes⟩ := update_cases id start finish s
    · simpa [Session.perform, hno] using ⟨h, rfl⟩
    · have harm : ({ s with rows := moveRow id start finish horder s.rows } : Session).arm id
          = { s with rows := moveRow id start finish horder s.rows } := if_pos h.readOnly
      rw [Session.perform, hyes, harm]
      exact ⟨⟨h.readOnly, h.timers⟩, rfl⟩
  | replace rows => exact ⟨⟨h.readOnly, h.timers⟩, rfl⟩
  | flush =>
    have hflush : s.flush = (s, []) := if_pos (by rw [h.readOnly, Bool.or_true])
    rw [Session.perform, hflush]
    exact ⟨h, rfl⟩
  | advance ms =>
    have hdue : ({ s with now := s.now + ms } : Session).due = [] := by simp [due, h.timers]
    rw [Session.perform, advance, hdue]
    exact ⟨⟨h.readOnly, h.timers⟩, rfl⟩
  | ring serial =>
    have hring : s.ring serial = (s, []) := ring_of_not_mem (by simp [h.timers])
    rw [Session.perform, hring]
    exact ⟨h, rfl⟩
  | close => exact ⟨⟨h.readOnly, rfl⟩, rfl⟩

end Session

/-! ## Sessions with their stores -/

open Session (Action Saving savesOf saveAll)

/-- A session with the store that it saves to. -/
structure Desk (σ : Type) where
  session : Session
  store : σ

namespace Desk

/-- What an open schedule is asked for: to do something, or to show one row or all. -/
inductive Request where
  | act (a : Action)
  | row (id : String)
  | rows

/-- What comes back. -/
inductive Answer where
  | done
  | changed (yes : Bool)
  | row (r : Option Row)
  | rows (rows : List Row)

variable {σ τ : Type}

/-- What an action comes back with: an update says whether it changed a row. -/
def answer : Action → Session → Answer
  | .update id start finish, s => .changed (s.update id start finish).1
  | _, _ => .done

/-- **Serves a request**; what the session saves is handed to the store. -/
def serve (save : Saving σ) : Request → Desk σ → Answer × Desk σ
  | .act a, d =>
    (answer a d.session,
      ⟨(d.session.perform a).1, saveAll save (savesOf (d.session.perform a).2) d.store⟩)
  | .row id, d => (.row (d.session.row? id), d)
  | .rows, d => (.rows d.session.rows, d)

/-- **Serves requests** one after the other: what each comes back with, and the desk after it. -/
def serveAll (save : Saving σ) : List Request → Desk σ → List (Answer × Desk σ)
  | [], _ => []
  | r :: rs, d => d.serve save r :: serveAll save rs (d.serve save r).2

/-- A store that keeps a list of all snapshots that it was asked to save. -/
def recording (save : Saving σ) : Saving (σ × List Snapshot) := fun rows store =>
  ((save rows store.1).1, (save rows store.1).2, store.2 ++ [rows])

/-- A desk with a session that has just started, at a store that was not asked for anything. -/
def opened (rows : List Row) (quiet : Int) (readOnly : Bool) (store : σ) :
    Desk (σ × List Snapshot) :=
  ⟨.start rows quiet readOnly, store, []⟩

/-- What a request shows: its answer, and the rows after it. -/
def shown (e : Answer × Desk σ) : Answer × List Row := (e.1, e.2.session.rows)

/-- What saving shows after a request: the tasks that wait, and all that the store was asked for. -/
def kept (e : Answer × Desk (σ × List Snapshot)) : List String × List Snapshot :=
  (e.2.session.pending, e.2.store.2)

/-- The store is asked for each snapshot, also after one that it refused. -/
theorem saveAll_recording (save : Saving σ) : ∀ (saves : List Snapshot) (store : σ × List Snapshot),
    saveAll (recording save) saves store = (saveAll save saves store.1, store.2 ++ saves)
  | [], store => by simp [saveAll]
  | rows :: rest, store => by
    rw [saveAll, saveAll_recording save rest]
    simp [recording, saveAll]

/-! ### Two desks in lockstep -/

/-- **A request keeps the view of two sessions the same and gets the same answer.** -/
theorem serve_sameView (save : Saving σ) (save' : Saving τ) (r : Request) {d : Desk σ} {e : Desk τ}
    (h : d.session.SameView e.session) :
    (d.serve save r).1 = (e.serve save' r).1 ∧
      (d.serve save r).2.session.SameView (e.serve save' r).2.session := by
  cases r with
  | act a =>
    refine ⟨?_, h.perform a⟩
    cases a with
    | update id start finish => exact congrArg Answer.changed (h.update id start finish).1
    | replace | flush | advance | ring | close => rfl
  | row id => exact ⟨congrArg Answer.row (h.row? id), h⟩
  | rows => exact ⟨congrArg Answer.rows h.rows, h⟩

theorem shown_serveAll (save : Saving σ) (save' : Saving τ) : ∀ (rs : List Request) {d : Desk σ}
    {e : Desk τ}, d.session.SameView e.session →
      (d.serveAll save rs).map shown = (e.serveAll save' rs).map shown
  | [], _, _, _ => rfl
  | r :: rs, d, e, h => by
    obtain ⟨hanswer, hview⟩ := serve_sameView save save' r h
    rw [serveAll, serveAll, List.map_cons, List.map_cons, shown_serveAll save save' rs hview]
    simp only [shown, hanswer, hview.rows]

/-- **Stores that were asked for the same go on so**, whatever they answer. -/
theorem kept_serveAll (save : Saving σ) (save' : Saving τ) : ∀ (rs : List Request)
    {d : Desk (σ × List Snapshot)} {e : Desk (τ × List Snapshot)}, d.session = e.session →
      d.store.2 = e.store.2 →
      (d.serveAll (recording save) rs).map kept = (e.serveAll (recording save') rs).map kept
  | [], _, _, _, _ => rfl
  | r :: rs, d, e, hsession, hstore => by
    have hnext : (d.serve (recording save) r).2.session = (e.serve (recording save') r).2.session ∧
        (d.serve (recording save) r).2.store.2 = (e.serve (recording save') r).2.store.2 := by
      cases r with
      | act a => simp [serve, hsession, saveAll_recording, hstore]
      | row id => exact ⟨hsession, hstore⟩
      | rows => exact ⟨hsession, hstore⟩
    rw [serveAll, serveAll, List.map_cons, List.map_cons,
      kept_serveAll save save' rs hnext.1 hnext.2]
    simp only [kept, hnext.1, hnext.2]

/-- **A read-only session has no task waiting and leaves its store alone.** -/
theorem unsaved_serveAll (save : Saving σ) : ∀ (rs : List Request) {d : Desk σ},
    d.session.Unsaved → ∀ e ∈ d.serveAll save rs,
      e.2.session.pending = [] ∧ e.2.store = d.store
  | [], _, _, _, he => by cases he
  | r :: rs, d, h, e, he => by
    have hnext : (d.serve save r).2.session.Unsaved ∧ (d.serve save r).2.store = d.store := by
      cases r with
      | act a =>
        obtain ⟨hunsaved, hsaves⟩ := h.perform a
        refine ⟨hunsaved, ?_⟩
        show saveAll save (savesOf (d.session.perform a).2) d.store = d.store
        rw [hsaves]
        rfl
      | row id => exact ⟨h, rfl⟩
      | rows => exact ⟨h, rfl⟩
    rcases List.mem_cons.mp he with rfl | he
    · refine ⟨?_, hnext.2⟩
      rw [Session.pending, hnext.1.timers, List.map_nil]
    · obtain ⟨hpending, hstore⟩ := unsaved_serveAll save rs hnext.1 e he
      exact ⟨hpending, hstore.trans hnext.2⟩

/-- **Saving never influences editing.**  Three sessions open on the same rows: two that save, to
stores that take or refuse snapshots as they like, and one that is read-only.  Any requests get the
same answers and leave the same rows at each step in all three.  The two that save have the same
tasks waiting at each step and ask their stores for the same saves; the third has none waiting and
never asks its store. -/
theorem persistence_never_influences {υ : Type} (rows : List Row) (quiet : Int)
    (requests : List Request) (works : Saving σ) (fails : Saving τ) (unasked : Saving υ) (first : σ)
    (second : τ) (third : υ) :
    let working := (opened rows quiet false first).serveAll (recording works) requests
    let failing := (opened rows quiet false second).serveAll (recording fails) requests
    let reading := (opened rows quiet true third).serveAll (recording unasked) requests
    failing.map shown = working.map shown ∧ reading.map shown = working.map shown ∧
      failing.map kept = working.map kept ∧
      ∀ e ∈ reading, e.2.session.pending = [] ∧ e.2.store = (third, []) := by
  intro working failing reading
  refine ⟨?_, ?_, ?_, ?_⟩
  · exact shown_serveAll _ _ requests ⟨rfl, rfl⟩
  · exact shown_serveAll _ _ requests ⟨rfl, rfl⟩
  · exact kept_serveAll fails works requests rfl rfl
  · exact unsaved_serveAll _ requests (Session.unsaved_start rows quiet)

end Desk

end Taskboard
