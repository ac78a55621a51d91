import Taskboard.Proofs.Schedule.Sendable
import Taskboard.Proofs.Service.Reopening

/-!
# Proofs/Service/Moving — what becomes of a request to move a row

A client that moves a row of an open schedule gets one of four answers (`Service.moveStatus`): the
row stands where it was to be moved to, the times of the request cannot be read, no row has the id,
or the times are out of order.  Only a body with an infinity where a time is expected gets a page
for a failure of the service (`Service.isEndless`).

* `Session.IsLive.update_cases` — **a change moves the first row of its task and leaves the rest**,
  and it is refused only where it would change nothing.
* `Service.Live.run` — whatever happened before, an open schedule takes changes, and its rows can be
  sent.
* `Service.moves_answered_iff` — **which answer a move gets**, and that it changes the schedule all
  at once or not at all.
-/

namespace Taskboard

/-! ## Sessions -/

namespace Session

variable {s : Session} {id : String} {start finish : Int}

/-- **A session as the service opens it**: its rows can be sent, and it takes changes and saves
them. -/
structure IsLive (s : Session) : Prop where
  rows : ∀ r ∈ s.rows, r.Sendable
  writable : s.readOnly = false
  unclosed : s.closed = false

/-- **The session in which a row was moved**: the first row of the task has the new times, all other
rows stay as they are, and besides only the quiet period of the task starts anew. -/
structure MovedTo (s : Session) (id : String) (start finish : Int) (s' : Session) : Prop where
  rows : ∃ (before behind : List Row) (row : Row) (horder : start < finish),
    s.rows = before ++ row :: behind ∧ (∀ r ∈ before, r.id ≠ id) ∧ row.id = id ∧
      ¬ (row.start = start ∧ row.finish = finish) ∧
        s'.rows = before ++ row.moved start finish horder :: behind
  rest : s' = { s.arm id with rows := s'.rows }
  pending : ∀ task, task ∈ s'.pending ↔ task = id ∨ task ∈ s.pending

/-- The first row of a task is the one that is moved. -/
theorem moveRow_append {horder : start < finish} {row : Row} {behind : List Row} :
    ∀ {before : List Row}, (∀ r ∈ before, r.id ≠ id) → row.id = id →
      moveRow id start finish horder (before ++ row :: behind)
        = before ++ row.moved start finish horder :: behind
  | [], _, hrow => if_pos hrow
  | r :: before, hbefore, hrow => by
    obtain ⟨hr, hbefore⟩ := List.forall_mem_cons.mp hbefore
    rw [List.cons_append, moveRow, if_neg hr, moveRow_append hbefore hrow, List.cons_append]

theorem row?_eq_some {row : Row} : s.row? id = some row ↔ row.id = id ∧
    ∃ before behind, s.rows = before ++ row :: behind ∧ ∀ r ∈ before, r.id ≠ id := by
  rw [row?, List.find?_eq_some_iff_append]
  simp

/-- **What a change does to a session that is live**: it is refused where it would change nothing,
and else it moves the row of its task. -/
theorem IsLive.update_cases (h : s.IsLive) (id : String) (start finish : Int) :
    (s.update id start finish = (false, s) ∧ ∀ row, s.row? id = some row → start < finish →
      row.start = start ∧ row.finish = finish) ∨
    ∃ moved, s.update id start finish = (true, moved) ∧ s.MovedTo id start finish moved := by
  by_cases horder : start < finish
  · cases hrow : s.row? id with
    | none =>
      refine .inl ⟨?_, fun _ hsome => by cases hsome⟩
      simp only [Session.update, horder, h.unclosed, hrow, dite_true, Bool.false_eq_true, if_false]
    | some row =>
      have hupdate : s.update id start finish =
          if row.start = start ∧ row.finish = finish then (false, s)
          else (true, ({ s with rows := moveRow id start finish horder s.rows }).arm id) := by
        simp only [Session.update, horder, h.unclosed, hrow, dite_true, Bool.false_eq_true,
          if_false]
      by_cases hsame : row.start = start ∧ row.finish = finish
      · refine .inl ⟨hupdate.trans (if_pos hsame), fun row' hsome _ => ?_⟩
        exact Option.some.inj hsome ▸ hsame
      · obtain ⟨hid, before, behind, hrows, hbefore⟩ := row?_eq_some.mp hrow
        refine .inr ⟨_, hupdate.trans (if_neg hsame),
          ⟨before, behind, row, horder, hrows, hbefore, hid, hsame, ?_⟩, ?_, fun task => ?_⟩
        · rw [arm_rows, ← moveRow_append hbefore hid, ← hrows]
        · simp only [arm, h.writable, Bool.false_eq_true, if_false]
        · exact mem_pending_arm (s := { s with rows := moveRow id start finish horder s.rows })
            h.writable
  · refine .inl ⟨?_, fun _ _ hlt => absurd hlt horder⟩
    rw [Session.update, dif_neg horder]

/-- The first row of the task is the one that was moved. -/
theorem MovedTo.row? {moved : Session} (h : s.MovedTo id start finish moved) :
    ∃ (row : Row) (horder : start < finish), s.row? id = some row ∧
      moved.row? id = some (row.moved start finish horder) := by
  obtain ⟨before, behind, row, horder, hrows, hbefore, hid, -, hmoved⟩ := h.rows
  exact ⟨row, horder, row?_eq_some.mpr ⟨hid, before, behind, hrows, hbefore⟩,
    row?_eq_some.mpr ⟨hid, before, behind, hmoved, hbefore⟩⟩

theorem isLive_start {rows : List Row} (h : ∀ r ∈ rows, r.Sendable) (quiet : Int) :
    (Session.start rows quiet false).IsLive :=
  ⟨h, rfl, rfl⟩

theorem IsLive.movedTo (h : s.IsLive) (hstart : IsShort start) (hfinish : IsShort finish)
    {moved : Session} (hmoved : s.MovedTo id start finish moved) : moved.IsLive := by
  obtain ⟨before, behind, row, horder, hrows, -, -, -, hrows'⟩ := hmoved.rows
  have hsendable := h.rows
  rw [hrows, List.forall_mem_append, List.forall_mem_cons] at hsendable
  obtain ⟨hbefore, hrow, hbehind⟩ := hsendable
  refine ⟨?_, ?_, ?_⟩
  · rw [hrows', List.forall_mem_append, List.forall_mem_cons]
    exact ⟨hbefore, hrow.moved horder hstart hfinish, hbehind⟩
  · rw [hmoved.rest]
    exact (arm_readOnly id s).trans h.writable
  · rw [hmoved.rest]
    exact (arm_closed id s).trans h.unclosed

/-- Changes to short times keep a session live. -/
theorem IsLive.update (h : s.IsLive) (id : String) (hstart : IsShort start)
    (hfinish : IsShort finish) : (s.update id start finish).2.IsLive := by
  rcases h.update_cases id start finish with ⟨hsame, -⟩ | ⟨moved, hmoved, hto⟩
  · rw [hsame]
    exact h
  · rw [hmoved]
    exact h.movedTo hstart hfinish hto

theorem IsLive.ringAll : ∀ (ts : List Timer) {s : Session}, s.IsLive → (ringAll ts s).1.IsLive
  | [], _, h => h
  | t :: ts, s, h => by
    rw [ringAll_cons]
    rcases ring_cases t.serial s with hring | hring
    all_goals
      rw [hring]
      exact IsLive.ringAll ts ⟨h.rows, h.writable, h.unclosed⟩

/-- Time that passes keeps a session live. -/
theorem IsLive.advance (h : s.IsLive) (ms : Int) : (s.advance ms).1.IsLive :=
  IsLive.ringAll _ ⟨h.rows, h.writable, h.unclosed⟩

end Session

namespace Service

/-! ## Live services -/

variable {s : Service}

/-- A service whose open schedule is live. -/
def Live (s : Service) : Prop := ∀ session ∈ s.session, session.IsLive

theorem live_start (settings : Settings) (store : Store) : (start settings store).Live :=
  fun _ h => absurd h (Option.not_mem_none _)

theorem session_tasks (force : Bool) (s : Service) : (s.tasks force).2.session = s.session := by
  unfold Service.tasks
  split
  · unfold reload
    split <;> rfl
  · rfl

/-- What only reads tasks keeps a service live. -/
theorem Live.ofTasks (h : s.Live) {t : Service} (ht : t = s ∨ ∃ force, t = (s.tasks force).2) :
    t.Live := by
  rcases ht with rfl | ⟨force, rfl⟩
  · exact h
  · unfold Live
    rw [session_tasks]
    exact h

theorem live_openRows {rows : List Row} (h : ∀ r ∈ rows, r.Sendable) (s : Service) :
    (s.openRows rows).2.Live ∧ ∀ session, (s.openRows rows).1 = .ok session → session.IsLive := by
  have hsession := Session.isLive_start h s.settings.quietMs
  refine ⟨fun session hopen => ?_, fun session hopen => ?_⟩
  · exact Option.some.inj hopen ▸ hsession
  · exact Except.ok.inj hopen ▸ hsession

theorem Live.openTasks (h : s.Live) : s.openTasks.2.Live ∧
    ∀ session, s.openTasks.1 = .ok session → session.IsLive := by
  have hlive := h.ofTasks (.inr ⟨false, rfl⟩)
  unfold Service.openTasks
  split
  next f s' htasks =>
    rw [htasks] at hlive
    exact ⟨hlive, fun _ hopen => by cases hopen⟩
  next tasks s' htasks =>
    rw [htasks] at hlive
    split
    next rows hrows =>
      refine live_openRows (fun r hr => ?_) s'
      obtain ⟨t, -, hrow⟩ := Row.rows_of_ofTasks hrows r hr
      exact Row.sendable_of_ofTask? hrow
    next => exact ⟨hlive, fun _ hopen => by cases hopen⟩

/-- **A schedule opens live.** -/
theorem Live.openSchedule (h : s.Live) : s.openSchedule.2.Live ∧
    ∀ session, s.openSchedule.1 = .ok session → session.IsLive := by
  unfold Service.openSchedule
  split
  next session hopen => exact ⟨h, fun _ hfound => Except.ok.inj hfound ▸ h _ hopen⟩
  next =>
    split
    next => exact ⟨h, fun _ hopen => by cases hopen⟩
    next => exact h.openTasks
    next rows _ hrows => exact live_openRows (Store.sendable_of_loadSchedule hrows) s

theorem Live.showSchedule (h : s.Live) : s.showSchedule.2.Live := by
  obtain ⟨hlive, -⟩ := h.openSchedule
  unfold Service.showSchedule
  split <;> simp_all only

theorem Live.moveRow (h : s.Live) (id : String) (r : Request) : (s.moveRow id r).2.Live := by
  unfold Service.moveRow
  split
  next => split <;> exact h
  next start finish htimes =>
    obtain ⟨hstart, hfinish⟩ := isShort_bodyTimes rfl htimes
    obtain ⟨hlive, hopen⟩ := h.openSchedule
    split
    next f s' hs =>
      rw [hs] at hlive
      exact hlive
    next session s' hs =>
      rw [hs] at hopen
      intro found hfound
      obtain rfl := Option.some.inj hfound
      exact (hopen session rfl).update id hstart hfinish

theorem Live.serve (h : s.Live) (route : Route) (r : Request) : (s.serve route r).2.Live := by
  cases route with
  | listTasks => exact h.ofTasks (listTasks_service r s)
  | queryTasks => exact h.ofTasks (queryTasks_service r s)
  | listCycles => exact h.ofTasks (.inr ⟨_, listCycles_service s⟩)
  | drawChart kind => exact h.ofTasks (.inr ⟨_, drawChart_service kind r s⟩)
  | showSchedule => exact h.showSchedule
  | moveRow id => exact h.moveRow id r
  | closeSchedule => exact fun _ hs => absurd hs (Option.not_mem_none _)
  | reportHealth => exact h
  | sendAsset => exact h

/-- **Requests keep a service live.** -/
theorem Live.handle (h : s.Live) (r : Request) : (s.handle r).2.Live := by
  unfold Service.handle
  dsimp only
  split
  next route _ => exact h.serve route r
  all_goals exact h

theorem Live.after (h : s.Live) (e : Event) : (s.after e).Live := by
  cases e with
  | request r => exact h.handle r
  | advance ms =>
    simp only [Service.after, Service.advance]
    cases hopen : s.session with
    | none => exact fun _ hs => absurd hs (Option.not_mem_none _)
    | some session =>
      intro found hfound
      obtain rfl := Option.some.inj hfound
      exact (h session hopen).advance ms

/-- **Whatever happens, an open schedule is live.** -/
theorem Live.run : ∀ (events : List Event) {s : Service}, s.Live → (run events s).Live
  | [], _, h => h
  | e :: es, _, h => Live.run es (h.after e)

/-! ## Times of a body -/

/-- Whether a map has an infinity in a field. -/
def isEndlessAt (key : String) (es : List (Value × Value)) : Bool :=
  (Value.lookup? key es).any Value.isInfinite

/-- **Whether an infinity stops a body from being read**: its start is one, or its start can be read
and its end is one. -/
def isEndless : Value → Bool
  | .map es => isEndlessAt "start_time" es ||
      ((Row.storedTime "start_time" es).isOk && isEndlessAt "end_time" es)
  | _ => false

theorem storedTime_of_isEndlessAt {key : String} {es : List (Value × Value)}
    (h : isEndlessAt key es = true) : Row.storedTime key es = .error .infiniteWhole := by
  unfold isEndlessAt at h
  cases hv : Value.lookup? key es with
  | none =>
    rw [hv] at h
    cases h
  | some v =>
    rw [hv] at h
    exact Row.storedTime_of_isInfinite hv h

/-- A time that is no infinity fails by its shape. -/
theorem isBadShape_of_storedTime {key : String} {es : List (Value × Value)} {f : Fault}
    (h : Row.storedTime key es = .error f) (hfinite : isEndlessAt key es = false) :
    f.isBadShape = true := by
  refine (Row.fault_of_storedTime h).resolve_right ?_
  rintro ⟨v, hv, hinf⟩
  rw [isEndlessAt, hv, Option.any_some, hinf] at hfinite
  cases hfinite

theorem bodyTimes_map (es : List (Value × Value)) :
    bodyTimes (.map es) = (Row.storedTime "start_time" es).bind fun start =>
      (Row.storedTime "end_time" es).bind fun finish => .ok (start, finish) := by
  simp only [Row.storedTime, bind_bind]
  rfl

/-- **An infinity is a failure of its own.** -/
theorem bodyTimes_of_isEndless {body : Value} (h : isEndless body = true) :
    bodyTimes body = .error .infiniteWhole := by
  cases body with
  | map es =>
    rw [bodyTimes_map]
    rcases Bool.or_eq_true_iff.mp h with hstart | hfinish
    · exact bind_eq_error.mpr (.inl (storedTime_of_isEndlessAt hstart))
    · obtain ⟨hok, hfinish⟩ := Bool.and_eq_true_iff.mp hfinish
      cases hstart : Row.storedTime "start_time" es with
      | error f =>
        rw [hstart] at hok
        cases hok
      | ok start =>
        exact bind_eq_error.mpr (.inr ⟨start, rfl,
          bind_eq_error.mpr (.inl (storedTime_of_isEndlessAt hfinish))⟩)
  | _ => cases h

/-- Without an infinity times fail by their shape. -/
theorem isBadShape_of_bodyTimes {body : Value} (h : isEndless body = false) {f : Fault}
    (hf : bodyTimes body = .error f) : f.isBadShape = true := by
  cases body with
  | map es =>
    rw [bodyTimes_map] at hf
    obtain ⟨hstart, hfinish⟩ := Bool.or_eq_false_iff.mp h
    rcases bind_eq_error.mp hf with hf | ⟨start, hok, hf⟩
    · exact isBadShape_of_storedTime hf hstart
    · rw [hok] at hfinish
      rcases bind_eq_error.mp hf with hf | ⟨_, -, hf⟩
      · exact isBadShape_of_storedTime hf hfinish
      · cases hf
  | _ => exact Except.error.inj hf ▸ rfl

/-! ## Answers -/

/-- Whether a reply says that a row changed, none where it says nothing of that. -/
def changed? (reply : Reply) : Option Bool :=
  match reply.body.map (Value.fieldOrNull "changed") with
  | some (.bool b) => some b
  | _ => none

/-- The status of a move to times that can be read. -/
def timesStatus (id : String) (start finish : Int) (session : Session) : Nat :=
  if (session.row? id).isNone then 404 else if start < finish then 200 else 422

/-- **The status of a move.** -/
def moveStatus (id : String) (body : Value) (session : Session) : Nat :=
  if isEndless body then 500
  else match bodyTimes body with
    | .error _ => 400
    | .ok (start, finish) => timesStatus id start finish session

/-- **The row of a task is moved** to the times of a body, and nothing else about the service
changes. -/
def Moves (id : String) (body : Value) (session : Session) (s s' : Service) : Prop :=
  ∃ start finish moved, bodyTimes body = .ok (start, finish) ∧
    session.MovedTo id start finish moved ∧ s' = { s with session := some moved }

/-- A body gives no reason to move a row: it has no times, or they are out of order, or the row does
not exist or stands there already. -/
def IsIdle (id : String) (body : Value) (session : Session) : Prop :=
  ∀ start finish row, bodyTimes body = .ok (start, finish) → session.row? id = some row →
    start < finish → row.start = start ∧ row.finish = finish

/-- **How a move is answered**: by its status, and the row is moved and said to have changed, or it
is not said to have changed and the service stays as it is. -/
structure MoveAnswered (id : String) (body : Value) (session : Session) (s : Service) (reply : Reply)
    (s' : Service) : Prop where
  status : reply.status = moveStatus id body session
  atOnce : reply.status = 200 ∧ changed? reply = some true ∧ Moves id body session s s' ∨
    changed? reply ≠ some true ∧ s' = s ∧ IsIdle id body session

/-- A reply with a row that can be sent is sent. -/
theorem ok_row_of_sendable {row : Row} (h : row.Sendable) (changed : Bool) :
    Reply.ok [("changed", .bool changed), ("row", row.fields)]
      = .ok ⟨200, some (Reply.success [("changed", .bool changed), ("row", row.fields)])⟩ := by
  have hkeys : ["success", "changed", "row"].Nodup := by decide
  refine Reply.json_of_faithful 200 (Json.FaithfulNamed.faithful ⟨?_, hkeys⟩)
  simp only [List.forall_mem_cons, Json.Faithful]
  exact ⟨trivial, trivial, h.faithful_fields, List.forall_mem_nil _⟩

/-- **A move in a live session is answered**: with the row, or with a refusal. -/
theorem moveReply_of_isLive {session : Session} (h : session.IsLive) (id : String)
    (start finish : Int) (changed : Bool) (hchanged : changed = true → start < finish) :
    ∃ reply, moveReply id start finish changed session = .ok reply ∧
      reply.status = timesStatus id start finish session ∧
      changed? reply = if reply.status = 200 then some changed else none := by
  unfold moveReply timesStatus
  cases hrow : session.row? id with
  | none => exact ⟨_, rfl, rfl, rfl⟩
  | some row =>
    have hsendable := h.rows row (List.mem_of_find?_eq_some hrow)
    by_cases horder : start < finish
    · simp only [horder, decide_true, Bool.not_true, Bool.and_false, Bool.false_eq_true, if_false,
        if_true, Option.isNone_some]
      exact ⟨_, ok_row_of_sendable hsendable changed, rfl, rfl⟩
    · have hrefused : changed = false := Bool.eq_false_iff.mpr fun hc => horder (hchanged hc)
      simp only [horder, hrefused, decide_false, Bool.not_false, Bool.and_true, if_true, if_false,
        Option.isNone_some, Bool.false_eq_true]
      exact ⟨_, rfl, rfl, rfl⟩

/-- A look at the head of a page moves no row. -/
theorem ne_head_of_moveRow {path method id : String}
    (h : Destination.ofRequest path method = .route (.moveRow id)) : method ≠ "HEAD" := by
  have hget (resource : Resource) : Destination.atResource resource "HEAD" ≠ .route (.moveRow id) := by
    cases resource <;> simp [Destination.atResource, Destination.plainMethod, Resource.route?]
  rintro rfl
  unfold Destination.ofRequest at h
  dsimp only at h
  split at h
  next => exact hget _ h
  next =>
    split at h
    next => split at h <;> cases h
    next => cases h

/-! ## Moves -/

variable {session : Session} {id : String} {r : Request}

theorem moveRow_of_error {f : Fault} (h : bodyTimes (bodyOf r) = .error f) :
    s.moveRow id r = (if f.isBadShape then
      .ok (.refusal 400 "start_time and end_time are required") else .error f, s) := by
  unfold Service.moveRow
  rw [h]
  cases hshape : f.isBadShape with
  | true => simp only [hshape, if_true]
  | false => simp only [hshape, Bool.false_eq_true, if_false]

theorem moveRow_of_ok (hopen : s.session = some session) {start finish : Int}
    (h : bodyTimes (bodyOf r) = .ok (start, finish)) :
    s.moveRow id r = (moveReply id start finish (session.update id start finish).1
        (session.update id start finish).2,
      { s with session := some (session.update id start finish).2 }) := by
  have hopened : s.openSchedule = (.ok session, s) := by rw [Service.openSchedule, hopen]
  unfold Service.moveRow
  simp only [h, hopened]

theorem moveAnswered_of_error {f : Fault} (h : bodyTimes (bodyOf r) = .error f) :
    MoveAnswered id (bodyOf r) session s (replyOf (s.moveRow id r).1) (s.moveRow id r).2 := by
  have hidle : IsIdle id (bodyOf r) session := fun start finish row hok => by
    rw [h] at hok
    cases hok
  rw [moveRow_of_error h]
  cases hendless : isEndless (bodyOf r) with
  | true =>
    obtain rfl : Fault.infiniteWhole = f :=
      Except.error.inj ((bodyTimes_of_isEndless hendless).symm.trans h)
    refine ⟨?_, .inr ⟨nofun, rfl, hidle⟩⟩
    rw [moveStatus, hendless]
    rfl
  | false =>
    rw [isBadShape_of_bodyTimes hendless h]
    refine ⟨?_, .inr ⟨nofun, rfl, hidle⟩⟩
    rw [moveStatus, hendless, h]
    rfl

theorem moveAnswered_of_ok (hlive : session.IsLive) (hopen : s.session = some session)
    {start finish : Int} (h : bodyTimes (bodyOf r) = .ok (start, finish)) :
    MoveAnswered id (bodyOf r) session s (replyOf (s.moveRow id r).1) (s.moveRow id r).2 := by
  have hstatus : moveStatus id (bodyOf r) session = timesStatus id start finish session := by
    have hfinite : isEndless (bodyOf r) = false := Bool.eq_false_iff.mpr fun hendless => by
      rw [bodyTimes_of_isEndless hendless] at h
      cases h
    rw [moveStatus, hfinite, h]
    rfl
  rw [moveRow_of_ok hopen h]
  rcases hlive.update_cases id start finish with ⟨hupdate, hidle⟩ | ⟨moved, hupdate, hmoved⟩
  · obtain ⟨reply, hreply, hreplied, hchanged⟩ :=
      moveReply_of_isLive hlive id start finish false nofun
    rw [hupdate, hreply]
    refine ⟨hreplied.trans hstatus.symm, .inr ⟨?_, ?_, fun start' finish' row htimes => ?_⟩⟩
    · rw [replyOf, hchanged]
      split <;> simp
    · rw [← hopen]
    · obtain ⟨rfl, rfl⟩ := Prod.mk.inj (Except.ok.inj (h.symm.trans htimes))
      exact hidle row
  · obtain ⟨row, horder, hrow, hmovedRow⟩ := hmoved.row?
    obtain ⟨hstart, hfinish⟩ := isShort_bodyTimes rfl h
    obtain ⟨reply, hreply, hreplied, hchanged⟩ := moveReply_of_isLive
      (hlive.movedTo hstart hfinish hmoved) id start finish true fun _ => horder
    have hdone : timesStatus id start finish moved = 200 := by
      rw [timesStatus, hmovedRow, if_pos horder]
      rfl
    have hdone' : timesStatus id start finish session = 200 := by
      rw [timesStatus, hrow, if_pos horder]
      rfl
    rw [hdone] at hreplied
    rw [hreplied, if_pos rfl] at hchanged
    rw [hupdate, hreply]
    refine ⟨?_, .inl ⟨hreplied, hchanged, start, finish, moved, h, hmoved, rfl⟩⟩
    rw [hstatus, hdone']
    exact hreplied

/-- **A move in a live service is answered.** -/
theorem Live.moveRow_answered (h : s.Live) (hopen : s.session = some session) (id : String)
    (r : Request) :
    MoveAnswered id (bodyOf r) session s (replyOf (s.moveRow id r).1) (s.moveRow id r).2 := by
  cases htimes : bodyTimes (bodyOf r) with
  | error f => exact moveAnswered_of_error htimes
  | ok times => exact moveAnswered_of_ok (h session hopen) hopen htimes

theorem handle_of_moveRow
    (hroute : Destination.ofRequest r.path (upperText r.method) = .route (.moveRow id)) :
    s.handle r = (replyOf (s.moveRow id r).1, (s.moveRow id r).2) := by
  unfold Service.handle
  simp only [hroute, serve, headOnly, if_neg (ne_head_of_moveRow hroute)]

/-- The status of a move is one of four, unless an infinity is in the way. -/
theorem moveStatus_mem_iff (id : String) (body : Value) (session : Session) :
    moveStatus id body session ∈ [200, 400, 404, 422] ↔ isEndless body = false := by
  cases hendless : isEndless body with
  | true =>
    rw [moveStatus, if_pos hendless]
    exact iff_of_false (by decide) nofun
  | false =>
    rw [moveStatus, if_neg (by simp [hendless])]
    refine iff_of_true ?_ rfl
    cases bodyTimes body with
    | error f => simp
    | ok times =>
      dsimp only [timesStatus]
      split
      · decide
      · split <;> decide

/-- **A request to move a row is answered.** -/
theorem Live.handle_answered (h : s.Live) (hopen : s.session = some session)
    (hroute : Destination.ofRequest r.path (upperText r.method) = .route (.moveRow id)) :
    ((s.handle r).1.status ∈ [200, 400, 404, 422] ↔ isEndless (bodyOf r) = false) ∧
      MoveAnswered id (bodyOf r) session s (s.handle r).1 (s.handle r).2 := by
  have hanswered := h.moveRow_answered hopen id r
  rw [handle_of_moveRow hroute]
  dsimp only
  rw [hanswered.status]
  exact ⟨moveStatus_mem_iff id (bodyOf r) session, hanswered⟩

/-- **Moves are answered, and change the schedule at once or not at all.**  Whatever happened to a
service before, if its schedule is open then a request to move a row gets one of four statuses
exactly if no infinity is in the way of its times (`moveStatus` says which).  Either the row of the
task is moved, which the reply says, or the reply does not say so and the service is as before; and
that only where nothing was to be moved. -/
theorem moves_answered_iff (settings : Settings) (store : Store) (events : List Event)
    {session : Session} {r : Request} {id : String}
    (hopen : (run events (start settings store)).session = some session)
    (hroute : Destination.ofRequest r.path (upperText r.method) = .route (.moveRow id)) :
    let s := run events (start settings store)
    ((s.handle r).1.status ∈ [200, 400, 404, 422] ↔ isEndless (bodyOf r) = false) ∧
      MoveAnswered id (bodyOf r) session s (s.handle r).1 (s.handle r).2 := by
  intro s
  exact (Live.run events (live_start settings store)).handle_answered hopen hroute

/-- A look at the schedule, which opens it. -/
def showOnly : List Event := [.request ⟨"GET", "/api/schedule", [], "", ""⟩]

/-- A request that moves a row to some times. -/
def moving (times : String) : Request :=
  ⟨"POST", "/api/schedule/a", [], times, "application/json"⟩

/-- The row is moved to times that are whole numbers. -/
theorem moves_answered_five : let s := run showOnly (start usualSettings datedTask)
    let r := moving "\x7b\"start_time\": 5, \"end_time\": 9\x7d"
    ∃ session, s.session = some session ∧
      Destination.ofRequest r.path (upperText r.method) = .route (.moveRow "a") ∧
      isEndless (bodyOf r) = false ∧ (s.handle r).1.status ∈ [200, 400, 404, 422] ∧
        Moves "a" (bodyOf r) session s (s.handle r).2 := by
  intro s r
  have hroute : Destination.ofRequest r.path (upperText r.method) = .route (.moveRow "a") := by
    decide +kernel
  have hfinite : isEndless (bodyOf r) = false := by decide +kernel
  obtain ⟨hsome, hchanged⟩ :
      s.session.isSome = true ∧ changed? (s.handle r).1 = some true := by decide +kernel
  obtain ⟨session, hopen⟩ := Option.isSome_iff_exists.mp hsome
  obtain ⟨hstatus, hanswered⟩ :=
    moves_answered_iff usualSettings datedTask showOnly hopen hroute
  refine ⟨session, hopen, hroute, hfinite, hstatus.mpr hfinite, ?_⟩
  rcases hanswered.atOnce with ⟨-, -, hmoves⟩ | ⟨hsame, -⟩
  · exact hmoves
  · exact absurd hchanged hsame

/-- **An infinity for a time is answered by a page for a failure of the service.** -/
theorem endless_move_fails : let s := run showOnly (start usualSettings datedTask)
    let r := moving "\x7b\"start_time\": 1e999, \"end_time\": 5\x7d"
    s.session.isSome = true ∧
      Destination.ofRequest r.path (upperText r.method) = .route (.moveRow "a") ∧
        (s.handle r).1.status = 500 := by
  decide +kernel

end Service

end Taskboard
