import Taskboard.Proofs.Store.Loading
import Taskboard.Proofs.Store.Saving
import Taskboard.Service.Handle

/-!
# Proofs/Service/Reopening — the schedule survives closing and reopening

A service is asked for things while its clock moves (`Service.Event`), and saves happen in between
(`Service.savedIn`).

* `Service.Sound.run` — whatever happens, the file of the schedule keeps the snapshot that was taken
  last, and all rows that are open are storable.
* `Service.reopened_rows` — **a schedule opens with the rows that were saved last**, or with those
  of the tasks if none were.
-/

namespace Taskboard

/-! ## Sessions -/

/-- A session whose saves say all of it: its rows are storable, and there are some if a save
waits. -/
structure Session.Storable (s : Session) : Prop where
  rows : ∀ r ∈ s.rows, r.Storable
  timers : s.timers ≠ [] → s.rows ≠ []

/-- A snapshot that says all of its rows, and has some. -/
structure Snapshot.Storable (snapshot : Snapshot) : Prop where
  rows : ∀ r ∈ snapshot, r.Storable
  ne_nil : snapshot ≠ []

namespace Session

variable {s : Session}

theorem storable_start {rows : List Row} (h : ∀ r ∈ rows, r.Storable) (quiet : Int)
    (readOnly : Bool) : (start rows quiet readOnly).Storable :=
  ⟨h, fun hne => absurd rfl hne⟩

theorem storable_moveRow {id : String} {start finish : Int} (horder : start < finish)
    (hstart : IsShort start) (hfinish : IsShort finish) : ∀ {rows : List Row},
      (∀ r ∈ rows, r.Storable) → ∀ r ∈ moveRow id start finish horder rows, r.Storable
  | [], _ => List.forall_mem_nil _
  | r :: rows, h => by
    obtain ⟨hr, hrows⟩ := List.forall_mem_cons.mp h
    rw [moveRow]
    split
    · exact List.forall_mem_cons.mpr ⟨hr.moved horder hstart hfinish, hrows⟩
    · exact List.forall_mem_cons.mpr ⟨hr, storable_moveRow horder hstart hfinish hrows⟩

theorem moveRow_ne_nil {id : String} {start finish : Int} {horder : start < finish}
    {rows : List Row} (h : rows ≠ []) : moveRow id start finish horder rows ≠ [] := by
  obtain ⟨r, rows, rfl⟩ := List.exists_cons_of_ne_nil h
  rw [moveRow]
  split <;> exact List.cons_ne_nil _ _

/-- A row that is moved stays storable if the times are short. -/
theorem Storable.update (h : s.Storable) (id : String) {start finish : Int}
    (hstart : IsShort start) (hfinish : IsShort finish) :
    (s.update id start finish).2.Storable := by
  obtain hsame | ⟨r, horder, -, hrow, -, hmoved⟩ := update_cases id start finish s
  · rw [hsame]
    exact h
  · have hne : s.rows ≠ [] := List.ne_nil_of_mem (List.mem_of_find?_eq_some hrow)
    have harm : ∀ t : Session, (t.arm id).rows = t.rows := fun t => by unfold arm; split <;> rfl
    rw [hmoved]
    constructor
    · rw [harm]
      exact storable_moveRow horder hstart hfinish h.rows
    · rw [harm]
      exact fun _ => moveRow_ne_nil hne

theorem Storable.ring (h : s.Storable) (serial : Nat) :
    (s.ring serial).1.Storable ∧ ∀ rows ∈ (s.ring serial).2, Snapshot.Storable rows := by
  unfold Session.ring
  split
  · exact ⟨h, List.forall_mem_nil _⟩
  · split
    next hany =>
      obtain ⟨t, ht, -⟩ := List.any_eq_true.mp hany
      have hne := h.timers (List.ne_nil_of_mem ht)
      exact ⟨⟨h.rows, fun _ => hne⟩, List.forall_mem_singleton.mpr ⟨h.rows, hne⟩⟩
    next => exact ⟨h, List.forall_mem_nil _⟩

theorem Storable.ringAll : ∀ (ts : List Timer) {s : Session}, s.Storable →
    (ringAll ts s).1.Storable ∧ ∀ rows ∈ (ringAll ts s).2, Snapshot.Storable rows
  | [], _, h => ⟨h, List.forall_mem_nil _⟩
  | t :: ts, s, h => by
    obtain ⟨hring, hsaves⟩ := h.ring t.serial
    obtain ⟨hrest, hmore⟩ := Storable.ringAll ts hring
    rw [ringAll_cons]
    exact ⟨hrest, List.forall_mem_append.mpr ⟨hsaves, hmore⟩⟩

/-- **What a session saves as time passes is storable**, and so is what stays open. -/
theorem Storable.advance (h : s.Storable) (ms : Int) :
    (s.advance ms).1.Storable ∧ ∀ rows ∈ (s.advance ms).2, Snapshot.Storable rows :=
  Storable.ringAll _ ⟨h.rows, h.timers⟩

end Session

/-! ## What a store takes -/

namespace Store

/-- The snapshots that a store takes of those that are handed to it. -/
def taken : List Snapshot → Store → List Snapshot
  | [], _ => []
  | rows :: rest, s =>
    match s.saveSchedule rows with
    | (.ok (), s) => rows :: taken rest s
    | (.error _, s) => taken rest s

theorem mem_of_mem_taken {rows : Snapshot} : ∀ {snapshots : List Snapshot} {s : Store},
    rows ∈ taken snapshots s → rows ∈ snapshots
  | [], _, h => h
  | first :: rest, s, h => by
    rw [taken] at h
    split at h
    · rcases List.mem_cons.mp h with rfl | h
      · exact List.mem_cons_self
      · exact List.mem_cons_of_mem _ (mem_of_mem_taken h)
    · exact List.mem_cons_of_mem _ (mem_of_mem_taken h)

/-- **After some snapshots the file holds the last one that was taken.** -/
theorem Keeps.saveAll : ∀ {snapshots : List Snapshot} {s : Store} {last : Option (List Row)},
    s.Keeps last → s.files.NamesShort → (∀ rows ∈ snapshots, ∀ r ∈ rows, r.Storable) →
      (Session.saveAll Service.saving snapshots s).Keeps ((taken snapshots s).getLast?.or last) ∧
        (Session.saveAll Service.saving snapshots s).files.NamesShort
  | [], _, _, h, hshort, _ => ⟨h, hshort⟩
  | rows :: rest, s, last, h, hshort, hrows => by
    obtain ⟨hfirst, hrest⟩ := List.forall_mem_cons.mp hrows
    obtain ⟨hkeeps, hshort, -⟩ := h.saveSchedule hshort hfirst
    have hmore := Keeps.saveAll hkeeps hshort hrest
    rw [Session.saveAll, taken]
    cases hsave : s.saveSchedule rows with
    | mk result after =>
      have hsaving : Service.saving rows s = (result, after) := hsave
      rw [hsave] at hmore
      rw [hsaving]
      cases result with
      | ok _ =>
        rw [List.getLast?_cons]
        cases hlast : (taken rest after).getLast? with
        | none => simpa [hlast, lastOf] using hmore
        | some found => simpa [hlast, lastOf] using hmore
      | error f => exact hmore

end Store

namespace Service

/-! ## Runs -/

/-- What happens to a service: somebody asks for something, or time passes. -/
inductive Event where
  | request (r : Request)
  | advance (ms : Int)

/-- The service after an event. -/
def after : Event → Service → Service
  | .request r, s => (s.handle r).2
  | .advance ms, s => s.advance ms

/-- The snapshots that are saved as time passes. -/
def savedBy : Event → Service → List Snapshot
  | .request _, _ => []
  | .advance ms, s =>
    match s.session with
    | none => []
    | some session => Store.taken (session.advance ms).2 s.store

/-- Events one after the other. -/
def run : List Event → Service → Service
  | [], s => s
  | e :: es, s => run es (s.after e)

/-- **The snapshots that are saved in a run**, in order. -/
def savedIn : List Event → Service → List Snapshot
  | [], _ => []
  | e :: es, s => s.savedBy e ++ savedIn es (s.after e)

/-! ## What every service satisfies -/

/-- **A service whose schedule can be opened again.** -/
structure Sound (s : Service) (last : Option Snapshot) : Prop where
  short : s.store.files.NamesShort
  keeps : s.store.Keeps last
  last : ∀ rows ∈ last, Snapshot.Storable rows
  kept : ∀ t ∈ s.kept, t.id ≠ ""
  session : ∀ session ∈ s.session, session.Storable

variable {s : Service} {last : Option Snapshot}

/-- Reading tasks changes nothing but what is kept of them. -/
theorem Sound.tasks (h : s.Sound last) (force : Bool) : (s.tasks force).2.Sound last ∧
    (s.tasks force).2.settings = s.settings ∧ (s.tasks force).2.session = s.session ∧
      ∀ tasks, (s.tasks force).1 = .ok tasks → ∀ t ∈ tasks, t.id ≠ "" := by
  unfold Service.tasks
  split
  next =>
    unfold reload
    split
    next tasks htasks =>
      have hids := Store.id_ne_empty_of_tasks htasks
      refine ⟨⟨h.short, h.keeps, h.last, hids, h.session⟩, rfl, rfl, fun found hfound => ?_⟩
      obtain rfl := Except.ok.inj hfound
      exact hids
    next => exact ⟨h, rfl, rfl, fun _ hfound => absurd hfound (by simp)⟩
  next =>
    refine ⟨h, rfl, rfl, fun found hfound => ?_⟩
    obtain rfl := Except.ok.inj hfound
    exact h.kept

/-- Rows that are storable may be opened. -/
theorem Sound.openRows (h : s.Sound last) {rows : List Row} (hrows : ∀ r ∈ rows, r.Storable) :
    (s.openRows rows).2.Sound last ∧
      ∀ session, (s.openRows rows).1 = .ok session → session.Storable := by
  have hsession := Session.storable_start hrows s.settings.quietMs false
  refine ⟨⟨h.short, h.keeps, h.last, h.kept, fun session hopen => ?_⟩, fun session hopen => ?_⟩
  · obtain rfl := Option.some.inj hopen
    exact hsession
  · obtain rfl := Except.ok.inj hopen
    exact hsession

theorem Sound.openTasks (h : s.Sound last) : s.openTasks.2.Sound last ∧
    ∀ session, s.openTasks.1 = .ok session → session.Storable := by
  obtain ⟨hsound, -, -, hids⟩ := h.tasks false
  unfold Service.openTasks
  split
  next f s' htasks =>
    rw [htasks] at hsound
    exact ⟨hsound, fun _ hopen => absurd hopen (by simp)⟩
  next tasks s' htasks =>
    rw [htasks] at hsound hids
    split
    next rows hrows => exact hsound.openRows (Row.storable_of_ofTasks (hids tasks rfl) hrows)
    next => exact ⟨hsound, fun _ hopen => absurd hopen (by simp)⟩

/-- **A schedule opens on storable rows.** -/
theorem Sound.openSchedule (h : s.Sound last) : s.openSchedule.2.Sound last ∧
    ∀ session, s.openSchedule.1 = .ok session → session.Storable := by
  unfold Service.openSchedule
  split
  next session hopen =>
    refine ⟨h, fun found hfound => ?_⟩
    obtain rfl := Except.ok.inj hfound
    exact h.session _ hopen
  next =>
    have hload := h.keeps.loadSchedule fun rows hrows => (h.last rows hrows).rows
    split
    next => exact ⟨h, fun _ hopen => absurd hopen (by simp)⟩
    next => exact h.openTasks
    next rows _ hrows =>
      refine h.openRows ?_
      cases last with
      | some saved =>
        obtain rfl := Except.ok.inj (hload.symm.trans hrows)
        exact (h.last _ rfl).rows
      | none =>
        rw [hrows, Store.rowsKept] at hload
        split at hload
        · exact absurd hload (by simp)
        · obtain rfl := Except.ok.inj hload
          exact List.forall_mem_nil _

/-! ## Requests -/

theorem faithful_json? {r : Request} {v : Value} (h : r.json? = some v) : Json.Faithful v := by
  unfold Request.json? at h
  split at h
  next =>
    cases hread : Json.read (Request.dropByteOrderMark r.body) with
    | ok w =>
      rw [hread] at h
      obtain rfl := Option.some.inj h
      exact Json.faithful_of_read hread
    | error f => exact absurd (hread ▸ h) (by simp [Except.toOption])
  next => exact absurd h (by simp)

/-- The body of a request is what it holds, or an empty map. -/
theorem bodyOf_cases (r : Request) : r.json? = some (bodyOf r) ∨ bodyOf r = .map [] := by
  unfold bodyOf Value.orElse
  cases r.json? with
  | none => exact .inr rfl
  | some v =>
    rw [Option.getD_some]
    split
    · exact .inl rfl
    · exact .inr rfl

theorem faithful_bodyOf {r : Request} {body : Value} (h : bodyOf r = body) :
    Json.Faithful body := by
  have hcases := bodyOf_cases r
  rw [h] at hcases
  rcases hcases with hjson | rfl
  · exact faithful_json? hjson
  · exact ⟨trivial, List.nodup_nil⟩

/-- The times of a body are short. -/
theorem isShort_bodyTimes {r : Request} {body : Value} (hr : bodyOf r = body) {start finish : Int}
    (h : bodyTimes body = .ok (start, finish)) : IsShort start ∧ IsShort finish := by
  have hbody := faithful_bodyOf hr
  have hitem {key : String} {v : Value} {n : Int} (hv : body.item key = .ok v)
      (hn : v.toInt = .ok n) : IsShort n := by
    cases body with
    | map es =>
      unfold Value.item at hv
      dsimp only at hv
      split at hv
      next w hw =>
        obtain rfl := Except.ok.inj hv
        refine Value.isShort_of_toInt (fun k hk => ?_) hn
        have hfield := hbody.lookup? hw
        rw [hk] at hfield
        exact hfield
      next => exact absurd hv (by simp)
    | _ => exact absurd hv (by simp [Value.item])
  unfold bodyTimes at h
  obtain ⟨v, hv, h⟩ := do_eq_ok.mp h
  obtain ⟨n, hn, h⟩ := do_eq_ok.mp h
  obtain ⟨w, hw, h⟩ := do_eq_ok.mp h
  obtain ⟨k, hk, h⟩ := do_eq_ok.mp h
  obtain ⟨rfl, rfl⟩ := Prod.mk.inj (Except.ok.inj h)
  exact ⟨hitem hv hn, hitem hw hk⟩

theorem Sound.moveRow (h : s.Sound last) (id : String) (r : Request) :
    (s.moveRow id r).2.Sound last := by
  unfold Service.moveRow
  split
  next => split <;> exact h
  next start finish htimes =>
    obtain ⟨hstart, hfinish⟩ := isShort_bodyTimes rfl htimes
    obtain ⟨hsound, hopen⟩ := h.openSchedule
    split
    next f s' hs =>
      rw [hs] at hsound
      exact hsound
    next session s' hs =>
      rw [hs] at hsound hopen
      refine ⟨hsound.short, hsound.keeps, hsound.last, hsound.kept, fun found hfound => ?_⟩
      obtain rfl := Option.some.inj hfound
      exact (hopen session rfl).update id hstart hfinish

theorem Sound.showSchedule (h : s.Sound last) : s.showSchedule.2.Sound last := by
  obtain ⟨hsound, -⟩ := h.openSchedule
  unfold Service.showSchedule
  split
  next f s' hs =>
    rw [hs] at hsound
    exact hsound
  next session s' hs =>
    rw [hs] at hsound
    exact hsound

theorem Sound.closeSchedule (h : s.Sound last) : s.closeSchedule.Sound last :=
  ⟨h.short, h.keeps, h.last, h.kept, fun _ hs => absurd hs (Option.not_mem_none _)⟩

/-- Everything but the schedule reads tasks at most. -/
theorem Sound.ofTasks (h : s.Sound last) {t : Service}
    (ht : t = s ∨ ∃ force, t = (s.tasks force).2) :
    t.Sound last := by
  rcases ht with rfl | ⟨force, rfl⟩
  · exact h
  · exact (h.tasks force).1

theorem listTasks_service (r : Request) (s : Service) :
    (s.listTasks r).2 = s ∨ ∃ force, (s.listTasks r).2 = (s.tasks force).2 := by
  unfold listTasks
  dsimp only
  split
  next => exact .inl rfl
  next => exact .inr ⟨lowerText (r.argOr "refresh" "false") = "true", by split <;> simp_all⟩

theorem queryTasks_service (r : Request) (s : Service) :
    (s.queryTasks r).2 = s ∨ ∃ force, (s.queryTasks r).2 = (s.tasks force).2 := by
  unfold queryTasks
  split
  next => exact .inl rfl
  next => exact .inr ⟨false, by split <;> simp_all⟩

theorem listCycles_service (s : Service) : s.listCycles.2 = (s.tasks false).2 := by
  unfold listCycles
  split <;> simp_all

theorem drawChart_service (kind : String) (r : Request) (s : Service) :
    (s.drawChart kind r).2 = (s.tasks false).2 := by
  unfold drawChart
  split
  next => simp_all
  next => split <;> simp_all

/-- **Requests keep a service sound.** -/
theorem Sound.serve (h : s.Sound last) (route : Route) (r : Request) :
    (s.serve route r).2.Sound last := by
  cases route with
  | listTasks => exact h.ofTasks (listTasks_service r s)
  | queryTasks => exact h.ofTasks (queryTasks_service r s)
  | listCycles => exact h.ofTasks (.inr ⟨_, listCycles_service s⟩)
  | drawChart kind => exact h.ofTasks (.inr ⟨_, drawChart_service kind r s⟩)
  | showSchedule => exact h.showSchedule
  | moveRow id => exact h.moveRow id r
  | closeSchedule => exact h.closeSchedule
  | reportHealth => exact h
  | sendAsset => exact h

theorem Sound.handle (h : s.Sound last) (r : Request) : (s.handle r).2.Sound last := by
  unfold Service.handle
  dsimp only
  split
  next route _ => exact h.serve route r
  all_goals exact h

/-! ## Runs of events -/

/-- **An event keeps a service sound**; what it saves is what counts from then on. -/
theorem Sound.after (h : s.Sound last) (e : Event) :
    (s.after e).Sound ((s.savedBy e).getLast?.or last) := by
  cases e with
  | request r => exact h.handle r
  | advance ms =>
    simp only [Service.after, Service.advance, savedBy]
    cases hopen : s.session with
    | none => exact ⟨h.short, h.keeps, h.last, h.kept,
      fun _ hs => absurd hs (Option.not_mem_none _)⟩
    | some session =>
      obtain ⟨hsession, hsaves⟩ := (h.session session hopen).advance ms
      obtain ⟨hkeeps, hshort⟩ :=
        h.keeps.saveAll h.short fun rows hrows => (hsaves rows hrows).rows
      refine ⟨hshort, hkeeps, fun rows hrows => ?_, h.kept, fun found hfound => ?_⟩
      · rcases Option.or_eq_some_iff.mp hrows with hrows | ⟨-, hrows⟩
        · exact hsaves rows (Store.mem_of_mem_taken (List.mem_of_getLast? hrows))
        · exact h.last rows hrows
      · obtain rfl := Option.some.inj hfound
        exact hsession

/-- **Whatever happens, the service stays sound** for the snapshot that was saved last. -/
theorem Sound.run : ∀ (events : List Event) {s : Service} {last : Option Snapshot}, s.Sound last →
    (run events s).Sound ((savedIn events s).getLast?.or last)
  | [], _, _, h => h
  | e :: es, s, last, h => by
    have hrest := Sound.run es (h.after e)
    rw [savedIn, List.getLast?_append, Option.or_assoc]
    exact hrest

theorem sound_start (settings : Settings) {store : Store} (hshort : store.files.NamesShort)
    (hunsaved : store.files.file? store.schedulePath = none) : (start settings store).Sound none :=
  ⟨hshort, fun _ => hunsaved, fun _ h => absurd h (by simp), List.forall_mem_nil _,
    fun _ h => absurd h (by simp [start])⟩

/-! ## Opening -/

theorem openTasks_rows (s : Service) : s.openTasks.1.map Session.rows
    = (s.tasks false).1.bind (Row.ofTasks s.settings.rowKeys) := by
  have hsettings : (s.tasks false).2.settings = s.settings := by
    unfold Service.tasks
    split
    · unfold reload
      split <;> rfl
    · rfl
  unfold openTasks
  split
  next f s' htasks =>
    rw [htasks]
    rfl
  next tasks s' htasks =>
    rw [htasks] at hsettings ⊢
    rw [← hsettings]
    change _ = Row.ofTasks s'.settings.rowKeys tasks
    split
    next rows hrows =>
      rw [hrows]
      rfl
    next f hrows =>
      rw [hrows]
      rfl

/-- The rows that a closed schedule is to open with: those that were saved last, or those of the
tasks if none were. -/
def rowsToOpen (last : Option Snapshot) (s : Service) : Except Fault (List Row) :=
  match last with
  | some rows => .ok rows
  | none =>
    if s.store.isBlocked then .error .scheduleUnreadable
    else (s.tasks false).1.bind (Row.ofTasks s.settings.rowKeys)

/-- **A closed schedule opens with what was saved last**, or with the rows of the tasks. -/
theorem Sound.opened_rows (h : s.Sound last) (hclosed : s.session = none) :
    s.openSchedule.1.map Session.rows = s.rowsToOpen last := by
  have hload := h.keeps.loadSchedule fun rows hrows => (h.last rows hrows).rows
  unfold Service.openSchedule rowsToOpen
  rw [hclosed]
  dsimp only
  cases last with
  | some rows =>
    obtain ⟨r, rs, rfl⟩ := List.exists_cons_of_ne_nil (h.last rows rfl).ne_nil
    rw [hload]
    rfl
  | none =>
    rw [hload, Store.rowsKept]
    cases s.store.isBlocked with
    | true => rfl
    | false => exact openTasks_rows s

/-- **The schedule survives closing and reopening.**  Where there is no file of the schedule at
first, and no name is longer than files can have it, whatever is asked of the service while its
clock moves: a schedule that is closed opens with all rows of the snapshot that was saved last, in
order; and as long as none was saved, with the rows of the tasks as the service has them, unless a
folder takes the place of the file.  Any row that is open meanwhile is written as a JSON document,
and read back from it. -/
theorem reopened_rows (settings : Settings) (store : Store) (hshort : store.files.NamesShort)
    (hunsaved : store.files.file? store.schedulePath = none) (events : List Event) :
    let s := run events (start settings store)
    (s.session = none → s.openSchedule.1.map Session.rows
      = s.rowsToOpen (savedIn events (start settings store)).getLast?) ∧
    ∀ session, s.session = some session ∨ s.openSchedule.1 = .ok session → ∀ r ∈ session.rows,
      ∃ text v, Json.write Json.fileLayout Json.noDates r.fields = .ok text ∧
        Json.read text = .ok v ∧ Row.ofStored v = .ok r := by
  intro s
  have hsound := Sound.run events (sound_start settings hshort hunsaved)
  rw [Option.or_none] at hsound
  refine ⟨hsound.opened_rows, fun session hopen r hr => ?_⟩
  have hsession : session.Storable := by
    rcases hopen with hopen | hopen
    · exact hsound.session session hopen
    · exact hsound.openSchedule.2 session hopen
  exact (hsession.rows r hr).write_read Json.fileLayout Json.noDates

/-! ## A row that is moved -/

/-- Settings as they usually are. -/
def usualSettings : Settings :=
  ⟨"workspace", "schedule.json", usualNeedsKey, "start_date", "end_date", "status", "progress", "",
    .ofRatio 4 5, "Task Schedule", usualDateFormat, "plotly_white", 500, 3000, false, [], []⟩

/-- A workspace with one task, which has dates. -/
def datedTask : Store :=
  .ofFiles [("a.md", "---\nstart_date: 2024-01-01\nend_date: 2024-01-02\n---\n".toUTF8.toList)]

/-- The row of the task is moved, its save waits until it is due, and the schedule is closed. -/
def moveAndClose : List Event :=
  [.request ⟨"POST", "/api/schedule/a", [], "\x7b\"start_time\": 5, \"end_time\": 9\x7d",
      "application/json"⟩,
    .advance 800, .request ⟨"DELETE", "/api/schedule", [], "", ""⟩]

/-- The row is where it was moved to once the schedule opens again. -/
theorem reopened_rows_moved : datedTask.files.NamesShort ∧
    datedTask.files.file? datedTask.schedulePath = none ∧
    ∃ rows, savedIn moveAndClose (start usualSettings datedTask) = [rows] ∧
      rows.map (fun r => (r.id, r.start, r.finish)) = [("a", 5, 9)] ∧
      (run moveAndClose (start usualSettings datedTask)).openSchedule.1.map Session.rows
        = .ok rows := by
  have hshort : datedTask.files.NamesShort := List.forall_mem_singleton.mpr (by decide)
  have hunsaved : datedTask.files.file? datedTask.schedulePath = none := rfl
  have hclosed : (run moveAndClose (start usualSettings datedTask)).session = none :=
    Option.isNone_iff_eq_none.mp (by decide +kernel)
  have htimes : (savedIn moveAndClose (start usualSettings datedTask)).map
      (fun rows => rows.map fun r => (r.id, r.start, r.finish)) = [[("a", 5, 9)]] := by
    decide +kernel
  obtain ⟨rows, hsaved, hrows⟩ := List.map_eq_singleton_iff.mp htimes
  have hopen := (reopened_rows usualSettings datedTask hshort hunsaved moveAndClose).1 hclosed
  rw [hsaved] at hopen
  exact ⟨hshort, hunsaved, rows, hsaved, hrows, hopen⟩

end Service

end Taskboard
