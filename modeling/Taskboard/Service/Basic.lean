import Taskboard.Schedule.Session
import Taskboard.Service.Reply
import Taskboard.Service.Request
import Taskboard.Settings
import Taskboard.Store.Definitions

/-!
# Service/Basic — the state of the service

A service keeps the tasks that it has read for a while (`Service.tasks`), and the schedule that is
being edited (`Service.openSchedule`). Its clock moves by `Service.advance`, which lets waiting
saves happen.
-/

namespace Taskboard

/-- Tasks and when they were read. -/
structure TaskCache where
  loadedAt : Int
  tasks : List Task

/-- The state of the service. -/
structure Service where
  settings : Settings
  store : Store
  /-- The time in milliseconds. -/
  now : Int
  /-- The tasks that were read last. -/
  cache : Option TaskCache
  /-- The schedule that is open. -/
  session : Option Session

/-- What becomes of an action: its result, and the service after it. -/
abbrev Served (α : Type) := Except Fault α × Service

namespace Service

/-- A service that has done nothing yet. -/
def start (settings : Settings) (store : Store) : Service := ⟨settings, store, 0, none, none⟩

/-- How long tasks are kept, in milliseconds. -/
def cacheLife : Int := 5000

/-! ## Tasks -/

/-- Whether the tasks that are kept are too old, or there are none. -/
def isStale (s : Service) : Bool :=
  match s.cache with
  | some c => cacheLife < s.now - c.loadedAt
  | none => true

/-- Reads the tasks anew; after a failure those that are kept stay. -/
def reload (s : Service) : Served (List Task) :=
  match s.store.tasks "" with
  | .ok tasks => (.ok tasks, { s with cache := some ⟨s.now, tasks⟩ })
  | .error f => (.error f, s)

/-- The tasks that are kept. -/
def kept (s : Service) : List Task :=
  match s.cache with
  | some c => c.tasks
  | none => []

/-- **The tasks**, read anew if that is asked for or if those that are kept are too old. -/
def tasks (force : Bool) (s : Service) : Served (List Task) :=
  if force || s.isStale then s.reload else (.ok s.kept, s)

/-! ## The schedule -/

/-- Opens a schedule with some rows. -/
def openRows (rows : List Row) (s : Service) : Served Session :=
  let session := Session.start rows s.settings.quietMs false
  (.ok session, { s with session := some session })

/-- Opens a schedule with the rows of the tasks. -/
def openTasks (s : Service) : Served Session :=
  match s.tasks false with
  | (.error f, s) => (.error f, s)
  | (.ok tasks, s) =>
    match Row.ofTasks s.settings.rowKeys tasks with
    | .ok rows => s.openRows rows
    | .error f => (.error f, s)

/-- **The open schedule**; it opens with the saved rows, or with those of the tasks if none are
saved. -/
def openSchedule (s : Service) : Served Session :=
  match s.session with
  | some session => (.ok session, s)
  | none =>
    match s.store.loadSchedule with
    | .error f => (.error f, s)
    | .ok [] => s.openTasks
    | .ok rows => s.openRows rows

/-- Closes the schedule; what waits to be saved is not. -/
def closeSchedule (s : Service) : Service := { s with session := none }

/-! ## Time -/

/-- How the store takes a snapshot. -/
def saving : Session.Saving Store := Store.saveSchedule

/-- **Lets time pass**: saves that get due happen. -/
def advance (ms : Int) (s : Service) : Service :=
  let s := { s with now := s.now + ms }
  match s.session with
  | none => s
  | some session =>
    let (session, saves) := session.advance ms
    { s with session := some session, store := Session.saveAll saving saves s.store }

end Service

end Taskboard
