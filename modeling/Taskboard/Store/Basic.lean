import Taskboard.Store.Tree
import Taskboard.Task.Document
import Taskboard.Text.Lines
import Taskboard.Text.Utf8

/-!
# Store/Basic — the store of tasks

Tasks are files in the folders of a store, named by their ids. `Store.taskIds` lists them,
`Store.task` reads one, `Store.tasks` reads all that can be read, and `Store.saveTask` writes one.
An empty workspace is the store's own folder.
-/

namespace Taskboard

/-- A store of tasks. -/
structure Store where
  /-- The folder with the workspaces. -/
  root : Path
  /-- The file with the saved schedule. -/
  schedulePath : Path
  files : FileTree
  /-- The time of change that a file gets when it is written. -/
  clock : Moment

/-- What becomes of a change: its result, and the store after it. -/
abbrev Stored (α : Type) := Except Fault α × Store

namespace Store

/-- How the names of task files end. -/
def taskSuffix : String := ".md"

/-- The folder of a workspace. -/
def folder (s : Store) (workspace : String) : Path :=
  if workspace = "" then s.root else s.root.under workspace

/-- The file of a task. -/
def taskPath (s : Store) (workspace id : String) : Path :=
  (s.folder workspace).under (id ++ taskSuffix)

/-! ## Reading -/

/-- The bytes of a file as text with plain line breaks. -/
def textOf (bytes : List UInt8) : Except Fault String :=
  match decodeUtf8? bytes with
  | some text => .ok (String.ofList (plainBreaks text.toList))
  | none => .error .notUtf8

/-- The names of a folder that name tasks. -/
def taskNames (names : List String) : List String := names.filter (endsWith taskSuffix)

/-- **The ids of the tasks of a workspace**, in order. -/
def taskIds (s : Store) (workspace : String) : Except Fault (List String) :=
  let folder := s.folder workspace
  if folder.isClean && s.files.isFolder folder then
    .ok (((taskNames (s.files.names folder)).map Path.stem).mergeSort fun a b => decide (a ≤ b))
  else .error (.noWorkspace folder.text)

/-- What the store says of a task whose text is unfit. -/
def unfit : Fault → Fault := fun f => if f.isBadValue then .taskMalformed f else f

/-- **The task of an id.** -/
def task (s : Store) (workspace id : String) : Except Fault Task :=
  let path := s.taskPath workspace id
  if !path.isClean then .error .badName
  else match s.files.file? path with
    | none => .error (.taskUnreadable id)
    | some (bytes, changed) => (textOf bytes).bind fun text =>
      (Task.ofText id text (some changed)).mapError unfit

/-- The tasks of some ids; those that the store cannot give are left out. -/
def tasksOf (s : Store) (workspace : String) : List String → Except Fault (List Task)
  | [] => .ok []
  | id :: ids =>
    match s.task workspace id with
    | .ok t => (s.tasksOf workspace ids).map (t :: ·)
    | .error f => if f.isStorage then s.tasksOf workspace ids else .error f

/-- **The tasks of a workspace** in the order of ids. -/
def tasks (s : Store) (workspace : String) : Except Fault (List Task) :=
  (s.taskIds workspace).bind (s.tasksOf workspace)

/-- The tasks of a workspace that can be read, for whatever reason the others cannot. -/
def readableTasks (s : Store) (workspace : String) : Except Fault (List Task) :=
  (s.taskIds workspace).map fun ids => ids.filterMap fun id => (s.task workspace id).toOption

/-! ## Writing -/

/-- Makes folders where they are missing. -/
def makeFolders (path : Path) (refusal : Fault) (s : Store) : Stored Unit :=
  match s.files.makeFolders? path with
  | some files => (.ok (), { s with files })
  | none => (.error refusal, s)

/-- Writes a text that may fail to be made. -/
def write (path : Path) (text : Except Fault String) (refusal : Fault) (s : Store) : Stored Unit :=
  match text with
  | .error f => (.error f, s)
  | .ok text =>
    if !path.isClean then (.error .badName, s)
    else match s.files.write? path text.toUTF8.toList s.clock with
      | some files => (.ok (), { s with files })
      | none => (.error refusal, s)

/-- Writes a text into a folder that is made where it is missing. -/
def writeDeep (path : Path) (text : Except Fault String) (refusal : Fault) (s : Store) :
    Stored Unit :=
  match s.makeFolders path.parent refusal with
  | (.ok (), s) => s.write path text refusal
  | (.error f, s) => (.error f, s)

/-- **Writes a task.** -/
def saveTask (workspace : String) (t : Task) (s : Store) : Stored Unit :=
  s.writeDeep (s.taskPath workspace t.id) t.document (.taskUnwritable t.id)

end Store

end Taskboard
