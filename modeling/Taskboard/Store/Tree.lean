import Taskboard.Store.Path
import Taskboard.Value.Basic

/-!
# Store/Tree — folders and files

A `FileTree` says what stands where: folders, and files with their bytes and the time of their last
change. Anchors are always folders. `FileTree.place?` follows a path through the folders, two points
lead back to the folder above, and everything else is asked of the place that is found.
-/

namespace Taskboard

/-- What stands at a place. -/
inductive FileNode where
  | folder
  | file (bytes : List UInt8) (changed : Moment)

/-- Folders and files by their places; a place is a path without points. -/
structure FileTree where
  nodes : List (Path × FileNode)

namespace FileTree

/-- Nothing but anchors. -/
def empty : FileTree := ⟨[]⟩

/-- What stands at a place. -/
def nodeAt? (t : FileTree) (place : Path) : Option FileNode :=
  if place.isAnchor then some .folder
  else (t.nodes.find? fun n => n.1 = place).map Prod.snd

/-- Whether a folder stands at a place. -/
def folderAt (t : FileTree) (place : Path) : Bool :=
  match t.nodeAt? place with
  | some .folder => true
  | _ => false

/-- Names followed from a place; each but the last must lead to a folder. -/
def follow? (t : FileTree) (place : Path) : List String → Option Path
  | [] => some place
  | name :: rest =>
    if t.folderAt place then
      t.follow? (if name = ".." then place.parent else place.child name) rest
    else none

/-- **The place that a path leads to**, whether or not something stands there. -/
def place? (t : FileTree) (p : Path) : Option Path := t.follow? ⟨min p.lead 1, []⟩ p.names

/-- What a path leads to. -/
def node? (t : FileTree) (p : Path) : Option FileNode := (t.place? p).bind t.nodeAt?

/-- Whether a path leads to something. -/
def holds (t : FileTree) (p : Path) : Bool := (t.node? p).isSome

/-- Whether a path leads to a folder. -/
def isFolder (t : FileTree) (p : Path) : Bool :=
  match t.node? p with
  | some .folder => true
  | _ => false

/-- The bytes of a file and the time of its last change. -/
def file? (t : FileTree) (p : Path) : Option (List UInt8 × Moment) :=
  match t.node? p with
  | some (.file bytes changed) => some (bytes, changed)
  | _ => none

/-- The names in the folder at a place. -/
def namesAt (t : FileTree) (place : Path) : List String :=
  t.nodes.filterMap fun n => if n.1.parent = place then n.1.names.getLast? else none

/-- The names in a folder. -/
def names (t : FileTree) (p : Path) : List String :=
  match t.place? p with
  | some place => t.namesAt place
  | none => []

/-- The tree with something at a place, in place of what stood there. -/
def put (t : FileTree) (place : Path) (node : FileNode) : FileTree :=
  ⟨putEntry (fun a b => decide (a = b)) place node t.nodes⟩

/-- **The tree with a file written**, none where no file can be. -/
def write? (t : FileTree) (p : Path) (bytes : List UInt8) (changed : Moment) : Option FileTree :=
  (t.place? p).bind fun place =>
    if t.folderAt place || !t.folderAt place.parent || !p.isShort then none
    else some (t.put place (.file bytes changed))

/-- Names followed from a place, with folders made where nothing stands. -/
def makeFrom? (t : FileTree) (place : Path) : List String → Option FileTree
  | [] => some t
  | name :: rest =>
    let next := if name = ".." then place.parent else place.child name
    match t.nodeAt? next with
    | some .folder => t.makeFrom? next rest
    | some (.file _ _) => none
    | none => (t.put next .folder).makeFrom? next rest

/-- **The tree with all folders of a path**, none where a file stands in the way. -/
def makeFolders? (t : FileTree) (p : Path) : Option FileTree :=
  if p.isShort then t.makeFrom? ⟨min p.lead 1, []⟩ p.names else none

/-- The tree without what a path leads to and all below it. -/
def remove (t : FileTree) (p : Path) : FileTree :=
  match t.place? p with
  | some place => ⟨t.nodes.filter fun n =>
      !(n.1.lead = place.lead && place.names.isPrefixOf n.1.names)⟩
  | none => t

end FileTree

end Taskboard
