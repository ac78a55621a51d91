import Taskboard.Text.Find

/-!
# Store/Path — paths of files

A path is a chain of names behind an anchor. Doubled slashes and single points say nothing and are
left out of it, two points stay. `Path.join` follows a path from another, and `Path.text` writes
one.
-/

namespace Taskboard

/-- A path of a file or folder. -/
structure Path where
  /-- The slashes in front: none for a relative path, one for an absolute one; two are kept apart
  from one. -/
  lead : Nat
  names : List String
deriving DecidableEq, Repr

namespace Path

/-- A part of a written path that names something. -/
def isName (part : String) : Bool := part ≠ "" && part ≠ "."

/-- The anchor of a written path; three slashes and more count as one. -/
def leadOf (cs : List Char) : Nat :=
  let slashes := (cs.takeWhile (· = '/')).length
  if slashes = 2 then 2 else min slashes 1

/-- **The path that a text writes.** -/
def ofText (s : String) : Path :=
  ⟨leadOf s.toList, ((partsAt '/' s.toList).map String.ofList).filter isName⟩

/-- The text of a path, a point for the empty one. -/
def text (p : Path) : String :=
  if p.lead = 0 ∧ p.names = [] then "."
  else String.ofList (List.replicate p.lead '/') ++ String.intercalate "/" p.names

/-- **A path followed from another**: an absolute one leads where it leads from anywhere. -/
def join (p q : Path) : Path := if q.lead = 0 then ⟨p.lead, p.names ++ q.names⟩ else q

/-- The path of a written one from here; an empty text stays here. -/
def under (p : Path) (s : String) : Path := p.join (ofText s)

/-- A name below a path. -/
def child (p : Path) (name : String) : Path := ⟨p.lead, p.names ++ [name]⟩

/-- The path without its last name. -/
def parent (p : Path) : Path := ⟨p.lead, p.names.dropLast⟩

/-- Whether the path leads nowhere from its anchor. -/
def isAnchor (p : Path) : Bool := p.names.isEmpty

/-- The most bytes of a name. -/
def maxNameBytes : Nat := 255

/-- Whether no name of the path holds a character that names cannot hold. -/
def isClean (p : Path) : Bool := p.names.all fun n => !n.toList.contains '\x00'

/-- Whether every name of the path is short enough. -/
def isShort (p : Path) : Bool := p.names.all fun n => n.utf8ByteSize ≤ maxNameBytes

/-- What stands before the last point of a name, unless the point starts the name. -/
def stem (name : String) : String :=
  match (name.toList.reverse.dropWhile (· ≠ '.')).drop 1 with
  | [] => name
  | front => if name.toList.getLast? = some '.' then name else String.ofList front.reverse

@[simp] theorem join_anchor (p : Path) : p.join ⟨0, []⟩ = p := by simp [join]

@[simp] theorem parent_child (p : Path) (name : String) : (p.child name).parent = p := by
  simp [parent, child]

end Path

end Taskboard
