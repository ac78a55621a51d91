import Taskboard.Dependency.Graph

/-!
# Dependency/Cycle — loops of tasks that depend on each other

`Graph.cycles` walks the graph depth first from every task that is not marked yet. A `Walk` is a
machine: its frames hold the tasks from the root on with the links not read yet, and `Walk.step`
reads one link or leaves one task. A link back to a task on the path closes a cycle, the part of the
path from that task on.

Cycles are told apart by their signature, the ids joined by `>`; of two with the same signature the
first is kept.
-/

namespace Taskboard

/-- A loop of tasks: each depends on the next, and the last on the first. -/
abbrev Cycle := List String

/-- The ids of a cycle joined by `>`. -/
def Cycle.signature (c : Cycle) : String := String.intercalate ">" c

/-- A cycle with its first task once more at the end, and arrows between. -/
def Cycle.text (c : Cycle) : String := String.intercalate " -> " (c ++ c.take 1)

/-- How far the search has come with a task. -/
inductive Mark where
  | onPath
  | done
deriving DecidableEq, Repr

/-- What the walks of one search share. -/
structure Search where
  /-- The marks so far, the latest first. -/
  marks : List (String × Mark)
  /-- The cycles in the order of their discovery. -/
  found : List Cycle
  signatures : List String

namespace Search

def empty : Search := ⟨[], [], []⟩

/-- The mark of a task. -/
def mark? (s : Search) (id : String) : Option Mark := s.marks.lookup id

def setMark (s : Search) (id : String) (m : Mark) : Search := { s with marks := (id, m) :: s.marks }

/-- Marks all tasks of a path as done. -/
def finish (s : Search) (path : List String) : Search :=
  path.foldl (fun s id => s.setMark id .done) s

/-- Notes a cycle, unless one with its signature is there. -/
def note (s : Search) (c : Cycle) : Search :=
  if s.signatures.contains c.signature then s
  else { s with found := s.found ++ [c], signatures := c.signature :: s.signatures }

end Search

/-- A task on the path with the links that the walk has not read yet. -/
structure Frame where
  node : String
  unread : List String
deriving DecidableEq, Repr

/-- A walk: the innermost frame first, the path outermost first, and the place of each task on
it. -/
structure Walk where
  search : Search
  frames : List Frame
  path : List String
  position : List (String × Nat)

namespace Walk

/-- A walk that stands at its root. -/
def start (s : Search) (root : String) (targets : List String) : Walk :=
  ⟨s.setMark root .onPath, [⟨root, targets⟩], [root], [(root, 0)]⟩

/-- Goes on to a task that has no mark. -/
def enter (w : Walk) (id : String) (targets : List String) : Walk :=
  { search := w.search.setMark id .onPath
    frames := ⟨id, targets⟩ :: w.frames
    path := w.path ++ [id]
    position := (id, w.path.length) :: w.position }

/-- Leaves the innermost task. -/
def leave (w : Walk) (id : String) (below : List Frame) : Walk :=
  { search := w.search.setMark id .done
    frames := below
    path := w.path.dropLast
    position := w.position.filter (·.1 ≠ id) }

/-- Ends a walk that failed on entering a task: all tasks on the path are done. -/
def abandon (w : Walk) (id : String) : Walk :=
  { search := w.search.finish (w.path ++ [id]), frames := [], path := [], position := [] }

/-- The cycle that a link back to a task on the path closes. -/
def cycleTo (w : Walk) (id : String) : Cycle := w.path.drop ((w.position.lookup id).getD 0)

/-- One step: reads a link of the innermost task, or leaves it when all are read. -/
def step (g : Graph) (w : Walk) : Walk :=
  match w.frames with
  | [] => w
  | ⟨node, []⟩ :: below => w.leave node below
  | ⟨node, next :: unread⟩ :: below =>
    let read := { w with frames := ⟨node, unread⟩ :: below }
    match g.links? next with
    | none => read
    | some links =>
      match w.search.mark? next with
      | some .done => read
      | some .onPath => { read with search := w.search.note (w.cycleTo next) }
      | none =>
        match links with
        | .ids targets => read.enter next targets
        | .unreadable => read.abandon next

/-- Steps until no frame is left. -/
def run (g : Graph) : Nat → Walk → Walk
  | 0, w => w
  | fuel + 1, w => if w.frames.isEmpty then w else run g fuel (w.step g)

end Walk

namespace Graph

/-- Steps enough for a walk: every task is entered and left once at most, and every link read
once. -/
def walkFuel (g : Graph) : Nat := g.linkCount + g.length + 1

/-- Walks from a task that has no mark; one with unreadable links is not entered. -/
def visit (g : Graph) (s : Search) (root : String) (links : Links) : Search :=
  if (s.mark? root).isSome then s
  else match links with
    | .ids targets => ((Walk.start s root targets).run g g.walkFuel).search
    | .unreadable => s

/-- **The cycles of a graph**, in the order of their discovery. -/
def cycles (g : Graph) : List Cycle :=
  (g.foldl (fun s (root, links) => g.visit s root links) Search.empty).found

end Graph

end Taskboard
