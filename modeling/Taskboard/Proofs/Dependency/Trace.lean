import Taskboard.Proofs.Dependency.Malformed
import Taskboard.Proofs.Dependency.Stack

/-!
# Proofs/Dependency/Trace — what a search pushes and reads, and how often

A walk pushes the frames of tasks and reads their links (`Walk.Event`), and its trace lists both in
their order.  `Walk.Ledger` holds a walk against its trace: what a frame has read and what it has
not is together what its task links to, a task that was pushed and left again is done with all its
links read, and a task that was not pushed has the mark that it had before.

* `Ledger.step`, `Ledger.run` — each step keeps the ledger, and so does a run.
* `Search.Booked.visit` — what was pushed is done when the next walk starts, so no walk pushes it
  again.
* `Graph.walks_aligned_and_exhaustive` — **a walk keeps its structures in line and ends; all walks
  together push every task once and read each of its links once.**
-/

namespace Taskboard

theorem Graph.Readable.links?_of_mem_keys {g : Graph} (hg : g.Readable) {id : String}
    (hmem : id ∈ g.keys) : g.links? id = some (.ids (g.targets id)) := by
  obtain ⟨_, hlinks⟩ := hg.links? hmem
  exact hg.links?_eq_targets (has_eq_true_iff.mpr ⟨_, hlinks⟩)

/-- What is no task of a graph links to nothing. -/
theorem Graph.links?_or_targets (g : Graph) (id : String) :
    g.links? id = some (.ids (g.targets id)) ∨ g.targets id = [] := by
  unfold targets
  split
  next h => exact .inl h
  next => exact .inr rfl

namespace Walk

/-! ## Events -/

/-- What a walk does with its stack: it pushes a task, or reads a link of one. -/
inductive Event where
  | push (id : String)
  | read (id target : String)
deriving DecidableEq, Repr

/-- The tasks that are pushed, in order. -/
def pushed (es : List Event) : List String :=
  es.filterMap fun
    | .push id => some id
    | .read _ _ => none

/-- The links of a task that are read, in order. -/
def readOf (id : String) (es : List Event) : List String :=
  es.filterMap fun
    | .push _ => none
    | .read reader target => if reader = id then some target else none

/-- The link that the next step takes from the innermost frame. -/
def reads (w : Walk) : List Event :=
  match w.frames with
  | ⟨node, next :: _⟩ :: _ => [.read node next]
  | _ => []

/-- The frames that the next step puts on the stack. -/
def pushes (g : Graph) (w : Walk) : List Event :=
  ((w.step g).frames.take ((w.step g).frames.length - w.frames.length)).map (.push ·.node)

/-- What a run does, in order. -/
def trace (g : Graph) : Nat → Walk → List Event
  | 0, _ => []
  | fuel + 1, w =>
    if w.frames.isEmpty then [] else w.reads ++ w.pushes g ++ trace g fuel (w.step g)

section Events

variable (id k target : String) (es fs : List Event)

@[simp] theorem pushed_append : pushed (es ++ fs) = pushed es ++ pushed fs :=
  List.filterMap_append

@[simp] theorem readOf_append : readOf id (es ++ fs) = readOf id es ++ readOf id fs :=
  List.filterMap_append

@[simp] theorem pushed_nil : pushed [] = [] := rfl

@[simp] theorem readOf_nil : readOf id [] = [] := rfl

@[simp] theorem pushed_push : pushed [.push id] = [id] := rfl

@[simp] theorem pushed_read : pushed [.read id target] = [] := rfl

@[simp] theorem readOf_push : readOf id [.push k] = [] := rfl

@[simp] theorem readOf_read : readOf id [.read k target] = if k = id then [target] else [] := by
  by_cases h : k = id <;> simp [readOf, h]

end Events

/-! ## A walk against its trace -/

/-- **What a walk that started on a search has pushed and read.** -/
structure Ledger (g : Graph) (root : String) (s : Search) (w : Walk) (es : List Event) : Prop where
  aligned : w.Aligned g root
  nodup : (pushed es).Nodup
  keys : root ∈ g.keys → ∀ id ∈ pushed es, id ∈ g.keys
  fresh : ∀ id ∈ pushed es, s.mark? id = none
  onPath : ∀ id ∈ w.path, id ∈ pushed es
  /-- What is read of a task on the path, and what is not. -/
  unread : ∀ f ∈ w.frames, readOf f.node es ++ f.unread = g.targets f.node
  left : ∀ id ∈ pushed es, id ∉ w.path →
    w.search.mark? id = some .done ∧ readOf id es = g.targets id
  untouched : ∀ id ∉ pushed es, w.search.mark? id = s.mark? id ∧ readOf id es = []

namespace Ledger

variable {g : Graph} {s : Search} {w v : Walk} {es : List Event} {f : Frame} {below : List Frame}
  {root node next : String} {unread targets : List String}

/-- A walk starts by pushing its root. -/
theorem start (hmark : s.mark? root = none) (hpath : ∀ id, s.mark? id ≠ some .onPath) :
    Ledger g root s (Walk.start s root (g.targets root)) [.push root] := by
  refine ⟨.start hpath, by simp, fun hroot => by simpa using hroot, by simpa using hmark,
    by simp [Walk.start], by simp [Walk.start], ?_, fun id hid => ?_⟩
  · simp [Walk.start]
  · have hne : id ≠ root := by simpa using hid
    exact ⟨by simp [Walk.start, Search.mark?_setMark, hne], rfl⟩

/-- **A link is read**, and nothing else changes but what was found. -/
theorem read (h : Ledger g root s w es) (hframes : w.frames = ⟨node, next :: unread⟩ :: below)
    (hrest : v.frames = ⟨node, unread⟩ :: below) (hpath : v.path = w.path)
    (hposition : v.position = w.position) (hmarks : ∀ id, v.search.mark? id = w.search.mark? id) :
    Ledger g root s v (es ++ [.read node next]) := by
  have hmem : node ∈ w.path := h.aligned.mem_path hframes
  have hkeep {id : String} (hid : id ≠ node) :
      readOf id (es ++ [.read node next]) = readOf id es := by simp [hid.symm]
  refine ⟨h.aligned.congr (by rw [hframes, hrest]; rfl) hpath hposition hmarks,
    by simpa using h.nodup, by simpa using h.keys, by simpa using h.fresh,
    by simpa [hpath] using h.onPath, fun f hf => ?_, fun id hid hout => ?_, fun id hid => ?_⟩
  · rw [hrest] at hf
    rcases List.mem_cons.mp hf with rfl | hf
    · simpa using h.unread ⟨node, next :: unread⟩ (hframes ▸ List.mem_cons_self)
    · have hne : f.node ≠ node := fun he =>
        h.aligned.notMem_below hframes (List.mem_map.mpr ⟨f, hf, he⟩)
      rw [hkeep hne]
      exact h.unread f (hframes ▸ List.mem_cons_of_mem _ hf)
  · rw [hpath] at hout
    have hne : id ≠ node := fun he => hout (he ▸ hmem)
    rw [hkeep hne, hmarks]
    exact h.left id (by simpa using hid) hout
  · have hid : id ∉ pushed es := by simpa using hid
    have hne : id ≠ node := fun he => hid (he ▸ h.onPath node hmem)
    rw [hkeep hne, hmarks]
    exact h.untouched id hid

/-- What was pushed has a mark. -/
theorem mark?_ne_none (h : Ledger g root s w es) {id : String} (hid : id ∈ pushed es) :
    w.search.mark? id ≠ none := by
  by_cases hmem : id ∈ w.path
  · simp [(h.aligned.onPath id).mpr hmem]
  · simp [(h.left id hid hmem).1]

/-- **A task that has no mark is pushed**, for the first time. -/
theorem push (h : Ledger g root s w es) (hframes : w.frames = f :: below)
    (hedge : g.Edge f.node next) (hmark : w.search.mark? next = none) :
    Ledger g root s (w.enter next (g.targets next)) (es ++ [.push next]) := by
  have hnew : next ∉ pushed es := fun hmem => h.mark?_ne_none hmem hmark
  obtain ⟨hsame, hnone⟩ := h.untouched next hnew
  have hmarks {id : String} (hid : id ≠ next) :
      (w.enter next (g.targets next)).search.mark? id = w.search.mark? id := by
    rw [mark?_enter, if_neg hid]
  have ⟨_, _, _, hhas⟩ := hedge
  refine ⟨h.aligned.enter hframes hedge hmark, ?_, fun hroot id hid => ?_, fun id hid => ?_,
    fun id hid => ?_, fun f hf => ?_, fun id hid hout => ?_, fun id hid => ?_⟩
  · rw [pushed_append, pushed_push, ← List.concat_eq_append]
    exact .concat hnew h.nodup
  · rcases List.mem_append.mp (pushed_append _ _ ▸ hid) with hid | hid
    · exact h.keys hroot id hid
    · exact List.mem_singleton.mp hid ▸ Graph.mem_keys_of_has hhas
  · rcases List.mem_append.mp (pushed_append _ _ ▸ hid) with hid | hid
    · exact h.fresh id hid
    · exact List.mem_singleton.mp hid ▸ hsame ▸ hmark
  · rw [pushed_append]
    rcases List.mem_append.mp hid with hid | hid
    · exact List.mem_append_left _ (h.onPath id hid)
    · exact List.mem_append_right _ hid
  · rcases List.mem_cons.mp hf with rfl | hf
    · simp [hnone]
    · simpa using h.unread f hf
  · have hid : id ∈ pushed es ∨ id = next := by simpa using hid
    have hout : id ∉ w.path ∧ id ≠ next := by simpa [Walk.enter] using hout
    rw [hmarks hout.2]
    simpa using h.left id (hid.resolve_right hout.2) hout.1
  · have hid : id ∉ pushed es ∧ id ≠ next := by simpa using hid
    rw [hmarks hid.2]
    simpa using h.untouched id hid.1

/-- **A task is left** with all its links read. -/
theorem leave (h : Ledger g root s w es) (hframes : w.frames = ⟨node, []⟩ :: below) :
    Ledger g root s (w.leave node below) es := by
  have hnode : node ∈ pushed es := h.onPath node (h.aligned.mem_path hframes)
  have hmarks {id : String} (hid : id ≠ node) :
      (w.leave node below).search.mark? id = w.search.mark? id := by
    rw [mark?_leave, if_neg hid]
  refine ⟨h.aligned.leave hframes, h.nodup, h.keys, h.fresh,
    fun id hid => h.onPath id (List.dropLast_subset _ hid), fun f hf => ?_, fun id hid hout => ?_,
    fun id hid => ?_⟩
  · exact h.unread f (hframes ▸ List.mem_cons_of_mem _ hf)
  · by_cases he : id = node
    · subst he
      refine ⟨by rw [mark?_leave, if_pos rfl], ?_⟩
      simpa using h.unread ⟨id, []⟩ (hframes ▸ List.mem_cons_self)
    · have hout : id ∉ w.path := fun hmem =>
        ((h.aligned.mem_path_iff hframes).mp hmem).elim hout he
      rw [hmarks he]
      exact h.left id hid hout
  · rw [hmarks fun he : id = node => hid (he ▸ hnode)]
    exact h.untouched id hid

/-- A link that is read next leads along an edge, if it leads to a task. -/
theorem edge (h : Ledger g root s w es) (hframes : w.frames = ⟨node, next :: unread⟩ :: below)
    (hhas : g.has next = true) : g.Edge node next := by
  have htargets := h.unread ⟨node, next :: unread⟩ (hframes ▸ List.mem_cons_self)
  rcases g.links?_or_targets node with hlinks | hnone
  · exact ⟨g.targets node, hlinks, by simp [← htargets], hhas⟩
  · simp [hnone] at htargets

/-- A step that pushes nothing and leaves nothing reads a link. -/
theorem pass (h : Ledger g root s w es) (hframes : w.frames = ⟨node, next :: unread⟩ :: below)
    (hstep : w.step g = v) (hrest : v.frames = ⟨node, unread⟩ :: below) (hpath : v.path = w.path)
    (hposition : v.position = w.position) (hmarks : ∀ id, v.search.mark? id = w.search.mark? id) :
    Ledger g root s (w.step g) (es ++ (w.reads ++ w.pushes g)) := by
  have hread : w.reads = [.read node next] := by rw [reads, hframes]
  have hpush : w.pushes g = [] := by simp [pushes, hstep, hrest, hframes]
  rw [hread, hpush, hstep, List.append_nil]
  exact h.read hframes hrest hpath hposition hmarks

/-- **Each step keeps the ledger.** -/
theorem step (hg : g.Readable) (h : Ledger g root s w es) :
    Ledger g root s (w.step g) (es ++ (w.reads ++ w.pushes g)) := by
  rcases hframes : w.frames with _ | ⟨⟨node, _ | ⟨next, unread⟩⟩, below⟩
  · simpa [Walk.step, reads, pushes, hframes] using h
  · have hstep := step_leave (g := g) hframes
    have hdone := h.leave hframes
    simpa [reads, pushes, hframes, hstep, Walk.leave] using hdone
  · by_cases hhas : g.has next = true
    · cases hmark : w.search.mark? next with
      | none =>
        have hstep := step_enter hframes (hg.links?_eq_targets hhas) hmark
        have hread : w.reads = [.read node next] := by rw [reads, hframes]
        have hpush : w.pushes g = [.push next] := by simp [pushes, hstep, hframes, Walk.enter]
        have hedge : g.Edge node next := h.edge hframes hhas
        have htaken : Ledger g root s { w with frames := ⟨node, unread⟩ :: below }
            (es ++ [.read node next]) := h.read hframes rfl rfl rfl fun _ => rfl
        rw [hread, hpush, hstep, ← List.append_assoc]
        exact htaken.push rfl hedge hmark
      | some m =>
        cases m with
        | onPath =>
          exact h.pass hframes (step_close hframes hhas hmark) rfl rfl rfl fun _ =>
            Search.mark?_note _
        | done =>
          exact h.pass hframes (step_skip hframes fun _ => hmark) rfl rfl rfl fun _ => rfl
    · exact h.pass hframes (step_skip hframes fun h => absurd h hhas) rfl rfl rfl fun _ => rfl

/-- **A run keeps the ledger**, with all its events. -/
theorem run (hg : g.Readable) (h : Ledger g root s w es) : ∀ fuel : Nat,
    Ledger g root s (w.run g fuel) (es ++ trace g fuel w) := by
  intro fuel
  induction fuel generalizing w es with
  | zero => simpa [Walk.run, trace] using h
  | succ fuel ih =>
    rw [Walk.run, trace]
    split
    · simpa using h
    · have hrest := ih (h.step hg)
      rwa [List.append_assoc] at hrest

/-- Wherever the steps of a walk lead, its structures are in line. -/
theorem aligned_of_reaches (hg : g.Readable) (h : Ledger g root s w es) (hsteps : Reaches g w v) :
    v.Aligned g root := by
  obtain ⟨_, hv⟩ : ∃ fs, Ledger g root s v fs := by
    induction hsteps with
    | refl => exact ⟨es, h⟩
    | tail _ hstep ih =>
      obtain ⟨-, rfl⟩ := hstep
      obtain ⟨fs, hfs⟩ := ih
      exact ⟨_, hfs.step hg⟩
  exact hv.aligned

/-- A walk with no frame left has no path. -/
theorem path_eq_nil (h : Ledger g root s w es) (hend : w.frames = []) : w.path = [] := by
  rw [← h.aligned.stack, hend]
  rfl

/-- **What a walk has pushed is done in the end**, with all its links read. -/
theorem ended (h : Ledger g root s w es) (hend : w.frames = []) {id : String}
    (hid : id ∈ pushed es) : w.search.mark? id = some .done ∧ readOf id es = g.targets id :=
  h.left id hid (by simp [h.path_eq_nil hend])

end Ledger

/-- A run is a number of steps. -/
theorem reaches_run (g : Graph) : ∀ (fuel : Nat) (w : Walk), Reaches g w (w.run g fuel)
  | 0, _ => .refl
  | fuel + 1, w => by
    rw [Walk.run]
    split
    · exact .refl
    · next hframes => exact .of_step (by simpa using hframes) (reaches_run g fuel (w.step g))

end Walk

/-! ## Whole searches -/

open Walk (Event pushed readOf)

/-- A search between two walks, against the events so far: what was pushed is done, with all its
links read, and nothing else has a mark. -/
structure Search.Booked (g : Graph) (s : Search) (es : List Event) : Prop where
  nodup : (pushed es).Nodup
  keys : ∀ id ∈ pushed es, id ∈ g.keys
  marks : ∀ id, s.mark? id = if id ∈ pushed es then some .done else none
  read : ∀ id, readOf id es = if id ∈ pushed es then g.targets id else []

namespace Graph

/-- What a walk does from its root on. -/
def walkTrace (g : Graph) (s : Search) (root : String) (targets : List String) : List Event :=
  .push root :: Walk.trace g g.walkFuel (Walk.start s root targets)

/-- What a visit does; one of a task that has a mark does nothing. -/
def visitTrace (g : Graph) (s : Search) (root : String) (links : Links) : List Event :=
  if (s.mark? root).isSome then []
  else match links with
    | .ids targets => g.walkTrace s root targets
    | .unreadable => []

/-- What visits do one after the other. -/
def traceFrom (g : Graph) : Search → List (String × Links) → List Event
  | _, [] => []
  | s, (root, links) :: rest =>
    g.visitTrace s root links ++ traceFrom g (g.visit s root links) rest

/-- **All that a search pushes and reads**, in order. -/
def trace (g : Graph) : List Event := g.traceFrom Search.empty g

variable {g : Graph} {s : Search} {es : List Event} {root : String} {links : Links}

/-- **The ledger of a whole walk.** -/
theorem ledger_walkTrace (hg : g.Readable) (hmark : s.mark? root = none)
    (hpath : ∀ id, s.mark? id ≠ some .onPath) :
    Walk.Ledger g root s ((Walk.start s root (g.targets root)).run g g.walkFuel)
      (g.walkTrace s root (g.targets root)) :=
  (Walk.Ledger.start hmark hpath).run hg g.walkFuel

/-- A walk leaves every frame, also where its root is no task. -/
theorem frames_run_start (g : Graph) (hmark : s.mark? root = none) :
    ((Walk.start s root (g.targets root)).run g g.walkFuel).frames = [] := by
  refine Walk.run_frames_eq_nil ?_
  rcases g.links?_or_targets root with hlinks | hnone
  · exact Walk.work_start_le hlinks hmark
  · have htotal := Walk.unentered_le_total (s.setMark root .onPath) g
    simp only [Walk.work, Walk.start, hnone, walkFuel, List.map_cons, List.map_nil, List.sum_cons,
      List.sum_nil, List.length_nil] at htotal ⊢
    omega

end Graph

namespace Search.Booked

variable {g : Graph} {s : Search} {es : List Event} {root : String} {links : Links}

theorem empty (g : Graph) : Search.Booked g Search.empty [] where
  nodup := List.nodup_nil
  keys := by simp
  marks := by simp [Search.empty, Search.mark?]
  read := by simp

theorem noPath (h : s.Booked g es) (id : String) : s.mark? id ≠ some .onPath := by
  rw [h.marks]
  split <;> simp

/-- **A visit pushes nothing that was pushed before**, and reads no link of it. -/
theorem visit (hg : g.Readable) (h : s.Booked g es) (hroot : root ∈ g.keys)
    (hlinks : s.mark? root = none → g.links? root = some links) :
    (g.visit s root links).Booked g (es ++ g.visitTrace s root links) := by
  cases hmark : s.mark? root with
  | some m => simpa [Graph.visit, Graph.visitTrace, hmark] using h
  | none =>
    obtain rfl : links = .ids (g.targets root) :=
      Option.some.inj ((hlinks hmark).symm.trans (hg.links?_of_mem_keys hroot))
    have hend := g.frames_run_start hmark
    have hledger := Graph.ledger_walkTrace hg hmark h.noPath
    have hvisit : g.visit s root (.ids (g.targets root))
        = ((Walk.start s root (g.targets root)).run g g.walkFuel).search := by
      simp [Graph.visit, hmark]
    have htrace : g.visitTrace s root (.ids (g.targets root))
        = g.walkTrace s root (g.targets root) := by
      simp [Graph.visitTrace, hmark]
    rw [hvisit, htrace]
    generalize (Walk.start s root (g.targets root)).run g g.walkFuel = w at hend hledger ⊢
    generalize g.walkTrace s root (g.targets root) = new at hledger ⊢
    have hapart : ∀ id ∈ pushed new, id ∉ pushed es := fun id hid hmem => by
      have hfresh := hledger.fresh id hid
      rw [h.marks, if_pos hmem] at hfresh
      cases hfresh
    refine ⟨?_, fun id hid => ?_, fun id => ?_, fun id => ?_⟩
    · rw [Walk.pushed_append]
      exact h.nodup.append hledger.nodup fun id hmem hid => hapart id hid hmem
    · rcases List.mem_append.mp (Walk.pushed_append _ _ ▸ hid) with hid | hid
      · exact h.keys id hid
      · exact hledger.keys hroot id hid
    · by_cases hid : id ∈ pushed new
      · simp [hid, (hledger.ended hend hid).1]
      · simp [hid, (hledger.untouched id hid).1, h.marks]
    · by_cases hid : id ∈ pushed new
      · simp [hid, (hledger.ended hend hid).2, h.read, hapart id hid]
      · simp [hid, (hledger.untouched id hid).2, h.read]

end Search.Booked

namespace Graph

variable {g : Graph}

/-- **Visits of the rest of a graph** keep what was pushed and read in order. -/
theorem booked_traceFrom (hg : g.Readable) : ∀ (before rest : Graph) (es : List Event),
    g = before ++ rest → (g.searchedUpTo before).Booked g es →
      g.searched.Booked g (es ++ g.traceFrom (g.searchedUpTo before) rest)
  | before, [], es, hsplit, h => by
    obtain rfl : g = before := by simpa using hsplit
    rw [traceFrom, List.append_nil]
    exact h
  | before, (root, links) :: rest, es, hsplit, h => by
    have hmem : (root, links) ∈ g := by simp [hsplit]
    obtain ⟨-, -, hmarked⟩ := rests_searchedUpTo hg.consistent hsplit
    have hvisit := h.visit hg (List.mem_map_of_mem hmem) fun hmark =>
      hg.consistent.links?_of_unmarked hsplit hmarked hmark (hg _ hmem)
    have hnext : g.searchedUpTo (before ++ [(root, links)])
        = g.visit (g.searchedUpTo before) root links := List.foldl_concat _ _ _ _
    rw [traceFrom, ← List.append_assoc, ← hnext]
    exact booked_traceFrom hg (before ++ [(root, links)]) rest _ (by simpa using hsplit)
      (hnext ▸ hvisit)

theorem booked_trace (hg : g.Readable) : g.searched.Booked g g.trace :=
  booked_traceFrom hg [] g [] rfl (Search.Booked.empty g)

/-- All tasks are pushed. -/
theorem mem_pushed_trace_iff (hg : g.Readable) {id : String} :
    id ∈ pushed g.trace ↔ id ∈ g.keys := by
  have hbooked := booked_trace hg
  refine ⟨hbooked.keys id, fun hid => ?_⟩
  have hdone := mark?_searched hg.consistent (hg.links?_of_mem_keys hid)
  rw [hbooked.marks] at hdone
  by_contra hout
  rw [if_neg hout] at hdone
  cases hdone

/-- **What a search pushes and reads.**  A walk may start at any id without a mark, whatever tasks
are done already.  Between any two of its steps, and so at the head of each round of a loop that
reads several links, its structures are in line.  It comes to an end, where no task is on a path and
all that it pushed is done, with each link read once, in order.  All walks of a search together push
every task once and read each of its links once. -/
theorem walks_aligned_and_exhaustive (g : Graph) (hg : g.Readable) :
    (∀ (s : Search) (root : String), s.mark? root = none → (∀ id, s.mark? id ≠ some .onPath) →
      (∀ w, Walk.Reaches g (Walk.start s root (g.targets root)) w → w.Aligned g root) ∧
      ∃ w, Walk.Reaches g (Walk.start s root (g.targets root)) w ∧ w.frames = [] ∧
        (∀ id, w.search.mark? id ≠ some .onPath) ∧
        ∀ id ∈ pushed (g.walkTrace s root (g.targets root)), w.search.mark? id = some .done ∧
          readOf id (g.walkTrace s root (g.targets root)) = g.targets id) ∧
    (pushed g.trace).Nodup ∧ (∀ id, id ∈ pushed g.trace ↔ id ∈ g.keys) ∧
      ∀ id ∈ g.keys, readOf id g.trace = g.targets id := by
  have hbooked := booked_trace hg
  refine ⟨fun s root hmark hpath => ⟨fun w => ?_, ?_⟩, hbooked.nodup,
    fun id => mem_pushed_trace_iff hg, fun id hid => ?_⟩
  · exact (Walk.Ledger.start hmark hpath).aligned_of_reaches hg
  · have hend := g.frames_run_start hmark
    have hledger := ledger_walkTrace hg hmark hpath
    refine ⟨_, Walk.reaches_run g g.walkFuel _, hend, fun id hid => ?_,
      fun id => hledger.ended hend⟩
    have hmem := (hledger.aligned.onPath id).mp hid
    rw [hledger.path_eq_nil hend] at hmem
    cases hmem
  · rw [hbooked.read, if_pos ((mem_pushed_trace_iff hg).mpr hid)]

/-- A link to no task, a link written twice, two loops, and a task that leads into them. -/
def crossed : Graph :=
  [("a", .ids ["b", "ghost", "b", "c"]), ("b", .ids ["a", "c"]), ("c", .ids ["d", "b"]),
    ("d", .ids []), ("e", .ids ["e", "a"])]

/-- A walk from `a` after one that has left `d` done. -/
theorem crossed_is_exhausted :
    let s := Search.empty.setMark "d" .done
    crossed.Readable ∧ s.mark? "a" = none ∧ (∀ id, s.mark? id ≠ some .onPath) ∧
      pushed (crossed.walkTrace s "a" (crossed.targets "a")) = ["a", "b", "c"] ∧
      readOf "a" (crossed.walkTrace s "a" (crossed.targets "a")) = ["b", "ghost", "b", "c"] ∧
      pushed crossed.trace = ["a", "b", "c", "d", "e"] ∧
      readOf "c" crossed.trace = ["d", "b"] := by
  intro s
  have hg : crossed.Readable := by decide
  have hpath : ∀ id, s.mark? id ≠ some .onPath := fun id => by
    rw [Search.mark?_setMark]
    split <;> simp [Search.empty, Search.mark?]
  have hpushed : pushed (crossed.walkTrace s "a" (crossed.targets "a")) = ["a", "b", "c"] := by
    decide
  obtain ⟨hwalks, -, -, hread⟩ := walks_aligned_and_exhaustive crossed hg
  obtain ⟨-, w, -, -, -, hdone⟩ := hwalks s "a" (by decide) hpath
  have ha := (hdone "a" (by simp [hpushed])).2
  exact ⟨hg, by decide, hpath, hpushed, ha.trans (by decide), by decide,
    (hread "c" (by decide)).trans (by decide)⟩

end Graph

end Taskboard
