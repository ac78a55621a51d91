import Mathlib.Logic.Function.Basic
import Mathlib.Logic.Relation
import Taskboard.Proofs.Dependency.Search

/-!
# Proofs/Dependency/Descent — the walks against a recursive search

`Descent.follow` is the depth-first search of the textbooks: a recursion over the links of a task
that colours tasks white, grey and black and records the segment of its path from a grey link on.
Its call stack is what a walk keeps in its frames, with the links that each call has still to read.

`Search.shade` forgets how a search stores its marks.  A walk that stands at a task with links to
read reaches, step by step, the leaving of that task with the search that the recursion returns
(`Walk.finishes_follow`), so the cycles of a graph are those of the recursive search
(`cycles_eq_descend`).
-/

open Relation

namespace Taskboard

/-! ## The recursive search -/

/-- The colour of a task: not met yet, on the path, or finished. -/
inductive Colour where
  | white
  | grey
  | black
deriving DecidableEq, Repr

/-- The colours of all tasks, and the cycles recorded so far. -/
structure Descent where
  colour : String → Colour
  cycles : List Cycle

namespace Descent

/-- All tasks are white. -/
def fresh : Descent := ⟨fun _ => .white, []⟩

def paint (d : Descent) (id : String) (c : Colour) : Descent :=
  { d with colour := Function.update d.colour id c }

/-- Records a cycle, unless one with its signature was recorded before. -/
def record (d : Descent) (c : Cycle) : Descent :=
  if c.signature ∈ d.cycles.map Cycle.signature then d else { d with cycles := d.cycles ++ [c] }

/-- The tasks of the graph that are still white. -/
def whites (g : Graph) (d : Descent) : List String := g.keys.filter (d.colour · = .white)

/-- No task that is not white becomes white again. -/
def Precedes (d e : Descent) : Prop := ∀ id, e.colour id = .white → d.colour id = .white

end Descent

/-- The ids that a task links to. -/
def Graph.targets (g : Graph) (id : String) : List String :=
  match g.links? id with
  | some (.ids targets) => targets
  | _ => []

theorem Graph.Readable.links?_eq_targets {g : Graph} (hg : g.Readable) {id : String}
    (hkey : g.has id = true) : g.links? id = some (.ids (g.targets id)) := by
  obtain ⟨targets, hlinks⟩ := hg.links? (mem_keys_of_has hkey)
  simp [Graph.targets, hlinks]

namespace Descent

variable {g : Graph} {d e f : Descent} {id : String}

theorem Precedes.refl (d : Descent) : d.Precedes d := fun _ h => h

theorem Precedes.trans (hde : d.Precedes e) (hef : e.Precedes f) : d.Precedes f :=
  fun id h => hde id (hef id h)

theorem precedes_record (d : Descent) (c : Cycle) : d.Precedes (d.record c) := by
  intro id h
  unfold record at h
  split at h <;> exact h

theorem precedes_paint (d : Descent) (id : String) {c : Colour} (hc : c ≠ .white) :
    d.Precedes (d.paint id c) := by
  intro k h
  by_cases hk : k = id
  · subst hk
    exact absurd (by simpa [paint] using h) hc
  · simpa [paint, hk] using h

theorem Precedes.length_whites_le (h : d.Precedes e) :
    (e.whites g).length ≤ (d.whites g).length := by
  rw [whites, whites, ← List.countP_eq_length_filter, ← List.countP_eq_length_filter]
  exact List.countP_mono_left fun id _ hid => by simpa using h id (by simpa using hid)

theorem Precedes.lex (h : d.Precedes e) {m n : Nat} (hlt : m < n) :
    Prod.Lex (· < ·) (· < ·) ((e.whites g).length, m) ((d.whites g).length, n) := by
  rcases Nat.lt_or_eq_of_le (h.length_whites_le (g := g)) with hless | hsame
  · exact Prod.Lex.left _ _ hless
  · exact hsame ▸ Prod.Lex.right _ hlt

/-- Painting a white task of the graph leaves fewer white ones. -/
theorem length_whites_paint_lt (hkey : g.has id = true) (hwhite : d.colour id = .white) {c : Colour}
    (hc : c ≠ .white) : ((d.paint id c).whites g).length < (d.whites g).length := by
  have hwhites : (d.paint id c).whites g = (d.whites g).filter (· ≠ id) := by
    rw [whites, whites, List.filter_filter]
    refine List.filter_congr fun k _ => ?_
    by_cases hk : k = id
    · subst hk
      simp [paint, hc]
    · simp [paint, hk]
  have hmem : id ∈ d.whites g :=
    List.mem_filter.mpr ⟨Graph.mem_keys_of_has hkey, by simpa using hwhite⟩
  rw [hwhites]
  exact List.length_filter_lt_length_iff_exists.mpr ⟨id, hmem, by simp⟩

/-- A search goes from a task to its links and comes back to it. -/
theorem Precedes.through (h : (d.paint id .grey).Precedes e) : d.Precedes (e.paint id .black) :=
  (precedes_paint d id (by decide)).trans (h.trans (precedes_paint e id (by decide)))

/-- What a search has become later. -/
def Later (d : Descent) : Type := { e : Descent // d.Precedes e }

/-- What is later than a later search. -/
def Later.since (after : e.Later) (h : d.Precedes e) : d.Later := ⟨after.1, h.trans after.2⟩

/-- **Follows the links of the last task of a path**, in their order.  A link to no task is skipped
and so is one to a black task; a link to a grey task records the segment of the path from there on;
a white task is painted grey, its own links are followed, and it is painted black. -/
def follow (g : Graph) (path : List String) : (targets : List String) → (d : Descent) → d.Later
  | [], d => ⟨d, .refl d⟩
  | next :: rest, d =>
    if _hkey : g.has next = true then
      match _hcolour : d.colour next with
      | .black => follow g path rest d
      | .grey =>
        (follow g path rest (d.record (path.dropWhile (· ≠ next)))).since (precedes_record d _)
      | .white =>
        match follow g (path ++ [next]) (g.targets next) (d.paint next .grey) with
        | ⟨e, he⟩ => (follow g path rest (e.paint next .black)).since he.through
    else follow g path rest d
termination_by targets d => ((d.whites g).length, targets.length)
decreasing_by
  · exact (Precedes.refl d).lex (Nat.lt_succ_self _)
  · exact (precedes_record d _).lex (Nat.lt_succ_self _)
  · exact Prod.Lex.left _ _ (length_whites_paint_lt _hkey _hcolour (by decide))
  · exact he.through.lex (Nat.lt_succ_self _)
  · exact (Precedes.refl d).lex (Nat.lt_succ_self _)

/-- The search from a task, unless it was met before. -/
def explore (g : Graph) (d : Descent) (root : String) : Descent :=
  if d.colour root = .white then
    (follow g [root] (g.targets root) (d.paint root .grey)).1.paint root .black
  else d

end Descent

/-- **The cycles that the recursive search records**, started at each task in graph order. -/
def Graph.descend (g : Graph) : List Cycle :=
  (g.keys.foldl (Descent.explore g) Descent.fresh).cycles

/-! ## What a search looks like to the recursion -/

/-- The colour that a mark stands for. -/
def Colour.ofMark : Option Mark → Colour
  | none => .white
  | some .onPath => .grey
  | some .done => .black

namespace Search

/-- The colours and the cycles of a search, without the way it stores them. -/
def shade (s : Search) : Descent := ⟨fun id => .ofMark (s.mark? id), s.found⟩

variable {g : Graph} {s : Search} {log : List Cycle} {id : String}

theorem shade_setMark (s : Search) (id : String) (m : Mark) :
    (s.setMark id m).shade = s.shade.paint id (.ofMark (some m)) := by
  unfold shade Descent.paint
  congr 1
  funext k
  rw [mark?_setMark, Function.update_apply]
  split <;> rfl

/-- A search tells signatures by a list of its own, the recursion by the cycles it recorded. -/
theorem shade_note (h : s.Logs g log) (c : Cycle) : (s.note c).shade = s.shade.record c := by
  have hseen : s.signatures.contains c.signature = true
      ↔ c.signature ∈ s.shade.cycles.map Cycle.signature := by
    rw [List.contains_iff_mem, h.signatures_eq, List.mem_reverse]
    rfl
  by_cases hc : c.signature ∈ s.shade.cycles.map Cycle.signature
  · rw [note, if_pos (hseen.mpr hc), Descent.record, if_pos hc]
  · rw [note, if_neg fun h => hc (hseen.mp h), Descent.record, if_neg hc]
    rfl

theorem colour_shade : s.shade.colour id = .ofMark (s.mark? id) := rfl

theorem mark?_of_colour {m : Option Mark} (h : s.shade.colour id = .ofMark m) :
    s.mark? id = m := by
  rw [colour_shade] at h
  rcases hs : s.mark? id with _ | _ | _ <;> rcases m with _ | _ | _ <;> simp_all [Colour.ofMark]

end Search

/-! ## Walks step by step -/

namespace Walk

variable {g : Graph} {w w' v : Walk} {log : List Cycle} {node next : String}
  {targets unread : List String} {below : List Frame}

/-- The steps of a walk with frames lead from one walk to another. -/
def Reaches (g : Graph) : Walk → Walk → Prop :=
  ReflTransGen fun w w' => w.frames ≠ [] ∧ w' = w.step g

theorem Reaches.of_step (hframes : w.frames ≠ []) (h : Reaches g (w.step g) w') : Reaches g w w' :=
  ReflTransGen.head ⟨hframes, rfl⟩ h

/-- **With fuel for its work a walk runs to where its steps end.** -/
theorem Reaches.run_eq (h : Reaches g w w') (hend : w'.frames = []) :
    ∀ {fuel : Nat}, work g w ≤ fuel → w.run g fuel = w' := by
  induction h using ReflTransGen.head_induction_on with
  | refl =>
    intro fuel _
    cases fuel with
    | zero => rfl
    | succ fuel => rw [run, hend]; rfl
  | head hstep _ ih =>
    obtain ⟨hframes, rfl⟩ := hstep
    intro fuel hwork
    have hlt := work_step_lt (g := g) hframes
    obtain ⟨k, rfl⟩ : ∃ k, fuel = k + 1 := ⟨fuel - 1, by omega⟩
    rw [run, if_neg fun he => hframes (List.isEmpty_iff.mp he)]
    exact ih (by omega)

/-! ### What each step does -/

theorem step_skip (hframes : w.frames = ⟨node, next :: unread⟩ :: below)
    (h : g.has next = true → w.search.mark? next = some .done) :
    w.step g = { w with frames := ⟨node, unread⟩ :: below } := by
  cases hlinks : g.links? next with
  | none => simp [Walk.step, hframes, hlinks]
  | some links =>
    simp [Walk.step, hframes, hlinks, h (Graph.has_eq_true_iff.mpr ⟨_, hlinks⟩)]

theorem step_close (hframes : w.frames = ⟨node, next :: unread⟩ :: below)
    (hhas : g.has next = true) (hmark : w.search.mark? next = some .onPath) :
    w.step g = { w with
      frames := ⟨node, unread⟩ :: below
      search := w.search.note (w.cycleTo next) } := by
  obtain ⟨links, hlinks⟩ := Graph.has_eq_true_iff.mp hhas
  simp [Walk.step, hframes, hlinks, hmark, cycleTo]

theorem step_enter (hframes : w.frames = ⟨node, next :: unread⟩ :: below)
    (hlinks : g.links? next = some (.ids targets)) (hmark : w.search.mark? next = none) :
    w.step g = Walk.enter { w with frames := ⟨node, unread⟩ :: below } next targets := by
  simp [Walk.step, hframes, hlinks, hmark]

theorem step_leave (hframes : w.frames = ⟨node, []⟩ :: below) :
    w.step g = w.leave node below := by
  simp [Walk.step, hframes]

/-- The cycle that a link back to the path closes is the segment of the path from there on. -/
theorem Inv.cycleTo_eq (h : Inv g w log) (hmem : next ∈ w.path) :
    w.cycleTo next = w.path.dropWhile (· ≠ next) := by
  rw [cycleTo, h.position next hmem, Option.getD_some, List.dropWhile_eq_drop_findIdx_not]
  have hidx : w.path.idxOf next = w.path.findIdx fun id => !decide (id ≠ next) := by
    rw [List.idxOf]
    congr 1
    funext id
    by_cases h : id = next <;> simp [h]
  rw [hidx]

/-- Steps lead from a walk to the leaving of the task `node`, where the search has become `d`. -/
def Finishes (g : Graph) (w : Walk) (node : String) (below : List Frame) (d : Descent) : Prop :=
  ∃ w' log, Reaches g w w' ∧ Inv g w' log ∧ w'.frames = ⟨node, []⟩ :: below ∧ w'.search.shade = d

theorem Finishes.of_step {d : Descent} (hframes : w.frames ≠ [])
    (h : (w.step g).Finishes g node below d) : w.Finishes g node below d := by
  obtain ⟨v, log, hsteps, hrest⟩ := h
  exact ⟨v, log, .of_step hframes hsteps, hrest⟩

/-- A walk that enters a task, finishes it and leaves it is back where it entered it, with the task
done; it finishes if it does so from there. -/
theorem Finishes.of_enter {rest : List String} {d e : Descent} (h : Inv g w log)
    (hframes : w.frames = ⟨node, next :: rest⟩ :: below)
    (hinner : (w.step g).Finishes g next (⟨node, rest⟩ :: below) e)
    (hback : ∀ {v : Walk} {log : List Cycle}, Inv g v log → v.frames = ⟨node, rest⟩ :: below →
      v.path = w.path → v.search.shade = e.paint next .black → v.Finishes g node below d) :
    w.Finishes g node below d := by
  obtain ⟨v, log, hsteps, hv, hvframes, hvshade⟩ := hinner
  have hleave := step_leave (g := g) hvframes
  obtain ⟨w', log', hsteps', hrest⟩ : (v.step g).Finishes g node below d := by
    refine hback hv.step ?_ ?_ ?_ <;> rw [hleave]
    · rfl
    · show v.path.dropLast = w.path
      rw [hv.path_concat hvframes, List.dropLast_concat, h.path_concat hframes, List.map_cons,
        List.reverse_cons]
    · rw [Walk.leave, ← hvshade, Search.shade_setMark]
      rfl
  exact ⟨w', log', .of_step (by simp [hframes])
    (hsteps.trans (Reaches.of_step (by simp [hvframes]) hsteps')), hrest⟩

/-- **A walk at a task with links to read does what the recursion does with them**, and then stands
at that task with all its links read. -/
theorem finishes_follow (hg : g.Readable) {path : List String} {d : Descent} (h : Inv g w log)
    (hframes : w.frames = ⟨node, targets⟩ :: below) (hpath : w.path = path)
    (hshade : w.search.shade = d) :
    w.Finishes g node below (Descent.follow g path targets d).1 := by
  fun_induction Descent.follow g path targets d generalizing w log node below with
  | case1 => exact ⟨w, log, .refl, h, hframes, hshade⟩
  | case2 path next rest d hkey hcolour ih =>
    have hmark : w.search.mark? next = some .done := Search.mark?_of_colour (hshade ▸ hcolour)
    have hstep := step_skip (g := g) hframes fun _ => hmark
    refine .of_step (by simp [hframes]) (ih h.step ?_ ?_ ?_) <;> rw [hstep]
    · exact hpath
    · exact hshade
  | case3 path next rest d hkey hcolour ih =>
    have hmark : w.search.mark? next = some .onPath := Search.mark?_of_colour (hshade ▸ hcolour)
    have hstep := step_close hframes hkey hmark
    refine .of_step (by simp [hframes]) (ih h.step ?_ ?_ ?_) <;> rw [hstep]
    · exact hpath
    · show (w.search.note (w.cycleTo next)).shade = _
      rw [Search.shade_note h.logs, h.cycleTo_eq ((h.onPath next).mp hmark), hshade, hpath]
  | case4 path next rest d hkey hcolour e he heq ihdeeper ih =>
    have hmark : w.search.mark? next = none := Search.mark?_of_colour (hshade ▸ hcolour)
    have hstep := step_enter hframes (hg.links?_eq_targets hkey) hmark
    have hinner : (w.step g).Finishes g next (⟨node, rest⟩ :: below) e := by
      rw [heq] at ihdeeper
      refine ihdeeper h.step ?_ ?_ ?_ <;> rw [hstep]
      · rfl
      · rw [Walk.enter, hpath]
      · rw [Walk.enter, ← hshade, Search.shade_setMark]
        rfl
    exact .of_enter h hframes hinner fun hv hvframes hvpath hvshade =>
      ih hv hvframes (hvpath.trans hpath) hvshade
  | case5 path next rest d hkey ih =>
    have hstep := step_skip (g := g) hframes fun hhas => absurd hhas hkey
    refine .of_step (by simp [hframes]) (ih h.step ?_ ?_ ?_) <;> rw [hstep]
    · exact hpath
    · exact hshade

end Walk

/-! ## Whole searches -/

namespace Graph

variable {g : Graph} {s : Search} {log : List Cycle} {root : String} {links : Links}

/-- **A visit is the recursive search from its root.** -/
theorem shade_visit (hg : g.Readable) (h : s.Rests g log) (hkey : g.has root = true)
    (hlinks : s.mark? root = none → g.links? root = some links) :
    (g.visit s root links).shade = Descent.explore g s.shade root := by
  cases hmark : s.mark? root with
  | some m =>
    have hmet : s.shade.colour root ≠ .white := by
      rw [Search.colour_shade, hmark]
      cases m <;> decide
    simp [visit, hmark, Descent.explore, hmet]
  | none =>
    have hwhite : s.shade.colour root = .white := by rw [Search.colour_shade, hmark]; rfl
    have htargets := hg.links?_eq_targets hkey
    obtain rfl : links = .ids (g.targets root) :=
      Option.some.inj ((hlinks hmark).symm.trans htargets)
    obtain ⟨w, log', hsteps, hw, hframes, hshade⟩ := Walk.finishes_follow hg (h.start htargets)
      rfl rfl (Search.shade_setMark s root .onPath)
    have hleave := Walk.step_leave (g := g) hframes
    have hreaches : Walk.Reaches g (Walk.start s root (g.targets root)) (w.leave root []) :=
      hsteps.trans (hleave ▸ Walk.Reaches.of_step (by simp [hframes]) .refl)
    rw [visit, if_neg (by simp [hmark]), Descent.explore, if_pos hwhite]
    show ((Walk.start s root (g.targets root)).run g g.walkFuel).search.shade = _
    rw [hreaches.run_eq rfl (Walk.work_start_le htargets hmark), Walk.leave, Search.shade_setMark,
      hshade]
    rfl

/-- **Visits of the rest of a graph are recursive searches from its tasks**, one after the other. -/
theorem shade_foldl_visit (hg : g.Readable) : ∀ (before rest : Graph) (s : Search)
    (log : List Cycle), g = before ++ rest → s.Rests g log →
    (∀ e ∈ before, e.2 ≠ .unreadable → (s.mark? e.1).isSome) →
      (rest.foldl (fun s (root, links) => g.visit s root links) s).shade
        = rest.keys.foldl (Descent.explore g) s.shade
  | _, [], _, _, _, _, _ => rfl
  | before, (root, links) :: rest, s, log, hsplit, h, hmarked => by
    have hmem : (root, links) ∈ g := by simp [hsplit]
    have hreadable : links ≠ .unreadable := hg _ hmem
    have hlinks : s.mark? root = none → g.links? root = some links := fun hmark =>
      hg.consistent.links?_of_unmarked hsplit hmarked hmark hreadable
    obtain ⟨targets, htargets⟩ := hg.links? (List.mem_map_of_mem hmem)
    have hvisit := shade_visit hg h (has_eq_true_iff.mpr ⟨_, htargets⟩) hlinks
    rw [List.foldl_cons, shade_foldl_visit hg (before ++ [(root, links)]) rest _ _
      (by simpa using hsplit) (h.visit fun hmark _ => hlinks hmark), hvisit]
    · rfl
    · intro e he hreadable
      rcases List.mem_append.mp he with he | he
      · exact isSome_mark?_visit (hmarked e he hreadable)
      · obtain rfl := List.mem_singleton.mp he
        exact isSome_mark?_visit_self hreadable

/-- **The cycles of a graph are those of the recursive depth-first search**, in the same order. -/
theorem cycles_eq_descend (g : Graph) (hg : g.Readable) : g.cycles = g.descend := by
  have hshade := shade_foldl_visit hg [] g _ _ rfl (Search.Rests.empty g) (by simp)
  exact congrArg Descent.cycles hshade

/-- Two loops through one task, a link to no task, and a task that leads into both. -/
theorem cycles_eq_descend_overlapping :
    let g : Graph := [("a", .ids ["b", "ghost", "c"]), ("b", .ids ["a"]), ("c", .ids ["b", "a"]),
      ("d", .ids ["c", "d"])]
    g.Readable ∧ g.cycles = [["a", "b"], ["a", "c"], ["d"]] ∧ g.cycles = g.descend := by
  intro g
  have hg : g.Readable := by decide
  exact ⟨hg, by decide, cycles_eq_descend g hg⟩

end Graph

end Taskboard
