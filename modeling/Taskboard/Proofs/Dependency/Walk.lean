import Taskboard.Proofs.Dependency.Loop

/-!
# Proofs/Dependency/Walk — what holds at every step of a walk

A walk closes a cycle whenever it reads a link back to its path (`Walk.closes`); the log of a search
is the list of all cycles closed so far, noted or not.  `Walk.Inv` is the invariant of the machine
together with its log: the frames spell the path, `position` is the index map of the path, exactly
the path is marked `onPath`, and the links read so far lead to tasks that are done, to the path's
next task, or around a cycle of the log.

`Inv.step` says that each step keeps the invariant, the log growing by what the step closes.
-/

open Relation

namespace Taskboard

/-! ## Searches -/

namespace Search

variable {s : Search} {id k : String} {m : Mark}

theorem mark?_setMark : (s.setMark id m).mark? k = if k = id then some m else s.mark? k := by
  by_cases h : k = id
  · subst h
    simp [mark?, setMark]
  · simp [mark?, setMark, List.lookup_cons, beq_eq_false_iff_ne.mpr h, h]

@[simp] theorem mark?_note (c : Cycle) : (s.note c).mark? k = s.mark? k := by
  unfold note
  split <;> rfl

theorem mark?_finish (path : List String) :
    (s.finish path).mark? k = if k ∈ path then some .done else s.mark? k := by
  induction path generalizing s with
  | nil => simp [finish]
  | cons a as ih =>
    rw [finish, List.foldl_cons]
    refine ih.trans ?_
    rw [mark?_setMark]
    by_cases hk : k ∈ as <;> by_cases ha : k = a <;> simp [hk, ha]

@[simp] theorem found_finish (path : List String) : (s.finish path).found = s.found := by
  induction path generalizing s with
  | nil => rfl
  | cons a as ih => exact ih

@[simp] theorem signatures_finish (path : List String) :
    (s.finish path).signatures = s.signatures := by
  induction path generalizing s with
  | nil => rfl
  | cons a as ih => exact ih

/-- What a search has noted, against all cycles that it closed. -/
structure Logs (g : Graph) (s : Search) (log : List Cycle) : Prop where
  genuine : ∀ c ∈ log, g.IsCycle c
  found_subset : ∀ c ∈ s.found, c ∈ log
  signatures_eq : s.signatures = (s.found.map Cycle.signature).reverse
  nodup : s.signatures.Nodup
  covered : ∀ c ∈ log, c.signature ∈ s.signatures

variable {g : Graph} {log : List Cycle}

theorem Logs.congr {t : Search} (h : s.Logs g log) (hfound : t.found = s.found)
    (hsignatures : t.signatures = s.signatures) : t.Logs g log := by
  refine ⟨h.genuine, ?_, ?_, ?_, ?_⟩ <;> simp only [hfound, hsignatures]
  · exact h.found_subset
  · exact h.signatures_eq
  · exact h.nodup
  · exact h.covered

/-- **A closed cycle is noted unless its signature is there.** -/
theorem Logs.note (h : s.Logs g log) {c : Cycle} (hc : g.IsCycle c) :
    (s.note c).Logs g (log ++ [c]) := by
  have hgenuine : ∀ d ∈ log ++ [c], g.IsCycle d := fun d hd => by
    rcases List.mem_append.mp hd with hd | hd
    · exact h.genuine d hd
    · exact List.mem_singleton.mp hd ▸ hc
  by_cases hseen : c.signature ∈ s.signatures
  · have hnote : s.note c = s := if_pos (List.contains_iff_mem.mpr hseen)
    rw [hnote]
    refine ⟨hgenuine, fun d hd => List.mem_append_left _ (h.found_subset d hd), h.signatures_eq,
      h.nodup, fun d hd => ?_⟩
    rcases List.mem_append.mp hd with hd | hd
    · exact h.covered d hd
    · exact List.mem_singleton.mp hd ▸ hseen
  · have hnote : s.note c
        = { s with found := s.found ++ [c], signatures := c.signature :: s.signatures } :=
      if_neg fun hcontains => hseen (List.contains_iff_mem.mp hcontains)
    rw [hnote]
    refine ⟨hgenuine, fun d hd => ?_, ?_, List.nodup_cons.mpr ⟨hseen, h.nodup⟩, fun d hd => ?_⟩
    · rcases List.mem_append.mp hd with hd | hd
      · exact List.mem_append_left _ (h.found_subset d hd)
      · exact List.mem_append_right _ hd
    · simp [h.signatures_eq]
    · rcases List.mem_append.mp hd with hd | hd
      · exact List.mem_cons_of_mem _ (h.covered d hd)
      · exact List.mem_singleton.mp hd ▸ List.mem_cons_self

end Search

/-- Every task that is reached from a task has readable links. -/
def Graph.Legible (g : Graph) (u : String) : Prop :=
  ∀ v, ReflTransGen g.Edge u v → g.links? v ≠ some .unreadable

theorem Graph.Legible.of_edge {g : Graph} {u v : String} (h : g.Legible u) (hedge : g.Edge u v) :
    g.Legible v := fun w hw => h w (hw.head hedge)

namespace Walk

/-! ## The invariant -/

/-- The cycle that the next step closes, if it closes one. -/
def closes (g : Graph) (w : Walk) : List Cycle :=
  match w.frames with
  | ⟨_, next :: _⟩ :: _ =>
    if g.has next ∧ w.search.mark? next = some .onPath then [w.cycleTo next] else []
  | _ => []

/-- What the frames have read, given the task that the path goes on to: the tasks read lie next on
the path, are done, or share a cycle of the log with the reader. -/
def Explored (g : Graph) (s : Search) (log : List Cycle) : Option String → List Frame → Prop
  | _, [] => True
  | child, f :: fs =>
    (∃ read, g.links? f.node = some (.ids (read ++ f.unread)) ∧ (∀ c ∈ child, c ∈ read) ∧
      ∀ v ∈ read, g.has v = true →
        child = some v ∨ s.mark? v = some .done ∨ ∃ c ∈ log, f.node ∈ c ∧ v ∈ c) ∧
      Explored g s log (some f.node) fs

/-- **The invariant of a walk** and of the cycles closed so far. -/
structure Inv (g : Graph) (w : Walk) (log : List Cycle) : Prop where
  logs : w.search.Logs g log
  path_eq : w.path = (w.frames.map Frame.node).reverse
  nodup : w.path.Nodup
  position : ∀ id ∈ w.path, w.position.lookup id = some (w.path.idxOf id)
  onPath : ∀ id, w.search.mark? id = some .onPath ↔ id ∈ w.path
  explored : Explored g w.search log none w.frames
  /-- No endless path of uncut edges leaves a task that is done. -/
  settled : ∀ id, w.search.mark? id = some .done → g.Legible id → Acc (g.Uncut log) id

/-! ## What the frames have read -/

variable {g : Graph} {s : Search} {log : List Cycle} {w : Walk}

/-- More marks of done tasks and more cycles are no harm. -/
theorem Explored.mono {t : Search} {more : List Cycle}
    (hmarks : ∀ id, s.mark? id = some .done → t.mark? id = some .done)
    (hlog : ∀ c ∈ log, c ∈ more) : ∀ {child : Option String} {fs : List Frame},
      Explored g s log child fs → Explored g t more child fs
  | _, [], _ => trivial
  | _, f :: fs, ⟨⟨read, hlinks, hchild, hread⟩, hrest⟩ => by
    refine ⟨⟨read, hlinks, hchild, fun v hv hhas => ?_⟩, hrest.mono hmarks hlog⟩
    rcases hread v hv hhas with h | h | ⟨c, hc, hcut⟩
    · exact Or.inl h
    · exact Or.inr (Or.inl (hmarks v h))
    · exact Or.inr (Or.inr ⟨c, hlog c hc, hcut⟩)

/-- A link is read: its target is the next task of the path, is done, or is on a common cycle. -/
theorem Explored.read {node next : String} {unread : List String} {below : List Frame}
    (h : Explored g s log none (⟨node, next :: unread⟩ :: below)) {child : Option String}
    (hchild : ∀ c ∈ child, c = next) (hnext : g.has next = true →
      child = some next ∨ s.mark? next = some .done ∨ ∃ c ∈ log, node ∈ c ∧ next ∈ c) :
    Explored g s log child (⟨node, unread⟩ :: below) := by
  obtain ⟨⟨read, hlinks, -, hread⟩, hbelow⟩ := h
  refine ⟨⟨read ++ [next], by simpa using hlinks, fun c hc => ?_, fun v hv hhas => ?_⟩, hbelow⟩
  · simp [hchild c hc]
  · rcases List.mem_append.mp hv with hv | hv
    · rcases hread v hv hhas with h | h
      · cases h
      · exact Or.inr h
    · obtain rfl := List.mem_singleton.mp hv
      exact hnext hhas

/-- The next task of the path is left: from then on it is done. -/
theorem Explored.back {u : String} (hu : s.mark? u = some .done) : ∀ {fs : List Frame},
    Explored g s log (some u) fs → Explored g s log none fs
  | [], _ => trivial
  | _ :: _, ⟨⟨read, hlinks, _, hread⟩, hrest⟩ => by
    refine ⟨⟨read, hlinks, by simp, fun v hv hhas => ?_⟩, hrest⟩
    rcases hread v hv hhas with h | h
    · exact Or.inr (Or.inl (Option.some.inj h ▸ hu))
    · exact Or.inr h

/-- Each frame's task depends on the task of the frame above it. -/
theorem Explored.isChain : ∀ {child : Option String} {fs : List Frame},
    Explored g s log child fs → (fs.map Frame.node).IsChain fun above below => g.Edge below above
  | _, [], _ => List.isChain_nil
  | _, [_], _ => List.isChain_singleton _
  | _, f :: f' :: fs, ⟨⟨_, hlinks, _⟩, hrest⟩ => by
    obtain ⟨read, hlinks', hchild, -⟩ := hrest.1
    refine List.isChain_cons_cons.mpr ⟨⟨_, hlinks', ?_, Graph.has_eq_true_iff.mpr ⟨_, hlinks⟩⟩,
      hrest.isChain⟩
    exact List.mem_append_left _ (hchild _ rfl)

theorem mark?_enter (w : Walk) (id : String) (targets : List String) (k : String) :
    (w.enter id targets).search.mark? k = if k = id then some .onPath else w.search.mark? k :=
  Search.mark?_setMark

theorem mark?_leave (w : Walk) (id : String) (below : List Frame) (k : String) :
    (w.leave id below).search.mark? k = if k = id then some .done else w.search.mark? k :=
  Search.mark?_setMark

theorem mark?_abandon (w : Walk) (id k : String) : (w.abandon id).search.mark? k
    = if k ∈ w.path ++ [id] then some .done else w.search.mark? k :=
  Search.mark?_finish _

theorem lookup_filter_ne {k id : String} (h : k ≠ id) (es : List (String × Nat)) :
    (es.filter (·.1 ≠ id)).lookup k = es.lookup k := by
  induction es with
  | nil => rfl
  | cons e es ih =>
    obtain ⟨l, n⟩ := e
    by_cases hl : l = id
    · subst hl
      simpa [List.lookup_cons, beq_eq_false_iff_ne.mpr h] using ih
    · have hkeep : ((l, n) :: es).filter (·.1 ≠ id) = (l, n) :: es.filter (·.1 ≠ id) :=
        List.filter_cons_of_pos (by simpa using hl)
      rw [hkeep, List.lookup_cons, List.lookup_cons, ih]

namespace Inv

theorem mem_keys_of_mem_frames : ∀ {child : Option String} {fs : List Frame},
    Explored g s log child fs → ∀ {f : Frame}, f ∈ fs → f.node ∈ g.keys
  | _, f' :: _, ⟨⟨_, hlinks, _⟩, hrest⟩, f, hf => by
    rcases List.mem_cons.mp hf with rfl | hf
    · exact Graph.mem_keys_of_has (Graph.has_eq_true_iff.mpr ⟨_, hlinks⟩)
    · exact mem_keys_of_mem_frames hrest hf

/-- The path runs along edges. -/
theorem isChain (h : Inv g w log) : w.path.IsChain g.Edge := by
  rw [h.path_eq, List.isChain_reverse]
  exact h.explored.isChain

/-- The path ends in the task of the innermost frame, behind those of the frames below. -/
theorem path_concat (h : Inv g w log) {f : Frame} {below : List Frame}
    (hframes : w.frames = f :: below) :
    w.path = (below.map Frame.node).reverse ++ [f.node] := by
  rw [h.path_eq, hframes, List.map_cons, List.reverse_cons]

/-- The innermost frame holds the last task of the path. -/
theorem getLast?_path (h : Inv g w log) {f : Frame} {below : List Frame}
    (hframes : w.frames = f :: below) : w.path.getLast? = some f.node := by
  rw [h.path_concat hframes, List.getLast?_concat]

variable {node next : String} {unread targets : List String} {below : List Frame}

/-- A link that is not read yet is an edge if it leads to a task. -/
theorem edge (h : Inv g w log) (hframes : w.frames = ⟨node, next :: unread⟩ :: below)
    (hhas : g.has next = true) : g.Edge node next := by
  have hexplored := h.explored
  rw [hframes] at hexplored
  obtain ⟨⟨read, hlinks, -⟩, -⟩ := hexplored
  exact ⟨_, hlinks, by simp, hhas⟩

/-! ### Reading a link -/

theorem skip (h : Inv g w log) (hframes : w.frames = ⟨node, next :: unread⟩ :: below)
    (hskip : g.has next = true → w.search.mark? next = some .done) :
    Inv g { w with frames := ⟨node, unread⟩ :: below } log where
  logs := h.logs
  path_eq := by rw [h.path_eq, hframes]; rfl
  nodup := h.nodup
  position := h.position
  onPath := h.onPath
  explored := (hframes ▸ h.explored).read (by simp) fun hhas => Or.inr (Or.inl (hskip hhas))
  settled := h.settled

/-- **A link back to the path closes a cycle**, which holds both ends of the link. -/
theorem isCycle_cycleTo (h : Inv g w log) (hframes : w.frames = ⟨node, next :: unread⟩ :: below)
    (hhas : g.has next = true) (hmem : next ∈ w.path) :
    g.IsCycle (w.cycleTo next) ∧ node ∈ w.cycleTo next ∧ next ∈ w.cycleTo next := by
  have hcycle : w.cycleTo next = w.path.drop (w.path.idxOf next) := by
    rw [cycleTo, h.position next hmem, Option.getD_some]
  have hlt : w.path.idxOf next < w.path.length := List.idxOf_lt_length_of_mem hmem
  have hfirst : (w.cycleTo next).head? = some next := by
    rw [hcycle, List.head?_drop, List.getElem?_idxOf hmem]
  have hlast : (w.cycleTo next).getLast? = some node := by
    rw [hcycle, List.getLast?_drop, if_neg (by omega), h.getLast?_path hframes]
  refine ⟨⟨fun hnil => ?_, ?_, fun id hid => ?_, ?_, ?_⟩, List.mem_of_getLast? hlast,
    List.mem_of_head? hfirst⟩
  · rw [hnil] at hfirst
    cases hfirst
  · exact hcycle ▸ h.nodup.drop
  · obtain ⟨f, hf, rfl⟩ : ∃ f ∈ w.frames, f.node = id := by
      rw [hcycle, h.path_eq] at hid
      simpa using List.mem_of_mem_drop hid
    exact mem_keys_of_mem_frames h.explored hf
  · exact hcycle ▸ h.isChain.drop _
  · intro last hl first hf
    obtain rfl : node = last := Option.some.inj (hlast.symm.trans hl)
    obtain rfl : next = first := Option.some.inj (hfirst.symm.trans hf)
    exact h.edge hframes hhas

theorem close (h : Inv g w log) (hframes : w.frames = ⟨node, next :: unread⟩ :: below)
    (hhas : g.has next = true) (hmark : w.search.mark? next = some .onPath) :
    Inv g { w with
      frames := ⟨node, unread⟩ :: below
      search := w.search.note (w.cycleTo next) } (log ++ [w.cycleTo next]) := by
  obtain ⟨hcycle, hnode, hnext⟩ := h.isCycle_cycleTo hframes hhas ((h.onPath next).mp hmark)
  have hsub : ∀ c ∈ log, c ∈ log ++ [w.cycleTo next] := fun c hc => List.mem_append_left _ hc
  refine ⟨h.logs.note hcycle, ?_, h.nodup, h.position, fun id => ?_, ?_,
    fun id hdone hlegible => ?_⟩
  · rw [h.path_eq, hframes]
    rfl
  · rw [Search.mark?_note]
    exact h.onPath id
  · refine ((hframes ▸ h.explored).mono (fun id hid => ?_) hsub).read (by simp) fun _ => ?_
    · rwa [Search.mark?_note]
    · exact Or.inr (Or.inr ⟨_, by simp, hnode, hnext⟩)
  · rw [Search.mark?_note] at hdone
    exact Graph.acc_uncut_mono hsub (h.settled id hdone hlegible)

/-! ### Entering and leaving a task -/

theorem enter (h : Inv g w log) (hframes : w.frames = ⟨node, next :: unread⟩ :: below)
    (hlinks : g.links? next = some (.ids targets)) (hmark : w.search.mark? next = none) :
    Inv g (Walk.enter { w with frames := ⟨node, unread⟩ :: below } next targets) log := by
  have hnew : next ∉ w.path := fun hmem => by
    rw [(h.onPath next).mpr hmem] at hmark
    cases hmark
  have hdone : ∀ id,
      (Walk.enter { w with frames := ⟨node, unread⟩ :: below } next targets).search.mark? id
        = some .done ↔ w.search.mark? id = some .done := fun id => by
    rw [mark?_enter]
    split
    · rename_i hid
      simp [hid, hmark]
    · rfl
  refine ⟨h.logs.congr rfl rfl, ?_, ?_, fun id hid => ?_, fun id => ?_, ?_, fun id hid => ?_⟩
  · simp [Walk.enter, h.path_eq, hframes]
  · exact List.nodup_append.mpr ⟨h.nodup, by simp, fun a ha b hb => by
      rintro rfl
      exact hnew (List.mem_singleton.mp hb ▸ ha)⟩
  · rcases List.mem_append.mp hid with hid | hid
    · have hne : id ≠ next := fun he => hnew (he ▸ hid)
      have hlookup := h.position id hid
      simp only [Walk.enter, List.lookup_cons, beq_eq_false_iff_ne.mpr hne, hlookup,
        List.idxOf_append_of_mem hid]
    · obtain rfl := List.mem_singleton.mp hid
      simp [Walk.enter, List.idxOf_append_of_notMem hnew]
  · show _ ↔ id ∈ w.path ++ [next]
    rw [mark?_enter, List.mem_append, List.mem_singleton, ← h.onPath id]
    split <;> simp_all
  · refine ⟨⟨[], by simpa using hlinks, by simp, by simp⟩, ?_⟩
    refine (Explored.mono (fun id => (hdone id).mpr) (fun _ hc => hc) (hframes ▸ h.explored)).read
      (by simp) fun _ => Or.inl rfl
  · exact h.settled id ((hdone id).mp hid)

/-- **A task with all its links read** starts no endless path of uncut edges: each link leads to a
task that is done or runs around a cycle of the log. -/
theorem acc_of_read (h : Inv g w log) (hframes : w.frames = ⟨node, []⟩ :: below)
    (hlegible : g.Legible node) : Acc (g.Uncut log) node := by
  obtain ⟨⟨read, hlinks, -, hread⟩, -⟩ := hframes ▸ h.explored
  refine ⟨_, fun v ⟨hedge, huncut⟩ => ?_⟩
  have ⟨targets, htargets, hv, hhas⟩ := hedge
  obtain rfl : read ++ [] = targets := Links.ids.inj (Option.some.inj (hlinks.symm.trans htargets))
  rcases hread v (by simpa using hv) hhas with hchild | hdone | ⟨c, hc, hid, hvc⟩
  · cases hchild
  · exact h.settled v hdone (hlegible.of_edge hedge)
  · exact absurd hvc (huncut c hc hid)

/-- **A task is left with all its links read**: uncut paths from it end as those from the tasks done
before do. -/
theorem leave (h : Inv g w log) (hframes : w.frames = ⟨node, []⟩ :: below) :
    Inv g (w.leave node below) log := by
  have hpath := h.path_concat hframes
  have hexplored : Explored g w.search log none (⟨node, []⟩ :: below) := hframes ▸ h.explored
  have hdrop : w.path.dropLast = (below.map Frame.node).reverse := by
    rw [hpath, List.dropLast_concat]
  have hnodup := h.nodup
  rw [hpath] at hnodup
  have hnot : node ∉ (below.map Frame.node).reverse := fun hmem =>
    (List.nodup_append.mp hnodup).2.2 node hmem node (by simp) rfl
  refine ⟨h.logs.congr rfl rfl, hdrop, ?_, fun id hid => ?_, fun id => ?_, ?_,
    fun id hid hlegible => ?_⟩
  · show w.path.dropLast.Nodup
    rw [hdrop]
    exact (List.nodup_append.mp hnodup).1
  · show (w.position.filter (·.1 ≠ node)).lookup id = some (w.path.dropLast.idxOf id)
    change id ∈ w.path.dropLast at hid
    rw [hdrop] at hid ⊢
    have hne : id ≠ node := fun he => hnot (he ▸ hid)
    rw [lookup_filter_ne hne, h.position id (hpath ▸ List.mem_append_left _ hid), hpath,
      List.idxOf_append_of_mem hid]
  · show _ ↔ id ∈ w.path.dropLast
    rw [hdrop, mark?_leave]
    have honPath := h.onPath id
    rw [hpath, List.mem_append, List.mem_singleton] at honPath
    split
    · rename_i he
      subst he
      simpa using hnot
    · rename_i hne
      simpa [hne] using honPath
  · refine (Explored.mono (fun id hid => ?_) (fun _ hc => hc) hexplored.2).back ?_
    · rw [mark?_leave, hid, ite_self]
    · rw [mark?_leave, if_pos rfl]
  · rw [mark?_leave] at hid
    split at hid
    · rename_i he
      exact he ▸ h.acc_of_read hframes (he ▸ hlegible)
    · exact h.settled id hid hlegible

/-- A walk that fails leaves only tasks behind that reach unreadable links. -/
theorem abandon (h : Inv g w log) (hframes : w.frames = ⟨node, next :: unread⟩ :: below)
    (hlinks : g.links? next = some .unreadable) :
    Inv g (Walk.abandon { w with frames := ⟨node, unread⟩ :: below } next) log := by
  have hhas : g.has next = true := Graph.has_eq_true_iff.mpr ⟨_, hlinks⟩
  have hreach : ∀ id ∈ w.path ++ [next], ¬ g.Legible id := by
    intro id hid hlegible
    refine hlegible next ?_ hlinks
    rcases List.mem_append.mp hid with hid | hid
    · exact (Graph.reflTransGen_getLast h.isChain hid _ (h.getLast?_path hframes)).tail
        (h.edge hframes hhas)
    · exact List.mem_singleton.mp hid ▸ .refl
  refine ⟨h.logs.congr (Search.found_finish _) (Search.signatures_finish _), rfl, List.nodup_nil,
    by simp [Walk.abandon], fun id => ?_, trivial, fun id hid hlegible => ?_⟩
  · show _ ↔ id ∈ []
    rw [mark?_abandon]
    split
    · simp
    · rename_i hout
      have hpath : id ∉ w.path := fun hmem => hout (List.mem_append_left _ hmem)
      simpa [h.onPath id] using hpath
  · rw [mark?_abandon] at hid
    split at hid
    · rename_i hmem
      exact absurd hlegible (hreach id hmem)
    · exact h.settled id hid hlegible

/-! ### All steps -/

/-- **Each step keeps the invariant.** -/
theorem step (h : Inv g w log) : Inv g (w.step g) (log ++ w.closes g) := by
  rcases hframes : w.frames with _ | ⟨⟨node, _ | ⟨next, unread⟩⟩, below⟩
  · simpa [Walk.step, closes, hframes] using h
  · simpa [Walk.step, closes, hframes] using h.leave hframes
  · cases hlinks : g.links? next with
    | none =>
      have hhas : g.has next = false := by simp [Graph.has, hlinks]
      simpa [Walk.step, closes, hframes, hlinks, hhas] using h.skip hframes (by simp [hhas])
    | some links =>
      have hhas : g.has next = true := Graph.has_eq_true_iff.mpr ⟨_, hlinks⟩
      cases hmark : w.search.mark? next with
      | none =>
        cases links with
        | ids targets =>
          simpa [Walk.step, closes, hframes, hlinks, hmark] using h.enter hframes hlinks hmark
        | unreadable =>
          simpa [Walk.step, closes, hframes, hlinks, hmark] using h.abandon hframes hlinks
      | some m =>
        cases m with
        | done =>
          simpa [Walk.step, closes, hframes, hlinks, hmark] using h.skip hframes fun _ => hmark
        | onPath =>
          simpa [Walk.step, closes, hframes, hlinks, hmark, hhas]
            using h.close hframes hhas hmark

end Inv

end Walk

end Taskboard
