import Taskboard.Store.Tree

/-!
# Proofs/Store/Files — a file is found where it was written

* `FileTree.file?_write?` — **a file that is written is found under its path.**
* `FileTree.file?_of_write?_eq_none` — where no file can be written there is none, as long as every
  name in the tree is short (`FileTree.NamesShort`).
* `FileTree.makeFolders?_eq_self` — the folders of a path that leads somewhere are there already.
-/

namespace Taskboard.FileTree

variable {t u : FileTree} {p place q : Path}

/-! ## What stands at a place -/

theorem nodeAt?_put_self (node : FileNode) (h : place.isAnchor = false) :
    (t.put place node).nodeAt? place = some node := by
  have hfind : ∀ nodes : List (Path × FileNode),
      ((putEntry (fun a b => decide (a = b)) place node nodes).find? fun n => n.1 = place).map
        Prod.snd = some node := by
    intro nodes
    induction nodes with
    | nil => simp [putEntry]
    | cons n nodes ih =>
      rw [putEntry]
      split <;> simp_all
  rw [nodeAt?, h, if_neg (by decide)]
  exact hfind t.nodes

theorem nodeAt?_put_of_ne (node : FileNode) (h : q ≠ place) :
    (t.put place node).nodeAt? q = t.nodeAt? q := by
  have hfind : ∀ nodes : List (Path × FileNode),
      (putEntry (fun a b => decide (a = b)) place node nodes).find? (fun n => n.1 = q)
        = nodes.find? fun n => n.1 = q := by
    intro nodes
    induction nodes with
    | nil => simp [putEntry, h.symm]
    | cons n nodes ih =>
      rw [putEntry]
      split
      next hn =>
        have hne : n.1 ≠ q := fun hq => h (hq ▸ of_decide_eq_true hn)
        simp [hne]
      next => simp [List.find?_cons, ih]
  rw [nodeAt?, nodeAt?]
  split
  · rfl
  · exact congrArg _ (hfind t.nodes)

theorem folderAt_iff : t.folderAt q = true ↔ t.nodeAt? q = some .folder := by
  unfold folderAt
  split <;> simp_all

theorem folderAt_of_isAnchor (h : q.isAnchor = true) : t.folderAt q = true := by
  rw [folderAt_iff, nodeAt?, if_pos h]

/-- A file in place of what is no folder leaves the folders as they are. -/
theorem folderAt_put_file {bytes : List UInt8} {changed : Moment} (h : t.folderAt place = false)
    (q : Path) : (t.put place (.file bytes changed)).folderAt q = t.folderAt q := by
  by_cases hq : q = place
  · subst hq
    have hanchor : q.isAnchor = false := by
      rw [← Bool.not_eq_true]
      exact fun ha => absurd (folderAt_of_isAnchor ha) (Bool.eq_false_iff.1 h)
    rw [h, folderAt, nodeAt?_put_self _ hanchor]
  · rw [folderAt, folderAt, nodeAt?_put_of_ne _ hq]

/-! ## Paths -/

/-- The place that a name leads to. -/
def next (place : Path) (name : String) : Path :=
  if name = ".." then place.parent else place.child name

theorem follow?_cons {name : String} {names : List String} :
    t.follow? place (name :: names) = some q
      ↔ t.folderAt place = true ∧ t.follow? (next place name) names = some q := by
  rw [follow?]
  split
  next h => simp [h, next]
  next h => simp [h]

theorem follow?_congr (h : ∀ q, t.folderAt q = u.folderAt q) (names : List String) :
    ∀ place, t.follow? place names = u.follow? place names := by
  induction names with
  | nil => exact fun _ => rfl
  | cons name names ih =>
    intro place
    rw [follow?, follow?, h, ih]

/-- The folders above a place are there. -/
def Reached (t : FileTree) (place : Path) : Prop :=
  ∀ k < place.names.length, t.folderAt ⟨place.lead, place.names.take k⟩ = true

theorem Reached.parent (h : t.Reached place) : t.folderAt place.parent = true := by
  rcases Nat.eq_zero_or_pos place.names.length with hzero | hpos
  · exact folderAt_of_isAnchor
      (by simp [Path.isAnchor, Path.parent, List.length_eq_zero_iff.1 hzero])
  · have := h (place.names.length - 1) (by omega)
    rwa [← List.dropLast_eq_take] at this

theorem Reached.next (h : t.Reached place) (hfolder : t.folderAt place = true) (name : String) :
    t.Reached (next place name) := by
  intro k hk
  unfold FileTree.next at hk ⊢
  split at hk
  next hup =>
    rw [if_pos hup]
    simp only [Path.parent, List.length_dropLast] at hk ⊢
    rw [List.dropLast_eq_take, List.take_take, Nat.min_eq_left (by omega)]
    exact h k (by omega)
  next hdown =>
    rw [if_neg hdown]
    simp only [Path.child, List.length_append, List.length_singleton] at hk ⊢
    rw [List.take_append_of_le_length (by omega)]
    rcases Nat.lt_or_ge k place.names.length with hlt | hge
    · exact h k hlt
    · rwa [List.take_of_length_le hge]

theorem Reached.follow? {names : List String} : ∀ {place : Path}, t.Reached place →
    t.follow? place names = some q → t.Reached q := by
  induction names with
  | nil =>
    intro place h hq
    obtain rfl := Option.some.inj hq
    exact h
  | cons name names ih =>
    intro place h hq
    obtain ⟨hfolder, hq⟩ := follow?_cons.1 hq
    exact ih (h.next hfolder name) hq

theorem reached_place? (h : t.place? p = some q) : t.Reached q :=
  Reached.follow? (fun _ hk => absurd hk (Nat.not_lt_zero _)) h

/-! ## Short names -/

/-- Every name in the tree is short. -/
def NamesShort (t : FileTree) : Prop := ∀ n ∈ t.nodes, n.1.isShort = true

theorem isShort_parent (h : q.isShort = true) : q.parent.isShort = true := by
  rw [Path.isShort, List.all_eq_true] at h ⊢
  exact fun n hn => h n (List.dropLast_subset _ hn)

theorem isShort_child {name : String} :
    (q.child name).isShort = true ↔ q.isShort = true ∧ name.utf8ByteSize ≤ Path.maxNameBytes := by
  simp [Path.isShort, Path.child]

theorem isShort_next {name : String} (h : q.isShort = true)
    (hname : name.utf8ByteSize ≤ Path.maxNameBytes) : (next q name).isShort = true := by
  unfold next
  split
  · exact isShort_parent h
  · exact isShort_child.2 ⟨h, hname⟩

theorem NamesShort.of_nodeAt? (h : t.NamesShort) (hq : (t.nodeAt? q).isSome) :
    q.isShort = true := by
  unfold nodeAt? at hq
  split at hq
  next hanchor => rw [Path.isShort, List.isEmpty_iff.1 hanchor, List.all_nil]
  next =>
    rw [Option.isSome_map, List.find?_isSome] at hq
    obtain ⟨n, hn, hnq⟩ := hq
    exact of_decide_eq_true hnq ▸ h n hn

theorem NamesShort.put (h : t.NamesShort) (node : FileNode) (hplace : place.isShort = true) :
    (t.put place node).NamesShort := by
  have hentry : ∀ nodes : List (Path × FileNode), (∀ n ∈ nodes, n.1.isShort = true) →
      ∀ n ∈ putEntry (fun a b => decide (a = b)) place node nodes, n.1.isShort = true := by
    intro nodes hnodes
    induction nodes with
    | nil => simpa [putEntry] using hplace
    | cons n nodes ih =>
      obtain ⟨hn, hrest⟩ := List.forall_mem_cons.1 hnodes
      rw [putEntry]
      split
      · exact List.forall_mem_cons.2 ⟨hn, hrest⟩
      · exact List.forall_mem_cons.2 ⟨hn, ih hrest⟩
  exact hentry t.nodes h

/-- What a path leads to, if anything stands there, is reached by short names. -/
theorem NamesShort.of_follow? (h : t.NamesShort) {names : List String} : ∀ {place : Path},
    t.follow? place names = some q → (t.nodeAt? q).isSome →
      ∀ name ∈ names, name.utf8ByteSize ≤ Path.maxNameBytes := by
  induction names with
  | nil => exact fun _ _ _ hmem => absurd hmem List.not_mem_nil
  | cons name names ih =>
    intro place hq hnode
    obtain ⟨-, hq⟩ := follow?_cons.1 hq
    refine List.forall_mem_cons.2 ⟨?_, ih hq hnode⟩
    -- the place behind the name is a folder, or what the path leads to
    have hnext : (t.nodeAt? (next place name)).isSome := by
      cases names with
      | nil =>
        obtain rfl := Option.some.inj hq
        exact hnode
      | cons more names => rw [folderAt_iff.1 (follow?_cons.1 hq).1, Option.isSome_some]
    have hshort := h.of_nodeAt? hnext
    unfold next at hshort
    split at hshort
    next hup => rw [hup]; decide
    next => exact (isShort_child.1 hshort).2

theorem isShort_follow? {names : List String} : ∀ {place : Path}, place.isShort = true →
    (∀ name ∈ names, name.utf8ByteSize ≤ Path.maxNameBytes) →
      t.follow? place names = some q → q.isShort = true := by
  induction names with
  | nil =>
    intro place h _ hq
    obtain rfl := Option.some.inj hq
    exact h
  | cons name names ih =>
    intro place h hnames hq
    obtain ⟨hname, hrest⟩ := List.forall_mem_cons.1 hnames
    exact ih (isShort_next h hname) hrest (follow?_cons.1 hq).2

theorem isShort_iff :
    p.isShort = true ↔ ∀ name ∈ p.names, name.utf8ByteSize ≤ Path.maxNameBytes := by
  simp [Path.isShort]

/-! ## Files -/

theorem file?_eq (h : t.place? p = some q) : t.file? p = match t.nodeAt? q with
    | some (.file bytes changed) => some (bytes, changed)
    | _ => none := by
  unfold file? node?
  rw [h]
  rfl

theorem node?_of_file? {bytes : List UInt8} {changed : Moment}
    (h : t.file? p = some (bytes, changed)) : t.node? p = some (.file bytes changed) := by
  unfold file? at h
  split at h
  next hnode =>
    obtain ⟨rfl, rfl⟩ := Prod.mk.inj (Option.some.inj h)
    exact hnode
  next => exact absurd h (by simp)

/-- All that writing a file does. -/
theorem write?_eq_some {bytes : List UInt8} {changed : Moment} :
    t.write? p bytes changed = some u ↔ ∃ q, t.place? p = some q ∧ t.folderAt q = false ∧
      t.folderAt q.parent = true ∧ p.isShort = true ∧ u = t.put q (.file bytes changed) := by
  simp only [write?, Option.bind_eq_some_iff]
  refine exists_congr fun q => and_congr_right fun _ => ?_
  cases t.folderAt q <;> cases t.folderAt q.parent <;> cases p.isShort <;> simp [eq_comm]

/-- **A file that is written is found under its path.** -/
theorem file?_write? {bytes : List UInt8} {changed : Moment}
    (h : t.write? p bytes changed = some u) : u.file? p = some (bytes, changed) := by
  obtain ⟨q, hq, hfolder, -, -, rfl⟩ := write?_eq_some.1 h
  have hplace : (t.put q (.file bytes changed)).place? p = some q := by
    rw [← hq, place?, place?]
    exact follow?_congr (folderAt_put_file hfolder) _ _
  have hanchor : q.isAnchor = false := by
    rw [← Bool.not_eq_true]
    exact fun ha => absurd (folderAt_of_isAnchor ha) (Bool.eq_false_iff.1 hfolder)
  rw [file?_eq hplace, nodeAt?_put_self _ hanchor]

/-- **Where no file can be written there is none.** -/
theorem file?_of_write?_eq_none (hshort : t.NamesShort) {bytes : List UInt8} {changed : Moment}
    (h : t.write? p bytes changed = none) : t.file? p = none := by
  cases hq : t.place? p with
  | none => rw [file?, node?, hq]; rfl
  | some q =>
    rw [file?_eq hq]
    split
    next found stamp hnode =>
      have hfolder : t.folderAt q = false := by rw [folderAt, hnode]
      have hname := hshort.of_follow? hq (by rw [hnode, Option.isSome_some])
      have hwrite : t.write? p bytes changed = some (t.put q (.file bytes changed)) :=
        write?_eq_some.2 ⟨q, hq, hfolder, (reached_place? hq).parent, isShort_iff.2 hname, rfl⟩
      exact absurd (h.symm.trans hwrite) (by simp)
    next => rfl

theorem NamesShort.write? (hshort : t.NamesShort) {bytes : List UInt8} {changed : Moment}
    (h : t.write? p bytes changed = some u) : u.NamesShort := by
  obtain ⟨q, hq, -, -, hp, rfl⟩ := write?_eq_some.1 h
  exact hshort.put _ (isShort_follow? (by simp [Path.isShort]) (isShort_iff.1 hp) hq)

/-! ## Folders -/

theorem makeFrom?_of_follow? {names : List String} {last : String} : ∀ {place : Path},
    t.follow? place (names ++ [last]) = some q → t.makeFrom? place names = some t := by
  induction names with
  | nil => exact fun _ => rfl
  | cons name names ih =>
    intro place h
    have hbehind := (follow?_cons.1 h).2
    have hnext : t.nodeAt? (next place name) = some .folder := by
      rw [← folderAt_iff]
      cases names with
      | nil => exact (follow?_cons.1 hbehind).1
      | cons more names => exact (follow?_cons.1 hbehind).1
    rw [makeFrom?]
    unfold next at hnext
    rw [hnext]
    exact ih hbehind

/-- **The folders of a path that leads to something are there already.** -/
theorem makeFolders?_eq_self (hshort : t.NamesShort) (h : (t.node? p).isSome) :
    t.makeFolders? p.parent = some t := by
  obtain ⟨node, hnode⟩ := Option.isSome_iff_exists.1 h
  obtain ⟨q, hq, hnode⟩ := Option.bind_eq_some_iff.1 hnode
  have hp : p.isShort = true :=
    isShort_iff.2 (hshort.of_follow? hq (by rw [hnode, Option.isSome_some]))
  rw [makeFolders?, if_pos (isShort_parent hp)]
  rcases List.eq_nil_or_concat p.names with hnil | ⟨front, last, hnames⟩
  · rw [Path.parent, hnil]
    rfl
  · rw [place?, hnames, List.concat_eq_append] at hq
    have hparent : p.parent = ⟨p.lead, front⟩ := by
      rw [Path.parent, hnames, List.concat_eq_append, List.dropLast_concat]
    rw [hparent]
    exact makeFrom?_of_follow? hq

theorem NamesShort.makeFrom? {names : List String} : ∀ {t : FileTree} {place : Path},
    t.NamesShort → place.isShort = true →
      (∀ name ∈ names, name.utf8ByteSize ≤ Path.maxNameBytes) →
        t.makeFrom? place names = some u → u.NamesShort := by
  induction names with
  | nil =>
    intro t place h _ _ hu
    obtain rfl := Option.some.inj hu
    exact h
  | cons name names ih =>
    intro t place h hplace hnames hu
    obtain ⟨hname, hrest⟩ := List.forall_mem_cons.1 hnames
    have hnext := isShort_next hplace hname
    rw [FileTree.makeFrom?] at hu
    split at hu
    next => exact ih h hnext hrest hu
    next => exact absurd hu (by simp)
    next => exact ih (h.put _ hnext) hnext hrest hu

theorem NamesShort.makeFolders? (h : t.NamesShort) (hu : t.makeFolders? p = some u) :
    u.NamesShort := by
  unfold FileTree.makeFolders? at hu
  split at hu
  next hp => exact h.makeFrom? (by simp [Path.isShort]) (isShort_iff.1 hp) hu
  next => exact absurd hu (by simp)

end Taskboard.FileTree
