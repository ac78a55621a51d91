import Taskboard.Proofs.Query
import Taskboard.Proofs.Service.Asking
import Taskboard.Proofs.Service.Reopening
import Taskboard.Proofs.Service.Sending

/-!
# Proofs/Service/Listing — which workspaces can be listed

All files of a workspace may load (`Store.LoadsAll`), and still the list of its tasks cannot be
sent if an attribute of one of them cannot (`Task.Sendable`).

* `Service.handle_listing` — the answer to a request for the list comes of the tasks in the
  requested order.
* `Service.listed_iff_sendable` — **a workspace is listed exactly if all of its attributes can be
  sent**, and then it is listed as a whole.
-/

namespace Taskboard

/-! ## Workspaces -/

namespace Store

variable {s : Store} {workspace : String} {ids : List String}

/-- **A workspace whose files all load.**  Their times of change are told in UTC, and their number
is one that can be written. -/
structure LoadsAll (s : Store) (ids : List String) : Prop where
  ids_eq : s.taskIds "" = .ok ids
  loads : ∀ id ∈ ids, ∃ t, s.task "" id = .ok t
  clocks : ∀ place bytes changed, (place, .file bytes changed) ∈ s.files.nodes →
    changed.offset.getD 0 = 0
  count : IsShort ids.length

theorem modified_of_ofText {id text : String} {changed : Option Moment} {t : Task}
    (h : Task.ofText id text changed = .ok t) : t.modified = changed := by
  unfold Task.ofText Task.ofDocument at h
  split at h
  next => exact Except.ok.inj h ▸ rfl
  next => cases h
  next =>
    obtain ⟨attributes, -, rfl⟩ := map_eq_ok.mp h
    rfl

theorem mem_nodes_of_file? {files : FileTree} {path : Path} {bytes : List UInt8} {changed : Moment}
    (h : files.file? path = some (bytes, changed)) :
    ∃ place, (place, .file bytes changed) ∈ files.nodes := by
  obtain ⟨place, -, hnode⟩ := Option.bind_eq_some_iff.mp (FileTree.node?_of_file? h)
  unfold FileTree.nodeAt? at hnode
  split at hnode
  next => cases hnode
  next =>
    obtain ⟨⟨found, node⟩, hfound, rfl⟩ := Option.map_eq_some_iff.mp hnode
    exact ⟨found, List.mem_of_find?_eq_some hfound⟩

/-- A task that is read tells the time of its file. -/
theorem modified_of_task {id : String} {t : Task} (h : s.task workspace id = .ok t) :
    ∃ place bytes changed, (place, .file bytes changed) ∈ s.files.nodes ∧
      t.modified = some changed := by
  obtain ⟨bytes, changed, text, hfile, -, hof⟩ := exists_file_of_task h
  obtain ⟨place, hplace⟩ := mem_nodes_of_file? hfile
  exact ⟨place, bytes, changed, hplace, modified_of_ofText hof⟩

theorem tasksOf_of_loads : ∀ {ids : List String}, (∀ id ∈ ids, ∃ t, s.task workspace id = .ok t) →
    ∃ tasks, s.tasksOf workspace ids = .ok tasks ∧ tasks.map Task.id = ids ∧
      ∀ t ∈ tasks, ∃ id, s.task workspace id = .ok t
  | [], _ => ⟨[], rfl, rfl, List.forall_mem_nil _⟩
  | id :: ids, h => by
    obtain ⟨⟨t, ht⟩, hids⟩ := List.forall_mem_cons.mp h
    obtain ⟨tasks, htasks, hmap, hall⟩ := tasksOf_of_loads hids
    refine ⟨t :: tasks, ?_, ?_, List.forall_mem_cons.mpr ⟨⟨id, ht⟩, hall⟩⟩
    · rw [tasksOf, ht]
      exact map_eq_ok.mpr ⟨tasks, htasks, rfl⟩
    · rw [List.map_cons, id_of_task ht, hmap]

/-- **The tasks of a workspace whose files all load**, one for each id. -/
theorem LoadsAll.tasks_eq (h : s.LoadsAll ids) : ∃ tasks, s.tasks "" = .ok tasks ∧
    tasks.map Task.id = ids ∧ ∀ t ∈ tasks, ∀ m ∈ t.modified, m.offset.getD 0 = 0 := by
  obtain ⟨tasks, htasks, hmap, hall⟩ := tasksOf_of_loads h.loads
  refine ⟨tasks, bind_eq_ok.mpr ⟨ids, h.ids_eq, htasks⟩, hmap, fun t ht m hm => ?_⟩
  obtain ⟨id, hid⟩ := hall t ht
  obtain ⟨place, bytes, changed, hplace, hchanged⟩ := modified_of_task hid
  obtain rfl := Option.some.inj (hchanged.symm.trans hm)
  exact h.clocks place bytes changed hplace

end Store

/-! ## Requests -/

/-- **A request for the list of all tasks** in a built-in order. -/
structure Request.ListsAll (r : Request) (criterion : Criterion) : Prop where
  method_eq : upperText r.method = "GET"
  route_eq : Destination.ofRequest r.path "GET" = .route .listTasks
  sort_eq : Criterion.named? (r.argOr "sort" "name-asc") = some criterion
  untagged : r.args.filterMap Service.tagCondition? = []

theorem keepTagged_nil : ∀ tasks : List Task, keepTagged [] tasks = .ok tasks
  | [] => rfl
  | t :: tasks => by
    rw [keepTagged, keepTagged_nil tasks]
    rfl

namespace Service

variable {s : Service} {r : Request} {criterion : Criterion} {ids : List String}

theorem run_listQuery (h : r.ListsAll criterion) (tasks : List Task) :
    (listQuery criterion r).run tasks = sortTasks criterion tasks := by
  have hselect : (listQuery criterion r).select = Except.ok := by
    funext sorted
    rw [listQuery, h.untagged]
    exact keepTagged_nil sorted
  rw [Query.run, hselect]
  change (sortTasks criterion tasks).bind Except.ok = _
  cases sortTasks criterion tasks <;> rfl

/-- **The answer to a request for the list** comes of the tasks in the requested order. -/
theorem handle_listing (h : r.ListsAll criterion) {tasks : List Task}
    (hstore : s.store.tasks "" = .ok tasks)
    (hread : s.isStale = true ∨ lowerText (r.argOr "refresh" "false") = "true") :
    (s.handle r).1 = replyOf ((sortTasks criterion tasks).bind taskList) := by
  have hanew : s.tasks (decide (lowerText (r.argOr "refresh" "false") = "true")) = s.reload :=
    tasks_anew (by simpa [or_comm] using hread)
  unfold handle
  dsimp only
  rw [h.method_eq, h.route_eq]
  unfold serve listTasks
  dsimp only
  rw [h.sort_eq]
  dsimp only
  rw [hanew, reload, hstore]
  dsimp only
  rw [run_listQuery h]
  rfl

/-- What a client is told of a task names it. -/
theorem id_of_shown {t : Task} {v : Value} (h : t.shown = .ok v) :
    v.fieldOrNull "id" = .text t.id := by
  obtain ⟨w, hw, hv⟩ := bind_eq_ok.mp h
  obtain ⟨fs, -, hw⟩ := bind_eq_ok.mp hw
  obtain ⟨modified, -, rfl⟩ := map_eq_ok.mp hw
  obtain ⟨es, hes, rfl⟩ := map_eq_ok.mp hv
  obtain ⟨key, hkey, hes⟩ := bind_eq_ok.mp hes
  obtain rfl := Except.ok.inj hkey
  obtain ⟨id, hid, hes⟩ := bind_eq_ok.mp hes
  obtain rfl := Except.ok.inj hid
  obtain ⟨rest, -, rfl⟩ := map_eq_ok.mp hes
  rfl

theorem ids_of_shown : ∀ {tasks : List Task} {shown : List Value},
    tasks.mapM Task.shown = .ok shown →
      shown.map (Value.fieldOrNull "id") = tasks.map fun t => .text t.id
  | [], _, h => by
    obtain rfl := Except.ok.inj h
    rfl
  | t :: tasks, _, h => by
    rw [List.mapM_cons] at h
    obtain ⟨v, hv, h⟩ := do_eq_ok.mp h
    obtain ⟨vs, hvs, h⟩ := do_eq_ok.mp h
    obtain rfl := Except.ok.inj h
    rw [List.map_cons, List.map_cons, id_of_shown hv, ids_of_shown hvs]

/-- A failure is not answered with success. -/
theorem status_ofFault_ne (f : Fault) : (Reply.ofFault f).status ≠ 200 := by
  unfold Reply.ofFault
  split <;> exact fun h => nomatch h

theorem status_taskList_iff {tasks : List Task} :
    (replyOf (taskList tasks)).status = 200 ↔ ∃ reply, taskList tasks = .ok reply := by
  cases h : taskList tasks with
  | ok reply =>
    obtain ⟨shown, -, rfl⟩ := taskList_eq_ok h
    exact iff_of_true rfl ⟨_, rfl⟩
  | error f => exact iff_of_false (status_ofFault_ne f) fun ⟨_, h⟩ => nomatch h

/-- **A workspace is listed exactly if all of its attributes can be sent.** -/
theorem listed_iff_sendable (s : Service) (r : Request) (hworkspace : s.store.LoadsAll ids)
    (hlists : r.ListsAll criterion)
    (hread : s.isStale = true ∨ lowerText (r.argOr "refresh" "false") = "true") :
    ∃ tasks sorted, s.store.tasks "" = .ok tasks ∧ tasks.map Task.id = ids ∧
      SortsStably (fun a b => .ok (criterion.compare a b)) tasks sorted ∧
      ((s.handle r).1.status = 200 ↔ ∀ t ∈ tasks, t.Sendable) ∧
      ((s.handle r).1.status = 200 → ∃ shown, sorted.mapM Task.shown = .ok shown ∧
        shown.map (Value.fieldOrNull "id") = sorted.map (fun t => .text t.id) ∧
        (s.handle r).1 = ⟨200, some (Reply.success
          [("tasks", .list shown), ("count", .int ids.length)])⟩) := by
  obtain ⟨tasks, hstore, hids, hutc⟩ := hworkspace.tasks_eq
  obtain ⟨sorted, hsorted, hsorts⟩ := sortTasks_sorts criterion hutc
  have hreply : (s.handle r).1 = replyOf (taskList sorted) := by
    rw [handle_listing hlists hstore hread, hsorted]
    rfl
  have hlength : sorted.length = ids.length := by
    rw [hsorts.perm.length_eq, ← hids, List.length_map]
  have htold : ∀ t ∈ sorted, ∀ m ∈ t.modified, ∃ text, m.isoText = .ok text := by
    intro t ht m hm
    have hzero := hutc t (hsorts.perm.mem_iff.mp ht) m hm
    refine Moment.exists_text_iff.mpr fun offset hoffset => ?_
    rw [Option.mem_def.mp hoffset, Option.getD_some] at hzero
    subst hzero
    decide
  have hsend := exists_taskList_iff htold (hlength ▸ hworkspace.count)
  refine ⟨tasks, sorted, hstore, hids, hsorts, ?_, fun h => ?_⟩
  · rw [hreply, status_taskList_iff, hsend]
    exact ⟨fun h t ht => h t (hsorts.perm.mem_iff.mpr ht),
      fun h t ht => h t (hsorts.perm.mem_iff.mp ht)⟩
  · rw [hreply] at h ⊢
    obtain ⟨reply, hlist⟩ := status_taskList_iff.mp h
    obtain ⟨shown, hshown, rfl⟩ := taskList_eq_ok hlist
    refine ⟨shown, hshown, ids_of_shown hshown, ?_⟩
    rw [hlist, hlength]
    rfl

/-! ## One attribute and the list -/

theorem listsAll_listing : listing.ListsAll (.byName false) :=
  ⟨by decide, by decide, by decide, rfl⟩

/-- A workspace with one task, whose head is given. -/
def withHead (head : String) : Store :=
  .ofFiles [("a.md", ("---\n" ++ head ++ "\n---\n").toUTF8.toList)]

/-- A list and a date are listed. -/
theorem listed_iff_sendable_dated :
    let s := start usualSettings (withHead "labels: [ui, 2]\ndue: 2024-05-06")
    s.store.LoadsAll ["a"] ∧ listing.ListsAll (.byName false) ∧ s.isStale = true ∧
      ∃ tasks, s.store.tasks "" = .ok tasks ∧ (s.handle listing).1.status = 200 ∧
        ∀ t ∈ tasks, t.Sendable := by
  intro s
  have hloads : s.store.LoadsAll ["a"] := by
    refine ⟨by decide +kernel, List.forall_mem_singleton.mpr ?_, fun place bytes changed h => ?_, ?_⟩
    · have hok : (s.store.task "" "a").isOk = true := by decide +kernel
      cases htask : s.store.task "" "a" with
      | ok t => exact ⟨t, rfl⟩
      | error f => rw [htask] at hok; cases hok
    · obtain ⟨-, hfile⟩ := Prod.mk.inj (List.mem_singleton.mp h)
      obtain ⟨-, rfl⟩ := FileNode.file.inj hfile
      rfl
    · exact Nat.le_trans digitCount_le (by decide)
  have hstatus : (s.handle listing).1.status = 200 := by decide +kernel
  obtain ⟨tasks, -, htasks, -, -, hiff, -⟩ :=
    listed_iff_sendable s listing hloads listsAll_listing (.inl rfl)
  exact ⟨hloads, listsAll_listing, rfl, tasks, htasks, hstatus, hiff.mp hstatus⟩

/-- **One attribute takes all tasks with it**: bytes, a set, and a map whose keys are a number and a
text.  Each of these files loads, and cannot be listed.  Nor can a task with a long whole number. -/
theorem listing_fails_with_attribute :
    (["m: !!binary aGk=", "m: !!set \x7ba, b\x7d", "m: \x7b1: a, b: c\x7d"].map fun head =>
        (((withHead head).task "" "a").isOk,
          ((start usualSettings (withHead head)).handle listing).1.status)) =
        List.replicate 3 (true, 500) ∧
      (taskList [⟨"a", [("n", .int (Int.ofNat (Nat.pow 16 3600)))], "", none⟩]).isOk = false := by
  decide +kernel

end Service

end Taskboard
