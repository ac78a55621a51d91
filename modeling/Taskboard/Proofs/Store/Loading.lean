import Mathlib.Order.Basic
import Taskboard.Store.Basic

/-!
# Proofs/Store/Loading — which files keep a workspace from loading

A workspace is loaded file by file.  A file whose bytes make no task is to be passed over; this
fails for two sorts of files, and for no other: bytes that are not UTF-8, and a head with a scalar
that has no value of its tag for a cause that is not about the value alone (`Store.Passable`).

* `Task.fault_of_ofText` — why a text is no task.
* `Store.tasks_eq_iff` — the tasks of a workspace are those of the files that make some, in the
  order of ids, exactly if every file can be passed over; otherwise nothing is loaded.
-/

namespace Taskboard

/-! ## Texts that are no tasks -/

namespace Value

mutual
/-- A value has a text inside of another one unless it holds a number that is too long. -/
theorem isBadValue_of_literal {f : Fault} :
    ∀ {v : Value}, v.literal = .error f → f.isBadValue = true
  | .int n, h => by
    unfold literal wholeText at h
    split at h
    next => cases h; rfl
    next => cases h
  | .list xs, h => by
    rw [literal] at h
    exact isBadValue_of_literals (map_eq_error.mp h)
  | .map es, h => by
    rw [literal] at h
    exact isBadValue_of_entryLiterals (map_eq_error.mp h)
  | .set [], h => by cases h
  | .set (x :: xs), h => by
    rw [literal] at h
    exact isBadValue_of_literals (map_eq_error.mp h)
  | .null, h | .bool _, h | .real _, h | .text _, h | .date _, h | .moment _, h | .bytes _, h => by
    cases h

theorem isBadValue_of_literals {f : Fault} :
    ∀ {vs : List Value}, literals vs = .error f → f.isBadValue = true
  | [], h => by cases h
  | v :: vs, h => by
    rw [literals] at h
    rcases bind_eq_error.mp h with h | ⟨t, -, h⟩
    · exact isBadValue_of_literal h
    · exact isBadValue_of_literals (map_eq_error.mp h)

theorem isBadValue_of_entryLiterals {f : Fault} :
    ∀ {es : List (Value × Value)}, entryLiterals es = .error f → f.isBadValue = true
  | [], h => by cases h
  | (k, v) :: es, h => by
    rw [entryLiterals] at h
    rcases bind_eq_error.mp h with h | ⟨_, -, h⟩
    · exact isBadValue_of_literal h
    rcases bind_eq_error.mp h with h | ⟨_, -, h⟩
    · exact isBadValue_of_literal h
    · exact isBadValue_of_entryLiterals (map_eq_error.mp h)
end

theorem isBadValue_of_shown {f : Fault} {v : Value} (h : v.shown = .error f) :
    f.isBadValue = true := by
  cases v with
  | text s => cases h
  | date d => cases h
  | moment m =>
    change m.text " " = _ at h
    unfold Moment.text at h
    split at h
    next => cases h
    next =>
      split at h
      next => cases h
      next => cases h; rfl
  | _ => exact isBadValue_of_literal h

end Value

namespace Task

theorem isBadValue_of_headAttributes {f : Fault} :
    ∀ {es : List (Value × Value)} {done : List (String × Value)},
      headAttributes es done = .error f → f.isBadValue = true
  | [], _, h => by cases h
  | (k, v) :: es, done, h => by
    rw [headAttributes] at h
    rcases bind_eq_error.mp h with h | ⟨_, -, h⟩
    · exact Value.isBadValue_of_shown h
    · exact isBadValue_of_headAttributes h

theorem fault_of_readHead {id head : String} {f : Fault}
    (h : readHead Yaml.read id head = .error f) :
    f.isBadValue = true ∨ Yaml.read head = .error (.badValue f) := by
  unfold readHead at h
  split at h
  next => cases h; exact .inl rfl
  next cause hread => cases h; exact .inr hread
  next => cases h
  next => exact .inl (isBadValue_of_headAttributes h)
  next => cases h; exact .inl rfl

/-- **Why a text is no task**: for the shape of its head or the text of a key, which are values
unfit in themselves, or because a scalar of the head has no value. -/
theorem fault_of_ofText {id text : String} {changed : Option Moment} {f : Fault}
    (h : Task.ofText id text changed = .error f) : f.isBadValue = true ∨ ∃ head body,
      Framing.ofText text = .framed head body ∧
        Yaml.read (String.ofList head) = .error (.badValue f) := by
  unfold Task.ofText ofDocument at h
  split at h
  next => cases h
  next => cases h; exact .inl rfl
  next head body hframe =>
    exact (fault_of_readHead (map_eq_error.mp h)).imp_right fun hread => ⟨head, body, hframe, hread⟩

/-- A scalar of the head that has no value is why the text is no task. -/
theorem ofText_of_badValue {id text : String} {changed : Option Moment} {f : Fault}
    {head body : List Char} (hframe : Framing.ofText text = .framed head body)
    (hread : Yaml.read (String.ofList head) = .error (.badValue f)) :
    Task.ofText id text changed = .error f := by
  have hhead : readHead Yaml.read id (String.ofList head) = .error f := by
    rw [readHead, hread]
  rw [Task.ofText, ofDocument, hframe]
  exact map_eq_error.mpr hhead

end Task

/-! ## Workspaces -/

namespace Store

/-- The task that the bytes of a file make, if there is such a file and they make one. -/
def taskInFile? (s : Store) (workspace id : String) : Option Task :=
  (s.files.file? (s.taskPath workspace id)).bind fun (bytes, changed) =>
    ((textOf bytes).bind fun text => Task.ofText id text (some changed)).toOption

/-- **A file that can be passed over if it makes no task**: its name is one that files can have, its
bytes are UTF-8, and where a scalar of its head has no value the store takes that on itself. -/
def Passable (s : Store) (workspace id : String) : Prop :=
  (s.taskPath workspace id).isClean = true ∧
    ∀ bytes changed, s.files.file? (s.taskPath workspace id) = some (bytes, changed) →
      ∃ text, textOf bytes = .ok text ∧ ∀ head body cause,
        Framing.ofText text = .framed head body →
        Yaml.read (String.ofList head) = .error (.badValue cause) → (unfit cause).isStorage = true

variable {s : Store} {workspace id : String}

/-- The store takes on itself what a value is to blame for. -/
theorem isStorage_unfit {f : Fault} (h : f.isBadValue = true) : (unfit f).isStorage = true := by
  rw [unfit, if_pos h]
  rfl

theorem task_of_file? {bytes : List UInt8} {changed : Moment}
    (hclean : (s.taskPath workspace id).isClean = true)
    (hfile : s.files.file? (s.taskPath workspace id) = some (bytes, changed)) :
    s.task workspace id =
      (textOf bytes).bind fun text => (Task.ofText id text (some changed)).mapError unfit := by
  unfold task
  simp only [hclean, hfile, Bool.not_true, Bool.false_eq_true, if_false]

/-- A name that files cannot have is a failure of its own. -/
theorem task_of_not_isClean (hclean : (s.taskPath workspace id).isClean = false) :
    s.task workspace id = .error .badName := by
  unfold task
  simp only [hclean, Bool.not_false, if_true]

theorem task_of_file?_eq_none (hclean : (s.taskPath workspace id).isClean = true)
    (hfile : s.files.file? (s.taskPath workspace id) = none) :
    s.task workspace id = .error (.taskUnreadable id) := by
  unfold task
  simp only [hclean, hfile, Bool.not_true, Bool.false_eq_true, if_false]

/-- **A task that is read** is made of the text of its file. -/
theorem exists_file_of_task {t : Task} (h : s.task workspace id = .ok t) :
    ∃ bytes changed text, s.files.file? (s.taskPath workspace id) = some (bytes, changed) ∧
      textOf bytes = .ok text ∧ Task.ofText id text (some changed) = .ok t := by
  unfold task at h
  dsimp only at h
  split at h
  next => cases h
  next =>
    split at h
    next => cases h
    next bytes changed hfile =>
      obtain ⟨text, htext, hof⟩ := bind_eq_ok.mp h
      refine ⟨bytes, changed, text, hfile, htext, ?_⟩
      cases htask : Task.ofText id text (some changed) with
      | error f => rw [htask] at hof; cases hof
      | ok u =>
        rw [htask] at hof
        exact congrArg Except.ok (Except.ok.inj hof)

/-- Bytes that are no text are not UTF-8. -/
theorem eq_notUtf8_of_textOf {bytes : List UInt8} {f : Fault} (h : textOf bytes = .error f) :
    f = .notUtf8 := by
  unfold textOf at h
  split at h
  next => cases h
  next =>
    cases h
    rfl

/-- The store takes on itself why a file that can be passed over makes no task. -/
theorem Passable.isStorage (h : s.Passable workspace id) {f : Fault}
    (hf : s.task workspace id = .error f) : f.isStorage = true := by
  obtain ⟨hclean, hfiles⟩ := h
  cases hfile : s.files.file? (s.taskPath workspace id) with
  | none =>
    rw [task_of_file?_eq_none hclean hfile] at hf
    cases hf
    rfl
  | some file =>
    obtain ⟨text, htext, hhead⟩ := hfiles file.1 file.2 hfile
    rw [task_of_file? hclean hfile, htext, Except.bind] at hf
    cases hof : Task.ofText id text (some file.2) with
    | ok t => rw [hof] at hf; cases hf
    | error g =>
      rw [hof] at hf
      cases hf
      rcases Task.fault_of_ofText hof with hbad | ⟨head, body, hframe, hread⟩
      · exact isStorage_unfit hbad
      · exact hhead head body g hframe hread

/-- **A file can be passed over exactly if the store takes its failure on itself.** -/
theorem passable_iff : s.Passable workspace id ↔
    ∀ f, s.task workspace id = .error f → f.isStorage = true := by
  refine ⟨fun h f hf => h.isStorage hf, fun hall => ?_⟩
  have hclean : (s.taskPath workspace id).isClean = true :=
    (Bool.eq_false_or_eq_true _).resolve_right fun hclean =>
      absurd (hall _ (task_of_not_isClean hclean)) (by decide)
  refine ⟨hclean, fun bytes changed hfile => ?_⟩
  have htask := task_of_file? hclean hfile
  cases htext : textOf bytes with
  | error f =>
    obtain rfl := eq_notUtf8_of_textOf htext
    rw [htext] at htask
    exact absurd (hall .notUtf8 htask) (by decide)
  | ok text =>
    refine ⟨text, rfl, fun head body cause hframe hread => hall _ ?_⟩
    rw [htask, htext, Except.bind, Task.ofText_of_badValue hframe hread]
    rfl

/-- What the store gives is the task in the file. -/
theorem taskInFile?_eq_toOption (hclean : (s.taskPath workspace id).isClean = true) :
    s.taskInFile? workspace id = (s.task workspace id).toOption := by
  unfold taskInFile?
  cases hfile : s.files.file? (s.taskPath workspace id) with
  | none =>
    rw [task_of_file?_eq_none hclean hfile]
    rfl
  | some file =>
    obtain ⟨bytes, changed⟩ := file
    rw [task_of_file? hclean hfile, Option.bind_some]
    change ((textOf bytes).bind fun text => Task.ofText id text (some changed)).toOption = _
    cases textOf bytes with
    | error f => rfl
    | ok text =>
      simp only [Except.bind]
      cases Task.ofText id text (some changed) <;> rfl

/-! ## Loading -/

/-- The files of some ids are read if all of them can be passed over. -/
theorem tasksOf_of_passable : ∀ {ids : List String}, (∀ id ∈ ids, s.Passable workspace id) →
    s.tasksOf workspace ids = .ok (ids.filterMap (s.taskInFile? workspace))
  | [], _ => rfl
  | id :: ids, h => by
    obtain ⟨hid, hids⟩ := List.forall_mem_cons.mp h
    have ih := tasksOf_of_passable hids
    rw [List.filterMap_cons, taskInFile?_eq_toOption hid.1, tasksOf]
    cases htask : s.task workspace id with
    | ok t =>
      simp only [ih]
      rfl
    | error f =>
      simp only [passable_iff.mp hid f htask, if_true, ih]
      rfl

/-- The first file that cannot be passed over ends the loading. -/
theorem tasksOf_of_not_passable : ∀ {ids : List String}, (∃ id ∈ ids, ¬ s.Passable workspace id) →
    ∃ id ∈ ids, ∃ f, s.task workspace id = .error f ∧ f.isStorage = false ∧
      s.tasksOf workspace ids = .error f
  | [], h => by simp at h
  | id :: ids, h => by
    rw [tasksOf]
    by_cases hid : s.Passable workspace id
    · have hrest : ∃ other ∈ ids, ¬ s.Passable workspace other := by
        obtain ⟨other, hmem, hother⟩ := h
        rcases List.mem_cons.mp hmem with rfl | hmem
        · exact absurd hid hother
        · exact ⟨other, hmem, hother⟩
      obtain ⟨other, hmem, f, htask, hstorage, hload⟩ := tasksOf_of_not_passable hrest
      refine ⟨other, List.mem_cons_of_mem id hmem, f, htask, hstorage, ?_⟩
      cases hfirst : s.task workspace id with
      | ok t => simp only [hload]; rfl
      | error g => simp only [passable_iff.mp hid g hfirst, if_true, hload]
    · obtain ⟨f, hf, hstorage⟩ : ∃ f, s.task workspace id = .error f ∧ ¬ f.isStorage = true := by
        simpa only [passable_iff, not_forall, exists_prop] using hid
      have hstorage : f.isStorage = false := Bool.eq_false_iff.mpr hstorage
      refine ⟨id, List.mem_cons_self, f, hf, hstorage, ?_⟩
      simp only [hf, hstorage, Bool.false_eq_true, if_false]

/-- The ids of a workspace: what its files are called, in order. -/
theorem taskIds_of_isFolder (hclean : (s.folder workspace).isClean = true)
    (hfolder : s.files.isFolder (s.folder workspace) = true) :
    ∃ ids, s.taskIds workspace = .ok ids ∧ ids.Pairwise (· ≤ ·) ∧
      ids.Perm ((taskNames (s.files.names (s.folder workspace))).map Path.stem) := by
  refine ⟨_, if_pos (by rw [hclean, hfolder]; rfl), ?_, List.mergeSort_perm _ _⟩
  refine (List.pairwise_mergeSort ?_ ?_ _).imp of_decide_eq_true
  · intro a b c hab hbc
    exact decide_eq_true (String.le_trans (of_decide_eq_true hab) (of_decide_eq_true hbc))
  · intro a b
    simpa using String.le_total a b

/-- **Which workspaces load.**  The tasks of a workspace are those that its files make, each by its
own bytes and in the order of ids, exactly if every file can be passed over; a file that cannot be
is why nothing is loaded. -/
theorem tasks_eq_iff (s : Store) (workspace : String)
    (hclean : (s.folder workspace).isClean = true)
    (hfolder : s.files.isFolder (s.folder workspace) = true) :
    ∃ ids, s.taskIds workspace = .ok ids ∧ ids.Pairwise (· ≤ ·) ∧
      ids.Perm ((taskNames (s.files.names (s.folder workspace))).map Path.stem) ∧
      (s.tasks workspace = .ok (ids.filterMap (s.taskInFile? workspace)) ↔
        ∀ id ∈ ids, s.Passable workspace id) ∧
      ((∃ id ∈ ids, ¬ s.Passable workspace id) → ∃ id ∈ ids, ∃ f,
        s.task workspace id = .error f ∧ f.isStorage = false ∧ s.tasks workspace = .error f) := by
  obtain ⟨ids, hids, hsorted, hperm⟩ := taskIds_of_isFolder hclean hfolder
  have htasks : s.tasks workspace = s.tasksOf workspace ids := by
    rw [tasks, hids]
    rfl
  refine ⟨ids, hids, hsorted, hperm, ⟨fun hload => ?_, fun h => ?_⟩, fun h => ?_⟩
  · refine Classical.byContradiction fun hnot => ?_
    obtain ⟨-, -, f, -, -, hf⟩ :=
      tasksOf_of_not_passable (by simpa only [not_forall, exists_prop] using hnot)
    rw [htasks, hf] at hload
    cases hload
  · rw [htasks, tasksOf_of_passable h]
  · rw [htasks]
    exact tasksOf_of_not_passable h

/-! ## Ids -/

/-- The stem of a name is not empty. -/
theorem stem_ne_empty {name : String} (h : name ≠ "") : Path.stem name ≠ "" := by
  unfold Path.stem
  split
  next => exact h
  next front hfront =>
    split
    · exact h
    · rw [Ne, ← String.toList_eq_nil_iff, String.toList_ofList, List.reverse_eq_nil_iff]
      exact hfront

theorem id_of_ofText {id text : String} {changed : Option Moment} {t : Task}
    (h : Task.ofText id text changed = .ok t) : t.id = id := by
  unfold Task.ofText Task.ofDocument at h
  split at h
  next => exact Except.ok.inj h ▸ rfl
  next => exact absurd h (by simp)
  next =>
    obtain ⟨attributes, -, rfl⟩ := map_eq_ok.mp h
    rfl

theorem id_of_task {t : Task} (h : s.task workspace id = .ok t) : t.id = id := by
  obtain ⟨_, _, _, -, -, hof⟩ := exists_file_of_task h
  exact id_of_ofText hof

theorem mem_ids_of_mem_tasksOf : ∀ {ids : List String} {tasks : List Task},
    s.tasksOf workspace ids = .ok tasks → ∀ t ∈ tasks, t.id ∈ ids
  | [], tasks, h => by
    obtain rfl := Except.ok.inj h
    exact List.forall_mem_nil _
  | id :: ids, tasks, h => by
    rw [tasksOf] at h
    split at h
    next t ht =>
      obtain ⟨more, hmore, rfl⟩ := map_eq_ok.mp h
      refine List.forall_mem_cons.mpr ⟨id_of_task ht ▸ List.mem_cons_self, fun u hu => ?_⟩
      exact List.mem_cons_of_mem id (mem_ids_of_mem_tasksOf hmore u hu)
    next =>
      split at h
      next => exact fun u hu => List.mem_cons_of_mem id (mem_ids_of_mem_tasksOf h u hu)
      next => exact absurd h (by simp)

/-- **The tasks of a workspace have ids.** -/
theorem id_ne_empty_of_tasks {tasks : List Task} (h : s.tasks workspace = .ok tasks) :
    ∀ t ∈ tasks, t.id ≠ "" := by
  obtain ⟨ids, hids, htasks⟩ := bind_eq_ok.mp h
  intro t ht
  have hid := mem_ids_of_mem_tasksOf htasks t ht
  unfold taskIds at hids
  dsimp only at hids
  split at hids
  next =>
    obtain rfl := Except.ok.inj hids
    rw [List.mem_mergeSort] at hid
    obtain ⟨name, hname, hstem⟩ := List.mem_map.mp hid
    rw [← hstem]
    refine stem_ne_empty ?_
    rintro rfl
    exact absurd (List.mem_filter.mp hname).2 (by decide)
  next => exact absurd hids (by simp)

/-! ## Workspaces with unfit files -/

/-- A store with files in its own folder. -/
def ofFiles (files : List (String × List UInt8)) : Store where
  root := ⟨1, []⟩
  schedulePath := ⟨1, ["schedule.json"]⟩
  files := ⟨files.map fun (name, bytes) => (⟨1, [name]⟩, .file bytes noon)⟩
  clock := noon
where
  /-- When the files were written. -/
  noon : Moment := .midnight ⟨2024, 1, 1, by decide⟩ (some 0)

/-- Two files, the second with a sound text. -/
def besideNote (bytes : List UInt8) : Store :=
  ofFiles [("a.md", bytes), ("b.md", "hello".toUTF8.toList)]

theorem taskIds_besideNote (bytes : List UInt8) : ∃ ids,
    (besideNote bytes).taskIds "" = .ok ids ∧ ids.Perm ["a", "b"] := by
  have hfolder : (besideNote bytes).files.isFolder ((besideNote bytes).folder "") = true := rfl
  obtain ⟨ids, hids, -, hperm⟩ := taskIds_of_isFolder rfl hfolder
  exact ⟨ids, hids, hperm⟩

/-- Whether the store takes what is wrong with a file on itself, if something is. -/
def contains (s : Store) (id : String) : Bool :=
  match s.task "" id with
  | .ok _ => true
  | .error f => f.isStorage

theorem contains_eq_true {s : Store} {id : String} :
    s.contains id = true ↔ s.Passable "" id := by
  rw [passable_iff, contains]
  cases s.task "" id <;> simp

/-- A list that is never closed keeps its file from being a task, and nothing else. -/
theorem tasks_eq_iff_unclosed :
    let s := besideNote "---\nstatus: [unclosed\n---\n".toUTF8.toList
    (s.folder "").isClean = true ∧ s.files.isFolder (s.folder "") = true ∧
      ∃ ids, s.taskIds "" = .ok ids ∧ ids.Perm ["a", "b"] ∧
        s.tasks "" = .ok (ids.filterMap (s.taskInFile? "")) := by
  intro s
  obtain ⟨ids, hids, -, hperm, hiff, -⟩ := tasks_eq_iff s "" rfl rfl
  have hperm : ids.Perm ["a", "b"] := hperm
  refine ⟨rfl, rfl, ids, hids, hperm, hiff.mpr fun id hid => ?_⟩
  have hab : id = "a" ∨ id = "b" := by simpa using hperm.mem_iff.mp hid
  rw [← contains_eq_true]
  rcases hab with rfl | rfl <;> decide +kernel

/-- **Two files that take their workspace down**: bytes that are not UTF-8, and a word that is no
truth value under the tag of one.  Neither keeps to itself. -/
theorem unfit_file_stops_loading :
    (∀ tasks, (besideNote [0xff]).tasks "" ≠ .ok tasks) ∧
      ∀ tasks, (besideNote "---\nx: !!bool foo\n---\n".toUTF8.toList).tasks "" ≠ .ok tasks := by
  have hstops : ∀ {bytes : List UInt8}, (besideNote bytes).contains "a" = false →
      ∀ tasks, (besideNote bytes).tasks "" ≠ .ok tasks := by
    intro bytes hunfit tasks hload
    obtain ⟨ids, hids, hperm⟩ := taskIds_besideNote bytes
    have ha : ∃ id ∈ ids, ¬ (besideNote bytes).Passable "" id :=
      ⟨"a", hperm.mem_iff.mpr (by simp), fun h => by
        rw [← contains_eq_true, hunfit] at h
        cases h⟩
    obtain ⟨-, -, f, -, -, hf⟩ := tasksOf_of_not_passable ha
    rw [Store.tasks, hids, Except.bind, hf] at hload
    cases hload
  exact ⟨hstops (by decide +kernel), hstops (by decide +kernel)⟩

end Store

end Taskboard
