import Taskboard.Proofs.Json.Characters
import Taskboard.Proofs.Schedule.Stored
import Taskboard.Proofs.Store.Encoding
import Taskboard.Proofs.Store.Files

/-!
# Proofs/Store/Saving — the file of the schedule holds what was saved last

`Store.Keeps` says what is in the file of the schedule: some rows, or nothing where none were saved.

* `Store.Keeps.saveSchedule` — **a snapshot that the store takes is in the file afterwards**, and
  one that it refuses leaves the file as it is.
* `Store.Keeps.loadSchedule` — what is loaded is what the file keeps.
-/

namespace Taskboard.Store

/-- The file of the schedule holds some rows. -/
structure Records (s : Store) (rows : List Row) : Prop where
  clean : s.schedulePath.isClean = true
  file : ∃ changed, s.files.file? s.schedulePath
    = some ((Json.writeAt Json.fileLayout 0 (scheduleDocument rows)).toUTF8.toList, changed)

/-- There is no file of the schedule. -/
def Unsaved (s : Store) : Prop :=
  s.schedulePath.isClean = true → s.files.file? s.schedulePath = none

/-- **The file of the schedule holds the rows that were saved last**; there is none if none were. -/
def Keeps (s : Store) : Option (List Row) → Prop
  | some rows => s.Records rows
  | none => s.Unsaved

/-- Whether a folder stands where the file of the schedule belongs. -/
def isBlocked (s : Store) : Bool := s.schedulePath.isClean && s.files.isFolder s.schedulePath

variable {s : Store} {rows : List Row} {last : Option (List Row)}

/-! ## Loading -/

theorem Records.loadSchedule (h : s.Records rows) (hrows : ∀ r ∈ rows, r.Storable) :
    s.loadSchedule = .ok rows := by
  obtain ⟨changed, hfile⟩ := h.file
  have hholds : s.files.holds s.schedulePath = true := by
    rw [FileTree.holds, FileTree.node?_of_file? hfile, Option.isSome_some]
  have htext := textOf_toUTF8
    (Json.not_mem_writeAt_return Json.fileLayout 0 (scheduleDocument rows))
  have hread := Json.read_writeAt Json.fileLayout (faithful_scheduleDocument hrows)
  unfold Store.loadSchedule document?
  rw [h.clean, hholds, hfile]
  simp only [Bool.and_self, if_true, htext, Except.bind, hread]
  exact rowsOfDocument_scheduleDocument hrows

/-- Where nothing was saved nothing is loaded; a folder in place of the file is a failure. -/
theorem Unsaved.loadSchedule (h : s.Unsaved) :
    s.loadSchedule = if s.isBlocked then .error .scheduleUnreadable else .ok [] := by
  unfold Store.loadSchedule document? isBlocked
  cases hclean : s.schedulePath.isClean with
  | false => rfl
  | true =>
    have hfile := h hclean
    unfold FileTree.holds FileTree.isFolder
    unfold FileTree.file? at hfile
    cases hnode : s.files.node? s.schedulePath with
    | none => rfl
    | some node =>
      cases node with
      | folder => simp [FileTree.file?, hnode, Except.bind]
      | file bytes changed => exact absurd (hnode ▸ hfile) (by simp)

/-- The rows to be loaded where some were saved last. -/
def rowsKept (last : Option (List Row)) (s : Store) : Except Fault (List Row) :=
  match last with
  | some rows => .ok rows
  | none => if s.isBlocked then .error .scheduleUnreadable else .ok []

/-- **What is loaded is what the file keeps.** -/
theorem Keeps.loadSchedule (h : s.Keeps last)
    (hrows : ∀ rows ∈ last, ∀ r ∈ rows, r.Storable) : s.loadSchedule = s.rowsKept last := by
  cases last with
  | some rows => exact Records.loadSchedule h (hrows rows rfl)
  | none => exact Unsaved.loadSchedule h

/-! ## Saving -/

/-- The snapshot that counts after one was handed to the store: the new one, if it was taken. -/
def lastOf (last : Option (List Row)) (rows : List Row) : Except Fault Unit → Option (List Row)
  | .ok () => some rows
  | .error _ => last

/-- **Saving keeps what the store takes**, and nothing else. -/
theorem Keeps.saveSchedule (h : s.Keeps last) (hshort : s.files.NamesShort)
    (hrows : ∀ r ∈ rows, r.Storable) :
    (s.saveSchedule rows).2.Keeps (lastOf last rows (s.saveSchedule rows).1) ∧
      (s.saveSchedule rows).2.files.NamesShort ∧
      (s.saveSchedule rows).2.schedulePath = s.schedulePath := by
  have htext := Json.write_of_faithful Json.fileLayout Json.noDates
    (faithful_scheduleDocument hrows)
  unfold Store.saveSchedule writeDeep makeFolders
  rw [htext]
  cases hfolders : s.files.makeFolders? s.schedulePath.parent with
  | none => exact ⟨h, hshort, rfl⟩
  | some files =>
    have hmade := hshort.makeFolders? hfolders
    dsimp only
    unfold write
    cases hclean : s.schedulePath.isClean with
    | false =>
      refine ⟨?_, hmade, rfl⟩
      cases last with
      | some old => exact absurd (hclean.symm.trans h.clean) (by decide)
      | none => exact fun htrue => absurd (hclean.symm.trans htrue) (by decide)
    | true =>
      simp only [Bool.not_true, Bool.false_eq_true, if_false]
      cases hwrite : files.write? s.schedulePath
          (Json.writeAt Json.fileLayout 0 (scheduleDocument rows)).toUTF8.toList s.clock with
      | some written =>
        exact ⟨⟨hclean, s.clock, FileTree.file?_write? hwrite⟩, hmade.write? hwrite, rfl⟩
      | none =>
        have hnone := FileTree.file?_of_write?_eq_none hmade hwrite
        refine ⟨?_, hmade, rfl⟩
        cases last with
        | none => exact fun _ => hnone
        | some old =>
          -- with the file in place its folders are there, so nothing was made
          obtain ⟨changed, hfile⟩ := h.file
          have hnode : (s.files.node? s.schedulePath).isSome := by
            rw [FileTree.node?_of_file? hfile, Option.isSome_some]
          obtain rfl : s.files = files :=
            Option.some.inj ((FileTree.makeFolders?_eq_self hshort hnode).symm.trans hfolders)
          exact absurd (hnone.symm.trans hfile) (by simp)

end Taskboard.Store
