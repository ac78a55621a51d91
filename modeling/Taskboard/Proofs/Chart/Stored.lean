import Taskboard.Chart.Stored

/-!
# Proofs/Chart/Stored — charts come back from their maps

`Chart.ofStored_stored` — **the map of a chart describes that chart**: of every kind, with any
number of parts, and whichever of the optional fields are there.

The result is put together from the inside out.  Each kind of record comes back from its map, and so
does a list of them (`readMembers_map`), which is a field of the next larger record.  What a bar
chart leaves out is null in the map and comes back as left out, apart from an empty list.
-/

namespace Taskboard

/-! ## Reading the fields of a map -/

@[simp] theorem ok_bind {α β : Type} (a : α) (f : α → Except Fault β) :
    (Except.ok a >>= f) = f a := rfl

@[simp] theorem map_ok {α β : Type} (f : α → β) (a : α) :
    (f <$> (Except.ok a : Except Fault α)) = .ok (f a) := rfl

/-- A map with text keys is looked into by name. -/
theorem Value.lookup?_object (key : String) : ∀ fields : List (String × Value),
    lookup? key (fields.map fun (k, v) => (.text k, v)) = entryAt? key fields
  | [] => rfl
  | (k, v) :: fields => by
    rw [List.map_cons, lookup?, entryAt?, lookup?_object key fields]

@[simp] theorem Value.item_object (key : String) (fields : List (String × Value)) :
    (object fields).item key = (entryAt? key fields).elim (.error .missingField) .ok := by
  rw [object, item, lookup?_object]
  cases entryAt? key fields <;> rfl

@[simp] theorem fieldOr_object (key : String) (fields : List (String × Value)) (w : Value) :
    fieldOr key (.object fields) w = .ok ((entryAt? key fields).getD w) := by
  rw [fieldOr, Value.object, Value.field?, Value.lookup?_object]
  rfl

/-! ## Parts -/

/-- **A list of parts comes back** if each part does. -/
@[simp] theorem readMembers_map {α : Type} {read : Value → Except Fault α} {write : α → Value}
    (h : ∀ x, read (write x) = .ok x) (xs : List α) :
    readMembers read (.list (xs.map write)) = .ok xs := by
  change (xs.map write).mapM read = .ok xs
  induction xs with
  | nil => rfl
  | cons x xs ih =>
    rw [List.map_cons, List.mapM_cons, h, ih]
    rfl

@[simp] theorem Slice.ofStored_object (s : Slice) : ofStored s.stored = .ok s := by
  simp [ofStored, stored, entryAt?, Value.shown, pure, Except.pure]

@[simp] theorem Point.ofStored_object (p : Point) : ofStored p.stored = .ok p := by
  simp [ofStored, stored, entryAt?, Value.shown, pure, Except.pure]

/-- The map of a bar has no fields but those that a bar can have. -/
@[simp] theorem Stretch.ofStored_object (s : Stretch) : ofStored s.stored = .ok s := by
  simp [ofStored, stored, Value.object, isFieldName, fieldNames, Value.lookup?]

@[simp] theorem Lane.ofStored_object (l : Lane) : ofStored l.stored = .ok l := by
  simp [ofStored, stored, entryAt?]

/-! ## Charts -/

namespace Chart

@[simp] theorem slicesOf_list (slices : List Slice) :
    slicesOf (.list (slices.map Slice.stored)) = .ok (some slices) :=
  map_eq_ok.mpr ⟨slices, readMembers_map Slice.ofStored_object slices, rfl⟩

@[simp] theorem slicesOf_null : slicesOf .null = .ok none := rfl

/-- **The map of a chart describes the chart.** -/
theorem ofStored_stored (c : Chart) : ofStored c.stored = .ok c := by
  cases c with
  | pie c => simp [ofStored, stored, entryAt?]
  | bar c =>
    -- an empty list of slices is stored as such, and no list of them as null
    obtain ⟨title, slices, labels, heights, axisTitle, top⟩ := c
    cases slices with
    | none => simp [ofStored, stored, entryAt?]
    | some slices => simp [ofStored, stored, entryAt?]
  | line c => simp [ofStored, stored, entryAt?]
  | gantt c => simp [ofStored, stored, entryAt?]

end Chart

end Taskboard
