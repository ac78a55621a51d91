import Taskboard.Proofs.Json.Faithful
import Taskboard.Proofs.Store.Loading
import Taskboard.Proofs.Value.Numbers
import Taskboard.Store.Definitions

/-!
# Proofs/Store/Saved — which saved files can be loaded

A store is asked for its schedule and for the filters and sorts of a workspace.  It is to give what
their files say, without the entries that are unfit, or to refuse a file with a failure of its own
(`Saved.serve`).  Other failures escape it (`Escapes`), and what lets them escape is named here:
bytes that are no text, whole numbers that are too long, a document that is no map of tasks, and an
entry with a number that is too large (`Row.TooLarge`).

* `Row.isBadShape_of_ofStored` — an entry that makes no row is left out, unless it is too large.
* `Store.saved_files_served_iff` — **which files are served**, and that all others escape.
-/

namespace Taskboard

/-! ## Entries -/

theorem Fault.isBadShape_of_isBadValue {f : Fault} (h : f.isBadValue = true) :
    f.isBadShape = true := by
  simp [isBadShape, h]

namespace Value

theorem isBadShape_of_item {key : String} {v : Value} {f : Fault} (h : v.item key = .error f) :
    f.isBadShape = true := by
  cases v with
  | map es =>
    rw [item] at h
    split at h
    · cases h
    · exact Except.error.inj h ▸ rfl
  | _ => exact Except.error.inj h ▸ rfl

theorem item_map_eq_ok {key : String} {es : List (Value × Value)} {v : Value} :
    (Value.map es).item key = .ok v ↔ lookup? key es = some v := by
  rw [item]
  cases hv : lookup? key es <;> simp

theorem isStorage_of_members {v : Value} {f : Fault} (h : v.members = .error f) :
    f.isStorage = false := by
  cases v with
  | list | map | text | bytes | set => cases h
  | _ => exact Except.error.inj h ▸ rfl

/-- What counts as nothing lies within the doubles. -/
theorem isTrue_of_not_inReals {v : Value} (h : v.inReals = false) : v.isTrue = true := by
  cases v with
  | int n =>
    have hzero : (Value.int 0).inReals = true := by decide +kernel
    refine decide_eq_true fun hn => ?_
    rw [hn, hzero] at h
    cases h
  | _ => nomatch h

end Value

namespace Row

/-- The time in a field of a map. -/
def storedTime (key : String) (es : List (Value × Value)) : Except Fault Int :=
  ((Value.map es).item key).bind Value.toInt

/-- **An entry with a number that is too large**: an infinite time, or a progress beyond the doubles.
What is read before that number is there. -/
inductive TooLarge : Value → Prop
  | start {es : List (Value × Value)} {id v : Value} (hid : Value.lookup? "task_id" es = some id)
    (hv : Value.lookup? "start_time" es = some v) (h : v.isInfinite = true) : TooLarge (.map es)
  | finish {es : List (Value × Value)} {id v : Value} {start : Int}
    (hid : Value.lookup? "task_id" es = some id) (hstart : storedTime "start_time" es = .ok start)
    (hv : Value.lookup? "end_time" es = some v) (h : v.isInfinite = true) : TooLarge (.map es)
  | progress {es : List (Value × Value)} {id v : Value} {start finish : Int}
    (hid : Value.lookup? "task_id" es = some id) (hstart : storedTime "start_time" es = .ok start)
    (hfinish : storedTime "end_time" es = .ok finish) (horder : start < finish)
    (hv : Value.lookup? "progress" es = some v) (h : v.inReals = false) : TooLarge (.map es)

/-- A map makes a row of its parts. -/
theorem ofStored_map (es : List (Value × Value)) :
    ofStored (.map es) = ((Value.map es).item "task_id").bind fun idValue =>
      idValue.shown.bind fun id =>
        (((Value.lookup? "name" es).getD .null).orElse idValue).shown.bind fun name =>
          (storedTime "start_time" es).bind fun start => (storedTime "end_time" es).bind fun finish =>
            ofParts id name start finish ((Value.lookup? "progress" es).getD (.real .zero))
              ((Value.lookup? "depends_on" es).getD .null) := by
  simp only [storedTime, bind_bind]
  rfl

/-! ### Entries that are left out -/

/-- A time that cannot be read is left out, unless it is infinite. -/
theorem fault_of_storedTime {key : String} {es : List (Value × Value)} {f : Fault}
    (h : storedTime key es = .error f) :
    f.isBadShape = true ∨ ∃ v, Value.lookup? key es = some v ∧ v.isInfinite = true := by
  rcases bind_eq_error.mp h with h | ⟨v, hv, h⟩
  · exact .inl (Value.isBadShape_of_item h)
  · cases hinf : v.isInfinite with
    | true => exact .inr ⟨v, Value.item_map_eq_ok.mp hv, hinf⟩
    | false => exact .inl ((Value.isBadShape_of_toInt h).trans (by simp [hinf]))

theorem isBadShape_of_orderFault (id : String) (start finish : Int) :
    (orderFault id start finish).isBadShape = true := by
  unfold orderFault
  split <;> rfl

/-- Parts make no row for their order, or for a progress that is no number. -/
theorem fault_of_ofParts {id name : String} {start finish : Int} {progress needs : Value}
    {f : Fault} (h : ofParts id name start finish progress needs = .error f) :
    f.isBadShape = true ∨ start < finish ∧ progress.inReals = false := by
  unfold ofParts at h
  split at h
  next horder =>
    have hprogress := map_eq_error.mp h
    unfold readProgress at hprogress
    split at hprogress
    · have hshape := Value.isBadShape_of_toReal (map_eq_error.mp hprogress)
      cases hreals : progress.inReals with
      | true => exact .inl (hshape.trans hreals)
      | false => exact .inr ⟨horder, rfl⟩
    · cases hprogress
  next => exact .inl (Except.error.inj h ▸ isBadShape_of_orderFault id start finish)

/-- **An entry that makes no row is left out, unless it is too large.** -/
theorem isBadShape_of_ofStored {v : Value} {f : Fault} (h : ofStored v = .error f) :
    f.isBadShape = true ∨ TooLarge v := by
  cases v with
  | map es =>
    rw [ofStored_map] at h
    rcases bind_eq_error.mp h with h | ⟨id, hid, h⟩
    · exact .inl (Value.isBadShape_of_item h)
    have hid := Value.item_map_eq_ok.mp hid
    rcases bind_eq_error.mp h with h | ⟨_, -, h⟩
    · exact .inl (Fault.isBadShape_of_isBadValue (Value.isBadValue_of_shown h))
    rcases bind_eq_error.mp h with h | ⟨_, -, h⟩
    · exact .inl (Fault.isBadShape_of_isBadValue (Value.isBadValue_of_shown h))
    rcases bind_eq_error.mp h with h | ⟨start, hstart, h⟩
    · exact (fault_of_storedTime h).imp_right fun ⟨_, hv, hinf⟩ => .start hid hv hinf
    rcases bind_eq_error.mp h with h | ⟨finish, hfinish, h⟩
    · exact (fault_of_storedTime h).imp_right fun ⟨_, hv, hinf⟩ => .finish hid hstart hv hinf
    refine (fault_of_ofParts h).imp_right fun ⟨horder, hreals⟩ => ?_
    cases hv : Value.lookup? "progress" es with
    | none =>
      rw [hv] at hreals
      cases hreals
    | some v =>
      rw [hv] at hreals
      exact .progress hid hstart hfinish horder hv hreals
  | _ =>
    have hfault : Except.error .wrongType = (Except.error f : Except Fault Row) := h
    exact .inl (Except.error.inj hfault ▸ rfl)

/-! ### Entries that are too large -/

theorem storedTime_of_isInfinite {key : String} {es : List (Value × Value)} {v : Value}
    (hv : Value.lookup? key es = some v) (h : v.isInfinite = true) :
    storedTime key es = .error .infiniteWhole :=
  bind_eq_error.mpr (.inr ⟨v, Value.item_map_eq_ok.mpr hv, Value.toInt_of_isInfinite h⟩)

theorem readProgress_of_not_inReals {v : Value} (h : v.inReals = false) :
    readProgress v = .error .numberTooLarge := by
  rw [readProgress, if_pos (Value.isTrue_of_not_inReals h)]
  exact map_eq_error.mpr (Value.toReal_of_not_inReals h)

/-- A faithful map with an id makes a row of its times and what follows them. -/
theorem ofStored_of_id {es : List (Value × Value)} {v : Value} (hes : Json.Faithful (.map es))
    (hid : Value.lookup? "task_id" es = some v) : ∃ id name, ofStored (.map es) =
      (storedTime "start_time" es).bind fun start => (storedTime "end_time" es).bind fun finish =>
        ofParts id name start finish ((Value.lookup? "progress" es).getD (.real .zero))
          ((Value.lookup? "depends_on" es).getD .null) := by
  have hv := (hes.lookup? hid).hasText
  have hname : (((Value.lookup? "name" es).getD .null).orElse v).HasText := by
    unfold Value.orElse
    split
    · cases hgiven : Value.lookup? "name" es with
      | none => trivial
      | some given => exact (hes.lookup? hgiven).hasText
    · exact hv
  obtain ⟨id, hid'⟩ := Value.exists_shown hv
  obtain ⟨name, hname⟩ := Value.exists_shown hname
  refine ⟨id, name, ?_⟩
  rw [ofStored_map, Value.item_map_eq_ok.mpr hid]
  simp only [Except.bind, hid', hname]

/-- **An entry that is too large is a failure**, and one that is not of its shape. -/
theorem ofStored_of_tooLarge {v : Value} (hv : Json.Faithful v) (h : TooLarge v) :
    ∃ f, ofStored v = .error f ∧ f.kind = .overflow := by
  cases h with
  | start hid hstart h =>
    obtain ⟨id, name, heq⟩ := ofStored_of_id hv hid
    refine ⟨.infiniteWhole, heq.trans ?_, rfl⟩
    exact bind_eq_error.mpr (.inl (storedTime_of_isInfinite hstart h))
  | finish hid hstart hfinish h =>
    obtain ⟨id, name, heq⟩ := ofStored_of_id hv hid
    refine ⟨.infiniteWhole, heq.trans (bind_eq_error.mpr (.inr ⟨_, hstart, ?_⟩)), rfl⟩
    exact bind_eq_error.mpr (.inl (storedTime_of_isInfinite hfinish h))
  | progress hid hstart hfinish horder hprogress h =>
    obtain ⟨id, name, heq⟩ := ofStored_of_id hv hid
    refine ⟨.numberTooLarge, heq.trans (bind_eq_error.mpr (.inr ⟨_, hstart, ?_⟩)), rfl⟩
    refine bind_eq_error.mpr (.inr ⟨_, hfinish, ?_⟩)
    rw [hprogress, ofParts, dif_pos horder]
    exact map_eq_error.mpr (readProgress_of_not_inReals h)

end Row

/-! ## Documents -/

theorem Fault.isBadShape_of_overflow {f : Fault} (h : f.kind = .overflow) :
    f.isBadShape = false := by
  simp [isBadShape, isBadValue, h]

theorem Fault.isStorage_of_overflow {f : Fault} (h : f.kind = .overflow) :
    f.isStorage = false := by
  simp [isStorage, h]

namespace Store

/-- Entries none of which is too large give the rows of the single entries, in order. -/
theorem rowsOf_of_not_tooLarge : ∀ {vs : List Value}, (∀ v ∈ vs, ¬ Row.TooLarge v) →
    rowsOf vs = .ok (vs.filterMap fun v => (Row.ofStored v).toOption)
  | [], _ => rfl
  | v :: vs, h => by
    obtain ⟨hv, hvs⟩ := List.forall_mem_cons.mp h
    have hrest := rowsOf_of_not_tooLarge hvs
    rw [rowsOf]
    cases hrow : Row.ofStored v with
    | ok r => rw [hrest, List.filterMap_cons_some (by rw [hrow]; rfl)]; rfl
    | error f =>
      have hshape := (Row.isBadShape_of_ofStored hrow).resolve_right hv
      rw [List.filterMap_cons_none (by rw [hrow]; rfl)]
      simpa [hshape] using hrest

/-- One entry that is too large is a failure of all. -/
theorem rowsOf_of_tooLarge : ∀ {vs : List Value}, (∀ v ∈ vs, Json.Faithful v) →
    (∃ v ∈ vs, Row.TooLarge v) → ∃ f, rowsOf vs = .error f ∧ f.kind = .overflow
  | v :: vs, hfaithful, h => by
    obtain ⟨hv, hvs⟩ := List.forall_mem_cons.mp hfaithful
    rw [rowsOf]
    by_cases hlarge : Row.TooLarge v
    · obtain ⟨f, hf, hkind⟩ := Row.ofStored_of_tooLarge hv hlarge
      exact ⟨f, by simp [hf, Fault.isBadShape_of_overflow hkind], hkind⟩
    · have hrest : ∃ u ∈ vs, Row.TooLarge u := by
        obtain ⟨u, hu, hularge⟩ := h
        rcases List.mem_cons.mp hu with rfl | hu
        · exact absurd hularge hlarge
        · exact ⟨u, hu, hularge⟩
      obtain ⟨f, hf, hkind⟩ := rowsOf_of_tooLarge hvs hrest
      refine ⟨f, ?_, hkind⟩
      cases hrow : Row.ofStored v with
      | ok r => exact map_eq_error.mpr hf
      | error e => simpa [(Row.isBadShape_of_ofStored hrow).resolve_right hlarge] using hf

end Store

/-! ## Files -/

/-- What is found where a document is saved. -/
inductive Saved where
  | absent
  /-- A folder. -/
  | folder
  /-- Bytes that are no text. -/
  | raw
  /-- A text that is no document. -/
  | prose
  /-- A document with a whole number of too many digits. -/
  | tooLong
  | document (v : Value)

namespace Saved

/-- What the bytes of a file are. -/
def ofBytes (bs : List UInt8) : Saved :=
  match Store.textOf bs with
  | .error _ => .raw
  | .ok text =>
    match Json.read text with
    | .ok v => .document v
    | .error .malformed => .prose
    | .error .tooManyDigits => .tooLong

/-- The entries of a saved schedule: the members of its tasks, if they have some. -/
def entries : Saved → List Value
  | .document (.map es) => (((Value.lookup? "tasks" es).getD (.list [])).members).toOption.getD []
  | _ => []

/-- The saved filters and sorts. -/
def definitions : Saved → Definitions
  | .document v => .ofStored v
  | _ => .none

/-- Whether reading is a matter of the store: there is nothing, or no document, or one. -/
def isLegible : Saved → Bool
  | .raw | .tooLong => false
  | _ => true

/-- **A schedule that can be read or refused**: if it is a document then it is a map whose tasks have
members, none of them too large. -/
structure IsSchedule (d : Saved) : Prop where
  legible : d.isLegible = true
  tasks : ∀ v, d = .document v → ∃ es vs, v = .map es ∧
    ((Value.lookup? "tasks" es).getD (.list [])).members = .ok vs
  fits : ∀ v ∈ d.entries, ¬ Row.TooLarge v

theorem entries_of_members {es : List (Value × Value)} {vs : List Value}
    (h : ((Value.lookup? "tasks" es).getD (.list [])).members = .ok vs) :
    (document (.map es)).entries = vs := by
  rw [entries, h]
  rfl

theorem faithful_of_ofBytes {bs : List UInt8} {v : Value} (h : ofBytes bs = .document v) :
    Json.Faithful v := by
  unfold ofBytes at h
  split at h
  · cases h
  · split at h
    next hread =>
      cases h
      exact Json.faithful_of_read hread
    all_goals cases h

end Saved

/-- **What a store answers**: it refuses a folder and a text that is no document, and else gives what
is asked for. -/
def Saved.serve {α : Type} (refusal : Fault) (a : α) : Saved → Except Fault α
  | .folder | .prose => .error refusal
  | _ => .ok a

/-- A failure that is none of the store escapes. -/
def Escapes {α : Type} (result : Except Fault α) : Prop :=
  ∃ f, f.isStorage = false ∧ result = .error f

theorem Saved.not_escapes_serve {α : Type} {refusal : Fault} (h : refusal.isStorage = true) (a : α)
    (d : Saved) : ¬ Escapes (d.serve refusal a) := by
  rintro ⟨f, hf, heq⟩
  cases d with
  | folder | prose =>
    rw [← Except.error.inj heq, h] at hf
    cases hf
  | _ => cases heq

/-- What is served does not escape, so a condition that tells one from the other tells both. -/
theorem eq_iff_and_escapes_iff {α : Type} {result answer : Except Fault α} {p : Prop}
    (hanswer : ¬ Escapes answer) (h : p → result = answer) (h' : ¬ p → Escapes result) :
    (result = answer ↔ p) ∧ (Escapes result ↔ ¬ p) := by
  have hapart : result = answer → ¬ Escapes result := fun heq => heq ▸ hanswer
  by_cases hp : p
  · exact ⟨iff_of_true (h hp) hp, iff_of_false (hapart (h hp)) (not_not_intro hp)⟩
  · exact ⟨iff_of_false (fun heq => hapart heq (h' hp)) hp, iff_of_true (h' hp) hp⟩

namespace Store

variable (s : Store)

/-- What is found at a path. -/
def saved (path : Path) : Saved :=
  if path.isClean && s.files.holds path then
    match s.files.file? path with
    | none => .folder
    | some (bytes, _) => .ofBytes bytes
  else .absent

theorem document?_eq (path : Path) (refusal : Fault) :
    s.document? path refusal = match s.saved path with
      | .absent => .ok none
      | .folder | .prose => .error refusal
      | .raw => .error .notUtf8
      | .tooLong => .error .tooManyDigits
      | .document v => .ok (some v) := by
  unfold document? saved
  split
  next =>
    cases s.files.file? path with
    | none => rfl
    | some file =>
      simp only [Saved.ofBytes]
      cases htext : textOf file.1 with
      | error f =>
        unfold textOf at htext
        split at htext
        · cases htext
        · exact congrArg Except.error (Except.error.inj htext).symm
      | ok text =>
        simp only [Except.bind]
        cases Json.read text with
        | ok v => rfl
        | error e => cases e <;> rfl
  next => rfl

theorem faithful_of_saved {path : Path} {v : Value} (h : s.saved path = .document v) :
    Json.Faithful v := by
  unfold saved at h
  split at h
  · split at h
    · cases h
    · exact Saved.faithful_of_ofBytes h
  · cases h

/-! ### The schedule -/

/-- The rows that the single entries of a saved schedule make, in order. -/
def savedRows : List Row :=
  (s.saved s.schedulePath).entries.filterMap fun v => (Row.ofStored v).toOption

/-- A schedule that can be read or refused is. -/
theorem loadSchedule_of_isSchedule (h : (s.saved s.schedulePath).IsSchedule) :
    s.loadSchedule = (s.saved s.schedulePath).serve .scheduleUnreadable s.savedRows := by
  have hlegible := h.legible
  have hfits := rowsOf_of_not_tooLarge h.fits
  unfold loadSchedule savedRows
  rw [document?_eq]
  cases hsaved : s.saved s.schedulePath with
  | absent | folder | prose => rfl
  | raw | tooLong =>
    rw [hsaved] at hlegible
    cases hlegible
  | document v =>
    obtain ⟨es, vs, rfl, hvs⟩ := h.tasks v hsaved
    rw [hsaved, Saved.entries_of_members hvs] at hfits
    rw [Saved.entries_of_members hvs]
    exact bind_eq_ok.mpr ⟨some (.map es), rfl, bind_eq_ok.mpr ⟨_, rfl,
      bind_eq_ok.mpr ⟨vs, hvs, hfits⟩⟩⟩

/-- A document that is no map of tasks is a failure, and so is one with an entry too large. -/
theorem escapes_rowsOfDocument {v : Value} (hv : Json.Faithful v)
    (h : ¬ (Saved.document v).IsSchedule) : Escapes (rowsOfDocument v) := by
  cases v with
  | map es =>
    cases hvs : ((Value.lookup? "tasks" es).getD (.list [])).members with
    | error f =>
      exact ⟨f, Value.isStorage_of_members hvs, bind_eq_error.mpr (.inr ⟨_, rfl,
        bind_eq_error.mpr (.inl hvs)⟩)⟩
    | ok vs =>
      have hlarge : ∃ u ∈ vs, Row.TooLarge u := by
        by_contra hnone
        refine h ⟨rfl, fun w hw => ⟨es, vs, ?_, hvs⟩, fun u hu hularge => ?_⟩
        · cases hw
          rfl
        · exact hnone ⟨u, Saved.entries_of_members hvs ▸ hu, hularge⟩
      have htasks := hv.lookup?_getD "tasks" (d := .list []) trivial
      obtain ⟨f, hf, hkind⟩ := rowsOf_of_tooLarge (htasks.members hvs) hlarge
      exact ⟨f, Fault.isStorage_of_overflow hkind, bind_eq_error.mpr (.inr ⟨_, rfl,
        bind_eq_error.mpr (.inr ⟨vs, hvs, hf⟩)⟩)⟩
  | _ => exact ⟨.noOperation, rfl, rfl⟩

/-- All other files escape. -/
theorem escapes_loadSchedule (h : ¬ (s.saved s.schedulePath).IsSchedule) :
    Escapes s.loadSchedule := by
  have hempty {d : Saved} (hlegible : d.isLegible = true) (hd : ∀ v, d ≠ .document v)
      (hentries : d.entries = []) : d.IsSchedule :=
    ⟨hlegible, fun v hv => absurd hv (hd v), by simp [hentries]⟩
  unfold loadSchedule
  rw [document?_eq]
  cases hsaved : s.saved s.schedulePath with
  | absent | folder | prose =>
    rw [hsaved] at h
    exact absurd (hempty rfl (fun _ hv => by cases hv) rfl) h
  | raw => exact ⟨.notUtf8, rfl, rfl⟩
  | tooLong => exact ⟨.tooManyDigits, rfl, rfl⟩
  | document v =>
    rw [hsaved] at h
    obtain ⟨f, hf, hrows⟩ := escapes_rowsOfDocument (s.faithful_of_saved hsaved) h
    exact ⟨f, hf, bind_eq_error.mpr (.inr ⟨some v, rfl, hrows⟩)⟩

/-! ### Filters and sorts -/

theorem loadDefinitions_of_isLegible {workspace : String}
    (h : (s.saved (s.definitionsPath workspace)).isLegible = true) :
    s.loadDefinitions workspace = (s.saved (s.definitionsPath workspace)).serve
      .definitionsUnreadable (s.saved (s.definitionsPath workspace)).definitions := by
  unfold loadDefinitions
  rw [document?_eq]
  cases hsaved : s.saved (s.definitionsPath workspace) with
  | absent | document v | folder | prose => rfl
  | raw | tooLong =>
    rw [hsaved] at h
    cases h

theorem escapes_loadDefinitions {workspace : String}
    (h : ¬ (s.saved (s.definitionsPath workspace)).isLegible = true) :
    Escapes (s.loadDefinitions workspace) := by
  unfold loadDefinitions
  rw [document?_eq]
  cases hsaved : s.saved (s.definitionsPath workspace) with
  | raw => exact ⟨.notUtf8, rfl, rfl⟩
  | tooLong => exact ⟨.tooManyDigits, rfl, rfl⟩
  | absent | folder | prose | document v =>
    rw [hsaved] at h
    exact absurd rfl h

/-- **Which saved files are served.**  A schedule is, by the rows of its single entries in order,
exactly if it is one that can be read or refused, and filters and sorts are exactly if their file is
legible.  What is not served escapes. -/
theorem saved_files_served_iff (s : Store) (workspace : String) :
    let schedule := s.saved s.schedulePath
    let definitions := s.saved (s.definitionsPath workspace)
    ((s.loadSchedule = schedule.serve .scheduleUnreadable s.savedRows ↔ schedule.IsSchedule) ∧
      (Escapes s.loadSchedule ↔ ¬ schedule.IsSchedule)) ∧
    ((s.loadDefinitions workspace =
        definitions.serve .definitionsUnreadable definitions.definitions ↔
          definitions.isLegible = true) ∧
      (Escapes (s.loadDefinitions workspace) ↔ ¬ definitions.isLegible = true)) :=
  ⟨eq_iff_and_escapes_iff (Saved.not_escapes_serve rfl _ _) s.loadSchedule_of_isSchedule
      s.escapes_loadSchedule,
    eq_iff_and_escapes_iff (Saved.not_escapes_serve rfl _ _) s.loadDefinitions_of_isLegible
      s.escapes_loadDefinitions⟩

/-- A schedule with an entry that starts at an infinity, and one of nine milliseconds. -/
def endlessSchedule : String :=
  "\x7b\"tasks\":[\x7b\"task_id\":\"a\",\"start_time\":1e999\x7d," ++
    "\x7b\"task_id\":\"b\",\"start_time\":0,\"end_time\":9\x7d]\x7d"

/-- **One infinite time takes all rows**, and one byte that starts no character takes all filters and
sorts; neither failure is one of the store. -/
theorem endless_schedule_escapes :
    let s := ofFiles [("schedule.json", endlessSchedule.toUTF8.toList),
      ("filters_and_sorts.json", [0xff])]
    s.loadSchedule = .error .infiniteWhole ∧ s.savedRows.map Row.id = ["b"] ∧
      s.loadDefinitions "" = .error .notUtf8 := by
  intro s
  have hrows : s.loadSchedule.map (List.map Row.id) = .error .infiniteWhole := by decide +kernel
  exact ⟨map_eq_error.mp hrows, by decide +kernel, rfl⟩

end Store

end Taskboard
