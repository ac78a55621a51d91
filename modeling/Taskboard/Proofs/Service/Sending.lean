import Taskboard.Proofs.Value.Printing
import Taskboard.Service.Tasks

/-!
# Proofs/Service/Sending — what a reply can hold

A body is written with the keys of each map in order, so not every value can be sent
(`Value.Sendable`).  Dates that are attributes themselves are texts by then; those deeper down are
header dates.

* `Reply.exists_json_iff` — **a body is sent exactly if it is sendable.**
* `Service.exists_taskList_iff` — **a list of tasks is sent exactly if all their attributes can be
  sent.**
-/

namespace Taskboard

open Json

/-! ## Values -/

namespace Value

/-- A key that can be written as a text. -/
def IsKey : Value → Prop
  | .null | .bool _ | .real _ | .text _ => True
  | .int n => IsShort n
  | _ => False

/-- Keys that have a common order: there is but one, or all are texts, or all are numbers. -/
def HaveOrder (keys : List Value) : Prop :=
  keys.length ≤ 1 ∨ (∀ k ∈ keys, ∃ s, k = .text s) ∨ ∀ k ∈ keys, k.isNumber = true

mutual
/-- **A value that can be sent**: no bytes and no sets are in it, its whole numbers are short, its
moments have a time in UTC that the calendar knows, and the keys of each of its maps can be written
and have an order. -/
def Sendable : Value → Prop
  | .null | .bool _ | .real _ | .text _ | .date _ => True
  | .int n => IsShort n
  | .moment m => ∃ u, m.universal = .ok u
  | .bytes _ | .set _ => False
  | .list xs => AllSendable xs
  | .map es => HaveOrder (es.map Prod.fst) ∧ EntriesSendable es
  termination_by structural v => v

/-- All members of a list can be sent. -/
def AllSendable : List Value → Prop
  | [] => True
  | v :: vs => v.Sendable ∧ AllSendable vs
  termination_by structural vs => vs

/-- All keys of some entries can be written, and all values sent. -/
def EntriesSendable : List (Value × Value) → Prop
  | [] => True
  | (k, v) :: es => k.IsKey ∧ v.Sendable ∧ EntriesSendable es
  termination_by structural es => es
end

theorem allSendable_iff {vs : List Value} : AllSendable vs ↔ ∀ v ∈ vs, v.Sendable := by
  induction vs with
  | nil => simp [AllSendable]
  | cons v vs ih => rw [AllSendable, ih, List.forall_mem_cons]

theorem entriesSendable_iff {es : List (Value × Value)} :
    EntriesSendable es ↔ ∀ e ∈ es, e.1.IsKey ∧ e.2.Sendable := by
  induction es with
  | nil => simp [EntriesSendable]
  | cons e es ih => rw [EntriesSendable, ih, List.forall_mem_cons, and_assoc]

/-- A map under texts can be sent if its values can. -/
theorem sendable_object {fields : List (String × Value)} :
    (Value.object fields).Sendable ↔ ∀ e ∈ fields, e.2.Sendable := by
  rw [Value.object, Sendable, entriesSendable_iff, List.forall_mem_map, List.map_map]
  refine (and_iff_right (.inr (.inl fun k hk => ?_))).trans
    (forall₂_congr fun e _ => and_iff_right trivial)
  obtain ⟨e, -, rfl⟩ := List.mem_map.mp hk
  exact ⟨e.1, rfl⟩

end Value

/-! ## Bodies -/

namespace Reply

theorem exists_keyText_iff {k : Value} : (∃ t, keyText k = .ok t) ↔ k.IsKey := by
  cases k with
  | int n => exact exists_wholeText_iff
  | null | bool b | real x | text s => exact iff_of_true ⟨_, rfl⟩ trivial
  | date d | moment m | bytes bs | list xs | map es | set xs =>
    exact iff_of_false (fun ⟨_, h⟩ => nomatch h) id

theorem haveOrder_iff {keys : List Value} : haveOrder keys = true ↔ Value.HaveOrder keys := by
  have htext : ∀ k : Value, isText k = true ↔ ∃ s, k = .text s := fun k => by
    cases k <;> simp [isText]
  simp only [haveOrder, Value.HaveOrder, Bool.or_eq_true, decide_eq_true_iff, List.all_eq_true,
    htext, or_assoc]

mutual
/-- **What can be written in a reply is sendable**, and nothing else. -/
theorem sendable_iff : ∀ v : Value,
    v.Sendable ↔ isOrderly v = true ∧ ∃ w, plain headerDates v = .ok w
  | .null | .bool _ | .real _ | .text _ | .date _ => iff_of_true trivial ⟨rfl, _, rfl⟩
  | .int n => by
    rw [plain, exists_map_eq_ok, exists_wholeText_iff]
    exact (and_iff_right rfl).symm
  | .moment m => by
    rw [plain, headerDates, Moment.header, exists_map_eq_ok, exists_map_eq_ok]
    exact (and_iff_right rfl).symm
  | .bytes _ | .set _ => iff_of_false id fun h => nomatch h.2
  | .list xs => by
    rw [plain, exists_map_eq_ok, isOrderly]
    exact allSendable_iff xs
  | .map es => by
    rw [plain, exists_map_eq_ok, isOrderly, Bool.and_eq_true, haveOrder_iff, and_assoc,
      ← entriesSendable_iff es]
    rfl
  termination_by structural v => v

theorem allSendable_iff : ∀ vs : List Value,
    Value.AllSendable vs ↔ areOrderly vs = true ∧ ∃ ws, plainAll headerDates vs = .ok ws
  | [] => iff_of_true trivial ⟨rfl, [], rfl⟩
  | v :: vs => by
    rw [plainAll, exists_bind_eq_ok fun _ => exists_map_eq_ok, areOrderly, Bool.and_eq_true, and_and_and_comm,
      ← sendable_iff v, ← allSendable_iff vs]
    rfl
  termination_by structural vs => vs

theorem entriesSendable_iff : ∀ es : List (Value × Value), Value.EntriesSendable es ↔
    haveOrderly es = true ∧ ∃ fs, plainEntries headerDates es = .ok fs
  | [] => iff_of_true trivial ⟨rfl, [], rfl⟩
  | (k, v) :: es => by
    have hvalue : (∀ t, (∃ fs, ((plain headerDates v).bind fun w =>
        (plainEntries headerDates es).map ((.text t, w) :: ·)) = .ok fs) ↔ _ ∧ _) := fun t =>
      exists_bind_eq_ok fun _ => exists_map_eq_ok
    rw [plainEntries, exists_bind_eq_ok hvalue, exists_keyText_iff, haveOrderly, Bool.and_eq_true,
      and_left_comm, and_and_and_comm, ← sendable_iff v, ← entriesSendable_iff es]
    rfl
  termination_by structural es => es
end

/-- **A body is sent exactly if it is sendable.** -/
theorem exists_json_iff {status : Nat} {body : Value} :
    (∃ reply, json status body = .ok reply) ↔ body.Sendable := by
  rw [sendable_iff, json]
  split
  next horderly => rw [exists_map_eq_ok, and_iff_right horderly]
  next hnot => exact iff_of_false (fun ⟨_, h⟩ => nomatch h) fun h => hnot h.1

theorem json_eq_ok {status : Nat} {body : Value} {reply : Reply} (h : json status body = .ok reply) :
    ∃ w, plain headerDates body = .ok w ∧ reply = ⟨status, some w⟩ := by
  unfold json at h
  split at h
  next =>
    obtain ⟨w, hw, rfl⟩ := map_eq_ok.mp h
    exact ⟨w, hw, rfl⟩
  next => cases h

end Reply

/-! ## Tasks -/

/-- A value that can be sent as an attribute, where a moment is told as it stands. -/
def Value.SendableAlone : Value → Prop
  | .moment m => ∀ s ∈ m.offset, Moment.offsetInRange s = true
  | v => v.Sendable

namespace Task

variable {t : Task} {tasks : List Task}

/-- **A task that can be sent**, as far as its attributes go. -/
def Sendable (t : Task) : Prop := ∀ e ∈ t.attributes, e.2.SendableAlone

/-- What a client is told of a task. -/
def shown (t : Task) : Except Fault Value := t.fields.bind (plain Reply.headerDates)

theorem exists_plainDate {v : Value} :
    (∃ w, plainDate v = .ok w ∧ w.Sendable) ↔ v.SendableAlone := by
  cases v with
  | moment m =>
    rw [plainDate, Value.SendableAlone, ← Moment.exists_text_iff, ← exists_map_eq_ok]
    refine exists_congr fun w => and_iff_left_of_imp fun hw => ?_
    obtain ⟨s, -, rfl⟩ := map_eq_ok.mp hw
    trivial
  | date d => exact iff_of_true ⟨_, rfl, trivial⟩ trivial
  | null | bool b | int n | real x | text s | bytes bs | list xs | map es | set xs =>
    simp only [plainDate, Except.ok.injEq, exists_eq_left']
    rfl

theorem exists_plainAttributes : ∀ {es : List (String × Value)},
    (∃ fs, plainAttributes es = .ok fs ∧ ∀ f ∈ fs, f.2.Sendable) ↔ ∀ e ∈ es, e.2.SendableAlone
  | [] => iff_of_true ⟨[], rfl, List.forall_mem_nil _⟩ (List.forall_mem_nil _)
  | (k, v) :: es => by
    rw [List.forall_mem_cons, ← exists_plainDate, ← exists_plainAttributes, plainAttributes]
    constructor
    · rintro ⟨fs, hfs, hsend⟩
      obtain ⟨w, hw, hrest⟩ := bind_eq_ok.mp hfs
      obtain ⟨gs, hgs, rfl⟩ := map_eq_ok.mp hrest
      obtain ⟨hfirst, hmore⟩ := List.forall_mem_cons.mp hsend
      exact ⟨⟨w, hw, hfirst⟩, gs, hgs, hmore⟩
    · rintro ⟨⟨w, hw, hfirst⟩, gs, hgs, hmore⟩
      exact ⟨_, bind_eq_ok.mpr ⟨w, hw, map_eq_ok.mpr ⟨gs, hgs, rfl⟩⟩,
        List.forall_mem_cons.mpr ⟨hfirst, hmore⟩⟩

theorem fields_eq (hmodified : ∀ m ∈ t.modified, ∃ s, m.isoText = .ok s) :
    ∃ changed : Value, changed.Sendable ∧ t.fields = (plainAttributes t.attributes).map fun fs =>
      .object [("id", .text t.id), ("attributes", .object fs), ("content", .text t.content),
        ("modified_at", changed)] := by
  unfold fields
  cases hm : t.modified with
  | none => exact ⟨.null, trivial, by cases plainAttributes t.attributes <;> rfl⟩
  | some m =>
    obtain ⟨s, hs⟩ := hmodified m hm
    exact ⟨.text s, trivial, by cases plainAttributes t.attributes <;> simp [hs, Except.bind,
      Except.map]⟩

/-- A task whose change can be told has fields that can be sent exactly if its attributes can. -/
theorem exists_fields (hmodified : ∀ m ∈ t.modified, ∃ s, m.isoText = .ok s) :
    (∃ v, t.fields = .ok v ∧ v.Sendable) ↔ t.Sendable := by
  obtain ⟨changed, hchanged, hfields⟩ := fields_eq hmodified
  have hobject (fs : List (String × Value)) : (Value.object [("id", .text t.id),
      ("attributes", .object fs), ("content", .text t.content), ("modified_at", changed)]).Sendable
        ↔ ∀ f ∈ fs, f.2.Sendable := by
    refine Value.sendable_object.trans ?_
    rw [← @Value.sendable_object fs]
    simp [hchanged, Value.Sendable]
  rw [Sendable, ← exists_plainAttributes, hfields]
  constructor
  · rintro ⟨v, hv, hsend⟩
    obtain ⟨fs, hfs, rfl⟩ := map_eq_ok.mp hv
    exact ⟨fs, hfs, (hobject fs).mp hsend⟩
  · rintro ⟨fs, hfs, hsend⟩
    exact ⟨_, map_eq_ok.mpr ⟨fs, hfs, rfl⟩, (hobject fs).mpr hsend⟩

theorem exists_mapM_fields : ∀ {tasks : List Task},
    (∀ t ∈ tasks, ∀ m ∈ t.modified, ∃ s, m.isoText = .ok s) →
      ((∃ vs, tasks.mapM fields = .ok vs ∧ ∀ v ∈ vs, v.Sendable) ↔ ∀ t ∈ tasks, t.Sendable)
  | [], _ => iff_of_true ⟨[], rfl, List.forall_mem_nil _⟩ (List.forall_mem_nil _)
  | t :: tasks, h => by
    obtain ⟨ht, htasks⟩ := List.forall_mem_cons.mp h
    rw [List.forall_mem_cons, ← exists_fields ht, ← exists_mapM_fields htasks, List.mapM_cons]
    constructor
    · rintro ⟨vs, hvs, hsend⟩
      obtain ⟨v, hv, hrest⟩ := do_eq_ok.mp hvs
      obtain ⟨ws, hws, heq⟩ := do_eq_ok.mp hrest
      obtain rfl := Except.ok.inj heq
      obtain ⟨hfirst, hmore⟩ := List.forall_mem_cons.mp hsend
      exact ⟨⟨v, hv, hfirst⟩, ws, hws, hmore⟩
    · rintro ⟨⟨v, hv, hfirst⟩, ws, hws, hmore⟩
      exact ⟨v :: ws, do_eq_ok.mpr ⟨v, hv, do_eq_ok.mpr ⟨ws, hws, rfl⟩⟩,
        List.forall_mem_cons.mpr ⟨hfirst, hmore⟩⟩

theorem mapM_shown : ∀ {tasks : List Task} {vs ws : List Value}, tasks.mapM fields = .ok vs →
    plainAll Reply.headerDates vs = .ok ws → tasks.mapM shown = .ok ws
  | [], vs, ws, hfields, hplain => by
    obtain rfl := Except.ok.inj hfields
    exact hplain
  | t :: tasks, vs, ws, hfields, hplain => by
    rw [List.mapM_cons] at hfields ⊢
    obtain ⟨v, hv, hrest⟩ := do_eq_ok.mp hfields
    obtain ⟨us, hus, heq⟩ := do_eq_ok.mp hrest
    obtain rfl := Except.ok.inj heq
    obtain ⟨w, hw, hplain⟩ := bind_eq_ok.mp hplain
    obtain ⟨xs, hxs, rfl⟩ := map_eq_ok.mp hplain
    exact do_eq_ok.mpr ⟨w, bind_eq_ok.mpr ⟨v, hv, hw⟩,
      do_eq_ok.mpr ⟨xs, mapM_shown hus hxs, rfl⟩⟩

end Task

namespace Service

variable {tasks : List Task}

/-- **A list of tasks is sent exactly if each of them can be.** -/
theorem exists_taskList_iff (hmodified : ∀ t ∈ tasks, ∀ m ∈ t.modified, ∃ s, m.isoText = .ok s)
    (hcount : IsShort tasks.length) :
    (∃ reply, taskList tasks = .ok reply) ↔ ∀ t ∈ tasks, t.Sendable := by
  have hbody (vs : List Value) : (Reply.success [("tasks", .list vs),
      ("count", .int tasks.length)]).Sendable ↔ ∀ v ∈ vs, v.Sendable := by
    rw [Reply.success, Value.sendable_object, ← Value.allSendable_iff]
    simp [Value.Sendable, hcount]
  rw [← Task.exists_mapM_fields hmodified]
  constructor
  · rintro ⟨reply, h⟩
    obtain ⟨vs, hvs, h⟩ := bind_eq_ok.mp h
    exact ⟨vs, hvs, (hbody vs).mp (Reply.exists_json_iff.mp ⟨reply, h⟩)⟩
  · rintro ⟨vs, hvs, hsend⟩
    obtain ⟨reply, h⟩ := Reply.exists_json_iff.mpr ((hbody vs).mpr hsend)
    exact ⟨reply, bind_eq_ok.mpr ⟨vs, hvs, h⟩⟩

/-- A list of tasks is sent as what a client is told of each. -/
theorem taskList_eq_ok {reply : Reply} (h : taskList tasks = .ok reply) :
    ∃ shown, tasks.mapM Task.shown = .ok shown ∧ reply = ⟨200, some (Reply.success
      [("tasks", .list shown), ("count", .int tasks.length)])⟩ := by
  obtain ⟨vs, hvs, h⟩ := bind_eq_ok.mp h
  obtain ⟨w, hw, rfl⟩ := Reply.json_eq_ok h
  have hbody : plain Reply.headerDates (Reply.success [("tasks", .list vs),
      ("count", .int tasks.length)]) = (plainAll Reply.headerDates vs).bind fun ws =>
        (wholeText tasks.length).map fun _ =>
          Reply.success [("tasks", .list ws), ("count", .int tasks.length)] := by
    simp only [Reply.success, Value.object, List.map_cons, List.map_nil, plain, plainEntries, keyText]
    cases plainAll Reply.headerDates vs with
    | error f => rfl
    | ok ws => cases wholeText tasks.length <;> rfl
  rw [hbody] at hw
  obtain ⟨ws, hws, hw⟩ := bind_eq_ok.mp hw
  obtain ⟨_, -, rfl⟩ := map_eq_ok.mp hw
  exact ⟨ws, Task.mapM_shown hvs hws, rfl⟩

end Service

end Taskboard
