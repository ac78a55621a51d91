import Taskboard.Proofs.Schedule.Projection
import Taskboard.Proofs.Schedule.Stored
import Taskboard.Proofs.Store.Saved
import Taskboard.Service.Reply

/-!
# Proofs/Schedule/Sendable — rows that can be sent

A reply with a row in it has a body if JSON can hold the row (`Row.Sendable`).  This asks for less
than saving a row does: what the row depends on may be anything that a document holds.

* `Row.sendable_of_ofTask?` — **rows of tasks can be sent.**
* `Store.sendable_of_loadSchedule` — **rows of a saved schedule can be sent**, whatever its file
  holds.
-/

namespace Taskboard

/-! ## Replies -/

namespace Reply

mutual
/-- The keys of a faithful map are texts, so they have an order. -/
theorem isOrderly_of_faithful : ∀ v : Value, Json.Faithful v → isOrderly v = true
  | .null, _ | .bool _, _ | .int _, _ | .real _, _ | .text _, _ => rfl
  | .list xs, h => areOrderly_of_faithful xs h
  | .map es, h => by
    rw [isOrderly, Bool.and_eq_true]
    refine ⟨?_, haveOrderly_of_faithful es h.1⟩
    have hkeys : (es.map Prod.fst).all isText = true := by
      refine List.all_eq_true.mpr fun k hk => ?_
      obtain ⟨e, he, rfl⟩ := List.mem_map.mp hk
      obtain ⟨⟨s, hs⟩, -⟩ := h.1.mem e he
      rw [hs]
      rfl
    simp [haveOrder, hkeys]
  termination_by structural v => v

theorem areOrderly_of_faithful : ∀ xs : List Value, Json.FaithfulAll xs → areOrderly xs = true
  | [], _ => rfl
  | x :: xs, ⟨hx, hxs⟩ => by
    rw [areOrderly, isOrderly_of_faithful x hx, areOrderly_of_faithful xs hxs, Bool.and_self]
  termination_by structural xs => xs

theorem haveOrderly_of_faithful : ∀ es : List (Value × Value), Json.FaithfulEntries es →
    haveOrderly es = true
  | [], _ => rfl
  | (_, v) :: es, ⟨_, hv, hes⟩ => by
    rw [haveOrderly, isOrderly_of_faithful v hv, haveOrderly_of_faithful es hes, Bool.and_self]
  termination_by structural es => es
end

/-- **A faithful body is sent as it is.** -/
theorem json_of_faithful (status : Nat) {body : Value} (h : Json.Faithful body) :
    json status body = .ok ⟨status, some body⟩ := by
  rw [json, if_pos (isOrderly_of_faithful body h)]
  exact map_eq_ok.mpr ⟨body, Json.isPlain_of_faithful body h, rfl⟩

end Reply

/-! ## Rows -/

namespace Row

/-- **A row that JSON can hold.** -/
structure Sendable (r : Row) : Prop where
  start_short : IsShort r.start
  finish_short : IsShort r.finish
  needs : Json.Faithful r.needs

variable {r : Row}

theorem Sendable.faithful_fields (h : r.Sendable) : Json.Faithful r.fields :=
  Row.faithful_fields h.start_short h.finish_short h.needs

theorem Sendable.moved (h : r.Sendable) {start finish : Int} (horder : start < finish)
    (hstart : IsShort start) (hfinish : IsShort finish) : (r.moved start finish horder).Sendable :=
  ⟨hstart, hfinish, h.needs⟩

/-- **The row of a task can be sent.** -/
theorem sendable_of_ofTask? {keys : RowKeys} {t : Task} (h : ofTask? keys t = .ok (some r)) :
    r.Sendable := by
  obtain ⟨hprojects, hrow⟩ := ofTask?_eq_ok.mp h
  obtain ⟨p, hp, rfl⟩ := Option.map_eq_some_iff.mp hrow.symm
  obtain ⟨hstart, hfinish⟩ := Task.times_of_stretch? hp
  refine ⟨Value.isShort_of_epochMs? (Value.epochMs?_eq_ok.mpr ⟨hprojects.start, hstart.symm⟩),
    Value.isShort_of_epochMs? (Value.epochMs?_eq_ok.mpr ⟨hprojects.finish, hfinish.symm⟩), ?_⟩
  change Json.Faithful (t.firstNeed keys)
  unfold Task.firstNeed
  cases (t.dependencyIds keys.needs).head? <;> trivial

/-- A time in a faithful map is short. -/
theorem isShort_of_storedTime {key : String} {es : List (Value × Value)} {n : Int}
    (hes : Json.Faithful (.map es)) (h : storedTime key es = .ok n) : IsShort n := by
  obtain ⟨v, hv, hn⟩ := bind_eq_ok.mp h
  have hfield := hes.lookup? (Value.item_map_eq_ok.mp hv)
  refine Value.isShort_of_toInt (fun k hk => ?_) hn
  rw [hk] at hfield
  exact hfield

/-- **The row that a saved entry makes can be sent.** -/
theorem sendable_of_ofStored {v : Value} (hv : Json.Faithful v) (h : ofStored v = .ok r) :
    r.Sendable := by
  cases v with
  | map es =>
    rw [ofStored_map] at h
    obtain ⟨_, -, h⟩ := bind_eq_ok.mp h
    obtain ⟨_, -, h⟩ := bind_eq_ok.mp h
    obtain ⟨_, -, h⟩ := bind_eq_ok.mp h
    obtain ⟨start, hstart, h⟩ := bind_eq_ok.mp h
    obtain ⟨finish, hfinish, h⟩ := bind_eq_ok.mp h
    obtain ⟨-, -, -, rfl⟩ := ofParts_eq_ok h
    exact ⟨isShort_of_storedTime hv hstart, isShort_of_storedTime hv hfinish,
      hv.lookup?_getD "depends_on" trivial⟩
  | _ =>
    have hfault : Except.error .wrongType = (Except.ok r : Except Fault Row) := h
    cases hfault

end Row

/-! ## Saved schedules -/

/-- The entries of a saved document can be held by JSON, since the document was. -/
theorem Saved.faithful_of_mem_entries {d : Saved} (hd : ∀ v, d = .document v → Json.Faithful v)
    {u : Value} (hu : u ∈ d.entries) : Json.Faithful u := by
  unfold entries at hu
  split at hu
  next es =>
    have htasks := (hd _ rfl).lookup?_getD "tasks" (d := .list []) trivial
    cases hvs : ((Value.lookup? "tasks" es).getD (.list [])).members with
    | error f =>
      rw [hvs] at hu
      cases hu
    | ok vs =>
      rw [hvs] at hu
      exact htasks.members hvs u hu
  next => cases hu

/-- **The rows of a saved schedule can be sent**, whatever its file holds. -/
theorem Store.sendable_of_loadSchedule {s : Store} {rows : List Row}
    (h : s.loadSchedule = .ok rows) : ∀ r ∈ rows, r.Sendable := by
  have hschedule : (s.saved s.schedulePath).IsSchedule := Classical.byContradiction fun hnot => by
    obtain ⟨f, -, hf⟩ := s.escapes_loadSchedule hnot
    rw [hf] at h
    cases h
  have hserve := (s.loadSchedule_of_isSchedule hschedule).symm.trans h
  obtain rfl : s.savedRows = rows := by
    unfold Saved.serve at hserve
    split at hserve
    · cases hserve
    · cases hserve
    · exact Except.ok.inj hserve
  intro r hr
  obtain ⟨v, hv, hrow⟩ := List.mem_filterMap.mp hr
  refine Row.sendable_of_ofStored (Saved.faithful_of_mem_entries (fun _ => s.faithful_of_saved) hv) ?_
  cases hstored : Row.ofStored v with
  | ok r' =>
    rw [hstored] at hrow
    exact congrArg Except.ok (Option.some.inj hrow)
  | error f =>
    rw [hstored] at hrow
    cases hrow

end Taskboard
