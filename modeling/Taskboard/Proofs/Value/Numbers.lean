import Taskboard.Value.Time

/-!
# Proofs/Value/Numbers — how a value fails to be a number

A value that is taken for a number fails by its shape, or by its text, or because it is too large.
Only a whole number beyond the doubles is too large for a double (`Value.inReals`), and only an
infinity for a whole number (`Value.isInfinite`).  A time that is asked for is there or not
(`Value.time?`), unless it is too large or the moment has no instant (`Value.tellsTime`).

* `Value.isBadShape_of_toReal`, `Value.isBadShape_of_toInt` — which failures are of the shape.
* `Value.epochMs?_eq_ok` — **the times that can be asked for.**
-/

namespace Taskboard

namespace Value

/-- Whether a value is no whole number beyond the doubles. -/
def inReals : Value → Bool
  | .int n => (Binary64.ofInt? n).isSome
  | _ => true

/-- Whether a value is an infinity. -/
def isInfinite : Value → Bool
  | .real (.infinite _) => true
  | _ => false

/-- A text is a double or is none. -/
theorem eq_unreadableNumber_of_readReal {s : String} {f : Fault} (h : readReal s = .error f) :
    f = .unreadableNumber := by
  simp only [readReal] at h
  split at h
  · exact (Except.error.inj h).symm
  · split at h
    · cases h
    · exact (Except.error.inj h).symm

/-- A value within the doubles fails to be one by its shape. -/
theorem isBadShape_of_toReal {v : Value} {f : Fault} (h : v.toReal = .error f) :
    f.isBadShape = v.inReals := by
  cases v with
  | int n =>
    simp only [toReal, inReals] at h ⊢
    generalize Binary64.ofInt? n = x at h ⊢
    cases x with
    | some x => nomatch h
    | none => exact Except.error.inj h ▸ rfl
  | text s | bytes bs => exact eq_unreadableNumber_of_readReal h ▸ rfl
  | bool b | real x => nomatch h
  | null | date | moment | list | map | set => exact Except.error.inj h ▸ rfl

/-- A whole number beyond the doubles is too large for one. -/
theorem toReal_of_not_inReals {v : Value} (h : v.inReals = false) :
    v.toReal = .error .numberTooLarge := by
  cases v with
  | int n =>
    simp only [toReal, inReals] at h ⊢
    generalize Binary64.ofInt? n = x at h ⊢
    cases x with
    | some x => cases h
    | none => rfl
  | _ => nomatch h

theorem isBadShape_of_readInt {s : String} {f : Fault} (h : readInt s = .error f) :
    f.isBadShape = true := by
  simp only [readInt] at h
  split at h
  · exact Except.error.inj h ▸ rfl
  · split at h
    · exact Except.error.inj h ▸ rfl
    · split at h
      · exact Except.error.inj h ▸ rfl
      · cases h

/-- What is no infinity fails to be a whole number by its shape. -/
theorem isBadShape_of_toInt {v : Value} {f : Fault} (h : v.toInt = .error f) :
    f.isBadShape = !v.isInfinite := by
  cases v with
  | text s | bytes bs => exact isBadShape_of_readInt h
  | real x =>
    cases x with
    | finite s m => nomatch h
    | infinite s | nan => exact Except.error.inj h ▸ rfl
  | bool b | int n => nomatch h
  | null | date | moment | list | map | set => exact Except.error.inj h ▸ rfl

/-- An infinity is too large for a whole number. -/
theorem toInt_of_isInfinite {v : Value} (h : v.isInfinite = true) :
    v.toInt = .error .infiniteWhole := by
  cases v with
  | real x =>
    cases x with
    | infinite s => rfl
    | _ => nomatch h
  | _ => nomatch h

/-! ## Times -/

/-- The milliseconds since 1970 that a value names, none where it names no time. -/
def time? : Value → Option Int
  | .bool _ => none
  | .int n => some n
  | .real x => x.truncate?
  | v => v.moment?.bind fun m => m.epochMs.toOption

/-- Whether a value has a time or none: it is not too large, and its moment has an instant. -/
def tellsTime (v : Value) : Bool :=
  v.inReals && v.moment?.all fun m => Moment.offsetInRange (m.offset.getD 0)

theorem exists_epochMs {m : Moment} :
    (∃ ms, m.epochMs = .ok ms) ↔ Moment.offsetInRange (m.offset.getD 0) = true := by
  constructor
  · rintro ⟨ms, h⟩
    obtain ⟨x, hx, -⟩ := map_eq_ok.mp h
    obtain ⟨us, hus, -⟩ := map_eq_ok.mp hx
    rw [Moment.instant] at hus
    split at hus
    next hrange => exact hrange
    next => nomatch hus
  · exact fun h => ⟨_, map_eq_ok.mpr ⟨_, map_eq_ok.mpr ⟨m.micros, if_pos h, rfl⟩, rfl⟩⟩

/-- A whole number beyond the doubles is too large for a time. -/
theorem epochMs?_of_not_inReals {v : Value} (h : v.inReals = false) :
    v.epochMs? = .error .numberTooLarge := by
  cases v with
  | int n =>
    simp only [inReals] at h
    simp only [epochMs?, h, Bool.false_eq_true, if_false]
  | _ => nomatch h

/-- **The times that can be asked for.** -/
theorem epochMs?_eq_ok {v : Value} {o : Option Int} :
    v.epochMs? = .ok o ↔ v.tellsTime = true ∧ o = v.time? := by
  cases v with
  | int n =>
    simp only [epochMs?, tellsTime, inReals, time?, moment?, Option.all_none, Bool.and_true]
    generalize Binary64.ofInt? n = x
    cases x <;> simp [eq_comm]
  | bool b | real x => simp [epochMs?, tellsTime, inReals, time?, moment?, eq_comm]
  | _ =>
    simp only [epochMs?, tellsTime, inReals, time?, Bool.true_and]
    split
    next hnone => simp [hnone, eq_comm]
    next m hm =>
      rw [hm, Option.all_some, ← exists_epochMs]
      cases hms : m.epochMs <;> simp [hms, Except.map, Except.toOption, eq_comm]

end Value

end Taskboard
