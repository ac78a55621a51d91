import Taskboard.Proofs.Number.Whole

/-!
# Proofs/Value/Captions — values whose text can be written

A value has a text unless it holds a whole number that is too long, or a moment with an offset of a
day or more (`Value.HasText`).  No moment in a task's head has such an offset.

* `Value.exists_caption` — **a value that has a text has a caption**, whatever it holds.
-/

namespace Taskboard

namespace Value

mutual
/-- **A value whose text can be written**: its whole numbers are short enough, and its moments are
less than a day from UTC. -/
def HasText : Value → Prop
  | .int n => IsShort n
  | .moment m => ∀ s ∈ m.offset, Moment.offsetInRange s = true
  | .list xs | .set xs => AllHaveText xs
  | .map es => EntriesHaveText es
  | _ => True
  termination_by structural v => v

/-- The texts of all members of a list can be written. -/
def AllHaveText : List Value → Prop
  | [] => True
  | x :: xs => HasText x ∧ AllHaveText xs
  termination_by structural xs => xs

/-- The texts of all keys and values of some entries can be written. -/
def EntriesHaveText : List (Value × Value) → Prop
  | [] => True
  | (k, v) :: es => HasText k ∧ HasText v ∧ EntriesHaveText es
  termination_by structural es => es
end

mutual
theorem exists_literal : ∀ v : Value, v.HasText → ∃ s, v.literal = .ok s
  | .null, _ | .bool _, _ | .real _, _ | .text _, _ | .date _, _ | .moment _, _ | .bytes _, _
  | .set [], _ => ⟨_, rfl⟩
  | .int _, h => exists_wholeText h
  | .list xs, h => by
    obtain ⟨ts, hts⟩ := exists_literals xs h
    exact ⟨_, map_eq_ok.mpr ⟨ts, hts, rfl⟩⟩
  | .set (x :: xs), h => by
    obtain ⟨ts, hts⟩ := exists_literals (x :: xs) h
    exact ⟨_, map_eq_ok.mpr ⟨ts, hts, rfl⟩⟩
  | .map es, h => by
    obtain ⟨ts, hts⟩ := exists_entryLiterals es h
    exact ⟨_, map_eq_ok.mpr ⟨ts, hts, rfl⟩⟩
  termination_by structural v => v

theorem exists_literals : ∀ xs : List Value, AllHaveText xs → ∃ ts, literals xs = .ok ts
  | [], _ => ⟨[], rfl⟩
  | x :: xs, ⟨hx, hxs⟩ => by
    obtain ⟨t, ht⟩ := exists_literal x hx
    obtain ⟨ts, hts⟩ := exists_literals xs hxs
    exact ⟨t :: ts, bind_eq_ok.mpr ⟨t, ht, map_eq_ok.mpr ⟨ts, hts, rfl⟩⟩⟩
  termination_by structural xs => xs

theorem exists_entryLiterals : ∀ es : List (Value × Value), EntriesHaveText es →
    ∃ ts, entryLiterals es = .ok ts
  | [], _ => ⟨[], rfl⟩
  | (k, v) :: es, ⟨hk, hv, hes⟩ => by
    obtain ⟨a, ha⟩ := exists_literal k hk
    obtain ⟨b, hb⟩ := exists_literal v hv
    obtain ⟨ts, hts⟩ := exists_entryLiterals es hes
    exact ⟨_, bind_eq_ok.mpr ⟨a, ha, bind_eq_ok.mpr ⟨b, hb, map_eq_ok.mpr ⟨ts, hts, rfl⟩⟩⟩⟩
  termination_by structural es => es
end

/-- The plain text of a value. -/
theorem exists_shown {v : Value} (h : v.HasText) : ∃ s, v.shown = .ok s := by
  cases v with
  | text s => exact ⟨s, rfl⟩
  | date d => exact ⟨d.isoText, rfl⟩
  | moment m =>
    change ∃ s, m.text " " = .ok s
    unfold Moment.text
    split
    next => exact ⟨_, rfl⟩
    next s hs => exact ⟨_, if_pos (h s hs)⟩
  | _ => exact exists_literal _ h

mutual
/-- **A value that has a text has a caption.** -/
theorem exists_caption : ∀ v : Value, v.HasText → ∃ s, v.caption = .ok s
  | .null, _ | .bool _, _ => ⟨_, rfl⟩
  | .real x, _ => by
    rw [caption]
    split
    · exact exists_wholeText (isShort_truncate?_getD x)
    · exact ⟨_, rfl⟩
  | .list xs, h => by
    obtain ⟨ts, hts⟩ := exists_captions xs h
    exact ⟨_, map_eq_ok.mpr ⟨ts, hts, rfl⟩⟩
  | .int n, h => exists_shown (v := .int n) h
  | .moment m, h => exists_shown (v := .moment m) h
  | .map es, h => exists_shown (v := .map es) h
  | .set xs, h => exists_shown (v := .set xs) h
  | .text _, _ | .date _, _ | .bytes _, _ => ⟨_, rfl⟩
  termination_by structural v => v

theorem exists_captions : ∀ xs : List Value, AllHaveText xs → ∃ ts, captions xs = .ok ts
  | [], _ => ⟨[], rfl⟩
  | x :: xs, ⟨hx, hxs⟩ => by
    obtain ⟨t, ht⟩ := exists_caption x hx
    obtain ⟨ts, hts⟩ := exists_captions xs hxs
    exact ⟨t :: ts, bind_eq_ok.mpr ⟨t, ht, map_eq_ok.mpr ⟨ts, hts, rfl⟩⟩⟩
  termination_by structural xs => xs
end

end Value

end Taskboard
