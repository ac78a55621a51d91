import Mathlib.Data.List.Forall2
import Taskboard.Proofs.Number.Whole

/-!
# Proofs/Value/Printing — exactly which values can be printed

Printing a value fails for whole numbers that are too long, wherever they stand in it, and for
moments with an offset of a day or more that stand alone or in a list; inside of maps and sets a
moment is printed by its parts, which never fails.

* `Value.exists_literal_iff` — a value is printed inside of others exactly if its whole numbers are
  short.
* `Value.exists_shown_iff` — a value has a plain text exactly if it is `Shown`.
* `Value.exists_caption_iff` — **a value has a caption exactly if it is `Captioned`.**
-/

namespace Taskboard

/-! ## Steps -/

section

variable {α β : Type}

theorem not_exists_error {e : Fault} : ¬∃ a : α, Except.error e = .ok a := fun ⟨_, h⟩ => nomatch h

/-- Mapping the result of a step does not make it fail. -/
theorem exists_map_eq_ok {x : Except Fault α} {f : α → β} :
    (∃ b, x.map f = .ok b) ↔ ∃ a, x = .ok a := by
  cases x <;> simp [Except.map]

/-- Two steps succeed if both do, where the first one has no say in that of the second. -/
theorem exists_bind_eq_ok {x : Except Fault α} {f : α → Except Fault β} {P : Prop}
    (h : ∀ a, (∃ b, f a = .ok b) ↔ P) : (∃ b, x.bind f = .ok b) ↔ (∃ a, x = .ok a) ∧ P := by
  cases x with
  | error e => simp [Except.bind]
  | ok a => exact (h a).trans (and_iff_right ⟨a, rfl⟩).symm

/-- A step that gives a result leads to the next one. -/
theorem exists_do_of_ok {x : Except Fault α} {f : α → Except Fault β} {a : α} (hx : x = .ok a)
    (h : ∃ b, f a = .ok b) : ∃ b, (do f (← x)) = .ok b := by
  obtain ⟨b, hb⟩ := h
  exact ⟨b, do_eq_ok.mpr ⟨a, hx, hb⟩⟩

/-- A step for each element gives a result for each. -/
theorem mapM_eq_ok {f : α → Except Fault β} : ∀ {xs : List α} {ys : List β},
    xs.mapM f = .ok ys ↔ List.Forall₂ (fun x y => f x = .ok y) xs ys
  | [], ys => by
    rw [List.mapM_nil, List.forall₂_nil_left_iff]
    exact ⟨fun h => (Except.ok.inj h).symm, fun h => h ▸ rfl⟩
  | x :: xs, ys => by
    rw [List.mapM_cons, do_eq_ok, List.forall₂_cons_left_iff]
    refine exists_congr fun y => ?_
    rw [do_eq_ok, ← exists_and_left]
    refine exists_congr fun zs => and_congr_right fun _ => ?_
    rw [mapM_eq_ok]
    exact and_congr_right fun _ => ⟨fun h => (Except.ok.inj h).symm, fun h => h ▸ rfl⟩

/-- What is known of the result for each element is known of the results for all. -/
theorem map_eq_map_of_mapM {γ : Type} {f : α → Except Fault β} {P : α → Prop} {xs : List α}
    {ys : List β} {u : α → γ} {v : β → γ} (h : xs.mapM f = .ok ys) (hP : ∀ x ∈ xs, P x)
    (huv : ∀ x y, P x → f x = .ok y → v y = u x) : ys.map v = xs.map u := by
  rw [← List.forall₂_eq_eq_eq, List.forall₂_map_left_iff, List.forall₂_map_right_iff]
  have hall := (List.forall₂_and_left xs ys).mpr ⟨hP, mapM_eq_ok.mp h⟩
  exact List.Forall₂.flip (hall.imp fun x y hxy => huv x y hxy.1 hxy.2)

/-- Steps for all elements succeed exactly if each of them does. -/
theorem exists_mapM_eq_ok {f : α → Except Fault β} {xs : List α} :
    (∃ ys, xs.mapM f = .ok ys) ↔ ∀ x ∈ xs, ∃ y, f x = .ok y := by
  induction xs with
  | nil => exact iff_of_true ⟨[], rfl⟩ fun x hx => nomatch hx
  | cons x xs ih =>
    rw [List.mapM_cons, List.forall_mem_cons, ← ih]
    exact exists_bind_eq_ok fun y => exists_map_eq_ok

end

theorem exists_wholeText_iff {n : Int} : (∃ t, wholeText n = .ok t) ↔ IsShort n := by
  refine ⟨fun ⟨t, h⟩ => ?_, exists_wholeText⟩
  unfold wholeText at h
  split at h
  next => cases h
  next hshort => exact Nat.not_lt.mp hshort

/-- A moment is printed exactly if it is less than a day from UTC. -/
theorem Moment.exists_text_iff {m : Moment} {separator : String} :
    (∃ s, m.text separator = .ok s) ↔ ∀ s ∈ m.offset, offsetInRange s = true := by
  unfold Moment.text
  cases m.offset with
  | none => exact iff_of_true ⟨_, rfl⟩ fun s hs => absurd hs (Option.not_mem_none s)
  | some offset =>
    simp only [Option.mem_def, Option.some.injEq, forall_eq']
    split
    next hrange => exact iff_of_true ⟨_, rfl⟩ hrange
    next hfar => exact iff_of_false not_exists_error hfar

namespace Value

/-! ## Inside of others -/

mutual
/-- The whole numbers in a value are short, at any depth. -/
def IntsShort : Value → Prop
  | .int n => IsShort n
  | .list xs | .set xs => AllIntsShort xs
  | .map es => EntriesIntsShort es
  | _ => True
  termination_by structural v => v

/-- The whole numbers in the members of a list are short. -/
def AllIntsShort : List Value → Prop
  | [] => True
  | x :: xs => IntsShort x ∧ AllIntsShort xs
  termination_by structural xs => xs

/-- The whole numbers in the keys and values of some entries are short. -/
def EntriesIntsShort : List (Value × Value) → Prop
  | [] => True
  | (k, v) :: es => IntsShort k ∧ IntsShort v ∧ EntriesIntsShort es
  termination_by structural es => es
end

mutual
/-- **What can be printed inside of others.** -/
theorem exists_literal_iff : ∀ v : Value, (∃ s, v.literal = .ok s) ↔ v.IntsShort
  | .null | .bool _ | .real _ | .text _ | .date _ | .moment _ | .bytes _ | .set [] =>
    iff_of_true ⟨_, rfl⟩ trivial
  | .int _ => exists_wholeText_iff
  | .list xs => by
    rw [literal, exists_map_eq_ok]
    exact exists_literals_iff xs
  | .set (x :: xs) => by
    rw [literal, exists_map_eq_ok]
    exact exists_literals_iff (x :: xs)
  | .map es => by
    rw [literal, exists_map_eq_ok]
    exact exists_entryLiterals_iff es
  termination_by structural v => v

theorem exists_literals_iff : ∀ xs : List Value, (∃ ts, literals xs = .ok ts) ↔ AllIntsShort xs
  | [] => iff_of_true ⟨[], rfl⟩ trivial
  | x :: xs => by
    rw [literals, exists_bind_eq_ok fun _ => exists_map_eq_ok, exists_literal_iff x,
      exists_literals_iff xs]
    rfl
  termination_by structural xs => xs

theorem exists_entryLiterals_iff : ∀ es : List (Value × Value),
    (∃ ts, entryLiterals es = .ok ts) ↔ EntriesIntsShort es
  | [] => iff_of_true ⟨[], rfl⟩ trivial
  | (k, v) :: es => by
    rw [entryLiterals, exists_bind_eq_ok fun _ => exists_bind_eq_ok fun _ => exists_map_eq_ok,
      exists_literal_iff k, exists_literal_iff v, exists_entryLiterals_iff es]
    rfl
  termination_by structural es => es
end

/-! ## Plain texts -/

/-- **A value with a plain text**: its whole numbers are short, and it is no moment of a day or more
from UTC. -/
def Shown : Value → Prop
  | .moment m => ∀ s ∈ m.offset, Moment.offsetInRange s = true
  | v => v.IntsShort

/-- **A value has a plain text exactly if it is shown.** -/
theorem exists_shown_iff (v : Value) : (∃ s, v.shown = .ok s) ↔ v.Shown := by
  cases v with
  | moment m => exact Moment.exists_text_iff
  | text s => exact iff_of_true ⟨s, rfl⟩ trivial
  | date d => exact iff_of_true ⟨d.isoText, rfl⟩ trivial
  | null => exact exists_literal_iff .null
  | bool b => exact exists_literal_iff (.bool b)
  | int n => exact exists_literal_iff (.int n)
  | real x => exact exists_literal_iff (.real x)
  | bytes bs => exact exists_literal_iff (.bytes bs)
  | list xs => exact exists_literal_iff (.list xs)
  | map es => exact exists_literal_iff (.map es)
  | set xs => exact exists_literal_iff (.set xs)

/-! ## Captions -/

mutual
/-- **A value with a caption**: its whole numbers are short, and it is no moment of a day or more
from UTC, nor a list with one. -/
def Captioned : Value → Prop
  | .moment m => ∀ s ∈ m.offset, Moment.offsetInRange s = true
  | .list xs => AllCaptioned xs
  | .int n => IsShort n
  | .set xs => AllIntsShort xs
  | .map es => EntriesIntsShort es
  | _ => True
  termination_by structural v => v

/-- All members of a list have captions. -/
def AllCaptioned : List Value → Prop
  | [] => True
  | x :: xs => Captioned x ∧ AllCaptioned xs
  termination_by structural xs => xs
end

mutual
/-- **A value has a caption exactly if it is captioned.** -/
theorem exists_caption_iff : ∀ v : Value, (∃ s, v.caption = .ok s) ↔ v.Captioned
  | .null | .bool _ | .text _ | .date _ | .bytes _ => iff_of_true ⟨_, rfl⟩ trivial
  | .real x => by
    refine iff_of_true ?_ trivial
    rw [caption]
    split
    · exact exists_wholeText (isShort_truncate?_getD x)
    · exact ⟨_, rfl⟩
  | .int n => exists_literal_iff (.int n)
  | .moment m => Moment.exists_text_iff
  | .list xs => by
    rw [caption, exists_map_eq_ok]
    exact exists_captions_iff xs
  | .map es => exists_literal_iff (.map es)
  | .set xs => exists_literal_iff (.set xs)
  termination_by structural v => v

theorem exists_captions_iff : ∀ xs : List Value, (∃ ts, captions xs = .ok ts) ↔ AllCaptioned xs
  | [] => iff_of_true ⟨[], rfl⟩ trivial
  | x :: xs => by
    rw [captions, exists_bind_eq_ok fun _ => exists_map_eq_ok, exists_caption_iff x,
      exists_captions_iff xs]
    rfl
  termination_by structural xs => xs
end

end Value

end Taskboard
