import Taskboard.Json.Writer

/-!
# Proofs/Json/Plain — plain values and their texts

A value is *plain* if it is its own plain form (`Json.IsPlain`); the plain form of a value is
(`isPlain_of_plain`).  Its texts are taken at any depth, keys among them (`Value.texts`).
-/

namespace Taskboard

namespace Value

mutual
/-- **The texts in a value** at any depth, keys among them. -/
def texts : Value → List String
  | .text s => [s]
  | .list xs => textsAll xs
  | .set xs => textsAll xs
  | .map es => textsEntries es
  | _ => []
  termination_by structural v => v

/-- The texts in the members of a list. -/
def textsAll : List Value → List String
  | [] => []
  | v :: vs => v.texts ++ textsAll vs
  termination_by structural vs => vs

/-- The texts in the entries of a map. -/
def textsEntries : List (Value × Value) → List String
  | [] => []
  | (k, v) :: es => k.texts ++ v.texts ++ textsEntries es
  termination_by structural es => es
end

end Value

namespace Json

open Value

variable {dates : DateRule}

/-! ## Plain values -/

/-- Whether a value is its own plain form. -/
def IsPlain (dates : DateRule) (v : Value) : Prop := plain dates v = .ok v

/-- An entry of a plain map has a text for its key. -/
def IsPlainEntry (dates : DateRule) (e : Value × Value) : Prop :=
  (∃ t, e.1 = .text t) ∧ IsPlain dates e.2

@[simp] theorem isPlain_bool (b : Bool) : IsPlain dates (.bool b) := rfl

@[simp] theorem isPlain_real (x : Binary64) : IsPlain dates (.real x) := rfl

@[simp] theorem isPlain_text (s : String) : IsPlain dates (.text s) := rfl

theorem isPlain_int_of_digits {n : Int} (h : digitCount 10 n.natAbs ≤ maxDecimalDigits) :
    IsPlain dates (.int n) := by
  rw [IsPlain, plain, wholeText, if_neg (Nat.not_lt.mpr h)]
  rfl

theorem isPlain_int_iff {n : Int} :
    IsPlain dates (.int n) ↔ digitCount 10 n.natAbs ≤ maxDecimalDigits := by
  refine ⟨fun h => Nat.not_lt.mp fun hlong => ?_, isPlain_int_of_digits⟩
  obtain ⟨t, ht, -⟩ := map_eq_ok.mp h
  rw [wholeText, if_pos hlong] at ht
  cases ht

theorem isPlain_int {n : Int} (h : n.natAbs ≤ maxDecimalDigits) : IsPlain dates (.int n) :=
  isPlain_int_of_digits (Nat.le_trans digitCount_le h)

theorem plainAll_eq_self_iff {xs : List Value} :
    plainAll dates xs = .ok xs ↔ ∀ x ∈ xs, IsPlain dates x := by
  induction xs with
  | nil => simp [plainAll]
  | cons x xs ih =>
    rw [plainAll, bind_eq_ok, List.forall_mem_cons, ← ih]
    constructor
    · rintro ⟨y, hy, h⟩
      obtain ⟨ys, hys, heq⟩ := map_eq_ok.mp h
      obtain ⟨rfl, rfl⟩ := List.cons_eq_cons.mp heq
      exact ⟨hy, hys⟩
    · rintro ⟨hx, hxs⟩
      exact ⟨x, hx, map_eq_ok.mpr ⟨xs, hxs, rfl⟩⟩

theorem plainEntries_eq_self_iff {es : List (Value × Value)} :
    plainEntries dates es = .ok es ↔ ∀ e ∈ es, IsPlainEntry dates e := by
  induction es with
  | nil => simp [plainEntries]
  | cons e es ih =>
    obtain ⟨k, v⟩ := e
    rw [plainEntries, bind_eq_ok, List.forall_mem_cons, ← ih]
    constructor
    · rintro ⟨t, -, h⟩
      obtain ⟨w, hw, h⟩ := bind_eq_ok.mp h
      obtain ⟨fs, hfs, heq⟩ := map_eq_ok.mp h
      obtain ⟨he, rfl⟩ := List.cons_eq_cons.mp heq
      obtain ⟨rfl, rfl⟩ := Prod.mk.inj he
      exact ⟨⟨⟨t, rfl⟩, hw⟩, hfs⟩
    · rintro ⟨⟨⟨t, rfl⟩, hv⟩, hes⟩
      exact ⟨t, rfl, bind_eq_ok.mpr ⟨v, hv, map_eq_ok.mpr ⟨es, hes, rfl⟩⟩⟩

theorem isPlain_list {xs : List Value} :
    IsPlain dates (.list xs) ↔ ∀ x ∈ xs, IsPlain dates x := by
  rw [IsPlain, plain, map_eq_ok, ← plainAll_eq_self_iff]
  simp

theorem isPlain_map {es : List (Value × Value)} :
    IsPlain dates (.map es) ↔ ∀ e ∈ es, IsPlainEntry dates e := by
  rw [IsPlain, plain, map_eq_ok, ← plainEntries_eq_self_iff]
  simp

@[simp] theorem isPlain_object {fields : List (String × Value)} :
    IsPlain dates (.object fields) ↔ ∀ e ∈ fields, IsPlain dates e.2 := by
  rw [Value.object, isPlain_map, List.forall_mem_map]
  exact ⟨fun h e he => (h e he).2, fun h e he => ⟨⟨e.1, rfl⟩, h e he⟩⟩

mutual
/-- **Plain forms are plain.** -/
theorem isPlain_of_plain : ∀ (v : Value) {w : Value}, plain dates v = .ok w → IsPlain dates w
  | .null, _, h | .bool _, _, h | .real _, _, h | .text _, _, h => by cases h; rfl
  | .int n, _, h => by
    obtain ⟨t, ht, rfl⟩ := map_eq_ok.mp h
    exact map_eq_ok.mpr ⟨t, ht, rfl⟩
  | .date _, _, h | .moment _, _, h => by
    obtain ⟨t, -, rfl⟩ := map_eq_ok.mp h
    exact isPlain_text t
  | .list xs, _, h => by
    obtain ⟨ys, hys, rfl⟩ := map_eq_ok.mp h
    exact isPlain_list.mpr (isPlain_of_plainAll xs hys)
  | .map es, _, h => by
    obtain ⟨fs, hfs, rfl⟩ := map_eq_ok.mp h
    exact isPlain_map.mpr (isPlainEntry_of_plainEntries es hfs)
  termination_by structural v => v

theorem isPlain_of_plainAll : ∀ (xs : List Value) {ys : List Value},
    plainAll dates xs = .ok ys → ∀ y ∈ ys, IsPlain dates y
  | [], _, h => by cases h; simp
  | x :: xs, _, h => by
    obtain ⟨y, hy, h⟩ := bind_eq_ok.mp h
    obtain ⟨ys, hys, rfl⟩ := map_eq_ok.mp h
    exact List.forall_mem_cons.mpr ⟨isPlain_of_plain x hy, isPlain_of_plainAll xs hys⟩
  termination_by structural xs => xs

theorem isPlainEntry_of_plainEntries : ∀ (es : List (Value × Value)) {fs : List (Value × Value)},
    plainEntries dates es = .ok fs → ∀ f ∈ fs, IsPlainEntry dates f
  | [], _, h => by cases h; simp
  | (k, v) :: es, _, h => by
    obtain ⟨t, -, h⟩ := bind_eq_ok.mp h
    obtain ⟨w, hw, h⟩ := bind_eq_ok.mp h
    obtain ⟨fs, hfs, rfl⟩ := map_eq_ok.mp h
    exact List.forall_mem_cons.mpr
      ⟨⟨⟨t, rfl⟩, isPlain_of_plain v hw⟩, isPlainEntry_of_plainEntries es hfs⟩
  termination_by structural es => es
end

end Json

end Taskboard
