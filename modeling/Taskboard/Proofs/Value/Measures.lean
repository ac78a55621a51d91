import Taskboard.Chart.Diagram
import Taskboard.Proofs.Json.Characters
import Taskboard.Proofs.Number.Monotone
import Taskboard.Proofs.Value.Numbers
import Taskboard.Proofs.Value.Printing

/-!
# Proofs/Value/Measures — numbers that a chart can show

Only one kind of number is without a text in a chart, a whole one beyond the doubles
(`Value.exists_compactNumber_iff`).  The axis of a diagram asks for more: it ends a little beyond
the greatest number, so it takes finite ones that leave room for it (`Value.IsMeasure`).

* `Value.exists_greatest` — the greatest of some numbers is one of them, or zero.
* `Value.IsMeasure.exists_bound`, `Value.IsMeasure.exists_ceiling` — where the axis ends.
-/

namespace Taskboard

-- powers are those of the naturals, and lists are gone through one by one, also where an importing
-- module knows other ways
attribute [local instance (high)] instPowNat List.decidableBAll

/-! ## Rounding up -/

/-- A double rounded up lies within the doubles. -/
theorem natAbs_le_of_ceil? {x : Binary64} {n : Int} (h : x.ceil? = some n) :
    n.natAbs ≤ unitsLimit := by
  cases x with
  | nan | infinite s => cases h
  | finite s m =>
    obtain rfl := Option.some.inj h
    have hunits : (-Binary64.signedUnits s m).natAbs = m.units := by
      unfold Binary64.signedUnits
      split <;> simp
    rw [Int.natAbs_neg, Int.fdiv_eq_ediv_of_nonneg _ (Int.natCast_nonneg _)]
    calc (-Binary64.signedUnits s m / unitsPerOne).natAbs
        ≤ (-Binary64.signedUnits s m).natAbs := Int.natAbs_ediv_le_natAbs _ _
      _ = m.units := hunits
      _ ≤ unitsLimit := Nat.le_of_lt m.representable.1

/-- A double rounded up is short, also with a little added. -/
theorem isShort_of_natAbs_le {n : Int} (h : n.natAbs ≤ unitsLimit + 5) : IsShort n := by
  have hlimit : unitsLimit + 5 < 10 ^ maxDecimalDigits := by decide +kernel
  exact isShort_of_natAbs_lt (Nat.lt_of_le_of_lt h hlimit)

namespace Value

/-! ## Texts of numbers -/

/-- A number has a text by its whole part if it is whole, and by its places if not. -/
theorem exists_compactNumber {v : Value} {x : Binary64} {places : Nat} (hx : v.toReal = .ok x)
    (hwhole : x.isWhole = true → ∃ n, v.toInt = .ok n ∧ IsShort n)
    (hplaces : ∃ t, v.fixedPlaces places = .ok t) : ∃ t, v.compactNumber places = .ok t := by
  unfold compactNumber
  rw [hx, Except.bind]
  split
  next h =>
    obtain ⟨n, hn, hshort⟩ := hwhole h
    rw [hn]
    exact exists_wholeText hshort
  next => exact hplaces

/-- **A number has a text in a chart exactly if** it is no whole one beyond the doubles. -/
theorem exists_compactNumber_iff {v : Value} (h : v.isNumber = true) (places : Nat) :
    (∃ t, v.compactNumber places = .ok t) ↔ v.inReals = true := by
  cases v with
  | bool b =>
    refine iff_of_true (exists_compactNumber rfl (fun _ => ⟨_, rfl, ?_⟩) ⟨_, rfl⟩) rfl
    cases b
    · exact isShort_zero
    · exact isShort_of_ofInt? (n := 1) (by decide +kernel)
  | int n =>
    constructor
    · rintro ⟨t, ht⟩
      obtain ⟨x, hx, -⟩ := bind_eq_ok.mp ht
      cases hreals : (int n).inReals with
      | true => rfl
      | false =>
        rw [toReal_of_not_inReals hreals] at hx
        cases hx
    · intro hreals
      have hsome : (Binary64.ofInt? n).isSome = true := hreals
      obtain ⟨x, hx⟩ := Option.isSome_iff_exists.mp hsome
      refine exists_compactNumber (x := x) ?_ (fun _ => ⟨n, rfl, isShort_of_ofInt? hsome⟩) ?_
      · rw [toReal, hx, Option.elim_some]
      · rw [fixedPlaces, hx, Option.elim_some]
        exact ⟨_, rfl⟩
  | real x =>
    refine iff_of_true (exists_compactNumber rfl (fun hwhole => ?_) ⟨_, rfl⟩) rfl
    cases x with
    | finite s m => exact ⟨_, rfl, isShort_truncate?_getD _⟩
    | nan | infinite s => cases hwhole
  | null | text | date | moment | bytes | list | map | set => cases h

/-- A whole number far within the doubles has one near it. -/
theorem inReals_of_natAbs_le {n : Int} (h : n.natAbs ≤ 2 ^ (1001 : Nat)) :
    (int n).inReals = true := by
  have hlimit : Magnitude.roundedUnits (2 ^ (1001 : Nat) * unitsPerOne) 1 < unitsLimit := by
    decide +kernel
  have hsome : (Magnitude.ofRatio? (n.natAbs * unitsPerOne) 1).isSome :=
    Magnitude.ofRatio?_isSome_iff.mpr (Nat.lt_of_le_of_lt
      (Magnitude.roundedUnits_mono (Nat.mul_le_mul_right _ h)) hlimit)
  rwa [inReals, Binary64.ofInt?, Option.isSome_map]

/-- A text in the characters of numbers, of one at least. -/
def IsNumberText (t : String) : Prop :=
  t.toList ≠ [] ∧ ∀ c ∈ t.toList, Json.isNumeric c = true

instance (t : String) : Decidable (IsNumberText t) := by unfold IsNumberText; infer_instance

theorem isNumberText_of_wholeText {n : Int} {t : String} (h : wholeText n = .ok t) :
    IsNumberText t := by
  unfold wholeText at h
  split at h
  next => cases h
  next =>
    obtain rfl := Except.ok.inj h
    refine ⟨?_, Json.isNumeric_intText n⟩
    rw [Json.toList_intText]
    exact List.append_ne_nil_of_right_ne_nil _ Nat.toDigits_ne_nil

theorem isNumberText_placePoint (places n : Nat) : IsNumberText (placePoint places n) := by
  unfold placePoint
  generalize hds : (padZeros (places + 1) (natText n)).toList = ds
  rw [padZeros, String.toList_append, String.toList_ofList, natText, String.toList_ofList] at hds
  have hnumeric : ∀ c ∈ ds, Json.isNumeric c = true := by
    rw [← hds]
    refine List.forall_mem_append.mpr ⟨fun c hc => ?_, fun c hc =>
      Json.isNumeric_of_isDigit (isDigit_toDigits hc)⟩
    rw [List.eq_of_mem_replicate hc]
    decide
  have hne : ds ≠ [] := by
    rw [← hds]
    exact List.append_ne_nil_of_right_ne_nil _ Nat.toDigits_ne_nil
  dsimp only
  split
  · exact ⟨by rwa [String.toList_ofList], by rwa [String.toList_ofList]⟩
  · rw [IsNumberText, String.toList_ofList]
    refine ⟨List.append_ne_nil_of_right_ne_nil _ (List.cons_ne_nil _ _), ?_⟩
    exact List.forall_mem_append.mpr ⟨fun c hc => hnumeric c (List.mem_of_mem_take hc),
      List.forall_mem_cons.mpr ⟨by decide, fun c hc => hnumeric c (List.mem_of_mem_drop hc)⟩⟩

theorem isNumberText_fixed (places : Nat) (x : Binary64) : IsNumberText (x.fixed places) := by
  cases x with
  | nan => exact (by decide : IsNumberText "nan")
  | infinite s =>
    cases s
    · exact (by decide : IsNumberText "inf")
    · exact (by decide : IsNumberText "-inf")
  | finite s m =>
    obtain ⟨hne, hall⟩ :=
      isNumberText_placePoint places (roundDiv (m.units * 10 ^ places) unitsPerOne)
    rw [Binary64.fixed, IsNumberText, String.toList_append]
    refine ⟨List.append_ne_nil_of_right_ne_nil _ hne, List.forall_mem_append.mpr ⟨?_, hall⟩⟩
    cases s <;> decide

/-- **The text of a number in a chart** is made of the characters of numbers. -/
theorem isNumberText_of_compactNumber {v : Value} {places : Nat} {t : String}
    (h : v.compactNumber places = .ok t) : IsNumberText t := by
  obtain ⟨x, -, h⟩ := bind_eq_ok.mp h
  split at h
  next =>
    obtain ⟨n, -, h⟩ := bind_eq_ok.mp h
    exact isNumberText_of_wholeText h
  next =>
    cases v with
    | real y =>
      obtain rfl := Except.ok.inj h
      exact isNumberText_fixed places y
    | bool b =>
      obtain rfl := Except.ok.inj h
      exact isNumberText_fixed places _
    | int n =>
      rw [fixedPlaces] at h
      cases hn : Binary64.ofInt? n with
      | none =>
        rw [hn] at h
        cases h
      | some y =>
        rw [hn] at h
        obtain rfl := Except.ok.inj h
        exact isNumberText_fixed places y
    | null | text | date | moment | bytes | list | map | set => cases h

/-! ## The greatest of some numbers -/

theorem exists_linePlace {v : Value} (h : v.isNumber = true) : ∃ p, v.linePlace = .ok p := by
  cases v with
  | bool b | int n => exact ⟨_, rfl⟩
  | real x => cases x <;> exact ⟨_, rfl⟩
  | null | text | date | moment | bytes | list | map | set => cases h

/-- Two numbers can be compared. -/
theorem exists_lessThan {v w : Value} (hv : v.isNumber = true) (hw : w.isNumber = true) :
    ∃ b, v.lessThan w = .ok b := by
  obtain ⟨p, hp⟩ := exists_linePlace hv
  obtain ⟨q, hq⟩ := exists_linePlace hw
  rw [lessThan, hp, hq]
  cases p <;> cases q <;> exact ⟨_, rfl⟩

/-- **The greatest of some numbers** is one of them, or zero. -/
theorem exists_greatest {vs : List Value} (h : ∀ v ∈ vs, v.isNumber = true) :
    ∃ top, greatest vs = .ok top ∧ top ∈ vs ++ [.int 0] := by
  have hall : ∀ v ∈ vs ++ [.int 0], v.isNumber = true :=
    List.forall_mem_append.mpr ⟨h, List.forall_mem_singleton.mpr rfl⟩
  -- going along the numbers, the top is one of those that were met
  have hrun (rest : List Value) : ∀ top, top.isNumber = true → (∀ v ∈ rest, v.isNumber = true) →
      ∃ t, (rest.foldlM (fun top v => (top.lessThan v).map fun b => if b then v else top) top)
        = .ok t ∧ t ∈ top :: rest := by
    induction rest with
    | nil => exact fun top _ _ => ⟨top, rfl, List.mem_singleton.mpr rfl⟩
    | cons v rest ih =>
      intro top htop hrest
      obtain ⟨hv, hrest⟩ := List.forall_mem_cons.mp hrest
      obtain ⟨b, hb⟩ := exists_lessThan htop hv
      rw [List.foldlM_cons, hb]
      obtain ⟨t, ht, hmem⟩ := ih (if b then v else top) (by split <;> assumption) hrest
      refine ⟨t, ht, ?_⟩
      rcases List.mem_cons.mp hmem with rfl | hmem
      · split
        · exact List.mem_cons_of_mem _ List.mem_cons_self
        · exact List.mem_cons_self
      · exact List.mem_cons_of_mem _ (List.mem_cons_of_mem _ hmem)
  unfold greatest
  split
  next hnil => simp at hnil
  next v rest hcons =>
    rw [hcons] at hall ⊢
    exact hrun rest v (hall v List.mem_cons_self) fun w hw => hall w (List.mem_cons_of_mem v hw)

/-! ## Measures -/

/-- **A number that a diagram can show**: it is finite, and a whole one is far within the
doubles. -/
def IsMeasure : Value → Prop
  | .bool _ => True
  | .int n => n.natAbs ≤ 2 ^ (1000 : Nat)
  | .real x => x.isFinite = true
  | _ => False

namespace IsMeasure

variable {v : Value}

theorem isNumber (h : v.IsMeasure) : v.isNumber = true := by
  cases v with
  | bool | int | real => rfl
  | null | text | date | moment | bytes | list | map | set => exact h.elim

theorem inReals (h : v.IsMeasure) : v.inReals = true := by
  cases v with
  | bool | real => rfl
  | int n => exact inReals_of_natAbs_le (Nat.le_trans h (by decide +kernel))
  | null | text | date | moment | bytes | list | map | set => exact h.elim

/-- A measure has a text. -/
theorem exists_compactNumber (h : v.IsMeasure) (places : Nat) :
    ∃ t, v.compactNumber places = .ok t :=
  (exists_compactNumber_iff h.isNumber places).mpr h.inReals

/-- A measure has a plain text. -/
theorem exists_shown (h : v.IsMeasure) : ∃ t, v.shown = .ok t := by
  cases v with
  | bool | real => exact ⟨_, rfl⟩
  | int n => exact exists_wholeText (isShort_of_ofInt? h.inReals)
  | null | text | date | moment | bytes | list | map | set => exact h.elim

/-- The axis of columns ends with a text. -/
theorem exists_bound (h : v.IsMeasure) :
    ∃ w t, v.plus headroom = .ok w ∧ w.formatted = .ok t := by
  have htext {w : Value} (hnumber : w.isNumber = true) (hreals : w.inReals = true) :
      ∃ t, w.formatted = .ok t := (exists_compactNumber_iff hnumber 2).mpr hreals
  cases v with
  | bool b =>
    have hreals : (Value.int ((if b then 1 else 0) + headroom)).inReals = true := by
      cases b <;> decide +kernel
    obtain ⟨t, ht⟩ := htext rfl hreals
    exact ⟨_, t, rfl, ht⟩
  | int n =>
    have hroom : (n + headroom).natAbs ≤ n.natAbs + 5 := Int.natAbs_add_le n headroom
    have hreals : (Value.int (n + headroom)).inReals = true := by
      refine inReals_of_natAbs_le (Nat.le_trans hroom (Nat.le_trans (Nat.add_le_add_right h 5) ?_))
      decide +kernel
    obtain ⟨t, ht⟩ := htext rfl hreals
    exact ⟨_, t, rfl, ht⟩
  | real x =>
    obtain ⟨t, ht⟩ := htext (w := .real (x + Binary64.ofInt headroom)) rfl rfl
    exact ⟨_, t, rfl, ht⟩
  | null | text | date | moment | bytes | list | map | set => exact h.elim

/-- The axis of a line ends with a whole number. -/
theorem exists_ceiling (h : v.IsMeasure) :
    ∃ n t, v.ceiling = .ok n ∧ wholeText (n + headroom) = .ok t := by
  have htext {n : Int} (hn : n.natAbs ≤ unitsLimit) : ∃ t, wholeText (n + headroom) = .ok t := by
    have hroom : (n + headroom).natAbs ≤ n.natAbs + 5 := Int.natAbs_add_le n headroom
    exact exists_wholeText (isShort_of_natAbs_le (Nat.le_trans hroom (Nat.add_le_add_right hn 5)))
  cases v with
  | bool b =>
    obtain ⟨t, ht⟩ := htext (n := if b then 1 else 0) (by cases b <;> decide +kernel)
    exact ⟨_, t, rfl, ht⟩
  | int n =>
    obtain ⟨t, ht⟩ := htext (Nat.le_trans h (by decide +kernel))
    exact ⟨_, t, rfl, ht⟩
  | real x =>
    cases x with
    | nan | infinite s => cases h
    | finite s m =>
      obtain ⟨t, ht⟩ := htext (natAbs_le_of_ceil? (x := .finite s m) rfl)
      exact ⟨_, t, rfl, ht⟩
  | null | text | date | moment | bytes | list | map | set => exact h.elim

/-- The greatest of some measures is one. -/
theorem exists_greatest {vs : List Value} (h : ∀ v ∈ vs, v.IsMeasure) :
    ∃ top, greatest vs = .ok top ∧ top.IsMeasure := by
  obtain ⟨top, htop, hmem⟩ := Value.exists_greatest fun v hv => (h v hv).isNumber
  refine ⟨top, htop, ?_⟩
  rcases List.mem_append.mp hmem with hmem | hmem
  · exact h top hmem
  · rw [List.mem_singleton.mp hmem]
    exact Nat.zero_le _

end IsMeasure

end Value

end Taskboard
