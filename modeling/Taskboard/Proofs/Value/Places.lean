import Taskboard.Proofs.Number.Scaling
import Taskboard.Proofs.Value.Numbers
import Taskboard.Proofs.Yaml.Values

/-!
# Proofs/Value/Places — numbers, their texts, and the doubles nearest to them

A number has an exact place on the line (`Value.linePlace`), and the double that it is taken for has
a place among the doubles.  The text of a number is taken for the same double, also where it lies
beyond all of them.  Rounding keeps order, so a number that is no more than another one is taken for
a double that is no more.

* `readReal_intText`, `readReal_text` — the text of a number is read as the number.
* `Value.Gives` — a number, and what gives it: the number itself or its text.
* `Value.Gives.exists_toReal` — **what gives a number is taken for the double nearest to it.**
-/

namespace Taskboard

-- powers are those of the naturals, also where an importing module knows other ones
attribute [local instance (high)] instPowNat

open Binary64

/-! ## Texts of numbers -/

/-- A decimal of digits only has the place of its whole number. -/
theorem Binary64.place?_ofDecimal_whole (negative : Bool) (n : Nat) :
    (ofDecimal negative n 0).place? = some (if negative then -(unitsPlace (n * unitsPerOne) 1 : Int)
      else unitsPlace (n * unitsPerOne) 1) := by
  unfold ofDecimal
  split
  next hzero =>
    have hnone : unitsPlace (0 * unitsPerOne) 1 = 0 := by
      simp [unitsPlace, Magnitude.roundedUnits_zero]
    rw [hzero, hnone]
    cases negative <;> rfl
  next hne =>
    dsimp only
    split
    next hmany =>
      -- more digits than a double can have before the point
      have hpow {k : Nat} (hk : k < digitCount 10 n) : 10 ^ k ≤ n :=
        Nat.le_trans (Nat.pow_le_pow_right (by decide) (by omega))
          (pow_digitCount_le (by decide) (Nat.pos_of_ne_zero hne))
      have hlarge : 10 ^ (400 : Nat) ≤ n := hpow (k := 400) (by omega)
      have hlimit : unitsPlace (10 ^ (400 : Nat) * unitsPerOne) 1 = unitsLimit := by decide +kernel
      have hmono := unitsPlace_mono (d := 1) (Nat.mul_le_mul_right unitsPerOne hlarge)
      have hplace : unitsPlace (n * unitsPerOne) 1 = unitsLimit :=
        Nat.le_antisymm (Nat.min_le_right _ _) (hlimit ▸ hmono)
      rw [hplace]
      rfl
    next hfew =>
      rw [if_neg (by omega), if_pos (Int.le_refl 0), place?_ofUnits_eq]
      simp

theorem readDecimal?_digits {ds : List Char} (hne : ds ≠ [])
    (h : ∀ c ∈ ds, c.isDigit = true) : readDecimal? ds = some (digitsValue ds, 0) := by
  have hspan : (ds ++ []).takeWhile Char.isDigit = ds ∧ (ds ++ []).dropWhile Char.isDigit = [] :=
    span_append h (by simp)
  rw [List.append_nil] at hspan
  have hempty : ds.isEmpty = false := List.isEmpty_eq_false_iff.mpr hne
  simp only [readDecimal?, hspan.1, hspan.2, hempty, Bool.false_and, Bool.false_eq_true, if_false,
    List.append_nil, List.length_nil]
  rfl

section

open Yaml Yaml.PlainKind

variable {c : Char} {cs : List Char}

/-- A number of bare characters is read behind its sign. -/
theorem readReal_signed {negative : Bool} {x : Binary64} (hbare : ∀ d ∈ c :: cs, isBare d = true)
    (hc : c.isDigit = true) (hbody : readRealBody? negative (c :: cs) = some x) :
    readReal (String.ofList (signed negative (c :: cs))) = .ok x := by
  have hsign : takeSign (signed negative (c :: cs)) = (negative, c :: cs) := by
    cases negative
    · exact takeSign_of_digit hc
    · rfl
  simp only [readReal, String.toList_ofList, dropLowLines_bare (isBare_signed hbare), hsign, hbody]

theorem readRealBody?_digits (negative : Bool) (h : ∀ d ∈ c :: cs, d.isDigit = true) :
    readRealBody? negative (c :: cs) = some (.ofDecimal negative (digitsValue (c :: cs)) 0) :=
  readRealBody?_bare (fun d hd => isBare_of_isDigit (h d hd))
    ⟨c, rfl, by simp [startsNumber, h c List.mem_cons_self]⟩
    (readDecimal?_digits (List.cons_ne_nil c cs) h) negative

/-- **The text of a whole number is read as the double nearest to it**, an infinity beyond them. -/
theorem readReal_intText (n : Int) :
    ∃ x, readReal (intText n) = .ok x ∧ x.place? = some (ratioPlace n 1) := by
  obtain ⟨c, ds, hdigits, hall, -⟩ := exists_toDigits n.natAbs
  have htext := toList_intText_signed n
  have hbare : ∀ d ∈ c :: ds, isBare d = true := fun d hd => isBare_of_isDigit (hall d hd)
  have hread := readReal_signed hbare (hall c List.mem_cons_self)
    (readRealBody?_digits (decide (n < 0)) hall)
  rw [← hdigits, ← htext, String.ofList_toList, digitsValue_toDigits] at hread
  refine ⟨_, hread, ?_⟩
  rw [place?_ofDecimal_whole, ratioPlace]
  simp only [decide_eq_true_eq]

/-- **The text of a double is read as it.** -/
theorem readReal_text (x : Binary64) : readReal x.text = .ok x := by
  rcases x with _ | negative | ⟨negative, m⟩
  · decide
  · cases negative <;> decide
  · obtain ⟨n, hfit, htext, hvalue⟩ := exists_numeral negative m
    obtain ⟨c, cs, hcs, hc⟩ := exists_text n hfit
    have hbare := isBare_numeral hfit
    have hbody := readRealBody?_numeral hfit negative
    rw [hvalue] at hbody
    have hsigned : (finite negative m).text = String.ofList (signed negative n.text) := by
      rw [← String.ofList_toList (s := Binary64.text _), htext]
      cases negative <;> rfl
    rw [hcs] at hbare hbody hsigned
    rw [hsigned, readReal_signed hbare hc hbody]

end

/-! ## Places -/

namespace Value

/-- A place on the line that is not behind another one. -/
def NotBehind (a b : Int × Int) : Prop := a.1 < b.1 ∨ a.1 = b.1 ∧ a.2 ≤ b.2

/-- The place among the doubles of a place on the line. -/
def doublePlace (a : Int × Int) : Int :=
  if a.1 < 0 then -unitsLimit else if 0 < a.1 then unitsLimit else ratioPlace a.2 unitsPerOne

/-- **Rounding keeps the order of the line.** -/
theorem doublePlace_mono {a b : Int × Int} (h : NotBehind a b) :
    doublePlace a ≤ doublePlace b := by
  have ha := ratioPlace_bounds a.2 unitsPerOne
  have hb := ratioPlace_bounds b.2 unitsPerOne
  have hmono : a.2 ≤ b.2 → ratioPlace a.2 unitsPerOne ≤ ratioPlace b.2 unitsPerOne := ratioPlace_mono
  unfold doublePlace
  rcases h with hlt | ⟨heq, hle⟩
  · repeat' split
    all_goals omega
  · have := hmono hle
    rw [heq]
    repeat' split
    all_goals omega

/-- **A number that is no more than another one**, compared on the line. -/
def NoMore (v w : Value) : Prop :=
  ∃ a b, v.linePlace = .ok (some a) ∧ w.linePlace = .ok (some b) ∧ NotBehind a b

/-- Whole numbers are compared as such. -/
theorem int_noMore_int {m n : Int} : (Value.int m).NoMore (.int n) ↔ m ≤ n := by
  have hunits : (0 : Int) < unitsPerOne := Int.natCast_pos.mpr unitsPerOne_pos
  constructor
  · rintro ⟨a, b, ha, hb, hbehind⟩
    obtain rfl := Option.some.inj (Except.ok.inj ha)
    obtain rfl := Option.some.inj (Except.ok.inj hb)
    rcases hbehind with hlt | ⟨-, hle⟩
    · exact absurd hlt (Int.lt_irrefl 0)
    · exact Int.le_of_mul_le_mul_right hle hunits
  · exact fun h => ⟨_, _, rfl, rfl, .inr ⟨rfl, Int.mul_le_mul_of_nonneg_right h hunits.le⟩⟩

/-- **What gives a number**: the number itself, unless it is a whole one beyond the doubles, the text
of a whole number, or a text that is read as a double. -/
inductive Gives : Value → Value → Prop
  | itself {v : Value} (h : v.inReals = true) : Gives v v
  | whole {n : Int} {s : String} (h : wholeText n = .ok s) : Gives (.text s) (.int n)
  | read {s : String} {x : Binary64} (h : readReal s = .ok x) : Gives (.text s) (.real x)

/-- The text of a double gives it. -/
theorem Gives.text (x : Binary64) : Gives (.text x.text) (.real x) := .read (readReal_text x)

theorem exists_toReal_int {n : Int} (h : (Value.int n).inReals = true) :
    ∃ x, (Value.int n).toReal = .ok x ∧ x.place? = some (ratioPlace n 1) := by
  have hsome : (ofInt? n).isSome = true := h
  obtain ⟨x, hx⟩ := Option.isSome_iff_exists.mp hsome
  obtain ⟨m, hm, rfl⟩ := Option.map_eq_some_iff.mp hx
  have hplace := place?_ofRatio n 1
  rw [ofRatio, ofUnits_of_ofRatio? hm] at hplace
  refine ⟨_, ?_, hplace⟩
  rw [toReal, hx]
  rfl

theorem place?_of_linePlace {x : Binary64} {a : Int × Int}
    (h : (Value.real x).linePlace = .ok (some a)) : x.place? = some (doublePlace a) := by
  rcases x with _ | negative | ⟨negative, m⟩
  · cases h
  · obtain rfl := Option.some.inj (Except.ok.inj h)
    cases negative <;> rfl
  · obtain rfl := Option.some.inj (Except.ok.inj h)
    rw [place?, doublePlace]
    simp only [Int.lt_irrefl, if_false]
    rw [ratioPlace_units]

/-- **What gives a number is taken for the double nearest to it.** -/
theorem Gives.exists_toReal {v w : Value} {a : Int × Int} (h : v.Gives w)
    (ha : w.linePlace = .ok (some a)) :
    v.inReals = true ∧ ∃ x, v.toReal = .ok x ∧ x.place? = some (doublePlace a) := by
  have hwhole (n : Int) : doublePlace (0, n * unitsPerOne) = ratioPlace n 1 := ratioPlace_whole n
  cases h with
  | itself hreals =>
    refine ⟨hreals, ?_⟩
    cases v with
    | bool b =>
      obtain rfl := Option.some.inj (Except.ok.inj ha)
      exact ⟨_, rfl, by rw [hwhole, ofInt, place?_ofRatio]⟩
    | int n =>
      obtain rfl := Option.some.inj (Except.ok.inj ha)
      rw [hwhole]
      exact exists_toReal_int hreals
    | real x => exact ⟨x, rfl, place?_of_linePlace ha⟩
    | _ => cases ha
  | whole htext =>
    obtain rfl := Option.some.inj (Except.ok.inj ha)
    rw [hwhole]
    unfold wholeText at htext
    split at htext
    next => cases htext
    next =>
      obtain rfl := Except.ok.inj htext
      exact ⟨rfl, readReal_intText _⟩
  | read hread => exact ⟨rfl, _, hread, place?_of_linePlace ha⟩

attribute [local irreducible] unitsPerOne

/-- A whole number is more than one if its double is. -/
theorem le_one_of_ratioPlace_le {n : Int} (h : ratioPlace n 1 ≤ unitsPerOne) : n ≤ 1 := by
  refine Int.not_lt.mp fun hlt => ?_
  have hpos := unitsPerOne_pos
  have htwo : ratioPlace 2 1 = (2 * unitsPerOne : Nat) := ratioPlace_natCast (by decide)
  have hmono := ratioPlace_mono (d := 1) (show (2 : Int) ≤ n from hlt)
  omega

/-- **A number is no more than one exactly if its double is no more.** -/
theorem noMore_one_iff {w : Value} {a : Int × Int} (ha : w.linePlace = .ok (some a)) :
    w.NoMore (.int 1) ↔ doublePlace a ≤ unitsPerOne := by
  have hone : doublePlace (0, 1 * unitsPerOne) = unitsPerOne :=
    (ratioPlace_whole 1).trans ratioPlace_one
  have hwhole {n : Int} (h : doublePlace (0, n * unitsPerOne) ≤ unitsPerOne) :
      NotBehind (0, n * unitsPerOne) (0, 1 * unitsPerOne) := by
    have hle : n ≤ 1 := le_one_of_ratioPlace_le (by rwa [← ratioPlace_whole])
    exact .inr ⟨rfl, Int.mul_le_mul_of_nonneg_right hle (Int.natCast_nonneg _)⟩
  constructor
  · rintro ⟨b, c, hb, hc, hle⟩
    obtain rfl := Option.some.inj (Except.ok.inj (ha.symm.trans hb))
    obtain rfl := Option.some.inj (Except.ok.inj hc)
    exact hone ▸ doublePlace_mono hle
  · intro hle
    refine ⟨a, _, ha, rfl, ?_⟩
    cases w with
    | bool b | int n =>
      obtain rfl := Option.some.inj (Except.ok.inj ha)
      exact hwhole hle
    | real x =>
      have hplace := place?_of_linePlace ha
      rcases x with _ | negative | ⟨negative, m⟩
      · cases ha
      · obtain rfl := Option.some.inj (Except.ok.inj ha)
        cases negative with
        | true => exact .inl (by decide)
        | false =>
          have hlimit : 1 * unitsPerOne < unitsLimit := Magnitude.whole_lt_limit (by decide)
          have hle : (unitsLimit : Int) ≤ unitsPerOne := hle
          omega
      · obtain rfl := Option.some.inj (Except.ok.inj ha)
        refine .inr ⟨rfl, ?_⟩
        rw [← Option.some.inj hplace] at hle
        rwa [Int.one_mul]
    | _ => cases ha

end Value

end Taskboard
