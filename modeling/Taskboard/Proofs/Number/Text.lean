import Taskboard.Number.Reading
import Taskboard.Proofs.Number.Shortest

/-!
# Proofs/Number/Text — numbers written and read

A `Numeral` is an unsigned decimal as it is written: digits, perhaps behind a point, perhaps with an
exponent.

* `Numeral.readDecimal?_text` — a numeral is read as its digits and its scale.
* `Binary64.exists_numeral` — **the text of a finite double is a numeral that is read as the
  double**, behind a sign.
-/

namespace Taskboard

-- powers are those of the naturals, also where an importing module knows other ones
attribute [local instance (high)] instPowNat

/-! ## Runs of digits -/

theorem digitsValue_eq (cs : List Char) : digitsValue cs = Nat.ofDigitChars 10 cs 0 := by
  rw [Nat.ofDigitChars_eq_foldl, digitsValue]
  congr 1
  funext n c
  rw [Nat.mul_comm]
  rfl

@[simp] theorem digitsValue_nil : digitsValue [] = 0 := rfl

@[simp] theorem digitsValue_toDigits (n : Nat) : digitsValue (Nat.toDigits 10 n) = n := by
  rw [digitsValue_eq, Nat.ofDigitChars_ten_toDigits]

theorem digitsValue_append (as bs : List Char) :
    digitsValue (as ++ bs) = digitsValue as * 10 ^ bs.length + digitsValue bs := by
  simp only [digitsValue_eq, Nat.ofDigitChars_append]
  rw [Nat.ofDigitChars_eq_ofDigitChars_zero, Nat.mul_comm]

@[simp] theorem digitsValue_zeros (k : Nat) : digitsValue (List.replicate k '0') = 0 := by
  rw [digitsValue_eq, Nat.ofDigitChars_replicate_zero, Nat.mul_zero]

@[simp] theorem digitsValue_zero_cons (cs : List Char) :
    digitsValue ('0' :: cs) = digitsValue cs := rfl

/-- An ASCII digit stands for its place behind zero. -/
theorem digitValue?_of_isDigit {c : Char} (h : c.isDigit = true) :
    digitValue? c = some (c.toNat - 48) := by
  obtain ⟨hlow, hhigh⟩ := Char.isDigit_iff_toNat.mp h
  rw [digitValue?, digitZeros, List.find?_cons_of_pos]
  · rfl
  · simp only [Bool.and_eq_true, decide_eq_true_eq]
    exact ⟨hlow, Nat.lt_succ_of_le hhigh⟩

/-- ASCII digits are digits. -/
theorem isDigit_of_ascii {c : Char} (h : c.isDigit = true) : isDigit c = true := by
  rw [isDigit, digitValue?_of_isDigit h]
  rfl

theorem isDigit_toDigits {n : Nat} {c : Char} (h : c ∈ Nat.toDigits 10 n) : c.isDigit = true :=
  Nat.isDigit_of_mem_toDigits (by decide) (by decide) h

/-- The first digit of a number is not zero. -/
theorem head?_toDigits {n : Nat} (h : n ≠ 0) : (Nat.toDigits 10 n).head? ≠ some '0' := by
  induction n using Nat.strongRecOn with
  | ind n ih =>
    by_cases hlt : n < 10
    · rw [Nat.toDigits_of_lt_base hlt, List.head?_cons, Ne, Option.some.injEq,
        Nat.digitChar_eq_zero]
      exact h
    · have hfirst := ih (n / 10) (by omega) (by omega)
      obtain ⟨c, cs, hcs⟩ :=
        List.exists_cons_of_ne_nil (Nat.toDigits_ne_nil (n := n / 10) (b := 10))
      rw [Nat.toDigits_of_base_le (by decide) (by omega), hcs]
      rwa [hcs] at hfirst

/-- A class is read up to the first character that is not of it. -/
theorem span_append {p : Char → Bool} {ds rest : List Char} (h : ∀ c ∈ ds, p c = true)
    (hrest : ∀ c ∈ rest.head?, p c = false) :
    (ds ++ rest).takeWhile p = ds ∧ (ds ++ rest).dropWhile p = rest := by
  rw [List.takeWhile_append_of_pos h, List.dropWhile_append_of_pos h]
  cases rest with
  | nil => simp
  | cons c cs => simp [hrest c rfl]

/-! ## What readers take off -/

theorem trimWhile_of_forall {p : Char → Bool} {cs : List Char} (h : ∀ c ∈ cs, p c = false) :
    trimWhile p cs = cs := by
  have hdrop {cs : List Char} (h : ∀ c ∈ cs, p c = false) : cs.dropWhile p = cs := by
    cases cs with
    | nil => rfl
    | cons c cs => simp [h c List.mem_cons_self]
  rw [trimWhile, hdrop h, hdrop fun c hc => h c (List.mem_reverse.1 hc), List.reverse_reverse]

theorem dropLowLines_of_not_mem {b : Bool} {cs : List Char} (h : '_' ∉ cs) :
    dropLowLines b cs = some cs := by
  induction cs generalizing b with
  | nil => rfl
  | cons c cs ih =>
    rw [List.mem_cons, not_or] at h
    have hc : c ≠ '_' := fun e => h.1 e.symm
    simp [dropLowLines, hc, ih h.2]

theorem takeSign_of_ne {c : Char} {cs : List Char} (hminus : c ≠ '-') (hplus : c ≠ '+') :
    takeSign (c :: cs) = (false, c :: cs) := by
  unfold takeSign
  split <;> simp_all

/-! ## Numerals -/

/-- An unsigned decimal as it is written. -/
structure Numeral where
  whole : List Char
  fraction : List Char
  /-- Whether the exponent is negative, and its digits. -/
  exponent : Option (Bool × List Char)

namespace Numeral

/-- The text of an exponent. -/
def exponentText : Option (Bool × List Char) → List Char
  | none => []
  | some (negative, ds) => 'e' :: (if negative then '-' else '+') :: ds

/-- The text of a fraction. -/
def fractionText (ds : List Char) : List Char := if ds = [] then [] else '.' :: ds

def text (x : Numeral) : List Char :=
  x.whole ++ fractionText x.fraction ++ exponentText x.exponent

/-- All digits as one number. -/
def digits (x : Numeral) : Nat := digitsValue (x.whole ++ x.fraction)

/-- The power of ten that an exponent names. -/
def exponentValue : Option (Bool × List Char) → Int
  | none => 0
  | some (negative, ds) => if negative then -(digitsValue ds : Int) else digitsValue ds

/-- The power of ten that the digits are multiplied by. -/
def scale (x : Numeral) : Int := -(x.fraction.length : Int) + exponentValue x.exponent

/-- What a numeral has to be in all notations. -/
structure Fit (x : Numeral) : Prop where
  whole_ne_nil : x.whole ≠ []
  whole_digits : ∀ c ∈ x.whole, c.isDigit = true
  /-- Zero stands before other digits only behind the point. -/
  no_leading_zero : x.whole.head? = some '0' → x.whole = ['0']
  fraction_digits : ∀ c ∈ x.fraction, c.isDigit = true
  exponent_digits : ∀ e ∈ x.exponent, e.2 ≠ [] ∧ ∀ c ∈ e.2, c.isDigit = true
  /-- It is not taken for a whole number. -/
  not_whole : x.fraction ≠ [] ∨ x.exponent ≠ none

variable {x : Numeral}

/-- The sign before an exponent is read back. -/
theorem takeSign_exponent (negative : Bool) (ds : List Char) :
    takeSign ((if negative then '-' else '+') :: ds) = (negative, ds) := by
  cases negative <;> rfl

theorem head?_exponentText (e : Option (Bool × List Char)) :
    ∀ c ∈ (exponentText e).head?, c = 'e' := by
  cases e with
  | none => simp [exponentText]
  | some e => simp [exponentText]

/-- What follows the whole part starts with a point or the mark of an exponent. -/
theorem head?_behind_whole (x : Numeral) :
    ∀ c ∈ (fractionText x.fraction ++ exponentText x.exponent).head?, c = '.' ∨ c = 'e' := by
  unfold fractionText
  split
  · exact fun c hc => .inr (head?_exponentText _ c hc)
  · simp

/-- The whole part of a numeral ends where its digits end. -/
theorem whole_span (h : x.Fit) :
    x.text.takeWhile Char.isDigit = x.whole ∧
      x.text.dropWhile Char.isDigit = fractionText x.fraction ++ exponentText x.exponent := by
  rw [text, List.append_assoc]
  refine span_append h.whole_digits fun c hc => ?_
  rcases x.head?_behind_whole c hc with rfl | rfl <;> rfl

/-- The fraction of a numeral ends where its digits end. -/
theorem fraction_span (h : x.Fit) :
    (x.fraction ++ exponentText x.exponent).takeWhile Char.isDigit = x.fraction ∧
      (x.fraction ++ exponentText x.exponent).dropWhile Char.isDigit = exponentText x.exponent := by
  refine span_append h.fraction_digits fun c hc => ?_
  rw [head?_exponentText _ c hc]
  rfl

/-- **A numeral is read as its digits and its scale.** -/
theorem readDecimal?_text (h : x.Fit) : readDecimal? x.text = some (x.digits, x.scale) := by
  obtain ⟨hwhole, hrest⟩ := whole_span h
  obtain ⟨hfraction, hback⟩ := fraction_span h
  have hne : x.whole.isEmpty = false := List.isEmpty_eq_false_iff.2 h.whole_ne_nil
  have hexp := h.exponent_digits
  unfold readDecimal?
  rw [hwhole, hrest]
  obtain ⟨whole, fraction, exponent⟩ := x
  unfold digits scale
  rcases exponent with _ | ⟨negative, ds⟩
  · by_cases hf : fraction = []
    · simp [hf, hne, fractionText, exponentText, exponentValue]
    · simp only [exponentText, List.append_nil] at hfraction hback
      simp [hf, hne, hfraction, hback, fractionText, exponentText, exponentValue]
  · obtain ⟨hds, hall⟩ := hexp _ rfl
    replace hds : ds.isEmpty = false := List.isEmpty_eq_false_iff.2 hds
    replace hall : ds.all Char.isDigit = true := List.all_eq_true.2 hall
    by_cases hf : fraction = []
    · simp [hf, hne, hds, hall, fractionText, exponentText, exponentValue, takeSign_exponent]
    · simp only [exponentText] at hfraction hback
      simp [hf, hne, hds, hall, hfraction, hback, fractionText, exponentText, exponentValue,
        takeSign_exponent]

end Numeral

/-! ## The text of a double -/

namespace Decimal

variable {x : Decimal}

/-- The digits that count, and the zeros that were left out behind them. -/
structure Significant (x : Decimal) (ds : List Char) (zeros : Nat) : Prop where
  ne_nil : ds ≠ []
  digits : ∀ c ∈ ds, c.isDigit = true
  head : ds.head? ≠ some '0'
  value : x.digits = digitsValue ds * 10 ^ zeros
  scientific : x.scientific = (ds, x.exponent + zeros + ds.length - 1)

/-- A list is its front without some last elements, and these. -/
theorem exists_zeros (cs : List Char) :
    ∃ k, cs = (cs.reverse.dropWhile (· = '0')).reverse ++ List.replicate k '0' := by
  refine ⟨(cs.reverse.takeWhile (· = '0')).length, ?_⟩
  have hzeros : cs.reverse.takeWhile (· = '0')
      = List.replicate (cs.reverse.takeWhile (· = '0')).length '0' :=
    List.eq_replicate_of_mem fun c hc => by
      simpa using List.all_eq_true.1 List.all_takeWhile c hc
  rw [← List.reverse_replicate, ← hzeros, ← List.reverse_append, List.takeWhile_append_dropWhile,
    List.reverse_reverse]

theorem exists_significant (h : x.digits ≠ 0) : ∃ ds zeros, x.Significant ds zeros := by
  obtain ⟨zeros, hsplit⟩ := exists_zeros (Nat.toDigits 10 x.digits)
  generalize hds : ((Nat.toDigits 10 x.digits).reverse.dropWhile (· = '0')).reverse = ds at hsplit
  have hvalue : x.digits = digitsValue ds * 10 ^ zeros := by
    rw [← digitsValue_toDigits x.digits, hsplit, digitsValue_append, digitsValue_zeros,
      List.length_replicate, Nat.add_zero]
  have hne : ds ≠ [] := by
    rintro rfl
    rw [digitsValue_nil, Nat.zero_mul] at hvalue
    exact h hvalue
  refine ⟨ds, zeros, hne, fun c hc => ?_, ?_, hvalue, ?_⟩
  · refine isDigit_toDigits (n := x.digits) ?_
    rw [hsplit]
    exact List.mem_append_left _ hc
  · have hhead := head?_toDigits h
    obtain ⟨c, cs, rfl⟩ := List.exists_cons_of_ne_nil hne
    rwa [hsplit] at hhead
  · have hlen : (Nat.toDigits 10 x.digits).length = ds.length + zeros := by
      rw [hsplit, List.length_append, List.length_replicate]
    simp only [Decimal.scientific, hds, hlen, List.isEmpty_eq_false_iff.2 hne, Bool.false_eq_true,
      if_false, Prod.mk.injEq, true_and]
    omega

theorem Significant.covered {ds : List Char} {zeros : Nat} (h : x.Significant ds zeros)
    {m : Magnitude} (hm : m.Covered x.digits x.exponent) :
    m.Covered (digitsValue ds) (x.exponent + zeros) := by
  rw [Magnitude.Covered.scale zeros, ← h.value, Int.add_sub_cancel]
  exact hm

/-- The digits of an exponent, two at least. -/
def exponentDigits (top : Int) : List Char :=
  List.replicate (2 - (Nat.toDigits 10 top.natAbs).length) '0' ++ Nat.toDigits 10 top.natAbs

/-- The numeral of digits whose first one stands at a power of ten. -/
def numeral (ds : List Char) (top : Int) : Numeral :=
  if -4 ≤ top ∧ top < 16 then
    if top < 0 then ⟨['0'], List.replicate (-top - 1).toNat '0' ++ ds, none⟩
    else if ds.length ≤ top.toNat + 1 then
      ⟨ds ++ List.replicate (top.toNat + 1 - ds.length) '0', ['0'], none⟩
    else ⟨ds.take (top.toNat + 1), ds.drop (top.toNat + 1), none⟩
  else ⟨ds.take 1, ds.drop 1, some (top < 0, exponentDigits top)⟩

theorem text_eq_numeral {ds : List Char} {zeros : Nat} (h : x.Significant ds zeros) :
    (x.text realFormat).toList = (numeral ds (x.exponent + zeros + ds.length - 1)).text := by
  unfold text
  rw [h.scientific]
  generalize x.exponent + zeros + ds.length - 1 = top
  have hcons : ds ≠ [] := h.ne_nil
  by_cases hpos : -4 ≤ top ∧ top < 16
  · by_cases hneg : top < 0
    · simp [realFormat, numeral, Numeral.text, Numeral.fractionText, Numeral.exponentText, hpos,
        hneg, hcons]
    · by_cases hlen : ds.length ≤ top.toNat + 1
      · simp [realFormat, numeral, Numeral.text, Numeral.fractionText, Numeral.exponentText, hpos,
          hneg, hlen, List.drop_eq_nil_of_le hlen, List.take_of_length_le hlen]
      · have hdrop : ds.drop (top.toNat + 1) ≠ [] := by simpa using hlen
        have hpad : top.toNat + 1 - ds.length = 0 := by omega
        simp [realFormat, numeral, Numeral.text, Numeral.fractionText, Numeral.exponentText, hpos,
          hneg, hlen, hdrop, hpad]
  · have hformat : ¬(decide (realFormat.positionalFrom ≤ top)
        && decide (top < realFormat.positionalBelow)) = true := by
      rw [Bool.and_eq_true, decide_eq_true_eq, decide_eq_true_eq]
      exact hpos
    dsimp only
    rw [if_neg hformat]
    by_cases hneg : top < 0
    all_goals
      simp [realFormat, numeral, Numeral.text, Numeral.fractionText, Numeral.exponentText, hpos,
        hneg, padZeros, natText, exponentDigits]

/-- The digits of an exponent are those of a number. -/
theorem isDigit_exponentDigits {top : Int} : ∀ c ∈ exponentDigits top, c.isDigit = true := by
  intro c hc
  rcases List.mem_append.1 hc with hc | hc
  · rw [List.eq_of_mem_replicate hc]
    rfl
  · exact isDigit_toDigits hc

theorem exponentDigits_ne_nil (top : Int) : exponentDigits top ≠ [] :=
  List.append_ne_nil_of_right_ne_nil _ Nat.toDigits_ne_nil

theorem digitsValue_exponentDigits (top : Int) : digitsValue (exponentDigits top) = top.natAbs := by
  simp [exponentDigits, digitsValue_append]

/-- The numeral of a decimal is fit for all notations. -/
theorem fit_numeral {ds : List Char} {top : Int} (hne : ds ≠ [])
    (hdigits : ∀ c ∈ ds, c.isDigit = true)
    (hhead : ds.head? ≠ some '0') : (numeral ds top).Fit := by
  have hzeros (k : Nat) : ∀ c ∈ List.replicate k '0', c.isDigit = true := fun c hc => by
    rw [List.eq_of_mem_replicate hc]
    rfl
  have htake (k : Nat) (hk : 0 < k) : (ds.take k).head? ≠ some '0' := by
    rwa [List.head?_take, if_neg (by omega)]
  unfold numeral
  split
  next =>
    split
    next =>
      refine ⟨by simp, by simp, by simp, fun c hc => ?_, by simp, .inl (by simp [hne])⟩
      exact (List.mem_append.1 hc).elim (hzeros _ c) (hdigits c)
    next =>
      split
      next =>
        refine ⟨by simp [hne], fun c hc => ?_, fun h => ?_, by simp, by simp, .inl (by simp)⟩
        · exact (List.mem_append.1 hc).elim (hdigits c) (hzeros _ c)
        · obtain ⟨c, cs, rfl⟩ := List.exists_cons_of_ne_nil hne
          exact absurd h hhead
      next hlen =>
        refine ⟨by simp [hne], fun c hc => hdigits c (List.mem_of_mem_take hc),
          fun h => absurd h (htake _ (by omega)), fun c hc => hdigits c (List.mem_of_mem_drop hc),
          by simp, .inl (by simpa using hlen)⟩
  next =>
    refine ⟨by simp [hne], fun c hc => hdigits c (List.mem_of_mem_take hc),
      fun h => absurd h (htake _ (by omega)), fun c hc => hdigits c (List.mem_of_mem_drop hc),
      ?_, .inr (by simp)⟩
    rintro e ⟨rfl⟩
    exact ⟨exponentDigits_ne_nil top, isDigit_exponentDigits⟩

/-- The numeral of a decimal has its digits, perhaps with zeros behind them. -/
theorem value_numeral {ds : List Char} (hne : ds ≠ []) (top : Int) :
    ∃ zeros : Nat, (numeral ds top).digits = digitsValue ds * 10 ^ zeros ∧
      (numeral ds top).scale = top + 1 - ds.length - zeros := by
  have hlen : 0 < ds.length := List.length_pos_iff.2 hne
  unfold numeral
  split
  next =>
    split
    next hneg =>
      refine ⟨0, ?_, ?_⟩
      · simp [Numeral.digits, digitsValue_append]
      · simp [Numeral.scale, Numeral.exponentValue]
        omega
    next hneg =>
      split
      next hle =>
        refine ⟨top.toNat + 2 - ds.length, ?_, ?_⟩
        · have hsplit : top.toNat + 2 - ds.length = top.toNat + 1 - ds.length + 1 := by omega
          simp [Numeral.digits, digitsValue_append, hsplit, Nat.pow_succ]
        · simp [Numeral.scale, Numeral.exponentValue]
          omega
      next hle =>
        refine ⟨0, ?_, ?_⟩
        · simp [Numeral.digits]
        · simp [Numeral.scale, Numeral.exponentValue]
          omega
  next =>
    refine ⟨0, ?_, ?_⟩
    · simp only [Numeral.digits, List.take_append_drop, Nat.pow_zero, Nat.mul_one]
    · simp only [Numeral.scale, Numeral.exponentValue, digitsValue_exponentDigits,
        List.length_drop, decide_eq_true_eq]
      split <;> omega

/-- **The text of a decimal is a numeral of the same value.** -/
theorem exists_numeral (h : x.digits ≠ 0) : ∃ n : Numeral, n.Fit ∧
    (x.text realFormat).toList = n.text ∧
      ∀ m : Magnitude, m.Covered x.digits x.exponent → m.Covered n.digits n.scale := by
  obtain ⟨ds, zeros, hds⟩ := exists_significant h
  refine ⟨_, fit_numeral hds.ne_nil hds.digits hds.head, text_eq_numeral hds, fun m hm => ?_⟩
  obtain ⟨k, hdigits, hscale⟩ := value_numeral hds.ne_nil (x.exponent + zeros + ds.length - 1)
  have hexp : x.exponent + zeros + ds.length - 1 + 1 - ds.length - k = x.exponent + zeros - k := by
    omega
  rw [hdigits, hscale, hexp, ← Magnitude.Covered.scale]
  exact hds.covered hm

end Decimal

namespace Binary64

/-- **The text of a finite double is a numeral that is read as the double**, behind a sign. -/
theorem exists_numeral (s : Bool) (m : Magnitude) : ∃ n : Numeral, n.Fit ∧
    (Binary64.finite s m).text.toList = (if s then ['-'] else []) ++ n.text ∧
      ofDecimal s n.digits n.scale = .finite s m := by
  have htext : (Binary64.finite s m).text.toList
      = (if s then ['-'] else []) ++ (m.shortest.text realFormat).toList := by
    cases s <;> simp [Binary64.text]
  by_cases hm : m.units = 0
  · obtain rfl : m = .zero := by
      obtain ⟨units, _⟩ := m
      subst hm
      rfl
    refine ⟨⟨['0'], ['0'], none⟩, ⟨by simp, by simp, by simp, by simp, by simp, by simp⟩, ?_, ?_⟩
    · rw [htext]
      cases s <;> decide +kernel
    · simp [ofDecimal, Numeral.digits]
  · have hcovered := m.shortest_covered hm
    obtain ⟨n, hfit, hn, hvalue⟩ := Decimal.exists_numeral (hcovered.digits_ne_zero hm)
    exact ⟨n, hfit, by rw [htext, hn], ofDecimal_of_covered hm (hvalue m hcovered) s⟩

end Binary64

end Taskboard
