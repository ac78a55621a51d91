import Taskboard.Proofs.Calendar.ShortText
import Taskboard.Proofs.Calendar.Years
import Taskboard.Proofs.Number.Whole

/-!
# Proofs/Calendar/TextOrder — dates and their texts have one order

Days are in the order of their years, months and days of the month (`Date.lt_iff`).  A text has
these numbers in this order, with month and day in two digits; years of four digits are as long as
each other too, so that such texts are in the order of their dates.

* `digits_lt_iff` — digits of one length are in the order of the numbers that they write.
* `Date.shortText_lt_iff` — **texts of dates from the year 1000 on are in the order of the dates.**
-/

namespace Taskboard

-- sums and powers are those of the naturals, also where an importing module knows other ones
attribute [local instance (high)] Zero.ofOfNat0 instPowNat

/-! ## Days by their parts -/

namespace Date

theorem daysBeforeYear_mono {y z : Nat} (hy : 1 ≤ y) (h : y ≤ z) :
    daysBeforeYear y ≤ daysBeforeYear z := by
  induction h with
  | refl => exact Nat.le_refl _
  | step hle ih =>
    rw [daysBeforeYear_succ (Nat.le_trans hy hle)]
    omega

/-- The parts of a day in the order of their weight. -/
def PartsBefore (a b : Date) : Prop :=
  a.year < b.year ∨ a.year = b.year ∧
    (a.month < b.month ∨ a.month = b.month ∧ a.day < b.day)

theorem dayNumber_lt_of_partsBefore {a b : Date} (h : a.PartsBefore b) :
    a.dayNumber < b.dayNumber := by
  obtain ⟨hyear, -, hmonth, -, hday, hlast⟩ := a.isDay
  obtain ⟨-, -, -, -, hpos, -⟩ := b.isDay
  unfold dayNumber
  obtain hyears | ⟨hyears, hmonths | ⟨hmonths, hdays⟩⟩ := h
  · have hend := dayOfYear_le a
    have hnext := daysBeforeYear_mono (Nat.succ_le_succ (Nat.zero_le a.year)) hyears
    rw [daysBeforeYear_succ hyear] at hnext
    omega
  · have hnext := daysBeforeMonth_mono a.year (Nat.succ_le_succ (Nat.zero_le a.month)) hmonths
    rw [daysBeforeMonth_succ a.year hmonth] at hnext
    rw [← hyears]
    omega
  · rw [← hyears, ← hmonths]
    omega

theorem ext_parts {a b : Date} (hyear : a.year = b.year) (hmonth : a.month = b.month)
    (hday : a.day = b.day) : a = b := by
  obtain ⟨y, m, d, h⟩ := a
  obtain ⟨y', m', d', h'⟩ := b
  obtain rfl := hyear
  obtain rfl := hmonth
  obtain rfl := hday
  rfl

/-- One of two days is before the other, or they are the same. -/
theorem partsBefore_or (a b : Date) : a.PartsBefore b ∨ a = b ∨ b.PartsBefore a := by
  unfold PartsBefore
  by_cases hsame : a.year = b.year ∧ a.month = b.month ∧ a.day = b.day
  · exact .inr (.inl (ext_parts hsame.1 hsame.2.1 hsame.2.2))
  · omega

/-- **Days are in the order of their parts.** -/
theorem lt_iff {a b : Date} : a.lt b = true ↔ a.PartsBefore b := by
  rw [lt, decide_eq_true_iff]
  refine ⟨fun h => ?_, dayNumber_lt_of_partsBefore⟩
  rcases partsBefore_or a b with hab | rfl | hba
  · exact hab
  · exact absurd h (Nat.lt_irrefl _)
  · exact absurd h (Nat.lt_asymm (dayNumber_lt_of_partsBefore hba))

/-- Days with one number are the same. -/
theorem eq_of_dayNumber_eq {a b : Date} (h : a.dayNumber = b.dayNumber) : a = b := by
  rcases partsBefore_or a b with hab | heq | hba
  · exact absurd h (Nat.ne_of_lt (dayNumber_lt_of_partsBefore hab))
  · exact heq
  · exact absurd h.symm (Nat.ne_of_lt (dayNumber_lt_of_partsBefore hba))

end Date

/-! ## Texts by their parts -/

/-- Lists whose first parts are of one length are in the order of these, and then of the rest. -/
theorem append_lt_append_iff {xs ys : List Char} : ∀ {as bs : List Char}, as.length = bs.length →
    (as ++ xs < bs ++ ys ↔ as < bs ∨ as = bs ∧ xs < ys)
  | [], [], _ => by simp
  | a :: as, b :: bs, h => by
    rw [List.cons_append, List.cons_append, List.cons_lt_cons_iff, List.cons_lt_cons_iff,
      append_lt_append_iff (Nat.succ.inj h), List.cons.injEq, and_or_left, ← or_assoc, ← and_assoc]

theorem digitsValue_cons (c : Char) (cs : List Char) :
    digitsValue (c :: cs) = digitsValue [c] * 10 ^ cs.length + digitsValue cs :=
  digitsValue_append [c] cs

/-- Two numbers by what is in front of and behind one place. -/
theorem mul_add_lt_iff {a b p r s : Nat} (hr : r < p) (hs : s < p) :
    a * p + r < b * p + s ↔ a < b ∨ a = b ∧ r < s := by
  rcases Nat.lt_trichotomy a b with hab | rfl | hba
  · have hnext := Nat.mul_le_mul_right p hab
    rw [Nat.succ_mul] at hnext
    omega
  · omega
  · have hnext := Nat.mul_le_mul_right p hba
    rw [Nat.succ_mul] at hnext
    omega

/-- The number that a digit writes. -/
theorem digitsValue_digit {c : Char} (h : c.isDigit = true) : c.toNat = 48 + digitsValue [c] := by
  have hle : 48 ≤ c.toNat := (Char.isDigit_iff_toNat.1 h).1
  simp only [digitsValue, List.foldl_cons, List.foldl_nil]
  omega

/-- **Digits of one length are in the order of the numbers that they write.** -/
theorem digits_lt_iff : ∀ {as bs : List Char}, as.length = bs.length →
    (∀ c ∈ as, c.isDigit = true) → (∀ c ∈ bs, c.isDigit = true) →
      (as < bs ↔ digitsValue as < digitsValue bs)
  | [], [], _, _, _ => by simp
  | a :: as, b :: bs, hlen, has, hbs => by
    obtain ⟨ha, has⟩ := List.forall_mem_cons.mp has
    obtain ⟨hb, hbs⟩ := List.forall_mem_cons.mp hbs
    have hrest := digits_lt_iff (Nat.succ.inj hlen) has hbs
    have hvalue := digitsValue_digit ha
    have hvalue' := digitsValue_digit hb
    have hlt : a < b ↔ digitsValue [a] < digitsValue [b] := by
      rw [show a < b ↔ a.toNat < b.toNat from Iff.rfl]
      omega
    have heq : a = b ↔ digitsValue [a] = digitsValue [b] := by
      rw [← Char.toNat_inj]
      omega
    rw [digitsValue_cons, digitsValue_cons b, ← Nat.succ.inj hlen, List.cons_lt_cons_iff, hrest,
      hlt, heq, mul_add_lt_iff (digitsValue_lt has) (Nat.succ.inj hlen ▸ digitsValue_lt hbs)]

/-- Digits of one length that write the same number are the same. -/
theorem digits_eq_iff {as bs : List Char} (hlen : as.length = bs.length)
    (has : ∀ c ∈ as, c.isDigit = true) (hbs : ∀ c ∈ bs, c.isDigit = true) :
    as = bs ↔ digitsValue as = digitsValue bs := by
  refine ⟨congrArg digitsValue, fun h => ?_⟩
  have hnot : ¬ as < bs := fun hlt => Nat.lt_irrefl _ (h ▸ (digits_lt_iff hlen has hbs).mp hlt)
  have hnot' : ¬ bs < as := fun hlt =>
    Nat.lt_irrefl _ (h ▸ (digits_lt_iff hlen.symm hbs has).mp hlt)
  exact List.le_antisymm (List.not_lt.mp hnot') (List.not_lt.mp hnot)

namespace Date

variable {a b : Date}

/-- A year of four digits. -/
theorem length_yearDigits {d : Date} (h : 1000 ≤ d.year) : d.yearDigits.length = 4 := by
  refine Nat.le_antisymm d.length_yearDigits_le (Nat.lt_of_not_le fun hle => ?_)
  rw [yearDigits, length_paddedDigits, Nat.zero_max,
    Nat.length_toDigits_le_iff (by decide) (by decide)] at hle
  exact absurd hle (Nat.not_lt.mpr h)

/-- Month and day have two digits. -/
theorem length_twoDigits {n : Nat} (h : (paddedDigits 2 n).length ≤ 2) :
    (paddedDigits 2 n).length = 2 := by
  refine Nat.le_antisymm h ?_
  rw [length_paddedDigits]
  exact Nat.le_max_left _ _

/-- Digits of one width, with something behind them, are in the order of their numbers first. -/
theorem append_digits_lt_iff {width m n : Nat} {xs ys : List Char}
    (hlen : (paddedDigits width m).length = (paddedDigits width n).length) :
    paddedDigits width m ++ xs < paddedDigits width n ++ ys ↔ m < n ∨ m = n ∧ xs < ys := by
  have hm := (digits_paddedDigits width m).2
  have hn := (digits_paddedDigits width n).2
  rw [append_lt_append_iff hlen, digits_lt_iff hlen hm hn, digits_eq_iff hlen hm hn,
    digitsValue_paddedDigits, digitsValue_paddedDigits]

/-- **Texts of dates from the year 1000 on are in the order of the dates.** -/
theorem shortText_lt_iff (ha : 1000 ≤ a.year) (hb : 1000 ≤ b.year) :
    a.shortText < b.shortText ↔ a.lt b = true := by
  have hyear := (length_yearDigits ha).trans (length_yearDigits hb).symm
  have hmonth := (length_twoDigits a.length_monthDigits_le).trans
    (length_twoDigits b.length_monthDigits_le).symm
  have hday := (length_twoDigits a.length_dayDigits_le).trans
    (length_twoDigits b.length_dayDigits_le).symm
  have hdash {xs ys : List Char} : '-' :: xs < '-' :: ys ↔ xs < ys := by simp
  rw [String.lt_iff, toList_shortText, toList_shortText, lt_iff, PartsBefore, yearDigits,
    yearDigits, append_digits_lt_iff hyear, hdash, monthDigits, monthDigits,
    append_digits_lt_iff hmonth, hdash, dayDigits, dayDigits,
    digits_lt_iff hday (digits_paddedDigits 2 a.day).2 (digits_paddedDigits 2 b.day).2,
    digitsValue_paddedDigits, digitsValue_paddedDigits]

end Date

end Taskboard
