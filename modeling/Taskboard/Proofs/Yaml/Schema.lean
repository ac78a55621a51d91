import Taskboard.Proofs.Yaml.Scalar

/-!
# Proofs/Yaml/Schema — the spellings of numbers and dates

* `allowsPlain_of_bare` — a text of letters, digits, signs and points stands without quotes.
* `ofText_digits`, `ofText_numeral`, `spells_isoText` — **digits, decimals with a point and dates
  are known for what they are.**
-/

namespace Taskboard.Yaml

variable {c : Char} {cs ds : List Char} {s : String} {p q : Char → Bool}

/-! ## Bare texts -/

/-- The characters of numbers, dates and words. -/
def isBare (c : Char) : Bool := c.isDigit || c.isLower || c = '-' || c = '+' || c = '.'

/-- What a character must not be anywhere in a text without quotes, or at its start. -/
def isReserved (c : Char) : Bool :=
  isSpecial c || isBlankOrBreak c || c = ':' || c = '#' || c = '?' || leadingMarks.contains c

theorem toNat_lt_of_isBare (h : isBare c = true) : c.toNat < 128 := by
  simp only [isBare, Bool.or_eq_true, decide_eq_true_eq] at h
  rcases h with (((h | h) | rfl) | rfl) | rfl
  · exact Nat.lt_of_le_of_lt (Char.isDigit_iff_toNat.1 h).2 (by decide)
  · have hle : c.val ≤ 'z'.val := of_decide_eq_true (Bool.and_eq_true_iff.1 h).2
    exact Nat.lt_of_le_of_lt (UInt32.le_iff_toNat_le.1 hle) (by decide)
  all_goals decide

/-- What holds of each bare character below 128 holds of all of them. -/
theorem of_isBare {P : Char → Prop}
    (hall : ∀ n < 128, isBare (Char.ofNat n) = true → P (Char.ofNat n)) (h : isBare c = true) :
    P c := by
  have := hall c.toNat (toNat_lt_of_isBare h)
  rw [Char.ofNat_toNat] at this
  exact this h

theorem not_reserved_of_isBare (h : isBare c = true) : isReserved c = false :=
  of_isBare (P := fun c => isReserved c = false) (by decide +kernel) h

theorem isBare_of_isDigit (h : c.isDigit = true) : isBare c = true := by
  simp [isBare, h]

theorem hasNeighbours_left {cs : List Char} (h : ∀ c ∈ cs, p c = false) :
    hasNeighbours p q cs = false := by
  match cs with
  | [] => rfl
  | [c] => rfl
  | c :: d :: cs =>
    obtain ⟨hc, hcs⟩ := List.forall_mem_cons.1 h
    rw [hasNeighbours, hc, Bool.false_and, Bool.false_or, hasNeighbours_left hcs]

/-- Three equal marks are no letter or digit. -/
theorem not_isPrefixOf_of_alphanum (hc : c.isAlphanum = false)
    (hstart : ∃ c ∈ cs.take 3, c.isAlphanum = true) : [c, c, c].isPrefixOf cs = false := by
  rw [Bool.eq_false_iff, Ne, List.isPrefixOf_iff_prefix]
  rintro ⟨rest, rfl⟩
  obtain ⟨d, hd, halphanum⟩ := hstart
  rw [List.eq_of_mem_replicate (n := 3) hd, hc] at halphanum
  exact Bool.false_ne_true halphanum

/-- **A bare text stands without quotes**, unless it starts with three marks. -/
theorem allowsPlain_of_bare (h : ∀ c ∈ cs, isBare c = true)
    (hstart : ∃ c ∈ cs.take 3, c.isAlphanum = true) : allowsPlain cs = true := by
  have hfree (c : Char) (hc : c ∈ cs) : isSpecial c = false ∧ isBlankOrBreak c = false ∧ c ≠ ':'
      ∧ c ≠ '#' ∧ c ≠ '?' ∧ c ∉ leadingMarks := by
    simpa [isReserved, and_assoc] using not_reserved_of_isBare (h c hc)
  have hbreak : ∀ c ∈ cs, isWrittenBreak c = false := fun c hc =>
    isWrittenBreak_of_not_break (not_break_of_not_blank (hfree c hc).2.1)
  have hspace : ∀ c ∈ cs, decide (c = ' ') = false := fun c hc =>
    decide_eq_false (ne_space_of_not_blank (hfree c hc).2.1)
  have hnone (c : Char) (hc : c ∈ cs) : c ≠ ' ' := of_decide_eq_false (hspace c hc)
  have hescapes : needsEscapes cs = false := by
    rw [needsEscapes, hasNeighbours_left hspace, hasNeighbours_left hbreak, Bool.or_false,
      Bool.or_false, List.any_eq_false]
    exact fun c hc => by simp [(hfree c hc).1]
  have hline : isMultiline cs = false := List.any_eq_false.2 fun c hc => by simp [hbreak c hc]
  have hmistakable : isMistakable cs = false := by
    have hvalue : hasNeighbours (· = ':') isBlankOrBreak cs = false :=
      hasNeighbours_left fun c hc => decide_eq_false (hfree c hc).2.2.1
    have hcomment : hasNeighbours isBlankOrBreak (· = '#') cs = false :=
      hasNeighbours_left fun c hc => (hfree c hc).2.1
    have hlast : cs.getLast? ≠ some ':' := fun h => (hfree ':' (List.mem_of_getLast? h)).2.2.1 rfl
    simp only [isMistakable, hvalue, hcomment, hlast,
      not_isPrefixOf_of_alphanum (c := '-') rfl hstart,
      not_isPrefixOf_of_alphanum (c := '.') rfl hstart, decide_false, Bool.or_false]
    rcases cs with _ | ⟨c, _ | ⟨d, cs⟩⟩
    · rfl
    · obtain ⟨d, hd, halphanum⟩ := hstart
      obtain rfl : d = c := by simpa using hd
      have hdash : d ≠ '-' := by
        rintro rfl
        exact absurd halphanum (by decide)
      simp [hfree d (by simp), hdash]
    · simp [hfree c (by simp), hfree d (by simp)]
  simp only [allowsPlain, hescapes, hline, hmistakable, Bool.not_false, Bool.true_and,
    Bool.and_true, Bool.and_eq_true, decide_eq_true_eq]
  exact ⟨fun h => hnone ' ' (List.mem_of_mem_head? h) rfl,
    fun h => hnone ' ' (List.mem_of_getLast? h) rfl⟩

/-- **A spelling of a kind**: a bare text that is known for one. -/
structure Spells (s : String) (kind : PlainKind) : Prop where
  kind_eq : PlainKind.ofText s = kind
  bare : ∀ c ∈ s.toList, isBare c = true
  start : ∃ c ∈ s.toList.take 3, c.isAlphanum = true

theorem Spells.allowsPlain {kind : PlainKind} (h : Spells s kind) : allowsPlain s.toList = true :=
  allowsPlain_of_bare h.bare h.start

theorem Spells.ne_empty {kind : PlainKind} (h : Spells s kind) : s ≠ "" := by
  rintro rfl
  simpa using h.start

theorem spells_null : Spells "null" .null :=
  ⟨by decide, List.all_eq_true.1 (by decide), 'n', by decide, by decide⟩

theorem spells_bool (b : Bool) : Spells (if b then "true" else "false") .bool := by
  cases b
  · exact ⟨by decide, List.all_eq_true.1 (by decide), 'f', by decide, by decide⟩
  · exact ⟨by decide, List.all_eq_true.1 (by decide), 't', by decide, by decide⟩

/-! ## Kinds -/

namespace PlainKind

/-- The characters that numbers and dates start with. -/
def startsNumber (c : Char) : Bool := c.isDigit || c = '-'

theorem dropFinalBreak_bare (hbare : ∀ c ∈ cs, isBare c = true) :
    dropFinalBreak (String.ofList cs) = cs := by
  have h : cs.getLast? ≠ some '\n' := fun h => absurd (hbare _ (List.mem_of_getLast? h)) (by decide)
  unfold dropFinalBreak
  rw [String.toList_ofList]
  split
  next rest hrest =>
    rw [← List.reverse_reverse cs, hrest] at h
    simp at h
  next => rfl

/-- A number is none of the words of a list, none of which starts like one. -/
theorem not_contains (words : List String)
    (hwords : words.all (fun w => w.toList.head?.all (!startsNumber ·)) = true)
    (hcs : ∃ c ∈ cs.head?, startsNumber c = true) : words.contains (String.ofList cs) = false := by
  rw [Bool.eq_false_iff]
  intro hmem
  obtain ⟨c, hc, hstart⟩ := hcs
  have hword := List.all_eq_true.1 hwords _ (List.contains_iff_mem.1 hmem)
  rw [String.toList_ofList, Option.mem_def.1 hc, Option.all_some, hstart] at hword
  exact Bool.false_ne_true hword

/-- **What starts like a number** is a real, a whole number, a date or a text. -/
theorem ofText_of_number (hcs : ∃ c ∈ cs.head?, startsNumber c = true)
    (hbare : ∀ c ∈ cs, isBare c = true) :
    ofText (String.ofList cs)
      = if isDecimal cs || isSixtyDecimal cs || isNamedReal cs then .real
        else if isWhole cs then .int else if isTime cs then .time else .text := by
  have hbool := not_contains boolWords (by decide) hcs
  have hnull := not_contains nullWords (by decide) hcs
  have hmarks := not_contains ["<<", "="] (by decide) hcs
  have hempty : String.ofList cs ≠ "" := by
    obtain ⟨c, hc, -⟩ := hcs
    obtain ⟨ds, rfl⟩ := List.head?_eq_some_iff.1 hc
    simp
  simp only [List.contains_cons, List.contains_nil, Bool.or_false, Bool.or_eq_false_iff,
    beq_eq_false_iff_ne] at hmarks
  simp only [ofText, dropFinalBreak_bare hbare, hempty, hbool, hnull, hmarks.1, hmarks.2, if_false,
    Bool.false_eq_true]

theorem unsigned_of_digit (h : c.isDigit = true) : unsigned (c :: cs) = c :: cs := by
  have hminus : c ≠ '-' := by
    rintro rfl
    exact absurd h (by decide)
  have hplus : c ≠ '+' := by
    rintro rfl
    exact absurd h (by decide)
  unfold unsigned
  split <;> simp_all

/-- A text behind its sign. -/
def signed (negative : Bool) (cs : List Char) : List Char := if negative then '-' :: cs else cs

theorem unsigned_signed (negative : Bool) (h : c.isDigit = true) :
    unsigned (signed negative (c :: cs)) = c :: cs := by
  cases negative
  · exact unsigned_of_digit h
  · rfl

theorem startsNumber_signed (negative : Bool) (h : c.isDigit = true) :
    ∃ d ∈ (signed negative (c :: cs)).head?, startsNumber d = true := by
  cases negative
  · exact ⟨c, rfl, by simp [startsNumber, h]⟩
  · exact ⟨'-', rfl, by decide⟩

theorem isBare_signed {negative : Bool} (h : ∀ c ∈ cs, isBare c = true) :
    ∀ c ∈ signed negative cs, isBare c = true := by
  cases negative
  · exact h
  · exact List.forall_mem_cons.2 ⟨by decide, h⟩

theorem isLoose_of_isDigit (h : c.isDigit = true) : isLoose c = true := by simp [isLoose, h]

theorem ne_of_isDigit (h : c.isDigit = true) {d : Char} (hd : d.isDigit = false) : c ≠ d := by
  rintro rfl
  exact Bool.false_ne_true (hd.symm.trans h)

theorem not_isNamedReal (negative : Bool) (h : c.isDigit = true) :
    isNamedReal (signed negative (c :: cs)) = false := by
  have hbody := not_contains [".inf", ".Inf", ".INF"] (by decide)
    (@startsNumber_signed _ cs false h)
  have hall := not_contains [".nan", ".NaN", ".NAN"] (by decide)
    (@startsNumber_signed _ cs negative h)
  rw [isNamedReal, unsigned_signed negative h, hall, Bool.or_false]
  exact hbody

/-- Digits without a needless zero are a whole number. -/
theorem isWhole_digits (negative : Bool) (h : ∀ d ∈ c :: ds, d.isDigit = true)
    (hlead : c = '0' → ds = []) : isWhole (signed negative (c :: ds)) = true := by
  obtain ⟨hc, hds⟩ := List.forall_mem_cons.1 h
  have hcolon : ':' ∉ c :: ds := fun hmem => ne_of_isDigit (h _ hmem) (by decide) rfl
  have hparts := partsAt_of_not_mem hcolon
  have hloose : isLooseNumber (c :: ds) = true := by
    simp [isLooseNumber, hc]
    exact fun d hd => isLoose_of_isDigit (hds d hd)
  by_cases hzero : c = '0'
  · rw [hlead hzero, hzero]
    cases negative <;> rfl
  · unfold isWhole
    rw [unsigned_signed negative hc]
    split
    next heq => exact absurd (List.cons.inj heq).1 hzero
    next heq => exact absurd (List.cons.inj heq).1 hzero
    next heq => exact absurd (List.cons.inj heq).1 hzero
    next heq => exact absurd (List.cons.inj heq).1 hzero
    next =>
      rw [hparts]
      exact hloose

/-- **Digits are known for a whole number.** -/
theorem ofText_digits (negative : Bool) (h : ∀ d ∈ c :: ds, d.isDigit = true)
    (hlead : c = '0' → ds = []) : ofText (String.ofList (signed negative (c :: ds))) = .int := by
  have hc := h c List.mem_cons_self
  have hne {d : Char} (hd : d.isDigit = false) : d ∉ c :: ds := fun hmem =>
    ne_of_isDigit (h _ hmem) hd rfl
  have hdecimal : isDecimal (signed negative (c :: ds)) = false := by
    have htake := (@span_append _ _ [] (fun d hd => isLoose_of_isDigit (h d hd)) (by simp)).1
    rw [List.append_nil] at htake
    rw [isDecimal, unsigned_signed negative hc]
    simp only [htake, List.drop_length]
  have hsixty : isSixtyDecimal (signed negative (c :: ds)) = false := by
    rw [isSixtyDecimal, unsigned_signed negative hc, partsAt_of_not_mem (hne (by decide))]
  rw [ofText_of_number (startsNumber_signed negative hc)
    (isBare_signed fun d hd => isBare_of_isDigit (h d hd)), hdecimal, hsixty,
    not_isNamedReal negative hc, isWhole_digits negative h hlead]
  rfl

/-- Digits are taken up to what is none. -/
theorem takeWhile_isLoose (rest : List Char) (h : ∀ d ∈ ds, d.isDigit = true)
    (hrest : ∀ d ∈ rest.head?, isLoose d = false) : (ds ++ rest).takeWhile isLoose = ds :=
  (span_append (fun d hd => isLoose_of_isDigit (h d hd)) hrest).1

theorem isLooseNumber_of (hne : ds ≠ []) (h : ∀ d ∈ ds, d.isDigit = true) :
    isLooseNumber ds = true := by
  obtain ⟨d, ds, rfl⟩ := List.exists_cons_of_ne_nil hne
  obtain ⟨hd, hds⟩ := List.forall_mem_cons.1 h
  simp only [isLooseNumber, hd, Bool.true_and, List.all_eq_true]
  exact fun d hd => isLoose_of_isDigit (hds d hd)

/-- **A decimal with a point is one of a real.** -/
theorem isDecimal_numeral (negative : Bool) {n : Numeral} (h : n.Fit) (hpoint : n.fraction ≠ []) :
    isDecimal (signed negative n.text) = true := by
  obtain ⟨c, ds, hwhole⟩ := List.exists_cons_of_ne_nil h.whole_ne_nil
  have hc : c.isDigit = true := h.whole_digits c (by simp [hwhole])
  have htext : n.text = n.whole ++ '.' :: (n.fraction ++ Numeral.exponentText n.exponent) := by
    simp [Numeral.text, Numeral.fractionText, hpoint]
  have hunsigned : unsigned (signed negative n.text) = n.text := by
    rw [htext, hwhole]
    exact unsigned_signed negative hc
  have hexponent : isExponent (Numeral.exponentText n.exponent) = true := by
    cases he : n.exponent with
    | none => rfl
    | some e =>
      obtain ⟨hne, hdigits⟩ := h.exponent_digits e he
      obtain ⟨sign, es⟩ := e
      cases sign <;> simpa [Numeral.exponentText, isExponent, hne] using hdigits
  have htake := takeWhile_isLoose ('.' :: (n.fraction ++ Numeral.exponentText n.exponent))
    h.whole_digits (by rintro d ⟨rfl⟩; decide)
  have hfraction := takeWhile_isLoose (Numeral.exponentText n.exponent) h.fraction_digits
    fun d hd => by
      rw [Numeral.head?_exponentText _ d hd]
      decide
  rw [isDecimal, hunsigned, htext]
  simp only [htake, List.drop_left, hfraction, List.isEmpty_eq_false_iff.2 h.whole_ne_nil,
    Bool.false_eq_true, if_false, isLooseNumber_of h.whole_ne_nil h.whole_digits, hexponent,
      Bool.and_self]

theorem isBare_numeral {n : Numeral} (h : n.Fit) : ∀ c ∈ n.text, isBare c = true := by
  have hdigits {ds : List Char} (hds : ∀ c ∈ ds, c.isDigit = true) : ∀ c ∈ ds, isBare c = true :=
    fun c hc => isBare_of_isDigit (hds c hc)
  have hfraction : ∀ c ∈ Numeral.fractionText n.fraction, isBare c = true := by
    unfold Numeral.fractionText
    split
    · simp
    · exact List.forall_mem_cons.2 ⟨by decide, hdigits h.fraction_digits⟩
  have hexponent : ∀ c ∈ Numeral.exponentText n.exponent, isBare c = true := by
    cases he : n.exponent with
    | none => simp [Numeral.exponentText]
    | some e =>
      have hds := hdigits (h.exponent_digits e he).2
      obtain ⟨sign, es⟩ := e
      cases sign <;>
        exact List.forall_mem_cons.2 ⟨by decide, List.forall_mem_cons.2 ⟨by decide, hds⟩⟩
  exact List.forall_mem_append.2 ⟨List.forall_mem_append.2 ⟨hdigits h.whole_digits, hfraction⟩,
    hexponent⟩

/-- **A decimal with a point is known for a real.** -/
theorem ofText_numeral (negative : Bool) {n : Numeral} (h : n.Fit) (hpoint : n.fraction ≠ []) :
    ofText (String.ofList (signed negative n.text)) = .real := by
  obtain ⟨c, ds, hwhole⟩ := List.exists_cons_of_ne_nil h.whole_ne_nil
  have hc : c.isDigit = true := h.whole_digits c (by simp [hwhole])
  have hstart : ∃ d ∈ (signed negative n.text).head?, startsNumber d = true := by
    rw [Numeral.text, hwhole]
    exact startsNumber_signed negative hc
  rw [ofText_of_number hstart (isBare_signed (isBare_numeral h)),
    isDecimal_numeral negative h hpoint]
  rfl

theorem start_signed (negative : Bool) (h : c.isDigit = true) :
    ∃ d ∈ (signed negative (c :: cs)).take 3, d.isAlphanum = true := by
  refine ⟨c, ?_, by simp [Char.isAlphanum, h]⟩
  cases negative <;> simp [signed]

end PlainKind

/-! ## Dates -/

section Dates

-- powers are those of the naturals, also where an importing module knows other ones
attribute [local instance (high)] instPowNat

/-- The digits of a number, filled up with zeros. -/
theorem exists_padded {w n : Nat} (hw : 0 < w) (h : n < 10 ^ w) :
    ∃ ds, (padZeros w (natText n)).toList = ds ∧ ds.length = w ∧ (∀ c ∈ ds, c.isDigit = true)
      ∧ digitsValue ds = n := by
  have hlen := (Nat.length_toDigits_le_iff (by decide) hw).2 h
  have htext : (padZeros w (natText n)).toList
      = List.replicate (w - (Nat.toDigits 10 n).length) '0' ++ Nat.toDigits 10 n := by
    simp [padZeros, natText]
  refine ⟨_, htext, ?_, ?_, ?_⟩
  · rw [List.length_append, List.length_replicate]
    omega
  · refine List.forall_mem_append.2 ⟨fun c hc => ?_, fun c hc => isDigit_toDigits hc⟩
    rw [List.eq_of_mem_replicate hc]
    rfl
  · rw [digitsValue_append, digitsValue_zeros, digitsValue_toDigits]
    simp

/-- **The digits of a date.** -/
structure DateDigits (d : Date) (ys ms ds : List Char) : Prop where
  text : d.isoText.toList = ys ++ '-' :: (ms ++ '-' :: ds)
  digits : ∀ c ∈ ys ++ (ms ++ ds), c.isDigit = true
  lengths : ys.length = 4 ∧ ms.length = 2 ∧ ds.length = 2
  values : digitsValue ys = d.year ∧ digitsValue ms = d.month ∧ digitsValue ds = d.day

theorem exists_dateDigits (d : Date) : ∃ ys ms ds, DateDigits d ys ms ds := by
  obtain ⟨-, hyear, -, hmonth, -, hday⟩ := d.isDay
  have hdays : daysInMonth d.year d.month ≤ 31 := by
    unfold daysInMonth
    split
    · split <;> decide
    all_goals decide
  obtain ⟨ys, hy, hylen, hydigits, hyvalue⟩ := exists_padded (w := 4) (by decide)
    (show d.year < 10 ^ 4 by omega)
  obtain ⟨ms, hm, hmlen, hmdigits, hmvalue⟩ := exists_padded (w := 2) (by decide)
    (show d.month < 10 ^ 2 by omega)
  obtain ⟨ds, hd, hdlen, hddigits, hdvalue⟩ := exists_padded (w := 2) (by decide)
    (show d.day < 10 ^ 2 by omega)
  refine ⟨ys, ms, ds, ?_, ?_, ⟨hylen, hmlen, hdlen⟩, ⟨hyvalue, hmvalue, hdvalue⟩⟩
  · simp [Date.isoText, hy, hm, hd]
  · exact List.forall_mem_append.2 ⟨hydigits, List.forall_mem_append.2 ⟨hmdigits, hddigits⟩⟩

theorem DateDigits.isBare {d : Date} {ys ms ds : List Char} (h : DateDigits d ys ms ds) :
    ∀ c ∈ ys ++ '-' :: (ms ++ '-' :: ds), isBare c = true := by
  intro c hc
  have hmem : c = '-' ∨ c ∈ ys ++ (ms ++ ds) := by
    simp only [List.mem_append, List.mem_cons] at hc ⊢
    tauto
  rcases hmem with rfl | hmem
  · decide
  · exact isBare_of_isDigit (h.digits c hmem)

namespace TimeParts

/-- Digits up to what is none. -/
theorem digits?_append (least most : Nat) {rest : List Char} (h : ∀ c ∈ ds, c.isDigit = true)
    (hleast : least ≤ ds.length) (hmost : ds.length ≤ most)
    (hrest : ∀ c ∈ rest.head?, c.isDigit = false) :
    digits? least most (ds ++ rest) = some (digitsValue ds, rest) := by
  have htake : ((ds ++ rest).take most).takeWhile Char.isDigit = ds := by
    rw [List.take_append, List.take_of_length_le hmost]
    refine (span_append h fun c hc => ?_).1
    cases hk : most - ds.length with
    | zero => simp [hk] at hc
    | succ k =>
      rw [hk, List.head?_take, if_neg (Nat.succ_ne_zero k)] at hc
      exact hrest c hc
  simp only [digits?, htake, if_neg (Nat.not_lt.2 hleast), List.drop_left]

/-- **The parts of a date.** -/
theorem ofChars?_dateDigits {d : Date} {ys ms ds : List Char} (h : DateDigits d ys ms ds) :
    ofChars? (ys ++ '-' :: (ms ++ '-' :: ds)) = some ⟨d.year, d.month, d.day, none⟩ := by
  obtain ⟨hylen, hmlen, hdlen⟩ := h.lengths
  obtain ⟨hyvalue, hmvalue, hdvalue⟩ := h.values
  obtain ⟨hy, hmd⟩ := List.forall_mem_append.1 h.digits
  obtain ⟨hm, hd⟩ := List.forall_mem_append.1 hmd
  have hdash (rest : List Char) : ∀ c ∈ ('-' :: rest).head?, c.isDigit = false := by
    rintro c ⟨rfl⟩
    decide
  have hyear := digits?_append 4 4 hy (by omega) (by omega)
    (hdash (ms ++ '-' :: ds))
  have hmonth := digits?_append 1 2 hm (by omega) (by omega) (hdash ds)
  have hday := @digits?_append _ 1 2 [] hd (by omega) (by omega) (by simp)
  rw [List.append_nil] at hday
  simp [ofChars?, hyear, hmonth, hday, char?, hyvalue, hmvalue, hdvalue]

end TimeParts

namespace PlainKind

/-- A text with a dash behind its start is no whole number. -/
theorem not_isWhole_of_dash {d : Char} (hc : c.isDigit = true) (hd : d.isDigit = true)
    (hdash : '-' ∈ cs) (hcolon : ':' ∉ c :: d :: cs) : isWhole (c :: d :: cs) = false := by
  have hne {a : Char} (ha : a.isDigit = false) : d ≠ a := ne_of_isDigit hd ha
  unfold isWhole
  rw [unsigned_of_digit hc]
  split
  next heq => simp at heq
  next heq => exact absurd (List.cons.inj (List.cons.inj heq).2).1 (hne (by decide))
  next heq => exact absurd (List.cons.inj (List.cons.inj heq).2).1 (hne (by decide))
  next ds _ _ heq =>
    obtain ⟨-, rfl⟩ := List.cons.inj heq
    rw [Bool.and_eq_false_iff]
    exact .inr (List.all_eq_false.2 ⟨'-', List.mem_cons_of_mem _ hdash, by decide⟩)
  next =>
    rw [partsAt_of_not_mem hcolon]
    simp only [isLooseNumber, Bool.and_eq_false_iff]
    exact .inr (List.all_eq_false.2 ⟨'-', List.mem_cons_of_mem _ hdash, by decide⟩)

/-- **A date is known for one.** -/
theorem ofText_dateDigits {d : Date} {ys ms ds : List Char} (h : DateDigits d ys ms ds) :
    ofText d.isoText = .time := by
  have hparts := TimeParts.ofChars?_dateDigits h
  obtain ⟨hylen, hmlen, hdlen⟩ := h.lengths
  match ys, hylen with
  | [a, b, y, z], _ =>
    have hdigits := h.digits
    simp only [List.cons_append, List.nil_append, List.forall_mem_cons,
      List.forall_mem_append] at hdigits
    obtain ⟨ha, hb, hy, hz, hm, hd⟩ := hdigits
    have htext : d.isoText = String.ofList (a :: b :: y :: z :: '-' :: (ms ++ '-' :: ds)) := by
      have := h.text
      rw [← String.toList_inj, this, String.toList_ofList]
      rfl
    have hbare : ∀ c ∈ a :: b :: y :: z :: '-' :: (ms ++ '-' :: ds), isBare c = true := h.isBare
    have hcolon : ':' ∉ a :: b :: y :: z :: '-' :: (ms ++ '-' :: ds) := fun hmem =>
      absurd (hbare _ hmem) (by decide)
    have hdecimal : isDecimal (a :: b :: y :: z :: '-' :: (ms ++ '-' :: ds)) = false := by
      have htake := @takeWhile_isLoose [a, b, y, z] ('-' :: (ms ++ '-' :: ds))
        (by simp [ha, hb, hy, hz]) (by rintro d ⟨rfl⟩; decide)
      simp only [List.cons_append, List.nil_append] at htake
      rw [isDecimal, unsigned_of_digit ha]
      simp [htake]
    have hsixty : isSixtyDecimal (a :: b :: y :: z :: '-' :: (ms ++ '-' :: ds)) = false := by
      rw [isSixtyDecimal, unsigned_of_digit ha, partsAt_of_not_mem hcolon]
    have hwhole : isWhole (a :: b :: y :: z :: '-' :: (ms ++ '-' :: ds)) = false :=
      not_isWhole_of_dash ha hb (by simp) hcolon
    have htime : isTime (a :: b :: y :: z :: '-' :: (ms ++ '-' :: ds)) = true := by
      rw [isTime, show a :: b :: y :: z :: '-' :: (ms ++ '-' :: ds)
        = [a, b, y, z] ++ '-' :: (ms ++ '-' :: ds) from rfl, hparts]
      simp [hmlen, hdlen]
    have hnamed : isNamedReal (a :: b :: y :: z :: '-' :: (ms ++ '-' :: ds)) = false :=
      not_isNamedReal false ha
    rw [htext, ofText_of_number ⟨a, rfl, by simp [startsNumber, ha]⟩ hbare, hdecimal, hsixty,
      hnamed, hwhole, htime]
    rfl

end PlainKind

/-- **The text of a date is a spelling of one.** -/
theorem spells_isoText (d : Date) : Spells d.isoText .time := by
  obtain ⟨ys, ms, ds, h⟩ := exists_dateDigits d
  refine ⟨PlainKind.ofText_dateDigits h, by rw [h.text]; exact h.isBare, ?_⟩
  obtain ⟨y, ys, rfl⟩ : ∃ y ys', ys = y :: ys' := List.exists_cons_of_ne_nil (by
    rintro rfl
    simpa using h.lengths.1)
  rw [h.text]
  exact PlainKind.start_signed false (h.digits y (by simp))

end Dates

end Taskboard.Yaml
