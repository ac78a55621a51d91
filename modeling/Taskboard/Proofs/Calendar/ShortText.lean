import Taskboard.Calendar.Freeform
import Taskboard.Proofs.Number.Text

/-!
# Proofs/Calendar/ShortText — a day's short text is read as its midnight

The free reader of dates knows a year by its three digits or more, so it takes a short text apart in
the one way that it was put together (`Moment.ofText?_shortText`). A year of one or two digits is
not known as one, and such texts mean other days or none (`Date.reread`).

* `DateToken.ofText_shortText` — the five tokens of a short text.
* `readParts?_shortText` — the parts that they are read as.
* `Moment.ofText?_shortText_eq` — **what the short text of any day is read as.**
-/

namespace Taskboard

-- powers are those of the naturals, also where an importing module knows other ones
attribute [local instance (high)] instPowNat

/-! ## Digits of the first script -/

theorem toLower_of_isDigit {c : Char} (h : c.isDigit = true) : c.toLower = c := by
  obtain ⟨hlow, hhigh⟩ := Char.isDigit_iff_toNat.mp h
  have hupper : ¬ (c.val ≥ 'A'.val ∧ c.val ≤ 'Z'.val) := fun hc => by
    have hge := UInt32.le_iff_toNat_le.mp hc.1
    exact absurd (Nat.le_trans hge hhigh) (by decide)
  exact dif_neg hupper

namespace DateToken

/-- The characters of a number in digits of the first script. -/
def Digits (ds : List Char) : Prop := ds ≠ [] ∧ ∀ c ∈ ds, c.isDigit = true

namespace Digits

variable {ds : List Char}

theorem foldl_digitValue? : ∀ {ds : List Char} (n : Nat), (∀ c ∈ ds, c.isDigit = true) →
    ds.foldl (fun acc c => acc.bind fun n => (digitValue? c).map (n * 10 + ·)) (some n)
      = some (ds.foldl (fun n c => n * 10 + (c.toNat - 48)) n)
  | [], _, _ => rfl
  | c :: ds, n, h => by
    have hc := digitValue?_of_isDigit (h c List.mem_cons_self)
    simp only [List.foldl_cons, Option.bind_some, hc, Option.map_some]
    exact foldl_digitValue? _ fun c hc => h c (List.mem_cons_of_mem _ hc)

/-- The value of digits of which there are not too many. -/
theorem wholeOf?_eq (h : Digits ds) (hfew : ds.length ≤ maxDecimalDigits) :
    wholeOf? ds = some (digitsValue ds) := by
  have hnonempty : ds.isEmpty = false := List.isEmpty_eq_false_iff.mpr h.1
  rw [wholeOf?, hnonempty, Bool.false_or, if_neg (by simpa using hfew), foldl_digitValue? 0 h.2]
  rfl

theorem lowered_eq (h : Digits ds) : lowered (String.ofList ds) = String.ofList ds := by
  rw [lowered, String.toList_ofList, List.map_congr_left fun c hc => toLower_of_isDigit (h.2 c hc),
    List.map_id']

theorem filter_null (h : Digits ds) : ds.filter (· ≠ '\x00') = ds := by
  refine List.filter_eq_self.mpr fun c hc => decide_eq_true ?_
  rintro rfl
  exact absurd (h.2 _ hc) (by decide)

/-- Digits are none of the words that hold other characters. -/
theorem not_mem (h : Digits ds) {words : List String}
    (hwords : ∀ w ∈ words, w.toList.all Char.isDigit = false) : String.ofList ds ∉ words := by
  intro hmem
  have hother := hwords _ hmem
  rw [String.toList_ofList, List.all_eq_true.mpr h.2] at hother
  exact Bool.noConfusion hother

theorem contains_eq (h : Digits ds) {words : List String}
    (hwords : ∀ w ∈ words, w.toList.all Char.isDigit = false) :
    words.contains (lowered (String.ofList ds)) = false := by
  rw [h.lowered_eq, List.contains_eq_mem, decide_eq_false (h.not_mem hwords)]

theorem isUndefinedNumber_eq (h : Digits ds) : isUndefinedNumber (String.ofList ds) = false :=
  h.contains_eq (by decide)

theorem isFiller_eq (h : Digits ds) : isFiller (String.ofList ds) = false :=
  h.contains_eq (by decide)

theorem month?_eq (h : Digits ds) : month? (String.ofList ds) = none := by
  have hwords : ∀ words ∈ monthWords, ∀ w ∈ words, w.toList.all Char.isDigit = false := by decide
  rw [month?, indexIn,
    List.findIdx?_eq_none_iff.mpr fun words hmem => h.contains_eq (hwords _ hmem)]
  rfl

theorem isNumber_eq (h : Digits ds) : isNumber (String.ofList ds) = true := by
  have hall : ds.all isDigit = true :=
    List.all_eq_true.mpr fun c hc => isDigit_of_ascii (h.2 c hc)
  simp [isNumber, hall, h.1]

theorem amount?_eq (h : Digits ds) (hfew : ds.length ≤ maxDecimalDigits) :
    amount? (String.ofList ds) = some ⟨digitsValue ds, 0⟩ := by
  have hdigits : ∀ c ∈ ds, isDigit c = true := fun c hc => isDigit_of_ascii (h.2 c hc)
  have hspan := @span_append _ _ [] hdigits (by simp)
  rw [List.append_nil] at hspan
  rw [amount?, String.toList_ofList, hspan.1, hspan.2, h.wholeOf?_eq hfew]
  rfl

/-! ## Reading tokens of digits -/

/-- What may stand behind a number: nothing, or a hyphen. -/
def Ends (rest : List Char) : Prop := rest = [] ∨ ∃ more, rest = '-' :: more

theorem readOn_eq {rest : List Char} (hrest : Ends rest) : ∀ {ds : List Char} (token : List Char),
    (∀ c ∈ ds, c.isDigit = true) →
      readOn .number false token (ds ++ rest) = ⟨.number, false, ds.reverse ++ token, rest⟩
  | [], token, _ => by
    rcases hrest with rfl | ⟨more, rfl⟩
    · rfl
    · have hhyphen : extend? .number token '-' = none := by
        have hdigit : isDigit '-' = false := by decide
        simp [extend?, hdigit]
      rw [List.nil_append, readOn, hhyphen]
      rfl
  | c :: ds, token, h => by
    have hc : extend? .number token c = some .number := by
      rw [extend?, if_pos (isDigit_of_ascii (h c List.mem_cons_self))]
    rw [List.cons_append, readOn, hc]
    simp only [Bool.false_or, reduceCtorEq, decide_false]
    rw [readOn_eq hrest _ fun c hc => h c (List.mem_cons_of_mem _ hc), List.reverse_cons,
      List.append_assoc, List.singleton_append]

/-- **A number is one token.** -/
theorem tokensFrom_eq (h : Digits ds) {rest : List Char} (hrest : Ends rest) (fuel : Nat) :
    tokensFrom (fuel + 1) (ds ++ rest) = ds :: tokensFrom fuel rest := by
  obtain ⟨c, cs, rfl⟩ := List.exists_cons_of_ne_nil h.1
  have hdigit : isDigit c = true := isDigit_of_ascii (h.2 c List.mem_cons_self)
  have hletter : isLetter c = false := by rw [isLetter, hdigit, Bool.not_true, Bool.and_false]
  have hread := readOn_eq hrest [c] fun c hc => h.2 c (List.mem_cons_of_mem _ hc)
  rw [List.cons_append, tokensFrom, hletter, hdigit, Bool.false_or, if_pos rfl]
  simp only [Bool.false_eq_true, if_false, hread]
  simp [Reading.pieces]

end Digits

/-- A hyphen is one token. -/
theorem tokensFrom_hyphen (fuel : Nat) (rest : List Char) :
    tokensFrom (fuel + 1) ('-' :: rest) = ['-'] :: tokensFrom fuel rest := by
  have hletter : (isLetter '-' || isDigit '-') = false := by decide
  have hblank : isBlank '-' = false := by decide
  rw [tokensFrom, hletter, hblank]
  rfl

end DateToken

/-! ## Numbers of a width -/

/-- The digits of a number, with zeros before it up to a width. -/
def paddedDigits (width n : Nat) : List Char :=
  List.replicate (width - (Nat.toDigits 10 n).length) '0' ++ Nat.toDigits 10 n

theorem padZeros_natText (width n : Nat) :
    padZeros width (natText n) = String.ofList (paddedDigits width n) := by
  rw [padZeros, natText, String.length_ofList, ← String.ofList_append]
  rfl

theorem natText_eq_paddedDigits (n : Nat) : natText n = String.ofList (paddedDigits 0 n) := by
  rw [paddedDigits, Nat.zero_sub, List.replicate_zero, List.nil_append]
  rfl

theorem digits_paddedDigits (width n : Nat) : DateToken.Digits (paddedDigits width n) := by
  refine ⟨List.append_ne_nil_of_right_ne_nil _ Nat.toDigits_ne_nil, fun c hc => ?_⟩
  rcases List.mem_append.mp hc with hzero | hdigit
  · rw [List.eq_of_mem_replicate hzero]
    rfl
  · exact isDigit_toDigits hdigit

@[simp] theorem digitsValue_paddedDigits (width n : Nat) :
    digitsValue (paddedDigits width n) = n := by
  rw [paddedDigits, digitsValue_append, digitsValue_zeros, digitsValue_toDigits, Nat.zero_mul,
    Nat.zero_add]

theorem length_paddedDigits (width n : Nat) :
    (paddedDigits width n).length = max width (Nat.toDigits 10 n).length := by
  rw [paddedDigits, List.length_append, List.length_replicate, Nat.sub_add_eq_max]

theorem length_paddedDigits_le {width n k : Nat} (hk : 0 < k) (hwidth : width ≤ k)
    (hn : n < 10 ^ k) : (paddedDigits width n).length ≤ k := by
  rw [length_paddedDigits]
  exact Nat.max_le.mpr ⟨hwidth, (Nat.length_toDigits_le_iff (by decide) hk).mpr hn⟩

/-! ## Short texts -/

namespace Date

variable (d : Date)

/-- The digits of year, month and day in a short text. -/
def yearDigits : List Char := paddedDigits 0 d.year
def monthDigits : List Char := paddedDigits 2 d.month
def dayDigits : List Char := paddedDigits 2 d.day

theorem day_le : d.day ≤ 31 := by
  obtain ⟨-, -, -, -, -, hday⟩ := d.isDay
  refine Nat.le_trans hday ?_
  unfold daysInMonth
  split
  · split <;> decide
  · decide
  · decide
  · decide
  · decide
  · decide

theorem toList_shortText :
    d.shortText.toList = d.yearDigits ++ '-' :: (d.monthDigits ++ '-' :: d.dayDigits) := by
  rw [shortText, natText_eq_paddedDigits, padZeros_natText, padZeros_natText]
  simp [yearDigits, monthDigits, dayDigits]

theorem length_yearDigits_le : d.yearDigits.length ≤ 4 :=
  length_paddedDigits_le (by decide) (by decide) (Nat.lt_succ_of_le d.isDay.2.1)

theorem length_monthDigits_le : d.monthDigits.length ≤ 2 := by
  obtain ⟨-, -, -, hmonth, -, -⟩ := d.isDay
  exact length_paddedDigits_le (by decide) (by decide) (by omega)

theorem length_dayDigits_le : d.dayDigits.length ≤ 2 := by
  have hday := d.day_le
  exact length_paddedDigits_le (by decide) (by decide) (by omega)

/-- A year from 100 on has three digits or more. -/
theorem two_lt_length_yearDigits (h : 100 ≤ d.year) : 2 < d.yearDigits.length := by
  rw [yearDigits, length_paddedDigits, Nat.zero_max, ← Nat.not_le,
    Nat.length_toDigits_le_iff (by decide) (by decide)]
  exact Nat.not_lt.mpr h

end Date

open DateToken

/-- **A short text has five tokens.** -/
theorem DateToken.ofText_shortText (d : Date) :
    ofText d.shortText = [String.ofList d.yearDigits, "-", String.ofList d.monthDigits, "-",
      String.ofList d.dayDigits] := by
  have hyear : Digits d.yearDigits := digits_paddedDigits 0 d.year
  have hmonth : Digits d.monthDigits := digits_paddedDigits 2 d.month
  have hday : Digits d.dayDigits := digits_paddedDigits 2 d.day
  have hkept : d.shortText.toList.filter (· ≠ '\x00') = d.shortText.toList := by
    rw [d.toList_shortText, List.filter_append, List.filter_cons_of_pos (by decide),
      List.filter_append, List.filter_cons_of_pos (by decide), hyear.filter_null,
      hmonth.filter_null, hday.filter_null]
  obtain ⟨fuel, hfuel⟩ : ∃ fuel, d.shortText.toList.length = fuel + 5 := by
    have hy := List.length_pos_iff.mpr hyear.1
    have hm := List.length_pos_iff.mpr hmonth.1
    have hd := List.length_pos_iff.mpr hday.1
    refine Nat.exists_eq_add_of_le' ?_
    rw [d.toList_shortText]
    simp only [List.length_append, List.length_cons]
    omega
  rw [ofText, hkept, hfuel, d.toList_shortText, hyear.tokensFrom_eq (.inr ⟨_, rfl⟩),
    tokensFrom_hyphen, hmonth.tokensFrom_eq (.inr ⟨_, rfl⟩), tokensFrom_hyphen]
  have hlast := hday.tokensFrom_eq (.inl rfl) fuel
  rw [List.append_nil] at hlast
  rw [hlast]
  cases fuel <;> rfl

/-! ## The parts of a short text -/

/-- The numbers of a short text, behind what its first number is taken for. -/
def Date.numbers (d : Date) (year : DayNumbers) : DayNumbers :=
  { year with numbers := year.numbers ++ [d.month] ++ [d.day] }

/-- The parts of a short text: its numbers and nothing else. -/
def Date.parts (d : Date) (year : DayNumbers) : Parts :=
  ⟨d.numbers year, none, none, none, none, none, none, none⟩

/-- A year from 100 on is known to be one. -/
theorem pushDigits?_year {d : Date} (h : 100 ≤ d.year) :
    DayNumbers.empty.pushDigits? d.yearDigits = some ⟨[d.year], true, some 0, none⟩ := by
  have hyear : Digits d.yearDigits := digits_paddedDigits 0 d.year
  have hfew : d.yearDigits.length ≤ maxDecimalDigits :=
    Nat.le_trans d.length_yearDigits_le (by decide)
  rw [DayNumbers.pushDigits?, hyear.wholeOf?_eq hfew, Option.bind_some,
    if_pos (d.two_lt_length_yearDigits h), Date.yearDigits, digitsValue_paddedDigits]
  rfl

/-- One or two digits are the next number. -/
theorem pushDigits?_short {width n : Nat} (hn : (paddedDigits width n).length ≤ 2)
    (p : DayNumbers) :
    p.pushDigits? (paddedDigits width n) = some { p with numbers := p.numbers ++ [n] } := by
  have hfew : (paddedDigits width n).length ≤ maxDecimalDigits := Nat.le_trans hn (by decide)
  rw [DayNumbers.pushDigits?, (digits_paddedDigits width n).wholeOf?_eq hfew, Option.bind_some,
    if_neg (Nat.not_lt.mpr hn), digitsValue_paddedDigits]

/-- An earlier year may be anything. -/
theorem pushDigits?_earlyYear {d : Date} (h : d.year < 100) :
    DayNumbers.empty.pushDigits? d.yearDigits = some ⟨[d.year], false, none, none⟩ := by
  have hfew : d.yearDigits.length ≤ 2 := length_paddedDigits_le (by decide) (by decide) h
  rw [Date.yearDigits, pushDigits?_short hfew]
  rfl

variable {d : Date} {year : DayNumbers}

/-- **The year of a short text takes month and day with it.** -/
theorem separatedStep_shortText (h : DayNumbers.empty.pushDigits? d.yearDigits = some year) :
    separatedStep (String.ofList d.yearDigits) "-"
        [String.ofList d.monthDigits, "-", String.ofList d.dayDigits] .empty
      = some (d.parts year, 4) := by
  have hmonth : Digits d.monthDigits := digits_paddedDigits 2 d.month
  have hday : Digits d.dayDigits := digits_paddedDigits 2 d.day
  have hpushMonth := pushDigits?_short d.length_monthDigits_le
  have hpushDay := pushDigits?_short d.length_dayDigits_le
  have hyear : Parts.empty.day.pushDigits? d.yearDigits = _ := h
  rw [separatedStep, String.toList_ofList, hyear, Option.bind_some]
  simp only [hmonth.isFiller_eq, hmonth.isNumber_eq, String.toList_ofList, Bool.false_eq_true,
    if_false, if_true]
  rw [Date.monthDigits, hpushMonth, Option.bind_some, pushToken?, hday.month?_eq]
  simp only [String.toList_ofList]
  rw [Date.dayDigits, hpushDay]
  rfl

theorem numberStep_shortText (h : DayNumbers.empty.pushDigits? d.yearDigits = some year)
    (a : Amount) : numberStep [] (String.ofList d.yearDigits) a
        ["-", String.ofList d.monthDigits, "-", String.ofList d.dayDigits] .empty
      = some (d.parts year, 4) := by
  have hyear := d.length_yearDigits_le
  have hunit : unitOf? [] ["-", String.ofList d.monthDigits, "-", String.ofList d.dayDigits]
      = none := by
    have hhyphen : unit? "-" = none := by decide
    simp [unitOf?, hhyphen]
  have hsep := separatedStep_shortText h
  have htime : Parts.empty.day.numbers.length ≠ 3 := by decide
  unfold numberStep
  simp only [String.toList_ofList, hunit]
  simp [htime, hsep, show d.yearDigits.length ≠ 6 by omega, show ¬ 6 < d.yearDigits.length by omega,
    show d.yearDigits.length ≠ 8 by omega, show d.yearDigits.length ≠ 12 by omega,
    show d.yearDigits.length ≠ 14 by omega]

theorem readParts?_shortText (h : DayNumbers.empty.pushDigits? d.yearDigits = some year) :
    readParts? 6 [] (ofText d.shortText) .empty = some (d.parts year) := by
  have hyear : Digits d.yearDigits := digits_paddedDigits 0 d.year
  have hfew : d.yearDigits.length ≤ maxDecimalDigits :=
    Nat.le_trans d.length_yearDigits_le (by decide)
  rw [ofText_shortText, readParts?, hyear.isUndefinedNumber_eq, hyear.amount?_eq hfew]
  simp only [Bool.false_eq_true, if_false, numberStep_shortText h, Option.bind_some]
  rfl

/-- A short text is read as the moment of its parts. -/
theorem ofText?_eq_moment? (h : DayNumbers.empty.pushDigits? d.yearDigits = some year) :
    Moment.ofText? d.shortText = (d.parts year).moment?.map Moment.withOffset := by
  have hcount : (ofText d.shortText).length = 5 := by rw [ofText_shortText]; rfl
  rw [Moment.ofText?, hcount]
  simp only [readParts?_shortText h, Option.bind_some]

/-! ## The day of a short text -/

/-- Parts that are a day's numbers only are a midnight, if their numbers are told apart. -/
theorem moment?_parts {y m n : Nat}
    (hparted : (d.numbers year).parted? = some (some y, some m, some n)) :
    (d.parts year).moment?
      = (Date.ofParts? (fullYear y year.century) m n).map fun e => .midnight e none := by
  have hmidnight (e : Date) : Moment.ofParts? e 0 0 0 0 none = some (.midnight e none) := rfl
  have hcentury : (d.numbers year).century = year.century := rfl
  rw [Parts.moment?, Date.parts, hparted]
  cases hday : Date.ofParts? (fullYear y year.century) m n <;>
    simp [hcentury, hday, hmidnight, Parts.zoneOffset, maxOffsetDays]

/-- **A short text is read as the midnight of its day in UTC.** -/
theorem Moment.ofText?_shortText {d : Date} (h : 100 ≤ d.year) :
    ofText? d.shortText = some (midnight d (some 0)) := by
  have hcentury : fullYear d.year true = d.year := by simp [fullYear]
  have hparted : (d.numbers ⟨[d.year], true, some 0, none⟩).parted?
      = some (some d.year, some d.month, some d.day) := by
    simp [DayNumbers.parted?, Date.numbers, DayNumbers.partThree]
  rw [ofText?_eq_moment? (pushDigits?_year h), moment?_parts hparted, hcentury, Date.ofParts?_self]
  rfl

/-! ## Years of one or two digits -/

/-- **The day that a short text is read as.**  Where the year has one or two digits it is taken for
the year only if it can be neither a day nor a month; if it can be a day it is one, else the month,
and the last number is the year.  A year of two digits is one around the reference day. -/
def Date.reread (d : Date) : Option Date :=
  if 100 ≤ d.year then some d
  else if 31 < d.year then ofParts? (fullYear d.year false) d.month d.day
  else if 12 < d.year then ofParts? (fullYear d.day false) d.month d.year
  else ofParts? (fullYear d.day false) d.year d.month

theorem Date.reread_of_le {d : Date} (h : 100 ≤ d.year) : d.reread = some d := if_pos h

/-- A year in a century has three digits or more. -/
theorem le_fullYear (year : Nat) : 100 ≤ fullYear year false := by
  have hreference : referenceDay.year = 2024 := rfl
  unfold fullYear
  simp only [hreference, Bool.or_false, decide_eq_true_eq]
  repeat' split
  all_goals omega

theorem Date.year_of_ofParts? {y m n : Nat} {e : Date} (h : ofParts? y m n = some e) :
    e.year = y := by
  unfold ofParts? at h
  split at h
  next => rw [← Option.some.inj h]
  next => cases h

/-- **What a short text is read as has a year from 100 on.** -/
theorem Date.le_year_of_reread {d e : Date} (h : d.reread = some e) : 100 ≤ e.year := by
  unfold reread at h
  split at h
  next hyear => rwa [← Option.some.inj h]
  next =>
    rcases Nat.lt_or_ge 31 d.year with hyear | hday
    · rw [if_pos hyear] at h
      rw [year_of_ofParts? h]
      exact le_fullYear _
    · rw [if_neg (Nat.not_lt.mpr hday)] at h
      split at h
      all_goals
        rw [year_of_ofParts? h]
        exact le_fullYear _

/-- **Which days are read back from their short texts.** -/
theorem Date.reread_eq_self_iff {d : Date} : d.reread = some d ↔ 100 ≤ d.year :=
  ⟨le_year_of_reread, reread_of_le⟩

/-- The numbers of a short text with an early year, told apart. -/
theorem parted?_early (d : Date) : (d.numbers ⟨[d.year], false, none, none⟩).parted? =
    if 31 < d.year then some (some d.year, some d.month, some d.day)
    else if 12 < d.year then some (some d.day, some d.month, some d.year)
    else some (some d.day, some d.year, some d.month) := by
  simp only [DayNumbers.parted?, Date.numbers, List.cons_append, List.nil_append,
    DayNumbers.partThree, reduceCtorEq, decide_false, Bool.or_false, decide_eq_true_eq]
  repeat' split
  all_goals rfl

/-- **What the short text of any day is read as.** -/
theorem Moment.ofText?_shortText_eq (d : Date) :
    ofText? d.shortText = d.reread.map fun e => midnight e (some 0) := by
  rcases Nat.lt_or_ge d.year 100 with hearly | hyear
  · have hread := ofText?_eq_moment? (pushDigits?_earlyYear hearly)
    have hparted := parted?_early d
    rw [hread, Date.reread, if_neg (Nat.not_le.mpr hearly)]
    split at hparted
    next hyear => rw [moment?_parts hparted, if_pos hyear, Option.map_map]; rfl
    next hday =>
      rw [if_neg hday]
      split at hparted
      next hday => rw [moment?_parts hparted, if_pos hday, Option.map_map]; rfl
      next hmonth => rw [moment?_parts hparted, if_neg hmonth, Option.map_map]; rfl
  · rw [ofText?_shortText hyear, Date.reread_of_le hyear]
    rfl

end Taskboard
