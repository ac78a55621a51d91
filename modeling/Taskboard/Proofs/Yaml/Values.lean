import Taskboard.Proofs.Number.Whole
import Taskboard.Proofs.Yaml.Schema
import Taskboard.Yaml.Content

/-!
# Proofs/Yaml/Values — the values of scalars

* `readWhole_intText`, `readRealScalar_realText`, `readTime_isoText` — **the text of a number or a
  date is read as it.**
-/

namespace Taskboard.Yaml

open PlainKind

variable {c : Char} {cs ds : List Char}

/-! ## Texts as number readers see them -/

/-- A character that number readers take as it is. -/
structure IsSteady (c : Char) : Prop where
  ascii : c.toNat < 127
  no_padding : isAsciiPadding c = false
  ne_lowLine : c ≠ '_'
  lower : c.toLower = c

theorem isSteady_of_isBare (h : isBare c = true) : IsSteady c := by
  obtain ⟨hascii, hpadding, hline, hlower⟩ : c.toNat < 127 ∧ isAsciiPadding c = false ∧ c ≠ '_'
      ∧ c.toLower = c :=
    of_isBare (P := fun c => c.toNat < 127 ∧ isAsciiPadding c = false ∧ c ≠ '_' ∧ c.toLower = c)
      (by decide +kernel) h
  exact ⟨hascii, hpadding, hline, hlower⟩

theorem normalizeNumber_bare (h : ∀ c ∈ cs, isBare c = true) : normalizeNumber cs = cs := by
  rw [normalizeNumber, List.map_congr_left (g := id), List.map_id]
  exact fun c hc => if_pos (isSteady_of_isBare (h c hc)).ascii

/-- A bare text is taken by number readers as it is. -/
theorem dropLowLines_bare (h : ∀ c ∈ cs, isBare c = true) :
    dropLowLines false (trimWhile isAsciiPadding (normalizeNumber cs)) = some cs := by
  rw [normalizeNumber_bare h,
    trimWhile_of_forall fun c hc => (isSteady_of_isBare (h c hc)).no_padding,
    dropLowLines_of_not_mem fun hmem => (isSteady_of_isBare (h _ hmem)).ne_lowLine rfl]

theorem filter_bare (h : ∀ c ∈ cs, isBare c = true) : cs.filter (· ≠ '_') = cs :=
  List.filter_eq_self.2 fun c hc => decide_eq_true (isSteady_of_isBare (h c hc)).ne_lowLine

theorem lowerFrom_bare (h : ∀ c ∈ cs, isBare c = true) (b : Bool) : lowerFrom b cs = cs := by
  induction cs generalizing b with
  | nil => rfl
  | cons c cs ih =>
    obtain ⟨hc, hcs⟩ := List.forall_mem_cons.1 h
    obtain ⟨hascii, -, -, hlower⟩ := isSteady_of_isBare hc
    have hne (d : Char) (hd : 127 ≤ d.toNat) : c ≠ d := by
      rintro rfl
      omega
    have hsame : lowerChar c = c := by rw [lowerChar, if_pos (by omega), hlower]
    simp only [lowerFrom, hne 'Σ' (by decide), hne 'İ' (by decide), if_false, hsame, ih hcs,
      List.singleton_append]

/-! ## Whole numbers -/

theorem takeSign_of_digit (h : c.isDigit = true) : takeSign (c :: cs) = (false, c :: cs) :=
  takeSign_of_ne (ne_of_isDigit h (by decide)) (ne_of_isDigit h (by decide))

theorem readInt_digits (h : ∀ d ∈ c :: ds, d.isDigit = true)
    (hlen : (c :: ds).length ≤ maxDecimalDigits) :
    readInt (String.ofList (c :: ds)) = .ok (digitsValue (c :: ds)) := by
  have hbare : ∀ d ∈ c :: ds, isBare d = true := fun d hd => isBare_of_isDigit (h d hd)
  have hlines : dropLowLines false (c :: ds) = some (c :: ds) :=
    dropLowLines_of_not_mem fun hmem => (isSteady_of_isBare (hbare _ hmem)).ne_lowLine rfl
  have htrim : trimWhile isAsciiPadding (normalizeNumber (c :: ds)) = c :: ds := by
    rw [normalizeNumber_bare hbare,
      trimWhile_of_forall fun d hd => (isSteady_of_isBare (hbare d hd)).no_padding]
  have hall : (c :: ds).all Char.isDigit = true := List.all_eq_true.2 h
  simp only [readInt, String.toList_ofList, htrim, takeSign_of_digit (h c List.mem_cons_self),
    hlines, List.isEmpty_cons, hall, Bool.not_true, Bool.or_false, Bool.false_eq_true, if_false,
    Nat.not_lt.2 hlen]

/-- **Digits are read as their number**, behind a sign. -/
theorem readWhole_digits (negative : Bool) (h : ∀ d ∈ c :: ds, d.isDigit = true)
    (hlead : c = '0' → ds = []) (hlen : (c :: ds).length ≤ maxDecimalDigits) :
    readWhole (String.ofList (signed negative (c :: ds)))
      = .ok (if negative then -(digitsValue (c :: ds) : Int) else digitsValue (c :: ds)) := by
  have hc := h c List.mem_cons_self
  have hbare : ∀ d ∈ c :: ds, isBare d = true := fun d hd => isBare_of_isDigit (h d hd)
  have hfilter := filter_bare (@isBare_signed _ negative hbare)
  by_cases hzero : c = '0'
  · rw [hlead hzero, hzero]
    cases negative <;> rfl
  · have hcolon : (c :: ds).contains ':' = false := by
      rw [Bool.eq_false_iff]
      exact fun hmem => ne_of_isDigit (h _ (List.contains_iff_mem.1 hmem)) (by decide) rfl
    have hread := readInt_digits h hlen
    have hminus : c ≠ '-' := ne_of_isDigit hc (by decide)
    have hplus : c ≠ '+' := ne_of_isDigit hc (by decide)
    rw [readWhole, String.toList_ofList, hfilter]
    cases negative
    all_goals
      simp only [signed, hminus, hplus, Bool.false_eq_true, if_false, if_true, decide_false,
        decide_true, Bool.or_self, Bool.true_or]
      split
      next heq => cases heq
      next heq => exact absurd (List.cons.inj heq).1 hzero
      next heq => exact absurd (List.cons.inj heq).1 hzero
      next heq => exact absurd (List.cons.inj heq).1 hzero
      next heq => exact absurd (List.cons.inj heq).1 hzero
      next =>
        rw [hcolon, if_neg Bool.false_ne_true, hread]
        rfl

/-- The first digit of a number, and the others. -/
theorem exists_toDigits (n : Nat) : ∃ c ds, Nat.toDigits 10 n = c :: ds
    ∧ (∀ d ∈ c :: ds, d.isDigit = true) ∧ (c = '0' → ds = []) := by
  obtain ⟨c, ds, hcs⟩ := List.exists_cons_of_ne_nil (Nat.toDigits_ne_nil (n := n) (b := 10))
  refine ⟨c, ds, hcs, fun d hd => isDigit_toDigits (n := n) (by rwa [hcs]), ?_⟩
  rintro rfl
  by_cases hn : n = 0
  · rw [hn, Nat.toDigits_zero] at hcs
    exact (List.cons.inj hcs).2.symm
  · exact absurd (by rw [hcs]; rfl) (head?_toDigits hn)

theorem toList_intText_signed (n : Int) :
    (intText n).toList = signed (decide (n < 0)) (Nat.toDigits 10 n.natAbs) := by
  unfold intText natText
  split <;> simp [*, signed]

/-- The text of a whole number: a sign, and digits without a needless zero. -/
theorem exists_intText (n : Int) :
    ∃ c ds, intText n = String.ofList (signed (decide (n < 0)) (c :: ds))
      ∧ (∀ d ∈ c :: ds, d.isDigit = true) ∧ (c = '0' → ds = [])
      ∧ Nat.toDigits 10 n.natAbs = c :: ds := by
  obtain ⟨c, ds, hcs, hdigits, hlead⟩ := exists_toDigits n.natAbs
  refine ⟨c, ds, ?_, hdigits, hlead, hcs⟩
  rw [← String.toList_inj, toList_intText_signed, hcs, String.toList_ofList]

/-- **The text of a whole number is a spelling of one.** -/
theorem spells_intText (n : Int) : Spells (intText n) .int := by
  obtain ⟨c, ds, htext, hdigits, hlead, -⟩ := exists_intText n
  rw [htext]
  refine ⟨ofText_digits _ hdigits hlead, ?_, ?_⟩
  · rw [String.toList_ofList]
    exact isBare_signed fun d hd => isBare_of_isDigit (hdigits d hd)
  · rw [String.toList_ofList]
    exact start_signed _ (hdigits c List.mem_cons_self)

/-- **The text of a whole number is read as it**, if it is not too long. -/
theorem readWhole_intText {n : Int} (h : IsShort n) : readWhole (intText n) = .ok n := by
  obtain ⟨c, ds, htext, hdigits, hlead, hcs⟩ := exists_intText n
  have hlen : (c :: ds).length ≤ maxDecimalDigits := by
    rw [← hcs]
    refine (Nat.length_toDigits_le_iff (by decide) (by decide)).2 ?_
    exact Nat.lt_of_lt_of_le (lt_pow_digitCount (by decide) _) (Nat.pow_le_pow_right (by decide) h)
  have hvalue : digitsValue (c :: ds) = n.natAbs := by rw [← hcs, digitsValue_toDigits]
  rw [htext, readWhole_digits _ hdigits hlead hlen, hvalue]
  simp only [decide_eq_true_eq, Except.ok.injEq]
  split <;> omega

/-! ## Reals -/

theorem toList_text_finite (s : Bool) (m : Magnitude) :
    (Binary64.finite s m).text.toList = signed s (m.shortest.text realFormat).toList := by
  cases s <;> simp [Binary64.text, signed]

/-- A numeral with a point before its exponent. -/
def pointed (n : Numeral) : Numeral := if n.fraction = [] then { n with fraction := ['0'] } else n

theorem pointed_fraction (n : Numeral) : (pointed n).fraction ≠ [] := by
  unfold pointed
  split
  · simp
  · assumption

theorem fit_pointed {n : Numeral} (h : n.Fit) : (pointed n).Fit := by
  unfold pointed
  split
  · exact ⟨h.whole_ne_nil, h.whole_digits, h.no_leading_zero, by simp, h.exponent_digits,
      .inl (by simp)⟩
  · exact h

/-- The point changes no value. -/
theorem covered_pointed {n : Numeral} {m : Magnitude} (h : m.Covered n.digits n.scale) :
    m.Covered (pointed n).digits (pointed n).scale := by
  unfold pointed
  split
  next hnone =>
    have hdigits : Numeral.digits { n with fraction := ['0'] } = n.digits * 10 ^ 1 := by
      simp only [Numeral.digits, hnone, List.append_nil, digitsValue_append]
      rfl
    have hscale : Numeral.scale { n with fraction := ['0'] } = n.scale - (1 : Nat) := by
      simp only [Numeral.scale, hnone, List.length_nil, List.length_singleton]
      omega
    rw [hdigits, hscale]
    exact (Magnitude.Covered.scale 1).1 h
  next => exact h

/-- **An exponent without a point gets one.** -/
theorem toList_realText {s : Bool} {m : Magnitude} {n : Numeral} (h : n.Fit)
    (htext : (Binary64.finite s m).text.toList = signed s n.text) :
    (Node.realText (.finite s m)).toList = signed s (pointed n).text := by
  simp only [Node.realText, htext]
  by_cases hpoint : n.fraction = []
  · obtain ⟨⟨negative, es⟩, he⟩ :=
      Option.ne_none_iff_exists'.1 (h.not_whole.resolve_left (by simp [hpoint]))
    obtain ⟨-, hdigits⟩ := h.exponent_digits _ he
    have hbody : signed s n.text = signed s n.whole ++ Numeral.exponentText n.exponent := by
      cases s <;> simp [signed, Numeral.text, Numeral.fractionText, hpoint]
    have hsign : ∀ c ∈ signed s n.whole, c ≠ '.' ∧ c ≠ 'e' := by
      have hwhole : ∀ c ∈ n.whole, c ≠ '.' ∧ c ≠ 'e' := fun c hc =>
        ⟨ne_of_isDigit (h.whole_digits c hc) (by decide),
          ne_of_isDigit (h.whole_digits c hc) (by decide)⟩
      cases s
      · exact hwhole
      · exact List.forall_mem_cons.2 ⟨by decide, hwhole⟩
    have hdot : (signed s n.text).contains '.' = false := by
      have htail : ∀ c ∈ Numeral.exponentText n.exponent, c ≠ '.' := by
        rw [he]
        have hes : ∀ c ∈ es, c ≠ '.' := fun c hc => ne_of_isDigit (hdigits c hc) (by decide)
        cases negative <;> exact List.forall_mem_cons.2
          ⟨by decide, List.forall_mem_cons.2 ⟨by decide, hes⟩⟩
      rw [Bool.eq_false_iff, Ne, List.contains_iff_mem, hbody, List.mem_append]
      exact fun hmem => hmem.elim (fun hc => (hsign _ hc).1 rfl) fun hc => htail _ hc rfl
    have hexponent : (signed s n.text).contains 'e' = true := by
      rw [hbody, List.contains_iff_mem]
      simp [he, Numeral.exponentText]
    have hspan := span_append (p := (· ≠ 'e')) (fun c hc => decide_eq_true (hsign c hc).2)
      (fun c hc => decide_eq_false (not_not.2 (Numeral.head?_exponentText n.exponent c hc)))
    rw [hdot, hexponent]
    simp only [Bool.not_true, Bool.or_self, Bool.false_eq_true, if_false, String.toList_ofList,
      hbody, hspan.1, hspan.2]
    cases s <;> simp [signed, pointed, hpoint, Numeral.text, Numeral.fractionText]
  · have hdot : (signed s n.text).contains '.' = true := by
      rw [List.contains_iff_mem]
      cases s <;> simp [signed, Numeral.text, Numeral.fractionText, hpoint]
    rw [hdot, Bool.true_or, if_pos rfl, htext, pointed, if_neg hpoint]

/-- **The text of a finite real is a numeral with a point**, behind its sign. -/
theorem realText_finite (s : Bool) (m : Magnitude) : ∃ n : Numeral, n.Fit ∧ n.fraction ≠ []
    ∧ (Node.realText (.finite s m)).toList = signed s n.text
    ∧ ∀ t, Binary64.ofDecimal t n.digits n.scale = .finite t m := by
  have htext := toList_text_finite s m
  by_cases hm : m.units = 0
  · obtain rfl : m = .zero := by
      obtain ⟨units, _⟩ := m
      subst hm
      rfl
    have hfit : Numeral.Fit ⟨['0'], ['0'], none⟩ :=
      ⟨by simp, by simp, by simp, by simp, by simp, by simp⟩
    refine ⟨_, hfit, by simp, toList_realText hfit ?_, fun t => by
      simp [Binary64.ofDecimal, Numeral.digits]⟩
    cases s <;> decide +kernel
  · have hcovered := m.shortest_covered hm
    obtain ⟨n, hfit, hn, hvalue⟩ := Decimal.exists_numeral (hcovered.digits_ne_zero hm)
    rw [hn] at htext
    exact ⟨pointed n, fit_pointed hfit, pointed_fraction n, toList_realText hfit htext,
      Binary64.ofDecimal_of_covered hm (covered_pointed (hvalue m hcovered))⟩

/-- A numeral starts with a digit. -/
theorem exists_text (n : Numeral) (h : n.Fit) : ∃ c cs, n.text = c :: cs ∧ c.isDigit = true := by
  obtain ⟨c, ds, hwhole⟩ := List.exists_cons_of_ne_nil h.whole_ne_nil
  exact ⟨c, _, by rw [Numeral.text, hwhole]; rfl, h.whole_digits c (by simp [hwhole])⟩

/-- A decimal of bare characters is the body of a real with its sign. -/
theorem readRealBody?_bare {digits : Nat} {scale : Int} (hbare : ∀ d ∈ cs, isBare d = true)
    (hstart : ∃ c ∈ cs.head?, startsNumber c = true)
    (hread : readDecimal? cs = some (digits, scale)) (negative : Bool) :
    readRealBody? negative cs = some (.ofDecimal negative digits scale) := by
  have hlower : cs.map Char.toLower = cs := by
    rw [List.map_congr_left (g := id) fun c hc => (isSteady_of_isBare (hbare c hc)).lower,
      List.map_id]
  have hwords := @not_contains cs ["inf", "infinity", "nan"] (by decide) hstart
  simp only [List.contains_cons, List.contains_nil, Bool.or_false, Bool.or_eq_false_iff,
    beq_eq_false_iff_ne] at hwords
  simp [readRealBody?, hlower, hwords.1, hwords.2.1, hwords.2.2, hread]

/-- A numeral is the body of a real with its sign. -/
theorem readRealBody?_numeral {n : Numeral} (h : n.Fit) (negative : Bool) :
    readRealBody? negative n.text = some (.ofDecimal negative n.digits n.scale) := by
  obtain ⟨c, cs, htext, hc⟩ := exists_text n h
  exact readRealBody?_bare (isBare_numeral h) ⟨c, by rw [htext]; rfl, by simp [startsNumber, hc]⟩
    (Numeral.readDecimal?_text h) negative

/-- **A numeral is read as a real by number readers.** -/
theorem readReal_numeral {n : Numeral} (h : n.Fit) :
    readReal (String.ofList n.text) = .ok (.ofDecimal false n.digits n.scale) := by
  obtain ⟨c, cs, htext, hc⟩ := exists_text n h
  have hsign : takeSign n.text = (false, n.text) := by
    rw [htext]
    exact takeSign_of_digit hc
  simp only [readReal, String.toList_ofList, dropLowLines_bare (isBare_numeral h), hsign,
    readRealBody?_numeral h]

/-- **A numeral is read as a real**, behind a sign. -/
theorem readRealScalar_numeral (s : Bool) {m : Magnitude} {n : Numeral} (h : n.Fit)
    (hvalue : Binary64.ofDecimal false n.digits n.scale = .finite false m) :
    readRealScalar (String.ofList (signed s n.text)) = .ok (.finite s m) := by
  obtain ⟨c, cs, htext, hc⟩ := exists_text n h
  have hbare := isBare_numeral h
  have hread := readReal_numeral h
  rw [hvalue] at hread
  have hlower : (lowerText (String.ofList
      ((String.ofList (signed s n.text)).toList.filter (· ≠ '_')))).toList = signed s n.text := by
    rw [String.toList_ofList, filter_bare (isBare_signed hbare), lowerText, String.toList_ofList,
      String.toList_ofList, lowerFrom_bare (isBare_signed hbare)]
  have hwords := @not_contains n.text [".inf", ".nan"] (by decide)
    ⟨c, by rw [htext]; rfl, by simp [startsNumber, hc]⟩
  simp only [List.contains_cons, List.contains_nil, Bool.or_false, Bool.or_eq_false_iff,
    beq_eq_false_iff_ne] at hwords
  have hcolon : n.text.contains ':' = false := by
    rw [Bool.eq_false_iff]
    exact fun hmem => absurd (hbare _ (List.contains_iff_mem.1 hmem)) (by decide)
  have hminus : c ≠ '-' := ne_of_isDigit hc (by decide)
  have hplus : c ≠ '+' := ne_of_isDigit hc (by decide)
  rw [readRealScalar, hlower]
  rw [htext] at hwords hcolon hread ⊢
  cases s
  · simp only [signed, hminus, hplus, Bool.false_eq_true, if_false, decide_false, Bool.or_self,
      hwords.1, hwords.2, hcolon, hread]
    rfl
  · simp only [signed, if_true, decide_true, Bool.true_or, hwords.1, hwords.2, hcolon, hread,
      Bool.false_eq_true, if_false]
    rfl

/-- **The text of a real is a spelling of one.** -/
theorem spells_realText (x : Binary64) : Spells (Node.realText x) .real := by
  rcases x with _ | s | ⟨s, m⟩
  · exact ⟨by decide, List.all_eq_true.1 (by decide), 'n', by decide, by decide⟩
  · cases s
    · exact ⟨by decide, List.all_eq_true.1 (by decide), 'i', by decide, by decide⟩
    · exact ⟨by decide, List.all_eq_true.1 (by decide), 'i', by decide, by decide⟩
  · obtain ⟨n, hfit, hpoint, htext, -⟩ := realText_finite s m
    obtain ⟨c, cs, hcs, hc⟩ := exists_text n hfit
    refine ⟨?_, ?_, ?_⟩
    · rw [← String.ofList_toList (s := Node.realText _), htext, ofText_numeral s hfit hpoint]
    · rw [htext]
      exact isBare_signed (isBare_numeral hfit)
    · rw [htext, hcs]
      exact start_signed s hc

/-- **The text of a real is read as it.** -/
theorem readRealScalar_realText (x : Binary64) : readRealScalar (Node.realText x) = .ok x := by
  rcases x with _ | s | ⟨s, m⟩
  · rfl
  · cases s <;> rfl
  · obtain ⟨n, hfit, -, htext, hvalue⟩ := realText_finite s m
    rw [← String.ofList_toList (s := Node.realText _), htext,
      readRealScalar_numeral s hfit (hvalue false)]

/-! ## Other scalars -/

/-- **The text of a date is read as it.** -/
theorem readTime_isoText (d : Date) : readTime d.isoText = .ok (.date d) := by
  obtain ⟨ys, ms, ds, h⟩ := exists_dateDigits d
  have hstring : d.isoText = String.ofList (ys ++ '-' :: (ms ++ '-' :: ds)) := by
    rw [← String.toList_inj, h.text, String.toList_ofList]
  simp only [readTime, hstring, dropFinalBreak_bare h.isBare, TimeParts.ofChars?_dateDigits h,
    timeValue, Date.ofParts?_self]

theorem readBool?_boolText (b : Bool) : readBool? (if b then "true" else "false") = some b := by
  cases b <;> decide

end Taskboard.Yaml
