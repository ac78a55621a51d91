import Taskboard.Json.Reader
import Taskboard.Json.Writer
import Taskboard.Proofs.Number.Text

/-!
# Proofs/Json/Scalars — texts and numbers are read as they were written

* `readString?_escaped` — **a text in quotes is read as itself**, whether or not the characters
  above ASCII are escaped.
* `readAtom_intText`, `readAtom_realText` — **a number is read as itself**, if what follows it does
  not belong to it (`EndsNumber`).
-/

namespace Taskboard

-- powers are those of the naturals, also where an importing module knows other ones
attribute [local instance (high)] instPowNat

/-! ## Hexadecimal digits -/

theorem hexValue?_digitChar {d : Nat} (h : d < 16) : Json.hexValue? (Nat.digitChar d) = some d := by
  have hall : ∀ d < 16, Json.hexValue? (Nat.digitChar d) = some d := by decide
  exact hall d h

theorem hexNumber?_append (as bs : List Char) {n : Nat} (h : Json.hexNumber? as = some n) :
    Json.hexNumber? (as ++ bs)
      = bs.foldl (fun acc c => acc.bind fun n => (Json.hexValue? c).map (n * 16 + ·)) (some n) := by
  unfold Json.hexNumber? at h ⊢
  rw [List.foldl_append, h]

theorem hexNumber?_toDigits (n : Nat) : Json.hexNumber? (Nat.toDigits 16 n) = some n := by
  induction n using Nat.strongRecOn with
  | ind n ih =>
    by_cases hlt : n < 16
    · rw [Nat.toDigits_of_lt_base hlt]
      simp [Json.hexNumber?, hexValue?_digitChar hlt]
    · rw [Nat.toDigits_of_base_le (by decide) (by omega),
        hexNumber?_append _ _ (ih (n / 16) (by omega))]
      have hlow := hexValue?_digitChar (Nat.mod_lt n (show 0 < 16 by decide))
      simp only [List.foldl_cons, List.foldl_nil, Option.bind_some, hlow, Option.map_some,
        Option.some.injEq]
      omega

theorem hexNumber?_zeros (k : Nat) : Json.hexNumber? (List.replicate k '0') = some 0 := by
  induction k with
  | zero => rfl
  | succ k ih =>
    rw [List.replicate_succ', hexNumber?_append _ _ ih]
    rfl

/-- **The hexadecimal digits of a number name it.** -/
theorem hexNumber?_hexText (width n : Nat) : Json.hexNumber? (hexText width n) = some n := by
  have hfold := hexNumber?_toDigits n
  unfold hexText
  rw [hexNumber?_append _ _ (hexNumber?_zeros _)]
  exact hfold

/-- A number below a power of sixteen takes so many digits. -/
theorem length_hexText {width n : Nat} (hw : 0 < width) (h : n < 16 ^ width) :
    (hexText width n).length = width := by
  have := (Nat.length_toDigits_le_iff (by decide) hw).2 h
  unfold hexText
  rw [List.length_append, List.length_replicate]
  omega

namespace Json

theorem fourHex?_hexText {n : Nat} (h : n < 65536) (rest : List Char) :
    fourHex? (hexText 4 n ++ rest) = some (n, rest) := by
  have hlen : (hexText 4 n).length = 4 := length_hexText (by decide) h
  have hvalue := hexNumber?_hexText 4 n
  match hdigits : hexText 4 n, hlen with
  | [a, b, c, d], _ =>
    rw [hdigits] at hvalue
    simp [fourHex?, hvalue]

/-! ## Texts -/

/-- A character that stands for itself between quotes. -/
theorem readString?_plain {c : Char} {fuel : Nat} {r : List Char} (hquote : c ≠ '"')
    (hslash : c ≠ '\\') (hctrl : 32 ≤ c.toNat) :
    readString? (fuel + 1) (c :: r)
      = (readString? fuel r).map fun (cs, rest) => (c :: cs, rest) := by
  have hnot : ¬c.toNat < 32 := by omega
  rw [readString?.eq_5 _ _ _ hquote hslash, if_neg hnot]

/-- A character behind an escape. -/
theorem readString?_escape {c : Char} {fuel : Nat} {r rest : List Char}
    (h : readEscape? r = some (c, rest)) :
    readString? (fuel + 1) ('\\' :: r)
      = (readString? fuel rest).map fun (cs, rest) => (c :: cs, rest) := by
  rw [readString?, h]

/-- The codes of characters: halves of characters are none. -/
theorem code_valid (c : Char) : c.toNat < 0xD800 ∨ 0xDFFF < c.toNat ∧ c.toNat < 0x110000 := c.valid

/-- The escape of a character in one unit. -/
theorem readEscape?_unit {c : Char} (h : c.toNat < 65536) (rest : List Char) :
    readEscape? ('u' :: (hexText 4 c.toNat ++ rest)) = some (c, rest) := by
  have hcode := code_valid c
  simp only [readEscape?, fourHex?_hexText h]
  rw [if_neg (by omega), if_neg (by omega), Char.ofNat_toNat]

/-- The escapes of a character in two units. -/
theorem readEscape?_pair {c : Char} (h : 65536 ≤ c.toNat) (rest : List Char) :
    readEscape? ('u' :: (hexText 4 (0xD800 + (c.toNat - 65536) / 1024)
      ++ '\\' :: 'u' :: (hexText 4 (0xDC00 + (c.toNat - 65536) % 1024) ++ rest)))
      = some (c, rest) := by
  have hcode := code_valid c
  have hhigh : 0xD800 + (c.toNat - 65536) / 1024 < 65536 := by omega
  have hlow : 0xDC00 + (c.toNat - 65536) % 1024 < 65536 := by omega
  simp only [readEscape?, fourHex?_hexText hhigh, fourHex?_hexText hlow]
  rw [if_pos (by omega), if_pos (by omega)]
  have hjoined : 0x10000 + (0xD800 + (c.toNat - 65536) / 1024 - 0xD800) * 1024
      + (0xDC00 + (c.toNat - 65536) % 1024 - 0xDC00) = c.toNat := by omega
  rw [hjoined, Char.ofNat_toNat]

theorem unitEscape_append (n : Nat) (r : List Char) :
    unitEscape n ++ r = '\\' :: 'u' :: (hexText 4 n ++ r) := rfl

/-- **A character is read as it was written.** -/
theorem readString?_escapeChar (ascii : Bool) (c : Char) (fuel : Nat) (r : List Char) :
    readString? (fuel + 1) (escapeChar ascii c ++ r)
      = (readString? fuel r).map fun (cs, rest) => (c :: cs, rest) := by
  unfold escapeChar
  split
  case h_8 hquote hslash _ _ _ _ _ =>
    dsimp only
    split
    next hlow =>
      rw [unitEscape_append]
      exact readString?_escape (readEscape?_unit (by omega) r)
    next hlow =>
      split
      next => exact readString?_plain hquote hslash (by omega)
      next =>
        split
        next hunit =>
          rw [unitEscape_append]
          exact readString?_escape (readEscape?_unit hunit r)
        next hpair =>
          rw [List.append_assoc, unitEscape_append, unitEscape_append]
          exact readString?_escape (readEscape?_pair (by omega) r)
  all_goals exact readString?_escape rfl

/-- **A text in quotes is read as itself.** -/
theorem readString?_escaped (ascii : Bool) : ∀ (cs : List Char) {fuel : Nat} (rest : List Char),
    cs.length < fuel →
      readString? fuel (cs.flatMap (escapeChar ascii) ++ '"' :: rest) = some (cs, rest)
  | [], fuel + 1, rest, _ => by simp [readString?]
  | c :: cs, fuel + 1, rest, h => by
    rw [List.flatMap_cons, List.append_assoc, readString?_escapeChar,
      readString?_escaped ascii cs rest (by simpa using h)]
    rfl

/-- A written character takes a place at least. -/
theorem length_le_escaped (ascii : Bool) (cs : List Char) :
    cs.length ≤ (cs.flatMap (escapeChar ascii)).length := by
  induction cs with
  | nil => simp
  | cons c cs ih =>
    have hpos : 0 < (escapeChar ascii c).length := by
      unfold escapeChar
      split
      case h_8 => grind [unitEscape]
      all_goals simp
    rw [List.flatMap_cons, List.length_append, List.length_cons]
    omega

/-! ## Numbers -/

/-- What follows a number does not belong to it. -/
def EndsNumber (rest : List Char) : Prop :=
  ∀ c ∈ rest.head?, isDigit c = false ∧ c ≠ '.' ∧ c ≠ 'e' ∧ c ≠ 'E'

theorem ascii_of_isDigit {c : Char} (h : c.isDigit = true) : c.toNat < 128 := by
  simp only [Char.isDigit, Bool.and_eq_true, decide_eq_true_eq] at h
  have hc : 48 ≤ c.toNat ∧ c.toNat ≤ 57 := h
  omega

theorem EndsNumber.not_digit {rest : List Char} (h : EndsNumber rest) :
    ∀ c ∈ rest.head?, c.isDigit = false := fun c hc => by
  refine Bool.eq_false_iff.2 fun hdigit => ?_
  exact absurd (isDigit_of_ascii hdigit) (Bool.eq_false_iff.1 (h c hc).1)

/-- A number by its parts. -/
theorem readNumber_append {negative : Bool} {whole fraction exponent tail back rest : List Char}
    (hne : whole ≠ []) (hdigits : ∀ c ∈ whole, c.isDigit = true)
    (hlead : whole.head? = some '0' → whole = ['0'])
    (htail : ∀ c ∈ tail.head?, c.isDigit = false) (hfraction : takeFraction tail = (fraction, back))
    (hexponent : takeExponent back = (exponent, rest)) :
    readNumber negative (whole ++ tail)
      = if fraction.isEmpty && exponent.isEmpty then
          if maxDecimalDigits < whole.length then .error .tooManyDigits
          else .ok (.int (if negative then -(digitsValue whole : Int) else digitsValue whole), rest)
        else match readDecimal? (whole ++ fraction ++ exponent) with
          | some (digits, scale) => .ok (.real (.ofDecimal negative digits scale), rest)
          | none => .error .malformed := by
  obtain ⟨hspan, hrest⟩ := span_append hdigits htail
  have hempty : whole.isEmpty = false := List.isEmpty_eq_false_iff.2 hne
  unfold readNumber
  split
  next first behind heq =>
    obtain ⟨rfl, rfl⟩ : first = whole ∧ behind = tail := by
      split at heq
      next r hcons =>
        obtain ⟨c, cs, rfl⟩ := List.exists_cons_of_ne_nil hne
        obtain ⟨rfl, rfl⟩ := List.cons_eq_cons.1 hcons
        obtain rfl : cs = [] := by simpa using hlead rfl
        obtain ⟨rfl, rfl⟩ := Prod.mk.inj heq
        exact ⟨rfl, rfl⟩
      next =>
        rw [hspan, hrest] at heq
        obtain ⟨rfl, rfl⟩ := Prod.mk.inj heq
        exact ⟨rfl, rfl⟩
    simp only [hempty, Bool.false_eq_true, if_false, hfraction, hexponent] <;> rfl

theorem takeFraction_fractionText {ds tail : List Char} (hdigits : ∀ c ∈ ds, c.isDigit = true)
    (htail : ∀ c ∈ tail.head?, c.isDigit = false ∧ c ≠ '.') :
    takeFraction (Numeral.fractionText ds ++ tail) = (Numeral.fractionText ds, tail) := by
  unfold Numeral.fractionText
  split
  next =>
    rw [List.nil_append]
    unfold takeFraction
    split
    next r => exact absurd rfl (htail '.' rfl).2
    next => rfl
  next hne =>
    obtain ⟨hspan, hrest⟩ := span_append hdigits fun c hc => (htail c hc).1
    simp [takeFraction, hspan, hrest, hne]

theorem takeExponent_exponentText {e : Option (Bool × List Char)} {rest : List Char}
    (he : ∀ x ∈ e, x.2 ≠ [] ∧ ∀ c ∈ x.2, c.isDigit = true) (hrest : EndsNumber rest) :
    takeExponent (Numeral.exponentText e ++ rest) = (Numeral.exponentText e, rest) := by
  rcases e with _ | ⟨negative, ds⟩
  · have hnone : leadingExponent rest = [] := by
      cases rest with
      | nil => rfl
      | cons c cs =>
        obtain ⟨-, -, he, hE⟩ := hrest c rfl
        simp [leadingExponent, he, hE]
    simp [takeExponent, Numeral.exponentText, hnone]
  · obtain ⟨hne, hdigits⟩ := he _ rfl
    have hspan := (span_append (p := isDigit) (fun c hc => isDigit_of_ascii (hdigits c hc))
      fun c hc => (hrest c hc).1).1
    have hascii : (Numeral.exponentText (some (negative, ds))).all (fun c => c.toNat < 128)
        = true := by
      have hds : ∀ c ∈ ds, c.toNat < 128 := fun c hc => ascii_of_isDigit (hdigits c hc)
      cases negative <;> simpa [Numeral.exponentText] using hds
    have hlead : leadingExponent (Numeral.exponentText (some (negative, ds)) ++ rest)
        = Numeral.exponentText (some (negative, ds)) := by
      cases negative <;> simp [Numeral.exponentText, leadingExponent, hspan, hne]
    simp only [takeExponent, hlead, hascii, if_true, List.drop_left]

/-- What stands behind the fraction of a number does not belong to it. -/
theorem head?_behind_fraction (e : Option (Bool × List Char)) {rest : List Char}
    (hrest : EndsNumber rest) :
    ∀ c ∈ (Numeral.exponentText e ++ rest).head?, c.isDigit = false ∧ c ≠ '.' := by
  rcases e with _ | ⟨negative, ds⟩
  · exact fun c hc => ⟨hrest.not_digit c hc, (hrest c hc).2.1⟩
  · simp [Numeral.exponentText]

/-- **A real is read as it was written.** -/
theorem readNumber_numeral {n : Numeral} (h : n.Fit) {rest : List Char} (hrest : EndsNumber rest)
    (negative : Bool) :
    readNumber negative (n.text ++ rest)
      = .ok (.real (.ofDecimal negative n.digits n.scale), rest) := by
  have hbehind := head?_behind_fraction n.exponent hrest
  have htail : ∀ c ∈ (Numeral.fractionText n.fraction
      ++ (Numeral.exponentText n.exponent ++ rest)).head?, c.isDigit = false := by
    unfold Numeral.fractionText
    split
    · exact fun c hc => (hbehind c hc).1
    · simp
  have hreal : ((Numeral.fractionText n.fraction).isEmpty
      && (Numeral.exponentText n.exponent).isEmpty) = false := by
    rcases h.not_whole with hne | hne
    · simp [Numeral.fractionText, hne]
    · obtain ⟨e, he⟩ := Option.ne_none_iff_exists'.1 hne
      simp [he, Numeral.exponentText]
  rw [Numeral.text, List.append_assoc, List.append_assoc,
    readNumber_append h.whole_ne_nil h.whole_digits h.no_leading_zero htail
      (takeFraction_fractionText h.fraction_digits hbehind)
      (takeExponent_exponentText h.exponent_digits hrest), hreal, if_neg (by decide)]
  have hread := Numeral.readDecimal?_text h
  rw [Numeral.text] at hread
  rw [hread]

/-- **A whole number is read as it was written.** -/
theorem readNumber_toDigits {k : Nat} (hk : digitCount 10 k ≤ maxDecimalDigits) {rest : List Char}
    (hrest : EndsNumber rest) (negative : Bool) :
    readNumber negative (Nat.toDigits 10 k ++ rest)
      = .ok (.int (if negative then -(k : Int) else k), rest) := by
  have hlen : (Nat.toDigits 10 k).length ≤ maxDecimalDigits := by
    refine (Nat.length_toDigits_le_iff (by decide) (by decide)).2 ?_
    exact Nat.lt_of_lt_of_le (lt_pow_digitCount (by decide) k)
      (Nat.pow_le_pow_right (by decide) hk)
  have hlead : (Nat.toDigits 10 k).head? = some '0' → Nat.toDigits 10 k = ['0'] := fun h => by
    by_cases hzero : k = 0
    · rw [hzero, Nat.toDigits_zero]
    · exact absurd h (head?_toDigits hzero)
  have hfraction := takeFraction_fractionText (List.forall_mem_nil _)
    fun c hc => ⟨hrest.not_digit c hc, (hrest c hc).2.1⟩
  have hexponent := takeExponent_exponentText (e := none) (by simp) hrest
  rw [readNumber_append Nat.toDigits_ne_nil (fun _ hc => isDigit_toDigits hc) hlead
      hrest.not_digit hfraction hexponent]
  simp [Numeral.fractionText, Numeral.exponentText, Nat.not_lt.2 hlen]

/-! ## Atoms -/

/-- A word does not start a text with another first character. -/
theorem dropWord?_of_head {word : String} {c : Char} {cs : List Char} (hne : word.toList ≠ [])
    (h : word.toList.head? ≠ some c) : dropWord? word (c :: cs) = none := by
  obtain ⟨d, ds, hword⟩ := List.exists_cons_of_ne_nil hne
  rw [hword, List.head?_cons, Ne, Option.some.injEq] at h
  simp [dropWord?, hword, List.isPrefixOf, h]

theorem readAtom_digit {c : Char} {cs : List Char} (hc : c.isDigit = true) :
    readAtom (c :: cs) = readNumber false (c :: cs) := by
  have hother (word : String) (hne : word.toList ≠ [])
      (h : word.toList.head?.map Char.isDigit ≠ some true) : dropWord? word (c :: cs) = none :=
    dropWord?_of_head hne fun hd => h (by rw [hd, Option.map_some, hc])
  have hminus : c ≠ '-' := fun h => by simp [h] at hc
  unfold readAtom
  rw [hother "null" (by decide) (by decide),
    hother "true" (by decide) (by decide),
    hother "false" (by decide) (by decide),
    hother "NaN" (by decide) (by decide),
    hother "Infinity" (by decide) (by decide),
    hother "-Infinity" (by decide) (by decide)]
  dsimp only
  split
  next heq => exact absurd (List.cons_eq_cons.1 heq).1 hminus
  next => rfl

theorem readAtom_minus {c : Char} {cs : List Char} (hc : c.isDigit = true) :
    readAtom ('-' :: c :: cs) = readNumber true (c :: cs) := by
  have hother (word : String) (hne : word.toList ≠ []) (h : word.toList.head? ≠ some '-') :
      dropWord? word ('-' :: c :: cs) = none := dropWord?_of_head hne h
  have hinfinity : dropWord? "-Infinity" ('-' :: c :: cs) = none := by
    have : 'I' ≠ c := fun h => by simp [← h] at hc
    simp [dropWord?, List.isPrefixOf, this]
  unfold readAtom
  rw [hother "null" (by decide) (by decide),
    hother "true" (by decide) (by decide),
    hother "false" (by decide) (by decide),
    hother "NaN" (by decide) (by decide),
    hother "Infinity" (by decide) (by decide), hinfinity]
  rfl

/-- A number behind its sign. -/
theorem readAtom_signed {cs rest : List Char} {v : Bool → Value}
    (hhead : ∃ c ∈ cs.head?, c.isDigit = true)
    (h : ∀ negative, readNumber negative cs = .ok (v negative, rest)) (negative : Bool) :
    readAtom ((if negative then ['-'] else []) ++ cs) = .ok (v negative, rest) := by
  obtain ⟨c, hc, hdigit⟩ := hhead
  obtain ⟨ds, rfl⟩ := List.head?_eq_some_iff.1 hc
  cases negative
  · exact (readAtom_digit hdigit).trans (h false)
  · exact (readAtom_minus hdigit).trans (h true)

theorem toList_intText (n : Int) :
    (intText n).toList = (if decide (n < 0) then ['-'] else []) ++ Nat.toDigits 10 n.natAbs := by
  unfold intText natText
  split <;> simp [*]

/-- **A whole number is read as itself.** -/
theorem readAtom_intText {n : Int} (hn : digitCount 10 n.natAbs ≤ maxDecimalDigits)
    {rest : List Char} (hrest : EndsNumber rest) :
    readAtom ((intText n).toList ++ rest) = .ok (.int n, rest) := by
  obtain ⟨c, cs, hcs⟩ := List.exists_cons_of_ne_nil (Nat.toDigits_ne_nil (n := n.natAbs) (b := 10))
  have hsign : (if decide (n < 0) then -(n.natAbs : Int) else n.natAbs) = n := by
    simp only [decide_eq_true_eq]
    split <;> omega
  rw [toList_intText, List.append_assoc,
    readAtom_signed ⟨c, by simp [hcs], isDigit_toDigits (n := n.natAbs) (by simp [hcs])⟩
      (readNumber_toDigits hn hrest), hsign]

/-- **A real is read as itself.** -/
theorem readAtom_realText (x : Binary64) {rest : List Char} (hrest : EndsNumber rest) :
    readAtom ((realText x).toList ++ rest) = .ok (.real x, rest) := by
  rcases x with _ | s | ⟨s, m⟩
  · exact rfl
  · cases s <;> exact rfl
  · obtain ⟨n, hfit, htext, hvalue⟩ := Binary64.exists_numeral s m
    obtain ⟨c, cs, hcs⟩ := List.exists_cons_of_ne_nil hfit.whole_ne_nil
    have hreal : realText (.finite s m) = (Binary64.finite s m).text := rfl
    rw [hreal, htext, List.append_assoc,
      readAtom_signed (v := fun s => .real (.ofDecimal s n.digits n.scale))
        ⟨c, by simp [Numeral.text, hcs], hfit.whole_digits c (by simp [hcs])⟩
        (readNumber_numeral hfit hrest), hvalue]

end Json

end Taskboard
