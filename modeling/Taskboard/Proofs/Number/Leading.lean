import Taskboard.Number.Reading
import Taskboard.Proofs.Number.Text

/-!
# Proofs/Number/Leading — the number at the start of a text

What `leadingNumberText?` cuts off is blanks, a sign, and a decimal (`IsDecimal`) with digits of any
script.  `readReal` strips the blanks except for the information separators, which are blanks of a
text but no padding of a number.

* `exists_decimal_of_leadingNumberText?` — what is cut off.
* `exists_readReal_leading_iff` — **it is read as a real exactly if no information separator stands
  among the blanks.**
-/

namespace Taskboard

variable {p : Char → Bool} {c : Char} {cs ds fs e : List Char}

/-- What may stand for the sign of a number. -/
inductive IsSign : List Char → Prop
  | none : IsSign []
  | minus : IsSign ['-']
  | plus : IsSign ['+']

/-- An exponent with digits of a class, or none. -/
inductive IsExponent (p : Char → Bool) : List Char → Prop
  | none : IsExponent p []
  | marked {m : Char} {sign ds : List Char} (hm : m = 'e' ∨ m = 'E') (hsign : IsSign sign)
      (hne : ds ≠ []) (hds : ∀ d ∈ ds, p d = true) : IsExponent p (m :: (sign ++ ds))

/-- An unsigned decimal with digits of a class: a digit stands on one side of the point. -/
inductive IsDecimal (p : Char → Bool) : List Char → Prop
  | whole {ds e : List Char} (hne : ds ≠ []) (hds : ∀ d ∈ ds, p d = true)
      (he : IsExponent p e) : IsDecimal p (ds ++ e)
  | pointed {ds fs e : List Char} (hne : ds ≠ [] ∨ fs ≠ []) (hds : ∀ d ∈ ds, p d = true)
      (hfs : ∀ d ∈ fs, p d = true) (he : IsExponent p e) : IsDecimal p (ds ++ '.' :: (fs ++ e))

/-! ## What is cut off -/

theorem isDigit_takeWhile (cs : List Char) : ∀ d ∈ cs.takeWhile isDigit, isDigit d = true :=
  List.all_eq_true.mp List.all_takeWhile

/-- Digits behind a mark are an exponent; without digits there is none. -/
theorem isExponent_takeWhile {m : Char} {sign : List Char} (hm : m = 'e' ∨ m = 'E')
    (hsign : IsSign sign) (cs : List Char) :
    IsExponent isDigit
      (if (cs.takeWhile isDigit).isEmpty then [] else m :: (sign ++ cs.takeWhile isDigit)) := by
  split
  next => exact .none
  next hne => exact .marked hm hsign (mt List.isEmpty_iff.mpr hne) (isDigit_takeWhile cs)

theorem isSign_singleton {c : Char} (h : (c = '-' || c = '+') = true) : IsSign [c] := by
  simp only [Bool.or_eq_true, decide_eq_true_eq] at h
  rcases h with rfl | rfl
  · exact .minus
  · exact .plus

theorem isExponent_leadingExponent (cs : List Char) : IsExponent isDigit (leadingExponent cs) := by
  unfold leadingExponent
  split
  next m r =>
    split
    next hm =>
      simp only [Bool.or_eq_true, decide_eq_true_eq] at hm
      split
      next s r' =>
        split
        next hs => exact isExponent_takeWhile hm (isSign_singleton (Bool.or_comm _ _ ▸ hs)) r'
        next => exact isExponent_takeWhile hm .none (s :: r')
      next => exact .none
    next => exact .none
  next => exact .none

/-- **What is cut off**: the blanks of the text, a sign, and a decimal. -/
theorem exists_decimal_of_leadingNumberText? {s t : String} (h : leadingNumberText? s = some t) :
    ∃ sign cs, IsSign sign ∧ IsDecimal isDigit cs ∧
      t.toList = s.toList.takeWhile isBlank ++ (sign ++ cs) := by
  unfold leadingNumberText? at h
  extract_lets cs blanks afterBlanks at h
  clear_value afterBlanks
  split at h
  next sign afterSign hsplit =>
  have hsign : IsSign sign := by
    split at hsplit
    next c r =>
      split at hsplit
      next hc => exact (Prod.mk.inj hsplit).1 ▸ isSign_singleton hc
      next => exact (Prod.mk.inj hsplit).1 ▸ .none
    next => exact (Prod.mk.inj hsplit).1 ▸ .none
  split at h
  next whole rest hdigits =>
  have hwhole : ∀ d ∈ whole, isDigit d = true := by
    obtain rfl : afterSign.takeWhile isDigit = whole := congrArg Prod.fst hdigits
    exact isDigit_takeWhile afterSign
  split at h
  next r =>
    -- a point without digits before it
    dsimp only [decimalDigits] at h
    split at h
    next => cases h
    next hne =>
      refine ⟨sign, _, hsign, .pointed (.inr (mt List.isEmpty_iff.mpr hne)) hwhole
        (isDigit_takeWhile r) (isExponent_leadingExponent (r.dropWhile isDigit)), ?_⟩
      rw [← Option.some.inj h, String.toList_ofList]
      simp only [List.append_assoc, List.cons_append, List.nil_append]
      rfl
  next => cases h
  next r hne =>
    refine ⟨sign, _, hsign, .pointed (.inl hne) hwhole (isDigit_takeWhile r)
      (isExponent_leadingExponent (r.dropWhile isDigit)), ?_⟩
    rw [← Option.some.inj h, String.toList_ofList]
    simp only [List.append_assoc, List.cons_append]
    rfl
  next hne _ _ =>
    refine ⟨sign, _, hsign, .whole hne hwhole (isExponent_leadingExponent rest), ?_⟩
    rw [← Option.some.inj h, String.toList_ofList]
    simp only [List.append_assoc]
    rfl

/-! ## As number readers see it -/

/-- The information separators: blanks of a text, but no padding of a number. -/
def isSeparator (c : Char) : Bool := 28 ≤ c.toNat && c.toNat ≤ 31

/-- A character as number readers see it. -/
def normalChar (c : Char) : Char :=
  if c.toNat < 127 then c
  else if isBlank c then ' '
  else match digitValue? c with
    | some d => Char.ofNat (48 + d)
    | none => '?'

theorem normalizeNumber_eq_map (cs : List Char) : normalizeNumber cs = cs.map normalChar := rfl

theorem exists_digitZero {d : Nat} (h : digitValue? c = some d) :
    ∃ z ∈ digitZeros, d < 10 ∧ c.toNat = z + d := by
  obtain ⟨z, hz, rfl⟩ := Option.map_eq_some_iff.mp h
  have hrange : z ≤ c.toNat ∧ c.toNat < z + 10 := by simpa using List.find?_some hz
  exact ⟨z, List.mem_of_find?_eq_some hz, by omega, by omega⟩

/-- A digit of any script becomes an ASCII one. -/
theorem isDigit_normalChar (h : isDigit c = true) : (normalChar c).isDigit = true := by
  obtain ⟨d, hd⟩ := Option.isSome_iff_exists.mp h
  obtain ⟨z, hz, hlt, hcode⟩ := exists_digitZero hd
  have hchar : c = Char.ofNat (z + d) := by rw [← hcode, Char.ofNat_toNat]
  have hascii : ∀ z ∈ digitZeros, ∀ d < 10, z + d < 127 → (Char.ofNat (z + d)).isDigit = true := by
    decide +kernel
  have hblank : ∀ z ∈ digitZeros, ∀ d < 10, isBlank (Char.ofNat (z + d)) = false := by
    decide +kernel
  have hvalue : ∀ d < 10, (Char.ofNat (48 + d)).isDigit = true := by decide
  unfold normalChar
  split
  next hsmall => exact hchar ▸ hascii z hz d hlt (hcode ▸ hsmall)
  next =>
    rw [if_neg (by rw [hchar, hblank z hz d hlt]; exact Bool.false_ne_true), hd]
    exact hvalue d hlt

theorem isDigit_map_normalChar (h : ∀ d ∈ ds, isDigit d = true) :
    ∀ d ∈ ds.map normalChar, d.isDigit = true := by
  intro d hd
  obtain ⟨c, hc, rfl⟩ := List.mem_map.mp hd
  exact isDigit_normalChar (h c hc)

theorem normalChar_of_isSeparator (h : isSeparator c = true) : normalChar c = c := by
  simp only [isSeparator, Bool.and_eq_true, decide_eq_true_eq] at h
  exact if_pos (by omega)

/-- All blanks but the separators become padding. -/
theorem isAsciiPadding_normalChar (h : isBlank c = true) (hc : isSeparator c = false) :
    isAsciiPadding (normalChar c) = true := by
  unfold normalChar
  split
  next hsmall =>
    simp only [isBlank, isSeparator, isAsciiPadding, Bool.or_eq_true, Bool.and_eq_true,
      Bool.and_eq_false_iff, decide_eq_true_eq, decide_eq_false_iff_not] at h hc ⊢
    by_cases hspace : c.toNat = 32
    · exact .inl (Char.toNat_inj.mp hspace)
    · exact .inr (by omega)
  next => rfl

theorem IsSign.map_normalChar {sign : List Char} (h : IsSign sign) :
    sign.map normalChar = sign := by
  cases h <;> rfl

theorem IsExponent.normalize (h : IsExponent isDigit e) :
    IsExponent Char.isDigit (e.map normalChar) := by
  cases h with
  | none => exact .none
  | @marked m sign ds hm hsign hne hds =>
    have hmark : normalChar m = m := by rcases hm with rfl | rfl <;> rfl
    rw [List.map_cons, List.map_append, hmark, hsign.map_normalChar]
    exact .marked hm hsign (mt List.map_eq_nil_iff.mp hne) (isDigit_map_normalChar hds)

/-- A decimal with digits of any script becomes one with ASCII digits. -/
theorem IsDecimal.normalize (h : IsDecimal isDigit cs) :
    IsDecimal Char.isDigit (cs.map normalChar) := by
  cases h with
  | whole hne hds he =>
    rw [List.map_append]
    exact .whole (mt List.map_eq_nil_iff.mp hne) (isDigit_map_normalChar hds) he.normalize
  | pointed hne hds hfs he =>
    rw [List.map_append, List.map_cons, List.map_append]
    exact .pointed (hne.imp (mt List.map_eq_nil_iff.mp) (mt List.map_eq_nil_iff.mp))
      (isDigit_map_normalChar hds) (isDigit_map_normalChar hfs) he.normalize

/-! ## Reading -/

/-- A character that stands in a decimal with ASCII digits, or is its sign. -/
def InNumber (c : Char) : Prop := c.isDigit = true ∨ c ∈ ['.', 'e', 'E', '+', '-']

theorem IsSign.inNumber {sign : List Char} (h : IsSign sign) : ∀ c ∈ sign, InNumber c := by
  cases h <;> simp [InNumber]

theorem IsExponent.inNumber (h : IsExponent Char.isDigit e) : ∀ c ∈ e, InNumber c := by
  cases h with
  | none => exact List.forall_mem_nil _
  | marked hm hsign _ hds =>
    refine List.forall_mem_cons.mpr ⟨.inr ?_, List.forall_mem_append.mpr
      ⟨hsign.inNumber, fun c hc => .inl (hds c hc)⟩⟩
    rcases hm with rfl | rfl <;> simp

theorem IsDecimal.inNumber (h : IsDecimal Char.isDigit cs) : ∀ c ∈ cs, InNumber c := by
  cases h with
  | whole _ hds he =>
    exact List.forall_mem_append.mpr ⟨fun c hc => .inl (hds c hc), he.inNumber⟩
  | pointed _ hds hfs he =>
    exact List.forall_mem_append.mpr ⟨fun c hc => .inl (hds c hc), List.forall_mem_cons.mpr
      ⟨.inr List.mem_cons_self,
        List.forall_mem_append.mpr ⟨fun c hc => .inl (hfs c hc), he.inNumber⟩⟩⟩

/-- The exponent starts with its mark. -/
theorem IsExponent.head (h : IsExponent Char.isDigit e) : ∀ c ∈ e.head?, c.isDigit = false := by
  intro c hc
  cases h with
  | none => cases hc
  | marked hm =>
    obtain rfl := Option.some.inj hc
    rcases hm with rfl | rfl <;> rfl

theorem takeSign_sign_append {sign : List Char} (hsign : IsSign sign)
    (h : ∀ c ∈ cs.head?, c ≠ '-' ∧ c ≠ '+') :
    ∃ negative, takeSign (sign ++ cs) = (negative, cs) := by
  cases hsign with
  | none =>
    cases cs with
    | nil => exact ⟨false, rfl⟩
    | cons c cs => exact ⟨false, takeSign_of_ne (h c rfl).1 (h c rfl).2⟩
  | minus => exact ⟨true, rfl⟩
  | plus => exact ⟨false, rfl⟩

theorem ne_sign_of_isDigit (h : c.isDigit = true) : c ≠ '-' ∧ c ≠ '+' := by
  constructor <;> rintro rfl <;> cases h

/-- The sign before the digits of an exponent is read back. -/
theorem takeSign_sign_digits {sign : List Char} (hsign : IsSign sign)
    (hds : ∀ d ∈ ds, d.isDigit = true) : ∃ negative, takeSign (sign ++ ds) = (negative, ds) :=
  takeSign_sign_append hsign fun c hc => ne_sign_of_isDigit (hds c (List.mem_of_mem_head? hc))

/-- **A decimal is read.** -/
theorem IsDecimal.isSome_readDecimal? (h : IsDecimal Char.isDigit cs) :
    (readDecimal? cs).isSome = true := by
  cases h with
  | @whole ds e hne hds he =>
    obtain ⟨htake, hdrop⟩ := span_append hds he.head
    unfold readDecimal?
    rw [htake, hdrop]
    cases he with
    | none => simp [hne]
    | marked hm hsign hnes hes =>
      obtain ⟨negative, htakes⟩ := takeSign_sign_digits hsign hes
      rcases hm with rfl | rfl <;> simpa [hne, htakes, hnes] using hes
  | @pointed ds fs e hne hds hfs he =>
    have hpoint : ∀ c ∈ ('.' :: (fs ++ e)).head?, c.isDigit = false := by simp
    obtain ⟨htake, hdrop⟩ := span_append hds hpoint
    obtain ⟨hfraction, hback⟩ := span_append hfs he.head
    have hsome : (ds.isEmpty && fs.isEmpty) = false := by
      rcases hne with hne | hne <;> simp [hne]
    unfold readDecimal?
    rw [htake, hdrop]
    simp only [hfraction, hback, hsome, Bool.false_eq_true, if_false]
    cases he with
    | none => rfl
    | marked hm hsign hnes hes =>
      obtain ⟨negative, htakes⟩ := takeSign_sign_digits hsign hes
      rcases hm with rfl | rfl <;> simpa [htakes, hnes] using hes

/-- So is one as a real, whatever its sign. -/
theorem isSome_readRealBody? (h : (readDecimal? cs).isSome = true) (negative : Bool) :
    (readRealBody? negative cs).isSome = true := by
  unfold readRealBody?
  dsimp only
  split
  next => rfl
  next =>
    split
    next => rfl
    next => rw [Option.isSome_map, h]

theorem trimWhile_append {pad : List Char} (hpad : ∀ c ∈ pad, p c = true)
    (hcs : ∀ c ∈ cs, p c = false) : trimWhile p (pad ++ cs) = cs := by
  have htrim := trimWhile_of_forall hcs
  rw [trimWhile, List.dropWhile_append_of_pos hpad]
  exact htrim

theorem InNumber.no_padding (h : InNumber c) : isAsciiPadding c = false ∧ c ≠ '_' := by
  rcases h with hdigit | hmark
  · have hlow : 48 ≤ c.toNat := (Char.isDigit_iff_toNat.mp hdigit).1
    have hspace : c ≠ ' ' := by rintro rfl; cases hdigit
    have hpadding : ¬(9 ≤ c.toNat ∧ c.toNat ≤ 13) := by omega
    refine ⟨?_, by rintro rfl; cases hdigit⟩
    rw [isAsciiPadding, decide_eq_false hspace, Bool.false_or, ← Bool.decide_and,
      decide_eq_false hpadding]
  · simp only [List.mem_cons, List.not_mem_nil, or_false] at hmark
    rcases hmark with rfl | rfl | rfl | rfl | rfl <;> exact ⟨rfl, nofun⟩

/-- A decimal does not start with a sign. -/
theorem IsDecimal.head (h : IsDecimal Char.isDigit cs) : ∀ c ∈ cs.head?, c ≠ '-' ∧ c ≠ '+' := by
  intro c hc
  cases h with
  | @whole ds e hne hds _ =>
    obtain ⟨d, ds, rfl⟩ := List.exists_cons_of_ne_nil hne
    obtain rfl := Option.some.inj hc
    exact ne_sign_of_isDigit (hds d List.mem_cons_self)
  | @pointed ds fs e _ hds _ _ =>
    cases ds with
    | nil =>
      obtain rfl := Option.some.inj hc
      exact ⟨nofun, nofun⟩
    | cons d ds =>
      obtain rfl := Option.some.inj hc
      exact ne_sign_of_isDigit (hds d List.mem_cons_self)

/-- **A number behind padding is read.** -/
theorem exists_readReal_of_padding {pad sign : List Char} {t : String}
    (hpad : ∀ c ∈ pad, isAsciiPadding c = true) (hsign : IsSign sign)
    (hcs : IsDecimal Char.isDigit cs) (ht : normalizeNumber t.toList = pad ++ (sign ++ cs)) :
    ∃ x, readReal t = .ok x := by
  have hbody : ∀ c ∈ sign ++ cs, InNumber c :=
    List.forall_mem_append.mpr ⟨hsign.inNumber, hcs.inNumber⟩
  have htrim : trimWhile isAsciiPadding (normalizeNumber t.toList) = sign ++ cs := by
    rw [ht]
    exact trimWhile_append hpad fun c hc => (hbody c hc).no_padding.1
  have hlines : dropLowLines false (sign ++ cs) = some (sign ++ cs) :=
    dropLowLines_of_not_mem fun hmem => (hbody _ hmem).no_padding.2 rfl
  obtain ⟨negative, htake⟩ := takeSign_sign_append hsign hcs.head
  obtain ⟨x, hx⟩ := Option.isSome_iff_exists.mp
    (isSome_readRealBody? hcs.isSome_readDecimal? negative)
  refine ⟨x, ?_⟩
  simp only [readReal, htrim, hlines, htake, hx]

/-- Trimming stops at the first character that is not of the class. -/
theorem exists_trimWhile {pad : List Char} (hpad : ∀ c ∈ pad, p c = true) (hc : p c = false)
    (rest : List Char) :
    ∃ rest', trimWhile p (pad ++ c :: rest) = c :: rest' := by
  rw [trimWhile, List.dropWhile_append_of_pos hpad, List.dropWhile_cons_of_neg (by simp [hc]),
    List.reverse_cons, List.dropWhile_append]
  split
  next => exact ⟨[], by simp [hc]⟩
  next => exact ⟨_, by rw [List.reverse_append, List.reverse_singleton, List.singleton_append]⟩

/-- A separator is no part of a number, at its start least of all. -/
theorem not_startsNumber_of_isSeparator (h : isSeparator c = true) :
    isAsciiPadding c = false ∧ c.isDigit = false ∧ c ∉ ['_', '+', '-', '.'] ∧
      c.toLower ∉ ['i', 'n'] := by
  have hcodes : ∀ n < 32, 28 ≤ n → isAsciiPadding (Char.ofNat n) = false ∧
      (Char.ofNat n).isDigit = false ∧ Char.ofNat n ∉ ['_', '+', '-', '.'] ∧
      (Char.ofNat n).toLower ∉ ['i', 'n'] := by
    decide +kernel
  simp only [isSeparator, Bool.and_eq_true, decide_eq_true_eq] at h
  exact Char.ofNat_toNat c ▸ hcodes c.toNat (Nat.lt_succ_of_le h.2) h.1

theorem readDecimal?_eq_none (hdigit : c.isDigit = false) (hpoint : c ≠ '.') :
    readDecimal? (c :: cs) = none := by
  simp [readDecimal?, hdigit, hpoint]

theorem readRealBody?_eq_none (hdigit : c.isDigit = false) (hpoint : c ≠ '.')
    (hletter : c.toLower ∉ ['i', 'n']) (negative : Bool) :
    readRealBody? negative (c :: cs) = none := by
  have hword (word : String) (hfirst : ∃ d ∈ ['i', 'n'], word.toList.head? = some d) :
      String.ofList ((c :: cs).map Char.toLower) ≠ word := by
    rintro rfl
    obtain ⟨d, hd, hhead⟩ := hfirst
    rw [String.toList_ofList, List.map_cons, List.head?_cons, Option.some.injEq] at hhead
    exact hletter (hhead ▸ hd)
  have hinf := hword "inf" ⟨'i', by simp, rfl⟩
  have hinfinity := hword "infinity" ⟨'i', by simp, rfl⟩
  have hnan := hword "nan" ⟨'n', by simp, rfl⟩
  simp only [readRealBody?, hinf, hinfinity, hnan, readDecimal?_eq_none hdigit hpoint,
    decide_false, Bool.or_self, Bool.false_eq_true, if_false, Option.map_none]

/-- **A text with a separator behind its padding is no number.** -/
theorem readReal_eq_error {t : String} {pad rest : List Char}
    (hpad : ∀ c ∈ pad, isAsciiPadding c = true) (hc : isSeparator c = true)
    (ht : normalizeNumber t.toList = pad ++ c :: rest) : readReal t = .error .unreadableNumber := by
  obtain ⟨hnopad, hdigit, hother, hletter⟩ := not_startsNumber_of_isSeparator hc
  simp only [List.mem_cons, List.not_mem_nil, or_false, not_or] at hother
  obtain ⟨hline, hplus, hminus, hpoint⟩ := hother
  obtain ⟨body, htrim⟩ := exists_trimWhile hpad hnopad rest
  have hlines : dropLowLines false (c :: body) = (dropLowLines c.isDigit body).map (c :: ·) := by
    simp [dropLowLines, hline]
  simp only [readReal, ht, htrim, hlines]
  cases dropLowLines c.isDigit body with
  | none => rfl
  | some ds =>
    simp only [Option.map_some, takeSign_of_ne hminus hplus,
      readRealBody?_eq_none hdigit hpoint hletter]

/-! ## The leading number -/

/-- **The number at the start of a text is read exactly if no separator stands before it.** -/
theorem exists_readReal_leading_iff {s t : String} (h : leadingNumberText? s = some t) :
    (∃ x, readReal t = .ok x) ↔ ∀ c ∈ s.toList.takeWhile isBlank, isSeparator c = false := by
  obtain ⟨sign, cs, hsign, hcs, ht⟩ := exists_decimal_of_leadingNumberText? h
  have hblank : ∀ c ∈ s.toList.takeWhile isBlank, isBlank c = true :=
    List.all_eq_true.mp List.all_takeWhile
  have hnormal : normalizeNumber t.toList =
      (s.toList.takeWhile isBlank).map normalChar ++ (sign ++ cs.map normalChar) := by
    rw [normalizeNumber_eq_map, ht, List.map_append, List.map_append, hsign.map_normalChar]
  constructor
  · intro ⟨x, hx⟩ c hc
    refine Bool.eq_false_iff.mpr fun hsep => ?_
    -- the first separator is where the padding ends
    obtain ⟨d, hd⟩ := Option.isSome_iff_exists.mp (List.find?_isSome.mpr ⟨c, hc, hsep⟩)
    obtain ⟨hdsep, pad, rest, hsplit, hpad⟩ := List.find?_eq_some_iff_append.mp hd
    rw [hsplit, List.map_append, List.map_cons, normalChar_of_isSeparator hdsep,
      List.append_assoc, List.cons_append] at hnormal
    have herror := readReal_eq_error (fun e he => ?_) hdsep hnormal
    · rw [hx] at herror
      cases herror
    · obtain ⟨a, ha, rfl⟩ := List.mem_map.mp he
      have hmem : a ∈ s.toList.takeWhile isBlank := hsplit ▸ List.mem_append_left _ ha
      exact isAsciiPadding_normalChar (hblank a hmem) (by simpa using hpad a ha)
  · intro hclean
    refine exists_readReal_of_padding (fun c hc => ?_) hsign hcs.normalize hnormal
    obtain ⟨d, hd, rfl⟩ := List.mem_map.mp hc
    exact isAsciiPadding_normalChar (hblank d hd) (hclean d hd)

end Taskboard
