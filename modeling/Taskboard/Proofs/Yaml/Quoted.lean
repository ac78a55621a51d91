import Taskboard.Proofs.Json.Scalars
import Taskboard.Proofs.Yaml.Cursor
import Taskboard.Yaml.Writer

/-!
# Proofs/Yaml/Quoted — texts between quotes

A text can stand between quotes in several ways: a space may become a line break, and double quotes
allow escapes and lines that go on. `Quoted` relates a text to all of them, whatever the writer's
reasons for one are.

* `quotedEscape_escapeText` — an escape is read as the character that it was written for.
* `readQuoted_quoted` — **each way of writing a text between quotes is read as the text.**
-/

namespace Taskboard.Yaml

-- powers are those of the naturals, also where an importing module knows other ones
attribute [local instance (high)] instPowNat

/-! ## The written forms -/

/-- The quote of a style. -/
def quoteOf (double : Bool) : Char := if double then '"' else '\''

/-- A character that stands for itself between quotes. -/
structure Stands (double : Bool) (ch : Char) : Prop where
  solid : isBlankOrBreak ch = false
  allowed : isAllowed ch = true
  ne_quote : ch ≠ quoteOf double
  ne_backslash : double = true → ch ≠ '\\'

/-- A line break that is written as such and read as itself. -/
def IsKeptBreak (ch : Char) : Prop := isWrittenBreak ch = true ∧ ch ≠ '\x85'

/-- Line breaks as they are written: one more than there are, where the first is a line feed. -/
def writtenBreaks (bs : List Char) : List Char := if bs.head? = some '\n' then '\n' :: bs else bs

/-- **The ways to write a text between quotes**, its further lines indented. -/
inductive Quoted (indent : Nat) : Bool → List Char → List Char → Prop
  | nil (double : Bool) : Quoted indent double [] []
  | char {double : Bool} {ch : Char} {cs f : List Char} (hch : Stands double ch)
      (h : Quoted indent double cs f) : Quoted indent double (ch :: cs) (ch :: f)
  | spaces {double : Bool} {cs f : List Char} (n : Nat) (hf : IsSolid f)
      (h : Quoted indent double cs f) :
      Quoted indent double (List.replicate (n + 1) ' ' ++ cs) (List.replicate (n + 1) ' ' ++ f)
  /-- A single quote is doubled. -/
  | quote {cs f : List Char} (h : Quoted indent false cs f) :
      Quoted indent false ('\'' :: cs) ('\'' :: '\'' :: f)
  /-- A space as a line break. -/
  | fold {cs f : List Char} (hf : IsSolid f) (h : Quoted indent false cs f) :
      Quoted indent false (' ' :: cs) ('\n' :: (List.replicate indent ' ' ++ f))
  | breaks {cs f bs : List Char} (hne : bs ≠ []) (hbs : ∀ ch ∈ bs, IsKeptBreak ch)
      (hf : IsSolid f) (h : Quoted indent false cs f) :
      Quoted indent false (bs ++ cs) (writtenBreaks bs ++ (List.replicate indent ' ' ++ f))
  | escape {cs f : List Char} (ch : Char) (h : Quoted indent true cs f) :
      Quoted indent true (ch :: cs) (escapeText ch ++ f)
  | escapedSpace {cs f : List Char} (h : Quoted indent true cs f) :
      Quoted indent true (' ' :: cs) ('\\' :: ' ' :: f)
  /-- The text goes on in the next line. -/
  | continued {cs f : List Char} (hf : IsSolid f) (h : Quoted indent true cs f) :
      Quoted indent true cs ('\\' :: '\n' :: (List.replicate indent ' ' ++ f))

variable {indent fuel : Nat} {double : Bool} {ch : Char} {cs f rest : List Char} {c c' : Cursor}

theorem exists_escapeText (ch : Char) : ∃ es, escapeText ch = '\\' :: es := by
  unfold escapeText
  split
  · exact ⟨_, rfl⟩
  · dsimp only
    split
    · exact ⟨_, rfl⟩
    · split <;> exact ⟨_, rfl⟩

theorem isSolid_backslash : IsSolid ('\\' :: cs) := by
  rw [isSolid_cons]
  decide

/-- Only a space that stands as such makes a text in double quotes start with a blank. -/
theorem Quoted.solid_or_space (h : Quoted indent true cs f) :
    IsSolid f ∨ ∃ n cs' f', cs = List.replicate (n + 1) ' ' ++ cs'
      ∧ f = List.replicate (n + 1) ' ' ++ f' ∧ IsSolid f' ∧ Quoted indent true cs' f' := by
  cases h with
  | nil => exact .inl .nil
  | char hch => exact .inl (isSolid_cons.2 hch.solid)
  | spaces n hf h => exact .inr ⟨n, _, _, rfl, rfl, hf, h⟩
  | escape ch h =>
    obtain ⟨es, hes⟩ := exists_escapeText ch
    rw [hes]
    exact .inl isSolid_backslash
  | escapedSpace => exact .inl isSolid_backslash
  | continued => exact .inl isSolid_backslash

/-- A space as it is, before any text. -/
theorem Quoted.space (h : Quoted indent true cs f) : Quoted indent true (' ' :: cs) (' ' :: f) := by
  rcases h.solid_or_space with hf | ⟨n, cs', f', rfl, rfl, hf, h'⟩
  · exact .spaces 0 hf h
  · exact .spaces (n + 1) hf h'

/-- A text in double quotes that does not begin with a space begins with no blank. -/
theorem Quoted.solid (h : Quoted indent true cs f) (hcs : cs.head? ≠ some ' ') : IsSolid f := by
  rcases h.solid_or_space with hf | ⟨n, cs', f', rfl, rfl, hf, h'⟩
  · exact hf
  · exact absurd rfl hcs

/-- A text in single quotes that begins with neither a space nor a line break begins so. -/
theorem Quoted.solid_single (h : Quoted indent false cs f)
    (hcs : ∀ ch ∈ cs.head?, ch ≠ ' ' ∧ isWrittenBreak ch = false) : IsSolid f := by
  cases h with
  | nil => exact .nil
  | char hch => exact isSolid_cons.2 hch.solid
  | spaces n => exact absurd rfl (hcs ' ' rfl).1
  | quote => exact isSolid_cons.2 (by decide)
  | fold => exact absurd rfl (hcs ' ' rfl).1
  | @breaks _ _ bs hne hbs =>
    obtain ⟨b, bs, rfl⟩ := List.exists_cons_of_ne_nil hne
    have hb := (hbs b List.mem_cons_self).1
    rw [(hcs b rfl).2] at hb
    exact absurd hb Bool.false_ne_true

/-! ## Escapes -/

theorem hexValue?_toUpper (c : Char) : Json.hexValue? c.toUpper = Json.hexValue? c := by
  by_cases h : c.toNat < 128
  · have hall : ∀ n < 128,
        Json.hexValue? (Char.ofNat n).toUpper = Json.hexValue? (Char.ofNat n) := by
      decide
    simpa using hall c.toNat h
  · congr 1
    unfold Char.toUpper
    rw [dif_neg]
    intro hlower
    have hle : c.toNat ≤ 'z'.toNat := UInt32.le_iff_toNat_le.1 hlower.2
    exact h (Nat.lt_of_le_of_lt hle (by decide))

/-- The digits of an escape name a number in either case. -/
theorem hexNumber?_toUpper (cs : List Char) :
    Json.hexNumber? (cs.map Char.toUpper) = Json.hexNumber? cs := by
  simp only [Json.hexNumber?, List.foldl_map, hexValue?_toUpper]

theorem charOfCode_toNat (ch : Char) : charOfCode ch.toNat = .ok ch := by
  have hvalid : ch.toNat.isValidChar := ch.valid
  rw [charOfCode, if_pos hvalid, Char.ofNat_toNat]

theorem escaped?_of_letterEscape? {l : Char} (h : letterEscape? ch = some l) :
    escaped? l = some ch := by
  rw [← Char.ofNat_toNat ch]
  unfold letterEscape? at h
  split at h
  all_goals first
    | (rename_i hcode; obtain rfl := Option.some.inj h; rw [hcode]; rfl)
    | cases h

/-- An escape by number is read as its character. -/
theorem quotedEscape_code {l : Char} {width : Nat} (hl : escaped? l = none)
    (hwidth : escapeDigits? l = some width) (hpos : 0 < width) (hlt : ch.toNat < 16 ^ width)
    (h : c.rest = l :: ((hexText width ch.toNat).map Char.toUpper ++ rest)) :
    quotedEscape c = .ok ([ch], c.skip (width + 1)) := by
  have hlen : ((hexText width ch.toNat).map Char.toUpper).length = width := by
    rw [List.length_map, length_hexText hpos hlt]
  have htake : c.forward.rest.take width = (hexText width ch.toNat).map Char.toUpper := by
    rw [Cursor.rest_forward_cons h, List.take_append_of_le_length (Nat.le_of_eq hlen.symm),
      List.take_of_length_le (Nat.le_of_eq hlen)]
  have hnumber := hexNumber?_hexText width ch.toNat
  rw [← hexNumber?_toUpper] at hnumber
  simp only [quotedEscape, Cursor.peek?_eq h, hl, hwidth, htake, hnumber, hlen,
    Nat.lt_irrefl, if_false, charOfCode_toNat, Except.map]

/-- **An escape is read as the character that it was written for.** -/
theorem quotedEscape_escapeText {es : List Char} (hes : escapeText ch = '\\' :: es)
    (h : c.rest = es ++ rest) : quotedEscape c = .ok ([ch], c.skip es.length) := by
  unfold escapeText at hes
  split at hes
  next l hl =>
    obtain rfl : [l] = es := (List.cons.inj hes).2
    simp [quotedEscape, Cursor.peek?_eq h, escaped?_of_letterEscape? hl, Cursor.skip_one]
  next hl =>
    dsimp only at hes
    have hmax : ch.toNat < 16 ^ 8 := by
      have := Json.code_valid ch
      omega
    split at hes
    next hle =>
      obtain rfl := (List.cons.inj hes).2
      have hlt : ch.toNat < 16 ^ 2 := Nat.lt_succ_of_le hle
      have := quotedEscape_code (l := 'x') rfl rfl (by decide) hlt h
      rwa [List.length_cons, List.length_map, length_hexText (by decide) hlt]
    next =>
      split at hes
      next hle =>
        obtain rfl := (List.cons.inj hes).2
        have hlt : ch.toNat < 16 ^ 4 := Nat.lt_succ_of_le hle
        have := quotedEscape_code (l := 'u') rfl rfl (by decide) hlt h
        rwa [List.length_cons, List.length_map, length_hexText (by decide) hlt]
      next =>
        obtain rfl := (List.cons.inj hes).2
        have := quotedEscape_code (l := 'U') rfl rfl (by decide) hmax h
        rwa [List.length_cons, List.length_map, length_hexText (by decide) hmax]

/-! ## Blanks and line breaks -/

theorem IsKeptBreak.isBreak (h : IsKeptBreak ch) : isBreak ch = true :=
  (Bool.and_eq_true_iff.1 h.1).1

theorem IsKeptBreak.ne_blank (h : IsKeptBreak ch) : ch ≠ ' ' ∧ ch ≠ '\t' :=
  ⟨ne_of_isBreak h.isBreak (by decide), ne_of_isBreak h.isBreak (by decide)⟩

/-- Written line breaks with an indented line behind them are read as they are. -/
theorem quotedBreaks_written {bs : List Char} (hindent : 0 < indent)
    (hbs : ∀ ch ∈ bs, IsKeptBreak ch)
    (h : c.rest = bs ++ (List.replicate indent ' ' ++ rest)) (hrest : IsSolid rest)
    (hfuel : bs.length < fuel) :
    quotedBreaks fuel c = .ok (bs, c.skip (bs.length + indent)) := by
  induction bs generalizing c fuel with
  | nil =>
    obtain ⟨fuel, rfl⟩ := Nat.exists_eq_add_one_of_ne_zero (Nat.ne_zero_of_lt hfuel)
    obtain ⟨k, rfl⟩ := Nat.exists_eq_add_one_of_ne_zero (Nat.ne_zero_of_lt hindent)
    have hmark : c.atDocumentMark = false := by
      apply Cursor.not_atDocumentMark
      rw [h]
      simp [List.replicate_succ]
    have hskip := Cursor.span_blanks h fun ch hch =>
      ⟨ne_space_of_not_blank (hrest ch hch), ne_tab_of_not_blank (hrest ch hch)⟩
    have hsolid : (c.skip (k + 1)).nextHas isBreak = false := by
      apply Cursor.nextHas_eq_false
      rw [Cursor.rest_skip_replicate h]
      exact hrest.not_break
    simp [quotedBreaks, hmark, Cursor.skipWhile, hskip, hsolid]
  | cons b bs ih =>
    obtain ⟨fuel, rfl⟩ := Nat.exists_eq_add_one_of_ne_zero (Nat.ne_zero_of_lt hfuel)
    obtain ⟨hb, hbs⟩ := List.forall_mem_cons.1 hbs
    have hmark : c.atDocumentMark = false := by
      apply Cursor.not_atDocumentMark
      rw [h]
      rintro ch ⟨rfl⟩
      exact ⟨ne_of_isBreak hb.isBreak (by decide), ne_of_isBreak hb.isBreak (by decide)⟩
    have hskip := Cursor.span_blanks (c := c) (k := 0) h <| by
      rintro ch ⟨rfl⟩
      exact hb.ne_blank
    have hread := @ih fuel (c.skip 1) hbs (Cursor.rest_forward_cons h)
      (Nat.lt_of_succ_lt_succ hfuel)
    rw [Cursor.skip_skip] at hread
    simp only [quotedBreaks, hmark, Cursor.skipWhile, hskip, Cursor.skip_zero,
      Cursor.nextHas_cons h, hb.isBreak, Cursor.lineBreak_written h hb.1 hb.2, hread, Except.map,
      Bool.false_eq_true, if_false, if_true, List.length_cons, List.singleton_append]
    congr 3
    omega

/-- Blanks inside a line are read as they are. -/
theorem quotedBlanks_spaces {n : Nat} (h : c.rest = List.replicate n ' ' ++ ch :: rest)
    (hch : isBlankOrBreak ch = false) :
    quotedBlanks c = .ok (List.replicate n ' ', c.skip n) := by
  have hspan := Cursor.span_blanks h <| by
    rintro d ⟨rfl⟩
    exact ⟨ne_space_of_not_blank hch, ne_tab_of_not_blank hch⟩
  simp [quotedBlanks, hspan, Cursor.peek?_eq (Cursor.rest_skip_replicate h),
    not_break_of_not_blank hch]

/-- **A line break is read as what follows from it and from the breaks behind it.** -/
theorem quotedBlanks_breaks {bs : List Char} {b : Char} (hindent : 0 < indent)
    (hbs : ∀ ch ∈ b :: bs, IsKeptBreak ch)
    (h : c.rest = b :: (bs ++ (List.replicate indent ' ' ++ rest))) (hrest : IsSolid rest) :
    quotedBlanks c = .ok (foldBreaks [b] bs, c.skip (bs.length + 1 + indent)) := by
  obtain ⟨hb, hbs⟩ := List.forall_mem_cons.1 hbs
  have hspan := Cursor.span_blanks (c := c) (k := 0) h <| by
    rintro ch ⟨rfl⟩
    exact hb.ne_blank
  have hnext : (c.skip 1).rest = bs ++ (List.replicate indent ' ' ++ rest) :=
    Cursor.rest_forward_cons h
  have hread := @quotedBreaks_written _ ((c.skip 1).rest.length + 1) _ _ _ hindent hbs hnext hrest
    (by rw [hnext, List.length_append]; omega)
  rw [Cursor.skip_skip] at hread
  simp only [quotedBlanks, hspan, Cursor.skip_zero, Cursor.peek?_eq h, hb.isBreak, if_true,
    Cursor.lineBreak_written h hb.1 hb.2, hread, Except.map]
  congr 3
  omega

theorem isKeptBreak_newline : IsKeptBreak '\n' := ⟨by decide, by decide⟩

/-- What is written for line breaks is read as them. -/
theorem foldBreaks_written {bs : List Char} (hne : bs ≠ []) (hbs : ∀ ch ∈ bs, IsKeptBreak ch) :
    ∃ b bs', writtenBreaks bs = b :: bs' ∧ foldBreaks [b] bs' = bs
      ∧ ∀ ch ∈ b :: bs', IsKeptBreak ch := by
  obtain ⟨b, bs', rfl⟩ := List.exists_cons_of_ne_nil hne
  by_cases hb : b = '\n'
  · refine ⟨'\n', b :: bs', by simp [writtenBreaks, hb], by simp [foldBreaks], ?_⟩
    exact List.forall_mem_cons.2 ⟨isKeptBreak_newline, hbs⟩
  · exact ⟨b, bs', by simp [writtenBreaks, hb], by simp [foldBreaks, hb], hbs⟩

/-- An escaped line break with an indented line behind it is read as nothing. -/
theorem quotedEscape_newline (hindent : 0 < indent)
    (h : c.rest = '\n' :: (List.replicate indent ' ' ++ rest)) (hrest : IsSolid rest) :
    quotedEscape c = .ok ([], c.skip (1 + indent)) := by
  have hread := @quotedBreaks_written _ ((c.skip 1).rest.length + 1) _ (c.skip 1) []
    hindent (by simp) (Cursor.rest_forward_cons h) hrest
    (Nat.succ_pos _)
  rw [Cursor.skip_skip, List.length_nil, Nat.zero_add] at hread
  simp [quotedEscape, Cursor.peek?_eq h, escaped?, escapeDigits?, isBreak,
    Cursor.lineBreak_newline h, hread]

/-! ## Reading between quotes -/

/-- What comes before the text that is read. -/
def prepend (front : List Char) (r : Read (List Char × Cursor)) : Read (List Char × Cursor) :=
  r.map fun r => (front ++ r.1, r.2)

theorem prepend_ok (front cs : List Char) (c : Cursor) :
    prepend front (.ok (cs, c)) = .ok (front ++ cs, c) := rfl

theorem prepend_prepend (front back : List Char) (r : Read (List Char × Cursor)) :
    prepend front (prepend back r) = prepend (front ++ back) r := by
  cases r <;> simp [prepend, Except.map]

/-- What is read from a character on that does not stand for itself in both styles. -/
def quotedTurn (double : Bool) (fuel : Nat) (c : Cursor) : Read (List Char × Cursor) :=
  match c.peek? with
  | none => malformed
  | some ch =>
    if !double && ch = '\'' && c.peekAt? 1 = some '\'' then
      prepend ['\''] (readQuotedFrom double fuel (c.skip 2))
    else if ch = quoteOf double then .ok ([], c.forward)
    else if double && ch = '\\' then
      (quotedEscape c.forward).bind fun r => prepend r.1 (readQuotedFrom double fuel r.2)
    else if isBlankOrBreak ch then
      (quotedBlanks c).bind fun r => prepend r.1 (readQuotedFrom double fuel r.2)
    else prepend [ch] (readQuotedFrom double fuel c.forward)

theorem readQuotedFrom_eq (double : Bool) (fuel : Nat) (c : Cursor) :
    readQuotedFrom double (fuel + 1) c
      = prepend (c.span isQuotedPlain).1 (quotedTurn double fuel (c.span isQuotedPlain).2) := by
  rw [readQuotedFrom]
  generalize c.span isQuotedPlain = r
  obtain ⟨part, c'⟩ := r
  have hgo (taken : List Char) (c : Cursor) :
      (readQuotedFrom double fuel c).map (fun r => (part ++ taken ++ r.1, r.2))
        = prepend part (prepend taken (readQuotedFrom double fuel c)) := by
    rw [prepend_prepend]
    rfl
  have hbind (r : Read (List Char × Cursor)) :
      prepend part (r.bind fun r => prepend r.1 (readQuotedFrom double fuel r.2))
        = r.bind fun r => prepend part (prepend r.1 (readQuotedFrom double fuel r.2)) := by
    cases r <;> rfl
  dsimp only [quotedTurn, quoteOf]
  cases double <;> cases c'.peek? with
  | none => rfl
  | some ch =>
    simp only [apply_ite (prepend part), prepend_ok, List.append_nil, hgo, hbind,
      Bool.false_eq_true, if_false, if_true]

/-- An ordinary character comes before what is read behind it. -/
theorem readQuotedFrom_ordinary (h : c.rest = ch :: rest) (hch : isQuotedPlain ch = true) :
    readQuotedFrom double (fuel + 1) c
      = prepend [ch] (readQuotedFrom double (fuel + 1) c.forward) := by
  have hspan : c.span isQuotedPlain
      = (ch :: (c.forward.span isQuotedPlain).1, (c.forward.span isQuotedPlain).2) := by
    simp only [Cursor.span, h, List.takeWhile_cons, hch, if_true, Cursor.rest_forward_cons h,
      List.length_cons, Cursor.skip_succ]
  rw [readQuotedFrom_eq, readQuotedFrom_eq, hspan, prepend_prepend, List.singleton_append]

/-- Another character makes a turn of its own. -/
theorem readQuotedFrom_turn (h : c.rest = ch :: rest) (hch : isQuotedPlain ch = false) :
    readQuotedFrom double (fuel + 1) c = quotedTurn double fuel c := by
  have hspan := @Cursor.span_append c [] _ isQuotedPlain h (by simp) <| by
    rintro d ⟨rfl⟩
    exact hch
  rw [readQuotedFrom_eq, hspan, List.length_nil, Cursor.skip_zero, prepend]
  cases quotedTurn double fuel c <;> rfl

theorem isQuotedPlain_of_blank (h : isBlankOrBreak ch = true) : isQuotedPlain ch = false := by
  simp [isQuotedPlain, h]

/-- A character that stands for itself comes before what is read behind it. -/
theorem readQuotedFrom_char (hch : Stands double ch) (h : c.rest = ch :: rest)
    (hread : ∀ fuel' ≥ fuel, readQuotedFrom double fuel' c.forward = .ok (cs, c')) :
    readQuotedFrom double (fuel + 1) c = .ok (ch :: cs, c') := by
  obtain ⟨hblank, -, hquote, hslash⟩ := hch
  cases hplain : isQuotedPlain ch with
  | true => rw [readQuotedFrom_ordinary h hplain, hread _ (Nat.le_succ _), prepend_ok,
      List.singleton_append]
  | false =>
    have hsingle : (!double && decide (ch = '\'')) = false := by
      cases double with
      | false => simpa [quoteOf] using hquote
      | true => rfl
    have hescape : (double && decide (ch = '\\')) = false := by
      cases double with
      | false => rfl
      | true => simpa using hslash rfl
    rw [readQuotedFrom_turn h hplain]
    simp only [quotedTurn, Cursor.peek?_eq h, hsingle, hquote, hescape, hblank, Bool.false_and,
      Bool.false_eq_true, if_false, hread fuel (Nat.le_refl _), prepend_ok, List.singleton_append]

/-- Blanks or line breaks come before what is read behind them. -/
theorem readQuotedFrom_blanks {taken : List Char} {c₁ c₂ : Cursor} (hch : isBlankOrBreak ch = true)
    (h : c.rest = ch :: rest) (hblanks : quotedBlanks c = .ok (taken, c₁))
    (hread : readQuotedFrom double fuel c₁ = .ok (cs, c₂)) :
    readQuotedFrom double (fuel + 1) c = .ok (taken ++ cs, c₂) := by
  have hne (d : Char) (hd : isBlankOrBreak d = false) : ch ≠ d := by
    rintro rfl
    exact absurd (hch.symm.trans hd) (by decide)
  have hquote : ch ≠ quoteOf double := by cases double <;> exact hne _ (by decide)
  rw [readQuotedFrom_turn h (isQuotedPlain_of_blank hch)]
  simp only [quotedTurn, Cursor.peek?_eq h, hne '\'' (by decide), hquote, hne '\\' (by decide), hch,
    decide_false, Bool.and_false, Bool.false_and, Bool.false_eq_true, if_false, if_true, hblanks,
    Except.bind, hread, prepend_ok]

/-- An escape comes before what is read behind it. -/
theorem readQuotedFrom_escape {taken : List Char} {c₁ c₂ : Cursor} (h : c.rest = '\\' :: rest)
    (hescape : quotedEscape c.forward = .ok (taken, c₁))
    (hread : readQuotedFrom true fuel c₁ = .ok (cs, c₂)) :
    readQuotedFrom true (fuel + 1) c = .ok (taken ++ cs, c₂) := by
  rw [readQuotedFrom_turn h (by decide)]
  simp [quotedTurn, Cursor.peek?_eq h, quoteOf, hescape, Except.bind, hread, prepend_ok]

/-- A doubled quote is one quote. -/
theorem readQuotedFrom_quote (h : c.rest = '\'' :: '\'' :: rest)
    (hread : readQuotedFrom false fuel (c.skip 2) = .ok (cs, c')) :
    readQuotedFrom false (fuel + 1) c = .ok ('\'' :: cs, c') := by
  rw [readQuotedFrom_turn h (by decide)]
  simp [quotedTurn, Cursor.peek?_eq h, Cursor.peekAt?, h, hread, prepend_ok]

/-- The closing quote ends the text; another one behind it would not. -/
theorem readQuotedFrom_close (h : c.rest = quoteOf double :: rest)
    (hrest : rest.head? ≠ some '\'') :
    readQuotedFrom double (fuel + 1) c = .ok ([], c.forward) := by
  have hplain : isQuotedPlain (quoteOf double) = false := by cases double <;> decide
  rw [readQuotedFrom_turn h hplain]
  cases double with
  | true => simp [quotedTurn, Cursor.peek?_eq h, quoteOf]
  | false =>
    have hnext : c.peekAt? 1 ≠ some '\'' := by
      rwa [Cursor.peekAt?, h, List.getElem?_cons_succ, ← List.head?_eq_getElem?]
    simp [quotedTurn, Cursor.peek?_eq h, quoteOf, hnext]

theorem isSolid_close (hf : IsSolid f) (rest : List Char) :
    IsSolid (f ++ quoteOf double :: rest) := by
  refine hf.append (isSolid_cons.2 ?_)
  cases double <;> decide

/-- **What is written between quotes is read as a text**, up to behind the closing quote. -/
def IsReadAs (double : Bool) (rest cs f : List Char) : Prop :=
  ∀ (c : Cursor) (fuel : Nat), c.rest = f ++ quoteOf double :: rest → f.length < fuel →
    readQuotedFrom double fuel c = .ok (cs, c.skip (f.length + 1))

/-- What one turn of the reader takes comes before what is read behind it. -/
theorem IsReadAs.behind (front taken : List Char) (h : IsReadAs double rest cs f) (hne : front ≠ [])
    (hturn : ∀ (c c' : Cursor) (fuel : Nat), c.rest = front ++ (f ++ quoteOf double :: rest) →
      (∀ more ≥ fuel, readQuotedFrom double more (c.skip front.length) = .ok (cs, c')) →
      readQuotedFrom double (fuel + 1) c = .ok (taken ++ cs, c')) :
    IsReadAs double rest (taken ++ cs) (front ++ f) := by
  intro c fuel hc hfuel
  obtain ⟨fuel, rfl⟩ := Nat.exists_eq_add_one_of_ne_zero (Nat.ne_zero_of_lt hfuel)
  have hpos := List.length_pos_iff.2 hne
  rw [List.append_assoc] at hc
  rw [List.length_append] at hfuel ⊢
  rw [Nat.add_assoc, ← Cursor.skip_skip]
  exact hturn c _ fuel hc fun more hmore => h _ more (Cursor.rest_skip_append hc) (by omega)

/-- **Each way of writing a text between quotes is read as the text**, up to behind the closing
quote. -/
theorem readQuotedFrom_quoted (hindent : 0 < indent) (hrest : rest.head? ≠ some '\'')
    (h : Quoted indent double cs f) : IsReadAs double rest cs f := by
  induction h with
  | nil double =>
    intro c fuel hc hfuel
    obtain ⟨fuel, rfl⟩ := Nat.exists_eq_add_one_of_ne_zero (Nat.ne_zero_of_lt hfuel)
    exact readQuotedFrom_close hc hrest
  | @char double ch cs f hch h ih =>
    exact ih.behind [ch] [ch] (by simp) fun c _ _ hc hread => readQuotedFrom_char hch hc hread
  | @spaces double cs f n hf h ih =>
    refine ih.behind (List.replicate (n + 1) ' ') _ (by simp) fun c _ _ hc hread => ?_
    rw [List.length_replicate] at hread
    obtain ⟨d, ds, hd⟩ : ∃ d ds, f ++ quoteOf double :: rest = d :: ds :=
      List.exists_cons_of_ne_nil (by simp)
    have hsolid : isBlankOrBreak d = false := by
      have := @isSolid_close double f hf rest
      rwa [hd, isSolid_cons] at this
    exact readQuotedFrom_blanks (show isBlankOrBreak ' ' = true by decide) hc
      (quotedBlanks_spaces (hd ▸ hc) hsolid) (hread _ (Nat.le_refl _))
  | @quote cs f h ih =>
    exact ih.behind ['\'', '\''] ['\''] (by simp) fun c _ _ hc hread =>
      readQuotedFrom_quote hc (hread _ (Nat.le_refl _))
  | @fold cs f hf h ih =>
    refine ih.behind ('\n' :: List.replicate indent ' ') [' '] (by simp) fun c _ _ hc hread => ?_
    rw [List.length_cons, List.length_replicate, Nat.add_comm] at hread
    have hblanks := @quotedBlanks_breaks _ _ _ [] _ hindent
      (List.forall_mem_singleton.2 isKeptBreak_newline) hc (isSolid_close hf rest)
    exact readQuotedFrom_blanks (by decide) hc hblanks (hread _ (Nat.le_refl _))
  | @breaks cs f bs hne hbs hf h ih =>
    obtain ⟨b, bs', hwritten, hfold, hkept⟩ := foldBreaks_written hne hbs
    rw [← List.append_assoc, hwritten]
    refine ih.behind (b :: bs' ++ List.replicate indent ' ') bs (by simp) fun c _ _ hc hread => ?_
    rw [List.append_assoc] at hc
    rw [List.length_append, List.length_replicate] at hread
    have hblanks := quotedBlanks_breaks hindent hkept hc (isSolid_close hf rest)
    have hb : isBlankOrBreak b = true := by
      simp [isBlankOrBreak, (hkept b List.mem_cons_self).isBreak]
    rw [hfold] at hblanks
    exact readQuotedFrom_blanks hb hc hblanks (hread _ (Nat.le_refl _))
  | @escape cs f ch h ih =>
    obtain ⟨es, hes⟩ := exists_escapeText ch
    rw [hes]
    refine ih.behind ('\\' :: es) [ch] (by simp) fun c _ _ hc hread => ?_
    rw [List.length_cons, Cursor.skip_succ] at hread
    exact readQuotedFrom_escape hc (quotedEscape_escapeText hes (Cursor.rest_forward_cons hc))
      (hread _ (Nat.le_refl _))
  | @escapedSpace cs f h ih =>
    refine ih.behind ['\\', ' '] [' '] (by simp) fun c _ _ hc hread => ?_
    have hescape : quotedEscape c.forward = .ok ([' '], c.forward.forward) := by
      simp [quotedEscape, Cursor.peek?_eq (Cursor.rest_forward_cons hc), escaped?]
    exact readQuotedFrom_escape hc hescape (hread _ (Nat.le_refl _))
  | @continued cs f hf h ih =>
    refine ih.behind ('\\' :: '\n' :: List.replicate indent ' ') [] (by simp)
      fun c _ _ hc hread => ?_
    rw [List.length_cons, List.length_cons, List.length_replicate, Cursor.skip_succ,
      Nat.add_comm] at hread
    exact readQuotedFrom_escape hc (quotedEscape_newline hindent (Cursor.rest_forward_cons hc)
      (isSolid_close hf rest)) (hread _ (Nat.le_refl _))

/-- **Each way of writing a text between quotes is read as the text**, from its opening quote to
behind the closing one. -/
theorem readQuoted_quoted (hindent : 0 < indent) (hrest : rest.head? ≠ some '\'')
    (h : Quoted indent double cs f)
    (hc : c.rest = quoteOf double :: (f ++ quoteOf double :: rest)) :
    readQuoted double c = .ok (String.ofList cs, c.skip (f.length + 2)) := by
  have hnext := Cursor.rest_forward_cons hc
  have hread := readQuotedFrom_quoted hindent hrest h _ (c.rest.length + 1) hnext (by
    rw [hc, List.length_cons, List.length_append]
    omega)
  rw [readQuoted, hread, ← Cursor.skip_succ]
  rfl

end Taskboard.Yaml
