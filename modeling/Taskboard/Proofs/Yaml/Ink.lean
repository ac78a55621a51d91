import Taskboard.Proofs.Yaml.Block

/-!
# Proofs/Yaml/Ink — what the lines of entries are made of

* `isInline_keyText` — a key that is put down in one line has no character that ends a line.
* `Entries.tidy` — **entries hold allowed characters only**, and no line of theirs starts with three
  dashes.
* `Entries.solidEnd` — the last character is no white space, if the last scalar does not end so.
-/

namespace Taskboard.Yaml

variable {indent m : Nat} {double plain : Bool} {tag : Tag} {text k : String} {n v : Node}
  {ns : List Node} {ts : List Token} {es : List (String × Node)} {cs e f g rest : List Char}
    {ch : Char}

/-! ## Escapes -/

/-- A character that can be seen, of ASCII. -/
def IsVisible (c : Char) : Prop := 32 < c.toNat ∧ c.toNat < 127

instance (c : Char) : Decidable (IsVisible c) := inferInstanceAs (Decidable (_ ∧ _))

theorem IsVisible.isAllowed (h : IsVisible ch) : isAllowed ch = true := by
  obtain ⟨hlow, hhigh⟩ := h
  simp only [Yaml.isAllowed, Bool.or_eq_true, Bool.and_eq_true, decide_eq_true_eq]
  omega

theorem IsVisible.isInline (h : IsVisible ch) : IsInline ch := by
  obtain ⟨hlow, hhigh⟩ := h
  have hne (d : Char) (hd : d.toNat ≤ 32 ∨ 127 ≤ d.toNat) : ch ≠ d := by
    rintro rfl
    omega
  refine ⟨?_, hne _ (by decide)⟩
  simp [isBreak, hne '\n' (by decide), hne '\r' (by decide), hne '\x85' (by decide),
    hne '\u2028' (by decide), hne '\u2029' (by decide)]

theorem isVisible_toDigits (n : Nat) : ∀ c ∈ Nat.toDigits 16 n, IsVisible c.toUpper := by
  have hdigit : ∀ d < 16, IsVisible (Nat.digitChar d).toUpper := by decide
  induction n using Nat.strongRecOn with
  | ind n ih =>
    by_cases hlt : n < 16
    · rw [Nat.toDigits_of_lt_base hlt]
      exact List.forall_mem_singleton.2 (hdigit n hlt)
    · rw [Nat.toDigits_of_base_le (by decide) (by omega)]
      exact List.forall_mem_append.2 ⟨ih (n / 16) (by omega),
        List.forall_mem_singleton.2 (hdigit _ (Nat.mod_lt n (by decide)))⟩

theorem isVisible_hexText (width n : Nat) :
    ∀ c ∈ (hexText width n).map Char.toUpper, IsVisible c := by
  intro c hc
  obtain ⟨d, hd, rfl⟩ := List.mem_map.1 hc
  rcases List.mem_append.1 hd with hd | hd
  · rw [List.eq_of_mem_replicate hd]
    decide
  · exact isVisible_toDigits n d hd

/-- **An escape is made of visible characters.** -/
theorem isVisible_escapeText (ch : Char) : ∀ c ∈ escapeText ch, IsVisible c := by
  have hhex (l : Char) (hl : IsVisible l) (width n : Nat) :
      ∀ c ∈ '\\' :: l :: (hexText width n).map Char.toUpper, IsVisible c :=
    List.forall_mem_cons.2 ⟨by decide, List.forall_mem_cons.2 ⟨hl, isVisible_hexText width n⟩⟩
  unfold escapeText
  split
  next l hl =>
    have hletter : IsVisible l := by
      unfold letterEscape? at hl
      split at hl
      all_goals first
        | (obtain rfl := Option.some.inj hl; decide)
        | cases hl
    exact List.forall_mem_cons.2 ⟨by decide, List.forall_mem_singleton.2 hletter⟩
  next =>
    dsimp only
    split
    · exact hhex 'x' (by decide) 2 _
    · split
      · exact hhex 'u' (by decide) 4 _
      · exact hhex 'U' (by decide) 8 _

/-! ## Keys -/

theorem isInline_of_solid (h : isBlankOrBreak ch = false) (hmark : ch ≠ byteOrderMark) :
    IsInline ch :=
  ⟨not_break_of_not_blank h, hmark⟩

/-- A character that needs no escape keeps the line, unless it is a line break. -/
theorem isInline_of_plain (h : isSpecial ch = false) (hbreak : isWrittenBreak ch = false) :
    IsInline ch := by
  by_cases hspace : ch = ' '
  · rw [hspace]
    exact isInline_space
  · obtain ⟨hsolid, -, hmark⟩ := solid_of_word h (kindOf_eq_word.2 ⟨hspace, hbreak⟩)
    exact isInline_of_solid hsolid hmark

theorem isInline_escapedText (cs : List Char) : ∀ c ∈ escapedText cs, IsInline c := by
  intro c hc
  obtain ⟨d, -, hd⟩ := List.mem_flatMap.1 hc
  split at hd
  next => exact (isVisible_escapeText d c hd).isInline
  next hescaped =>
    obtain rfl := List.mem_singleton.1 hd
    have hescaped : isEscaped c = false := by simpa using hescaped
    by_cases hspace : c = ' '
    · rw [hspace]
      exact isInline_space
    · refine isInline_of_solid (stands_of_not_escaped hescaped hspace).solid ?_
      rintro rfl
      exact absurd hescaped (by decide)

/-- **A key without line breaks is put down in one line.** -/
theorem isInline_keyText (hline : isMultiline k.toList = false) : ∀ c ∈ keyText k, IsInline c := by
  have hquote : IsInline '\'' := ⟨by decide, by decide⟩
  have hdouble : IsInline '"' := ⟨by decide, by decide⟩
  have hplain (h : ∀ c ∈ k.toList, isSpecial c = false) : ∀ c ∈ k.toList, IsInline c := fun c hc =>
    isInline_of_plain (h c hc) (Bool.eq_false_iff.2 fun h => List.any_eq_false.1 hline c hc h)
  unfold keyText
  rcases styleOf_text k true with ⟨hstyle, -, -, hallows⟩ | ⟨hstyle, -⟩ | ⟨hstyle, hsingle⟩
  · rw [hstyle]
    exact hplain fun c hc => ((isOpen_of_allowsPlain hallows).plain c hc).1
  · rw [hstyle]
    exact List.forall_mem_cons.2 ⟨hdouble, List.forall_mem_append.2
      ⟨isInline_escapedText _, List.forall_mem_singleton.2 hdouble⟩⟩
  · rw [hstyle]
    refine List.forall_mem_cons.2 ⟨hquote, List.forall_mem_append.2
      ⟨fun c hc => ?_, List.forall_mem_singleton.2 hquote⟩⟩
    simp only [needsEscapes, Bool.or_eq_false_iff] at hsingle
    obtain ⟨d, hd, hc⟩ := List.mem_flatMap.1 hc
    obtain rfl : c = d := by
      unfold singleQuoted at hc
      split at hc <;> simpa using hc
    exact hplain (fun c hc => Bool.eq_false_iff.2 fun h =>
      List.any_eq_false.1 hsingle.1.1 c hc h) c hd

/-! ## Lines -/

/-- Three characters with another one than a dash among them, or fewer. -/
def IsUndashed (cs : List Char) : Prop := ∃ c ∈ cs.take 3, c ≠ '-'

/-- Behind every line break stands a line that does not start with three dashes. -/
def Undashed : List Char → Prop
  | [] => True
  | c :: cs => (c = '\n' → IsUndashed cs) ∧ Undashed cs

theorem IsUndashed.append (h : IsUndashed e) (f : List Char) : IsUndashed (e ++ f) := by
  obtain ⟨c, hc, hne⟩ := h
  refine ⟨c, ?_, hne⟩
  rw [List.take_append]
  exact List.mem_append_left _ hc

theorem isUndashed_cons (h : ch ≠ '-') (cs : List Char) : IsUndashed (ch :: cs) :=
  ⟨ch, by simp, h⟩

/-- A mark with a blank behind it is no dash among dashes. -/
theorem isUndashed_mark (cs : List Char) : IsUndashed (ch :: ' ' :: cs) := ⟨' ', by simp, by decide⟩

theorem Undashed.append (h : Undashed e) (hf : Undashed f) : Undashed (e ++ f) := by
  induction e with
  | nil => exact hf
  | cons c e ih => exact ⟨fun hc => (h.1 hc).append f, ih h.2⟩

/-- **Text of the lines of a head**: allowed characters, and no line with three dashes at its start
but the first. -/
structure Tidy (e : List Char) : Prop where
  allowed : ∀ c ∈ e, isAllowed c = true
  undashed : Undashed e

theorem Tidy.nil : Tidy [] := ⟨by simp, trivial⟩

theorem Tidy.append (h : Tidy e) (hf : Tidy f) : Tidy (e ++ f) :=
  ⟨List.forall_mem_append.2 ⟨h.allowed, hf.allowed⟩, h.undashed.append hf.undashed⟩

theorem Tidy.cons (hallowed : isAllowed ch = true) (hne : ch ≠ '\n') (h : Tidy e) :
    Tidy (ch :: e) :=
  ⟨List.forall_mem_cons.2 ⟨hallowed, h.allowed⟩, fun hc => absurd hc hne, h.undashed⟩

theorem Tidy.break (h : Tidy e) (hstart : IsUndashed e) : Tidy ('\n' :: e) :=
  ⟨List.forall_mem_cons.2 ⟨by decide, h.allowed⟩, fun _ => hstart, h.undashed⟩

theorem tidy_of_forall (h : ∀ c ∈ e, isAllowed c = true ∧ c ≠ '\n') : Tidy e := by
  induction e with
  | nil => exact .nil
  | cons c e ih =>
    obtain ⟨hc, he⟩ := List.forall_mem_cons.1 h
    exact .cons hc.1 hc.2 (ih he)

theorem tidy_spaces (n : Nat) : Tidy (List.replicate n ' ') :=
  tidy_of_forall fun c hc => by
    rw [List.eq_of_mem_replicate hc]
    exact ⟨by decide, by decide⟩

/-- An indented line. -/
theorem Tidy.line (h : Tidy e) (hindent : 0 < indent) :
    Tidy ('\n' :: (List.replicate indent ' ' ++ e)) := by
  refine ((tidy_spaces indent).append h).break ?_
  obtain ⟨k, rfl⟩ := Nat.exists_eq_add_one_of_ne_zero (Nat.ne_zero_of_lt hindent)
  exact isUndashed_cons (by decide) _

/-! ## Scalars -/

theorem IsKeptBreak.isAllowed (h : IsKeptBreak ch) : isAllowed ch = true := by
  have hbreak := h.isBreak
  simp only [Yaml.isBreak, Bool.or_eq_true, decide_eq_true_eq] at hbreak
  rcases hbreak with (((rfl | rfl) | rfl) | rfl) | rfl <;> decide

/-- Line breaks with an indented line behind them. -/
theorem Tidy.breaks (h : Tidy e) (hindent : 0 < indent) {bs : List Char}
    (hbs : ∀ c ∈ bs, IsKeptBreak c) : Tidy (bs ++ (List.replicate indent ' ' ++ e)) := by
  have hstart (bs : List Char) (hbs : ∀ c ∈ bs, IsKeptBreak c) :
      IsUndashed (bs ++ (List.replicate indent ' ' ++ e)) := by
    cases bs with
    | nil =>
      obtain ⟨k, rfl⟩ := Nat.exists_eq_add_one_of_ne_zero (Nat.ne_zero_of_lt hindent)
      exact isUndashed_cons (by decide) _
    | cons b bs =>
      exact isUndashed_cons (ne_of_isBreak (hbs b List.mem_cons_self).isBreak (by decide)) _
  induction bs with
  | nil => exact (tidy_spaces indent).append h
  | cons b bs ih =>
    obtain ⟨hb, hbs⟩ := List.forall_mem_cons.1 hbs
    by_cases hline : b = '\n'
    · rw [hline]
      exact (ih hbs).break (hstart bs hbs)
    · exact .cons hb.isAllowed hline (ih hbs)

theorem ne_newline_of_solid (h : isBlankOrBreak ch = false) : ch ≠ '\n' := by
  rintro rfl
  exact absurd h (by decide)

/-- **A text between quotes is tidy.** -/
theorem Quoted.tidy (hindent : 0 < indent) (h : Quoted indent double cs f) : Tidy f := by
  induction h with
  | nil => exact .nil
  | char hch h ih => exact .cons hch.allowed (ne_newline_of_solid hch.solid) ih
  | spaces n hf h ih => exact (tidy_spaces _).append ih
  | quote h ih => exact .cons (by decide) (by decide) (.cons (by decide) (by decide) ih)
  | fold hf h ih => exact ih.line hindent
  | breaks hne hbs hf h ih =>
    obtain ⟨b, bs', hwritten, -, hkept⟩ := foldBreaks_written hne hbs
    rw [hwritten]
    exact ih.breaks hindent hkept
  | escape ch h ih =>
    refine .append (tidy_of_forall fun c hc => ?_) ih
    have hvisible := isVisible_escapeText ch c hc
    refine ⟨hvisible.isAllowed, ?_⟩
    rintro rfl
    exact absurd hvisible (by decide)
  | escapedSpace h ih => exact .cons (by decide) (by decide) (.cons (by decide) (by decide) ih)
  | continued hf h ih => exact .cons (by decide) (by decide) (ih.line hindent)

theorem IsWord.tidy {w : List Char} (h : IsWord w) : Tidy w :=
  tidy_of_forall fun c hc => ⟨h.allowed c hc, ne_newline_of_solid (h.solid c hc)⟩

/-- **A text without quotes is tidy.** -/
theorem Plain.tidy (hindent : 0 < indent) (h : Plain indent cs f) : Tidy f := by
  induction h with
  | word hw => exact hw.tidy
  | kept hw n h ih => exact hw.tidy.append ((tidy_spaces _).append ih)
  | folded hw h ih => exact hw.tidy.append (ih.line hindent)

theorem ScalarForm.tidy (hindent : 0 < indent) (h : ScalarForm indent plain tag text e) :
    Tidy e := by
  cases h with
  | plain hstart h => exact h.tidy hindent
  | quoted double h =>
    have hquote : Tidy [quoteOf double] := by
      cases double <;> exact .cons (by decide) (by decide) .nil
    exact hquote.append ((h.tidy hindent).append hquote)

/-! ## Lists and entries -/

theorem Flat.tidy (h : Flat m n ts e) : Tidy e := by
  cases h with
  | scalar h => exact h.tidy (Nat.lt_of_lt_of_le (by decide) (Nat.le_add_left _ m))
  | empty => exact .cons (by decide) (by decide) (.cons (by decide) (by decide) .nil)

/-- What stands behind a mark. -/
theorem Tidy.mark (h : Tidy e) (hallowed : isAllowed ch = true) (hne : ch ≠ '\n') :
    Tidy (ch :: ' ' :: e) := .cons hallowed hne (.cons (by decide) (by decide) h)

theorem Items.isUndashed (h : Items m ns ts e) : IsUndashed e := by
  obtain ⟨f, rfl⟩ := h.exists_eq
  exact isUndashed_mark f

theorem Items.tidy (h : Items m ns ts e) : Tidy e := by
  induction h with
  | flat h => exact h.tidy.mark (by decide) (by decide)
  | nested h ih => exact ih.mark (by decide) (by decide)
  | @cons m n ns ts ts' e f h hs ih ihs =>
    refine ih.append ?_
    cases m with
    | zero => exact ihs.break hs.isUndashed
    | succ m => exact ihs.line (Nat.succ_pos m)

theorem Behind.tidy (h : Behind m n ts e) : Tidy e := by
  cases h with
  | flat h => exact h.tidy
  | nested h => exact h.tidy

/-- A text that does not start with three dashes does not do so with a colon behind it. -/
theorem isUndashed_key (h : ['-', '-', '-'].isPrefixOf g = false) (rest : List Char) :
    IsUndashed (g ++ ':' :: rest) := by
  have hcolon : ':' ≠ '-' := by decide
  match g with
  | [] => exact ⟨':', by simp, hcolon⟩
  | [a] => exact ⟨':', by simp, hcolon⟩
  | [a, b] => exact ⟨':', by simp, hcolon⟩
  | a :: b :: c :: g =>
    by_contra hnone
    simp only [IsUndashed, List.cons_append, List.take_succ_cons, not_exists, not_and, not_not,
      List.mem_cons] at hnone
    have ha := hnone a (by simp)
    have hb := hnone b (by simp)
    have hc := hnone c (by simp)
    simp [ha, hb, hc] at h

theorem ScalarForm.isUndashed (h : ScalarForm indent plain tag text g)
    (hinline : ∀ c ∈ g, IsInline c) (rest : List Char) : IsUndashed (g ++ ':' :: rest) := by
  cases h with
  | plain hstart hf =>
    rw [hf.eq_of_line fun hmem => absurd (hinline _ hmem).1 (by decide)]
    simp only [isMistakable, Bool.or_eq_false_iff] at hstart
    exact isUndashed_key hstart.1.1.1.1.2 rest
  | quoted double => cases double <;> exact isUndashed_cons (by decide) _

theorem Entry.isUndashed (h : Entry k v ts e) : IsUndashed e := by
  cases h with
  | flat hk h => exact hk.form.isUndashed hk.isInline _
  | below hk h => exact hk.form.isUndashed hk.isInline _
  | marked hk h => exact isUndashed_mark _

theorem Entry.tidy (h : Entry k v ts e) : Tidy e := by
  have hpos : 0 < levelWidth := by decide
  cases h with
  | flat hk h => exact (hk.form.tidy hpos).append (h.tidy.mark (by decide) (by decide))
  | below hk h =>
    exact (hk.form.tidy hpos).append (.cons (by decide) (by decide) (h.tidy.break h.isUndashed))
  | marked hk h =>
    refine .mark ((hk.tidy hpos).append ?_) (by decide) (by decide)
    exact (h.tidy.mark (by decide) (by decide)).break (isUndashed_mark _)

theorem Entries.isUndashed (h : Entries es ts e) : IsUndashed e := by
  cases h with
  | one h => exact h.isUndashed
  | cons h hs => exact h.isUndashed.append _

/-- **The lines of entries are tidy.** -/
theorem Entries.tidy (h : Entries es ts e) : Tidy e := by
  induction h with
  | one h => exact h.tidy
  | cons h hs ih => exact h.tidy.append (ih.break hs.isUndashed)

/-! ## The last character -/

/-- The last character is there, and no white space. -/
def SolidEnd (cs : List Char) : Prop := ∃ c ∈ cs.getLast?, isBlank c = false

/-- **A node whose last scalar does not end in white space**, unless in quotes. -/
inductive EndsSolid : Node → Prop
  | scalar {tag : Tag} {text : String} (h : isWrittenPlain tag text = true → SolidEnd text.toList) :
      EndsSolid (.scalar tag text)
  | list {tag : Tag} {ns : List Node} (h : ∀ n ∈ ns.getLast?, EndsSolid n) :
      EndsSolid (.list tag ns)

theorem SolidEnd.append (h : SolidEnd f) (e : List Char) : SolidEnd (e ++ f) := by
  obtain ⟨c, hc, hsolid⟩ := h
  obtain ⟨f, rfl⟩ := List.getLast?_eq_some_iff.1 hc
  exact ⟨c, by simp, hsolid⟩

theorem SolidEnd.cons (h : SolidEnd f) (ch : Char) : SolidEnd (ch :: f) := h.append [ch]

/-- A plain text and its written form end with the same character. -/
theorem Plain.solidEnd (h : Plain indent cs f) (hcs : SolidEnd cs) : SolidEnd f := by
  have hback {w sp cs : List Char} (hne : cs ≠ []) (h : SolidEnd (w ++ (sp ++ cs))) :
      SolidEnd cs := by
    obtain ⟨c, hc, hsolid⟩ := h
    rw [← List.append_assoc, List.getLast?_append_of_ne_nil _ hne] at hc
    exact ⟨c, hc, hsolid⟩
  have hne {cs f : List Char} (h : Plain indent cs f) : cs ≠ [] := by
    obtain ⟨w, back, -, hw, rfl, -⟩ := h.exists_word
    simp [hw.ne_nil]
  induction h with
  | word => exact hcs
  | kept hw n h ih => exact ((ih (hback (hne h) hcs)).append _).append _
  | folded hw h ih => exact (((ih (@hback _ [' '] _ (hne h) hcs)).append _).cons _).append _

theorem ScalarForm.solidEnd (h : ScalarForm indent plain tag text e)
    (hend : plain = true → SolidEnd text.toList) : SolidEnd e := by
  cases h with
  | plain hstart h => exact h.solidEnd (hend rfl)
  | quoted double h =>
    refine (SolidEnd.append ⟨quoteOf double, rfl, ?_⟩ _).cons _
    cases double <;> decide

theorem Flat.solidEnd (h : Flat m n ts e) (hn : EndsSolid n) : SolidEnd e := by
  cases h with
  | scalar h =>
    cases hn with
    | scalar hn => exact h.solidEnd hn
  | empty => exact ⟨']', rfl, by decide⟩

theorem Items.ne_nil (h : Items m ns ts e) : ns ≠ [] := by cases h <;> simp

theorem Items.solidEnd (h : Items m ns ts e) (hlast : ∀ n ∈ ns.getLast?, EndsSolid n) :
    SolidEnd e := by
  induction h with
  | flat h => exact ((h.solidEnd (hlast _ rfl)).cons _).cons _
  | nested h ih =>
    cases hlast _ rfl with
    | list hns => exact ((ih hns).cons _).cons _
  | @cons m n ns ts ts' e f h hs ih ihs =>
    rw [← List.singleton_append, List.getLast?_append_of_ne_nil _ hs.ne_nil] at hlast
    exact (((ihs hlast).append _).cons _).append _

theorem Behind.solidEnd (h : Behind m n ts e) (hn : EndsSolid n) : SolidEnd e := by
  cases h with
  | flat h => exact h.solidEnd hn
  | nested h =>
    cases hn with
    | list hns => exact h.solidEnd hns

theorem Entry.solidEnd (h : Entry k v ts e) (hv : EndsSolid v) : SolidEnd e := by
  cases h with
  | flat hk h => exact (((h.solidEnd hv).cons _).cons _).append _
  | below hk h =>
    cases hv with
    | list hns => exact (((h.solidEnd hns).cons _).cons _).append _
  | marked hk h => exact ((((((h.solidEnd hv).cons _).cons _).cons _).append _).cons _).cons _

/-- **Entries end in a character that is no white space**, if the last value does. -/
theorem Entries.solidEnd (h : Entries es ts e) (hlast : ∀ x ∈ es.getLast?, EndsSolid x.2) :
    SolidEnd e := by
  induction h with
  | one h => exact h.solidEnd (hlast _ rfl)
  | @cons k v es ts ts' e f h hs ih =>
    have hne : es ≠ [] := by cases hs <;> simp
    rw [← List.singleton_append, List.getLast?_append_of_ne_nil _ hne] at hlast
    exact ((ih hlast).cons _).append _

end Taskboard.Yaml
