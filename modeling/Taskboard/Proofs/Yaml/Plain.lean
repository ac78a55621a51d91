import Taskboard.Proofs.Yaml.Cursor
import Taskboard.Yaml.Lexeme

/-!
# Proofs/Yaml/Plain — texts without quotes

A text without quotes is a row of words; a single space between two of them may stand as a line
break, with the next line indented (`Plain`).

* `readPlain_line` — **a plain text is read up to the line behind it**, if that line is indented
  less than the text has to be.
* `readPlain_key` — a plain text is read up to the colon behind it.
-/

namespace Taskboard.Yaml

/-! ## Words -/

/-- A word of a plain text. -/
structure IsWord (w : List Char) : Prop where
  ne_nil : w ≠ []
  solid : ∀ ch ∈ w, isBlankOrBreak ch = false
  allowed : ∀ ch ∈ w, isAllowed ch = true
  /-- No mark of byte order: it takes no column. -/
  inline : byteOrderMark ∉ w
  /-- It starts no comment. -/
  head : w.head? ≠ some '#'
  /-- It does not end in the mark of a value. -/
  last : w.getLast? ≠ some ':'

/-- **The ways to write a plain text**, its further lines indented. -/
inductive Plain (indent : Nat) : List Char → List Char → Prop
  | word {w : List Char} (hw : IsWord w) : Plain indent w w
  | kept {w cs f : List Char} (hw : IsWord w) (n : Nat) (h : Plain indent cs f) :
      Plain indent (w ++ (List.replicate (n + 1) ' ' ++ cs))
        (w ++ (List.replicate (n + 1) ' ' ++ f))
  /-- A space as a line break. -/
  | folded {w cs f : List Char} (hw : IsWord w) (h : Plain indent cs f) :
      Plain indent (w ++ ' ' :: cs) (w ++ '\n' :: (List.replicate indent ' ' ++ f))

variable {indent least fuel : Nat} {cs f rest w : List Char} {c c' : Cursor} {broke : Bool}

theorem IsWord.solid_append (hw : IsWord w) (rest : List Char) : IsSolid (w ++ rest) := by
  obtain ⟨ch, w, rfl⟩ := List.exists_cons_of_ne_nil hw.ne_nil
  exact isSolid_cons.2 (hw.solid ch List.mem_cons_self)

theorem IsWord.head?_append (hw : IsWord w) (rest : List Char) : (w ++ rest).head? ≠ some '#' := by
  obtain ⟨ch, w, rfl⟩ := List.exists_cons_of_ne_nil hw.ne_nil
  exact hw.head

theorem IsWord.isInline (hw : IsWord w) : ∀ ch ∈ w, IsInline ch := fun ch hch =>
  ⟨not_break_of_not_blank (hw.solid ch hch), fun h => hw.inline (h ▸ hch)⟩

/-- A plain text and its written form begin with the same word. -/
theorem Plain.exists_word (h : Plain indent cs f) :
    ∃ w csBack fBack, IsWord w ∧ cs = w ++ csBack ∧ f = w ++ fBack
      ∧ ∀ ch ∈ csBack.head?, ch = ' ' := by
  cases h with
  | word hw => exact ⟨_, [], [], hw, (List.append_nil _).symm, (List.append_nil _).symm, by simp⟩
  | kept hw n => exact ⟨_, _, _, hw, rfl, rfl, by simp [List.replicate_succ]⟩
  | folded hw => exact ⟨_, _, _, hw, rfl, rfl, by simp⟩

/-- In one line a plain text stands as it is. -/
theorem Plain.eq_of_line (h : Plain indent cs f) (hline : '\n' ∉ f) : f = cs := by
  induction h with
  | word => rfl
  | kept hw n h ih => rw [ih fun hmem => hline (by simp [hmem])]
  | folded => exact absurd (by simp) hline

/-- A plain text starts with neither a blank nor a comment. -/
theorem Plain.solid_append (h : Plain indent cs f) (rest : List Char) : IsSolid (f ++ rest) := by
  obtain ⟨w, -, back, hw, -, rfl, -⟩ := h.exists_word
  rw [List.append_assoc]
  exact hw.solid_append _

theorem Plain.head?_append (h : Plain indent cs f) (rest : List Char) :
    (f ++ rest).head? ≠ some '#' := by
  obtain ⟨w, -, back, hw, -, rfl, -⟩ := h.exists_word
  rw [List.append_assoc]
  exact hw.head?_append _

/-- **A word is taken as a whole**, up to where no word begins. -/
theorem plainWord_append {w : List Char} (hsolid : ∀ ch ∈ w, isBlankOrBreak ch = false)
    (hlast : w.getLast? ≠ some ':') (hrest : plainWord false rest = 0) :
    plainWord false (w ++ rest) = w.length := by
  induction w with
  | nil => exact hrest
  | cons ch w ih =>
    obtain ⟨hch, hw⟩ := List.forall_mem_cons.1 hsolid
    have hstops : (isBlankOrBreak ch || (decide (ch = ':') && (w ++ rest).head?.all fun d =>
        isBlankOrBreak d || (false && ",[]\x7b\x7d".toList.contains d))
        || (false && ",?[]\x7b\x7d".toList.contains ch)) = false := by
      cases w with
      | nil =>
        have hne : ch ≠ ':' := fun e => hlast (by rw [e]; rfl)
        simp [hch, hne]
      | cons d w => simp [hch, hw d List.mem_cons_self]
    have htail : w.getLast? ≠ some ':' := by
      cases w with
      | nil => simp
      | cons d w => rwa [List.getLast?_cons_cons] at hlast
    rw [List.cons_append, plainWord, hstops, if_neg Bool.false_ne_true, ih hw htail,
      List.length_cons]

/-- No word begins at a blank or a line break. -/
theorem plainWord_blank {ch : Char} (h : isBlankOrBreak ch = true) (rest : List Char) :
    plainWord false (ch :: rest) = 0 := by simp [plainWord, h]

/-- No word begins at a colon with a blank behind it. -/
theorem plainWord_colon (h : ∀ ch ∈ rest.head?, isBlankOrBreak ch = true) :
    plainWord false (':' :: rest) = 0 := by
  cases rest with
  | nil => rfl
  | cons ch rest => simp [plainWord, h ch rfl]

/-! ## Behind a word -/

theorem plainJoint_spaces {n : Nat} (h : c.rest = List.replicate n ' ' ++ rest)
    (hrest : IsSolid rest) :
    plainJoint c = (List.replicate n ' ', c.skip n, false) := by
  have hspan := Cursor.span_append h (fun ch hch => decide_eq_true (List.eq_of_mem_replicate hch))
    hrest.ne_space
  have hbreak : (c.skip n).nextHas isBreak = false := by
    apply Cursor.nextHas_eq_false
    rw [Cursor.rest_skip_replicate h]
    exact hrest.not_break
  rw [List.length_replicate] at hspan
  simp [plainJoint, hspan, hbreak]

/-- **A line break with an indented line behind it** stands for a space. -/
theorem plainJoint_line {n : Nat} (h : c.rest = '\n' :: (List.replicate n ' ' ++ rest))
    (hrest : IsSolid rest) (hmark : c.forward.atDocumentMark = false) :
    plainJoint c = ([' '], c.skip (n + 1), true) := by
  have hspan := @Cursor.span_append c [] _ (· = ' ') h (by simp) <| by
    rintro ch ⟨rfl⟩
    decide
  have hnext := Cursor.rest_forward_cons h
  have hskip := Cursor.skipWhile_spaces hnext hrest
  have hbreak : (c.forward.skip n).nextHas isBreak = false := by
    apply Cursor.nextHas_eq_false
    rw [Cursor.rest_skip_replicate hnext]
    exact hrest.not_break
  have hnewline : isBreak '\n' = true := by decide
  rw [List.length_nil, Cursor.skip_zero] at hspan
  simp [plainJoint, hspan, Cursor.nextHas_cons h, hnewline, Cursor.lineBreak_newline h,
    hmark, plainBreaks, hskip, hbreak, foldBreaks, Cursor.skip_succ]

/-! ## Reading -/

/-- A plain text ends here: what is behind belongs to another line or is no word. -/
def EndsPlain (least : Nat) (c c' : Cursor) (broke : Bool) : Prop :=
  ∃ next, plainJoint c = (next, c', broke)
    ∧ (next.isEmpty || c'.nextIs '#' || decide (c'.column < least)) = true

/-- A word, and what stands behind it. -/
theorem readPlainFrom_word {joint next : List Char} {c₁ : Cursor} {b b₁ : Bool} (hw : IsWord w)
    (hc : c.rest = w ++ rest) (hrest : plainWord false rest = 0)
    (hjoint : plainJoint (c.skip w.length) = (next, c₁, b₁)) :
    readPlainFrom false least joint b (fuel + 1) c
      = if next.isEmpty || c₁.nextIs '#' || decide (c₁.column < least) then ⟨joint ++ w, c₁, b₁⟩
        else
          let r := readPlainFrom false least next b₁ fuel c₁
          ⟨joint ++ w ++ r.text, r.cursor, r.brokeLine⟩ := by
  have hstart : c.nextIs '#' = false := by
    rw [Cursor.nextIs, Cursor.peek?, hc]
    exact decide_eq_false (hw.head?_append rest)
  have hlen : w.length ≠ 0 := by simp [hw.ne_nil]
  rw [readPlainFrom, hstart, hc, plainWord_append hw.solid hw.last hrest]
  simp only [Bool.false_eq_true, if_false, hlen, List.take_left, hjoint, Bool.not_false,
    Bool.true_and]

/-- A word is taken over where another one follows. -/
theorem readPlainFrom_more {joint next : List Char} {c₁ : Cursor} {b b₁ : Bool} (hw : IsWord w)
    (hc : c.rest = w ++ rest) (hrest : plainWord false rest = 0)
    (hjoint : plainJoint (c.skip w.length) = (next, c₁, b₁)) (hnext : next ≠ [])
    (hcomment : c₁.rest.head? ≠ some '#') (hcolumn : least ≤ c₁.column)
    (hread : readPlainFrom false least next b₁ fuel c₁ = ⟨next ++ cs, c', broke⟩) :
    readPlainFrom false least joint b (fuel + 1) c = ⟨joint ++ (w ++ (next ++ cs)), c', broke⟩ := by
  have hstop : (next.isEmpty || c₁.nextIs '#' || decide (c₁.column < least)) = false := by
    simp [hnext, Cursor.nextIs, Cursor.peek?, hcomment, Nat.not_lt.2 hcolumn]
  rw [readPlainFrom_word hw hc hrest hjoint, hstop, if_neg Bool.false_ne_true]
  simp only [hread, List.append_assoc]

/-- Behind a word and a space the column is not less than at the start of the word. -/
theorem IsWord.column_spaces {n : Nat} (hw : IsWord w)
    (hc : c.rest = w ++ (List.replicate (n + 1) ' ' ++ rest)) (hcolumn : least ≤ c.column + 1) :
    least ≤ (c.skip (w.length + (n + 1))).column := by
  have hline := (@Cursor.column_line c (w ++ List.replicate (n + 1) ' ') _
    (by rw [hc, List.append_assoc]) (List.forall_mem_append.2 ⟨hw.isInline, fun ch hch => by
      rw [List.eq_of_mem_replicate hch]; exact isInline_space⟩)).1
  rw [List.length_append, List.length_replicate] at hline
  have hlen := List.length_pos_iff.2 hw.ne_nil
  omega

/-- No mark of a document stands behind an indentation. -/
theorem not_atDocumentMark_indented (hpos : 0 < indent)
    (h : c.rest = List.replicate indent ' ' ++ rest) : c.atDocumentMark = false := by
  obtain ⟨k, rfl⟩ := Nat.exists_eq_add_one_of_ne_zero (Nat.ne_zero_of_lt hpos)
  apply Cursor.not_atDocumentMark
  rw [h]
  simp [List.replicate_succ]

/-- **Each way of writing a plain text is read as the text**, up to where it ends. -/
theorem readPlainFrom_plain (hpos : 0 < indent) (hindent : least ≤ indent) (h : Plain indent cs f)
    (joint : List Char) {b : Bool} (hc : c.rest = f ++ rest) (hrest : plainWord false rest = 0)
    (hcolumn : least ≤ c.column + 1) (hends : EndsPlain least (c.skip f.length) c' broke)
    (hfuel : f.length < fuel) :
    readPlainFrom false least joint b fuel c = ⟨joint ++ cs, c', broke⟩ := by
  induction h generalizing c fuel joint b with
  | word hw =>
    obtain ⟨fuel, rfl⟩ := Nat.exists_eq_add_one_of_ne_zero (Nat.ne_zero_of_lt hfuel)
    obtain ⟨next, hjoint, hstop⟩ := hends
    rw [readPlainFrom_word hw hc hrest hjoint, if_pos hstop]
  | @kept w cs f hw n h ih =>
    obtain ⟨fuel, rfl⟩ := Nat.exists_eq_add_one_of_ne_zero (Nat.ne_zero_of_lt hfuel)
    rw [List.append_assoc, List.append_assoc] at hc
    rw [List.length_append, List.length_append, List.length_replicate] at hends hfuel
    have hback := Cursor.rest_skip_append hc
    have hnext : (c.skip (w.length + (n + 1))).rest = f ++ rest := Cursor.rest_skip_lines hc
    have hcolumn' := hw.column_spaces hc hcolumn
    refine readPlainFrom_more hw hc (plainWord_blank (by decide) _)
      (plainJoint_spaces hback (h.solid_append rest)) (by simp [List.replicate_succ]) ?_ ?_ ?_
    · rw [Cursor.skip_skip, hnext]
      exact h.head?_append rest
    · rwa [Cursor.skip_skip]
    · rw [Cursor.skip_skip]
      refine ih _ hnext (by omega) ?_ (by omega)
      rwa [Cursor.skip_skip, Nat.add_assoc]
  | @folded w cs f hw h ih =>
    obtain ⟨fuel, rfl⟩ := Nat.exists_eq_add_one_of_ne_zero (Nat.ne_zero_of_lt hfuel)
    rw [List.append_assoc, List.cons_append, List.append_assoc] at hc
    rw [List.length_append, List.length_cons, List.length_append,
      List.length_replicate] at hends hfuel
    have hback := Cursor.rest_skip_append hc
    obtain ⟨hnext, hcolumn', -⟩ := Cursor.skip_line hc
    have hmark := not_atDocumentMark_indented hpos (Cursor.rest_forward_cons hback)
    change readPlainFrom false least joint b (fuel + 1) c
      = ⟨joint ++ (w ++ ([' '] ++ cs)), c', broke⟩
    refine readPlainFrom_more hw hc (plainWord_blank (by decide) _)
      (plainJoint_line hback (h.solid_append rest) hmark) (by simp) ?_ ?_ ?_
    · rw [Cursor.skip_skip, hnext]
      exact h.head?_append rest
    · rwa [Cursor.skip_skip, hcolumn']
    · rw [Cursor.skip_skip]
      refine ih _ hnext (by omega) ?_ (by omega)
      rwa [Cursor.skip_skip, show w.length + (indent + 1) + f.length
        = w.length + (indent + f.length + 1) by omega]

/-- **A plain text is read up to the line behind it**, if that one is not indented as further lines
of the text are. -/
theorem readPlain_line {j : Nat} (hpos : 0 < indent) (hindent : least ≤ indent)
    (h : Plain indent cs f)
    (hc : c.rest = f ++ '\n' :: (List.replicate j ' ' ++ rest)) (hcolumn : least ≤ c.column + 1)
    (hrest : IsSolid rest) (hmark : (c.skip (f.length + 1)).atDocumentMark = false)
    (hj : j < least) :
    readPlain false least c = ⟨cs, c.skip (f.length + (j + 1)), true⟩ := by
  have hback := Cursor.rest_skip_append hc
  refine readPlainFrom_plain hpos hindent h [] hc (plainWord_blank (by decide) _) hcolumn
    ⟨[' '], ?_, ?_⟩ (by rw [hc, List.length_append]; omega)
  · rw [plainJoint_line hback hrest, Cursor.skip_skip]
    rwa [← Cursor.skip_one, Cursor.skip_skip]
  · rw [(Cursor.skip_line hc).2.1]
    simp [hj]

/-- **A plain text is read up to the colon behind it.** -/
theorem readPlain_key (hpos : 0 < indent) (hindent : least ≤ indent) (h : Plain indent cs f)
    (hc : c.rest = f ++ ':' :: rest) (hcolumn : least ≤ c.column + 1)
    (hrest : ∀ ch ∈ rest.head?, isBlankOrBreak ch = true) :
    readPlain false least c = ⟨cs, c.skip f.length, false⟩ := by
  have hback := Cursor.rest_skip_append hc
  refine readPlainFrom_plain hpos hindent h [] hc (plainWord_colon hrest) hcolumn
    ⟨[], ?_, rfl⟩ (by rw [hc, List.length_append]; omega)
  exact plainJoint_spaces (n := 0) hback (isSolid_cons.2 (by decide))

end Taskboard.Yaml
