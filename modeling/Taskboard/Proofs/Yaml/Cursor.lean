import Taskboard.Proofs.Number.Text
import Taskboard.Yaml.Cursor

/-!
# Proofs/Yaml/Cursor — moving through a text

Every reader moves a cursor by `skip`, so a place in a text is known by what was skipped.

* `Cursor.rest_skip`, `Cursor.skip_skip` — what is left after a part, and two parts in a row.
* `Cursor.column_line` — the column counts the characters since the last line break.
* `Cursor.skip_newline` — **behind a line break and spaces the column is their number**, and the
  line is another one.
-/

namespace Taskboard.Yaml

/-! ## Classes of characters -/

/-- A character that keeps the line and takes one column. -/
def IsInline (ch : Char) : Prop := isBreak ch = false ∧ ch ≠ byteOrderMark

/-- A place that neither a blank nor a line break follows. -/
def IsSolid (cs : List Char) : Prop := ∀ ch ∈ cs.head?, isBlankOrBreak ch = false

theorem isWrittenBreak_of_not_break {ch : Char} (h : isBreak ch = false) :
    isWrittenBreak ch = false := by rw [isWrittenBreak, h, Bool.false_and]

theorem not_break_of_not_blank {ch : Char} (h : isBlankOrBreak ch = false) : isBreak ch = false :=
  (Bool.or_eq_false_iff.1 h).2

theorem ne_space_of_not_blank {ch : Char} (h : isBlankOrBreak ch = false) : ch ≠ ' ' := by
  rintro rfl
  simp [isBlankOrBreak] at h

theorem ne_tab_of_not_blank {ch : Char} (h : isBlankOrBreak ch = false) : ch ≠ '\t' := by
  rintro rfl
  simp [isBlankOrBreak] at h

theorem ne_of_isBreak {ch d : Char} (h : isBreak ch = true) (hd : isBreak d = false) : ch ≠ d := by
  rintro rfl
  exact absurd (h.symm.trans hd) (by decide)

theorem isInline_space : IsInline ' ' := ⟨by decide, by decide⟩

@[simp] theorem IsSolid.nil : IsSolid [] := by simp [IsSolid]

@[simp] theorem isSolid_cons {ch : Char} {cs : List Char} :
    IsSolid (ch :: cs) ↔ isBlankOrBreak ch = false := by simp [IsSolid]

theorem IsSolid.append {cs rest : List Char} (h : IsSolid cs) (hrest : IsSolid rest) :
    IsSolid (cs ++ rest) := by
  cases cs with
  | nil => exact hrest
  | cons ch cs => exact h

/-- Spaces end at a solid place. -/
theorem IsSolid.ne_space {cs : List Char} (h : IsSolid cs) :
    ∀ ch ∈ cs.head?, decide (ch = ' ') = false := fun ch hch =>
  decide_eq_false (ne_space_of_not_blank (h ch hch))

theorem IsSolid.not_break {cs : List Char} (h : IsSolid cs) : ∀ ch ∈ cs.head?, isBreak ch = false :=
  fun ch hch => not_break_of_not_blank (h ch hch)

namespace Cursor

variable {c : Cursor} {cs rest : List Char} {ch : Char} {p : Char → Bool}

/-! ## What is left -/

@[simp] theorem skip_zero (c : Cursor) : c.skip 0 = c := rfl

theorem skip_one (c : Cursor) : c.skip 1 = c.forward := rfl

theorem skip_succ (n : Nat) (c : Cursor) : c.skip (n + 1) = c.forward.skip n := rfl

/-- One part after another. -/
theorem skip_skip (m n : Nat) (c : Cursor) : (c.skip m).skip n = c.skip (m + n) := by
  induction m generalizing c with
  | zero => rw [skip_zero, Nat.zero_add]
  | succ m ih => rw [skip_succ, ih, Nat.succ_add, skip_succ]

@[simp] theorem rest_forward (c : Cursor) : c.forward.rest = c.rest.tail := by
  obtain ⟨rest, index, line, column⟩ := c
  rcases rest with _ | ⟨ch, rest⟩
  · rfl
  · simp only [forward]
    split
    · rfl
    · split <;> rfl

theorem rest_skip (n : Nat) (c : Cursor) : (c.skip n).rest = c.rest.drop n := by
  induction n generalizing c with
  | zero => rfl
  | succ n ih => rw [skip_succ, ih, rest_forward, ← List.drop_one, List.drop_drop, Nat.add_comm]

/-- Behind a part that is there, the rest follows. -/
theorem rest_skip_append (h : c.rest = cs ++ rest) : (c.skip cs.length).rest = rest := by
  rw [rest_skip, h, List.drop_left]

theorem rest_skip_replicate {n : Nat} (h : c.rest = List.replicate n ch ++ rest) :
    (c.skip n).rest = rest := by
  have := rest_skip_append h
  rwa [List.length_replicate] at this

/-- Behind a part and the spaces after it. -/
theorem rest_skip_lines {n : Nat} (h : c.rest = cs ++ (List.replicate n ch ++ rest)) :
    (c.skip (cs.length + n)).rest = rest := by
  rw [← skip_skip]
  exact rest_skip_replicate (rest_skip_append h)

theorem rest_forward_cons (h : c.rest = ch :: rest) : c.forward.rest = rest := by
  rw [rest_forward, h, List.tail_cons]

theorem rest_skip_append_cons (h : c.rest = cs ++ ch :: rest) :
    (c.skip (cs.length + 1)).rest = rest := by
  rw [← skip_skip]
  exact rest_forward_cons (rest_skip_append h)

theorem length_rest_skip (n : Nat) (c : Cursor) : (c.skip n).rest.length = c.rest.length - n := by
  rw [rest_skip, List.length_drop]

/-! ## Index, line and column -/

theorem index_forward (h : c.rest = ch :: rest) : c.forward.index = c.index + 1 := by
  simp only [forward, h]
  split
  · rfl
  · split <;> rfl

/-- The index counts all characters. -/
theorem index_skip (h : c.rest = cs ++ rest) : (c.skip cs.length).index = c.index + cs.length := by
  induction cs generalizing c with
  | nil => rfl
  | cons ch cs ih =>
    rw [List.length_cons, skip_succ, ih (rest_forward_cons h), index_forward h, Nat.add_assoc,
      Nat.add_comm 1]

theorem line_le_forward (c : Cursor) : c.line ≤ c.forward.line := by
  unfold forward
  split
  · exact Nat.le_refl _
  · split
    · exact Nat.le_succ _
    · split <;> exact Nat.le_refl _

/-- Lines are never left backwards. -/
theorem line_le_skip (n : Nat) (c : Cursor) : c.line ≤ (c.skip n).line := by
  induction n generalizing c with
  | zero => exact Nat.le_refl _
  | succ n ih => exact Nat.le_trans (line_le_forward c) (ih c.forward)

theorem forward_inline (h : c.rest = ch :: rest) (hch : IsInline ch) :
    c.forward = ⟨rest, c.index + 1, c.line, c.column + 1⟩ := by
  have hr : ch ≠ '\r' := by
    rintro rfl
    exact absurd hch.1 (by decide)
  simp [forward, h, isWrittenBreak_of_not_break hch.1, hr, hch.2]

/-- **The column counts the characters of a line**, and the line stays. -/
theorem column_line (h : c.rest = cs ++ rest) (hcs : ∀ ch ∈ cs, IsInline ch) :
    (c.skip cs.length).column = c.column + cs.length ∧ (c.skip cs.length).line = c.line := by
  induction cs generalizing c with
  | nil => exact ⟨rfl, rfl⟩
  | cons ch cs ih =>
    obtain ⟨hch, hcs⟩ := List.forall_mem_cons.1 hcs
    obtain ⟨hcolumn, hline⟩ := ih (rest_forward_cons h) hcs
    rw [forward_inline h hch] at hcolumn hline
    rw [List.length_cons, skip_succ, forward_inline h hch]
    exact ⟨by rw [hcolumn, Nat.add_assoc, Nat.add_comm 1], hline⟩

theorem forward_newline (h : c.rest = '\n' :: rest) :
    c.forward = ⟨rest, c.index + 1, c.line + 1, 0⟩ := by
  have hn : isWrittenBreak '\n' = true := by decide
  simp [forward, h, hn]

/-- **Behind a line break and spaces the column is their number**, and the line is the next one. -/
theorem skip_newline {k : Nat} (h : c.rest = '\n' :: (List.replicate k ' ' ++ rest)) :
    (c.skip (k + 1)).column = k ∧ (c.skip (k + 1)).line = c.line + 1 := by
  have hspaces : c.forward.rest = List.replicate k ' ' ++ rest := rest_forward_cons h
  have hline := column_line hspaces fun ch hch => by
    rw [List.eq_of_mem_replicate hch]
    exact isInline_space
  rw [List.length_replicate, forward_newline h, Nat.zero_add] at hline
  rwa [skip_succ, forward_newline h]

/-- **The place of the next line**, behind its indentation. -/
theorem skip_line {k : Nat} (h : c.rest = cs ++ '\n' :: (List.replicate k ' ' ++ rest)) :
    (c.skip (cs.length + (k + 1))).rest = rest ∧ (c.skip (cs.length + (k + 1))).column = k
      ∧ c.line < (c.skip (cs.length + (k + 1))).line := by
  have hbreak := rest_skip_append h
  obtain ⟨hcolumn, hline⟩ := skip_newline hbreak
  rw [← skip_skip]
  refine ⟨?_, hcolumn, ?_⟩
  · rw [skip_succ]
    exact rest_skip_replicate (rest_forward_cons hbreak)
  · rw [hline]
    exact Nat.lt_succ_of_le (line_le_skip _ _)

/-! ## Looking ahead -/

theorem peek?_eq (h : c.rest = ch :: rest) : c.peek? = some ch := by rw [peek?, h, List.head?_cons]

theorem nextHas_cons (h : c.rest = ch :: rest) : c.nextHas p = p ch := by
  rw [nextHas, peek?_eq h, Option.any_some]

theorem nextHas_eq_false (h : ∀ ch ∈ c.rest.head?, p ch = false) : c.nextHas p = false := by
  rcases hr : c.rest with _ | ⟨ch, rest⟩
  · simp [nextHas, peek?, hr]
  · rw [nextHas_cons hr]
    exact h ch (by rw [hr, List.head?_cons, Option.mem_some])

/-- The characters of a class up to a place where another one stands. -/
theorem span_append (h : c.rest = cs ++ rest) (hcs : ∀ ch ∈ cs, p ch = true)
    (hrest : ∀ ch ∈ rest.head?, p ch = false) : c.span p = (cs, c.skip cs.length) := by
  rw [span, h, (Taskboard.span_append hcs hrest).1]

theorem skipWhile_append (h : c.rest = cs ++ rest) (hcs : ∀ ch ∈ cs, p ch = true)
    (hrest : ∀ ch ∈ rest.head?, p ch = false) : c.skipWhile p = c.skip cs.length := by
  rw [skipWhile, span_append h hcs hrest]

/-- Nothing is passed where no character of the class stands. -/
theorem skipWhile_self (h : ∀ ch ∈ c.rest.head?, p ch = false) : c.skipWhile p = c := by
  rw [@skipWhile_append _ [] _ _ rfl (by simp) h, List.length_nil, skip_zero]

/-- Spaces up to a solid place. -/
theorem skipWhile_spaces {k : Nat} (h : c.rest = List.replicate k ' ' ++ rest)
    (hrest : IsSolid rest) : c.skipWhile (· = ' ') = c.skip k := by
  rw [skipWhile_append h (fun ch hch => decide_eq_true (List.eq_of_mem_replicate hch))
    hrest.ne_space, List.length_replicate]

/-- Blanks up to a place where another character stands. -/
theorem span_blanks {k : Nat} (h : c.rest = List.replicate k ' ' ++ rest)
    (hrest : ∀ ch ∈ rest.head?, ch ≠ ' ' ∧ ch ≠ '\t') :
    c.span (fun ch => ch = ' ' || ch = '\t') = (List.replicate k ' ', c.skip k) := by
  rw [span_append h (fun ch hch => by rw [List.eq_of_mem_replicate hch]; rfl)
    (fun ch hch => by simp [hrest ch hch]), List.length_replicate]

/-- A line break that is written as such stands for itself; next line does not. -/
theorem lineBreak_written (h : c.rest = ch :: rest) (hch : isWrittenBreak ch = true)
    (hne : ch ≠ '\x85') : c.lineBreak = ([ch], c.skip 1) := by
  obtain ⟨hbreak, hr⟩ : isBreak ch = true ∧ ch ≠ '\r' := by simpa [isWrittenBreak] using hch
  have hkinds : ch = '\n' ∨ ch = '\u2028' ∨ ch = '\u2029' := by
    simp only [isBreak, Bool.or_eq_true, decide_eq_true_eq] at hbreak
    grind
  unfold lineBreak
  rcases hkinds with rfl | rfl | rfl <;> simp [h, isBreak, skip_one]

theorem lineBreak_newline (h : c.rest = '\n' :: rest) : c.lineBreak = (['\n'], c.skip 1) :=
  lineBreak_written h (by decide) (by decide)

/-- No mark of a document stands where the line begins otherwise. -/
theorem not_atDocumentMark (h : ∀ ch ∈ c.rest.head?, ch ≠ '-' ∧ ch ≠ '.') :
    c.atDocumentMark = false := by
  rcases hr : c.rest with _ | ⟨ch, rest⟩
  · simp [atDocumentMark, atIndicator, hr]
  · obtain ⟨hd, hp⟩ := h ch (by rw [hr, List.head?_cons, Option.mem_some])
    simp [atDocumentMark, atIndicator, hr, hd, hp]

end Cursor

end Taskboard.Yaml
