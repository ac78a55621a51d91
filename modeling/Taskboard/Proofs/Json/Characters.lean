import Taskboard.Proofs.Json.Scalars

/-!
# Proofs/Json/Characters — what documents are made of

* `Json.allInk_writeAt` — **a document has no control characters but line breaks**: those in its
  texts are escaped. So it is the same text behind any rule for the ends of lines.
* `Json.isNumeric_intText`, `Json.isNumeric_realText` — what the texts of numbers are made of.
-/

namespace Taskboard.Json

-- lists of characters are gone through one by one, also where an importing module knows other ways
attribute [local instance (high)] List.decidableBAll

/-- A character that stands in documents: a line break, or what is no control character. -/
def IsInk (c : Char) : Prop := c = '\n' ∨ 32 ≤ c.toNat

instance (c : Char) : Decidable (IsInk c) := by unfold IsInk; infer_instance

/-- All characters of a text stand in documents. -/
def AllInk (cs : List Char) : Prop := ∀ c ∈ cs, IsInk c

instance (cs : List Char) : Decidable (AllInk cs) := List.decidableBAll IsInk cs

theorem AllInk.nil : AllInk [] := List.forall_mem_nil _

theorem AllInk.append {as bs : List Char} (ha : AllInk as) (hb : AllInk bs) : AllInk (as ++ bs) :=
  List.forall_mem_append.2 ⟨ha, hb⟩

theorem AllInk.cons {c : Char} {cs : List Char} (hc : IsInk c) (hcs : AllInk cs) :
    AllInk (c :: cs) :=
  List.forall_mem_cons.2 ⟨hc, hcs⟩

/-! ## Numbers -/

/-- A character of the texts of numbers, those that JSON lacks among them. -/
def isNumeric (c : Char) : Bool := c.isDigit || "+-.eNaInfity".toList.contains c

theorem isNumeric_of_isDigit {c : Char} (h : c.isDigit = true) : isNumeric c = true := by
  rw [isNumeric, h, Bool.true_or]

theorem isInk_of_isNumeric {c : Char} (h : isNumeric c = true) : IsInk c := by
  rcases Bool.or_eq_true_iff.1 h with hdigit | hother
  · have hge : 48 ≤ c.toNat := (Char.isDigit_iff_toNat.1 hdigit).1
    exact .inr (by omega)
  · have hink : ∀ d ∈ "+-.eNaInfity".toList, IsInk d := by decide
    exact hink c (List.contains_iff_mem.1 hother)

theorem isNumeric_intText (n : Int) : ∀ c ∈ (intText n).toList, isNumeric c = true := by
  rw [toList_intText]
  refine List.forall_mem_append.2 ⟨?_, fun c hc => isNumeric_of_isDigit (isDigit_toDigits hc)⟩
  split <;> decide

theorem isNumeric_numeral {n : Numeral} (h : n.Fit) : ∀ c ∈ n.text, isNumeric c = true := by
  have hdigits {ds : List Char} (hds : ∀ c ∈ ds, c.isDigit = true) :
      ∀ c ∈ ds, isNumeric c = true := fun c hc => isNumeric_of_isDigit (hds c hc)
  have hfraction : ∀ c ∈ Numeral.fractionText n.fraction, isNumeric c = true := by
    unfold Numeral.fractionText
    split
    · simp
    · exact List.forall_mem_cons.2 ⟨by decide, hdigits h.fraction_digits⟩
  have hexponent : ∀ c ∈ Numeral.exponentText n.exponent, isNumeric c = true := by
    cases he : n.exponent with
    | none => simp [Numeral.exponentText]
    | some e =>
      obtain ⟨negative, ds⟩ := e
      have hds := hdigits (h.exponent_digits _ he).2
      cases negative
      · exact List.forall_mem_cons.2 ⟨by decide, List.forall_mem_cons.2 ⟨by decide, hds⟩⟩
      · exact List.forall_mem_cons.2 ⟨by decide, List.forall_mem_cons.2 ⟨by decide, hds⟩⟩
  exact List.forall_mem_append.2
    ⟨List.forall_mem_append.2 ⟨hdigits h.whole_digits, hfraction⟩, hexponent⟩

/-- **The text of a real is made of such characters.** -/
theorem isNumeric_realText (x : Binary64) : ∀ c ∈ (realText x).toList, isNumeric c = true := by
  rcases x with _ | s | ⟨s, m⟩
  · decide
  · cases s <;> decide
  · obtain ⟨n, hfit, htext, -⟩ := Binary64.exists_numeral s m
    have hreal : realText (.finite s m) = (Binary64.finite s m).text := rfl
    rw [hreal, htext]
    refine List.forall_mem_append.2 ⟨?_, isNumeric_numeral hfit⟩
    split <;> decide

theorem allInk_intText (n : Int) : AllInk (intText n).toList :=
  fun c hc => isInk_of_isNumeric (isNumeric_intText n c hc)

theorem allInk_realText (x : Binary64) : AllInk (realText x).toList :=
  fun c hc => isInk_of_isNumeric (isNumeric_realText x c hc)

/-! ## Texts -/

theorem exists_digitChar_of_mem_toDigits {n : Nat} {c : Char} (h : c ∈ Nat.toDigits 16 n) :
    ∃ d < 16, c = Nat.digitChar d := by
  induction n using Nat.strongRecOn with
  | ind n ih =>
    by_cases hlt : n < 16
    · rw [Nat.toDigits_of_lt_base hlt] at h
      exact ⟨n, hlt, List.mem_singleton.1 h⟩
    · rw [Nat.toDigits_of_base_le (by decide) (by omega), List.mem_append] at h
      rcases h with h | h
      · exact ih (n / 16) (by omega) h
      · exact ⟨n % 16, Nat.mod_lt n (by decide), List.mem_singleton.1 h⟩

theorem allInk_toDigits (n : Nat) : AllInk (Nat.toDigits 16 n) := by
  have hdigit : ∀ d < 16, IsInk (Nat.digitChar d) := by decide
  intro c hc
  obtain ⟨d, hd, rfl⟩ := exists_digitChar_of_mem_toDigits hc
  exact hdigit d hd

theorem allInk_unitEscape (n : Nat) : AllInk (unitEscape n) := by
  refine .cons (by decide) (.cons (by decide) (.append ?_ (allInk_toDigits n)))
  exact fun c hc => (List.eq_of_mem_replicate hc) ▸ by decide

theorem allInk_escapeChar (ascii : Bool) (c : Char) : AllInk (escapeChar ascii c) := by
  unfold escapeChar
  split
  iterate 7 exact .cons (by decide) (.cons (by decide) .nil)
  dsimp only
  split
  next => exact allInk_unitEscape _
  next hge =>
    split
    next => exact .cons (.inr (by omega)) .nil
    next =>
      split
      · exact allInk_unitEscape _
      · exact .append (allInk_unitEscape _) (allInk_unitEscape _)

theorem allInk_quoted (ascii : Bool) (s : String) : AllInk (quoted ascii s).toList := by
  rw [quoted, String.toList_ofList]
  refine .append (.cons (by decide) ?_) (.cons (by decide) .nil)
  intro c hc
  obtain ⟨d, -, hd⟩ := List.mem_flatMap.1 hc
  exact allInk_escapeChar ascii d c hd

/-! ## Values -/

theorem allInk_breakLine (layout : Layout) (level : Nat) :
    AllInk (breakLine layout level).toList := by
  unfold breakLine
  split
  · exact .nil
  · rw [String.toList_ofList]
    refine .cons (by decide) fun c hc => ?_
    exact (List.eq_of_mem_replicate hc) ▸ by decide

theorem allInk_separator (layout : Layout) (level : Nat) :
    AllInk (separator layout level).toList := by
  unfold separator
  split
  · exact .cons (by decide) (.cons (by decide) .nil)
  · rw [String.toList_append]
    exact .append (.cons (by decide) .nil) (allInk_breakLine layout level)

theorem allInk_intercalate {separator : String} (h : AllInk separator.toList) :
    ∀ {ts : List String}, (∀ t ∈ ts, AllInk t.toList) →
      AllInk (String.intercalate separator ts).toList
  | [], _ => by rw [String.intercalate_nil]; exact .nil
  | [t], hts => by
    rw [String.intercalate_singleton]
    exact hts t List.mem_cons_self
  | t :: u :: ts, hts => by
    obtain ⟨ht, hmore⟩ := List.forall_mem_cons.1 hts
    rw [String.intercalate_cons_cons, String.toList_append, String.toList_append]
    exact .append (.append ht h) (allInk_intercalate h hmore)

theorem allInk_bracketed {layout : Layout} {level : Nat} {left right : String} {ts : List String}
    (hleft : AllInk left.toList) (hright : AllInk right.toList) (hts : ∀ t ∈ ts, AllInk t.toList) :
    AllInk (left ++ breakLine layout (level + 1)
      ++ String.intercalate (separator layout (level + 1)) ts
      ++ breakLine layout level ++ right).toList := by
  simp only [String.toList_append]
  exact .append (.append (.append (.append hleft (allInk_breakLine _ _))
    (allInk_intercalate (allInk_separator _ _) hts)) (allInk_breakLine _ _)) hright

mutual
/-- **A document has no control characters but line breaks.** -/
theorem allInk_writeAt (layout : Layout) (level : Nat) :
    ∀ v : Value, AllInk (writeAt layout level v).toList
  | .null | .date _ | .moment _ | .bytes _ | .set _ => (by decide : AllInk "null".toList)
  | .bool b => by cases b <;> (rw [writeAt]; decide)
  | .int n => allInk_intText n
  | .real x => allInk_realText x
  | .text s => allInk_quoted layout.asciiOnly s
  | .list [] => by rw [writeAt]; decide
  | .list (x :: xs) => by
    rw [writeAt]
    exact allInk_bracketed (by decide) (by decide) (allInk_writeAll layout (level + 1) (x :: xs))
  | .map [] => by rw [writeAt]; decide
  | .map (e :: es) => by
    rw [writeAt]
    exact allInk_bracketed (by decide) (by decide)
      (allInk_writeEntries layout (level + 1) (e :: es))
  termination_by structural v => v

theorem allInk_writeAll (layout : Layout) (level : Nat) :
    ∀ xs : List Value, ∀ t ∈ writeAll layout level xs, AllInk t.toList
  | [] => List.forall_mem_nil _
  | x :: xs => by
    rw [writeAll]
    exact List.forall_mem_cons.2
      ⟨allInk_writeAt layout level x, allInk_writeAll layout level xs⟩
  termination_by structural xs => xs

theorem allInk_writeEntries (layout : Layout) (level : Nat) :
    ∀ es : List (Value × Value), ∀ t ∈ writeEntries layout level es, AllInk t.toList
  | [] => List.forall_mem_nil _
  | (k, v) :: es => by
    rw [writeEntries.eq_def]
    refine List.forall_mem_cons.2 ⟨?_, allInk_writeEntries layout level es⟩
    rw [String.toList_append, String.toList_append]
    refine .append (.append ?_ (by decide)) (allInk_writeAt layout level v)
    split
    · exact allInk_quoted layout.asciiOnly _
    · decide
  termination_by structural es => es
end

theorem not_mem_writeAt_return (layout : Layout) (level : Nat) (v : Value) :
    '\r' ∉ (writeAt layout level v).toList :=
  fun h => absurd (allInk_writeAt layout level v _ h) (by decide)

end Taskboard.Json
