import Mathlib.Data.List.Chain
import Taskboard.Proofs.Json.Characters
import Taskboard.Proofs.Json.Leaves

/-!
# Proofs/Json/Escapes — words that show in the quotes of a text

Behind a backslash an escape has one letter, or four hexadecimal digits.  So a word can start within
an escape, but only with the last character of it: the word then shows in the document although the
text has another character in the place of its first one.

* `Json.infix_quoted_iff` — **where a word shows in a text in quotes.**
* `Json.getLast?_escapeChar_iff` — the characters whose escape ends in a given letter.
-/

namespace Taskboard.Json

-- lists of characters are gone through one by one, also where an importing module knows other ways
attribute [local instance (high)] List.decidableBAll

/-! ## The characters of escapes -/

/-- In an escape a character follows a backslash, or it is a backslash or a hexadecimal digit. -/
def MayFollow (x y : Char) : Prop := x = '\\' ∨ y = '\\' ∨ (hexValue? y).isSome = true

instance (x y : Char) : Decidable (MayFollow x y) := by unfold MayFollow; infer_instance

theorem isSome_hexValue?_of_mem_hexText {n : Nat} :
    ∀ c ∈ hexText 4 n, (hexValue? c).isSome = true := by
  intro c hc
  rcases List.mem_append.1 hc with hc | hc
  · rw [List.eq_of_mem_replicate hc]
    rfl
  · obtain ⟨d, hd, rfl⟩ := exists_digitChar_of_mem_toDigits hc
    rw [hexValue?_digitChar hd]
    rfl

theorem isChain_unitEscape (n : Nat) : (unitEscape n).IsChain MayFollow := by
  have hdigits : ('u' :: hexText 4 n).IsChain MayFollow := by
    refine List.isChain_cons.2 ⟨fun c hc => .inr (.inr ?_), List.Pairwise.isChain ?_⟩
    · exact isSome_hexValue?_of_mem_hexText c (List.mem_of_mem_head? hc)
    · exact List.pairwise_of_forall_mem_list fun _ _ c hc =>
        .inr (.inr (isSome_hexValue?_of_mem_hexText c hc))
  exact List.isChain_cons_cons.2 ⟨.inl rfl, hdigits⟩

theorem isChain_escapeChar (ascii : Bool) (c : Char) :
    (escapeChar ascii c).IsChain MayFollow := by
  unfold escapeChar
  split
  iterate 7 exact List.isChain_pair.2 (.inl rfl)
  dsimp only
  split
  · exact isChain_unitEscape _
  · split
    · exact List.isChain_singleton _
    · split
      · exact isChain_unitEscape _
      · refine (isChain_unitEscape _).append (isChain_unitEscape _) fun x _ y hy => ?_
        exact .inr (.inl (Option.some.inj hy).symm)

/-- A character stands for itself or is written behind a backslash. -/
theorem escapeChar_cases (ascii : Bool) (c : Char) :
    escapeChar ascii c = [c] ∨ ∃ cs, escapeChar ascii c = '\\' :: cs ∧ cs ≠ [] := by
  unfold escapeChar
  split
  iterate 7 exact .inr ⟨_, rfl, by simp⟩
  dsimp only
  split
  · exact .inr ⟨_, rfl, by simp⟩
  · split
    · exact .inl rfl
    · split
      · exact .inr ⟨_, rfl, by simp⟩
      · exact .inr ⟨_, unitEscape_append _ _, by simp⟩

/-! ## Words in quotes -/

section Words

variable {ascii : Bool}

/-- Characters that stand for themselves start the escaped form of a text exactly if they start the
text. -/
theorem prefix_flatMap_escapeChar_iff : ∀ {word s : List Char},
    (∀ c ∈ word, escapeChar ascii c = [c]) →
      (word <+: s.flatMap (escapeChar ascii) ↔ word <+: s)
  | [], _, _ => by simp
  | c :: word, [], _ => by simp
  | c :: word, d :: s, hword => by
    obtain ⟨hc, hword⟩ := List.forall_mem_cons.1 hword
    rw [List.flatMap_cons, List.cons_prefix_cons]
    rcases escapeChar_cases ascii d with hd | ⟨ds, hd, hds⟩
    · rw [hd, List.singleton_append, List.cons_prefix_cons, prefix_flatMap_escapeChar_iff hword]
    · -- `c` is not the backslash, and it is not `d`, as that has an escape
      rw [hd, List.cons_append, List.cons_prefix_cons]
      refine iff_of_false (fun ⟨heq, _⟩ => ?_) (fun ⟨heq, _⟩ => ?_)
      · rw [heq] at hc
        exact absurd hc (by cases ascii <;> decide)
      · rw [← heq, hc] at hd
        exact hds (List.cons_eq_cons.1 hd).2.symm

variable {first second : Char} {rest : List Char}

/-- A word whose second character cannot follow the first one in an escape is in no escape. -/
theorem not_infix_escapeChar (hapart : ¬ MayFollow first second) (c : Char) :
    ¬ first :: second :: rest <:+: escapeChar ascii c := by
  rintro ⟨front, back, heq⟩
  have hchain : (front ++ (first :: second :: rest) ++ back).IsChain MayFollow :=
    heq ▸ isChain_escapeChar ascii c
  have hword := hchain.left_of_append.right_of_append
  exact hapart (List.isChain_cons_cons.1 hword).1

/-- **Where a word stands in the escaped form of a text**: behind the first character it stands in
the text, and what is before that has an escape that ends in the first one. -/
theorem infix_flatMap_escapeChar_iff (hapart : ¬ MayFollow first second)
    (hplain : ∀ c ∈ second :: rest, escapeChar ascii c = [c]) (s : List Char) :
    first :: second :: rest <:+: s.flatMap (escapeChar ascii) ↔
      ∃ c, (escapeChar ascii c).getLast? = some first ∧ c :: second :: rest <:+: s := by
  induction s with
  | nil => simp
  | cons d s ih =>
    have hsplit : (∃ c, (escapeChar ascii c).getLast? = some first ∧
          c :: second :: rest <:+: d :: s) ↔
        ((escapeChar ascii d).getLast? = some first ∧ second :: rest <+: s) ∨
          first :: second :: rest <:+: s.flatMap (escapeChar ascii) := by
      simp only [ih, List.infix_cons_iff, List.cons_prefix_cons, and_or_left, exists_or]
      refine or_congr_left ⟨?_, ?_⟩
      · rintro ⟨_, hlast, rfl, hpre⟩
        exact ⟨hlast, hpre⟩
      · rintro ⟨hlast, hpre⟩
        exact ⟨d, hlast, rfl, hpre⟩
    rw [List.flatMap_cons, hsplit, List.infix_append_iff,
      or_iff_right (not_infix_escapeChar hapart d)]
    constructor
    · rintro (hin | ⟨l, r, heq, hsuffix, hprefix⟩)
      · exact .inr hin
      · rcases List.cons_eq_append_iff.1 heq with ⟨rfl, rfl⟩ | ⟨l, rfl, htail⟩
        · exact .inr hprefix.isInfix
        · rcases List.cons_eq_append_iff.1 htail with ⟨rfl, rfl⟩ | ⟨l, rfl, -⟩
          · obtain ⟨front, hfront⟩ := hsuffix
            refine .inl ⟨?_, (prefix_flatMap_escapeChar_iff hplain).1 hprefix⟩
            rw [← hfront, List.getLast?_concat]
          · exact absurd hsuffix.isInfix (not_infix_escapeChar hapart d)
    · rintro (⟨hlast, hpre⟩ | hin)
      · obtain ⟨front, hfront⟩ := List.getLast?_eq_some_iff.1 hlast
        refine .inr ⟨[first], second :: rest, rfl, ⟨front, hfront.symm⟩, ?_⟩
        exact (prefix_flatMap_escapeChar_iff hplain).2 hpre
      · exact .inl hin

/-- **Where a word shows in a text in quotes.** -/
theorem infix_quoted_iff (hquote : first ≠ '"') (hapart : ¬ MayFollow first second)
    (hplain : ∀ c ∈ second :: rest, escapeChar ascii c = [c]) (s : String) :
    first :: second :: rest <:+: (quoted ascii s).toList ↔
      ∃ c, (escapeChar ascii c).getLast? = some first ∧ c :: second :: rest <:+: s.toList := by
  have hlacks : '"' ∉ first :: second :: rest := by
    intro hmem
    rcases List.mem_cons.1 hmem with heq | hmem
    · exact hquote heq.symm
    · exact absurd (hplain _ hmem) (by cases ascii <;> decide)
  rw [quoted, String.toList_ofList, List.cons_append, infix_cons_iff_of_not_mem (by simp) hlacks,
    infix_append_cons_iff hlacks, List.infix_nil, or_iff_left (by simp),
    infix_flatMap_escapeChar_iff hapart hplain]

end Words

/-! ## The last character of an escape -/

theorem getLast?_hexText (n : Nat) : (hexText 4 n).getLast? = some (Nat.digitChar (n % 16)) := by
  have hlast : (Nat.toDigits 16 n).getLast? = some (Nat.digitChar (n % 16)) := by
    by_cases hlt : n < 16
    · rw [Nat.toDigits_of_lt_base hlt, Nat.mod_eq_of_lt hlt]
      rfl
    · rw [Nat.toDigits_of_base_le (by decide) (by omega), List.getLast?_concat]
  rw [hexText, List.getLast?_append, hlast, Option.some_or]

theorem getLast?_unitEscape (n : Nat) :
    (unitEscape n).getLast? = some (Nat.digitChar (n % 16)) := by
  have happend : unitEscape n = ['\\', 'u'] ++ hexText 4 n := rfl
  rw [happend, List.getLast?_append, getLast?_hexText, Option.some_or]

/-- A character that ASCII documents write by its code: a control character, or one above the
printable ones. -/
def IsCoded (c : Char) : Prop := c.toNat < 32 ∨ 127 ≤ c.toNat

instance (c : Char) : Decidable (IsCoded c) := by unfold IsCoded; infer_instance

/-- **The characters whose escape ends in a letter that stands for itself**, other than those of
line breaks, tabs and backspaces: the letter, the form feed for f, and the characters that are
written by a code that ends in the letter. -/
theorem getLast?_escapeChar_iff {letter : Char} (h : letter ∈ ['e', 'f', 'F']) (c : Char) :
    (escapeChar true c).getLast? = some letter ↔
      c = letter ∨ c = '\x0c' ∧ letter = 'f' ∨
        IsCoded c ∧ Nat.digitChar (c.toNat % 16) = letter := by
  have hletter : ¬ IsCoded letter := by
    have hall : ∀ d ∈ ['e', 'f', 'F'], ¬ IsCoded d := by decide
    exact hall letter h
  have hcoded {last : Char} (hc : IsCoded c) (hfeed : c ≠ '\x0c')
      (hlast : last = Nat.digitChar (c.toNat % 16)) : some last = some letter ↔
        c = letter ∨ c = '\x0c' ∧ letter = 'f' ∨
          IsCoded c ∧ Nat.digitChar (c.toNat % 16) = letter := by
    have hne : c ≠ letter := fun heq => hletter (heq ▸ hc)
    rw [hlast, Option.some_inj, or_iff_right hne, or_iff_right fun ⟨heq, _⟩ => hfeed heq,
      and_iff_right hc]
  have hspecial : ∀ d ∈ ['e', 'f', 'F'], ∀ x ∈ ['"', '\\', '\n', '\r', '\t', '\x0c', '\x08'],
      ((escapeChar true x).getLast? = some d ↔
        x = d ∨ x = '\x0c' ∧ d = 'f' ∨ IsCoded x ∧ Nat.digitChar (x.toNat % 16) = d) := by
    decide
  by_cases hmem : c ∈ ['"', '\\', '\n', '\r', '\t', '\x0c', '\x08']
  · exact hspecial letter h c hmem
  · have hfeed : c ≠ '\x0c' := fun heq => hmem (by rw [heq]; decide)
    unfold escapeChar
    split
    case h_8 =>
      dsimp only
      split
      next hlow => rw [getLast?_unitEscape, hcoded (.inl hlow) hfeed rfl]
      next hlow =>
        simp only [Bool.not_true, Bool.or_false, decide_eq_true_eq]
        split
        next hhigh =>
          have hplain : ¬ IsCoded c := by
            rintro (hc | hc) <;> omega
          rw [List.getLast?_singleton, Option.some_inj, or_iff_left]
          rintro (⟨heq, -⟩ | ⟨hc, -⟩)
          · exact hfeed heq
          · exact hplain hc
        next hhigh =>
          have hc : IsCoded c := .inr (by omega)
          split
          · rw [getLast?_unitEscape, hcoded hc hfeed rfl]
          · have hlast : (0xDC00 + (c.toNat - 65536) % 1024) % 16 = c.toNat % 16 := by omega
            rw [List.getLast?_append, getLast?_unitEscape, Option.some_or, hlast,
              hcoded hc hfeed rfl]
    all_goals exact absurd (by decide) hmem

end Taskboard.Json
