import Taskboard.Proofs.Yaml.Page
import Taskboard.Proofs.Yaml.Plain

/-!
# Proofs/Yaml/Scalar — texts on a page

Each style of the writer puts a text down in a form that is read as the text.

* `writeEscaped_adds` — **a text in double quotes is put down as such**, unless a line is so deeply
  indented that there is no room behind an escape.
* `writeScalar_form` — **a scalar is put down in a form that is read as its text**, and a key in one
  line (`writeScalar_key`) with the text that stands for it.
-/

namespace Taskboard.Yaml

/-! ## Double quotes -/

/-- Whether an escaped character has a space with more text behind it. -/
def escapesBeforeSpace : List Char → Bool
  | a :: b :: cs => (isEscaped a && b = ' ' && !cs.isEmpty) || escapesBeforeSpace (b :: cs)
  | _ => false

theorem escapesBeforeSpace_tail {c : Char} {cs : List Char}
    (h : escapesBeforeSpace (c :: cs) = false) : escapesBeforeSpace cs = false := by
  cases cs with
  | nil => rfl
  | cons d cs => exact (Bool.or_eq_false_iff.1 h).2

/-- A character that double quotes hold as it is. -/
theorem stands_of_not_escaped {c : Char} (h : isEscaped c = false) (hspace : c ≠ ' ') :
    Stands true c := by
  have hvalid := Json.code_valid c
  simp only [isEscaped, Bool.or_eq_false_iff, decide_eq_false_iff_not, Bool.not_eq_false',
    Bool.or_eq_true, Bool.and_eq_true, decide_eq_true_eq] at h
  obtain ⟨⟨⟨⟨⟨hquote, hslash⟩, hline⟩, hparagraph⟩, -⟩, hrange⟩ := h
  have hne (d : Char) (hd : d.toNat < 32 ∨ d.toNat = 0x85 ∨ d.toNat = 0x2028 ∨ d.toNat = 0x2029) :
      c ≠ d := by
    rintro rfl
    omega
  refine ⟨?_, ?_, hquote, fun _ => hslash⟩
  · simp only [isBlankOrBreak, isBreak, Bool.or_eq_false_iff, decide_eq_false_iff_not]
    exact ⟨⟨hspace, hne _ (by decide)⟩, ⟨⟨⟨hne _ (by decide), hne _ (by decide)⟩,
      hne _ (by decide)⟩, hne _ (by decide)⟩, hne _ (by decide)⟩
  · simp only [isAllowed, Bool.or_eq_true, Bool.and_eq_true, decide_eq_true_eq]
    omega

theorem continueQuoted_adds (indent : Nat) (next : Char) {p : Page} (hp : p.fresh = false) :
    p.Adds ('\\' :: '\n' :: (List.replicate indent ' ' ++ if next = ' ' then ['\\'] else []))
        (continueQuoted indent next p)
      ∧ (continueQuoted indent next p).fresh = false
      ∧ (continueQuoted indent next p).column = indent + if next = ' ' then 1 else 0 := by
  obtain ⟨hadds, hmargin⟩ := Page.indentTo_busy (p := p.put ['\\']) (n := indent) hp
  have hline : p.Adds ('\\' :: '\n' :: List.replicate indent ' ')
      ((p.put ['\\']).indentTo indent) := (Page.adds_put ['\\'] p).trans hadds
  unfold continueQuoted
  split
  · refine ⟨?_, rfl, congrArg (· + 1) hmargin.column⟩
    have := hline.trans (Page.adds_put ['\\'] _)
    rwa [List.cons_append, List.cons_append] at this
  · refine ⟨?_, rfl, hmargin.column⟩
    rwa [List.append_nil]

/-- A space waits for the next character where there is room for it, or nothing behind it. -/
theorem writeEscaped_space {indent : Nat} {flows : Bool} {rest : List Char} {p : Page}
    (h : rest = [] ∨ p.column ≤ Page.width) :
    writeEscaped indent flows false [] (' ' :: rest) p
      = writeEscaped indent flows false [' '] rest p := by
  have hescaped : isEscaped ' ' = false := by decide
  have hstay : (flows && !false && !rest.isEmpty && (decide (' ' = ' ') || ([] : List Char).isEmpty)
      && decide (Page.width < p.column + ([] : List Char).length)) = false := by
    rcases h with rfl | h
    · simp
    · simp [Nat.not_lt.2 h]
  rw [writeEscaped, hescaped, if_neg Bool.false_ne_true, hstay, if_neg Bool.false_ne_true,
    List.nil_append]

/-- A text with its escapes, in one line. -/
def escapedText (cs : List Char) : List Char :=
  cs.flatMap fun c => if isEscaped c then escapeText c else [c]

theorem escapedText_cons (c : Char) (cs : List Char) :
    escapedText (c :: cs) = (if isEscaped c then escapeText c else [c]) ++ escapedText cs :=
  List.flatMap_cons

/-- A text in double quotes is put down behind what waits, in one line unless it flows. -/
def PutsDown (indent : Nat) (flows : Bool) (waiting cs : List Char) (p q : Page) : Prop :=
  ∃ f, Quoted indent true cs f ∧ p.Adds (waiting ++ f) q ∧ (flows = false → f = escapedText cs)

namespace PutsDown

variable {indent : Nat} {flows : Bool} {waiting rest : List Char} {c : Char} {p q : Page}

theorem nil : PutsDown indent flows waiting [] p (p.put waiting) :=
  ⟨[], .nil true, by rw [List.append_nil]; exact Page.adds_put waiting p, fun _ => rfl⟩

theorem waits {cs : List Char} (h : PutsDown indent flows [] cs (p.put waiting) q) :
    PutsDown indent flows waiting cs p q := by
  obtain ⟨f, hf, hadds, hone⟩ := h
  exact ⟨f, hf, (Page.adds_put waiting p).trans hadds, hone⟩

theorem escape (hc : isEscaped c = true)
    (h : PutsDown indent flows [] rest (p.put (escapeText c)) q) :
    PutsDown indent flows [] (c :: rest) p q := by
  obtain ⟨f, hf, hadds, hone⟩ := h
  refine ⟨_, .escape c hf, (Page.adds_put (escapeText c) p).trans hadds, fun hflows => ?_⟩
  rw [escapedText_cons, if_pos hc, hone hflows]

theorem ordinary (hc : isEscaped c = false)
    (h : PutsDown indent flows (waiting ++ [c]) rest p q) :
    PutsDown indent flows waiting (c :: rest) p q := by
  obtain ⟨f, hf, hadds, hone⟩ := h
  rw [List.append_assoc, List.singleton_append] at hadds
  have hquoted : Quoted indent true (c :: rest) (c :: f) := by
    by_cases hspace : c = ' '
    · subst hspace
      exact hf.space
    · exact .char (stands_of_not_escaped hc hspace) hf
  refine ⟨_, hquoted, hadds, fun hflows => ?_⟩
  rw [escapedText_cons, hc, if_neg Bool.false_ne_true, List.singleton_append, hone hflows]

/-- The text goes on in the next line. -/
theorem next_line (hflows : flows = true) (hp : p.fresh = false) (hspace : c ≠ ' ')
    (h : PutsDown indent flows [] (c :: rest) (continueQuoted indent c p) q) :
    PutsDown indent flows [] (c :: rest) p q := by
  obtain ⟨f, hf, hback, -⟩ := h
  obtain ⟨hadds, -, -⟩ := continueQuoted_adds indent c hp
  refine ⟨_, .continued (hf.solid (by simpa using hspace)) hf, ?_, fun hnot => ?_⟩
  · simpa [hspace] using hadds.trans hback
  · exact absurd (hnot.symm.trans hflows) Bool.false_ne_true

/-- In front of a space, which would be lost at the start of a line, an escape is put down. -/
theorem next_line_space (hflows : flows = true) (hp : p.fresh = false)
    (h : PutsDown indent flows [' '] rest (continueQuoted indent ' ' p) q) :
    PutsDown indent flows [] (' ' :: rest) p q := by
  obtain ⟨f, hf, hback, -⟩ := h
  obtain ⟨hadds, -, -⟩ := continueQuoted_adds indent ' ' hp
  refine ⟨_, .continued isSolid_backslash (.escapedSpace hf), ?_, fun hnot => ?_⟩
  · simpa using hadds.trans hback
  · exact absurd (hnot.symm.trans hflows) Bool.false_ne_true

end PutsDown

/-- **A text in double quotes is put down as such**, behind what waits; a text that does not flow
is put down in one line. -/
theorem writeEscaped_adds (indent : Nat) (flows first : Bool) (waiting cs : List Char) {p : Page}
    (hp : p.fresh = false)
    (hroom : flows = true →
      indent < Page.width ∨ escapesBeforeSpace (if first then cs.tail else cs) = false) :
    PutsDown indent flows waiting cs p (writeEscaped indent flows first waiting cs p) := by
  match cs with
  | [] => exact .nil
  | c :: rest =>
    have hrest : flows = true → indent < Page.width ∨ escapesBeforeSpace rest = false := by
      intro hflows
      refine (hroom hflows).imp_right fun h => ?_
      cases first with
      | true => exact h
      | false => exact escapesBeforeSpace_tail h
    rw [writeEscaped]
    split
    next hescaped =>
      refine .waits (.escape hescaped ?_)
      match rest with
      | [] => exact .nil
      | next :: rest =>
        dsimp only
        split
        next hcontinue =>
          simp only [Bool.and_eq_true, Bool.not_eq_true'] at hcontinue
          obtain ⟨⟨hflows, rfl⟩, -⟩ := hcontinue
          obtain ⟨-, hfresh, hcolumn⟩ := continueQuoted_adds indent next
            (p := (p.put waiting).put (escapeText c)) hp
          by_cases hspace : next = ' '
          · subst hspace
            -- the space must not come at the end of a line that has no room for it
            have hspare : rest = [] ∨ indent < Page.width := by
              refine (hroom hflows).symm.imp_left fun h => ?_
              simpa [escapesBeforeSpace, hescaped] using (Bool.or_eq_false_iff.1 h).1
            rw [writeEscaped_space (hspare.imp_right fun h => by rw [hcolumn]; exact h)]
            exact .next_line_space hflows hp (writeEscaped_adds indent flows false [' '] rest hfresh
              fun hflows => (hrest hflows).imp_right escapesBeforeSpace_tail)
          · exact .next_line hflows hp hspace
              (writeEscaped_adds indent flows false [] (next :: rest) hfresh hrest)
        next => exact writeEscaped_adds indent flows false [] (next :: rest) hp hrest
    next hplain =>
      have hplain : isEscaped c = false := by simpa using hplain
      split
      next hcontinue =>
        have hflows : flows = true := by
          simp only [Bool.and_eq_true] at hcontinue
          exact hcontinue.1.1.1.1
        obtain ⟨-, hfresh, -⟩ := continueQuoted_adds indent c (p := p.put waiting) hp
        have hback := writeEscaped_adds indent flows false [c] rest hfresh hrest
        refine .waits ?_
        by_cases hspace : c = ' '
        · subst hspace
          exact .next_line_space hflows hp hback
        · exact .next_line hflows hp hspace (.ordinary hplain hback)
      next =>
        exact .ordinary hplain
          (writeEscaped_adds indent flows false (waiting ++ [c]) rest hp hrest)
  termination_by cs.length

/-! ## Neighbours -/

section Neighbours

variable {p q : Char → Bool}

theorem hasNeighbours_tail {c : Char} {cs : List Char} (h : hasNeighbours p q (c :: cs) = false) :
    hasNeighbours p q cs = false := by
  cases cs with
  | nil => rfl
  | cons d cs => exact (Bool.or_eq_false_iff.1 h).2

theorem hasNeighbours_append {cs : List Char} :
    ∀ {front : List Char}, hasNeighbours p q (front ++ cs) = false → hasNeighbours p q cs = false
  | [], h => h
  | _ :: _, h => hasNeighbours_append (hasNeighbours_tail h)

/-- Where the classes do not meet, the second one does not follow the first. -/
theorem of_hasNeighbours {front back : List Char} {a b : Char}
    (h : hasNeighbours p q (front ++ a :: b :: back) = false) (ha : p a = true) : q b = false := by
  have hhead := (Bool.or_eq_false_iff.1 (hasNeighbours_append h)).1
  rwa [ha, Bool.true_and] at hhead

/-- …nor behind a run of the first class. -/
theorem head?_of_hasNeighbours {run cs : List Char} (h : hasNeighbours p q (run ++ cs) = false)
    (hne : run ≠ []) (hrun : ∀ a ∈ run, p a = true) : ∀ b ∈ cs.head?, q b = false := by
  obtain ⟨front, a, rfl⟩ := (List.eq_nil_or_concat run).resolve_left hne
  cases cs with
  | nil => simp
  | cons b cs =>
    rintro _ ⟨rfl⟩
    rw [List.concat_eq_append, List.append_assoc] at h
    exact of_hasNeighbours h (hrun a (by simp))

end Neighbours

/-! ## Single quotes -/

/-- How single quotes hold a character. -/
def singleQuoted (c : Char) : List Char := if c = '\'' then [c, c] else [c]

/-- What a character is that needs no escape. -/
theorem solid_of_word {c : Char} (h : isSpecial c = false) (hword : kindOf c = .word) :
    isBlankOrBreak c = false ∧ isAllowed c = true ∧ c ≠ byteOrderMark := by
  have hvalid := Json.code_valid c
  obtain ⟨hspace, hbreak⟩ := kindOf_eq_word.1 hword
  have hne (d : Char) (hd : isSpecial d = true) : c ≠ d := by
    rintro rfl
    exact Bool.false_ne_true (h.symm.trans hd)
  refine ⟨?_, ?_, hne _ (by decide)⟩
  · have hr := hne '\r' (by decide)
    have hnone : isBreak c = false := by simpa [isWrittenBreak, hr] using hbreak
    simp [isBlankOrBreak, hspace, hne '\t' (by decide), hnone]
  · simp only [isSpecial, Bool.not_eq_false', Bool.or_eq_true, Bool.and_eq_true,
      decide_eq_true_eq] at h
    simp only [isAllowed, Bool.or_eq_true, Bool.and_eq_true, decide_eq_true_eq]
    omega

/-- A word between single quotes. -/
theorem Quoted.word {indent : Nat} {cs f : List Char} (h : Quoted indent false cs f) :
    ∀ {run : List Char}, (∀ c ∈ run, kindOf c = .word) → (∀ c ∈ run, isSpecial c = false) →
      Quoted indent false (run ++ cs) (run.flatMap singleQuoted ++ f)
  | [], _, _ => h
  | c :: run, hwords, hplain => by
    obtain ⟨hword, hwords⟩ := List.forall_mem_cons.1 hwords
    obtain ⟨hc, hplain⟩ := List.forall_mem_cons.1 hplain
    have hrun := h.word hwords hplain
    obtain ⟨hsolid, hallowed, -⟩ := solid_of_word hc hword
    rw [List.flatMap_cons, List.append_assoc, List.cons_append]
    by_cases hquote : c = '\''
    · subst hquote
      exact .quote hrun
    · rw [singleQuoted, if_neg hquote]
      exact .char ⟨hsolid, hallowed, hquote, fun h => absurd h Bool.false_ne_true⟩ hrun

theorem exists_spaces {run : List Char} (hne : run ≠ []) (hrun : ∀ c ∈ run, kindOf c = .space) :
    ∃ n, run = List.replicate (n + 1) ' ' := by
  obtain ⟨c, rest, rfl⟩ := List.exists_cons_of_ne_nil hne
  exact ⟨rest.length, List.eq_replicate_of_mem fun c hc => kindOf_eq_space.1 (hrun c hc)⟩

/-- What single quotes hold: spaces and line breaks do not meet, and nothing needs an escape. -/
structure FitsSingle (cs : List Char) : Prop where
  plain : ∀ c ∈ cs, isSpecial c = false ∧ c ≠ '\x85'
  space_break : hasNeighbours (· = ' ') isWrittenBreak cs = false
  break_space : hasNeighbours isWrittenBreak (· = ' ') cs = false

namespace FitsSingle

variable {indent : Nat} {run cs f : List Char}

theorem of_not_needsEscapes (h : needsEscapes cs = false) (hnext : '\x85' ∉ cs) :
    FitsSingle cs := by
  simp only [needsEscapes, Bool.or_eq_false_iff] at h
  refine ⟨fun c hc => ⟨Bool.eq_false_iff.2 fun hc' => List.any_eq_false.1 h.1.1 c hc hc', ?_⟩,
    h.1.2, h.2⟩
  rintro rfl
  exact hnext hc

theorem back (h : FitsSingle (run ++ cs)) : FitsSingle cs :=
  ⟨fun c hc => h.plain c (List.mem_append_right _ hc), hasNeighbours_append h.space_break,
    hasNeighbours_append h.break_space⟩

/-- Behind a run of spaces another word follows. -/
theorem solid_of_spaces (h : FitsSingle (run ++ cs)) (hne : run ≠ [])
    (hrun : ∀ c ∈ run, kindOf c = .space) (hnext : ∀ c ∈ cs.head?, kindOf c ≠ .space)
    (hf : Quoted indent false cs f) : IsSolid f :=
  hf.solid_single fun c hc => ⟨fun hspace => hnext c hc (kindOf_eq_space.2 hspace),
    head?_of_hasNeighbours h.space_break hne
      (fun c hc => decide_eq_true (kindOf_eq_space.1 (hrun c hc))) c hc⟩

/-- Behind a run of line breaks another word follows. -/
theorem solid_of_breaks (h : FitsSingle (run ++ cs)) (hne : run ≠ [])
    (hrun : ∀ c ∈ run, isWrittenBreak c = true) (hnext : ∀ c ∈ cs.head?, kindOf c ≠ .lineBreak)
    (hf : Quoted indent false cs f) : IsSolid f :=
  hf.solid_single fun c hc =>
    ⟨of_decide_eq_false (head?_of_hasNeighbours h.break_space hne hrun c hc),
      Bool.eq_false_iff.2 fun hbreak => hnext c hc (kindOf_eq_lineBreak.2 hbreak)⟩

end FitsSingle

/-- **Runs that are put down between single quotes** are so in a form that is read as them. -/
theorem quoted_of_laid {indent : Nat} {flows first : Bool} {runs : List (List Char)} {f : List Char}
    (h : Laid indent singleQuoted flows first runs f) (hruns : Runs runs)
    (hfits : FitsSingle runs.flatten) : Quoted indent false runs.flatten f := by
  induction h with
  | nil => exact .nil false
  | @kept first run runs f hkept h ih =>
    cases hruns with
    | cons kind hne hrun hnext hruns =>
      rw [List.flatten_cons] at hfits ⊢
      have hrest := ih hruns hfits.back
      cases kind with
      | word =>
        exact hrest.word hrun fun c hc => (hfits.plain c (List.mem_append_left _ hc)).1
      | lineBreak =>
        obtain ⟨c, run, rfl⟩ := List.exists_cons_of_ne_nil hne
        have := kindOf_eq_lineBreak.1 (hrun c List.mem_cons_self)
        simp [this] at hkept
      | space =>
        have hsolid := hfits.solid_of_spaces hne hrun hnext hrest
        obtain ⟨n, rfl⟩ := exists_spaces hne hrun
        have hsame : (List.replicate (n + 1) ' ').flatMap singleQuoted
            = List.replicate (n + 1) ' ' := by
          rw [List.flatMap_replicate]
          exact List.flatten_replicate_singleton
        rw [hsame]
        exact .spaces n hsolid hrest
  | @folded runs f hflows hne h ih =>
    cases hruns with
    | cons kind hne hrun hnext hruns =>
      rw [List.flatten_cons] at hfits ⊢
      have hrest := ih hruns hfits.back
      obtain rfl : kindOf ' ' = kind := hrun ' ' List.mem_cons_self
      exact .fold (hfits.solid_of_spaces hne hrun hnext hrest) hrest
  | @broken first run runs f hbroken h ih =>
    cases hruns with
    | cons kind hne hrun hnext hruns =>
      rw [List.flatten_cons] at hfits ⊢
      have hrest := ih hruns hfits.back
      obtain ⟨b, hb, hbreak⟩ := List.any_eq_true.1 hbroken
      obtain rfl : kind = .lineBreak := (hrun b hb).symm.trans (kindOf_eq_lineBreak.2 hbreak)
      have hbreaks : ∀ c ∈ run, isWrittenBreak c = true := fun c hc =>
        kindOf_eq_lineBreak.1 (hrun c hc)
      exact .breaks hne
        (fun c hc => ⟨hbreaks c hc, (hfits.plain c (List.mem_append_left _ hc)).2⟩)
        (hfits.solid_of_breaks hne hbreaks hnext hrest) hrest

/-! ## Without quotes -/

/-- What a text has to be to stand without quotes, at any of its words. -/
structure IsOpen (cs : List Char) : Prop where
  plain : ∀ c ∈ cs, isSpecial c = false ∧ isWrittenBreak c = false
  head : cs.head? ≠ some '#'
  last : cs.getLast? ≠ some ':'
  first_word : cs.head? ≠ some ' '
  last_word : cs.getLast? ≠ some ' '
  no_value : hasNeighbours (· = ':') isBlankOrBreak cs = false
  no_comment : hasNeighbours isBlankOrBreak (· = '#') cs = false

/-- A run of an open text that a blank or nothing follows is a word. -/
theorem IsOpen.isWord {w back : List Char} (h : IsOpen (w ++ back)) (hne : w ≠ [])
    (hkind : ∀ c ∈ w, kindOf c = .word) (hback : ∀ c ∈ back.head?, isBlankOrBreak c = true) :
    IsWord w := by
  have hword : ∀ c ∈ w, isBlankOrBreak c = false ∧ isAllowed c = true ∧ c ≠ byteOrderMark :=
    fun c hc => solid_of_word (h.plain c (List.mem_append_left _ hc)).1 (hkind c hc)
  refine ⟨hne, fun c hc => (hword c hc).1, fun c hc => (hword c hc).2.1,
    fun hmark => (hword _ hmark).2.2 rfl, ?_, fun hlast => ?_⟩
  · have := h.head
    rwa [List.head?_append_of_ne_nil _ hne] at this
  · obtain ⟨front, rfl⟩ := List.getLast?_eq_some_iff.1 hlast
    cases back with
    | nil => exact h.last (by rw [List.append_nil, hlast])
    | cons b back =>
      have hvalue := h.no_value
      rw [List.append_assoc] at hvalue
      have := of_hasNeighbours hvalue (decide_eq_true rfl)
      exact Bool.false_ne_true (this.symm.trans (hback b rfl))

/-- The first run of an open text is a word. -/
theorem IsOpen.kind_eq_word {run back : List Char} {kind : Kind} (h : IsOpen (run ++ back))
    (hne : run ≠ []) (hrun : ∀ c ∈ run, kindOf c = kind) : kind = .word := by
  obtain ⟨c, run, rfl⟩ := List.exists_cons_of_ne_nil hne
  rw [← hrun c List.mem_cons_self, kindOf_eq_word]
  exact ⟨fun hspace => h.first_word (by rw [hspace]; rfl), (h.plain c List.mem_cons_self).2⟩

/-- The runs behind the first word: spaces and an open text. -/
theorem IsOpen.behind_spaces {w s back : List Char} (h : IsOpen (w ++ (s ++ back))) (hs : s ≠ [])
    (hback : back ≠ []) (hspaces : ∀ c ∈ s, c = ' ') (hnext : ∀ c ∈ back.head?, c ≠ ' ') :
    IsOpen back := by
  rw [← List.append_assoc] at h
  have hlast : (w ++ s ++ back).getLast? = back.getLast? := List.getLast?_append_of_ne_nil _ hback
  refine ⟨fun c hc => h.plain c (List.mem_append_right _ hc), fun hhead => ?_, hlast ▸ h.last,
    fun hhead => hnext _ hhead rfl, hlast ▸ h.last_word, hasNeighbours_append h.no_value,
    hasNeighbours_append h.no_comment⟩
  have hcomment := h.no_comment
  rw [List.append_assoc] at hcomment
  have := head?_of_hasNeighbours (hasNeighbours_append hcomment) hs
    (fun c hc => by rw [hspaces c hc]; decide) '#' hhead
  exact absurd this (by decide)

/-- What stands behind a word is a run of spaces. -/
theorem IsOpen.kind_eq_space {w s back : List Char} {kind : Kind} (h : IsOpen (w ++ (s ++ back)))
    (hs : s ≠ []) (hkind : ∀ c ∈ s, kindOf c = kind)
    (hnext : ∀ c ∈ (s ++ back).head?, kindOf c ≠ .word) : kind = .space := by
  obtain ⟨c, s, rfl⟩ := List.exists_cons_of_ne_nil hs
  have hbreak : isWrittenBreak c = false :=
    (h.plain c (List.mem_append_right _ (List.mem_append_left _ List.mem_cons_self))).2
  rw [← hkind c List.mem_cons_self, kindOf_eq_space]
  exact Classical.byContradiction fun hspace =>
    hnext c rfl (kindOf_eq_word.2 ⟨hspace, hbreak⟩)

/-- Spaces are not the last run. -/
theorem IsOpen.ne_nil_behind_spaces {w back : List Char} {n : Nat}
    (h : IsOpen (w ++ (List.replicate (n + 1) ' ' ++ back))) : back ≠ [] := by
  rintro rfl
  refine h.last_word ?_
  rw [List.append_nil, List.replicate_succ', ← List.append_assoc, List.getLast?_concat]

/-- A run without a break is put down as it is, or as a line break where it is one space. -/
theorem Laid.of_cons {indent : Nat} {flows first : Bool} {run : List Char} {runs : List (List Char)}
    {f : List Char} (h : Laid indent ([·]) flows first (run :: runs) f)
    (hrun : ∀ c ∈ run, isWrittenBreak c = false) :
    ∃ f', Laid indent ([·]) flows false runs f' ∧ (f = run ++ f' ∨
      first = false ∧ run = [' '] ∧ f = '\n' :: (List.replicate indent ' ' ++ f')) := by
  cases h with
  | kept hkept h => exact ⟨_, h, .inl (by rw [List.flatMap_singleton' run])⟩
  | folded hflows hne h => exact ⟨_, h, .inr ⟨rfl, rfl, rfl⟩⟩
  | broken hbroken h =>
    obtain ⟨c, hc, hbreak⟩ := List.any_eq_true.1 hbroken
    rw [hrun c hc] at hbreak
    exact absurd hbreak Bool.false_ne_true

/-- The first word is put down as it is. -/
theorem Laid.of_word {indent : Nat} {flows first : Bool} {run : List Char} {runs : List (List Char)}
    {f : List Char} (h : Laid indent ([·]) flows first (run :: runs) f)
    (hrun : ∀ c ∈ run, kindOf c = .word) :
    ∃ f', Laid indent ([·]) flows false runs f' ∧ f = run ++ f' := by
  obtain ⟨f', h', rfl | ⟨-, rfl, -⟩⟩ := h.of_cons fun c hc => (kindOf_eq_word.1 (hrun c hc)).2
  · exact ⟨f', h', rfl⟩
  · exact absurd (hrun ' ' List.mem_cons_self) (by decide)

/-- **Runs that are put down without quotes** are so in a form that is read as them. -/
theorem plain_of_laid {indent : Nat} {flows first : Bool} {f : List Char} :
    ∀ {runs : List (List Char)}, Laid indent ([·]) flows first runs f → Runs runs → runs ≠ [] →
      IsOpen runs.flatten → Plain indent runs.flatten f
  | [], _, _, hne, _ => absurd rfl hne
  | w :: runs, h, .cons kind hw hkind hnext hruns, _, hopen => by
    rw [List.flatten_cons] at hopen ⊢
    obtain rfl := hopen.kind_eq_word hw hkind
    obtain ⟨f', h', rfl⟩ := h.of_word hkind
    match runs, h', hruns with
    | [], .nil _, _ =>
      have hword : IsWord w := hopen.isWord hw hkind (by simp)
      rw [List.flatten_nil, List.append_nil]
      exact .word hword
    | s :: runs, h', .cons kind hs hkind' hnext' hruns =>
      rw [List.flatten_cons] at hopen hnext ⊢
      have hnot_break : ∀ c ∈ s, isWrittenBreak c = false := fun c hc =>
        (hopen.plain c (List.mem_append_right _ (List.mem_append_left _ hc))).2
      obtain rfl := hopen.kind_eq_space hs hkind' hnext
      obtain ⟨n, rfl⟩ := exists_spaces hs hkind'
      have hword : IsWord w := hopen.isWord hw hkind (by
        rintro c ⟨rfl⟩
        decide)
      have hback := hopen.ne_nil_behind_spaces
      have hrest : IsOpen runs.flatten := hopen.behind_spaces hs hback
        (fun c hc => List.eq_of_mem_replicate hc) fun c hc hspace =>
          hnext' c hc (by rw [hspace]; rfl)
      have hne : runs ≠ [] := by
        rintro rfl
        exact hback rfl
      obtain ⟨f'', h'', rfl | ⟨-, hone, rfl⟩⟩ := h'.of_cons hnot_break
      · exact .kept hword n (plain_of_laid h'' hruns hne hrest)
      · rw [hone]
        exact .folded hword (plain_of_laid h'' hruns hne hrest)

/-! ## Scalars -/

/-- **The ways to write a scalar**: without quotes where its spelling gives its tag, or as a text
between quotes. -/
inductive ScalarForm (indent : Nat) : Bool → Tag → String → List Char → Prop
  | plain {text : String} {f : List Char} (hstart : isMistakable text.toList = false)
      (h : Plain indent text.toList f) :
      ScalarForm indent true (.plain (PlainKind.ofText text)) text f
  | quoted (double : Bool) {text : String} {f : List Char}
      (h : Quoted indent double text.toList f) :
      ScalarForm indent false (.plain .text) text (quoteOf double :: (f ++ [quoteOf double]))

/-- Whether a scalar is written without quotes. -/
def isWrittenPlain (tag : Tag) (text : String) : Bool := styleOf tag text false = .plain

/-- **A text that comes back**, at an indentation: a next-line mark is kept in double quotes only,
and where a line is indented beyond the width, a space behind an escape has to be the last one. -/
structure IsKept (indent : Nat) (cs : List Char) : Prop where
  next_line : '\x85' ∈ cs → needsEscapes cs = true
  room : needsEscapes cs = true → indent < Page.width ∨ escapesBeforeSpace cs.tail = false

/-- A scalar that comes back: a text, or what is known by its spelling. -/
inductive KeptScalar (indent : Nat) : Tag → String → Prop
  | text {s : String} (h : IsKept indent s.toList) : KeptScalar indent (.plain .text) s
  | plain {s : String} (hne : s ≠ "") (h : allowsPlain s.toList = true) :
      KeptScalar indent (.plain (PlainKind.ofText s)) s

/-- A key of an entry as it is written, in one line. -/
def keyText (s : String) : List Char :=
  match styleOf (.plain .text) s true with
  | .plain => s.toList
  | .single => '\'' :: (s.toList.flatMap singleQuoted ++ ['\''])
  | _ => '"' :: (escapedText s.toList ++ ['"'])

variable {indent : Nat} {tag : Tag} {text : String} {isKey : Bool}

theorem isOpen_of_allowsPlain {cs : List Char} (h : allowsPlain cs = true) : IsOpen cs := by
  simp only [allowsPlain, needsEscapes, isMultiline, isMistakable, Bool.and_eq_true,
    Bool.not_eq_true', Bool.or_eq_false_iff, decide_eq_true_eq, decide_eq_false_iff_not] at h
  obtain ⟨⟨⟨⟨⟨⟨hspecial, -⟩, -⟩, hbreak⟩, hfirst⟩, hfinal⟩, ⟨⟨⟨⟨hmark, -⟩, -⟩, hvalue⟩, hlast⟩,
    hcomment⟩ := h
  refine ⟨fun c hc => ⟨?_, ?_⟩, ?_, hlast, hfirst, hfinal, hvalue, hcomment⟩
  · exact Bool.eq_false_iff.2 fun h => List.any_eq_false.1 hspecial c hc h
  · exact Bool.eq_false_iff.2 fun h => List.any_eq_false.1 hbreak c hc h
  · cases cs with
    | nil => simp
    | cons c cs =>
      rintro ⟨rfl⟩
      exact absurd (Bool.or_eq_false_iff.1 hmark).1 (by decide)

theorem isMistakable_of_allowsPlain {cs : List Char} (h : allowsPlain cs = true) :
    isMistakable cs = false := by simpa using (Bool.and_eq_true_iff.1 h).2

/-- Runs without breaks that do not flow are put down as they are. -/
theorem Laid.in_line {quote : Char → List Char} {first : Bool} {runs : List (List Char)}
    {f : List Char}
    (h : Laid indent quote false first runs f) (hbreak : runs.flatten.any isWrittenBreak = false) :
    f = runs.flatten.flatMap quote := by
  induction h with
  | nil => rfl
  | kept hrun h ih =>
    rw [List.flatten_cons, List.any_append, Bool.or_eq_false_iff] at hbreak
    rw [List.flatten_cons, List.flatMap_append, ih hbreak.2]
  | folded hflows => exact absurd hflows Bool.false_ne_true
  | broken hrun =>
    rw [List.flatten_cons, List.any_append, hrun, Bool.true_or] at hbreak
    exact absurd hbreak.symm Bool.false_ne_true

/-- The form of a text in double quotes. -/
theorem writeScalar_double (hstyle : styleOf (.plain .text) text isKey = .double)
    (hroom : isKey = false →
      indent < Page.width ∨ escapesBeforeSpace text.toList.tail = false) (p : Page) :
    ∃ f, Quoted indent true text.toList f
      ∧ p.Adds (p.lead ++ '"' :: (f ++ ['"'])) (writeScalar indent isKey (.plain .text) text p)
      ∧ (isKey = true → f = escapedText text.toList) := by
  obtain ⟨f, hf, hadds, hone⟩ := writeEscaped_adds indent (!isKey) true [] text.toList
    (p := p.word "\"") (Page.busy_word _ _).fresh fun h => hroom (by simpa using h)
  refine ⟨f, hf, ?_, fun hkey => hone (by rw [hkey]; rfl)⟩
  have := ((Page.adds_word "\"" p).trans hadds).trans (Page.adds_close "\"" _)
  simpa [writeScalar, hstyle, showsTag] using this

/-- The form of a text in single quotes. -/
theorem writeScalar_single (hstyle : styleOf (.plain .text) text isKey = .single)
    (hescapes : needsEscapes text.toList = false) (hnext : '\x85' ∉ text.toList) (p : Page) :
    ∃ f, Quoted indent false text.toList f
      ∧ p.Adds (p.lead ++ '\'' :: (f ++ ['\''])) (writeScalar indent isKey (.plain .text) text p)
      ∧ (isKey = true → isMultiline text.toList = false →
        f = text.toList.flatMap singleQuoted) := by
  obtain ⟨f, hlaid, hadds, -⟩ := writeRuns_laid indent (!isKey) singleQuoted true
    (runsOf text.toList) (Page.busy_word "'" p)
  have hflat := flatten_runsOf text.toList
  have hf := quoted_of_laid hlaid (runs_runsOf _)
    (hflat.symm ▸ FitsSingle.of_not_needsEscapes hescapes hnext)
  rw [hflat] at hf
  refine ⟨f, hf, ?_, fun hkey hline => ?_⟩
  · have hpage : writeScalar indent isKey (.plain .text) text p
        = (writeRuns indent (!isKey) singleQuoted true (runsOf text.toList) (p.word "'")).close
          "'" := by
      simp only [writeScalar, hstyle]
      rfl
    have := ((Page.adds_word "'" p).trans hadds).trans (Page.adds_close "'" _)
    rw [hpage]
    simpa using this
  · subst hkey
    have := hlaid.in_line (by rw [hflat]; exact hline)
    rwa [hflat] at this

/-- The form of a text without quotes. -/
theorem writeScalar_plain (hne : text ≠ "") (h : allowsPlain text.toList = true) (p : Page) :
    ∃ f, Plain indent text.toList f
      ∧ p.Adds (p.lead ++ f) (writeScalar indent isKey (.plain (PlainKind.ofText text)) text p)
      ∧ (isKey = true → f = text.toList)
      ∧ (writeScalar indent isKey (.plain (PlainKind.ofText text)) text p).Busy := by
  obtain ⟨f, hlaid, hadds, hbusy⟩ := writeRuns_laid indent (!isKey) ([·]) true
    (runsOf text.toList) (Page.busy_word "" p)
  have hflat := flatten_runsOf text.toList
  have hopen := isOpen_of_allowsPlain h
  have hstyle : styleOf (.plain (PlainKind.ofText text)) text isKey = .plain := by
    simp [styleOf, h, hne]
  have hf := plain_of_laid hlaid (runs_runsOf _) (List.splitBy_ne_nil.2 (by simpa using hne))
    (by rw [hflat]; exact hopen)
  rw [hflat] at hf
  refine ⟨f, hf, ?_, fun hkey => ?_, ?_⟩
  · have := (Page.adds_word "" p).trans hadds
    simpa [writeScalar, hstyle, showsTag] using this
  · subst hkey
    have := hlaid.in_line (List.any_eq_false.2 fun c hc => by
      rw [hflat] at hc
      simp [(hopen.plain c hc).2])
    rwa [hflat, List.flatMap_singleton'] at this
  · simpa [writeScalar, hstyle, showsTag] using hbusy

/-- The style of a text by what it needs. -/
theorem styleOf_text (s : String) (isKey : Bool) :
    (styleOf (.plain .text) s isKey = .plain ∧ PlainKind.ofText s = .text ∧ s ≠ ""
        ∧ allowsPlain s.toList = true)
      ∨ (styleOf (.plain .text) s isKey = .double
        ∧ (needsEscapes s.toList = true ∨ isKey = true ∧ isMultiline s.toList = true))
      ∨ (styleOf (.plain .text) s isKey = .single ∧ needsEscapes s.toList = false) := by
  simp only [styleOf]
  split
  next h => cases h
  next =>
    split
    next h =>
      simp only [Bool.and_eq_true, decide_eq_true_eq, Tag.plain.injEq] at h
      refine .inl ⟨rfl, h.1.1.symm, ?_, h.2⟩
      rintro rfl
      exact absurd h.1.1 (by decide)
    next =>
      split
      next h => exact .inr (.inl ⟨rfl, by simpa using h⟩)
      next h => exact .inr (.inr ⟨rfl, by simp_all⟩)

/-- A text on one line has one style as a key and as a value, unless it is empty. -/
theorem styleOf_key (hne : text ≠ "") (hline : isMultiline text.toList = false) :
    styleOf (.plain .text) text true = styleOf (.plain .text) text false := by
  simp [styleOf, hne, hline]

/-- **A scalar is put down in a form that is read as its text.** -/
theorem writeScalar_form (h : KeptScalar indent tag text) (p : Page) :
    ∃ e, ScalarForm indent (isWrittenPlain tag text) tag text e
      ∧ p.Adds (p.lead ++ e) (writeScalar indent false tag text p)
      ∧ (writeScalar indent false tag text p).Busy := by
  cases h with
  | plain hne hallows =>
    obtain ⟨f, hf, hadds, -, hbusy⟩ := writeScalar_plain hne hallows p
    have hstyle : isWrittenPlain (.plain (PlainKind.ofText text)) text = true := by
      simp [isWrittenPlain, styleOf, hallows]
    rw [hstyle]
    exact ⟨f, .plain (isMistakable_of_allowsPlain hallows) hf, hadds, hbusy⟩
  | text h =>
    rw [isWrittenPlain]
    rcases styleOf_text text false with ⟨hstyle, hkind, hne, hallows⟩ | ⟨hstyle, hdouble⟩ |
      ⟨hstyle, hsingle⟩
    · obtain ⟨f, hf, hadds, -, hbusy⟩ := @writeScalar_plain _ _ false hne hallows p
      have hform := ScalarForm.plain (isMistakable_of_allowsPlain hallows) hf
      rw [hkind] at hform hadds hbusy
      rw [hstyle]
      exact ⟨f, hform, hadds, hbusy⟩
    · have hescapes : needsEscapes text.toList = true := hdouble.resolve_right fun h =>
        Bool.false_ne_true h.1
      obtain ⟨f, hf, hadds, -⟩ := writeScalar_double hstyle (fun _ => h.room hescapes) p
      refine ⟨_, by rw [hstyle]; exact .quoted true hf, hadds, ?_⟩
      simp only [writeScalar, hstyle]
      exact Page.busy_close _ _
    · obtain ⟨f, hf, hadds, -⟩ := writeScalar_single hstyle hsingle
        (fun hmem => Bool.false_ne_true (hsingle.symm.trans (h.next_line hmem))) p
      refine ⟨_, by rw [hstyle]; exact .quoted false hf, hadds, ?_⟩
      simp only [writeScalar, hstyle]
      exact Page.busy_close _ _

/-- **A key is put down in one line**, in a form that is read as its text. -/
theorem writeScalar_key (hne : text ≠ "") (hline : isMultiline text.toList = false) (p : Page) :
    ScalarForm indent (isWrittenPlain (.plain .text) text) (.plain .text) text (keyText text)
      ∧ p.Adds (p.lead ++ keyText text) (writeScalar indent true (.plain .text) text p) := by
  rw [isWrittenPlain, ← styleOf_key hne hline, keyText]
  rcases styleOf_text text true with ⟨hstyle, hkind, hne, hallows⟩ | ⟨hstyle, hdouble⟩ |
    ⟨hstyle, hsingle⟩
  · obtain ⟨f, hf, hadds, hone, -⟩ := @writeScalar_plain _ _ true hne hallows p
    have hform := ScalarForm.plain (isMistakable_of_allowsPlain hallows) hf
    rw [hkind, hone rfl] at hform
    rw [hkind, hone rfl] at hadds
    rw [hstyle]
    exact ⟨hform, hadds⟩
  · obtain ⟨f, hf, hadds, hone⟩ := @writeScalar_double indent _ _ hstyle
      (fun h => absurd h.symm Bool.false_ne_true) p
    rw [hone rfl] at hf hadds
    rw [hstyle]
    exact ⟨.quoted true hf, hadds⟩
  · have hnext : '\x85' ∉ text.toList := fun hmem =>
      absurd hline (by rw [isMultiline, List.any_eq_true.2 ⟨_, hmem, by decide⟩]; decide)
    obtain ⟨f, hf, hadds, hone⟩ := @writeScalar_single indent _ _ hstyle hsingle hnext p
    rw [hone rfl hline] at hf hadds
    rw [hstyle]
    exact ⟨.quoted false hf, hadds⟩

end Taskboard.Yaml
