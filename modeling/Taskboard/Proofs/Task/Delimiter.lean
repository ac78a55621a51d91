import Taskboard.Pattern.Reader
import Taskboard.Pattern.Search
import Taskboard.Proofs.Task.Framing

/-!
# Proofs/Task/Delimiter — the delimiter as a pattern

A task file is cut where a pattern is found: three dashes from the start of a line, and blanks and
tabs to its end (`Framing.delimiter`, which is what its notation is read as).  Cutting by lines
gives the same.  Positions in a text are the lengths of what stands before them, so a place is
written as the characters behind which it lies (`behind`), and a text as those and the rest.

* `repeatGreedy_behind` — a greedy repetition takes all the characters that pass its test, when what
  follows it does not go on before one of them.
* `matchEnd?_line`, `matchEnd?_within` — **at the start of a line the pattern is matched if the line
  is a delimiter**, and within a line it is not.
* `found_lines` — so a search passes over the lines that are none.
* `ofText_eq_ofPattern` — **a text is cut by its lines as it is by the pattern.**
-/

namespace Taskboard

open Pattern

namespace Pattern.Compiled

/-- Where the first way to match a pattern at a position ends. -/
def matchEnd? (p : Compiled) (text : List Char) (pos : Nat) : Option Nat :=
  (match? p.groups text.toArray p.flags p.pattern ⟨pos, []⟩ some).map Place.pos

/-- The first match at one of so many positions: where it begins, and where it ends. -/
def find? (p : Compiled) (text : List Char) : Nat → Nat → Option (Nat × Nat)
  | 0, _ => none
  | count + 1, pos =>
    match p.matchEnd? text pos with
    | some finish => some (pos, finish)
    | none => find? p text count (pos + 1)

/-- The parts of a text from a position on, cut at the first so many matches of a pattern that never
matches nothing. -/
def parts (p : Compiled) (text : List Char) : Nat → Nat → List (List Char)
  | 0, pos => [text.drop pos]
  | cuts + 1, pos =>
    match p.find? text (text.length + 1 - pos) pos with
    | some (start, finish) => (text.take start).drop pos :: parts p text cuts finish
    | none => [text.drop pos]

end Pattern.Compiled

namespace Framing

/-- Three dashes at the start of a line, and nothing but blanks and tabs to its end. -/
def delimiter : Compiled where
  pattern := .seq (.anchor .lineStart) (.seq (.char 45 false) (.seq (.char 45 false)
    (.seq (.char 45 false) (.seq (.repeated 0 none .greedy (.set false [.one 32, .one 9]))
      (.anchor .lineEnd)))))
  flags := [.multiline]
  groups := (ReadState.mk [] [.multiline] [] [] none []).widthOf

/-- The notation of the delimiter. -/
theorem read_delimiter : Pattern.read [.multiline] "^---[ \\t]*$" = .ok delimiter := rfl

variable {before after line tail rest : List Char} {k : Rest}

/-! ## Characters -/

/-- The place behind some characters. -/
def behind (before : List Char) : Place := ⟨before.length, []⟩

/-- The character at a place is the next one. -/
theorem getElem?_behind (before rest : List Char) :
    (before ++ rest).toArray[(behind before).pos]? = rest.head? := by
  rw [behind, List.getElem?_toArray, List.getElem?_append_right (Nat.le_refl _), Nat.sub_self,
    List.head?_eq_getElem?]

theorem takeChar_behind (test : Char → Bool) (before rest : List Char) (k : Rest) :
    takeChar (before ++ rest).toArray test (behind before) k =
      match rest with
      | c :: _ => if test c then k (behind (before ++ [c])) else none
      | [] => none := by
  unfold takeChar
  rw [getElem?_behind]
  cases rest with
  | nil => rfl
  | cons c rest =>
    have hnext : ({ behind before with pos := (behind before).pos + 1 } : Place) =
        behind (before ++ [c]) := by
      rw [behind, behind, List.length_append]
      rfl
    simp only [List.head?_cons, hnext]

/-- Whether a character may stand behind dashes. -/
def isBlankOrTab (c : Char) : Bool := c = ' ' || c = '\t'

/-- **As many characters as pass a test are taken**, if what follows refuses to go on before one
that passes. -/
theorem repeatGreedy_behind {test : Char → Bool} {text : List Char}
    (hk : ∀ pre c post, text = pre ++ c :: post → test c = true → k (behind pre) = none) :
    ∀ (rest before : List Char), text = before ++ rest → ∀ (fuel count : Nat) (last : Option Nat),
      rest.length < fuel → last ≠ some before.length →
        repeatGreedy (takeChar text.toArray test) 0 none fuel count last (behind before) k =
          k (behind (before ++ rest.takeWhile test))
  | _, _, _, 0, _, _, hfuel, _ => absurd hfuel (Nat.not_lt_zero _)
  | rest, before, htext, fuel + 1, count, last, hfuel, hlast => by
    have hagain : (mayRepeat none count && last != some (behind before).pos) = true := by
      simpa [mayRepeat, behind] using hlast
    rw [repeatGreedy, if_neg (Nat.not_lt_zero count), if_pos hagain, htext, takeChar_behind]
    cases rest with
    | nil => simp
    | cons c rest =>
      cases hc : test c with
      | false => simp [hc]
      | true =>
        have hlater : some (behind before).pos ≠ some (before ++ [c]).length := by
          simp [behind]
        have hrest := repeatGreedy_behind hk rest (before ++ [c]) (by simp [htext]) fuel (count + 1)
          (some (behind before).pos) (Nat.lt_of_succ_lt_succ hfuel) hlater
        have hstuck : k (behind before) = none := hk before c rest htext hc
        simp only [if_true, List.takeWhile_cons, hc]
        rw [← htext, hrest, hstuck, List.append_assoc, List.singleton_append]
        cases k (behind (before ++ c :: rest.takeWhile test)) <;> rfl

/-! ## Anchors -/

/-- The place behind some characters is the start of a line. -/
def AtStart (before : List Char) : Prop := before = [] ∨ ∃ earlier, before = earlier ++ ['\n']

/-- The place before some characters is the end of a line. -/
def AtEnd (rest : List Char) : Prop := rest = [] ∨ ∃ later, rest = '\n' :: later

theorem lineEndAt_behind (before rest : List Char) :
    lineEndAt (before ++ rest).toArray before.length = (rest.head? == some '\n') :=
  congrArg (· == some '\n') (getElem?_behind before rest)

theorem holdsAt_lineStart (before rest : List Char) :
    Anchor.lineStart.holdsAt [.multiline] (before ++ rest).toArray (behind before).pos = true ↔
      AtStart before := by
  rcases List.eq_nil_or_concat before with rfl | ⟨earlier, c, rfl⟩
  · exact ⟨fun _ => .inl rfl, fun _ => rfl⟩
  · have hbreak := lineEndAt_behind earlier (c :: rest)
    simp [Anchor.holdsAt, AtStart, behind, hbreak]

theorem holdsAt_lineEnd (before rest : List Char) :
    Anchor.lineEnd.holdsAt [.multiline] (before ++ rest).toArray (behind before).pos = true ↔
      AtEnd rest := by
  have hbreak := lineEndAt_behind before rest
  cases rest with
  | nil => simp [Anchor.holdsAt, AtEnd, behind]
  | cons c rest => simp [Anchor.holdsAt, AtEnd, behind, hbreak]

/-! ## Blanks to the end of the line -/

theorem toNat_eq_iff {c d : Char} {code : Nat} (hd : d.toNat = code) : c.toNat = code ↔ c = d := by
  rw [← hd, Char.toNat_inj]

theorem has_blankOrTab (c : Char) :
    ([.one 32, .one 9].any (SetItem.has [.multiline] c) != false) = isBlankOrTab c := by
  have hblank : c.toNat = 32 ↔ c = ' ' := toNat_eq_iff rfl
  have htab : c.toNat = 9 ↔ c = '\t' := toNat_eq_iff rfl
  simp [SetItem.has, isBlankOrTab, hblank, htab]

theorem sameLetter_dash (c : Char) :
    (sameLetter [.multiline] 45 c != false) = decide (c = '-') := by
  have hdash : c.toNat = 45 ↔ c = '-' := toNat_eq_iff rfl
  simp [sameLetter, hdash]

theorem not_atEnd {c : Char} (hc : c ≠ '\n') (rest : List Char) : ¬ AtEnd (c :: rest) := by
  rintro (h | ⟨later, h⟩)
  · cases h
  · exact hc (List.cons.inj h).1

theorem ne_break_of_blankOrTab {c : Char} (hc : isBlankOrTab c = true) : c ≠ '\n' := by
  rintro rfl
  cases hc

/-- Before the end of a line no character that may stand behind dashes follows. -/
theorem takeWhile_of_atEnd (h : AtEnd rest) : rest.takeWhile isBlankOrTab = [] := by
  rcases h with rfl | ⟨later, rfl⟩ <;> rfl

/-- Taking blanks of a line leads to its end exactly if it has nothing else. -/
theorem atEnd_dropWhile_iff (hline : '\n' ∉ line) (htail : AtEnd tail) :
    AtEnd ((line ++ tail).dropWhile isBlankOrTab) ↔ line.all isBlankOrTab = true := by
  induction line with
  | nil =>
    rcases htail with rfl | ⟨later, rfl⟩
    · exact ⟨fun _ => rfl, fun _ => .inl rfl⟩
    · exact ⟨fun _ => rfl, fun _ => .inr ⟨later, rfl⟩⟩
  | cons c line ih =>
    have hc : c ≠ '\n' := fun h => hline (h ▸ List.mem_cons_self)
    have hrest := ih fun h => hline (List.mem_cons_of_mem c h)
    rw [List.cons_append, List.dropWhile_cons, List.all_cons]
    cases isBlankOrTab c with
    | true => simpa using hrest
    | false => simpa using not_atEnd hc (line ++ tail)

/-- The end of the delimiter: blanks and tabs to the end of the line. -/
def blanksToEnd : Pattern :=
  .seq (.repeated 0 none .greedy (.set false [.one 32, .one 9])) (.anchor .lineEnd)

/-- **Blanks and tabs to the end of the line** are matched where a line has nothing else. -/
theorem match?_blanksToEnd (groups : Nat → Nat × Nat) (before : List Char) (hline : '\n' ∉ line)
    (htail : AtEnd tail) :
    match? groups (before ++ (line ++ tail)).toArray [.multiline] blanksToEnd (behind before) some =
      if line.all isBlankOrTab then some (behind (before ++ line)) else none := by
  set text := before ++ (line ++ tail) with htext
  -- what follows the blanks: the end of the line, and nothing else to do
  set k : Rest := fun q =>
    if Anchor.lineEnd.holdsAt [.multiline] text.toArray q.pos then some q else none with hk
  have hset : (fun q r =>
      match? groups text.toArray [.multiline] (.set false [.one 32, .one 9]) q r) =
      takeChar text.toArray isBlankOrTab := by
    funext q r
    rw [match?]
    exact congrArg (fun test => takeChar text.toArray test q r) (funext has_blankOrTab)
  have hrefuses : ∀ pre c post, text = pre ++ c :: post → isBlankOrTab c = true →
      k (behind pre) = none := by
    intro pre c post heq hc
    have hnot : ¬ AtEnd (c :: post) := not_atEnd (ne_break_of_blankOrTab hc) post
    rw [hk, heq]
    exact if_neg (mt (holdsAt_lineEnd pre (c :: post)).mp hnot)
  have htaken := repeatGreedy_behind hrefuses (line ++ tail) before htext (0 + text.length + 2) 0
    none (by simp [htext]; omega) (Option.some_ne_none _).symm
  have hmatch : match? groups text.toArray [.multiline] blanksToEnd (behind before) some =
      k (behind (before ++ (line ++ tail).takeWhile isBlankOrTab)) := by
    rw [← htaken, ← hset]
    rfl
  have hsplit : text = (before ++ (line ++ tail).takeWhile isBlankOrTab) ++
      (line ++ tail).dropWhile isBlankOrTab := by
    rw [htext, List.append_assoc, List.takeWhile_append_dropWhile]
  have hend := holdsAt_lineEnd (before ++ (line ++ tail).takeWhile isBlankOrTab)
    ((line ++ tail).dropWhile isBlankOrTab)
  rw [← hsplit, atEnd_dropWhile_iff hline htail] at hend
  rw [hmatch, hk]
  dsimp only
  by_cases hall : line.all isBlankOrTab = true
  · rw [if_pos (hend.mpr hall), if_pos hall,
      List.takeWhile_append_of_pos (List.all_eq_true.mp hall), takeWhile_of_atEnd htail,
      List.append_nil]
  · rw [if_neg (mt hend.mp hall), if_neg hall]

/-! ## Lines -/

/-- So many dashes before the blanks and tabs. -/
def dashesToEnd : Nat → Pattern
  | 0 => blanksToEnd
  | n + 1 => .seq (.char 45 false) (dashesToEnd n)

/-- A line of so many dashes, with blanks and tabs behind them. -/
def isDashed (n : Nat) (line : List Char) : Bool :=
  line.take n = List.replicate n '-' && (line.drop n).all isBlankOrTab

theorem isDashed_three (line : List Char) : isDashed 3 line = isDelimiter line := by
  unfold isDelimiter
  split
  next rest =>
    have htaken : isDashed 3 ('-' :: '-' :: '-' :: rest) = rest.all isBlankOrTab := by
      simp [isDashed]
    rw [htaken]
    rfl
  next hne =>
    refine Bool.eq_false_iff.mpr fun h => ?_
    obtain ⟨hdashes, -⟩ := (Bool.and_eq_true _ _).mp h
    have hsplit := List.take_append_drop 3 line
    rw [of_decide_eq_true hdashes] at hsplit
    exact hne _ hsplit.symm

/-- **Dashes to the end of the line** are matched where a line has them. -/
theorem match?_dashesToEnd (groups : Nat → Nat × Nat) (htail : AtEnd tail) {text : List Char} :
    ∀ (n : Nat) (line before : List Char), text = before ++ (line ++ tail) → '\n' ∉ line →
      match? groups text.toArray [.multiline] (dashesToEnd n) (behind before) some =
        if isDashed n line then some (behind (before ++ line)) else none
  | 0, line, before, htext, hline => by
    rw [htext, dashesToEnd, match?_blanksToEnd groups before hline htail]
    simp [isDashed]
  | n + 1, line, before, htext, hline => by
    have hstep :
        match? groups text.toArray [.multiline] (dashesToEnd (n + 1)) (behind before) some =
          takeChar text.toArray (fun c => decide (c = '-')) (behind before) fun q =>
            match? groups text.toArray [.multiline] (dashesToEnd n) q some :=
      congrArg (fun test => takeChar text.toArray test (behind before) fun q =>
        match? groups text.toArray [.multiline] (dashesToEnd n) q some) (funext sameLetter_dash)
    rw [hstep, htext, takeChar_behind, ← htext]
    cases line with
    | nil =>
      rcases htail with rfl | ⟨later, rfl⟩ <;> rfl
    | cons c line =>
      have hrest := match?_dashesToEnd groups htail n line (before ++ [c])
        (htext.trans (by simp)) fun h => hline (List.mem_cons_of_mem c h)
      rw [List.append_assoc, List.singleton_append] at hrest
      dsimp only [List.cons_append]
      rw [hrest]
      by_cases hc : c = '-' <;> simp [isDashed, hc, List.replicate_succ]

/-- **At the start of a line the delimiter is matched if the line is one.** -/
theorem matchEnd?_line (hstart : AtStart before) (hline : '\n' ∉ line) (htail : AtEnd tail) :
    delimiter.matchEnd? (before ++ (line ++ tail)) before.length =
      if isDelimiter line then some (before ++ line).length else none := by
  have hanchor := (holdsAt_lineStart before (line ++ tail)).mpr hstart
  have hmatch := match?_dashesToEnd delimiter.groups htail 3 line before rfl hline
  have hseq : match? delimiter.groups (before ++ (line ++ tail)).toArray delimiter.flags
      delimiter.pattern (behind before) some =
        match? delimiter.groups (before ++ (line ++ tail)).toArray [.multiline] (dashesToEnd 3)
          (behind before) some := if_pos hanchor
  rw [Compiled.matchEnd?]
  change Option.map Place.pos (match? _ _ _ _ (behind before) some) = _
  rw [hseq, hmatch, isDashed_three]
  split <;> rfl

/-- Within a line it is not. -/
theorem matchEnd?_within (h : ¬ AtStart before) (rest : List Char) :
    delimiter.matchEnd? (before ++ rest) before.length = none := by
  have hanchor := mt (holdsAt_lineStart before rest).mp h
  have hseq : match? delimiter.groups (before ++ rest).toArray delimiter.flags delimiter.pattern
      (behind before) some = none := if_neg hanchor
  rw [Compiled.matchEnd?]
  change Option.map Place.pos (match? _ _ _ _ (behind before) some) = _
  rw [hseq]
  rfl

/-! ## Looking for it -/

/-- Where a line ends, or the text, no delimiter begins. -/
theorem matchEnd?_atEnd (hrest : AtEnd rest) (before : List Char) :
    delimiter.matchEnd? (before ++ rest) before.length = none := by
  by_cases hstart : AtStart before
  · exact matchEnd?_line hstart List.not_mem_nil hrest
  · exact matchEnd?_within hstart rest

/-- The first delimiter behind some characters. -/
def found (before rest : List Char) : Option (Nat × Nat) :=
  delimiter.find? (before ++ rest) (rest.length + 1) before.length

theorem found_nil (before : List Char) : found before [] = none := by
  rw [found, List.length_nil, Compiled.find?, matchEnd?_atEnd (.inl rfl)]
  rfl

/-- Where none begins, the search goes on behind the next character. -/
theorem found_cons {c : Char}
    (hnone : delimiter.matchEnd? (before ++ c :: rest) before.length = none) :
    found before (c :: rest) = found (before ++ [c]) rest := by
  rw [found, List.length_cons, Compiled.find?, hnone, found, List.append_assoc,
    List.singleton_append, List.length_append, List.length_singleton]

/-- Where one begins, it is found. -/
theorem found_of_matchEnd? {finish : Nat}
    (hmatch : delimiter.matchEnd? (before ++ rest) before.length = some finish) :
    found before rest = some (before.length, finish) := by
  rw [found, Compiled.find?, hmatch]

theorem found_break (before rest : List Char) :
    found before ('\n' :: rest) = found (before ++ ['\n']) rest :=
  found_cons (matchEnd?_atEnd (.inr ⟨rest, rfl⟩) before)

theorem not_atStart {c : Char} (hc : c ≠ '\n') (before : List Char) :
    ¬ AtStart (before ++ [c]) := by
  rintro (h | ⟨earlier, h⟩)
  · exact List.append_ne_nil_of_right_ne_nil before (List.cons_ne_nil c []) h
  · exact hc (List.singleton_inj.mp (List.append_inj' h rfl).2)

/-- The search passes over the rest of a line. -/
theorem found_within (hbefore : ¬ AtStart before) (hline : '\n' ∉ line) (tail : List Char) :
    found before (line ++ tail) = found (before ++ line) tail := by
  induction line generalizing before with
  | nil => rw [List.nil_append, List.append_nil]
  | cons c line ih =>
    obtain ⟨hc, hrest⟩ := not_or.mp (mt List.mem_cons.mpr hline)
    rw [List.cons_append, found_cons (matchEnd?_within hbefore _),
      ih (not_atStart (Ne.symm hc) before) hrest, List.append_assoc, List.singleton_append]

/-- **The search passes over a line that is no delimiter.** -/
theorem found_line (hstart : AtStart before) (hline : '\n' ∉ line) (hno : isDelimiter line = false)
    (htail : AtEnd tail) : found before (line ++ tail) = found (before ++ line) tail := by
  cases line with
  | nil => rw [List.nil_append, List.append_nil]
  | cons c line =>
    obtain ⟨hc, hrest⟩ := not_or.mp (mt List.mem_cons.mpr hline)
    have hnone := matchEnd?_line hstart hline htail
    rw [hno, if_neg Bool.false_ne_true, List.cons_append] at hnone
    rw [List.cons_append, found_cons hnone, found_within (not_atStart (Ne.symm hc) before) hrest,
      List.append_assoc, List.singleton_append]

/-- Lines, each with its break. -/
def broken (lines : List (List Char)) : List Char := lines.flatMap (· ++ ['\n'])

/-- **The search passes over lines that are no delimiters**, and is then at the start of a line. -/
theorem found_lines {lines : List (List Char)} (hstart : AtStart before)
    (hlines : ∀ l ∈ lines, '\n' ∉ l) (hno : ∀ l ∈ lines, isDelimiter l = false) (rest : List Char) :
    AtStart (before ++ broken lines) ∧
      found before (broken lines ++ rest) = found (before ++ broken lines) rest := by
  induction lines generalizing before with
  | nil => simpa [broken] using hstart
  | cons l ls ih =>
    obtain ⟨hl, hls⟩ := List.forall_mem_cons.mp hlines
    obtain ⟨hlNo, hlsNo⟩ := List.forall_mem_cons.mp hno
    have hnext : AtStart (before ++ l ++ ['\n']) := .inr ⟨before ++ l, rfl⟩
    obtain ⟨hlater, hfound⟩ := ih hnext hls hlsNo
    have hsplit : before ++ broken (l :: ls) = before ++ l ++ ['\n'] ++ broken ls := by
      simp [broken]
    refine ⟨hsplit ▸ hlater, ?_⟩
    calc found before (broken (l :: ls) ++ rest)
        = found before (l ++ '\n' :: (broken ls ++ rest)) := by simp [broken]
      _ = found (before ++ l) ('\n' :: (broken ls ++ rest)) :=
        found_line hstart hl hlNo (.inr ⟨_, rfl⟩)
      _ = found (before ++ l ++ ['\n']) (broken ls ++ rest) := found_break _ _
      _ = found (before ++ broken (l :: ls)) rest := by rw [hfound, hsplit]

/-- **A delimiter behind lines that are none is found.** -/
theorem found_delimiter {head : List (List Char)} (hstart : AtStart before)
    (hhead : ∀ l ∈ head, '\n' ∉ l) (hno : ∀ l ∈ head, isDelimiter l = false) (hline : '\n' ∉ line)
    (hdelimiter : isDelimiter line = true) (htail : AtEnd tail) :
    found before (broken head ++ (line ++ tail)) =
      some ((before ++ broken head).length, (before ++ broken head ++ line).length) := by
  obtain ⟨hlater, hfound⟩ := found_lines hstart hhead hno (line ++ tail)
  refine hfound.trans (found_of_matchEnd? ?_)
  rw [matchEnd?_line hlater hline htail, if_pos hdelimiter]

/-- A text of lines that are no delimiters has none. -/
theorem found_none {lines : List (List Char)} (hstart : AtStart before)
    (hlines : ∀ l ∈ lines ++ [line], '\n' ∉ l)
    (hno : ∀ l ∈ lines ++ [line], isDelimiter l = false) :
    found before (broken lines ++ line) = none := by
  obtain ⟨hinit, hlast⟩ := List.forall_mem_append.mp hlines
  obtain ⟨hinitNo, hlastNo⟩ := List.forall_mem_append.mp hno
  obtain ⟨hlater, hfound⟩ := found_lines hstart hinit hinitNo line
  have hend : found (before ++ broken lines) (line ++ []) = _ := found_line hlater (hlast line List.mem_cons_self)
    (hlastNo line List.mem_cons_self) (.inl rfl)
  rw [List.append_nil, found_nil] at hend
  rw [hfound, hend]

/-! ## Cutting at it -/

/-- A text cut at the first two matches of a pattern with which it must begin. -/
def ofPattern (p : Compiled) (s : String) : Framing :=
  if (p.matchEnd? s.toList 0).isNone then .bare
  else match p.parts s.toList 2 0 with
    | [_, head, body] => .framed head (body.dropWhile (· = '\n'))
    | _ => .unterminated

/-- What stands behind a line: nothing, or a break and the lines that follow. -/
def followed (lines : List (List Char)) : List Char :=
  if lines.isEmpty then [] else '\n' :: joinParts '\n' lines

theorem atEnd_followed (lines : List (List Char)) : AtEnd (followed lines) := by
  cases lines with
  | nil => exact .inl rfl
  | cons l ls => exact .inr ⟨joinParts '\n' (l :: ls), rfl⟩

theorem joinParts_cons (line : List Char) (lines : List (List Char)) :
    joinParts '\n' (line :: lines) = line ++ followed lines := by
  cases lines with
  | nil => exact (List.append_nil line).symm
  | cons l ls => rfl

theorem followed_append (head : List (List Char)) (line : List Char) (body : List (List Char)) :
    followed (head ++ line :: body) = '\n' :: (broken head ++ (line ++ followed body)) := by
  induction head with
  | nil => exact congrArg ('\n' :: ·) (joinParts_cons line body)
  | cons l ls ih =>
    calc followed (l :: (ls ++ line :: body))
        = '\n' :: (l ++ followed (ls ++ line :: body)) := congrArg ('\n' :: ·) (joinParts_cons l _)
      _ = '\n' :: (broken (l :: ls) ++ (line ++ followed body)) := by rw [ih]; simp [broken]

/-- Breaks at the start are left out, the one behind the delimiter among them. -/
theorem dropWhile_followed (lines : List (List Char)) :
    (followed lines).dropWhile (· = '\n') = (joinParts '\n' lines).dropWhile (· = '\n') := by
  cases lines with
  | nil => rfl
  | cons l ls => exact List.dropWhile_cons_of_pos rfl

/-- No line holds a break. -/
theorem not_mem_of_mem_partsAt (sep : Char) (cs : List Char) : ∀ p ∈ partsAt sep cs, sep ∉ p := by
  induction cs with
  | nil => simp [partsAt]
  | cons c cs ih =>
    obtain ⟨p, ps, hps⟩ := List.exists_cons_of_ne_nil (partsAt_ne_nil sep cs)
    rw [hps] at ih
    obtain ⟨hp, hrest⟩ := List.forall_mem_cons.mp ih
    rw [partsAt, hps]
    split
    next => exact List.forall_mem_cons.mpr ⟨List.not_mem_nil, ih⟩
    next hc =>
      have hcp : sep ∉ c :: p := by
        rw [List.mem_cons]
        exact not_or.mpr ⟨Ne.symm hc, hp⟩
      exact List.forall_mem_cons.mpr ⟨hcp, hrest⟩

/-- The lines before the first delimiter are none, and the line behind them is one. -/
theorem exists_delimiter {lines head body : List (List Char)}
    (h : beforeDelimiter lines = some (head, body)) :
    ∃ d, lines = head ++ d :: body ∧ isDelimiter d = true ∧ ∀ l ∈ head, isDelimiter l = false := by
  induction lines generalizing head with
  | nil => cases h
  | cons l ls ih =>
    rw [beforeDelimiter] at h
    split at h
    next hl =>
      cases h
      exact ⟨l, rfl, hl, fun l hl => absurd hl List.not_mem_nil⟩
    next hl =>
      obtain ⟨⟨later, rest⟩, hlater, heq⟩ := Option.map_eq_some_iff.mp h
      cases heq
      obtain ⟨d, rfl, hd, hno⟩ := ih hlater
      exact ⟨d, rfl, hd, List.forall_mem_cons.mpr ⟨Bool.eq_false_iff.mpr hl, hno⟩⟩

/-- Lines with nothing behind a delimiter have none. -/
theorem not_isDelimiter_of_none {lines : List (List Char)} (h : beforeDelimiter lines = none) :
    ∀ l ∈ lines, isDelimiter l = false := by
  intro l hl
  refine Bool.eq_false_iff.mpr fun hd => ?_
  induction lines with
  | nil => cases hl
  | cons q qs ih =>
    rw [beforeDelimiter] at h
    split at h
    next => cases h
    next hq =>
      rcases List.mem_cons.mp hl with rfl | hl
      · exact hq hd
      · exact ih (Option.map_eq_none_iff.mp h) hl

/-- The parts of a text behind some characters. -/
theorem parts_behind (before rest : List Char) (cuts : Nat) :
    delimiter.parts (before ++ rest) (cuts + 1) before.length =
      match found before rest with
      | some (start, finish) =>
        ((before ++ rest).take start).drop before.length ::
          delimiter.parts (before ++ rest) cuts finish
      | none => [rest] := by
  have hcount : (before ++ rest).length + 1 - before.length = rest.length + 1 := by
    rw [List.length_append]
    omega
  rw [Compiled.parts, hcount, List.drop_left]
  rfl

/-- Behind the first line the text is cut at the next delimiter. -/
theorem parts_followed (first : List Char) {rest : List (List Char)}
    (hrest : ∀ l ∈ rest, '\n' ∉ l) :
    delimiter.parts (first ++ followed rest) 1 first.length =
      match beforeDelimiter rest with
      | some (head, body) => ['\n' :: broken head, followed body]
      | none => [followed rest] := by
  have hstart : AtStart (first ++ ['\n']) := .inr ⟨first, rfl⟩
  rw [parts_behind]
  cases hcut : beforeDelimiter rest with
  | none =>
    have hno := not_isDelimiter_of_none hcut
    have hnone : found first (followed rest) = none := by
      rcases List.eq_nil_or_concat' rest with rfl | ⟨init, last, rfl⟩
      · exact found_nil first
      · have hlast : last ++ followed [] = last := List.append_nil last
        rw [followed_append, hlast, found_break, found_none hstart hrest hno]
    rw [hnone]
  | some cut =>
    obtain ⟨head, body⟩ := cut
    obtain ⟨d, rfl, hd, hno⟩ := exists_delimiter hcut
    obtain ⟨hhead, hline⟩ := List.forall_mem_append.mp hrest
    have hfound := found_delimiter hstart hhead hno (hline d List.mem_cons_self) hd
      (atEnd_followed body)
    set start := first ++ ['\n'] ++ broken head with hbegin
    have htext : first ++ '\n' :: (broken head ++ (d ++ followed body)) =
        start ++ d ++ followed body := by simp [hbegin]
    have htaken : ((start ++ d ++ followed body).take start.length).drop first.length =
        '\n' :: broken head := by
      rw [List.append_assoc start, List.take_left, hbegin, List.append_assoc first, List.drop_left]
      rfl
    rw [followed_append, found_break, hfound, htext]
    dsimp only
    rw [htaken, Compiled.parts, List.drop_left]

/-- **A text is cut by its lines as it is by the pattern of the delimiter.** -/
theorem ofText_eq_ofPattern (s : String) : ofText s = ofPattern delimiter s := by
  obtain ⟨first, rest, hparts⟩ := List.exists_cons_of_ne_nil (partsAt_ne_nil '\n' s.toList)
  have hs : s.toList = first ++ followed rest := by
    rw [← joinParts_cons, ← hparts, joinParts_partsAt]
  have hlines := not_mem_of_mem_partsAt '\n' s.toList
  rw [hparts] at hlines
  obtain ⟨hfirst, hrest⟩ := List.forall_mem_cons.mp hlines
  have hstart : AtStart [] := .inl rfl
  have hmatch : delimiter.matchEnd? (first ++ followed rest) 0 = _ :=
    matchEnd?_line hstart hfirst (atEnd_followed rest)
  unfold ofText ofPattern
  rw [hparts, hs]
  dsimp only
  cases hdelimiter : isDelimiter first with
  | false =>
    rw [hdelimiter, if_neg Bool.false_ne_true] at hmatch
    rw [hmatch]
    rfl
  | true =>
    rw [hdelimiter, if_pos rfl] at hmatch
    have hfound : found [] (first ++ followed rest) = some (0, first.length) :=
      found_of_matchEnd? hmatch
    have hcut := parts_behind [] (first ++ followed rest) 1
    rw [hfound] at hcut
    have hcut : delimiter.parts (first ++ followed rest) 2 0 =
        [] :: delimiter.parts (first ++ followed rest) 1 first.length := hcut
    rw [hmatch, hcut, parts_followed first hrest]
    cases beforeDelimiter rest with
    | none => rfl
    | some cut =>
      obtain ⟨head, body⟩ := cut
      dsimp only
      rw [dropWhile_followed]
      rfl

end Framing
end Taskboard
