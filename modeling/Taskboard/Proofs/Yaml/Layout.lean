import Taskboard.Proofs.Yaml.Scalar
import Taskboard.Yaml.Token

/-!
# Proofs/Yaml/Layout — from token to token

Between two tokens nothing but the place, the open blocks and the permission of a key matters. A
layout `Arrives` at a place when that is what skipping blanks, dropping pending keys and ending
blocks leaves of it, and one `Leads` to another by steps.

* `Arrives.step` — one token.
* `Arrives.close` — a block that is deeper than the place has ended.
* `scalar_leads` — **a scalar is taken as one token**, up to the next line.
-/

namespace Taskboard.Yaml

namespace Layout

variable {l l' l'' : Layout} {c c' : Cursor} {ts : List Token} {blocks : List Nat} {allowed : Bool}
  {pending : List (Nat × PendingKey)} {cs rest r : List Char} {ch : Char}

/-! ## Steps -/

/-- The layout at the next token, the blocks ended that are deeper. -/
def ready (l : Layout) : Read Layout :=
  (skipToToken (l.cursor.rest.length + 1) l).dropStale.map fun l => l.unwind l.cursor.column

/-- Takes the token that stands here. -/
def takeNext (l : Layout) : Read Layout :=
  match l.cursor.peek? with
  | none => l.endStream
  | some ch => l.takeToken ch

theorem step_eq (l : Layout) : l.step = l.ready.bind takeNext := by
  rw [step, ready]
  cases (skipToToken (l.cursor.rest.length + 1) l).dropStale <;> rfl

/-- **Steps lead from one layout to another**, each past one character at least. -/
def Leads (l l' : Layout) : Prop :=
  ∃ n, n + l'.cursor.rest.length ≤ l.cursor.rest.length ∧ ∀ fuel, run (fuel + n) l = run fuel l'

theorem Leads.trans (h : Leads l l') (h' : Leads l' l'') : Leads l l'' := by
  obtain ⟨m, hm, hrun⟩ := h
  obtain ⟨n, hn, hrun'⟩ := h'
  refine ⟨n + m, by omega, fun fuel => ?_⟩
  rw [← Nat.add_assoc, hrun, hrun']

theorem Leads.of_step (hfinished : l.finished = false) (hstep : l.step = .ok l')
    (hlen : l'.cursor.rest.length < l.cursor.rest.length) : Leads l l' := by
  refine ⟨1, by omega, fun fuel => ?_⟩
  rw [run, hfinished, if_neg Bool.false_ne_true, hstep]
  rfl

/-! ## Layouts between tokens -/

/-- A layout outside brackets, with the keys that are pending. -/
def resting (c : Cursor) (ts : List Token) (blocks : List Nat) (allowed : Bool)
    (pending : List (Nat × PendingKey)) : Layout :=
  ⟨c, ts.toArray, blocks, 0, allowed, pending, false⟩

/-- A layout that awaits a token. -/
def idle (c : Cursor) (ts : List Token) (blocks : List Nat) (allowed : Bool) : Layout :=
  resting c ts blocks allowed []

/-- **A layout stands before the token at a place**, but for blocks that have ended. -/
structure Arrives (l : Layout) (c : Cursor) (ts : List Token) (blocks : List Nat)
    (allowed : Bool) : Prop where
  finished : l.finished = false
  length_le : c.rest.length ≤ l.cursor.rest.length
  ready : l.ready = .ok ((idle c ts blocks allowed).unwind c.column)

/-- A block that is deeper than the place has ended. -/
theorem Arrives.close {n : Nat} (h : Arrives l c ts (n :: blocks) allowed) (hn : c.column < n) :
    Arrives l c (ts ++ [.blockEnd]) blocks allowed := by
  refine ⟨h.finished, h.length_le, ?_⟩
  rw [h.ready]
  simp [unwind, idle, resting, closeBlocks, hn]

theorem unwind_self (h : ∀ n ∈ blocks.head?, n ≤ c.column) :
    (idle c ts blocks allowed).unwind c.column = idle c ts blocks allowed := by
  cases blocks with
  | nil => rfl
  | cons n blocks => simp [unwind, idle, resting, closeBlocks, Nat.not_lt.2 (h n rfl)]

/-- **One token.** -/
theorem Arrives.step (h : Arrives l c ts blocks allowed)
    (hblocks : ∀ n ∈ blocks.head?, n ≤ c.column)
    (htake : (idle c ts blocks allowed).takeNext = .ok l')
    (hlen : l'.cursor.rest.length < c.rest.length) : Leads l l' := by
  refine .of_step h.finished ?_ (Nat.lt_of_lt_of_le hlen h.length_le)
  rw [step_eq, h.ready, unwind_self hblocks]
  exact htake

/-! ## Blanks and lines between tokens -/

/-- The keys that are pending belong to earlier lines, and need not be keys. -/
def Past (pending : List (Nat × PendingKey)) (line : Nat) : Prop :=
  ∀ e ∈ pending, e.2.required = false ∧ e.2.line < line

theorem Past.nil (line : Nat) : Past [] line := by simp [Past]

theorem dropStale_past (h : Past l.pending l.cursor.line) :
    l.dropStale = .ok { l with pending := [] } := by
  unfold dropStale
  dsimp only
  rw [if_neg, List.filter_eq_nil_iff.2]
  · intro e he
    simp [Nat.ne_of_lt (h e he).2]
  · rw [List.any_eq_true]
    rintro ⟨e, he, hrequired⟩
    simp [(h e he).1] at hrequired

/-- A line that goes on with a token at a column: no blank, no comment and no mark of a document. -/
structure IsLine (column : Nat) (r : List Char) : Prop where
  solid : IsSolid r
  no_comment : r.head? ≠ some '#'
  no_mark : ∀ c : Cursor, c.rest = List.replicate column ' ' ++ r → c.atDocumentMark = false

/-- Blanks before a token are passed. -/
theorem skipToToken_blanks {k fuel : Nat} (h : l.cursor.rest = List.replicate k ' ' ++ r)
    (hsolid : IsSolid r) (hcomment : r.head? ≠ some '#') :
    skipToToken (fuel + 1) l = { l with cursor := l.cursor.skip k } := by
  have hrest := Cursor.rest_skip_replicate h
  have hnone : (l.cursor.skip k).skipComment = l.cursor.skip k := by
    simp [Cursor.skipComment, Cursor.nextIs, Cursor.peek?, hrest, hcomment]
  have hbreak : (l.cursor.skip k).nextHas isBreak = false :=
    Cursor.nextHas_eq_false (by rw [hrest]; exact hsolid.not_break)
  simp only [skipToToken, Cursor.skipWhile_spaces h hsolid, hnone, hbreak, Bool.false_eq_true,
    if_false]

/-- A line break before a token allows a key. -/
theorem skipToToken_line {k fuel : Nat} (h : l.cursor.rest = '\n' :: (List.replicate k ' ' ++ r))
    (hdepth : l.depth = 0) (hsolid : IsSolid r) (hcomment : r.head? ≠ some '#') :
    skipToToken (fuel + 2) l = { l with cursor := l.cursor.skip (k + 1), keyAllowed := true } := by
  have hskip : l.cursor.skipWhile (· = ' ') = l.cursor := Cursor.skipWhile_self <| by
    rw [h]
    rintro d ⟨rfl⟩
    decide
  have hnone : l.cursor.skipComment = l.cursor := by
    simp [Cursor.skipComment, Cursor.nextIs, Cursor.peek?, h]
  have hbreak : l.cursor.nextHas isBreak = true := by
    rw [Cursor.nextHas_cons h]
    decide
  rw [skipToToken, hskip, hnone, hbreak, if_pos rfl, Cursor.lineBreak_newline h,
    skipToToken_blanks (l := { l with cursor := l.cursor.skip 1, keyAllowed := _ })
      (Cursor.rest_forward_cons h) hsolid hcomment]
  simp [hdepth, Cursor.skip_skip, Nat.add_comm]

/-- **Blanks lead to the next token** in a line. -/
theorem arrives_blanks {k : Nat} (h : c.rest = List.replicate k ' ' ++ r) (hsolid : IsSolid r)
    (hcomment : r.head? ≠ some '#') (hpast : Past pending (c.skip k).line) :
    Arrives (resting c ts blocks allowed pending) (c.skip k) ts blocks allowed := by
  refine ⟨rfl, ?_, ?_⟩
  · rw [Cursor.length_rest_skip]
    exact Nat.sub_le _ _
  · rw [ready, skipToToken_blanks h hsolid hcomment]
    change ((resting (c.skip k) ts blocks allowed pending).dropStale).map _ = _
    rw [dropStale_past hpast]
    rfl

/-- **A line break leads to the token of the next line**, where a key is allowed. -/
theorem arrives_line {k : Nat} (h : c.rest = '\n' :: (List.replicate k ' ' ++ r))
    (hline : IsLine k r) (hpast : Past pending (c.line + 1)) :
    Arrives (resting c ts blocks allowed pending) (c.skip (k + 1)) ts blocks true := by
  refine ⟨rfl, ?_, ?_⟩
  · rw [Cursor.length_rest_skip]
    exact Nat.sub_le _ _
  · obtain ⟨n, hn⟩ : ∃ n, c.rest.length + 1 = n + 2 := ⟨c.rest.length - 1, by
      rw [h, List.length_cons]
      omega⟩
    have hfuel : (resting c ts blocks allowed pending).cursor.rest.length + 1 = n + 2 := hn
    rw [← (Cursor.skip_newline h).2] at hpast
    rw [ready, hfuel, skipToToken_line h rfl hline.solid hline.no_comment]
    change ((resting (c.skip (k + 1)) ts blocks true pending).dropStale).map _ = _
    rw [dropStale_past hpast]
    rfl

/-! ## Keys that may begin -/

/-- The key that may begin at a place. -/
def begun (c : Cursor) (ts : List Token) (blocks : List Nat) (allowed : Bool) :
    List (Nat × PendingKey) :=
  if allowed then
    [(0, ⟨ts.length, decide (blocks.head? = some c.column), c.index, c.line, c.column⟩)]
  else []

theorem savePending_idle : (idle c ts blocks allowed).savePending
    = .ok (resting c ts blocks allowed (begun c ts blocks allowed)) := by
  cases allowed <;> simp [savePending, idle, resting, begun, dropPending, Except.map]

theorem past_begun {line : Nat} (hrequired : blocks.head? ≠ some c.column) (hline : c.line < line) :
    Past (begun c ts blocks allowed) line := by
  intro e he
  unfold begun at he
  split at he
  · obtain rfl := List.mem_singleton.1 he
    exact ⟨decide_eq_false hrequired, hline⟩
  · cases he

/-! ## Tokens by their first character -/

theorem not_atIndicator (h : c.rest = ch :: rest) {d : Char} (hne : ch ≠ d) :
    c.atIndicator d = false := by
  simp [Cursor.atIndicator, h, hne]

/-- Two different characters begin no mark of a document. -/
theorem not_atIndicator_pair {a b : Char} (h : c.rest = a :: b :: rest) (hne : a ≠ b) {d : Char} :
    c.atIndicator d = false := by
  by_cases ha : a = d
  · have hb : b ≠ d := fun e => hne (ha.trans e.symm)
    simp [Cursor.atIndicator, h, hb]
  · exact not_atIndicator h ha

theorem takeNext_eq (h : c.rest = ch :: rest) :
    (idle c ts blocks allowed).takeNext = (idle c ts blocks allowed).takeToken ch := by
  have : (idle c ts blocks allowed).cursor.peek? = some ch := Cursor.peek?_eq h
  rw [takeNext, this]

/-- The quote of a text begins a word. -/
theorem takeNext_quote (double : Bool) (h : c.rest = quoteOf double :: rest) {s : String}
    (hread : readQuoted double c = .ok (s, c')) :
    (idle c ts blocks allowed).takeNext = .ok (resting c' (ts ++ [.scalar s false]) blocks false
      (begun c ts blocks allowed)) := by
  have hmark (d : Char) (hd : quoteOf double ≠ d) : c.atIndicator d = false := not_atIndicator h hd
  have hcursor : (idle c ts blocks allowed).cursor = c := rfl
  rw [takeNext_eq h]
  cases double with
  | false =>
    have h1 := hmark '-' (by decide)
    have h2 := hmark '.' (by decide)
    simp [takeToken, quoteOf, hcursor, h1, h2, takeWord, savePending_idle, Except.bind, resting,
      hread, Except.map]
  | true =>
    have h1 := hmark '-' (by decide)
    have h2 := hmark '.' (by decide)
    simp [takeToken, quoteOf, hcursor, h1, h2, takeWord, savePending_idle, Except.bind, resting,
      hread, Except.map]

/-- The blocks behind the mark of a block, and the token of one that it opens. -/
def opened (t : Token) (c : Cursor) (ts : List Token) (blocks : List Nat) : List Token × List Nat :=
  if ∀ n ∈ blocks.head?, n < c.column then (ts ++ [t], c.column :: blocks) else (ts, blocks)

theorem openBlock_idle (t : Token) : (idle c ts blocks allowed).openBlock t
    = idle c (opened t c ts blocks).1 (opened t c ts blocks).2 allowed := by
  cases blocks with
  | nil => simp [openBlock, isDeeper, idle, resting, opened]
  | cons n blocks =>
    by_cases h : n < c.column <;> simp [openBlock, isDeeper, idle, resting, opened, h]

theorem opened_same {n : Nat} (t : Token) (h : c.column = n) :
    opened t c ts (n :: blocks) = (ts, n :: blocks) := by simp [opened, h]

theorem opened_deeper (t : Token) (h : ∀ n ∈ blocks.head?, n < c.column) :
    opened t c ts blocks = (ts ++ [t], c.column :: blocks) := by rw [opened, if_pos h]

theorem dropPending_idle : (idle c ts blocks allowed).dropPending
    = .ok (idle c ts blocks allowed) := by
  simp [dropPending, idle, resting]

theorem pushOne_idle (t : Token) :
    (idle c ts blocks allowed).pushOne t = idle c.forward (ts ++ [t]) blocks allowed := by
  simp [pushOne, idle, resting]

/-- The mark of a block's part with a blank behind it: its token, perhaps behind that of a block
that it opens. -/
theorem takeNext_mark (h : c.rest = ch :: ' ' :: rest) {opening part : Token}
    (hmark : ch = '-' ∧ opening = .blockList ∧ part = .entry
      ∨ ch = '?' ∧ opening = .blockMap ∧ part = .key
      ∨ ch = ':' ∧ opening = .blockMap ∧ part = .value) :
    (idle c ts blocks true).takeNext = .ok (idle c.forward
      ((opened opening c ts blocks).1 ++ [part]) (opened opening c ts blocks).2 true) := by
  have hindicator (d : Char) : c.atIndicator d = false := not_atIndicator_pair h (by
    rcases hmark with ⟨rfl, -⟩ | ⟨rfl, -⟩ | ⟨rfl, -⟩ <;> decide)
  have hseparate : c.endOrHas isBlankOrBreak 1 = true := by
    simp [Cursor.endOrHas, Cursor.peekAt?, h, isBlankOrBreak]
  have hcursor : (idle c ts blocks true).cursor = c := rfl
  have hdepth : (idle c ts blocks true).depth = 0 := rfl
  have hpart : (idle c ts blocks true).takeToken ch
      = ((idle c ts blocks true).openBlock opening).dropPending.map (·.pushOne part) := by
    rw [openBlock_idle]
    rcases hmark with ⟨rfl, rfl, rfl⟩ | ⟨rfl, rfl, rfl⟩ | ⟨rfl, rfl, rfl⟩
    · simp [takeToken, hcursor, hindicator, hseparate, hdepth, takeEntry, openBlock_idle]
      rfl
    · simp [takeToken, hcursor, hindicator, hseparate, hdepth, takeKey, openBlock_idle]
      rfl
    · simp [takeToken, hcursor, hindicator, hseparate, hdepth, takeValue, openBlock_idle]
      rfl
  rw [takeNext_eq h, hpart, openBlock_idle, dropPending_idle, Except.map, pushOne_idle]

/-- The least column of plain text inside open blocks. -/
def innerOf : List Nat → Nat
  | [] => 0
  | n :: _ => n + 1

theorem innerColumn_resting : (resting c ts blocks allowed pending).innerColumn
    = innerOf blocks := by
  cases blocks <;> rfl

/-- A character that begins a plain text at a place. -/
structure BeginsPlain (ch : Char) (c : Cursor) : Prop where
  solid : isBlankOrBreak ch = false
  no_mark : leadingMarks.contains ch = false
  /-- A mark of a block has no blank behind it. -/
  joined : ch = '?' ∨ ch = ':' ∨ ch = '-' → c.endOrHas isBlankOrBreak 1 = false
  no_document : c.column = 0 → c.atIndicator '-' = false ∧ c.atIndicator '.' = false

theorem BeginsPlain.ne (h : BeginsPlain ch c) {d : Char} (hd : leadingMarks.contains d = true) :
    ch ≠ d := by
  rintro rfl
  exact Bool.false_ne_true (h.no_mark.symm.trans hd)

/-- The characters that begin no plain text are blanks, leading marks and the marks of blocks. -/
theorem leading_of_isIndicator (h : isIndicator ch = true) :
    isBlankOrBreak ch = true ∨ leadingMarks.contains ch = true
      ∨ ch = '?' ∨ ch = ':' ∨ ch = '-' := by
  have htable : "-?:,[]\x7b\x7d#&*!|>'\"%@".toList.all (fun d => leadingMarks.contains d
      || d = '?' || d = ':' || d = '-') = true := by decide
  simp only [isIndicator, Bool.or_eq_true, decide_eq_true_eq] at h
  rcases h with (h | h) | rfl
  · exact .inl h
  · have := List.all_eq_true.1 htable ch (by simpa using h)
    simp only [Bool.or_eq_true, decide_eq_true_eq] at this
    exact .inr (by tauto)
  · exact .inr (.inl (by decide))

theorem BeginsPlain.beginsPlain (h : BeginsPlain ch c) :
    (idle c ts blocks allowed).beginsPlain ch = true := by
  have hcursor : (idle c ts blocks allowed).cursor = c := rfl
  have hdepth : (idle c ts blocks allowed).depth = 0 := rfl
  cases hindicator : isIndicator ch with
  | false => simp [Layout.beginsPlain, hindicator]
  | true =>
    rcases leading_of_isIndicator hindicator with hblank | hmark | hblock
    · exact absurd (h.solid.symm.trans hblank) Bool.false_ne_true
    · exact absurd (h.no_mark.symm.trans hmark) Bool.false_ne_true
    · have := h.joined hblock
      rcases hblock with rfl | rfl | rfl <;> simp [Layout.beginsPlain, hcursor, hdepth, this]

/-- A plain text is a word without quotes. -/
theorem takeNext_plain (hc : c.rest = ch :: rest) (h : BeginsPlain ch c)
    {text : List Char} {broke : Bool}
    (hread : readPlain false (innerOf blocks) c = ⟨text, c', broke⟩) :
    (idle c ts blocks allowed).takeNext
      = .ok (resting c' (ts ++ [.scalar (String.ofList text) true]) blocks broke
        (begun c ts blocks allowed)) := by
  have hcursor : (idle c ts blocks allowed).cursor = c := rfl
  have hdepth : (idle c ts blocks allowed).depth = 0 := rfl
  have hplain : (idle c ts blocks allowed).takeToken ch = (idle c ts blocks allowed).takePlain := by
    have hd : ¬(c.column = 0 ∧ c.atIndicator '-' = true) :=
      fun hh => by simp [h.no_document hh.1] at hh
    have hp : ¬(c.column = 0 ∧ c.atIndicator '.' = true) :=
      fun hh => by simp [h.no_document hh.1] at hh
    have hentry : ¬(ch = '-' ∧ c.endOrHas isBlankOrBreak 1 = true) := fun hh => by
      simp [h.joined (.inr (.inr hh.1))] at hh
    have hkey : ¬(ch = '?' ∧ c.endOrHas isBlankOrBreak 1 = true) := fun hh => by
      simp [h.joined (.inl hh.1)] at hh
    have hvalue : ¬(ch = ':' ∧ c.endOrHas isBlankOrBreak 1 = true) := fun hh => by
      simp [h.joined (.inr (.inl hh.1))] at hh
    have hne (d : Char) (hd : leadingMarks.contains d = true) : ch ≠ d := h.ne hd
    simp [takeToken, hcursor, hdepth, hd, hp, hentry, hkey, hvalue, h.beginsPlain,
      hne '%' (by decide), hne '[' (by decide), hne '\x7b' (by decide), hne ']' (by decide),
      hne '\x7d' (by decide), hne ',' (by decide), hne '*' (by decide), hne '&' (by decide),
      hne '!' (by decide), hne '|' (by decide), hne '>' (by decide), hne '\'' (by decide),
      hne '"' (by decide)]
  rw [takeNext_eq hc, hplain, takePlain, savePending_idle]
  simp only [Except.map, innerColumn_resting]
  simp [resting, hread]

/-- **A plain text begins at its first character.** -/
theorem beginsPlain_of_plain {indent : Nat} {f : List Char} (hstart : isMistakable cs = false)
    (h : Plain indent cs f) (hc : c.rest = f ++ rest)
    (hdocument : c.column = 0 → c.atIndicator '-' = false ∧ c.atIndicator '.' = false) :
    ∃ ch r, c.rest = ch :: r ∧ BeginsPlain ch c := by
  obtain ⟨w, csBack, fBack, hw, rfl, rfl, hback⟩ := h.exists_word
  obtain ⟨ch, w, rfl⟩ := List.exists_cons_of_ne_nil hw.ne_nil
  simp only [isMistakable, List.cons_append, Bool.or_eq_false_iff] at hstart
  obtain ⟨hmark, hpair⟩ := hstart.1.1.1.1.1
  rw [List.append_assoc, List.cons_append] at hc
  refine ⟨ch, _, hc, hw.solid ch List.mem_cons_self, hmark, fun hblock => ?_, hdocument⟩
  have hnext : (w ++ csBack).head?.all isBlankOrBreak = false := by
    have hthree : (decide (ch = '?') || decide (ch = ':') || decide (ch = '-')) = true := by
      simpa [or_assoc] using hblock
    rwa [hthree, Bool.true_and] at hpair
  cases w with
  | nil =>
    cases csBack with
    | nil => simp at hnext
    | cons d csBack =>
      simp [hback d rfl, isBlankOrBreak] at hnext
  | cons d w => simpa [Cursor.endOrHas, Cursor.peekAt?, hc] using hnext

/-! ## Values of one token or two -/

/-- Pending keys of this line stay. -/
theorem dropStale_recent (h : ∀ e ∈ l.pending, e.2.line = l.cursor.line
    ∧ l.cursor.index - e.2.index ≤ maxKeyLength) : l.dropStale = .ok l := by
  unfold dropStale
  dsimp only
  rw [if_neg, List.filter_eq_self.2]
  · intro e he
    simp [(h e he).1, (h e he).2]
  · rw [List.any_eq_true]
    rintro ⟨e, he, hrequired⟩
    simp [(h e he).1, Nat.not_lt.2 (h e he).2] at hrequired

variable {n j indent : Nat} {tag : Tag} {text : String} {plain : Bool} {e : List Char}

/-- A place inside a block is no place of a required key, and ends no block. -/
theorem inside_block (hn : n < c.column) :
    (∀ m ∈ (n :: blocks).head?, m ≤ c.column) ∧ (n :: blocks).head? ≠ some c.column := by
  refine ⟨?_, fun hsome => Nat.ne_of_lt hn (Option.some.inj hsome)⟩
  rintro m ⟨rfl⟩
  exact Nat.le_of_lt hn

/-- A plain text is taken as one token, with the line break behind it. -/
theorem plain_leads {f : List Char} (hstart : isMistakable cs = false) (hf : Plain indent cs f)
    (h : Arrives l c ts (n :: blocks) allowed) (hn : n < c.column) (hindent : n < indent)
    (hc : c.rest = f ++ '\n' :: (List.replicate j ' ' ++ r)) (hline : IsLine j r) (hj : j ≤ n) :
    ∃ l', Leads l l' ∧ Arrives l' (c.skip (f.length + (j + 1)))
      (ts ++ [.scalar (String.ofList cs) true]) (n :: blocks) true := by
  obtain ⟨hblocks, hrequired⟩ := @inside_block _ blocks _ hn
  obtain ⟨ch, r', hch, hbegins⟩ := beginsPlain_of_plain hstart hf hc fun hzero => by omega
  obtain ⟨hnext, -, hlater⟩ := Cursor.skip_line hc
  have hread := @readPlain_line _ (n + 1) _ _ _ _ _ (by omega) hindent hf hc (by omega)
    hline.solid (hline.no_mark _ (Cursor.rest_skip_append_cons hc)) (by omega)
  have htake := @takeNext_plain _ _ ts (n :: blocks) allowed _ _ hch hbegins _ _ hread
  refine ⟨_, h.step hblocks htake ?_, ?_⟩
  · change (c.skip _).rest.length < _
    rw [hnext, hc, List.length_append, List.length_cons, List.length_append]
    omega
  · exact arrives_blanks (k := 0) hnext hline.solid hline.no_comment (past_begun hrequired hlater)

/-- A text in quotes is taken as one token; the line break is passed behind it. -/
theorem quoted_leads {double : Bool} {f : List Char} (hf : Quoted indent double cs f)
    (h : Arrives l c ts (n :: blocks) allowed) (hn : n < c.column) (hindent : 0 < indent)
    (hc : c.rest = quoteOf double :: (f ++ [quoteOf double])
      ++ '\n' :: (List.replicate j ' ' ++ r)) (hline : IsLine j r) :
    ∃ l', Leads l l' ∧ Arrives l'
      (c.skip ((quoteOf double :: (f ++ [quoteOf double])).length + (j + 1)))
      (ts ++ [.scalar (String.ofList cs) false]) (n :: blocks) true := by
  obtain ⟨hblocks, hrequired⟩ := @inside_block _ blocks _ hn
  have hback := Cursor.rest_skip_append hc
  rw [List.cons_append, List.append_assoc, List.singleton_append] at hc
  have hlen : (quoteOf double :: (f ++ [quoteOf double])).length = f.length + 2 := by simp
  have hread := readQuoted_quoted hindent (by simp) hf hc
  have htake := @takeNext_quote _ _ ts (n :: blocks) allowed _ double hc _ hread
  have hlater : c.line < (c.skip (f.length + 2)).line + 1 :=
    Nat.lt_succ_of_le (Cursor.line_le_skip _ _)
  rw [hlen] at hback ⊢
  refine ⟨_, h.step hblocks htake ?_, ?_⟩
  · change (c.skip _).rest.length < _
    rw [Cursor.length_rest_skip, hc, List.length_cons]
    omega
  · rw [← Cursor.skip_skip (f.length + 2)]
    exact arrives_line hback hline (past_begun hrequired hlater)

/-- **A scalar is taken as one token**, up to the next line. -/
theorem scalar_leads (hform : ScalarForm indent plain tag text e)
    (h : Arrives l c ts (n :: blocks) allowed) (hn : n < c.column) (hindent : n < indent)
    (hc : c.rest = e ++ '\n' :: (List.replicate j ' ' ++ r)) (hline : IsLine j r) (hj : j ≤ n) :
    ∃ l', Leads l l' ∧ Arrives l' (c.skip (e.length + (j + 1))) (ts ++ [.scalar text plain])
      (n :: blocks) true := by
  rw [← String.ofList_toList (s := text)]
  cases hform with
  | plain hstart hf => exact plain_leads hstart hf h hn hindent hc hline hj
  | quoted double hf => exact quoted_leads hf h hn (by omega) hc hline

/-- A layout behind one open bracket. -/
def inBrackets (c : Cursor) (ts : List Token) (blocks : List Nat)
    (pending : List (Nat × PendingKey)) : Layout :=
  { resting c ts blocks true pending with depth := 1 }

theorem takeNext_open (hc : c.rest = '[' :: ']' :: rest) :
    (idle c ts blocks allowed).takeNext = .ok (inBrackets c.forward (ts ++ [.listOpen]) blocks
      (begun c ts blocks allowed)) := by
  have hcursor : (idle c ts blocks allowed).cursor = c := rfl
  have hindicator (d : Char) : c.atIndicator d = false := not_atIndicator_pair hc (by decide)
  rw [takeNext_eq hc]
  simp [takeToken, hcursor, hindicator, takeOpen, savePending_idle, Except.map, pushOne, resting,
    inBrackets]

/-- Between two brackets the key that is pending before them stays. -/
theorem ready_brackets (hc : c.rest = '[' :: ']' :: rest) (ts' : List Token) :
    (inBrackets c.forward ts' blocks (begun c ts blocks allowed)).ready
      = .ok (inBrackets c.forward ts' blocks (begun c ts blocks allowed)) := by
  have hforward := Cursor.forward_inline hc ⟨by decide, by decide⟩
  have hskip : skipToToken ((inBrackets c.forward ts' blocks
      (begun c ts blocks allowed)).cursor.rest.length + 1)
      (inBrackets c.forward ts' blocks (begun c ts blocks allowed))
        = inBrackets c.forward ts' blocks (begun c ts blocks allowed) :=
    skipToToken_blanks (k := 0) (Cursor.rest_forward_cons hc) (by simp; decide) (by simp)
  have hstale : (inBrackets c.forward ts' blocks (begun c ts blocks allowed)).dropStale
      = .ok (inBrackets c.forward ts' blocks (begun c ts blocks allowed)) := by
    apply dropStale_recent
    intro e he
    have he : e ∈ begun c ts blocks allowed := he
    unfold begun at he
    split at he
    · obtain rfl := List.mem_singleton.1 he
      simp [inBrackets, resting, hforward, maxKeyLength]
    · cases he
  rw [ready, hskip, hstale]
  rfl

theorem takeNext_close (hc : c.rest = ']' :: '\n' :: rest) (hpending : ∀ e ∈ pending, e.1 = 0) :
    (inBrackets c ts blocks pending).takeNext
      = .ok (resting c.forward (ts ++ [.listClose]) blocks false pending) := by
  have hcursor : (inBrackets c ts blocks pending).cursor = c := rfl
  have hindicator (d : Char) : c.atIndicator d = false := not_atIndicator_pair hc (by decide)
  have hpeek : c.peek? = some ']' := Cursor.peek?_eq hc
  have hdrop : (inBrackets c ts blocks pending).dropPending
      = .ok (inBrackets c ts blocks pending) := by
    unfold dropPending
    rw [if_neg, List.filter_eq_self.2]
    · intro e he
      simp [inBrackets, hpending e he]
    · rw [List.any_eq_true]
      rintro ⟨e, he, hboth⟩
      simp [inBrackets, hpending e he] at hboth
  rw [takeNext, hcursor, hpeek]
  simp [takeToken, hcursor, hindicator, takeClose, hdrop, Except.map]
  simp [inBrackets, pushOne, resting]

/-- **Two brackets are taken as the tokens of an empty list.** -/
theorem brackets_leads (h : Arrives l c ts (n :: blocks) allowed) (hn : n < c.column)
    (hc : c.rest = '[' :: ']' :: '\n' :: (List.replicate j ' ' ++ r)) (hline : IsLine j r) :
    ∃ l', Leads l l' ∧ Arrives l' (c.skip (2 + (j + 1))) (ts ++ [.listOpen, .listClose])
      (n :: blocks) true := by
  obtain ⟨hblocks, hrequired⟩ := @inside_block _ blocks _ hn
  have hnext := Cursor.rest_forward_cons hc
  have hback := Cursor.rest_forward_cons hnext
  have hpending : ∀ e ∈ begun c ts (n :: blocks) allowed, e.1 = 0 := by
    unfold begun
    split <;> simp
  have hfirst := h.step hblocks (takeNext_open hc) (by
    change c.forward.rest.length < _
    rw [hnext, hc]
    simp)
  have hsecond : Leads (inBrackets c.forward (ts ++ [.listOpen]) (n :: blocks)
      (begun c ts (n :: blocks) allowed))
      (resting c.forward.forward (ts ++ [.listOpen] ++ [.listClose]) (n :: blocks) false
        (begun c ts (n :: blocks) allowed)) := by
    refine .of_step rfl ?_ ?_
    · rw [step_eq, ready_brackets hc, Except.bind, takeNext_close hnext hpending]
    · change c.forward.forward.rest.length < c.forward.rest.length
      rw [hback, hnext]
      simp
  rw [List.append_assoc] at hsecond
  refine ⟨_, hfirst.trans hsecond, ?_⟩
  have hlater : c.line < c.forward.forward.line + 1 :=
    Nat.lt_succ_of_le (Cursor.line_le_skip 2 c)
  have harrives := @arrives_line _ (ts ++ [.listOpen] ++ [.listClose])
    (n :: blocks) false _ _ _ hback hline (@past_begun _ ts _ allowed _ hrequired hlater)
  have hplace : c.forward.forward.skip (j + 1) = c.skip (2 + (j + 1)) :=
    Cursor.skip_skip 2 (j + 1) c
  rwa [hplace, List.append_assoc] at harrives

/-! ## Keys in one line -/

/-- A text that begins no mark of a document begins none with a colon behind it. -/
theorem not_atIndicator_key {d : Char} (hd : d ≠ ':') (hcs : [d, d, d].isPrefixOf cs = false)
    (hc : c.rest = cs ++ ':' :: rest) : c.atIndicator d = false := by
  rw [Bool.eq_false_iff]
  intro hmark
  simp only [Cursor.atIndicator, Bool.and_eq_true, decide_eq_true_eq] at hmark
  have hprefix : [d, d, d] <+: cs ++ ':' :: rest := by
    rw [← hc, ← hmark.1]
    exact List.take_prefix 3 _
  have hmem : ':' ∈ [d, d, d] := by
    rcases List.prefix_or_prefix_of_prefix hprefix
      (show cs ++ [':'] <+: cs ++ ':' :: rest from ⟨rest, by simp⟩) with h | h
    · rcases List.prefix_concat_iff.1 h with heq | h
      · rw [heq]
        simp
      · rw [List.isPrefixOf_iff_prefix.2 h] at hcs
        exact absurd hcs.symm Bool.false_ne_true
    · exact h.subset (by simp)
  exact hd (List.eq_of_mem_replicate (n := 3) hmem).symm

/-- **A key in one line begins no mark of a document.** -/
theorem not_atIndicator_form (h : ScalarForm indent plain tag text e)
    (hinline : ∀ ch ∈ e, IsInline ch)
    (hc : c.rest = e ++ ':' :: rest) : c.atIndicator '-' = false ∧ c.atIndicator '.' = false := by
  cases h with
  | plain hstart hf =>
    rw [hf.eq_of_line fun hmem => absurd (hinline _ hmem).1 (by decide)] at hc
    simp only [isMistakable, Bool.or_eq_false_iff] at hstart
    exact ⟨not_atIndicator_key (by decide) hstart.1.1.1.1.2 hc,
      not_atIndicator_key (by decide) hstart.1.1.1.2 hc⟩
  | quoted double =>
    cases double <;> exact ⟨not_atIndicator hc (by decide), not_atIndicator hc (by decide)⟩

/-- Where a key has just been read, it is still pending. -/
theorem ready_key (hc : c.rest = e ++ ':' :: rest) (hinline : ∀ ch ∈ e, IsInline ch)
    (hlen : e.length ≤ maxKeyLength) (hblocks : ∀ m ∈ blocks.head?, m ≤ c.column)
    (ts' : List Token) :
    (resting (c.skip e.length) ts' blocks false (begun c ts blocks true)).ready
      = .ok (resting (c.skip e.length) ts' blocks false (begun c ts blocks true)) := by
  have hnext : (c.skip e.length).rest = ':' :: rest := Cursor.rest_skip_append hc
  obtain ⟨hcolumn, hline⟩ := Cursor.column_line hc hinline
  have hskip : skipToToken ((resting (c.skip e.length) ts' blocks false
      (begun c ts blocks true)).cursor.rest.length + 1)
      (resting (c.skip e.length) ts' blocks false (begun c ts blocks true))
        = resting (c.skip e.length) ts' blocks false (begun c ts blocks true) :=
    skipToToken_blanks (k := 0) hnext (by simp; decide) (by simp)
  have hstale : (resting (c.skip e.length) ts' blocks false (begun c ts blocks true)).dropStale
      = .ok (resting (c.skip e.length) ts' blocks false (begun c ts blocks true)) := by
    apply dropStale_recent
    intro k hk
    obtain rfl : k = _ := List.mem_singleton.1 hk
    have hindex := Cursor.index_skip hc
    simp only [resting, hline, hindex]
    exact ⟨trivial, by omega⟩
  rw [ready, hskip, hstale]
  cases blocks with
  | nil => rfl
  | cons m blocks =>
    have hdeep : ¬(c.skip e.length).column < m := by
      have := hblocks m rfl
      omega
    simp [Except.map, unwind, resting, closeBlocks, hdeep]

/-- **A colon behind a word makes it a key**, which opens a block where it is deeper. -/
theorem takeNext_colon (hc : c'.rest = ':' :: ch :: rest) (hch : isBlankOrBreak ch = true)
    (t : Token) :
    (resting c' (ts ++ [t]) blocks false (begun c ts blocks true)).takeNext
      = .ok (idle c'.forward ((opened .blockMap c ts blocks).1 ++ [.key, t, .value])
          (opened .blockMap c ts blocks).2 false) := by
  have hcursor : (resting c' (ts ++ [t]) blocks false (begun c ts blocks true)).cursor = c' := rfl
  have hindicator (d : Char) : c'.atIndicator d = false := by
    refine not_atIndicator_pair hc ?_
    rintro rfl
    exact absurd hch (by decide)
  have hseparate : c'.endOrHas isBlankOrBreak 1 = true := by
    simp [Cursor.endOrHas, Cursor.peekAt?, hc, hch]
  rw [takeNext, hcursor, Cursor.peek?_eq hc]
  simp only [takeToken, hcursor, hindicator, hseparate]
  simp [takeValue, resting, begun, isDeeper, insertTokens, pushOne, idle, opened]
  cases blocks with
  | nil => simp
  | cons m blocks => by_cases h : m < c.column <;> simp [h]

/-- A key in one line is taken as one token, and still pending. -/
theorem takeNext_key (hform : ScalarForm indent plain tag text e)
    (hblocks : ∀ m ∈ blocks.head?, m ≤ c.column) (hindent : 0 < indent)
    (hinner : innerOf blocks ≤ indent) (hinline : ∀ ch ∈ e, IsInline ch)
    (hc : c.rest = e ++ ':' :: ch :: rest) (hch : isBlankOrBreak ch = true) :
    (idle c ts blocks true).takeNext = .ok (resting (c.skip e.length)
      (ts ++ [.scalar text plain]) blocks false (begun c ts blocks true)) := by
  rw [← String.ofList_toList (s := text)]
  cases hform with
  | @plain text f hstart hf =>
    obtain ⟨ch', r', hch', hbegins⟩ := beginsPlain_of_plain hstart hf hc fun _ =>
      not_atIndicator_form (.plain hstart hf) hinline hc
    have hleast : innerOf blocks ≤ c.column + 1 := by
      cases blocks with
      | nil => exact Nat.zero_le _
      | cons m blocks => exact Nat.succ_le_succ (hblocks m rfl)
    exact takeNext_plain hch' hbegins
      (readPlain_key hindent hinner hf hc hleast (by simpa using hch))
  | @quoted double text f hf =>
    rw [List.cons_append, List.append_assoc, List.singleton_append] at hc
    have := @takeNext_quote _ _ ts blocks true _ double hc _
      (readQuoted_quoted hindent (by simp) hf hc)
    simpa using this

/-- A scalar takes some room. -/
theorem form_ne_nil (hform : ScalarForm indent plain tag text e) : e ≠ [] := by
  cases hform with
  | plain hstart hf =>
    obtain ⟨w, -, fBack, hw, -, rfl, -⟩ := hf.exists_word
    simp [hw.ne_nil]
  | quoted => simp

/-- **A key in one line is taken with its colon**, and opens a block where it is deeper. -/
theorem key_leads (hform : ScalarForm indent plain tag text e) (h : Arrives l c ts blocks true)
    (hblocks : ∀ m ∈ blocks.head?, m ≤ c.column) (hindent : 0 < indent)
    (hinner : innerOf blocks ≤ indent) (hinline : ∀ ch ∈ e, IsInline ch)
    (hlen : e.length ≤ maxKeyLength) (hc : c.rest = e ++ ':' :: ch :: rest)
    (hch : isBlankOrBreak ch = true) :
    Leads l (idle (c.skip (e.length + 1))
      ((opened .blockMap c ts blocks).1 ++ [.key, .scalar text plain, .value])
      (opened .blockMap c ts blocks).2 false) := by
  have hnext := Cursor.rest_skip_append hc
  have hpos := List.length_pos_iff.2 (form_ne_nil hform)
  have hfirst := h.step hblocks (takeNext_key hform hblocks hindent hinner hinline hc hch) (by
    change (c.skip _).rest.length < _
    rw [Cursor.length_rest_skip, hc, List.length_append, List.length_cons]
    omega)
  refine hfirst.trans (.of_step rfl ?_ ?_)
  · rw [step_eq, ready_key hc hinline hlen hblocks, Except.bind, takeNext_colon hnext hch,
      ← Cursor.skip_skip]
    rfl
  · change (c.skip _).rest.length < (c.skip _).rest.length
    rw [hnext, Cursor.rest_skip_append_cons hc]
    simp

end Layout

end Taskboard.Yaml
