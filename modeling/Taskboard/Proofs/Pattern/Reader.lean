import Taskboard.Pattern.Reader

/-!
# Proofs/Pattern/Reader — how the reading of a pattern fails

A text that is no pattern is malformed, unless it has a count of repetitions that is too large, or
turns on two flags that exclude each other.  All readers keep what is known of the state while a
text is read (`Within`): what is left is an end of the text, and the flags are named by letters of
it.  `Meets` says of a result what holds if there is one, and that the failure is one of the known
ones if not; readers are put together by `Meets.bind`.

* `Pattern.keepsAll` — all readers keep what is known, by induction on the fuel.
* `Pattern.read_error` — **a text that is not merely malformed** has digits of a large count, or the
  letters of both flags.
-/

namespace Taskboard.Pattern

open ReadState

variable {α β : Type} {cs : List Char} {start : List Flag}

/-- Digits in a text that write a count that is too large. -/
def HasLargeCount (cs : List Char) : Prop :=
  ∃ ds, ds <:+: cs ∧ (∀ d ∈ ds, d.isDigit = true) ∧
    (maxDecimalDigits < ds.length ∨ countLimit ≤ digitsValue ds)

/-- A text has the letter of a flag. -/
def NamesFlag (cs : List Char) (f : Flag) : Prop := ∃ c ∈ cs, flagOf? c = some f

/-- The characters of some tokens. -/
def charsOf (ts : List PatternToken) : List Char := ts.flatMap PatternToken.text

/-- **What is known while a text is read** under some flags. -/
structure Within (cs : List Char) (start : List Flag) (s : ReadState) : Prop where
  rest : charsOf s.tokens <:+ cs
  flags : ∀ f ∈ s.flags, f ∈ start ∨ NamesFlag cs f

/-- A result that is as wanted, or a failure that a reader of a text may have. -/
def Meets (cs : List Char) (P : α → Prop) : Except PatternFault α → Prop
  | .ok a => P a
  | .error e => e = .malformed ∨ e ≠ .flagsExclude ∧ HasLargeCount cs

namespace Meets

variable {P : α → Prop} {Q : β → Prop} {x : Except PatternFault α} {f : α → Except PatternFault β}

theorem malformed : Meets cs P (.error .malformed) := .inl rfl

theorem mono {P' : α → Prop} (h : Meets cs P x) (himp : ∀ a, P a → P' a) : Meets cs P' x := by
  cases x with
  | ok a => exact himp a h
  | error e => exact h

/-- **Readers one after the other.** -/
theorem bind (h : Meets cs P x) (hf : ∀ a, P a → Meets cs Q (f a)) : Meets cs Q (x >>= f) := by
  cases x with
  | ok a => exact hf a h
  | error e => exact h

/-- Readers of which one goes first by a condition, and another one after either. -/
theorem branch {c : Prop} [Decidable c] {y : Except PatternFault α} (hx : c → Meets cs P x)
    (hy : ¬ c → Meets cs P y) (hf : ∀ a, P a → Meets cs Q (f a)) :
    Meets cs Q (if c then x >>= f else y >>= f) := by
  split
  next hc => exact (hx hc).bind hf
  next hc => exact (hy hc).bind hf

theorem map {g : α → β} (h : Meets cs P x) (hg : ∀ a, P a → Q (g a)) : Meets cs Q (x.map g) := by
  cases x with
  | ok a => exact hg a h
  | error e => exact h

end Meets

/-! ## Tokens -/

theorem charsOf_cons (t : PatternToken) (ts : List PatternToken) :
    charsOf (t :: ts) = t.text ++ charsOf ts := List.flatMap_cons

namespace Within

variable {s : ReadState} {t : PatternToken} {ts : List PatternToken}

/-- Going on to an end of what is left. -/
theorem skip (h : Within cs start s) (hts : ts <:+ s.tokens) :
    Within cs start { s with tokens := ts } := by
  obtain ⟨taken, hsplit⟩ := hts
  refine ⟨List.IsSuffix.trans ⟨charsOf taken, ?_⟩ h.rest, h.flags⟩
  rw [charsOf, charsOf, ← List.flatMap_append, hsplit, charsOf]

/-- The characters of the next token stand in the text. -/
theorem mem_of_next (h : Within cs start s) (hs : s.tokens = t :: ts) : ∀ c ∈ t.text, c ∈ cs := by
  intro c hc
  have hmem : c ∈ charsOf s.tokens := hs ▸ List.mem_append_left _ hc
  exact h.rest.subset hmem

/-- One token is taken. -/
theorem advance_tail (h : Within cs start s) :
    Meets cs (fun s' => Within cs start s' ∧ s'.tokens = s.tokens.tail) s.advance := by
  unfold ReadState.advance
  split
  next hs => exact ⟨h, by rw [hs, List.tail_nil]⟩
  next => exact .malformed
  next t ts _ hs => exact ⟨h.skip (hs ▸ List.suffix_cons t ts), by rw [hs, List.tail_cons]⟩

theorem advance (h : Within cs start s) : Meets cs (Within cs start) s.advance :=
  h.advance_tail.mono fun _ hs => hs.1

/-- The next token is taken from the text. -/
theorem take (h : Within cs start s) :
    Meets cs (fun r => (∀ c ∈ r.1.text, c ∈ cs) ∧ Within cs start r.2) s.take := by
  unfold ReadState.take
  split
  next => exact .malformed
  next hs => exact h.advance.map fun r hr => ⟨h.mem_of_next hs, hr⟩

theorem accept (h : Within cs start s) (c : Char) :
    Meets cs (fun r => Within cs start r.2) (s.accept c) := by
  unfold ReadState.accept
  split
  next => exact h.advance.map fun r hr => hr
  next => exact h

theorem expect (h : Within cs start s) (c : Char) : Meets cs (Within cs start) (s.expect c) := by
  unfold ReadState.expect
  split
  next => exact h.advance
  next => exact .malformed

end Within

/-- Characters of a class are taken from the front of what is left. -/
theorem Within.takeWhile (p : Char → Bool) (n : Nat) {s : ReadState} (h : Within cs start s) :
    Meets cs (fun r => Within cs start r.2 ∧ (∀ c ∈ r.1, p c = true) ∧
      r.1 ++ charsOf r.2.tokens = charsOf s.tokens) (s.takeWhile p n) := by
  induction n generalizing s with
  | zero => exact ⟨h, List.forall_mem_nil _, rfl⟩
  | succ n ih =>
    unfold ReadState.takeWhile
    split
    next c hnext =>
      split
      next hc =>
        obtain ⟨ts, hs⟩ := List.head?_eq_some_iff.mp hnext
        refine Meets.bind h.advance_tail fun s' ⟨h', htail⟩ => ?_
        refine Meets.bind (ih h') fun ⟨ds, s''⟩ ⟨hwithin, hds, hsplit⟩ => ?_
        refine ⟨hwithin, List.forall_mem_cons.mpr ⟨hc, hds⟩, ?_⟩
        rw [List.cons_append, hsplit, htail, hs]
        rfl
      next => exact ⟨h, List.forall_mem_nil _, rfl⟩
    next => exact ⟨h, List.forall_mem_nil _, rfl⟩

theorem Within.takeUntil (stop : Char) (fuel : Nat) (acc : List Char) {s : ReadState}
    (h : Within cs start s) :
    Meets cs (fun r => Within cs start r.2) (s.takeUntil stop fuel acc) := by
  induction fuel generalizing acc s with
  | zero => exact .malformed
  | succ fuel ih =>
    refine Meets.bind h.take fun ⟨t, s'⟩ ⟨_, hs'⟩ => ?_
    dsimp only
    split
    next =>
      split
      next => exact .malformed
      next => exact hs'
    next => exact ih _ hs'

theorem meets_checkBehind (n : Nat) (s : ReadState) :
    Meets cs (fun _ => True) (s.checkBehind n) := by
  unfold checkBehind
  split
  next => trivial
  next =>
    split
    next => exact .malformed
    next => trivial

theorem meets_refer (n : Nat) (s : ReadState) : Meets cs (fun _ => True) (s.refer n) := by
  unfold refer
  split
  next => exact .malformed
  next => exact (meets_checkBehind n s).map fun _ _ => trivial

/-! ## Parts -/

section

variable {s : ReadState}

/-- What is known of a reader that keeps what is known. -/
def Keeps (cs : List Char) (start : List Flag) (x : Except PatternFault (α × ReadState)) : Prop :=
  Meets cs (fun r => Within cs start r.2) x

theorem keeps_hexEscape (h : Within cs start s) (count : Nat) :
    Keeps cs start (hexEscape count s) := by
  refine Meets.bind (h.takeWhile _ count) fun ⟨ds, s'⟩ ⟨hs', _⟩ => ?_
  dsimp only
  split
  next =>
    split
    next => exact hs'
    next => exact .malformed
  next => exact .malformed

theorem keeps_codeEscape (h : Within cs start s) (c : Char) :
    Keeps cs start (codeEscape c s) := by
  unfold codeEscape
  split
  next => exact keeps_hexEscape h 2
  next => exact keeps_hexEscape h 4
  next => exact keeps_hexEscape h 8
  next =>
    split
    next => exact .malformed
    next => exact h

theorem keeps_setEscape (h : Within cs start s) (c : Char) : Keeps cs start (setEscape c s) := by
  unfold setEscape
  split
  next => exact h
  next => exact h
  next =>
    split
    next =>
      refine Meets.bind (h.takeWhile isOctal 2) fun ⟨ds, s'⟩ ⟨hs', _⟩ => ?_
      dsimp only
      split
      next => exact .malformed
      next => exact hs'
    next => exact (keeps_codeEscape h c).map fun _ hr => hr

theorem keeps_numberEscape (h : Within cs start s) (c : Char) :
    Keeps cs start (numberEscape c s) := by
  refine Meets.bind (h.takeWhile Char.isDigit 1) fun ⟨second, s'⟩ ⟨hs', _⟩ => ?_
  dsimp only
  split
  next => exact Meets.bind (meets_refer _ s') fun _ _ => hs'
  next d _ =>
    refine Meets.branch (P := fun r : _ × ReadState => Within cs start r.2)
      (fun _ => (hs'.takeWhile isOctal 1).mono fun _ hr => hr.1) (fun _ => hs')
      fun ⟨third, s''⟩ hs'' => ?_
    dsimp only
    split
    next => exact Meets.bind (meets_refer _ s'') fun _ _ => hs''
    next =>
      split
      next => exact .malformed
      next => exact hs''

theorem keeps_escape (h : Within cs start s) (c : Char) : Keeps cs start (escape c s) := by
  unfold escape
  split
  next => exact h
  next => exact h
  next => exact h
  next =>
    split
    next => exact Meets.bind (h.takeWhile isOctal 2) fun ⟨_, _⟩ ⟨hs', _⟩ => hs'
    next =>
      split
      next => exact keeps_numberEscape h c
      next => exact (keeps_codeEscape h c).map fun _ hr => hr

theorem keeps_setItem (h : Within cs start s) (t : PatternToken) :
    Keeps cs start (setItem t s) := by
  cases t with
  | plain c => exact h
  | escaped c => exact keeps_setEscape h c
  | dangling => exact .malformed

theorem keeps_setItems (fuel : Nat) (items : List SetItem) (h : Within cs start s) :
    Keeps cs start (setItems fuel items s) := by
  induction fuel generalizing items s with
  | zero => exact .malformed
  | succ fuel ih =>
    refine Meets.bind h.take fun ⟨t, s1⟩ ⟨_, h1⟩ => ?_
    dsimp only
    split
    next => exact h1
    next =>
      refine Meets.bind (keeps_setItem h1 t) fun ⟨item, s2⟩ h2 => ?_
      refine Meets.bind (h2.accept '-') fun ⟨dash, s3⟩ h3 => ?_
      dsimp only
      split
      next => exact ih _ h3
      next =>
        refine Meets.bind h3.take fun ⟨u, s4⟩ ⟨_, h4⟩ => ?_
        dsimp only
        split
        next => exact h4
        next =>
          refine Meets.bind (keeps_setItem h4 u) fun ⟨last, s5⟩ h5 => ?_
          dsimp only
          split
          next =>
            split
            next => exact .malformed
            next => exact ih _ h5
          next => exact .malformed

/-- **The only failures of another kind**: a count of digits of the text may be too large. -/
theorem meets_countOf {ds : List Char} (hds : ds <:+: cs) (hdigits : ∀ d ∈ ds, d.isDigit = true) :
    Meets cs (fun _ => True) (countOf ds) := by
  unfold countOf
  split
  next => trivial
  next =>
    split
    next hlong => exact .inr ⟨nofun, ds, hds, hdigits, .inl hlong⟩
    next =>
      split
      next hlarge => exact .inr ⟨nofun, ds, hds, hdigits, .inr hlarge⟩
      next => trivial

/-- Digits that are taken stand side by side in the text. -/
theorem Within.takeDigits (h : Within cs start s) (n : Nat) :
    Meets cs (fun r => Within cs start r.2 ∧ r.1 <:+: cs ∧ ∀ d ∈ r.1, d.isDigit = true)
      (s.takeWhile Char.isDigit n) :=
  (h.takeWhile Char.isDigit n).mono fun _ ⟨hs', hdigits, hsplit⟩ =>
    ⟨hs', List.IsInfix.trans ⟨[], _, hsplit⟩ h.rest.isInfix, hdigits⟩

theorem meets_bracedCounts (h : Within cs start s) :
    Meets cs (fun o => ∀ r ∈ o, Within cs start r.2) (bracedCounts s) := by
  unfold bracedCounts
  split
  next => exact nofun
  next =>
    refine Meets.bind (h.takeDigits _) fun ⟨low, s1⟩ ⟨h1, hlow⟩ => ?_
    refine Meets.bind (h1.accept ',') fun ⟨comma, s2⟩ h2 => ?_
    refine Meets.branch (fun _ => h2.takeDigits _) (fun _ => ⟨h2, hlow⟩)
      fun ⟨high, s3⟩ ⟨h3, hhigh⟩ => ?_
    refine Meets.bind (h3.accept '\x7d') fun ⟨closed, s4⟩ h4 => ?_
    dsimp only
    split
    next => exact nofun
    next =>
      refine Meets.bind (meets_countOf hlow.1 hlow.2) fun least _ => ?_
      refine Meets.bind (meets_countOf hhigh.1 hhigh.2) fun most _ => ?_
      split
      next =>
        split
        next => exact .malformed
        next => exact fun r hr => Option.some.inj hr ▸ h4
      next => exact fun r hr => Option.some.inj hr ▸ h4

theorem keeps_repeatLast (h : Within cs start s) (least : Nat) (most : Option Nat)
    (items : List Pattern) : Keeps cs start (repeatLast least most items s) := by
  unfold repeatLast
  split
  next => exact .malformed
  next => exact .malformed
  next => exact .malformed
  next =>
    refine Meets.bind (h.accept '?') fun ⟨reluctant, s1⟩ h1 => ?_
    exact Meets.branch (P := fun r : _ × ReadState => Within cs start r.2) (fun _ => h1)
      (fun _ => h1.accept '+') fun ⟨possessive, s2⟩ h2 => h2

/-! ## Flags -/

/-- All flags of a list are named by letters of a text. -/
def AllNamed (cs : List Char) (on : List Flag) : Prop := ∀ f ∈ on, NamesFlag cs f

theorem meets_flagsOn (fuel : Nat) {on : List Flag} {c : Char} (hon : AllNamed cs on) (hc : c ∈ cs)
    (h : Within cs start s) :
    Meets cs (fun r => AllNamed cs r.1.1 ∧ Within cs start r.2) (flagsOn fuel on c s) := by
  induction fuel generalizing on c s with
  | zero => exact .malformed
  | succ fuel ih =>
    unfold flagsOn
    split
    next => exact .malformed
    next f hf =>
      have hcons : AllNamed cs (f :: on) := List.forall_mem_cons.mpr ⟨⟨c, hc, hf⟩, hon⟩
      split
      next => exact .malformed
      next =>
        refine Meets.bind h.take fun ⟨t, s1⟩ ⟨ht, h1⟩ => ?_
        cases t with
        | plain d =>
          dsimp only
          split
          next => exact ⟨hcons, h1⟩
          next => exact ih hcons (ht d List.mem_cons_self) h1
        | _ => exact .malformed

theorem keeps_flagsOff (fuel : Nat) (off : List Flag) (h : Within cs start s) :
    Keeps cs start (flagsOff fuel off s) := by
  induction fuel generalizing off s with
  | zero => exact .malformed
  | succ fuel ih =>
    refine Meets.bind h.take fun ⟨t, s1⟩ ⟨_, h1⟩ => ?_
    dsimp only
    split
    next =>
      split
      next => exact .malformed
      next => exact h1
    next =>
      split
      next => exact .malformed
      next =>
        split
        next => exact .malformed
        next => exact ih _ h1
    next => exact .malformed

/-- The flags that a part of the notation turns on for the whole pattern are named in the text. -/
def FlagScope.Named (cs : List Char) : FlagScope → Prop
  | .whole on => AllNamed cs on
  | .part _ _ => True

theorem meets_flagScope {c : Char} (hc : c ∈ cs) (h : Within cs start s) :
    Meets cs (fun r => r.1.Named cs ∧ Within cs start r.2) (flagScope c s) := by
  unfold flagScope
  refine Meets.branch (P := fun r : (List Flag × Char) × ReadState =>
    AllNamed cs r.1.1 ∧ Within cs start r.2)
    (fun _ => ⟨List.forall_mem_nil _, h⟩)
    (fun _ => meets_flagsOn _ (List.forall_mem_nil _) hc h) fun ⟨⟨on, stop⟩, s1⟩ ⟨hon, h1⟩ => ?_
  dsimp only
  split
  next => exact ⟨hon, h1⟩
  next =>
    split
    next => exact .malformed
    next =>
      refine Meets.branch (P := fun r : _ × ReadState => Within cs start r.2)
        (fun _ => keeps_flagsOff _ [] h1) (fun _ => h1) fun ⟨off, s2⟩ h2 => ?_
      dsimp only
      split
      next => exact .malformed
      next => exact ⟨trivial, h2⟩

/-! ## Groups -/

theorem meets_conditionGroup (name : List Char) (s : ReadState) :
    Meets cs (fun _ => True) (conditionGroup name s) := by
  unfold conditionGroup
  split
  next =>
    split
    next => trivial
    next => exact .malformed
  next =>
    split
    next => trivial
    next => exact .malformed

theorem keeps_openGroup (h : Within cs start s) (name : Option String) :
    Keeps cs start (openGroup name s) := by
  unfold openGroup
  dsimp only
  split
  next => exact ⟨h.rest, h.flags⟩
  next =>
    split
    next => exact .malformed
    next => exact ⟨h.rest, h.flags⟩

theorem Within.closeGroup (h : Within cs start s) (n : Nat) (p : Pattern) :
    Within cs start (closeGroup n p s) := ⟨h.rest, h.flags⟩

/-- Inside of a look behind, or outside of it again. -/
theorem Within.lookBehind (h : Within cs start s) (c : Prop) [Decidable c] (first : Option Nat) :
    Within cs start (if c then s else { s with behindFrom := first }) := by
  split
  next => exact h
  next => exact ⟨h.rest, h.flags⟩

theorem Within.turnOn {on : List Flag} (h : Within cs start s) (hon : AllNamed cs on) :
    Within cs start { s with flags := s.flags ++ on } :=
  ⟨h.rest, List.forall_mem_append.mpr ⟨h.flags, fun f hf => .inr (hon f hf)⟩⟩

theorem skipLine_suffix (ts : List PatternToken) : skipLine ts <:+ ts := by
  induction ts with
  | nil => exact List.suffix_rfl
  | cons t ts ih =>
    unfold skipLine
    split
    next heq => cases heq
    next heq => exact heq ▸ List.suffix_rfl
    next heq =>
      obtain ⟨rfl, rfl⟩ := List.cons.inj heq
      split
      next => exact List.suffix_cons _ _
      next => exact ih.trans (List.suffix_cons _ _)

theorem meets_skipNote (fuel : Nat) (h : Within cs start s) :
    Meets cs (Within cs start) (skipNote fuel s) := by
  induction fuel generalizing s with
  | zero => exact .malformed
  | succ fuel ih =>
    refine Meets.bind h.take fun ⟨t, s1⟩ ⟨_, h1⟩ => ?_
    dsimp only
    split
    next => exact h1
    next => exact ih h1

/-- The flags that a group's head turns on for the whole pattern are named in the text. -/
def GroupHead.Named (cs : List Char) : GroupHead → Prop
  | .global on => AllNamed cs on
  | _ => True

theorem meets_groupHead (h : Within cs start s) :
    Meets cs (fun r => r.1.Named cs ∧ Within cs start r.2) (groupHead s) := by
  refine Meets.bind (h.accept '?') fun ⟨question, s1⟩ h1 => ?_
  dsimp only
  split
  next => exact ⟨trivial, h1⟩
  next =>
    refine Meets.bind h1.take fun ⟨t, s2⟩ ⟨ht, h2⟩ => ?_
    dsimp only
    split
    next =>
      refine Meets.bind (h2.accept '<') fun ⟨named, s3⟩ h3 => ?_
      refine Meets.branch (P := fun r : _ × ReadState => Within cs start r.2) (fun _ => h3)
        (fun _ => h3.accept '=') fun ⟨reference, s4⟩ h4 => ?_
      dsimp only
      split
      next =>
        refine Meets.bind (h4.takeUntil '>' _ []) fun ⟨name, s5⟩ h5 => ?_
        dsimp only
        split
        next => exact ⟨trivial, h5⟩
        next => exact .malformed
      next =>
        split
        next =>
          refine Meets.bind (h4.takeUntil ')' _ []) fun ⟨name, s5⟩ h5 => ?_
          dsimp only
          split
          next => exact Meets.bind (meets_refer _ s5) fun _ _ => ⟨trivial, h5⟩
          next => exact .malformed
        next => exact .malformed
    next => exact ⟨trivial, h2⟩
    next => exact (meets_skipNote _ h2).map fun _ hs => ⟨trivial, hs⟩
    next => exact ⟨trivial, h2⟩
    next => exact ⟨trivial, h2⟩
    next =>
      refine Meets.bind h2.take fun ⟨u, s3⟩ ⟨_, h3⟩ => ?_
      dsimp only
      split
      next => exact ⟨trivial, h3⟩
      next => exact ⟨trivial, h3⟩
      next => exact .malformed
    next => exact ⟨trivial, h2⟩
    next =>
      refine Meets.bind (h2.takeUntil ')' _ []) fun ⟨name, s3⟩ h3 => ?_
      refine Meets.bind (meets_conditionGroup name s3) fun n _ => ?_
      exact Meets.bind (meets_checkBehind n s3) fun _ _ => ⟨trivial, h3.rest, h3.flags⟩
    next =>
      refine Meets.bind (meets_flagScope (ht _ List.mem_cons_self) h2)
        fun ⟨scope, s3⟩ ⟨hscope, h3⟩ => ?_
      dsimp only
      split
      next => exact ⟨hscope, h3⟩
      next => exact ⟨trivial, h3⟩
    next => exact .malformed

/-! ## The whole -/

/-- All that is read by some fuel keeps what is known. -/
structure KeepsAll (cs : List Char) (start : List Flag) (fuel : Nat) : Prop where
  alternatives : ∀ {s : ReadState}, Within cs start s → ∀ top first verbose,
    Keeps cs start (alternatives fuel top first verbose s)
  sequence : ∀ {s : ReadState}, Within cs start s → ∀ verbose atStart items,
    Keeps cs start (sequence fuel verbose atStart items s)

/-- The inside of a group up to its end, and what is read behind it. -/
theorem keeps_inside {fuel : Nat} (ih : KeepsAll cs start fuel) (h : Within cs start s)
    (verbose : Bool) {f : Pattern × ReadState → ReadState → Except PatternFault (α × ReadState)}
    (hf : ∀ r {s'}, Within cs start s' → Keeps cs start (f r s')) :
    Keeps cs start (do
      let r ← alternatives fuel false true verbose s
      let s' ← r.2.expect ')'
      f r s') :=
  Meets.bind (ih.alternatives h _ _ _) fun r h' => (h'.expect ')').bind fun _ => hf r

/-- How often the last part may stand there, and what is read behind it. -/
theorem keeps_repeated {fuel : Nat} (ih : KeepsAll cs start fuel) (h : Within cs start s)
    (least : Nat) (most : Option Nat) (verbose atStart : Bool) (items : List Pattern) :
    Keeps cs start (do
      let r ← repeatLast least most items s
      sequence fuel verbose atStart r.1 r.2) :=
  Meets.bind (keeps_repeatLast h _ _ _) fun _ h' => ih.sequence h' _ _ _

theorem keeps_alternatives_succ {fuel : Nat} (ih : KeepsAll cs start fuel) (h : Within cs start s)
    (top first verbose : Bool) :
    Keeps cs start (alternatives (fuel + 1) top first verbose s) := by
  unfold alternatives
  refine Meets.bind (ih.sequence h _ _ _) fun ⟨items, s1⟩ h1 => ?_
  refine Meets.bind (h1.accept '|') fun ⟨more, s2⟩ h2 => ?_
  dsimp only
  split
  next => exact Meets.bind (ih.alternatives h2 _ _ _) fun ⟨q, s3⟩ h3 => h3
  next => exact h2

theorem keeps_sequence_succ {fuel : Nat} (ih : KeepsAll cs start fuel) (h : Within cs start s)
    (verbose atStart : Bool) (items : List Pattern) :
    Keeps cs start (sequence (fuel + 1) verbose atStart items s) := by
  unfold sequence
  split
  next => exact h
  next => exact h
  next => exact h
  next t _ _ _ =>
    refine Meets.bind h.advance fun s1 h1 => ?_
    cases t with
    | escaped c => exact Meets.bind (keeps_escape h1 c) fun ⟨p, s2⟩ h2 => ih.sequence h2 _ _ _
    | dangling => exact .malformed
    | plain c =>
      dsimp only
      split
      next => exact ih.sequence h1 _ _ _
      next =>
        split
        next =>
          split
          next => exact .malformed
          next => exact ih.sequence (h1.skip (skipLine_suffix _)) _ _ _
        next =>
          split
          next => exact ih.sequence h1 _ _ _
          next => exact ih.sequence h1 _ _ _
          next => exact ih.sequence h1 _ _ _
          next =>
            refine Meets.bind (h1.accept '^') fun ⟨negated, s2⟩ h2 => ?_
            exact Meets.bind (keeps_setItems _ _ h2) fun ⟨members, s3⟩ h3 => ih.sequence h3 _ _ _
          next => exact keeps_repeated ih h1 _ _ _ _ _
          next => exact keeps_repeated ih h1 _ _ _ _ _
          next => exact keeps_repeated ih h1 _ _ _ _ _
          next =>
            refine Meets.bind (meets_bracedCounts h1) fun o ho => ?_
            split
            next => exact ih.sequence h1 _ _ _
            next least most s2 => exact keeps_repeated ih (ho _ rfl) _ _ _ _ _
          next =>
            refine Meets.bind (meets_groupHead h1) fun ⟨head, s2⟩ ⟨hhead, h2⟩ => ?_
            cases head with
            | note => exact ih.sequence h2 _ _ _
            | again p => exact ih.sequence h2 _ _ _
            | global on =>
              dsimp only
              split
              next => exact .malformed
              next =>
                exact ih.sequence (h2.turnOn hhead) _ _ _
            | capture name =>
              refine Meets.bind (keeps_openGroup h2 name) fun ⟨n, s3⟩ h3 => ?_
              exact keeps_inside ih h3 _ fun r _ h4 => ih.sequence (h4.closeGroup n r.1) _ _ _
            | plain => exact keeps_inside ih h2 _ fun _ _ h3 => ih.sequence h3 _ _ _
            | flags on off => exact keeps_inside ih h2 _ fun _ _ h3 => ih.sequence h3 _ _ _
            | atomic => exact keeps_inside ih h2 _ fun _ _ h3 => ih.sequence h3 _ _ _
            | look ahead negated =>
              refine Meets.bind (ih.alternatives (h2.lookBehind _ _) _ _ _) fun ⟨p, s3⟩ h3 => ?_
              exact Meets.bind ((h3.lookBehind _ _).expect ')') fun s4 h4 => ih.sequence h4 _ _ _
            | condition n =>
              refine Meets.bind (ih.sequence h2 _ _ _) fun ⟨yes, s3⟩ h3 => ?_
              refine Meets.bind (h3.accept '|') fun ⟨more, s4⟩ h4 => ?_
              refine Meets.branch (P := fun r : _ × ReadState => Within cs start r.2)
                (fun _ => ih.sequence h4 _ _ _) (fun _ => h4) fun ⟨no, s5⟩ h5 => ?_
              exact Meets.bind (h5.expect ')') fun s6 h6 => ih.sequence h6 _ _ _
          next => exact ih.sequence h1 _ _ _

theorem keepsAll (fuel : Nat) : KeepsAll cs start fuel := by
  induction fuel with
  | zero => exact ⟨fun _ _ _ _ => .malformed, fun _ _ _ _ => .malformed⟩
  | succ fuel ih => exact ⟨keeps_alternatives_succ ih, keeps_sequence_succ ih⟩

end

/-- A text is the characters of its tokens. -/
theorem charsOf_ofText (cs : List Char) : charsOf (PatternToken.ofText cs) = cs := by
  fun_induction PatternToken.ofText cs with
  | case1 => rfl
  | case2 => rfl
  | case3 c cs ih => rw [charsOf_cons, ih]; rfl
  | case4 c cs _ _ ih => rw [charsOf_cons, ih]; rfl

/-- A flag is on from the start or named in a text. -/
def MayTurnOn (start : List Flag) (cs : List Char) (f : Flag) : Prop := f ∈ start ∨ NamesFlag cs f

/-- **How the reading of a pattern fails.**  A text that is not merely malformed has digits of a
count that is too large, or may turn on both of the flags that exclude each other. -/
theorem read_error {text : String} {e : PatternFault} (h : read start text = .error e) :
    e = .malformed ∨ HasLargeCount text.toList ∨
      MayTurnOn start text.toList .ascii ∧ MayTurnOn start text.toList .unicode := by
  unfold read at h
  dsimp only at h
  split at h
  next => exact .inl (Except.error.inj h).symm
  next =>
    have hstart : Within text.toList start
        ⟨PatternToken.ofText text.toList, start, [], [], none, []⟩ :=
      ⟨(charsOf_ofText _).symm ▸ List.suffix_rfl, fun f hf => .inl hf⟩
    have hkeeps := (keepsAll (3 * (PatternToken.ofText text.toList).length + 3)).alternatives hstart
      true true (start.contains .verbose)
    generalize alternatives _ _ _ _ _ = result at h hkeeps
    cases result with
    | error e' =>
      obtain rfl := Except.error.inj h
      exact hkeeps.imp_right fun hcount => .inl hcount.2
    | ok r =>
      obtain ⟨p, s⟩ := r
      simp only [bind, Except.bind] at h
      split at h
      next hboth =>
        simp only [Bool.and_eq_true, List.contains_iff_mem] at hboth
        exact .inr (.inr ⟨hkeeps.flags _ hboth.1, hkeeps.flags _ hboth.2⟩)
      next =>
        split at h
        next => exact .inl (Except.error.inj h).symm
        next =>
          split at h
          next => exact .inl (Except.error.inj h).symm
          next =>
            split at h
            next => exact .inl (Except.error.inj h).symm
            next => cases h

end Taskboard.Pattern
