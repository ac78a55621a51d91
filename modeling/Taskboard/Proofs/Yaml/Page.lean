import Mathlib.Data.List.SplitBy
import Taskboard.Proofs.Yaml.Quoted

/-!
# Proofs/Yaml/Page — what stands on a page

What an operation adds to a page is said by `Page.Adds`, without regard to columns; a page on which
a line has begun is busy (`Page.Busy`).

* `Page.indentTo_busy` — on a busy page a new line is begun and indented.
* `writeRuns_laid` — **the runs of a text are written one after another**, a run of breaks with an
  indented line behind it, and single spaces perhaps as line breaks (`Laid`).
-/

namespace Taskboard.Yaml

namespace Page

variable {p q r : Page} {e e' : List Char}

/-- What an operation adds to a page. -/
def Adds (p : Page) (e : List Char) (q : Page) : Prop := q.written = e.reverse ++ p.written

/-- A word stands on the line, and nothing behind it. -/
structure Busy (p : Page) : Prop where
  fresh : p.fresh = false
  spaced : p.spaced = false

theorem Adds.refl (p : Page) : p.Adds [] p := rfl

theorem Adds.trans (h : p.Adds e q) (h' : q.Adds e' r) : p.Adds (e ++ e') r := by
  rw [Adds, h', h, List.reverse_append, List.append_assoc]

theorem adds_put (cs : List Char) (p : Page) : p.Adds cs (p.put cs) := rfl

theorem adds_breakLine (c : Char) (p : Page) : p.Adds [c] (p.breakLine c) := rfl

/-- The space before a word, where one is needed. -/
def lead (p : Page) : List Char := if p.spaced then [] else [' ']

theorem Busy.lead (h : p.Busy) : p.lead = [' '] := by rw [Page.lead, h.spaced]; rfl

theorem adds_word (s : String) (p : Page) : p.Adds (p.lead ++ s.toList) (p.word s) := by
  unfold Adds word lead put
  split <;> simp

theorem busy_word (s : String) (p : Page) : (p.word s).Busy := ⟨rfl, rfl⟩

theorem adds_close (s : String) (p : Page) : p.Adds s.toList (p.close s) := rfl

theorem busy_close (s : String) (p : Page) : (p.close s).Busy := ⟨rfl, rfl⟩

/-! ## Indentation -/

/-- A page at a column of a line that holds only indentation. -/
structure Margin (n : Nat) (p : Page) : Prop where
  fresh : p.fresh = true
  spaced : p.spaced = true
  column : p.column = n

theorem Margin.lead (h : p.Margin n) : p.lead = [] := by rw [Page.lead, h.spaced]; rfl

theorem margin_empty : Margin 0 .empty := ⟨rfl, rfl, rfl⟩

/-- Spaces up to a column of an empty line. -/
theorem indentTo_margin {n : Nat} (h : p.Margin 0) :
    p.Adds (List.replicate n ' ') (p.indentTo n) ∧ (p.indentTo n).Margin n := by
  obtain ⟨written, column, spaced, fresh⟩ := p
  obtain ⟨rfl, rfl, rfl⟩ := h
  rcases Nat.eq_zero_or_pos n with rfl | hn
  · exact ⟨rfl, rfl, rfl, rfl⟩
  · simp [indentTo, Adds, put, hn]
    exact ⟨rfl, rfl, rfl⟩

/-- **A busy page goes on in a new line**, which is indented. -/
theorem indentTo_busy {n : Nat} (h : p.fresh = false) :
    p.Adds ('\n' :: List.replicate n ' ') (p.indentTo n) ∧ (p.indentTo n).Margin n := by
  have hline : p.indentTo n = (p.breakLine '\n').indentTo n := by
    simp [indentTo, h, breakLine]
  obtain ⟨hadds, hmargin⟩ := indentTo_margin (p := p.breakLine '\n') (n := n) ⟨rfl, rfl, rfl⟩
  rw [hline]
  exact ⟨(adds_breakLine '\n' p).trans hadds, hmargin⟩

/-- A page behind a mark of one character at a column. -/
structure Marked (n : Nat) (p : Page) : Prop where
  fresh : p.fresh = true
  spaced : p.spaced = false
  column : p.column = n + 1

theorem Marked.lead {n : Nat} (h : p.Marked n) : p.lead = [' '] := by rw [Page.lead, h.spaced]; rfl

theorem Margin.mark {n : Nat} (h : p.Margin n) {s : String} (hs : s.toList.length = 1) :
    p.Adds s.toList (p.mark s) ∧ (p.mark s).Marked n := by
  refine ⟨?_, h.fresh, rfl, ?_⟩
  · have := adds_word s p
    rwa [h.lead] at this
  · simp [Page.mark, word, h.spaced, put, h.column, hs]

/-- Behind a mark, the next level begins in the same line. -/
theorem Marked.indentTo {n : Nat} (h : p.Marked n) :
    p.Adds [' '] (p.indentTo (n + levelWidth)) ∧
      (p.indentTo (n + levelWidth)).Margin (n + levelWidth) := by
  obtain ⟨written, column, spaced, fresh⟩ := p
  obtain ⟨rfl, rfl, rfl⟩ := h
  simp [Page.indentTo, Adds, put, levelWidth]
  exact ⟨rfl, rfl, rfl⟩

end Page

/-! ## The runs of a text -/

/-- What a character is in a text that is written without escapes. -/
inductive Kind where
  | space
  | lineBreak
  | word
deriving DecidableEq

def kindOf (c : Char) : Kind :=
  if c = ' ' then .space else if isWrittenBreak c then .lineBreak else .word

theorem kindOf_eq_space {c : Char} : kindOf c = .space ↔ c = ' ' := by
  unfold kindOf
  split
  · simp [*]
  · split <;> simp [*]

theorem kindOf_eq_lineBreak {c : Char} : kindOf c = .lineBreak ↔ isWrittenBreak c = true := by
  unfold kindOf
  split
  next h =>
    have : isWrittenBreak c = false := by rw [h]; decide
    simp [this]
  next => split <;> simp [*]

theorem kindOf_eq_word {c : Char} : kindOf c = .word ↔ c ≠ ' ' ∧ isWrittenBreak c = false := by
  unfold kindOf
  split
  · simp [*]
  · split <;> simp [*]

/-- **Runs of one kind each**, of which neighbours are of different kinds. -/
inductive Runs : List (List Char) → Prop
  | nil : Runs []
  | cons {run : List Char} {runs : List (List Char)} (kind : Kind) (hne : run ≠ [])
      (hrun : ∀ c ∈ run, kindOf c = kind) (hnext : ∀ c ∈ runs.flatten.head?, kindOf c ≠ kind)
      (h : Runs runs) : Runs (run :: runs)

/-- Two characters belong to one run if they are of one kind. -/
theorem sameKind_iff {a b : Char} :
    (decide (a = ' ') == decide (b = ' ') && isWrittenBreak a == isWrittenBreak b) = true
      ↔ kindOf a = kindOf b := by
  unfold kindOf
  by_cases ha : a = ' '
  · by_cases hb : b = ' '
    · simp [ha, hb]
    · simp only [ha, hb]
      cases isWrittenBreak b <;> simp
  · by_cases hb : b = ' '
    · simp only [ha, hb]
      cases isWrittenBreak a <;> simp
    · simp only [ha, hb]
      cases isWrittenBreak a <;> cases isWrittenBreak b <;> simp

theorem kindOf_chain {a : Char} {run : List Char}
    (h : (a :: run).IsChain fun x y => kindOf x = kindOf y) :
    ∀ c ∈ a :: run, kindOf c = kindOf a := by
  induction run generalizing a with
  | nil => simp
  | cons b run ih =>
    obtain ⟨hab, hrun⟩ := List.isChain_cons_cons.1 h
    refine List.forall_mem_cons.2 ⟨rfl, fun c hc => ?_⟩
    rw [ih hrun c hc, hab]

theorem runs_of_chain {runs : List (List Char)} (hne : ∀ run ∈ runs, run ≠ [])
    (hruns : ∀ run ∈ runs, run.IsChain fun x y => kindOf x = kindOf y)
    (hnext : runs.IsChain fun a b => ∃ ha hb, kindOf (a.getLast ha) ≠ kindOf (b.head hb)) :
    Runs runs := by
  induction runs with
  | nil => exact .nil
  | cons run runs ih =>
    obtain ⟨hrun, hrest⟩ := List.forall_mem_cons.1 hne
    obtain ⟨hchain, hchains⟩ := List.forall_mem_cons.1 hruns
    obtain ⟨hhead, htail⟩ := List.isChain_cons.1 hnext
    obtain ⟨a, run, rfl⟩ := List.exists_cons_of_ne_nil hrun
    refine .cons (kindOf a) hrun (kindOf_chain hchain) ?_ (ih hrest hchains htail)
    cases runs with
    | nil => simp
    | cons next runs =>
      obtain ⟨ha, hb, hkinds⟩ := hhead next rfl
      obtain ⟨b, next, rfl⟩ := List.exists_cons_of_ne_nil hb
      rw [kindOf_chain hchain _ (List.getLast_mem ha)] at hkinds
      rintro c ⟨rfl⟩
      exact hkinds.symm

theorem flatten_runsOf (cs : List Char) : (runsOf cs).flatten = cs := List.flatten_splitBy _ cs

/-- **The runs of a text alternate in kind.** -/
theorem runs_runsOf (cs : List Char) : Runs (runsOf cs) := by
  refine runs_of_chain (fun run h => List.ne_nil_of_mem_splitBy h) (fun run h => ?_) ?_
  · exact (List.isChain_of_mem_splitBy h).imp fun a b hab => sameKind_iff.1 hab
  · refine (List.isChain_getLast_head_splitBy _ cs).imp ?_
    rintro a b ⟨ha, hb, hab⟩
    exact ⟨ha, hb, fun h => Bool.false_ne_true (hab.symm.trans (sameKind_iff.2 h))⟩

/-! ## Runs on the page -/

/-- **The ways to put runs down**: as they are, single spaces between others as line breaks, and
line breaks with an indented line behind them. -/
inductive Laid (indent : Nat) (quote : Char → List Char) (flows : Bool) :
    Bool → List (List Char) → List Char → Prop
  | nil (first : Bool) : Laid indent quote flows first [] []
  | kept {first : Bool} {run : List Char} {runs : List (List Char)} {f : List Char}
      (hrun : run.any isWrittenBreak = false) (h : Laid indent quote flows false runs f) :
      Laid indent quote flows first (run :: runs) (run.flatMap quote ++ f)
  | folded {runs : List (List Char)} {f : List Char} (hflows : flows = true) (hne : runs ≠ [])
      (h : Laid indent quote flows false runs f) :
      Laid indent quote flows false ([' '] :: runs) ('\n' :: (List.replicate indent ' ' ++ f))
  | broken {first : Bool} {run : List Char} {runs : List (List Char)} {f : List Char}
      (hrun : run.any isWrittenBreak = true) (h : Laid indent quote flows false runs f) :
      Laid indent quote flows first (run :: runs)
        (writtenBreaks run ++ (List.replicate indent ' ' ++ f))

theorem adds_breaks (run : List Char) (p : Page) :
    p.Adds run (run.foldl (fun p c => p.breakLine c) p)
      ∧ (run ≠ [] → (run.foldl (fun p c => p.breakLine c) p).Margin 0) := by
  induction run generalizing p with
  | nil => exact ⟨.refl p, fun h => absurd rfl h⟩
  | cons c run ih =>
    obtain ⟨hadds, hmargin⟩ := ih (p.breakLine c)
    refine ⟨(Page.adds_breakLine c p).trans hadds, fun _ => ?_⟩
    cases run with
    | nil => exact ⟨rfl, rfl, rfl⟩
    | cons d run => exact hmargin (List.cons_ne_nil d run)

/-- A run of line breaks, with an indented line behind it. -/
theorem adds_run_breaks {indent : Nat} {run : List Char} (hne : run ≠ []) (p : Page) :
    p.Adds (writtenBreaks run ++ List.replicate indent ' ')
      ((run.foldl (fun p c => p.breakLine c)
        (if run.head? = some '\n' then p.breakLine '\n' else p)).indentTo indent) := by
  have hbreaks : p.Adds (writtenBreaks run) (run.foldl (fun p c => p.breakLine c)
      (if run.head? = some '\n' then p.breakLine '\n' else p)) := by
    unfold writtenBreaks
    split
    · exact (Page.adds_breakLine '\n' p).trans (adds_breaks run _).1
    · exact (adds_breaks run p).1
  exact hbreaks.trans (Page.indentTo_margin ((adds_breaks run _).2 hne)).1

/-- **The runs of a text are put down one after another.** -/
theorem writeRuns_laid (indent : Nat) (flows : Bool) (quote : Char → List Char) (first : Bool)
    (runs : List (List Char)) {p : Page} (hp : p.Busy) :
    ∃ f, Laid indent quote flows first runs f ∧ p.Adds f (writeRuns indent flows quote first runs p)
      ∧ (writeRuns indent flows quote first runs p).Busy := by
  induction runs generalizing first p with
  | nil => exact ⟨[], .nil first, .refl p, hp⟩
  | cons run runs ih =>
    have hgo {e : List Char} {q : Page} (hq : p.Adds e q) :
        ∃ f, Laid indent quote flows false runs f
          ∧ p.Adds (e ++ f) (writeRuns indent flows quote false runs
            { q with spaced := false, fresh := false })
          ∧ (writeRuns indent flows quote false runs
            { q with spaced := false, fresh := false }).Busy := by
      obtain ⟨f, hlaid, hadds, hbusy⟩ := ih false (p := { q with spaced := false, fresh := false })
        ⟨rfl, rfl⟩
      exact ⟨f, hlaid, Page.Adds.trans hq hadds, hbusy⟩
    rw [writeRuns]
    dsimp only
    split
    next hbreak =>
      have hne : run ≠ [] := by
        rintro rfl
        simp at hbreak
      obtain ⟨f, hlaid, hadds, hbusy⟩ := hgo (adds_run_breaks hne p)
      rw [List.append_assoc] at hadds
      exact ⟨_, .broken hbreak hlaid, hadds, hbusy⟩
    next hbreak =>
      split
      next hfold =>
        simp only [Bool.and_eq_true, decide_eq_true_eq, Bool.not_eq_true',
          List.isEmpty_eq_false_iff]
          at hfold
        obtain ⟨⟨⟨⟨rfl, hflows⟩, rfl⟩, hne⟩, -⟩ := hfold
        obtain ⟨f, hlaid, hadds, hbusy⟩ := hgo (Page.indentTo_busy hp.fresh).1
        exact ⟨_, .folded hflows hne hlaid, hadds, hbusy⟩
      next =>
        obtain ⟨f, hlaid, hadds, hbusy⟩ := hgo (Page.adds_put (run.flatMap quote) p)
        exact ⟨_, .kept (Bool.not_eq_true _ ▸ hbreak) hlaid, hadds, hbusy⟩

end Taskboard.Yaml
