import Taskboard.Pattern.Syntax
import Taskboard.Text.Blank
import Taskboard.Text.Digit
import Taskboard.Text.Lowercase
import Taskboard.Text.Uppercase
import Taskboard.Text.Word

/-!
# Pattern/Search — looking for a pattern in a text

`Pattern.match?` tries the ways to match a pattern at a place in order and hands each to the rest of
the work, which may refuse it; `Pattern.occursIn` asks whether there is a match anywhere.

Letters are compared without regard to case by their lower case, where some letters with different
lower cases count as fellows (`caseFellows`).
-/

namespace Taskboard

/-! ## One character -/

namespace CharClass

/-- Whether a character belongs to a class of ASCII characters. -/
def hasAscii (c : Char) : CharClass → Bool
  | .digit => c.isDigit
  | .blank => c = ' ' || (9 ≤ c.toNat && c.toNat ≤ 13)
  | .word => c.isAlphanum || c = '_'

/-- Whether a character of any script belongs to a class. -/
def has (ascii : Bool) (c : Char) (k : CharClass) : Bool :=
  if ascii then k.hasAscii c
  else match k with
    | .digit => isDigit c
    | .blank => isBlank c
    | .word => isWordChar c

end CharClass

/-- The lower case of a code, in ASCII only or in all scripts. -/
def lowerCode (ascii : Bool) (n : Nat) : Nat :=
  if ascii || n < 128 then (if 65 ≤ n && n ≤ 90 then n + 32 else n)
  else if Nat.isValidChar n then (lowerChar (Char.ofNat n)).toNat
  else n

/-- The codes that count as equal to a lower case one, itself included. -/
def fellowCodes (ascii : Bool) (n : Nat) : List Nat :=
  n :: if ascii then [] else caseFellows.filterMap fun (a, b) => if a = n then some b else none

/-- The codes whose lower case is a given one. -/
def lowerSources (ascii : Bool) (n : Nat) : List Nat :=
  let same := if lowerCode ascii n = n then [n] else []
  if ascii then same ++ (if 97 ≤ n && n ≤ 122 then [n - 32] else [])
  else same ++ lowerRuns.filterMap fun (a, b, s, d) =>
    let m : Int := n - d
    if (a : Int) ≤ m && m ≤ b && (m.toNat - a) % s = 0 then some m.toNat else none

/-- The greatest code that one sixteen bit unit holds. -/
def lastOfFirstPlane : Nat := 0xFFFF

namespace SetItem

/-- Whether a range holds a letter that is a lower case one but for its case. -/
def rangeHasLowered (ascii : Bool) (low high n : Nat) : Bool :=
  let first := (fellowCodes ascii n).any fun f =>
    (lowerSources ascii f).any fun m => low ≤ m && m ≤ high && m ≤ lastOfFirstPlane
  let upper := (mapCase upperRuns (Char.ofNat n)).toNat
  first || (lastOfFirstPlane < high && ((low ≤ n && n ≤ high) || (low ≤ upper && upper ≤ high)))

/-- Whether a member of a set holds a character. Without regard to case the lower case of the
character is looked for; a single member above the first plane is then taken as it stands. -/
def has (flags : List Flag) (c : Char) (item : SetItem) : Bool :=
  let ascii := flags.contains .ascii
  if flags.contains .ignoreCase then
    let n := lowerCode ascii c.toNat
    match item with
    | .one m =>
      if lastOfFirstPlane < m then n = m else (fellowCodes ascii (lowerCode ascii m)).contains n
    | .range low high => rangeHasLowered ascii low high n
    | .ofClass k negated => k.has ascii (Char.ofNat n) != negated
  else
    match item with
    | .one m => c.toNat = m
    | .range low high => low ≤ c.toNat && c.toNat ≤ high
    | .ofClass k negated => k.has ascii c != negated

end SetItem

/-- Whether a character is one with a given code, perhaps but for its case. -/
def sameLetter (flags : List Flag) (code : Nat) (c : Char) : Bool :=
  if flags.contains .ignoreCase then
    let ascii := flags.contains .ascii
    (fellowCodes ascii (lowerCode ascii code)).contains (lowerCode ascii c.toNat)
  else c.toNat = code

/-! ## Places -/

/-- A place in a text and the ends of the groups matched so far: mark `2 * n` is the start of group
`n`, and mark `2 * n + 1` its end. -/
structure Place where
  pos : Nat
  marks : List (Nat × Nat)

namespace Place

/-- The place with one more mark at its position. -/
def mark (m : Nat) (p : Place) : Place := { p with marks := (m, p.pos) :: p.marks }

/-- The start and end of what a group has matched. -/
def groupSpan? (n : Nat) (p : Place) : Option (Nat × Nat) :=
  match p.marks.lookup (2 * n), p.marks.lookup (2 * n + 1) with
  | some s, some e => if s ≤ e then some (s, e) else none
  | _, _ => none

end Place

/-- The characters of a text between two positions. -/
def sliceOf (text : Array Char) (start finish : Nat) : List Char :=
  (text.extract start finish).toList

/-- Whether the character at a position is part of a word. -/
def wordAt (ascii : Bool) (text : Array Char) (pos : Nat) : Bool :=
  match text[pos]? with
  | some c => CharClass.word.has ascii c
  | none => false

/-- Whether the character at a position ends a line. -/
def lineEndAt (text : Array Char) (pos : Nat) : Bool := text[pos]? == some '\n'

namespace Anchor

/-- Whether a word begins or ends at a position. -/
def atWordBound (ascii : Bool) (text : Array Char) (pos : Nat) : Bool :=
  (0 < pos && wordAt ascii text (pos - 1)) != wordAt ascii text pos

/-- Whether an anchor stands at a position. In an empty text there are no word bounds, nor places
that are none. -/
def holdsAt (flags : List Flag) (text : Array Char) (pos : Nat) : Anchor → Bool
  | .textStart => pos = 0
  | .textEnd => pos = text.size
  | .lineStart => pos = 0 || (flags.contains .multiline && lineEndAt text (pos - 1))
  | .lineEnd =>
    pos = text.size || (lineEndAt text pos && (flags.contains .multiline || pos + 1 = text.size))
  | .wordBound => text.size ≠ 0 && atWordBound (flags.contains .ascii) text pos
  | .noWordBound => text.size ≠ 0 && !atWordBound (flags.contains .ascii) text pos

end Anchor

/-! ## Repetition -/

/-- The rest of the work at a place: a result, or a refusal. -/
abbrev Rest := Place → Option Place

/-- One way after another to match at a place, each handed to the rest of the work. -/
abbrev Matcher := Place → Rest → Option Place

/-- Whether one more turn is allowed after so many. -/
def mayRepeat (most : Option Nat) (count : Nat) : Bool :=
  match most with
  | some n => count < n
  | none => true

/-- Repeats as often as possible first. A turn beyond the least count is tried only if the last such
turn moved on. -/
def repeatGreedy (step : Matcher) (least : Nat) (most : Option Nat) :
    Nat → Nat → Option Nat → Matcher
  | 0, _, _, p, k => k p
  | fuel + 1, count, last, p, k =>
    if count < least then step p fun q => repeatGreedy step least most fuel (count + 1) last q k
    else if mayRepeat most count && last != some p.pos then
      match step p fun q => repeatGreedy step least most fuel (count + 1) (some p.pos) q k with
      | some r => some r
      | none => k p
    else k p

/-- Repeats as seldom as possible first. -/
def repeatReluctant (step : Matcher) (least : Nat) (most : Option Nat) :
    Nat → Nat → Option Nat → Matcher
  | 0, _, _, p, k => k p
  | fuel + 1, count, last, p, k =>
    if count < least then step p fun q => repeatReluctant step least most fuel (count + 1) last q k
    else
      match k p with
      | some r => some r
      | none =>
        if mayRepeat most count && last != some p.pos then
          step p fun q => repeatReluctant step least most fuel (count + 1) (some p.pos) q k
        else none

/-- Repeats as often as possible, each turn in its first way, and does not come back. -/
def repeatPossessive (step : Matcher) (least : Nat) (most : Option Nat) :
    Nat → Nat → Option Nat → Place → Option Place
  | 0, _, _, p => some p
  | fuel + 1, count, last, p =>
    if count < least then
      match step p some with
      | some q => repeatPossessive step least most fuel (count + 1) last q
      | none => none
    else if mayRepeat most count && last != some p.pos then
      match step p some with
      | some q => repeatPossessive step least most fuel (count + 1) (some p.pos) q
      | none => some p
    else some p

/-! ## Patterns -/

namespace Pattern

/-- Takes one character that passes a test. -/
def takeChar (text : Array Char) (test : Char → Bool) : Matcher := fun p k =>
  match text[p.pos]? with
  | some c => if test c then k { p with pos := p.pos + 1 } else none
  | none => none

/-- Takes the text that a group has matched once more. -/
def takeAgain (text : Array Char) (flags : List Flag) (n : Nat) : Matcher := fun p k =>
  match p.groupSpan? n with
  | none => none
  | some (s, e) =>
    let seen := sliceOf text s e
    let here := sliceOf text p.pos (p.pos + (e - s))
    let fold (c : Char) : Nat :=
      if flags.contains .ignoreCase then lowerCode (flags.contains .ascii) c.toNat else c.toNat
    if seen.map fold = here.map fold then k { p with pos := p.pos + (e - s) } else none

/-- **Matches a pattern at a place**, every way in order, until the rest of the work accepts one. -/
def match? (groups : Nat → Nat × Nat) (text : Array Char) (flags : List Flag) :
    Pattern → Matcher
  | .empty, p, k => k p
  | .char code negated, p, k => takeChar text (fun c => sameLetter flags code c != negated) p k
  | .any, p, k => takeChar text (fun c => flags.contains .dotAll || c ≠ '\n') p k
  | .set negated items, p, k =>
    takeChar text (fun c => items.any (SetItem.has flags c) != negated) p k
  | .anchor a, p, k => if a.holdsAt flags text p.pos then k p else none
  | .seq a b, p, k => match? groups text flags a p fun q => match? groups text flags b q k
  | .alt a b, p, k =>
    match match? groups text flags a p k with
    | some r => some r
    | none => match? groups text flags b p k
  | .repeated least most greed body, p, k =>
    let fuel := least + text.size + 2
    let step : Matcher := fun q r => match? groups text flags body q r
    match greed with
    | .greedy => repeatGreedy step least most fuel 0 none p k
    | .reluctant => repeatReluctant step least most fuel 0 none p k
    | .possessive => (repeatPossessive step least most fuel 0 none p).bind k
  | .group n body, p, k =>
    match? groups text flags body (p.mark (2 * n)) fun q => k (q.mark (2 * n + 1))
  | .scoped on off body, p, k => match? groups text (Flag.combine flags on off) body p k
  | .atomic body, p, k => (match? groups text flags body p some).bind k
  | .look ahead negated body, p, k =>
    let back := if ahead then 0 else (width groups body).1
    let found :=
      if p.pos < back then none
      else match? groups text flags body { p with pos := p.pos - back } some
    match found with
    | some q => if negated then none else k { q with pos := p.pos }
    | none => if negated then k p else none
  | .again n, p, k => takeAgain text flags n p k
  | .ifGroup n yes no, p, k =>
    if (p.groupSpan? n).isSome then match? groups text flags yes p k
    else match? groups text flags no p k

/-- Whether a pattern matches at one of the first positions of a text. -/
def matchesFrom (groups : Nat → Nat × Nat) (text : Array Char) (flags : List Flag) (p : Pattern) :
    Nat → Nat → Bool
  | 0, _ => false
  | fuel + 1, pos =>
    (match? groups text flags p ⟨pos, []⟩ some).isSome
      || matchesFrom groups text flags p fuel (pos + 1)

/-- **Whether a pattern matches somewhere in a text.** -/
def occursIn (groups : Nat → Nat × Nat) (flags : List Flag) (p : Pattern) (s : String) : Bool :=
  let text := s.toList.toArray
  matchesFrom groups text flags p (text.size + 1) 0

end Pattern

end Taskboard
