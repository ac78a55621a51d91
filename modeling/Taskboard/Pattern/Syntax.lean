/-!
# Pattern/Syntax — patterns on text

A `Pattern` is the tree of a pattern: characters and sets of them, anchors, sequences, choices,
repetitions, groups that remember what they matched, looks ahead and behind. `Pattern.width` is the
least and greatest length of what a pattern matches; a look behind needs a fixed one.
-/

namespace Taskboard

-- powers are those of the naturals, also where an importing module knows other ones
attribute [local instance (high)] instPowNat

/-- A switch that changes how a part of a pattern is read or matched. -/
inductive Flag where
  | ignoreCase
  /-- Anchors stand at every line. -/
  | multiline
  /-- The dot matches line ends. -/
  | dotAll
  /-- Blanks and comments in the pattern do not count. -/
  | verbose
  /-- Classes know ASCII only. -/
  | ascii
  /-- Classes know all scripts. -/
  | unicode
  /-- Repetitions are refused. -/
  | template
deriving DecidableEq, Repr

namespace Flag

/-- Whether the flag chooses the alphabet; one part has one such flag. -/
def isAlphabet (f : Flag) : Bool := f = .ascii || f = .unicode

/-- The flags of a part with some turned on and off. -/
def combine (flags on off : List Flag) : List Flag :=
  let kept := if on.any isAlphabet then flags.filter (!·.isAlphabet) else flags
  (kept ++ on).filter (!off.contains ·)

end Flag

/-- A place between characters. -/
inductive Anchor where
  | textStart
  | textEnd
  /-- The start of the text or of a line. -/
  | lineStart
  /-- The end of the text, before a line end at the end of the text, or before any line end. -/
  | lineEnd
  /-- Between a word character and none. -/
  | wordBound
  /-- Not between a word character and none. -/
  | noWordBound
deriving DecidableEq, Repr

/-- A named class of characters. -/
inductive CharClass where
  | digit
  | blank
  | word
deriving DecidableEq, Repr

/-- The blanks that do not count in a pattern with comments. -/
def CharClass.blanks : List Char := [' ', '\t', '\n', '\r', '\x0b', '\x0c']

/-- A member of a set of characters; characters are given by their code. -/
inductive SetItem where
  | one (code : Nat)
  | range (low high : Nat)
  | ofClass (kind : CharClass) (negated : Bool)
deriving DecidableEq, Repr

/-- In which order the counts of a repetition are tried. -/
inductive Greed where
  /-- The most first. -/
  | greedy
  /-- The least first. -/
  | reluctant
  /-- Only the most. -/
  | possessive
deriving DecidableEq, Repr

/-- A pattern. -/
inductive Pattern where
  /-- Matches the empty text. -/
  | empty
  /-- One character, or any other one. -/
  | char (code : Nat) (negated : Bool)
  /-- Any character, of line ends only under `Flag.dotAll`. -/
  | any
  | set (negated : Bool) (items : List SetItem)
  | anchor (kind : Anchor)
  | seq (first second : Pattern)
  | alt (first second : Pattern)
  | repeated (least : Nat) (most : Option Nat) (greed : Greed) (body : Pattern)
  /-- Remembers what the body matches under a number. -/
  | group (number : Nat) (body : Pattern)
  /-- Turns flags on and off for the body. -/
  | scoped (on off : List Flag) (body : Pattern)
  /-- Only the first way to match the body counts. -/
  | atomic (body : Pattern)
  /-- Whether the body matches from here on, or up to here. -/
  | look (ahead negated : Bool) (body : Pattern)
  /-- What a group has matched before. -/
  | again (number : Nat)
  /-- Chooses by whether a group has matched. -/
  | ifGroup (number : Nat) (yes no : Pattern)
deriving Repr

namespace Pattern

/-- A sequence of patterns. -/
def ofList : List Pattern → Pattern
  | [] => .empty
  | [p] => p
  | p :: ps => .seq p (ofList ps)

/-- A length beyond all texts. -/
def unboundedWidth : Nat := 2 ^ (64 : Nat)

/-- The least and the greatest length of what a pattern matches, given those of its groups. -/
def width (groups : Nat → Nat × Nat) : Pattern → Nat × Nat
  | .empty => (0, 0)
  | .char _ _ => (1, 1)
  | .any => (1, 1)
  | .set _ _ => (1, 1)
  | .anchor _ => (0, 0)
  | .seq p q => ((width groups p).1 + (width groups q).1, (width groups p).2 + (width groups q).2)
  | .alt p q =>
    (min (width groups p).1 (width groups q).1, max (width groups p).2 (width groups q).2)
  | .repeated least most _ body =>
    let (low, high) := width groups body
    (low * least,
      match most with
      | some n => high * n
      | none => if high = 0 then 0 else unboundedWidth)
  | .group _ body => width groups body
  | .scoped _ _ body => width groups body
  | .atomic body => width groups body
  | .look _ _ _ => (0, 0)
  | .again n => groups n
  | .ifGroup _ yes no =>
    (min (width groups yes).1 (width groups no).1, max (width groups yes).2 (width groups no).2)

/-- The greatest length that a look behind goes back. -/
def widestLookBehind : Nat := 2 ^ (32 : Nat) - 1

/-- Whether a pattern can be matched under given flags: every look behind has a fixed length, and
nothing repeats where repetitions are refused. -/
def isMatchable (groups : Nat → Nat × Nat) (flags : List Flag) : Pattern → Bool
  | .seq p q => isMatchable groups flags p && isMatchable groups flags q
  | .alt p q => isMatchable groups flags p && isMatchable groups flags q
  | .repeated _ _ _ body => !flags.contains .template && isMatchable groups flags body
  | .group _ body => isMatchable groups flags body
  | .scoped on off body => isMatchable groups (Flag.combine flags on off) body
  | .atomic body => isMatchable groups flags body
  | .look ahead _ body =>
    (ahead || ((width groups body).1 = (width groups body).2
      && (width groups body).1 ≤ widestLookBehind)) && isMatchable groups flags body
  | .ifGroup _ yes no => isMatchable groups flags yes && isMatchable groups flags no
  | _ => true

end Pattern

end Taskboard
