import Taskboard.Json.Reader
import Taskboard.Pattern.Syntax
import Taskboard.Text.Word

/-!
# Pattern/Reader — reading the notation of patterns

`Pattern.read` reads a whole pattern together with the flags that it turns on for all of itself and
the widths of its groups. The text is taken as tokens: a character, or a backslash with the
character after it. A backslash at the end is an error as soon as the token before it is taken.

The readers below share a state and take fuel; every call takes a token or goes one group down, so
three times the number of tokens is enough.
-/

namespace Taskboard

-- powers are those of the naturals, also where an importing module knows other ones
attribute [local instance (high)] instPowNat

/-- Why a text is no pattern. -/
inductive PatternFault where
  /-- The notation is broken. -/
  | malformed
  /-- A count of repetitions is too large. -/
  | countTooLarge
  /-- A count of repetitions has too many digits. -/
  | countTooLong
  /-- Flags that exclude each other were turned on for the whole pattern. -/
  | flagsExclude
deriving DecidableEq, Repr

/-- A token of a pattern. -/
inductive PatternToken where
  | plain (c : Char)
  | escaped (c : Char)
  /-- A backslash at the end of the text. -/
  | dangling
deriving DecidableEq, Repr

namespace PatternToken

/-- The tokens of a text. -/
def ofText : List Char → List PatternToken
  | [] => []
  | ['\\'] => [.dangling]
  | '\\' :: c :: cs => .escaped c :: ofText cs
  | c :: cs => .plain c :: ofText cs

/-- How many characters a token has. -/
def text : PatternToken → List Char
  | .plain c => [c]
  | .escaped c => ['\\', c]
  | .dangling => ['\\']

end PatternToken

namespace Pattern

/-- What is known while a pattern is read. -/
structure ReadState where
  tokens : List PatternToken
  /-- The flags of the whole pattern. -/
  flags : List Flag
  /-- The widths of the groups so far, none while a group is open. -/
  groups : List (Option (Nat × Nat))
  names : List (String × Nat)
  /-- The first group that a look behind in progress may not refer to. -/
  behindFrom : Option Nat
  /-- The groups that conditions refer to. -/
  conditions : List Nat

/-- A reader of a part of a pattern. -/
abbrev PatternReader (α : Type) := ReadState → Except PatternFault (α × ReadState)

namespace ReadState

/-- The token that comes next. -/
def next? (s : ReadState) : Option PatternToken := s.tokens.head?

/-- Whether a plain character comes next. -/
def nextIs (c : Char) (s : ReadState) : Bool := s.next? == some (.plain c)

/-- The number of the next group. -/
def groupCount (s : ReadState) : Nat := s.groups.length + 1

/-- The widths of a closed group. -/
def groupWidth? (s : ReadState) (n : Nat) : Option (Nat × Nat) :=
  if n = 0 then none else (s.groups[n - 1]?).join

/-- The widths of all groups, zero for those that are none. -/
def widthOf (s : ReadState) (n : Nat) : Nat × Nat := (s.groupWidth? n).getD (0, 0)

/-- The state after the next token; a dangling backslash behind it is an error. -/
def advance (s : ReadState) : Except PatternFault ReadState :=
  match s.tokens with
  | [] => .ok s
  | _ :: .dangling :: _ => .error .malformed
  | _ :: ts => .ok { s with tokens := ts }

/-- The next token, which must be there, and the state after it. -/
def take (s : ReadState) : Except PatternFault (PatternToken × ReadState) :=
  match s.tokens with
  | [] => .error .malformed
  | t :: _ => s.advance.map (t, ·)

/-- Takes a plain character if it comes next. -/
def accept (c : Char) (s : ReadState) : Except PatternFault (Bool × ReadState) :=
  if s.nextIs c then s.advance.map (true, ·) else .ok (false, s)

/-- Takes a plain character that must come next. -/
def expect (c : Char) (s : ReadState) : Except PatternFault ReadState :=
  if s.nextIs c then s.advance else .error .malformed

/-- Takes plain characters of a class, at most so many. -/
def takeWhile (p : Char → Bool) : Nat → ReadState → Except PatternFault (List Char × ReadState)
  | 0, s => .ok ([], s)
  | n + 1, s =>
    match s.next? with
    | some (.plain c) =>
      if p c then do
        let s ← s.advance
        let (cs, s) ← takeWhile p n s
        pure (c :: cs, s)
      else .ok ([], s)
    | _ => .ok ([], s)

/-- Takes the characters up to a plain one, which is taken too; there must be some. -/
def takeUntil (stop : Char) : Nat → List Char → ReadState →
    Except PatternFault (List Char × ReadState)
  | 0, _, _ => .error .malformed
  | fuel + 1, acc, s => do
    let (t, s) ← s.take
    if t = .plain stop then
      if acc.isEmpty then .error .malformed else pure (acc, s)
    else takeUntil stop fuel (acc ++ t.text) s

/-- Refuses a reference from inside a look behind to a group of the same look behind. -/
def checkBehind (n : Nat) (s : ReadState) : Except PatternFault Unit :=
  match s.behindFrom with
  | none => .ok ()
  | some first => if (s.groupWidth? n).isNone || first ≤ n then .error .malformed else .ok ()

/-- A reference to a closed group. -/
def refer (n : Nat) (s : ReadState) : Except PatternFault Pattern :=
  if (s.groupWidth? n).isNone then .error .malformed
  else (s.checkBehind n).map fun _ => .again n

end ReadState

open ReadState

/-! ## Escapes -/

/-- The characters that an escaped letter stands for. -/
def escapeLetter? : Char → Option Nat
  | 'a' => some 7
  | 'b' => some 8
  | 'f' => some 12
  | 'n' => some 10
  | 'r' => some 13
  | 't' => some 9
  | 'v' => some 11
  | '\\' => some 92
  | _ => none

/-- The class that an escaped letter stands for. -/
def escapeClass? : Char → Option SetItem
  | 'd' => some (.ofClass .digit false)
  | 'D' => some (.ofClass .digit true)
  | 's' => some (.ofClass .blank false)
  | 'S' => some (.ofClass .blank true)
  | 'w' => some (.ofClass .word false)
  | 'W' => some (.ofClass .word true)
  | _ => none

/-- The anchor that an escaped letter stands for. -/
def escapeAnchor? : Char → Option Anchor
  | 'A' => some .textStart
  | 'Z' => some .textEnd
  | 'b' => some .wordBound
  | 'B' => some .noWordBound
  | _ => none

/-- Whether a character is a digit of base eight. -/
def isOctal (c : Char) : Bool := '0' ≤ c && c ≤ '7'

/-- The number that digits of base eight write. -/
def octalValue (cs : List Char) : Nat := cs.foldl (fun n c => n * 8 + (c.toNat - 48)) 0

/-- A code written by a fixed count of hexadecimal digits. -/
def hexEscape (count : Nat) : PatternReader Nat := fun s => do
  let (ds, s) ← s.takeWhile (fun c => (Json.hexValue? c).isSome) count
  match Json.hexNumber? ds with
  | some n => if ds.length = count && n < 0x110000 then pure (n, s) else .error .malformed
  | none => .error .malformed

/-- An escape that writes a code by number, or any character that is no letter or digit. -/
def codeEscape (c : Char) : PatternReader Nat := fun s =>
  match c with
  | 'x' => hexEscape 2 s
  | 'u' => hexEscape 4 s
  | 'U' => hexEscape 8 s
  | _ => if c.isAlphanum then .error .malformed else .ok (c.toNat, s)

/-- An escape inside a set. -/
def setEscape (c : Char) : PatternReader SetItem := fun s =>
  match escapeLetter? c, escapeClass? c with
  | some n, _ => .ok (.one n, s)
  | none, some item => .ok (item, s)
  | none, none =>
    if isOctal c then do
      let (ds, s) ← s.takeWhile isOctal 2
      let n := octalValue (c :: ds)
      if 0o377 < n then .error .malformed else pure (.one n, s)
    else (codeEscape c s).map fun (n, s) => (.one n, s)

/-- A number after a backslash: three digits of base eight are a code, else it is a group. -/
def numberEscape (c : Char) : PatternReader Pattern := fun s => do
  let (second, s) ← s.takeWhile Char.isDigit 1
  match second with
  | [] =>
    let p ← s.refer (c.toNat - 48)
    pure (p, s)
  | d :: _ =>
    let (third, s) ← if isOctal c && isOctal d then s.takeWhile isOctal 1 else pure ([], s)
    match third with
    | [] =>
      let p ← s.refer (digitsValue [c, d])
      pure (p, s)
    | _ =>
      let n := octalValue (c :: d :: third)
      if 0o377 < n then .error .malformed else pure (.char n false, s)

/-- An escape outside sets. -/
def escape (c : Char) : PatternReader Pattern := fun s =>
  match escapeAnchor? c, escapeClass? c, escapeLetter? c with
  | some a, _, _ => .ok (.anchor a, s)
  | none, some item, _ => .ok (.set false [item], s)
  | none, none, some n => .ok (.char n false, s)
  | none, none, none =>
    if c = '0' then do
      let (ds, s) ← s.takeWhile isOctal 2
      pure (.char (octalValue ds) false, s)
    else if c.isDigit then numberEscape c s
    else (codeEscape c s).map fun (n, s) => (.char n false, s)

/-! ## Sets -/

/-- A member of a set by its token. -/
def setItem (t : PatternToken) : PatternReader SetItem := fun s =>
  match t with
  | .plain c => .ok (.one c.toNat, s)
  | .escaped c => setEscape c s
  | .dangling => .error .malformed

/-- The members of a set up to its closing bracket, which counts as a member at the start. -/
def setItems : Nat → List SetItem → PatternReader (List SetItem)
  | 0, _, _ => .error .malformed
  | fuel + 1, items, s => do
    let (t, s) ← s.take
    if t = .plain ']' && !items.isEmpty then pure (items, s)
    else
      let (item, s) ← setItem t s
      let (dash, s) ← s.accept '-'
      if !dash then setItems fuel (items ++ [item]) s
      else
        let (t, s) ← s.take
        if t = .plain ']' then pure (items ++ [item, .one '-'.toNat], s)
        else
          let (last, s) ← setItem t s
          match item, last with
          | .one low, .one high =>
            if high < low then .error .malformed
            else setItems fuel (items ++ [.range low high]) s
          | _, _ => .error .malformed

/-- A set; one with a single character is that character. -/
def setOf (negated : Bool) (items : List SetItem) : Pattern :=
  match items.eraseDups with
  | [.one n] => .char n negated
  | kept => .set negated kept

/-! ## Repetitions -/

/-- The counts of repetition from here on are too large. -/
def countLimit : Nat := 2 ^ (32 : Nat) - 1

/-- A count of repetitions by its digits, none if there are no digits. -/
def countOf (ds : List Char) : Except PatternFault (Option Nat) :=
  if ds.isEmpty then .ok none
  else if maxDecimalDigits < ds.length then .error .countTooLong
  else if countLimit ≤ digitsValue ds then .error .countTooLarge
  else .ok (some (digitsValue ds))

/-- The least and greatest count in braces; none if the braces hold no counts. -/
def bracedCounts (s : ReadState) :
    Except PatternFault (Option ((Nat × Option Nat) × ReadState)) :=
  if s.nextIs '\x7d' then .ok none
  else do
    let n := s.tokens.length
    let (low, s) ← s.takeWhile Char.isDigit n
    let (comma, s) ← s.accept ','
    let (high, s) ← if comma then s.takeWhile Char.isDigit n else pure (low, s)
    let (closed, s) ← s.accept '\x7d'
    if !closed then pure none
    else
      let least ← countOf low
      let most ← countOf high
      match most with
      | some m => if m < least.getD 0 then .error .malformed else pure ()
      | none => pure ()
      pure (some ((least.getD 0, most), s))

/-- The last item read so far, repeated; anchors and repetitions are not repeated. -/
def repeatLast (least : Nat) (most : Option Nat) (items : List Pattern) :
    PatternReader (List Pattern) := fun s =>
  match items with
  | [] => .error .malformed
  | .anchor _ :: _ => .error .malformed
  | .repeated _ _ _ _ :: _ => .error .malformed
  | item :: before => do
    let (reluctant, s) ← s.accept '?'
    let (possessive, s) ← if reluctant then pure (false, s) else s.accept '+'
    let greed : Greed :=
      if reluctant then .reluctant else if possessive then .possessive else .greedy
    pure (.repeated least most greed item :: before, s)

/-! ## Flags -/

/-- The flag of a letter. -/
def flagOf? : Char → Option Flag
  | 'i' => some .ignoreCase
  | 'm' => some .multiline
  | 's' => some .dotAll
  | 'x' => some .verbose
  | 'a' => some .ascii
  | 'u' => some .unicode
  | 't' => some .template
  | _ => none

/-- The flags to turn on from a letter, and the character that ends them. -/
def flagsOn : Nat → List Flag → Char → PatternReader (List Flag × Char)
  | 0, _, _, _ => .error .malformed
  | fuel + 1, on, c, s =>
    match flagOf? c with
    | none => .error .malformed
    | some f =>
      if f.isAlphabet && on.any (fun g => g.isAlphabet && g ≠ f) then .error .malformed
      else do
        let (t, s) ← s.take
        match t with
        | .plain d =>
          if d = ')' || d = '-' || d = ':' then pure ((f :: on, d), s)
          else flagsOn fuel (f :: on) d s
        | _ => .error .malformed

/-- The flags to turn off up to a colon. -/
def flagsOff : Nat → List Flag → PatternReader (List Flag)
  | 0, _, _ => .error .malformed
  | fuel + 1, off, s => do
    let (t, s) ← s.take
    match t with
    | .plain ':' => if off.isEmpty then .error .malformed else pure (off, s)
    | .plain c =>
      match flagOf? c with
      | none => .error .malformed
      | some f => if f.isAlphabet then .error .malformed else flagsOff fuel (f :: off) s
    | _ => .error .malformed

/-- What a list of flags in a group's head does. -/
inductive FlagScope where
  /-- Turns flags on for the whole pattern. -/
  | whole (on : List Flag)
  /-- Turns flags on and off for the group. -/
  | part (on off : List Flag)

/-- The flags in a group's head, from their first character on. -/
def flagScope (c : Char) : PatternReader FlagScope := fun s => do
  let fuel := s.tokens.length + 1
  let ((on, stop), s) ← if c = '-' then pure (([], '-'), s) else flagsOn fuel [] c s
  if stop = ')' then pure (.whole on, s)
  else if on.contains .template then .error .malformed
  else
    let (off, s) ← if stop = '-' then flagsOff fuel [] s else pure ([], s)
    if off.contains .template || on.any (off.contains ·) then .error .malformed
    else pure (.part on off, s)

/-! ## Groups -/

/-- Whether a text names a group: a word that does not start with a digit. -/
def isGroupName (cs : List Char) : Bool :=
  match cs with
  | [] => false
  | c :: _ => cs.all isWordChar && !isDigit c

/-- The group that a condition refers to. -/
def conditionGroup (name : List Char) (s : ReadState) : Except PatternFault Nat :=
  if isGroupName name then
    match s.names.lookup (String.ofList name) with
    | some n => .ok n
    | none => .error .malformed
  else
    match readInt (String.ofList name) with
    | .ok (.ofNat (n + 1)) => .ok (n + 1)
    | _ => .error .malformed

/-- Opens the next group, perhaps under a name, which must be new. -/
def openGroup (name : Option String) : PatternReader Nat := fun s =>
  let n := s.groupCount
  let s := { s with groups := s.groups ++ [none] }
  match name with
  | none => .ok (n, s)
  | some t =>
    if (s.names.lookup t).isSome then .error .malformed
    else .ok (n, { s with names := (t, n) :: s.names })

/-- Notes the width of a group that ends. -/
def closeGroup (n : Nat) (p : Pattern) (s : ReadState) : ReadState :=
  { s with groups := s.groups.set (n - 1) (some (p.width s.widthOf)) }

/-- Skips the rest of a line in a pattern with comments. -/
def skipLine : List PatternToken → List PatternToken
  | [] => []
  | [.dangling] => [.dangling]
  | t :: ts => if t = .plain '\n' then ts else skipLine ts

/-- Skips a comment in parentheses. -/
def skipNote : Nat → ReadState → Except PatternFault ReadState
  | 0, _ => .error .malformed
  | fuel + 1, s => do
    let (t, s) ← s.take
    if t = .plain ')' then pure s else skipNote fuel s

/-- The kinds of groups by their heads. -/
inductive GroupHead where
  | capture (name : Option String)
  | plain
  | atomic
  | flags (on off : List Flag)
  /-- Flags for the whole pattern; no group follows. -/
  | global (on : List Flag)
  | look (ahead negated : Bool)
  | note
  | again (p : Pattern)
  | condition (group : Nat)

/-- The head of a group after its parenthesis. -/
def groupHead : PatternReader GroupHead := fun s => do
  let (question, s) ← s.accept '?'
  if !question then pure (.capture none, s)
  else
    let fuel := s.tokens.length + 1
    let (t, s) ← s.take
    match t with
    | .plain 'P' =>
      let (named, s) ← s.accept '<'
      let (reference, s) ← if named then pure (false, s) else s.accept '='
      if named then
        let (name, s) ← s.takeUntil '>' fuel []
        if isGroupName name then pure (.capture (some (String.ofList name)), s)
        else .error .malformed
      else if reference then
        let (name, s) ← s.takeUntil ')' fuel []
        match s.names.lookup (String.ofList name) with
        | some n =>
          let p ← s.refer n
          pure (.again p, s)
        | none => .error .malformed
      else .error .malformed
    | .plain ':' => pure (.plain, s)
    | .plain '#' => (skipNote fuel s).map fun s => (.note, s)
    | .plain '=' => pure (.look true false, s)
    | .plain '!' => pure (.look true true, s)
    | .plain '<' =>
      let (t, s) ← s.take
      match t with
      | .plain '=' => pure (.look false false, s)
      | .plain '!' => pure (.look false true, s)
      | _ => .error .malformed
    | .plain '>' => pure (.atomic, s)
    | .plain '(' =>
      let (name, s) ← s.takeUntil ')' fuel []
      let n ← conditionGroup name s
      s.checkBehind n
      pure (.condition n, { s with conditions := n :: s.conditions })
    | .plain c =>
      let (scope, s) ← flagScope c s
      match scope with
      | .whole on => pure (.global on, s)
      | .part on off => pure (.flags on off, s)
    | _ => .error .malformed

/-! ## The whole -/

mutual
/-- Alternatives up to a closing parenthesis or the end. At the top the flags of the whole pattern
say anew for each whether comments count. -/
def alternatives : Nat → Bool → Bool → Bool → PatternReader Pattern
  | 0, _, _, _, _ => .error .malformed
  | fuel + 1, top, first, verbose, s => do
    let (items, s) ← sequence fuel verbose (top && first) [] s
    let p := ofList items
    let (more, s) ← s.accept '|'
    if more then
      let verbose := if top then s.flags.contains .verbose else verbose
      let (q, s) ← alternatives fuel top false verbose s
      pure (.alt p q, s)
    else pure (p, s)

/-- The items of one alternative; those read so far stand last first. -/
def sequence : Nat → Bool → Bool → List Pattern → PatternReader (List Pattern)
  | 0, _, _, _, _ => .error .malformed
  | fuel + 1, verbose, start, items, s =>
    match s.next? with
    | none => .ok (items.reverse, s)
    | some (.plain '|') => .ok (items.reverse, s)
    | some (.plain ')') => .ok (items.reverse, s)
    | some t => do
      let s ← s.advance
      match t with
      | .escaped c =>
        let (p, s) ← escape c s
        sequence fuel verbose start (p :: items) s
      | .plain c =>
        if verbose && CharClass.blanks.contains c then sequence fuel verbose start items s
        else if verbose && c = '#' then
          match skipLine s.tokens with
          | [.dangling] => .error .malformed
          | ts => sequence fuel verbose start items { s with tokens := ts }
        else match c with
        | '.' => sequence fuel verbose start (.any :: items) s
        | '^' => sequence fuel verbose start (.anchor .lineStart :: items) s
        | '$' => sequence fuel verbose start (.anchor .lineEnd :: items) s
        | '[' =>
          let (negated, s) ← s.accept '^'
          let (members, s) ← setItems (s.tokens.length + 1) [] s
          sequence fuel verbose start (setOf negated members :: items) s
        | '*' =>
          let (items, s) ← repeatLast 0 none items s
          sequence fuel verbose start items s
        | '+' =>
          let (items, s) ← repeatLast 1 none items s
          sequence fuel verbose start items s
        | '?' =>
          let (items, s) ← repeatLast 0 (some 1) items s
          sequence fuel verbose start items s
        | '\x7b' =>
          match ← bracedCounts s with
          | none => sequence fuel verbose start (.char c.toNat false :: items) s
          | some ((least, most), s) =>
            let (items, s) ← repeatLast least most items s
            sequence fuel verbose start items s
        | '(' =>
          let (head, s) ← groupHead s
          match head with
          | .note => sequence fuel verbose start items s
          | .again p => sequence fuel verbose start (p :: items) s
          | .global on =>
            if !start || !items.isEmpty then .error .malformed
            else
              let s := { s with flags := s.flags ++ on }
              sequence fuel (s.flags.contains .verbose) start items s
          | .capture name =>
            let (n, s) ← openGroup name s
            let (p, s) ← alternatives fuel false true verbose s
            let s ← s.expect ')'
            sequence fuel verbose start (.group n p :: items) (closeGroup n p s)
          | .plain =>
            let (p, s) ← alternatives fuel false true verbose s
            let s ← s.expect ')'
            sequence fuel verbose start (.scoped [] [] p :: items) s
          | .flags on off =>
            let inner := (verbose || on.contains .verbose) && !off.contains .verbose
            let (p, s) ← alternatives fuel false true inner s
            let s ← s.expect ')'
            sequence fuel verbose start (.scoped on off p :: items) s
          | .atomic =>
            let (p, s) ← alternatives fuel false true verbose s
            let s ← s.expect ')'
            sequence fuel verbose start (.atomic p :: items) s
          | .look ahead negated =>
            let outer := s.behindFrom
            let s := if ahead || outer.isSome then s
              else { s with behindFrom := some s.groupCount }
            let (p, s) ← alternatives fuel false true verbose s
            let s := if ahead || outer.isSome then s else { s with behindFrom := none }
            let s ← s.expect ')'
            sequence fuel verbose start (.look ahead negated p :: items) s
          | .condition n =>
            let (yes, s) ← sequence fuel verbose false [] s
            let (more, s) ← s.accept '|'
            let (no, s) ← if more then sequence fuel verbose false [] s else pure ([], s)
            let s ← s.expect ')'
            sequence fuel verbose start (.ifGroup n (ofList yes) (ofList no) :: items) s
        | _ => sequence fuel verbose start (.char c.toNat false :: items) s
      | .dangling => .error .malformed
end

/-- A pattern that can be searched for. -/
structure Compiled where
  pattern : Pattern
  flags : List Flag
  /-- The widths of the groups. -/
  groups : Nat → Nat × Nat

/-- **Reads a whole pattern** under given flags. -/
def read (flags : List Flag) (text : String) : Except PatternFault Compiled := do
  let tokens := PatternToken.ofText text.toList
  if tokens = [.dangling] then .error .malformed
  else
    let start : ReadState := ⟨tokens, flags, [], [], none, []⟩
    let (p, s) ← alternatives (3 * tokens.length + 3) true true (flags.contains .verbose) start
    if s.flags.contains .ascii && s.flags.contains .unicode then .error .flagsExclude
    else if !s.tokens.isEmpty then .error .malformed
    else if s.conditions.any (s.groupCount ≤ ·) then .error .malformed
    else if !p.isMatchable s.widthOf s.flags then .error .malformed
    else pure ⟨p, s.flags, s.widthOf⟩

end Pattern

end Taskboard
