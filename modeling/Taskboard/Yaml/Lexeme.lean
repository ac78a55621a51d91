import Taskboard.Json.Reader
import Taskboard.Text.Utf8
import Taskboard.Yaml.Cursor

/-!
# Yaml/Lexeme — the words of a YAML text

Readers for what a token carries: names of anchors, tags, directives, and the scalars in quotes, in
blocks and plain. Each starts at a cursor and gives the cursor behind what it read. Loops take fuel,
for which the length of the rest is enough, as each turn moves on.
-/

namespace Taskboard.Yaml

/-! ## Names, tags and directives -/

/-- The characters of names. -/
def isNameChar (c : Char) : Bool := c.isAlphanum || c = '-' || c = '_'

/-- The characters of tags and of their expansions. -/
def isUriChar (c : Char) : Bool := c.isAlphanum || "-;/?:@&=+$,_.!~*'()[]%".toList.contains c

/-- The characters that may follow the name of an anchor. -/
def endsAnchor (c : Char) : Bool := isBlankOrBreak c || "?:,]\x7d%@`".toList.contains c

/-- A space or a line break. -/
def isSpaceOrBreak (c : Char) : Bool := c = ' ' || isBreak c

/-- The name of an anchor after its sign. -/
def readAnchor (c : Cursor) : Read (String × Cursor) :=
  let (name, c) := c.forward.span isNameChar
  if name.isEmpty || !c.endOrHas endsAnchor 0 then malformed else .ok (String.ofList name, c)

/-- The bytes that escapes with a percent sign write. -/
def readEscapedBytes : Nat → Cursor → Read (List UInt8 × Cursor)
  | 0, _ => malformed
  | fuel + 1, c =>
    if c.nextIs '%' then
      let c := c.forward
      match Json.hexNumber? (c.rest.take 2) with
      | some n =>
        if c.rest.length < 2 then malformed
        else (readEscapedBytes fuel (c.skip 2)).map fun (bs, c) => (UInt8.ofNat n :: bs, c)
      | none => malformed
    else .ok ([], c)

/-- The characters of a tag, with escapes for others. -/
def readUriFrom : Nat → Cursor → Read (List Char × Cursor)
  | 0, _ => malformed
  | fuel + 1, c =>
    let (part, c) := c.span fun ch => isUriChar ch && ch ≠ '%'
    if c.nextIs '%' then
      (readEscapedBytes (c.rest.length + 1) c).bind fun (bs, c) =>
        match decodeChars? bs with
        | some cs => (readUriFrom fuel c).map fun (more, c) => (part ++ cs ++ more, c)
        | none => malformed
    else .ok (part, c)

/-- The characters of a tag; there must be some. -/
def readUri (c : Cursor) : Read (List Char × Cursor) :=
  if c.nextHas isUriChar then readUriFrom (c.rest.length + 1) c else malformed

/-- The handle of a tag: an exclamation mark, or a name between two. -/
def readHandle (c : Cursor) : Read (List Char × Cursor) :=
  if !c.nextIs '!' then malformed
  else
    let c := c.forward
    if c.nextIs ' ' then .ok (['!'], c)
    else
      let (name, c) := c.span isNameChar
      if c.nextIs '!' then .ok ('!' :: name ++ ['!'], c.forward) else malformed

/-- A tag: a handle, perhaps none, and the rest. -/
structure TagName where
  handle : Option String
  suffix : String
deriving DecidableEq, Repr

/-- A tag after its exclamation mark. -/
def readTag (c : Cursor) : Read (TagName × Cursor) :=
  let read : Read (TagName × Cursor) :=
    if c.peekAt? 1 = some '<' then
      (readUri (c.skip 2)).bind fun (uri, c) =>
        if c.nextIs '>' then .ok (⟨none, String.ofList uri⟩, c.forward) else malformed
    else if c.endOrHas isBlankOrBreak 1 then .ok (⟨none, "!"⟩, c.forward)
    else
      let word := (c.rest.drop 1).takeWhile fun ch => !isSpaceOrBreak ch
      (if word.contains '!' then readHandle c else .ok (['!'], c.forward)).bind fun (handle, c) =>
        (readUri c).map fun (uri, c) => (⟨some (String.ofList handle), String.ofList uri⟩, c)
  read.bind fun (tag, c) => if c.endOrHas isSpaceOrBreak 0 then .ok (tag, c) else malformed

/-- A directive. -/
inductive Directive where
  | version (major : Nat)
  | tag (handle expansion : String)
  | other
deriving DecidableEq, Repr

/-- Past blanks and a comment to the end of the line and over it. -/
def skipToNextLine (c : Cursor) : Read Cursor :=
  let c := (c.skipWhile (· = ' ')).skipComment
  if c.endOrHas isBreak 0 then .ok c.lineBreak.2 else malformed

/-- A number of a version. -/
def readVersionPart (c : Cursor) : Read (Nat × Cursor) :=
  let (ds, c) := c.span Char.isDigit
  if ds.isEmpty then malformed else .ok (digitsValue ds, c)

/-- A directive after its percent sign. -/
def readDirective (c : Cursor) : Read (Directive × Cursor) :=
  let (name, c) := c.forward.span isNameChar
  if name.isEmpty || !c.endOrHas isSpaceOrBreak 0 then malformed
  else
    let spaces (c : Cursor) : Cursor := c.skipWhile (· = ' ')
    let body : Read (Directive × Cursor) :=
      if name = "YAML".toList then
        (readVersionPart (spaces c)).bind fun (major, c) =>
          if c.nextIs '.' then
            (readVersionPart c.forward).bind fun (_, c) =>
              if c.endOrHas isSpaceOrBreak 0 then .ok (.version major, c) else malformed
          else malformed
      else if name = "TAG".toList then
        (readHandle (spaces c)).bind fun (handle, c) =>
          if c.nextIs ' ' then
            (readUri (spaces c)).bind fun (uri, c) =>
              if c.endOrHas isSpaceOrBreak 0 then
                .ok (.tag (String.ofList handle) (String.ofList uri), c)
              else malformed
          else malformed
      else .ok (.other, c.skipWhile (!isBreak ·))
    body.bind fun (d, c) => (skipToNextLine c).map (d, ·)

/-! ## Scalars in quotes -/

/-- The characters that an escaped one stands for. -/
def escaped? : Char → Option Char
  | '0' => some '\x00'
  | 'a' => some '\x07'
  | 'b' => some '\x08'
  | 't' => some '\t'
  | '\t' => some '\t'
  | 'n' => some '\n'
  | 'v' => some '\x0b'
  | 'f' => some '\x0c'
  | 'r' => some '\r'
  | 'e' => some '\x1b'
  | ' ' => some ' '
  | '"' => some '"'
  | '\\' => some '\\'
  | '/' => some '/'
  | 'N' => some '\x85'
  | '_' => some '\xa0'
  | 'L' => some '\u2028'
  | 'P' => some '\u2029'
  | _ => none

/-- How many hexadecimal digits follow an escape by number. -/
def escapeDigits? : Char → Option Nat
  | 'x' => some 2
  | 'u' => some 4
  | 'U' => some 8
  | _ => none

/-- A character by its number; a half of a character becomes the replacement character. -/
def charOfCode (n : Nat) : Read Char :=
  if Nat.isValidChar n then .ok (Char.ofNat n)
  else if n < 0x110000 then .ok '\ufffd'
  else .error (.badValue .noSuchCharacter)

/-- The line breaks inside a quoted scalar with the blanks at the starts of the lines; the mark of a
document may not stand there. -/
def quotedBreaks : Nat → Cursor → Read (List Char × Cursor)
  | 0, _ => malformed
  | fuel + 1, c =>
    if c.atDocumentMark then malformed
    else
      let c := c.skipWhile fun ch => ch = ' ' || ch = '\t'
      if c.nextHas isBreak then
        let (br, c) := c.lineBreak
        (quotedBreaks fuel c).map fun (more, c) => (br ++ more, c)
      else .ok ([], c)

/-- What a line break and the breaks behind it become: one alone a space, of more the first falls
away. -/
def foldBreaks (first more : List Char) : List Char :=
  if first ≠ ['\n'] then first ++ more else if more.isEmpty then [' '] else more

/-- Blanks inside a quoted scalar, perhaps with a line break behind them. -/
def quotedBlanks (c : Cursor) : Read (List Char × Cursor) :=
  let (blanks, c) := c.span fun ch => ch = ' ' || ch = '\t'
  match c.peek? with
  | none => malformed
  | some ch =>
    if isBreak ch then
      let (br, c) := c.lineBreak
      (quotedBreaks (c.rest.length + 1) c).map fun (more, c) => (foldBreaks br more, c)
    else .ok (blanks, c)

/-- One escape after its backslash. -/
def quotedEscape (c : Cursor) : Read (List Char × Cursor) :=
  match c.peek? with
  | none => malformed
  | some ch =>
    match escaped? ch, escapeDigits? ch with
    | some r, _ => .ok ([r], c.forward)
    | none, some n =>
      let ds := c.forward.rest.take n
      match Json.hexNumber? ds with
      | some code =>
        if ds.length < n then malformed
        else (charOfCode code).map fun r => ([r], c.skip (n + 1))
      | none => malformed
    | none, none =>
      if isBreak ch then
        let c := c.lineBreak.2
        quotedBreaks (c.rest.length + 1) c
      else malformed

/-- The characters that a quoted scalar takes as they are. -/
def isQuotedPlain (ch : Char) : Bool := ch ≠ '\'' && ch ≠ '"' && ch ≠ '\\' && !isBlankOrBreak ch

/-- A scalar in quotes from behind its first quote to behind its last. -/
def readQuotedFrom (double : Bool) : Nat → Cursor → Read (List Char × Cursor)
  | 0, _ => malformed
  | fuel + 1, c =>
    let (part, c) := c.span isQuotedPlain
    let go (taken : List Char) (c : Cursor) : Read (List Char × Cursor) :=
      (readQuotedFrom double fuel c).map fun (more, c) => (part ++ taken ++ more, c)
    match c.peek? with
    | none => malformed
    | some ch =>
      if !double && ch = '\'' && c.peekAt? 1 = some '\'' then go ['\''] (c.skip 2)
      else if ch = (if double then '"' else '\'') then .ok (part, c.forward)
      else if double && ch = '\\' then (quotedEscape c.forward).bind fun (cs, c) => go cs c
      else if isBlankOrBreak ch then (quotedBlanks c).bind fun (cs, c) => go cs c
      else go [ch] c.forward

/-- A scalar in quotes. -/
def readQuoted (double : Bool) (c : Cursor) : Read (String × Cursor) :=
  (readQuotedFrom double (c.rest.length + 1) c.forward).map fun (cs, c) => (String.ofList cs, c)

/-! ## Scalars in blocks -/

/-- What happens to the line breaks at the end of a block. -/
inductive Chomping where
  | strip
  | clip
  | keep
deriving DecidableEq, Repr

/-- The sign of the chomping. -/
def chomping? : Option Char → Option Chomping
  | some '+' => some .keep
  | some '-' => some .strip
  | _ => none

/-- A digit that gives the indentation of a block, which is not zero. -/
def readIncrement (c : Cursor) : Read (Option Nat × Cursor) :=
  match c.peek? with
  | some ch =>
    if ch = '0' then malformed
    else if ch.isDigit then .ok (some (ch.toNat - 48), c.forward)
    else .ok (none, c)
  | none => .ok (none, c)

/-- The signs in the head of a block, in either order. -/
def blockSigns (c : Cursor) : Read (Chomping × Option Nat × Cursor) :=
  let read : Read (Chomping × Option Nat × Cursor) :=
    match chomping? c.peek? with
    | some chomp => (readIncrement c.forward).map fun (n, c) => (chomp, n, c)
    | none =>
      (readIncrement c).map fun (n, c) =>
        match n, chomping? c.peek? with
        | some k, some chomp => (chomp, some k, c.forward)
        | n, _ => (.clip, n, c)
  read.bind fun (chomp, n, c) =>
    if c.endOrHas isSpaceOrBreak 0 then .ok (chomp, n, c) else malformed

/-- The line breaks at the start of a block, and the greatest indentation among its blank lines and
the first other one. -/
def blockStart : Nat → Nat → Cursor → List Char × Nat × Cursor
  | 0, deepest, c => ([], deepest, c)
  | fuel + 1, deepest, c =>
    if c.nextIs ' ' then
      let c := c.forward
      blockStart fuel (max deepest c.column) c
    else if c.nextHas isBreak then
      let (br, c) := c.lineBreak
      let (more, deepest, c) := blockStart fuel deepest c
      (br ++ more, deepest, c)
    else ([], deepest, c)

/-- Past spaces up to a column. -/
def skipIndent (indent : Nat) (c : Cursor) : Cursor :=
  c.skip ((c.rest.takeWhile (· = ' ')).length.min (indent - c.column))

/-- The line breaks between two lines of a block. -/
def blockBreaks (indent : Nat) : Nat → Cursor → List Char × Cursor
  | 0, c => ([], c)
  | fuel + 1, c =>
    let c := skipIndent indent c
    if c.nextHas isBreak then
      let (br, c) := c.lineBreak
      let (more, c) := blockBreaks indent fuel c
      (br ++ more, c)
    else ([], c)

/-- The lines of a block. The breaks before the next line are given; folding makes a space of a
single break between two lines that do not start with a blank. -/
def blockLines (folded : Bool) (chomp : Chomping) (indent : Nat) :
    Nat → List Char → Cursor → List Char × Cursor
  | 0, _, c => ([], c)
  | fuel + 1, breaks, c =>
    let startsBlank (c : Cursor) : Bool := c.nextHas fun ch => ch = ' ' || ch = '\t'
    let leading := !startsBlank c
    let (line, c) := c.span (!isBreak ·)
    let (br, c) := c.lineBreak
    let (next, c) := blockBreaks indent (c.rest.length + 1) c
    if c.column = indent && c.peek?.isSome then
      let joint :=
        if folded && br = ['\n'] && leading && !startsBlank c then
          if next.isEmpty then [' '] else []
        else br
      let (more, c) := blockLines folded chomp indent fuel next c
      (breaks ++ line ++ joint ++ more, c)
    else
      let tail := match chomp with
        | .strip => []
        | .clip => br
        | .keep => br ++ next
      (breaks ++ line ++ tail, c)

/-- A scalar in a block, inside a given indentation. -/
def readBlock (folded : Bool) (parent : Nat) (c : Cursor) : Read (String × Cursor) :=
  (blockSigns c.forward).bind fun (chomp, increment, c) =>
    (skipToNextLine c).map fun c =>
      let least := max 1 parent
      let fuel := c.rest.length + 1
      let (breaks, indent, c) :=
        match increment with
        | none =>
          let (breaks, deepest, c) := blockStart fuel 0 c
          (breaks, max least deepest, c)
        | some n =>
          let indent := least + n - 1
          let (breaks, c) := blockBreaks indent fuel c
          (breaks, indent, c)
      if c.column = indent && c.peek?.isSome then
        let (cs, c) := blockLines folded chomp indent fuel breaks c
        (String.ofList cs, c)
      else (String.ofList (if chomp = .keep then breaks else []), c)

/-! ## Plain scalars -/

/-- A plain scalar: its text, and whether a line break was crossed behind its last word. -/
structure PlainRead where
  text : List Char
  cursor : Cursor
  brokeLine : Bool

/-- The line breaks behind a word of a plain scalar; none where the mark of a document ends it. -/
def plainBreaks : Nat → Cursor → Option (List Char × Cursor)
  | 0, c => some ([], c)
  | fuel + 1, c =>
    let c := c.skipWhile (· = ' ')
    if c.nextHas isBreak then
      let (br, c) := c.lineBreak
      if c.atDocumentMark then none
      else (plainBreaks fuel c).map fun (more, c) => (br ++ more, c)
    else some ([], c)

/-- How many characters of a plain scalar stand here without a blank. -/
def plainWord (inFlow : Bool) : List Char → Nat
  | [] => 0
  | ch :: rest =>
    let stops :=
      isBlankOrBreak ch
        || (ch = ':' && rest.head?.all fun d =>
            isBlankOrBreak d || (inFlow && ",[]\x7b\x7d".toList.contains d))
        || (inFlow && ",?[]\x7b\x7d".toList.contains ch)
    if stops then 0 else plainWord inFlow rest + 1

/-- Past a line break that a mark of a document may follow, and past the blank lines behind it. -/
def plainJoint (c : Cursor) : List Char × Cursor × Bool :=
  let (blanks, c) := c.span (· = ' ')
  if c.nextHas isBreak then
    let (br, c) := c.lineBreak
    if c.atDocumentMark then ([], c, true)
    else match plainBreaks (c.rest.length + 1) c with
      | none => ([], skipBreaks (c.rest.length + 1) c, true)
      | some (more, c) => (foldBreaks br more, c, true)
  else (blanks, c, false)
where
  /-- Past blank lines up to the mark of a document. -/
  skipBreaks : Nat → Cursor → Cursor
    | 0, c => c
    | fuel + 1, c =>
      let c := c.skipWhile (· = ' ')
      if c.nextHas isBreak then
        let c := c.lineBreak.2
        if c.atDocumentMark then c else skipBreaks fuel c
      else c

/-- A plain scalar; in blocks its further lines must be indented. -/
def readPlainFrom (inFlow : Bool) (indent : Nat) (joint : List Char) (broke : Bool) :
    Nat → Cursor → PlainRead
  | 0, c => ⟨[], c, broke⟩
  | fuel + 1, c =>
    if c.nextIs '#' then ⟨[], c, broke⟩
    else
      let n := plainWord inFlow c.rest
      if n = 0 then ⟨[], c, broke⟩
      else
        let word := joint ++ c.rest.take n
        let (next, c, brokeNext) := plainJoint (c.skip n)
        if next.isEmpty || c.nextIs '#' || (!inFlow && c.column < indent) then
          ⟨word, c, brokeNext⟩
        else
          let r := readPlainFrom inFlow indent next brokeNext fuel c
          { r with text := word ++ r.text }

/-- A plain scalar. -/
def readPlain (inFlow : Bool) (indent : Nat) (c : Cursor) : PlainRead :=
  readPlainFrom inFlow indent [] false (c.rest.length + 1) c

end Taskboard.Yaml
