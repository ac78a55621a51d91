import Taskboard.Text.Blank
import Taskboard.Text.Digit
import Taskboard.Text.Word

/-!
# Calendar/DateToken — the tokens of a date written freely

A token is a word, a number, a blank, or any other single character. A word may hold points and a
number may hold a point or, after two digits, a comma; where that leaves more than one decimal
number the token falls apart at its points and commas (`DateToken.pieces`).
-/

namespace Taskboard.DateToken

/-- What a token that is being read has been so far. -/
inductive Shape where
  | word
  | number
  /-- A word with a point. -/
  | pointedWord
  /-- A number with a point or comma. -/
  | pointedNumber
deriving DecidableEq, Repr

/-- A letter, not a digit. -/
def isLetter (c : Char) : Bool := isAlphanumeric c && !isDigit c

/-- The shape after one more character, none if the token ends before it. The token so far stands
last character first. -/
def extend? (shape : Shape) (token : List Char) (c : Char) : Option Shape :=
  match shape with
  | .word => if isLetter c then some .word else if c = '.' then some .pointedWord else none
  | .number =>
    if isDigit c then some .number
    else if c = '.' || (c = ',' && 2 ≤ token.length) then some .pointedNumber
    else none
  | .pointedWord =>
    if c = '.' || isLetter c then some .pointedWord
    else if isDigit c && token.head? = some '.' then some .pointedNumber
    else none
  | .pointedNumber =>
    if c = '.' || isDigit c then some .pointedNumber
    else if isLetter c && token.head? = some '.' then some .pointedWord
    else none

/-- A token that has been read: its shape, whether more was read while it was a word, its characters
last first, and the rest of the text. -/
structure Reading where
  shape : Shape
  sawWord : Bool
  token : List Char
  rest : List Char

/-- Reads on while characters belong to the token. -/
def readOn (shape : Shape) (sawWord : Bool) (token : List Char) : List Char → Reading
  | [] => ⟨shape, sawWord, token, []⟩
  | c :: cs =>
    let saw := sawWord || shape = .word || shape = .pointedWord
    match extend? shape token c with
    | some next => readOn next saw (c :: token) cs
    | none => ⟨shape, saw, token, c :: cs⟩

/-- A text cut at its points and commas, which stand as pieces of their own. -/
def cut (piece : List Char) : List Char → List (List Char)
  | [] => [piece.reverse]
  | c :: cs => if c = '.' || c = ',' then piece.reverse :: [c] :: cut [] cs else cut (c :: piece) cs

/-- The tokens that one reading makes. -/
def Reading.pieces (r : Reading) : List (List Char) :=
  let token := r.token.reverse
  let pointed := r.shape = .pointedWord || r.shape = .pointedNumber
  let first (t : List Char) : List Char :=
    if r.shape = .pointedNumber && !t.contains '.' then t.map fun c => if c = ',' then '.' else c
    else t
  if pointed && (r.sawWord || 1 < token.count '.' || r.token.head? = some '.'
      || r.token.head? = some ',') then
    match cut [] token with
    | [] => []
    | t :: ts => first t :: ts.filter (!·.isEmpty)
  else [first token]

/-- The tokens of a text, with fuel for each. -/
def tokensFrom : Nat → List Char → List (List Char)
  | 0, _ => []
  | _, [] => []
  | fuel + 1, c :: cs =>
    if isLetter c || isDigit c then
      let r := readOn (if isLetter c then .word else .number) false [c] cs
      r.pieces ++ tokensFrom fuel r.rest
    else [if isBlank c then ' ' else c] :: tokensFrom fuel cs

/-- **The tokens of a text.** Null characters do not count. -/
def ofText (s : String) : List String :=
  let cs := s.toList.filter (· ≠ '\x00')
  (tokensFrom cs.length cs).map String.ofList

end Taskboard.DateToken
