import Taskboard.Value.Number

/-!
# Json/Reader — reading JSON documents

`Json.read` reads one document: a value with blanks around it and nothing else. Beyond the standard
it takes `NaN`, `Infinity` and `-Infinity`. A repeated key keeps its first place and its last value,
whole numbers are exact, and a whole number too long to convert is a failure of its own.

The readers below take the rest of the text and give a value with what follows it. Their fuel is the
length of the text: each step takes a character at least.
-/

namespace Taskboard.Json

/-- Why a text is no JSON document. -/
inductive ReadFault where
  /-- The text is not in the notation. -/
  | malformed
  /-- A whole number has too many digits. -/
  | tooManyDigits
deriving DecidableEq, Repr

/-- The blanks between tokens. -/
def isJsonBlank (c : Char) : Bool := c = ' ' || c = '\t' || c = '\n' || c = '\r'

def skipBlanks (cs : List Char) : List Char := cs.dropWhile isJsonBlank

/-- The value of a hexadecimal digit. -/
def hexValue? (c : Char) : Option Nat :=
  if c.isDigit then some (c.toNat - 48)
  else if 'a' ≤ c ∧ c ≤ 'f' then some (c.toNat - 87)
  else if 'A' ≤ c ∧ c ≤ 'F' then some (c.toNat - 55)
  else none

/-- The value of a run of hexadecimal digits, none if one of them is not. -/
def hexNumber? (cs : List Char) : Option Nat :=
  cs.foldl (fun acc c => acc.bind fun n => (hexValue? c).map (n * 16 + ·)) (some 0)

/-- The number that four hexadecimal digits write, and the rest. -/
def fourHex? : List Char → Option (Nat × List Char)
  | a :: b :: c :: d :: rest => (hexNumber? [a, b, c, d]).map (·, rest)
  | _ => none

/-- The character of one escape, and the rest; two escapes may write the two halves of one
character, and a half alone becomes the replacement character. -/
def readEscape? : List Char → Option (Char × List Char)
  | '"' :: r => some ('"', r)
  | '\\' :: r => some ('\\', r)
  | '/' :: r => some ('/', r)
  | 'b' :: r => some ('\x08', r)
  | 'f' :: r => some ('\x0c', r)
  | 'n' :: r => some ('\n', r)
  | 'r' :: r => some ('\r', r)
  | 't' :: r => some ('\t', r)
  | 'u' :: r =>
    match fourHex? r with
    | none => none
    | some (n, rest) =>
      if 0xD800 ≤ n ∧ n < 0xDC00 then
        match rest with
        | '\\' :: 'u' :: r2 =>
          match fourHex? r2 with
          | some (m, rest2) =>
            if 0xDC00 ≤ m ∧ m < 0xE000 then
              some (Char.ofNat (0x10000 + (n - 0xD800) * 1024 + (m - 0xDC00)), rest2)
            else some ('\ufffd', rest)
          | none => some ('\ufffd', rest)
        | _ => some ('\ufffd', rest)
      else if 0xDC00 ≤ n ∧ n < 0xE000 then some ('\ufffd', rest)
      else some (Char.ofNat n, rest)
  | _ => none

/-- The text up to the closing quote, and the rest. -/
def readString? : Nat → List Char → Option (List Char × List Char)
  | 0, _ => none
  | _, [] => none
  | _, '"' :: r => some ([], r)
  | fuel + 1, '\\' :: r =>
    match readEscape? r with
    | none => none
    | some (c, r2) => (readString? fuel r2).map fun (cs, rest) => (c :: cs, rest)
  | fuel + 1, c :: r =>
    if c.toNat < 32 then none else (readString? fuel r).map fun (cs, rest) => (c :: cs, rest)

/-- The fraction of a number, if one follows: a point with digits. -/
def takeFraction : List Char → List Char × List Char
  | '.' :: r =>
    let ds := r.takeWhile Char.isDigit
    if ds.isEmpty then ([], '.' :: r) else ('.' :: ds, r.dropWhile Char.isDigit)
  | r => ([], r)

/-- The exponent of a number, if one follows. -/
def takeExponent (cs : List Char) : List Char × List Char :=
  let e := leadingExponent cs
  if e.all fun c => c.toNat < 128 then (e, cs.drop e.length) else ([], cs)

/-- An unsigned number, and the rest. -/
def readNumber (negative : Bool) (cs : List Char) : Except ReadFault (Value × List Char) :=
  let (whole, rest) := match cs with
    | '0' :: r => (['0'], r)
    | _ => (cs.takeWhile Char.isDigit, cs.dropWhile Char.isDigit)
  if whole.isEmpty then .error .malformed
  else
    let (fraction, rest) := takeFraction rest
    let (exponent, rest) := takeExponent rest
    if fraction.isEmpty && exponent.isEmpty then
      if maxDecimalDigits < whole.length then .error .tooManyDigits
      else
        let n : Int := digitsValue whole
        .ok (.int (if negative then -n else n), rest)
    else match readDecimal? (whole ++ fraction ++ exponent) with
      | some (digits, scale) => .ok (.real (.ofDecimal negative digits scale), rest)
      | none => .error .malformed

/-- The rest after a word, if the text starts with it. -/
def dropWord? (word : String) (cs : List Char) : Option (List Char) :=
  if word.toList.isPrefixOf cs then some (cs.drop word.length) else none

/-- A value that is no list, map or text. -/
def readAtom (cs : List Char) : Except ReadFault (Value × List Char) :=
  match dropWord? "null" cs with
  | some r => .ok (.null, r)
  | none => match dropWord? "true" cs with
  | some r => .ok (.bool true, r)
  | none => match dropWord? "false" cs with
  | some r => .ok (.bool false, r)
  | none => match dropWord? "NaN" cs with
  | some r => .ok (.real .nan, r)
  | none => match dropWord? "Infinity" cs with
  | some r => .ok (.real (.infinite false), r)
  | none => match dropWord? "-Infinity" cs with
  | some r => .ok (.real (.infinite true), r)
  | none => match cs with
  | '-' :: r => readNumber true r
  | _ => readNumber false cs

mutual
/-- A value at the start of a text, and the rest. -/
def readValue : Nat → List Char → Except ReadFault (Value × List Char)
  | 0, _ => .error .malformed
  | fuel + 1, cs =>
    match cs with
    | '"' :: r =>
      match readString? (r.length + 1) r with
      | some (s, rest) => .ok (.text (String.ofList s), rest)
      | none => .error .malformed
    | '[' :: r =>
      match skipBlanks r with
      | ']' :: rest => .ok (.list [], rest)
      | r => (readMembers fuel r).map fun (xs, rest) => (.list xs, rest)
    | '\x7b' :: r =>
      match skipBlanks r with
      | '\x7d' :: rest => .ok (.map [], rest)
      | r => (readEntries fuel [] r).map fun (es, rest) =>
        (.map (es.map fun (k, v) => (.text k, v)), rest)
    | _ => readAtom cs

/-- The members of a list up to its closing bracket. -/
def readMembers : Nat → List Char → Except ReadFault (List Value × List Char)
  | 0, _ => .error .malformed
  | fuel + 1, cs =>
    match readValue fuel cs with
    | .error e => .error e
    | .ok (x, rest) =>
      match skipBlanks rest with
      | ',' :: r => (readMembers fuel (skipBlanks r)).map fun (xs, rest) => (x :: xs, rest)
      | ']' :: r => .ok ([x], r)
      | _ => .error .malformed

/-- The entries of a map up to its closing brace, after those read before. -/
def readEntries : Nat → List (String × Value) → List Char →
    Except ReadFault (List (String × Value) × List Char)
  | 0, _, _ => .error .malformed
  | fuel + 1, seen, cs =>
    match cs with
    | '"' :: r =>
      match readString? (r.length + 1) r with
      | none => .error .malformed
      | some (k, rest) =>
        match skipBlanks rest with
        | ':' :: r =>
          match readValue fuel (skipBlanks r) with
          | .error e => .error e
          | .ok (v, rest) =>
            let seen := putEntry (· == ·) (String.ofList k) v seen
            match skipBlanks rest with
            | ',' :: r => readEntries fuel seen (skipBlanks r)
            | '\x7d' :: r => .ok (seen, r)
            | _ => .error .malformed
        | _ => .error .malformed
    | _ => .error .malformed
end

/-- **Reads one JSON document.** -/
def read (s : String) : Except ReadFault Value :=
  let cs := skipBlanks s.toList
  match readValue (cs.length + 1) cs with
  | .error e => .error e
  | .ok (v, rest) => if (skipBlanks rest).isEmpty then .ok v else .error .malformed

end Taskboard.Json
