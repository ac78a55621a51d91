/-!
# Text/Base64 — bytes in the alphabet of sixty-four characters

Writing puts seventy-six characters on a line. Reading skips characters outside the alphabet and
stops at a complete padding.
-/

namespace Taskboard.Base64

/-- The character of six bits. -/
def digit (n : Nat) : Char :=
  if n < 26 then Char.ofNat (65 + n)
  else if n < 52 then Char.ofNat (71 + n)
  else if n < 62 then Char.ofNat (n - 4)
  else if n = 62 then '+'
  else '/'

/-- The six bits of a character. -/
def value? (c : Char) : Option Nat :=
  if 'A' ≤ c ∧ c ≤ 'Z' then some (c.toNat - 65)
  else if 'a' ≤ c ∧ c ≤ 'z' then some (c.toNat - 71)
  else if '0' ≤ c ∧ c ≤ '9' then some (c.toNat + 4)
  else if c = '+' then some 62
  else if c = '/' then some 63
  else none

/-- The characters of some bytes without line breaks. -/
def encodeChars : List UInt8 → List Char
  | [] => []
  | [a] =>
    let n := a.toNat * 16
    [digit (n / 64), digit (n % 64), '=', '=']
  | [a, b] =>
    let n := (a.toNat * 256 + b.toNat) * 4
    [digit (n / 4096), digit (n / 64 % 64), digit (n % 64), '=']
  | a :: b :: c :: rest =>
    let n := (a.toNat * 256 + b.toNat) * 256 + c.toNat
    digit (n / 262144) :: digit (n / 4096 % 64) :: digit (n / 64 % 64) :: digit (n % 64)
      :: encodeChars rest

/-- Bytes on a line. -/
def lineBytes : Nat := 57

/-- The lines of some bytes, each with its end, with fuel for each line. -/
def linesFrom : Nat → List UInt8 → List Char
  | 0, _ => []
  | _, [] => []
  | fuel + 1, bs =>
    encodeChars (bs.take lineBytes) ++ '\n' :: linesFrom fuel (bs.drop lineBytes)

/-- The text of some bytes. -/
def encode (bs : List UInt8) : String := String.ofList (linesFrom (bs.length + 1) bs)

/-- Reads on with the bits left over from the last character, the characters taken of the group of
four, and the padding seen since; the bytes come last first. -/
def decodeFrom (left quad pads : Nat) (done : List UInt8) : List Char → Option (List UInt8)
  | [] => if quad = 0 then some done.reverse else none
  | c :: cs =>
    if c = '=' then
      if 2 ≤ quad then
        if 4 ≤ quad + pads + 1 then some done.reverse else decodeFrom left quad (pads + 1) done cs
      else decodeFrom left quad pads done cs
    else match value? c with
    | none => decodeFrom left quad pads done cs
    | some v =>
      match quad with
      | 0 => decodeFrom v 1 0 done cs
      | 1 => decodeFrom (v % 16) 2 0 (UInt8.ofNat (left * 4 + v / 16) :: done) cs
      | 2 => decodeFrom (v % 4) 3 0 (UInt8.ofNat (left * 16 + v / 4) :: done) cs
      | _ => decodeFrom 0 0 0 (UInt8.ofNat (left * 64 + v) :: done) cs

/-- The bytes of a text, none if a group of four is not complete. -/
def decode? (s : String) : Option (List UInt8) := decodeFrom 0 0 0 [] s.toList

end Taskboard.Base64
