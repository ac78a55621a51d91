import Taskboard.Text.Printable

/-!
# Text/Quoted — texts and bytes between quotes

A text is quoted with single quotes, or with double ones if it holds single quotes only. The quote
and the backslash get a backslash, tab, line feed and carriage return their letters, and what is not
printable its code in hexadecimal. Bytes are quoted alike, with a `b` in front and ASCII only.
-/

namespace Taskboard

/-- The hexadecimal digits of a number, with zeros before them up to a width. -/
def hexText (width n : Nat) : List Char :=
  let ds := Nat.toDigits 16 n
  List.replicate (width - ds.length) '0' ++ ds

/-- The quote for a text: single, unless it holds single quotes and no double ones. -/
def chooseQuote (cs : List Char) : Char :=
  if cs.contains '\'' && !cs.contains '"' then '"' else '\''

/-- The letter after the backslash of the characters that have one. -/
def escapeLetter? : Char → Option Char
  | '\t' => some 't'
  | '\n' => some 'n'
  | '\r' => some 'r'
  | '\\' => some '\\'
  | _ => none

/-- One character between quotes. -/
def quoteChar (quote : Char) (c : Char) : List Char :=
  match escapeLetter? c with
  | some l => ['\\', l]
  | none =>
    if c = quote then ['\\', c]
    else if isPrintable c then [c]
    else if c.toNat < 256 then '\\' :: 'x' :: hexText 2 c.toNat
    else if c.toNat < 65536 then '\\' :: 'u' :: hexText 4 c.toNat
    else '\\' :: 'U' :: hexText 8 c.toNat

/-- A text between quotes. -/
def quoteText (s : String) : String :=
  let cs := s.toList
  let q := chooseQuote cs
  String.ofList (q :: cs.flatMap (quoteChar q) ++ [q])

/-- One byte between quotes. -/
def quoteByte (quote : Char) (b : UInt8) : List Char :=
  let c := Char.ofNat b.toNat
  match escapeLetter? c with
  | some l => ['\\', l]
  | none =>
    if c = quote then ['\\', c]
    else if 32 ≤ b.toNat && b.toNat < 127 then [c]
    else '\\' :: 'x' :: hexText 2 b.toNat

/-- Bytes between quotes, marked by a `b`. -/
def quoteBytes (bs : List UInt8) : String :=
  let q := chooseQuote (bs.map fun b => Char.ofNat b.toNat)
  String.ofList ('b' :: q :: bs.flatMap (quoteByte q) ++ [q])

end Taskboard
