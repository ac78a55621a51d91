/-!
# Text/Utf8 — texts as bytes

`decodeUtf8?` reads bytes as text: only shortest forms of characters count, and no surrogates.
-/

namespace Taskboard

/-- The low six bits of a continuation byte. -/
def continuation? (b : UInt8) : Option Nat :=
  if 0x80 ≤ b.toNat ∧ b.toNat < 0xC0 then some (b.toNat - 0x80) else none

/-- A character by its code, if the code is in its shortest form and no surrogate. -/
def charFrom? (least code : Nat) : Option Char :=
  if least ≤ code ∧ Nat.isValidChar code then some (Char.ofNat code) else none

/-- The characters that bytes write, none if they are not UTF-8. -/
def decodeChars? : List UInt8 → Option (List Char)
  | [] => some []
  | a :: rest =>
    let n := a.toNat
    if n < 0x80 then (decodeChars? rest).map (Char.ofNat n :: ·)
    else if n < 0xC0 then none
    else if n < 0xE0 then
      match rest with
      | b :: rest => do
        let c ← charFrom? 0x80 ((n - 0xC0) * 64 + (← continuation? b))
        (decodeChars? rest).map (c :: ·)
      | _ => none
    else if n < 0xF0 then
      match rest with
      | b :: b2 :: rest => do
        let c ← charFrom? 0x800
          (((n - 0xE0) * 64 + (← continuation? b)) * 64 + (← continuation? b2))
        (decodeChars? rest).map (c :: ·)
      | _ => none
    else if n < 0xF8 then
      match rest with
      | b :: b2 :: b3 :: rest => do
        let c ← charFrom? 0x10000
          ((((n - 0xF0) * 64 + (← continuation? b)) * 64 + (← continuation? b2)) * 64
            + (← continuation? b3))
        (decodeChars? rest).map (c :: ·)
      | _ => none
    else none

/-- **Bytes as text**, if they are UTF-8. -/
def decodeUtf8? (bytes : List UInt8) : Option String := (decodeChars? bytes).map String.ofList

end Taskboard
