import Taskboard.Store.Basic

/-!
# Proofs/Store/Encoding — texts as bytes and back

* `decodeUtf8?_toUTF8` — **the bytes of a text are read as the text.**
* `Store.textOf_toUTF8` — a text without carriage returns is read from a file as it was written.
-/

namespace Taskboard

/-! ## Lists of bytes -/

theorem toList_loop (bs : ByteArray) (i : Nat) (done : List UInt8) :
    ByteArray.toList.loop bs i done = done.reverse ++ bs.data.toList.drop i := by
  fun_induction ByteArray.toList.loop bs i done with
  | case1 i done h ih =>
    have hi : i < bs.data.toList.length := h
    rw [ih, List.drop_eq_getElem_cons hi, List.reverse_cons, List.append_assoc]
    simp [ByteArray.get!, getElem!_pos bs.data i h]
  | case2 i done h =>
    rw [List.drop_eq_nil_of_le (by simpa using h), List.append_nil]

theorem toList_toByteArray (bs : List UInt8) : bs.toByteArray.toList = bs := by
  rw [ByteArray.toList, toList_loop, List.toList_data_toByteArray]
  rfl

theorem toList_toUTF8 (cs : List Char) :
    (String.ofList cs).toUTF8.toList = cs.flatMap String.utf8EncodeChar := by
  rw [String.toUTF8, String.toByteArray_ofList, List.utf8Encode, toList_toByteArray]

/-! ## Characters -/

theorem toNat_ofNat_byte {n : Nat} (h : n < 256) : (UInt8.ofNat n).toNat = n := by
  simp [Nat.mod_eq_of_lt h]

/-- The low bits of a continuation byte are read back. -/
theorem continuation?_ofNat {n : Nat} (h : n < 64) :
    continuation? (UInt8.ofNat (n + 128)) = some n := by
  have hbyte := toNat_ofNat_byte (n := n + 128) (by omega)
  simp only [continuation?, hbyte]
  rw [if_pos (by omega), Nat.add_sub_cancel]

theorem charFrom?_toNat {c : Char} {n : Nat} (h : n ≤ c.toNat) :
    charFrom? n c.toNat = some c := by
  rw [charFrom?, if_pos ⟨h, c.valid⟩, Char.ofNat_toNat]

section

variable {c : Char} (rest : List UInt8)

/-- One byte, for a character below `0x80`. -/
theorem decodeChars?_one (hhigh : c.toNat < 0x80) :
    decodeChars? (UInt8.ofNat c.toNat :: rest) = (decodeChars? rest).map (c :: ·) := by
  have hbyte := toNat_ofNat_byte (n := c.toNat) (by omega)
  rw [decodeChars?.eq_def]
  simp only [hbyte, Char.ofNat_toNat]
  rw [if_pos hhigh]

/-- Two bytes, for a character from `0x80` and below `0x800`. -/
theorem decodeChars?_two (hlow : 0x80 ≤ c.toNat) (hhigh : c.toNat < 0x800) :
    decodeChars? (UInt8.ofNat (c.toNat / 64 % 32 + 192) :: UInt8.ofNat (c.toNat % 64 + 128) :: rest)
      = (decodeChars? rest).map (c :: ·) := by
  have hbyte := toNat_ofNat_byte (n := c.toNat / 64 % 32 + 192) (by omega)
  have hcode : (c.toNat / 64 % 32 + 192 - 0xC0) * 64 + c.toNat % 64 = c.toNat := by omega
  simp only [decodeChars?, hbyte, continuation?_ofNat (Nat.mod_lt _ (by decide : 0 < 64))]
  rw [if_neg (by omega), if_neg (by omega), if_pos (by omega)]
  simp only [Option.bind_eq_bind, Option.bind_some, hcode, charFrom?_toNat hlow]

/-- Three bytes, for a character from `0x800` and below `0x10000`. -/
theorem decodeChars?_three (hlow : 0x800 ≤ c.toNat) (hhigh : c.toNat < 0x10000) :
    decodeChars? (UInt8.ofNat (c.toNat / 4096 % 16 + 224) ::
        UInt8.ofNat (c.toNat / 64 % 64 + 128) :: UInt8.ofNat (c.toNat % 64 + 128) :: rest)
      = (decodeChars? rest).map (c :: ·) := by
  have hbyte := toNat_ofNat_byte (n := c.toNat / 4096 % 16 + 224) (by omega)
  have hcode : ((c.toNat / 4096 % 16 + 224 - 0xE0) * 64 + c.toNat / 64 % 64) * 64
      + c.toNat % 64 = c.toNat := by omega
  simp only [decodeChars?, hbyte, continuation?_ofNat (Nat.mod_lt _ (by decide : 0 < 64))]
  rw [if_neg (by omega), if_neg (by omega), if_neg (by omega), if_pos (by omega)]
  simp only [Option.bind_eq_bind, Option.bind_some, hcode, charFrom?_toNat hlow]

/-- Four bytes, for a character from `0x10000`. -/
theorem decodeChars?_four (hlow : 0x10000 ≤ c.toNat) :
    decodeChars? (UInt8.ofNat (c.toNat / 262144 % 8 + 240) ::
        UInt8.ofNat (c.toNat / 4096 % 64 + 128) :: UInt8.ofNat (c.toNat / 64 % 64 + 128) ::
        UInt8.ofNat (c.toNat % 64 + 128) :: rest)
      = (decodeChars? rest).map (c :: ·) := by
  have hvalid : c.toNat < 0xD800 ∨ 0xDFFF < c.toNat ∧ c.toNat < 0x110000 := c.valid
  have hbyte := toNat_ofNat_byte (n := c.toNat / 262144 % 8 + 240) (by omega)
  have hcode : (((c.toNat / 262144 % 8 + 240 - 0xF0) * 64 + c.toNat / 4096 % 64) * 64
      + c.toNat / 64 % 64) * 64 + c.toNat % 64 = c.toNat := by omega
  simp only [decodeChars?, hbyte, continuation?_ofNat (Nat.mod_lt _ (by decide : 0 < 64))]
  rw [if_neg (by omega), if_neg (by omega), if_neg (by omega), if_neg (by omega),
    if_pos (by omega)]
  simp only [Option.bind_eq_bind, Option.bind_some, hcode, charFrom?_toNat hlow]

end

/-- **A character is read from its bytes.** -/
theorem decodeChars?_encode (c : Char) (rest : List UInt8) :
    decodeChars? (String.utf8EncodeChar c ++ rest) = (decodeChars? rest).map (c :: ·) := by
  unfold String.utf8EncodeChar
  change decodeChars? ((if c.toNat ≤ 127 then [UInt8.ofNat c.toNat]
    else if c.toNat ≤ 2047 then
      [UInt8.ofNat (c.toNat / 64 % 32 + 192), UInt8.ofNat (c.toNat % 64 + 128)]
    else if c.toNat ≤ 65535 then
      [UInt8.ofNat (c.toNat / 4096 % 16 + 224), UInt8.ofNat (c.toNat / 64 % 64 + 128),
        UInt8.ofNat (c.toNat % 64 + 128)]
    else
      [UInt8.ofNat (c.toNat / 262144 % 8 + 240), UInt8.ofNat (c.toNat / 4096 % 64 + 128),
        UInt8.ofNat (c.toNat / 64 % 64 + 128), UInt8.ofNat (c.toNat % 64 + 128)]) ++ rest) = _
  split
  next hone => exact decodeChars?_one rest (by omega)
  next hone =>
    split
    next htwo => exact decodeChars?_two rest (by omega) (by omega)
    next htwo =>
      split
      next hthree => exact decodeChars?_three rest (by omega) (by omega)
      next hthree => exact decodeChars?_four rest (by omega)

/-- **The bytes of a text are read as the text.** -/
theorem decodeUtf8?_toUTF8 (s : String) : decodeUtf8? s.toUTF8.toList = some s := by
  have hchars (cs : List Char) : decodeChars? (cs.flatMap String.utf8EncodeChar) = some cs := by
    induction cs with
    | nil => rfl
    | cons c cs ih => rw [List.flatMap_cons, decodeChars?_encode, ih, Option.map_some]
  rw [← String.ofList_toList (s := s), toList_toUTF8, decodeUtf8?, hchars, Option.map_some]

/-- **A text without carriage returns is read from a file as it was written.** -/
theorem Store.textOf_toUTF8 {s : String} (h : '\r' ∉ s.toList) :
    Store.textOf s.toUTF8.toList = .ok s := by
  rw [textOf, decodeUtf8?_toUTF8]
  simp only [plainBreaks_eq_self h, String.ofList_toList]

end Taskboard
