import Okc.Lib.Text

/-!
# Reading hexadecimal

`hex::decode` takes digits of either case, two for a byte.

* `decodeHex_hex`: it reads back what `hex` wrote.
* `exists_hex`: an even number of lowercase digits is what `hex` writes of some bytes.
-/

namespace Okc.Lib

/-- `FromHexError`. -/
inductive FromHexError
  | invalidHexCharacter (c : Char) (index : Nat)
  | oddLength
deriving DecidableEq

/-- A character as `Debug` shows it: quoted, with the escapes of those that do not print. -/
def debugChar (c : Char) : String :=
  let shown :=
    if c = '\x00' then "\\0"
    else if c = '\t' then "\\t"
    else if c = '\n' then "\\n"
    else if c = '\r' then "\\r"
    else if c = '\'' then "\\'"
    else if c = '\\' then "\\\\"
    else if c.toNat < 32 ∨ (127 ≤ c.toNat ∧ c.toNat ≤ 160) ∨ c.toNat = 173 then
      "\\u\x7b" ++ String.ofList (Nat.toDigits 16 c.toNat) ++ "\x7d"
    else String.ofList [c]
  "'" ++ shown ++ "'"

/-- `Display for FromHexError`. -/
def FromHexError.text : FromHexError → String
  | .invalidHexCharacter c index =>
    "Invalid character " ++ debugChar c ++ " at position " ++ Nat.repr index
  | .oddLength => "Odd number of digits"

/-- The value of a digit. -/
def digitValue (byte : UInt8) : Option Nat :=
  if 65 ≤ byte ∧ byte ≤ 70 then some (byte.toNat - 65 + 10)
  else if 97 ≤ byte ∧ byte ≤ 102 then some (byte.toNat - 97 + 10)
  else if 48 ≤ byte ∧ byte ≤ 57 then some (byte.toNat - 48)
  else none

/-- The value of the digit at an index. -/
def digitAt (byte : UInt8) (index : Nat) : Except FromHexError Nat :=
  match digitValue byte with
  | some value => .ok value
  | none => .error (.invalidHexCharacter (Char.ofNat byte.toNat) index)

/-- The bytes of digits from an index on. -/
def decodePairs (index : Nat) : Bytes → Except FromHexError Bytes
  | high :: low :: rest => do
    let h ← digitAt high index
    let l ← digitAt low (index + 1)
    let bytes ← decodePairs (index + 2) rest
    .ok ((h * 16 + l).toUInt8 :: bytes)
  | _ => .ok []

/-- `hex::decode`. -/
def decodeHex (text : Bytes) : Except FromHexError Bytes :=
  if text.length % 2 ≠ 0 then .error .oddLength else decodePairs 0 text

/-- A digit that `hex` writes. -/
def lowerHexByte (byte : UInt8) : Bool :=
  (48 ≤ byte && byte ≤ 57) || (97 ≤ byte && byte ≤ 102)

/-- The byte of a digit. -/
def hexByte (n : Nat) : UInt8 := (hexDigit n).toNat.toUInt8

theorem utf8EncodeChar_ascii {c : Char} (h : c.toNat < 128) :
    String.utf8EncodeChar c = [c.toNat.toUInt8] := by
  have hval : c.val.toNat = c.toNat := rfl
  rw [String.utf8EncodeChar, if_pos (by omega), hval]

theorem hexDigit_ascii : ∀ n < 16, (hexDigit n).toNat < 128 := by
  decide

/-- The bytes of a hexadecimal text. -/
theorem utf8_hex (bytes : Bytes) : utf8 (hex bytes) =
    bytes.flatMap fun b => [hexByte (b.toNat / 16), hexByte (b.toNat % 16)] := by
  rw [hex, utf8_ofList]
  induction bytes with
  | nil => rfl
  | cons b bs ih =>
    obtain ⟨hhigh, hlow⟩ := byte_halves_lt b
    rw [hexChars, List.flatMap_cons, List.flatMap_cons, ih, List.flatMap_cons,
      utf8EncodeChar_ascii (hexDigit_ascii _ hhigh), utf8EncodeChar_ascii (hexDigit_ascii _ hlow)]
    rfl

theorem digitValue_hexByte : ∀ n < 16, digitValue (hexByte n) = some n := by
  decide +kernel

theorem lowerHexByte_hexByte : ∀ n < 16, lowerHexByte (hexByte n) = true := by
  decide +kernel

/-- A lowercase digit stands for its value. -/
theorem exists_hexByte {byte : UInt8} (h : lowerHexByte byte = true) :
    ∃ n < 16, hexByte n = byte := by
  have hall : ∀ m < 256, lowerHexByte m.toUInt8 = true → ∃ n < 16, hexByte n = m.toUInt8 := by
    decide +kernel
  have hbyte : byte.toNat.toUInt8 = byte := UInt8.ofNat_toNat
  have hfound := hall byte.toNat byte.toNat_lt
  rw [hbyte] at hfound
  exact hfound h

/-- **What was written is read back.** -/
theorem decodePairs_hex (index : Nat) (bytes : Bytes) :
    decodePairs index (utf8 (hex bytes)) = .ok bytes := by
  rw [utf8_hex]
  induction bytes generalizing index with
  | nil => rfl
  | cons b bs ih =>
    obtain ⟨hhigh, hlow⟩ := byte_halves_lt b
    have hbyte : (b.toNat / 16 * 16 + b.toNat % 16).toUInt8 = b := by
      rw [Nat.div_add_mod']
      exact UInt8.ofNat_toNat
    rw [List.flatMap_cons, List.cons_append, List.cons_append, List.nil_append, decodePairs,
      digitAt, digitAt, digitValue_hexByte _ hhigh, digitValue_hexByte _ hlow, ih]
    simp only [bind, Except.bind, hbyte]

theorem length_utf8_hex (bytes : Bytes) : (utf8 (hex bytes)).length = 2 * bytes.length := by
  rw [length_utf8, len_hex]

theorem decodeHex_hex (bytes : Bytes) : decodeHex (utf8 (hex bytes)) = .ok bytes := by
  rw [decodeHex, length_utf8_hex, if_neg (by omega), decodePairs_hex]

theorem lowerHexByte_of_mem_hex (bytes : Bytes) :
    (utf8 (hex bytes)).all lowerHexByte = true := by
  rw [utf8_hex, List.all_eq_true]
  intro byte hbyte
  obtain ⟨b, -, hb⟩ := List.mem_flatMap.mp hbyte
  obtain ⟨hhigh, hlow⟩ := byte_halves_lt b
  rcases List.mem_cons.mp hb with rfl | hb
  · exact lowerHexByte_hexByte _ hhigh
  · rw [List.mem_singleton.mp hb]
    exact lowerHexByte_hexByte _ hlow

/-- **An even number of lowercase digits is a hexadecimal text.** -/
theorem exists_hex : ∀ {text : Bytes}, text.length % 2 = 0 → text.all lowerHexByte = true →
    ∃ bytes, text = utf8 (hex bytes)
  | [], _, _ => ⟨[], rfl⟩
  | [_], h, _ => absurd h (by simp)
  | high :: low :: rest, h, hall => by
    rw [List.all_cons, List.all_cons, Bool.and_eq_true, Bool.and_eq_true] at hall
    obtain ⟨hhigh, hlow, hrest⟩ := hall
    obtain ⟨m, hm, rfl⟩ := exists_hexByte hhigh
    obtain ⟨n, hn, rfl⟩ := exists_hexByte hlow
    have heven : rest.length % 2 = 0 := by
      rw [List.length_cons, List.length_cons] at h
      omega
    obtain ⟨bytes, rfl⟩ := exists_hex heven hrest
    have hnat : (m * 16 + n).toUInt8.toNat = m * 16 + n :=
      UInt8.toNat_ofNat_of_lt' (Nat.lt_of_lt_of_le (by omega : m * 16 + n < 256) (by decide))
    refine ⟨(m * 16 + n).toUInt8 :: bytes, ?_⟩
    have hhalf : (m * 16 + n) / 16 = m := by omega
    have hrem : (m * 16 + n) % 16 = n := by omega
    rw [utf8_hex, utf8_hex, List.flatMap_cons, hnat, hhalf, hrem]
    rfl

end Okc.Lib
