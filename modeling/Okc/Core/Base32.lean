import Okc.Core.Workspace
import Okc.Lib.Digits

/-!
# Base32 suffixes (`identity.rs:109-114`, `identity.rs:211-231`)

The bytes go through a buffer of sixteen bits that gives off five at a time, and the bits that stay
at the end are filled up with zeros. The characters are the digits of the bytes as one number.

* `drainBits_digits`: what the inner loop gives off and what it keeps make up the buffer.
* `base32_invariant`: so do the characters and the buffer after every byte.
* `value_crockford`: the text is the number of the bytes with zeros behind it.
* `crockfordBase32_injective`: nothing is lost, and identities keep different texts in one case.
-/

namespace Okc.Core

open Okc.Lib

/-! ## Numbers of digits -/

/-- The number of a byte string. -/
def bytesValue (bytes : Bytes) : Nat := ofDigits 256 (bytes.map UInt8.toNat)

/-- The number of a Base32 text. -/
def base32Value (cs : List Char) : Nat := ofDigits 32 (cs.map crockfordAlphabet.idxOf)

theorem bytesValue_inj {a b : Bytes} (hlength : a.length = b.length)
    (h : bytesValue a = bytesValue b) : a = b := by
  have hbyte : ∀ bytes : Bytes, ∀ d ∈ bytes.map UInt8.toNat, d < 256 := by
    intro bytes d hd
    obtain ⟨byte, -, rfl⟩ := List.mem_map.mp hd
    exact byte.toNat_lt
  exact List.map_injective_iff.mpr (fun _ _ => UInt8.toNat_inj.mp)
    (ofDigits_inj (by decide) (by simpa using hlength) (hbyte a) (hbyte b) h)

theorem bytesValue_append_singleton (bytes : Bytes) (byte : UInt8) :
    bytesValue (bytes ++ [byte]) = bytesValue bytes * 256 + byte.toNat := by
  rw [bytesValue, List.map_append, ofDigits_append]
  simp [bytesValue, ofDigits]

theorem base32Value_append (cs ds : List Char) :
    base32Value (cs ++ ds) = base32Value cs * 2 ^ (5 * ds.length) + base32Value ds := by
  rw [base32Value, List.map_append, ofDigits_append, List.length_map, Nat.pow_mul]
  rfl

/-- The digit of the character that stands for it. -/
theorem idxOf_alphabet {i : Nat} (h : i < 32) :
    crockfordAlphabet.idxOf (crockfordAlphabet.getD i '0') = i := by
  have hall : ∀ i < 32, crockfordAlphabet.idxOf (crockfordAlphabet.getD i '0') = i := by
    decide +kernel
  exact hall i h

theorem base32Value_cons {i : Nat} (h : i < 32) (cs : List Char) :
    base32Value (crockfordAlphabet.getD i '0' :: cs) =
      i * 2 ^ (5 * cs.length) + base32Value cs := by
  rw [base32Value, List.map_cons, ofDigits_cons, idxOf_alphabet h, List.length_map, Nat.pow_mul]
  rfl

theorem getD_mem_alphabet (i : Nat) : crockfordAlphabet.getD i '0' ∈ crockfordAlphabet := by
  rw [List.getD_eq_getElem?_getD]
  cases h : crockfordAlphabet[i]? with
  | none => decide
  | some c => exact List.mem_of_getElem? h

/-! ## The inner loop -/

/-- **What is given off and what is kept make up the buffer**, which had no bits but the counted. -/
theorem drainBits_digits {buffer bits : Nat} (h : buffer < 2 ^ bits) :
    base32Value (drainBits buffer bits).1 * 2 ^ (drainBits buffer bits).2.2 +
        (drainBits buffer bits).2.1 = buffer ∧
      (drainBits buffer bits).2.1 < 2 ^ (drainBits buffer bits).2.2 ∧
      (drainBits buffer bits).2.2 < 5 ∧
      5 * (drainBits buffer bits).1.length + (drainBits buffer bits).2.2 = bits := by
  induction bits using Nat.strong_induction_on generalizing buffer with
  | _ bits ih =>
    unfold drainBits
    by_cases hfew : bits < 5
    · rw [if_pos hfew]
      exact ⟨by simp [base32Value, ofDigits], h, hfew, Nat.zero_add _⟩
    · rw [if_neg hfew]
      have hpos : 0 < 2 ^ (bits - 5) := Nat.two_pow_pos _
      obtain ⟨hvalue, hkept, hbits, hlength⟩ :=
        ih (bits - 5) (by omega) (Nat.mod_lt buffer hpos)
      have hindex : buffer >>> (bits - 5) < 32 := by
        have hfive : bits = bits - 5 + 5 := by omega
        have hpow : 2 ^ bits = 2 ^ (bits - 5) * 32 := by
          conv_lhs => rw [hfive, Nat.pow_add]
        rw [Nat.shiftRight_eq_div_pow]
        exact Nat.div_lt_of_lt_mul (hpow ▸ h)
      dsimp only
      rw [Nat.mod_eq_of_lt hindex, base32Value_cons hindex, List.length_cons]
      generalize drainBits (buffer % 2 ^ (bits - 5)) (bits - 5) = rest at *
      refine ⟨?_, hkept, hbits, by omega⟩
      calc (buffer >>> (bits - 5) * 2 ^ (5 * rest.1.length) + base32Value rest.1) * 2 ^ rest.2.2 +
              rest.2.1
          = buffer >>> (bits - 5) * 2 ^ (5 * rest.1.length + rest.2.2) +
              (base32Value rest.1 * 2 ^ rest.2.2 + rest.2.1) := by
            rw [Nat.pow_add]
            ring
        _ = buffer / 2 ^ (bits - 5) * 2 ^ (bits - 5) + buffer % 2 ^ (bits - 5) := by
            rw [hlength, hvalue, Nat.shiftRight_eq_div_pow]
        _ = buffer := Nat.div_add_mod' _ _

/-! ## The loop over the bytes -/

/-- What the loop has after some bytes: the characters so far, the buffer and its bits. -/
structure Base32State where
  encoded : List Char
  buffer : Nat
  bits : Nat

/-- The body of the loop. -/
def Base32State.push (s : Base32State) (byte : UInt8) : Base32State :=
  let drained := drainBits ((s.buffer <<< 8) % 2 ^ 16 ||| byte.toNat) (s.bits + 8)
  ⟨s.encoded ++ drained.1, drained.2.1, drained.2.2⟩

/-- After all bytes of a string. -/
def base32State (bytes : Bytes) : Base32State := bytes.foldl Base32State.push ⟨[], 0, 0⟩

/-- The text, with the character that the bits which are left make. -/
def Base32State.text (s : Base32State) : List Char :=
  if 0 < s.bits then
    s.encoded ++ [crockfordAlphabet.getD (s.buffer <<< (5 - s.bits) % 32) '0']
  else s.encoded

theorem crockfordFrom_eq (s : Base32State) (bytes : Bytes) :
    s.encoded ++ crockfordFrom s.buffer s.bits bytes = (bytes.foldl Base32State.push s).text := by
  induction bytes generalizing s with
  | nil =>
    unfold crockfordFrom
    rw [List.foldl_nil, Base32State.text]
    split_ifs
    · rfl
    · rw [List.append_nil]
  | cons byte rest ih =>
    rw [List.foldl_cons, ← ih, crockfordFrom, ← List.append_assoc]
    rfl

theorem crockfordBase32_eq (bytes : Bytes) :
    (crockfordBase32 bytes).toList = (base32State bytes).text := by
  rw [crockfordBase32, String.toList_ofList]
  exact crockfordFrom_eq ⟨[], 0, 0⟩ bytes

/-- **The invariant of the loop**: fewer than five bits are left, the buffer has no others, and with
the characters before it it is the number of the bytes. -/
structure Base32Invariant (bytes : Bytes) (s : Base32State) : Prop where
  bits_lt : s.bits < 5
  buffer_lt : s.buffer < 2 ^ s.bits
  value : base32Value s.encoded * 2 ^ s.bits + s.buffer = bytesValue bytes
  length : 5 * s.encoded.length + s.bits = 8 * bytes.length

/-- The sixteen bits hold what is shifted. -/
theorem Base32Invariant.shift {bytes : Bytes} {s : Base32State} (h : Base32Invariant bytes s) :
    s.buffer <<< 8 < 2 ^ 16 := by
  have hpow : 2 ^ s.bits ≤ 2 ^ 5 := Nat.pow_le_pow_right (by decide) h.bits_lt.le
  have hlt := h.buffer_lt
  rw [Nat.shiftLeft_eq]
  omega

theorem Base32Invariant.push {bytes : Bytes} {s : Base32State} (h : Base32Invariant bytes s)
    (byte : UInt8) : Base32Invariant (bytes ++ [byte]) (s.push byte) := by
  have hbyte := byte.toNat_lt
  have hfed : (s.buffer <<< 8) % 2 ^ 16 ||| byte.toNat = s.buffer * 256 + byte.toNat := by
    have hor : 2 ^ 8 * s.buffer + byte.toNat = 2 ^ 8 * s.buffer ||| byte.toNat :=
      Nat.two_pow_add_eq_or_of_lt hbyte s.buffer
    rw [Nat.mod_eq_of_lt h.shift, Nat.shiftLeft_eq, Nat.mul_comm, ← hor, Nat.mul_comm]
  have hlt : s.buffer * 256 + byte.toNat < 2 ^ (s.bits + 8) := by
    have := h.buffer_lt
    rw [Nat.pow_add]
    omega
  obtain ⟨hvalue, hkept, hbits, hlength⟩ := drainBits_digits hlt
  have hold := h.value
  have hcount := h.length
  unfold Base32State.push
  rw [hfed]
  dsimp only
  generalize drainBits (s.buffer * 256 + byte.toNat) (s.bits + 8) = drained at *
  refine ⟨hbits, hkept, ?_, ?_⟩
  · calc base32Value (s.encoded ++ drained.1) * 2 ^ drained.2.2 + drained.2.1
        = base32Value s.encoded * 2 ^ (5 * drained.1.length + drained.2.2) +
            (base32Value drained.1 * 2 ^ drained.2.2 + drained.2.1) := by
          rw [base32Value_append, Nat.pow_add]
          ring
      _ = (base32Value s.encoded * 2 ^ s.bits + s.buffer) * 256 + byte.toNat := by
          rw [hlength, hvalue, Nat.pow_add]
          ring
      _ = bytesValue (bytes ++ [byte]) := by rw [hold, bytesValue_append_singleton]
  · rw [List.length_append, List.length_append, List.length_singleton]
    dsimp only
    omega

/-- **The buffer loses nothing.** -/
theorem base32_invariant (bytes : Bytes) : Base32Invariant bytes (base32State bytes) := by
  induction bytes using List.reverseRecOn with
  | nil => exact ⟨by decide, by decide, rfl, rfl⟩
  | append_singleton bytes byte ih =>
    rw [base32State, List.foldl_append]
    exact ih.push byte

/-! ## The text -/

theorem length_crockford (bytes : Bytes) :
    (crockfordBase32 bytes).toList.length = (8 * bytes.length + 4) / 5 := by
  have h := base32_invariant bytes
  have hbits := h.bits_lt
  have hlength := h.length
  rw [crockfordBase32_eq, Base32State.text]
  split_ifs with hpos
  · rw [List.length_append, List.length_singleton]
    omega
  · omega

/-- **The text is the number of the bytes, with zeros up to a whole character.** -/
theorem value_crockford (bytes : Bytes) :
    base32Value (crockfordBase32 bytes).toList =
      bytesValue bytes * 2 ^ (5 * (crockfordBase32 bytes).toList.length - 8 * bytes.length) := by
  have h := base32_invariant bytes
  have hbits := h.bits_lt
  have hvalue := h.value
  have hlength := h.length
  rw [crockfordBase32_eq, Base32State.text]
  generalize base32State bytes = s at *
  split_ifs with hpos
  · have hpad : 5 * (s.encoded ++ [crockfordAlphabet.getD (s.buffer <<< (5 - s.bits) % 32)
        '0']).length - 8 * bytes.length = 5 - s.bits := by
      rw [List.length_append, List.length_singleton]
      omega
    have hfive : s.bits + (5 - s.bits) = 5 := by omega
    have hlast : s.buffer <<< (5 - s.bits) < 32 := by
      have hmul := Nat.mul_lt_mul_of_pos_right h.buffer_lt (Nat.two_pow_pos (5 - s.bits))
      rw [← Nat.pow_add, hfive] at hmul
      rwa [Nat.shiftLeft_eq]
    rw [hpad, Nat.mod_eq_of_lt hlast, base32Value_append, base32Value_cons hlast, ← hvalue,
      Nat.add_mul, Nat.mul_assoc, ← Nat.pow_add, hfive, Nat.shiftLeft_eq]
    simp [base32Value, ofDigits]
  · have hzero : s.bits = 0 := Nat.eq_zero_of_not_pos hpos
    have hpad : 5 * s.encoded.length - 8 * bytes.length = 0 := by omega
    have hbuffer := h.buffer_lt
    rw [hzero, Nat.pow_zero, Nat.lt_one_iff] at hbuffer
    rw [hpad, ← hvalue, hzero, hbuffer, Nat.pow_zero, Nat.mul_one, Nat.mul_one, Nat.add_zero]

theorem crockfordBase32_inj {a b : Bytes} (hlength : a.length = b.length)
    (h : crockfordBase32 a = crockfordBase32 b) : a = b := by
  refine bytesValue_inj hlength ?_
  have hvalue := value_crockford a
  rw [h, value_crockford b, hlength] at hvalue
  exact (Nat.eq_of_mul_eq_mul_right (Nat.two_pow_pos _) hvalue).symm

/-! ## The alphabet -/

theorem drainBits_mem (buffer bits : Nat) :
    ∀ c ∈ (drainBits buffer bits).1, c ∈ crockfordAlphabet := by
  induction bits using Nat.strong_induction_on generalizing buffer with
  | _ bits ih =>
    unfold drainBits
    split_ifs with hfew
    · exact fun c hc => absurd hc List.not_mem_nil
    · intro c hc
      rcases List.mem_cons.mp hc with rfl | hc
      · exact getD_mem_alphabet _
      · exact ih (bits - 5) (by omega) _ c hc

theorem crockfordFrom_mem (buffer bits : Nat) (bytes : Bytes) :
    ∀ c ∈ crockfordFrom buffer bits bytes, c ∈ crockfordAlphabet := by
  induction bytes generalizing buffer bits with
  | nil =>
    intro c hc
    unfold crockfordFrom at hc
    split_ifs at hc
    · rw [List.mem_singleton.mp hc]
      exact getD_mem_alphabet _
    · exact absurd hc List.not_mem_nil
  | cons byte rest ih =>
    intro c hc
    unfold crockfordFrom at hc
    rcases List.mem_append.mp hc with hc | hc
    · exact drainBits_mem _ _ c hc
    · exact ih _ _ c hc

theorem crockfordBase32_mem (bytes : Bytes) :
    ∀ c ∈ (crockfordBase32 bytes).toList, c ∈ crockfordAlphabet := by
  rw [crockfordBase32, String.toList_ofList]
  exact crockfordFrom_mem 0 0 bytes

/-- The digits and capitals of the alphabet are told apart in lower case. -/
theorem asciiLower_inj {s t : String} (hs : ∀ c ∈ s.toList, c ∈ crockfordAlphabet)
    (ht : ∀ c ∈ t.toList, c ∈ crockfordAlphabet) (h : asciiLower s = asciiLower t) : s = t := by
  have hback : ∀ c ∈ crockfordAlphabet, c.toLower.toUpper = c :=
    forall_of_all (by decide +kernel)
  have hupper : ∀ s : String, (∀ c ∈ s.toList, c ∈ crockfordAlphabet) →
      asciiUpper (asciiLower s) = s := by
    intro s hs
    have heach : ∀ c ∈ s.toList, (Char.toUpper ∘ Char.toLower) c = id c := fun c hc =>
      hback c (hs c hc)
    rw [asciiUpper, asciiLower, String.toList_ofList, List.map_map, List.map_congr_left heach,
      List.map_id, String.ofList_toList]
  rw [← hupper s hs, h, hupper t ht]

/-! ## Suffixes of identities -/

/-- What the Unicode tables say of ASCII text: it is its own NFC, and folding is lower case. -/
structure AsciiFold (X : Externals) : Prop where
  nfc : ∀ s : String, (∀ c ∈ s.toList, c.toNat < 128) → X.nfc s = s
  caseFold : ∀ s : String, (∀ c ∈ s.toList, c.toNat < 128) → X.caseFold s = asciiLower s

theorem suffixBase32_52 (hash : ContentHash) :
    hash.suffixBase32 52 = crockfordBase32 hash.bytes := by
  have hlength := length_crockford hash.bytes
  rw [hash.length_bytes] at hlength
  rw [ContentHash.suffixBase32, List.take_of_length_le (by omega), String.ofList_toList]

theorem fullCasefoldNfc_suffix {X : Externals} (hX : AsciiFold X) (hash : ContentHash) :
    X.fullCasefoldNfc (hash.suffixBase32 52) = asciiLower (hash.suffixBase32 52) := by
  have hall : ∀ c ∈ crockfordAlphabet, c.toNat < 128 := forall_of_all (by decide +kernel)
  have hascii : ∀ c ∈ (hash.suffixBase32 52).toList, c.toNat < 128 := by
    rw [suffixBase32_52]
    exact fun c hc => hall c (crockfordBase32_mem _ c hc)
  rw [Externals.fullCasefoldNfc, hX.nfc _ hascii, hX.caseFold _ hascii]

/-- **`crockford_base32` loses nothing**: its buffer of sixteen bits holds what is shifted into it,
so that characters and buffer are always the number of the bytes; the text has a character of the
alphabet for every five bits, the last of them maybe filled up; byte strings of one length have
different texts; and so have identities, in any case of letters. -/
theorem crockfordBase32_injective {X : Externals} (hX : AsciiFold X) :
    (∀ bytes : Bytes, (base32State bytes).buffer <<< 8 < 2 ^ 16 ∧
      Base32Invariant bytes (base32State bytes) ∧
      (crockfordBase32 bytes).toList = (base32State bytes).text) ∧
    (∀ bytes : Bytes, (crockfordBase32 bytes).toList.length = (8 * bytes.length + 4) / 5 ∧
      ∀ c ∈ (crockfordBase32 bytes).toList, c ∈ crockfordAlphabet) ∧
    (∀ a b : Bytes, a.length = b.length → crockfordBase32 a = crockfordBase32 b → a = b) ∧
    ∀ h k : ContentHash, h ≠ k → (h.suffixBase32 52).toList.length = 52 ∧
      X.fullCasefoldNfc (h.suffixBase32 52) ≠ X.fullCasefoldNfc (k.suffixBase32 52) := by
  refine ⟨fun bytes => ⟨(base32_invariant bytes).shift, base32_invariant bytes,
    crockfordBase32_eq bytes⟩, fun bytes => ⟨length_crockford bytes, crockfordBase32_mem bytes⟩,
    fun a b => crockfordBase32_inj, fun h k hne => ⟨?_, fun hfold => hne ?_⟩⟩
  · rw [suffixBase32_52, length_crockford, h.length_bytes]
  · rw [fullCasefoldNfc_suffix hX, fullCasefoldNfc_suffix hX, suffixBase32_52,
      suffixBase32_52] at hfold
    have htext := asciiLower_inj (crockfordBase32_mem _) (crockfordBase32_mem _) hfold
    exact ContentHash.bytes_injective
      (crockfordBase32_inj (h.length_bytes.trans k.length_bytes.symm) htext)

/-- The theorem at work on the hashes of zeros and of ones. -/
theorem crockfordBase32_injective_ones :
    (Externals.mk (fun _ => ⟨List.replicate 32 0, rfl⟩) id asciiLower).fullCasefoldNfc
        ((ContentHash.mk (List.replicate 32 255) rfl).suffixBase32 52) ≠
      (Externals.mk (fun _ => ⟨List.replicate 32 0, rfl⟩) id asciiLower).fullCasefoldNfc
        ((ContentHash.mk (List.replicate 32 0) rfl).suffixBase32 52) :=
  ((crockfordBase32_injective ⟨fun _ _ => rfl, fun _ _ => rfl⟩).2.2.2 _ _ fun heq =>
    absurd (congrArg ContentHash.bytes heq) (by decide)).2

end Okc.Core
