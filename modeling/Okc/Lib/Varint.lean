import Okc.Lib.Text

/-!
# Length-prefixed byte strings

`uleb128` writes a number in groups of seven bits, lowest first, every byte but the last with its
high bit set. No encoding is a proper prefix of another (`uleb128_append_inj`), so a byte string
behind its length can be read off what follows it (`selfDelimiting_lengthPrefixed`), and a sequence
of such strings determines its parts (`parts_injective`), as does any sequence of records that end
by themselves (`SelfDelimiting.flatMap_injective`).
-/

namespace Okc.Lib

/-- A number in groups of seven bits. -/
def uleb128 (value : Nat) : Bytes :=
  if value < 128 then [value.toUInt8] else (value % 128 + 128).toUInt8 :: uleb128 (value / 128)
termination_by value
decreasing_by omega

theorem toNat_toUInt8 {n : Nat} (h : n < 256) : n.toUInt8.toNat = n := by
  simp [Nat.mod_eq_of_lt h]

theorem uleb128_last {value : Nat} (h : value < 128) : uleb128 value = [value.toUInt8] := by
  rw [uleb128, if_pos h]

theorem uleb128_more {value : Nat} (h : ¬ value < 128) :
    uleb128 value = (value % 128 + 128).toUInt8 :: uleb128 (value / 128) := by
  rw [uleb128, if_neg h]

/-- The first byte tells whether more follow. -/
theorem uleb128_head (value : Nat) : ∃ b rest, uleb128 value = b :: rest ∧
    (b.toNat < 128 ↔ value < 128) := by
  by_cases hsmall : value < 128
  · refine ⟨_, _, uleb128_last hsmall, ?_⟩
    rw [toNat_toUInt8 (by omega)]
  · refine ⟨_, _, uleb128_more hsmall, ?_⟩
    rw [toNat_toUInt8 (by omega)]
    omega

/-- **No encoding is a proper prefix of another.** -/
theorem uleb128_append_inj {m n : Nat} {r s : Bytes} (h : uleb128 m ++ r = uleb128 n ++ s) :
    m = n ∧ r = s := by
  induction m using Nat.strongRecOn generalizing n with
  | ind m ih =>
    -- the first bytes agree, so both numbers end there or neither does
    have hsame : m < 128 ↔ n < 128 := by
      obtain ⟨b, t, hm, hb⟩ := uleb128_head m
      obtain ⟨c, u, hn, hc⟩ := uleb128_head n
      rw [hm, hn, List.cons_append, List.cons_append, List.cons.injEq] at h
      rw [← hb, ← hc, h.1]
    by_cases hsmall : m < 128
    · have hn : n < 128 := hsame.mp hsmall
      rw [uleb128_last hsmall, uleb128_last hn] at h
      obtain ⟨hbyte, hrest⟩ := List.cons.inj h
      have hnat := congrArg UInt8.toNat hbyte
      rw [toNat_toUInt8 (by omega), toNat_toUInt8 (by omega)] at hnat
      exact ⟨hnat, hrest⟩
    · have hn : ¬ n < 128 := fun hlt => hsmall (hsame.mpr hlt)
      rw [uleb128_more hsmall, uleb128_more hn] at h
      obtain ⟨hbyte, hrest⟩ := List.cons.inj h
      obtain ⟨hdiv, htail⟩ := ih (m / 128) (by omega) hrest
      have hnat := congrArg UInt8.toNat hbyte
      rw [toNat_toUInt8 (by omega), toNat_toUInt8 (by omega)] at hnat
      exact ⟨by omega, htail⟩

/-- A byte string behind its length. -/
def lengthPrefixed (bytes : Bytes) : Bytes := uleb128 bytes.length ++ bytes

theorem lengthPrefixed_append_inj {a b r s : Bytes}
    (h : lengthPrefixed a ++ r = lengthPrefixed b ++ s) : a = b ∧ r = s := by
  rw [lengthPrefixed, lengthPrefixed, List.append_assoc, List.append_assoc] at h
  obtain ⟨hlen, hrest⟩ := uleb128_append_inj h
  exact List.append_inj hrest hlen

theorem lengthPrefixed_ne_nil (bytes : Bytes) : lengthPrefixed bytes ≠ [] := by
  obtain ⟨b, rest, h, -⟩ := uleb128_head bytes.length
  simp [lengthPrefixed, h]

/-! ## Sequences of records -/

/-- A record is not empty and can be read off what follows it. -/
structure SelfDelimiting {α : Type} (encode : α → Bytes) : Prop where
  nonempty : ∀ a, encode a ≠ []
  append_inj : ∀ {a b : α} {r s : Bytes}, encode a ++ r = encode b ++ s → a = b ∧ r = s

/-- **A sequence of records determines the records.** -/
theorem SelfDelimiting.flatMap_injective {α : Type} {encode : α → Bytes}
    (h : SelfDelimiting encode) : Function.Injective fun l : List α => l.flatMap encode := by
  intro l
  induction l with
  | nil =>
    rintro (_ | ⟨b, m⟩) he
    · rfl
    · simp only [List.flatMap_nil, List.flatMap_cons] at he
      exact absurd (List.append_eq_nil_iff.mp he.symm).1 (h.nonempty b)
  | cons a l ih =>
    rintro (_ | ⟨b, m⟩) he
    · simp only [List.flatMap_nil, List.flatMap_cons] at he
      exact absurd (List.append_eq_nil_iff.mp he).1 (h.nonempty a)
    · simp only [List.flatMap_cons] at he
      obtain ⟨rfl, hrest⟩ := h.append_inj he
      rw [ih hrest]

theorem selfDelimiting_lengthPrefixed : SelfDelimiting lengthPrefixed :=
  ⟨lengthPrefixed_ne_nil, lengthPrefixed_append_inj⟩

/-- **A sequence of length-prefixed strings determines its parts.** -/
theorem parts_injective : Function.Injective fun parts : List Bytes =>
    parts.flatMap lengthPrefixed :=
  selfDelimiting_lengthPrefixed.flatMap_injective

end Okc.Lib
