import Mathlib
import Okc.Lib.Text

/-!
# The byte order of texts

`str` is compared by its UTF-8 bytes. UTF-8 keeps the order of the characters, so this is the
order of the texts as lists of characters.

* `byteOrder_strictMono`: the order of `String` is the order of the bytes.
-/

namespace Okc.Lib

/-- `str::as_bytes`, compared by `Ord for [u8]`. -/
def byteOrder (s : String) : List Nat := (utf8 s).map UInt8.toNat

/-- The bytes of a character as numbers. -/
def charOrder (c : Char) : List Nat := (String.utf8EncodeChar c).map UInt8.toNat

theorem byteOrder_eq (s : String) : byteOrder s = s.toList.flatMap charOrder := by
  unfold byteOrder
  conv_lhs => rw [← String.ofList_toList (s := s)]
  rw [utf8_ofList, List.map_flatMap]
  rfl

/-- The lead byte tells how long the encoding is. -/
theorem charOrder_eq (c : Char) : charOrder c =
    if c.toNat ≤ 0x7f then [c.toNat]
    else if c.toNat ≤ 0x7ff then [c.toNat / 64 + 0xc0, c.toNat % 64 + 0x80]
    else if c.toNat ≤ 0xffff then
      [c.toNat / 4096 + 0xe0, c.toNat / 64 % 64 + 0x80, c.toNat % 64 + 0x80]
    else
      [c.toNat / 262144 + 0xf0, c.toNat / 4096 % 64 + 0x80, c.toNat / 64 % 64 + 0x80,
        c.toNat % 64 + 0x80] := by
  have hval : c.val.toNat = c.toNat := rfl
  have hmax : c.toNat < 1114112 := by
    have hvalid : c.toNat < 55296 ∨ 57343 < c.toNat ∧ c.toNat < 1114112 := c.valid
    omega
  unfold charOrder String.utf8EncodeChar
  dsimp only
  rw [hval]
  split_ifs
  all_goals simp only [List.map_cons, List.map_nil, UInt8.toNat_ofNat', List.cons.injEq, and_true]
  all_goals omega

/-- A smaller character comes first, whatever follows. -/
theorem charOrder_lt {c d : Char} (h : c < d) (r s : List Nat) :
    charOrder c ++ r < charOrder d ++ s := by
  have hlt : c.toNat < d.toNat := h
  rw [charOrder_eq, charOrder_eq]
  split_ifs <;> simp only [List.cons_append, List.nil_append, List.cons_lt_cons_iff] <;> omega

theorem charOrder_ne_nil (c : Char) : charOrder c ≠ [] := by
  rw [charOrder_eq]
  split_ifs <;> exact List.cons_ne_nil _ _

theorem append_lt_append_left {l r s : List Nat} (h : r < s) : l ++ r < l ++ s := by
  induction l with
  | nil => exact h
  | cons a l ih => exact List.cons_lt_cons_iff.mpr (.inr ⟨rfl, ih⟩)

theorem flatMap_charOrder_lt : ∀ {cs ds : List Char}, cs < ds →
    cs.flatMap charOrder < ds.flatMap charOrder
  | _, [], h => absurd h (List.not_lt_nil _)
  | [], d :: ds, _ => by
    rw [List.flatMap_nil, List.flatMap_cons]
    obtain ⟨n, rest, hn⟩ := List.exists_cons_of_ne_nil (charOrder_ne_nil d)
    rw [hn]
    exact List.nil_lt_cons _ _
  | c :: cs, d :: ds, h => by
    rw [List.flatMap_cons, List.flatMap_cons]
    rcases List.cons_lt_cons_iff.mp h with hchar | ⟨rfl, hrest⟩
    · exact charOrder_lt hchar _ _
    · exact append_lt_append_left (flatMap_charOrder_lt hrest)

/-- **UTF-8 keeps the order of texts.** -/
theorem byteOrder_strictMono : StrictMono byteOrder := by
  intro s t h
  rw [byteOrder_eq, byteOrder_eq]
  exact flatMap_charOrder_lt (String.lt_iff_toList_lt.mp h)

theorem byteOrder_lt {s t : String} : byteOrder s < byteOrder t ↔ s < t :=
  byteOrder_strictMono.lt_iff_lt

theorem byteOrder_le {s t : String} : byteOrder s ≤ byteOrder t ↔ s ≤ t :=
  byteOrder_strictMono.le_iff_le

end Okc.Lib
