import Okc.Core.Workspace
import Okc.Lib.Hex

/-!
# Reading identities (`identity.rs:38-63`, `identity.rs:117-135`)

A typed identity is shown as the prefix of its family, an underscore and its hash in lowercase
hexadecimal, and read back from just that.

* `parseHex_eq_ok`: a hash is read from its own text only.
* `fromStr_eq_ok`: so is an identity of each family.
-/

namespace Okc.Core

open Okc.Lib

/-- `ContentHash::parse_hex`. -/
def ContentHash.parseHex (value : String) : Except OkcError ContentHash :=
  if (utf8 value).length ≠ 64 ∨ (utf8 value).all lowerHexByte = false then
    .error (.malformedInput "identity" "expected exactly 64 lowercase hexadecimal characters")
  else
    match decodeHex (utf8 value) with
    | .error e => .error (.malformedInput "identity" e.text)
    | .ok decoded =>
      if h : decoded.length = 32 then .ok ⟨decoded, h⟩
      else .error (.malformedInput "identity" "expected a 32-byte SHA-256 value")

/-- `str::strip_prefix`. -/
def stripInitial (initial value : String) : Option String :=
  if initial.toList <+: value.toList then
    some (String.ofList (value.toList.drop initial.toList.length))
  else none

/-- `FromStr` of the family with a prefix, up to the wrapper of the hash. -/
def hashFromStr (word value : String) : Except OkcError ContentHash :=
  match stripInitial (word ++ "_") value with
  | none => .error (.malformedInput "identity" ("expected " ++ word ++ "_ prefix"))
  | some hex => ContentHash.parseHex hex

/-- `impl FromStr` for the identities that are a `TypedId`. -/
def TypedId.fromStr (kind : IdKind) (value : String) : Except OkcError (TypedId kind) :=
  (hashFromStr kind.word value).map TypedId.mk

/-- `impl FromStr for DocumentId`. -/
def DocumentId.fromStr (value : String) : Except OkcError DocumentId :=
  (hashFromStr "doc" value).map DocumentId.mk

/-- `impl FromStr for BlockId`. -/
def BlockId.fromStr (value : String) : Except OkcError BlockId :=
  (hashFromStr "block" value).map BlockId.mk

/-! ## Hashes -/

/-- A text of 64 lowercase digits. -/
def HexText (value : String) : Prop :=
  (utf8 value).length = 64 ∧ (utf8 value).all lowerHexByte = true

/-- The texts of 64 lowercase digits are the texts of hashes. -/
theorem hexText_iff {value : String} : HexText value ↔ ∃ h : ContentHash, value = h.hex := by
  constructor
  · rintro ⟨hlength, hall⟩
    obtain ⟨bytes, hbytes⟩ := exists_hex (by rw [hlength]) hall
    have hvalue : value = hex bytes := utf8_injective hbytes
    rw [hbytes, length_utf8_hex] at hlength
    exact ⟨⟨bytes, by omega⟩, hvalue⟩
  · rintro ⟨h, rfl⟩
    refine ⟨?_, lowerHexByte_of_mem_hex h.bytes⟩
    rw [ContentHash.hex, length_utf8_hex, h.length_bytes]

/-- **A hash is read back from its text.** -/
theorem parseHex_hex (h : ContentHash) : ContentHash.parseHex h.hex = .ok h := by
  obtain ⟨hlength, hall⟩ := hexText_iff.mpr ⟨h, rfl⟩
  unfold ContentHash.parseHex
  rw [if_neg (by rw [hlength, hall]; simp), ContentHash.hex, decodeHex_hex]
  exact dif_pos h.length_bytes

theorem parseHex_eq_ok {value : String} {h : ContentHash} :
    ContentHash.parseHex value = .ok h ↔ value = h.hex := by
  constructor
  · intro hparse
    by_cases htext : HexText value
    · obtain ⟨k, rfl⟩ := hexText_iff.mp htext
      rw [parseHex_hex] at hparse
      rw [Except.ok.inj hparse]
    · unfold ContentHash.parseHex at hparse
      rw [if_pos] at hparse
      · cases hparse
      · by_contra hnot
        rw [not_or, not_not, Bool.not_eq_false] at hnot
        exact htext hnot
  · rintro rfl
    exact parseHex_hex h

/-! ## Families -/

theorem stripInitial_eq_some {initial value rest : String} :
    stripInitial initial value = some rest ↔ value = initial ++ rest := by
  unfold stripInitial
  constructor
  · intro h
    split_ifs at h with hinitial
    obtain ⟨tail, htail⟩ := hinitial
    obtain rfl := Option.some.inj h
    apply String.toList_inj.mp
    rw [← htail, List.drop_left, String.toList_append, String.toList_ofList]
  · rintro rfl
    rw [String.toList_append, if_pos (List.prefix_append _ _), List.drop_left, String.ofList_toList]

/-- **An identity is read from its own text only.** -/
theorem hashFromStr_eq_ok {word value : String} {h : ContentHash} :
    hashFromStr word value = .ok h ↔ value = word ++ "_" ++ h.hex := by
  unfold hashFromStr
  cases hstrip : stripInitial (word ++ "_") value with
  | none =>
    constructor
    · intro herror
      cases herror
    · intro hvalue
      rw [stripInitial_eq_some.mpr hvalue] at hstrip
      cases hstrip
  | some rest =>
    rw [stripInitial_eq_some.mp hstrip, parseHex_eq_ok]
    exact ⟨fun hrest => by rw [hrest], fun hvalue => String.append_right_inj _ |>.mp hvalue⟩

/-- **Reading inverts showing, for every family**: a text is read as an identity exactly when it is
what the identity is shown as, and it is read at all exactly when it is the prefix, an underscore
and 64 lowercase hexadecimal digits. -/
theorem fromStr_eq_ok (value : String) :
    (∀ (kind : IdKind) (id : TypedId kind),
        TypedId.fromStr kind value = .ok id ↔ value = id.toString) ∧
      (∀ id : DocumentId, DocumentId.fromStr value = .ok id ↔ value = id.toString) ∧
      (∀ id : BlockId, BlockId.fromStr value = .ok id ↔ value = id.toString) ∧
      ∀ word : String, (∃ h, hashFromStr word value = .ok h) ↔
        ∃ digits, HexText digits ∧ value = word ++ "_" ++ digits := by
  refine ⟨fun kind id => ?_, fun id => ?_, fun id => ?_, fun word => ⟨?_, ?_⟩⟩
  · exact (map_eq_ok fun _ _ h => congrArg TypedId.hash h).trans hashFromStr_eq_ok
  · exact (map_eq_ok fun _ _ h => congrArg DocumentId.hash h).trans hashFromStr_eq_ok
  · exact (map_eq_ok fun _ _ h => congrArg BlockId.hash h).trans hashFromStr_eq_ok
  · rintro ⟨h, hread⟩
    exact ⟨h.hex, hexText_iff.mpr ⟨h, rfl⟩, hashFromStr_eq_ok.mp hread⟩
  · rintro ⟨digits, htext, rfl⟩
    obtain ⟨h, rfl⟩ := hexText_iff.mp htext
    exact ⟨h, hashFromStr_eq_ok.mpr rfl⟩

end Okc.Core
