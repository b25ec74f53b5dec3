import Okc.Core.Workspace

/-!
# What the identities are hashes of (`identity.rs:17-32`, `identity.rs:170-209`,
`identity.rs:233-245`)

The hasher is fed piece by piece, a text behind its length and a hash as it is. A hasher is here the
bytes that it was fed.

* `writeUleb128_eq`: the loop over a `u64` writes its groups of seven bits.
* `partsStream_eq`, `fileStream_eq`, `manifestStream_eq`: what is fed is what the other modules
  hash.
* `preimages_injective`: it determines what it was made from.
-/

namespace Okc.Core

open Okc.Lib

/-- `&[u8]`: the length is a `usize`. -/
structure Slice where
  bytes : Bytes
  fits : bytes.length < 2 ^ 64

/-- `&str`. -/
structure Str where
  text : String
  fits : len text < 2 ^ 64

theorem Slice.bytes_injective : Function.Injective Slice.bytes := by
  rintro ⟨_, _⟩ ⟨_, _⟩ rfl
  rfl

theorem Str.text_injective : Function.Injective Str.text := by
  rintro ⟨_, _⟩ ⟨_, _⟩ rfl
  rfl

/-- `str::as_bytes`. -/
def Str.asBytes (s : Str) : Slice := ⟨utf8 s.text, by rw [length_utf8]; exact s.fits⟩

/-! ## Feeding the hasher -/

theorem toNat_shiftRight_seven (value : UInt64) : (value >>> 7).toNat = value.toNat / 128 := by
  rw [UInt64.toNat_shiftRight]
  exact Nat.shiftRight_eq_div_pow _ 7

/-- `write_uleb128`. -/
def writeUleb128 (hasher : Bytes) (value : UInt64) : Bytes :=
  let byte := (value &&& 0x7f).toUInt8
  let rest := value >>> 7
  let byte := if rest ≠ 0 then byte ||| 0x80 else byte
  let hasher := hasher ++ [byte]
  if rest = 0 then hasher else writeUleb128 hasher rest
termination_by value.toNat
decreasing_by
  rename_i hne
  have hpos : rest.toNat ≠ 0 := fun h0 => hne (UInt64.toNat_inj.mp h0)
  rw [toNat_shiftRight_seven] at hpos ⊢
  omega

/-- `write_length_prefixed`. -/
def writeLengthPrefixed (hasher : Bytes) (bytes : Slice) : Bytes :=
  writeUleb128 hasher (UInt64.ofNat bytes.bytes.length) ++ bytes.bytes

/-- What `ContentHash::from_parts` hashes. -/
def partsStream (domain : String) (parts : List Slice) : Bytes :=
  parts.foldl (fun hasher part =>
    writeUleb128 hasher (UInt64.ofNat part.bytes.length) ++ part.bytes) (utf8 domain)

/-- What `SourceFileId::from_file` hashes. -/
def fileStream (path kind : Str) (contentHash : ContentHash) : Bytes :=
  let hasher := utf8 "okc:file:v2\x00"
  let hasher := writeLengthPrefixed hasher path.asBytes
  let hasher := writeLengthPrefixed hasher kind.asBytes
  hasher ++ contentHash.bytes

/-- What `SnapshotId::from_manifest` hashes. -/
def manifestStream (sourceId policyId : Str) (manifest : List (Str × SourceFileId)) : Bytes :=
  let hasher := utf8 "okc:snapshot:v2\x00"
  let hasher := writeLengthPrefixed hasher sourceId.asBytes
  let hasher := writeLengthPrefixed hasher policyId.asBytes
  manifest.foldl (fun hasher entry =>
    writeLengthPrefixed hasher entry.1.asBytes ++ entry.2.hash.bytes) hasher

/-! ## What is fed -/

theorem toNat_low_seven (value : UInt64) :
    ((value &&& 0x7f).toUInt8).toNat = value.toNat % 128 := by
  have hmask : (0x7f : UInt64).toNat = 2 ^ 7 - 1 := rfl
  rw [UInt64.toNat_toUInt8, UInt64.toNat_and, hmask, Nat.and_two_pow_sub_one_eq_mod]
  omega

/-- The high bit is set on top of the seven. -/
theorem toNat_or_high {byte : UInt8} (h : byte.toNat < 128) :
    (byte ||| 0x80).toNat = byte.toNat + 128 := by
  have hor : 2 ^ 7 * 1 + byte.toNat = 2 ^ 7 * 1 ||| byte.toNat := Nat.two_pow_add_eq_or_of_lt h 1
  rw [UInt8.toNat_or, Nat.or_comm, Nat.add_comm]
  exact hor.symm

/-- **The loop writes the groups of seven bits of its value.** -/
theorem writeUleb128_eq (hasher : Bytes) (value : UInt64) :
    writeUleb128 hasher value = hasher ++ uleb128 value.toNat := by
  induction hn : value.toNat using Nat.strongRecOn generalizing hasher value with
  | ind n ih =>
    subst hn
    have hrest := toNat_shiftRight_seven value
    have hlow := toNat_low_seven value
    unfold writeUleb128
    by_cases hlast : value >>> 7 = 0
    · have hsmall : value.toNat < 128 := by
        have := congrArg UInt64.toNat hlast
        rw [hrest, UInt64.toNat_zero] at this
        omega
      have hbyte : (value &&& 0x7f).toUInt8 = value.toNat.toUInt8 := by
        apply UInt8.toNat_inj.mp
        rw [hlow, toNat_toUInt8 (by omega)]
        omega
      rw [uleb128_last hsmall, ← hbyte]
      simp [hlast]
    · have hlarge : ¬ value.toNat < 128 := by
        intro hsmall
        refine hlast (UInt64.toNat_inj.mp ?_)
        rw [hrest, UInt64.toNat_zero]
        omega
      have hbyte : (value &&& 0x7f).toUInt8 ||| 0x80 = (value.toNat % 128 + 128).toUInt8 := by
        apply UInt8.toNat_inj.mp
        rw [toNat_or_high (by omega), hlow, toNat_toUInt8 (by omega)]
      have htail := ih (value >>> 7).toNat (by omega)
        (hasher ++ [(value &&& 0x7f).toUInt8 ||| 0x80]) (value >>> 7) rfl
      simp only [hlast, ne_eq, not_false_eq_true, if_true, if_false]
      rw [htail, uleb128_more hlarge, ← hbyte, hrest, List.append_assoc]
      rfl

theorem toNat_length (bytes : Slice) :
    (UInt64.ofNat bytes.bytes.length).toNat = bytes.bytes.length :=
  UInt64.toNat_ofNat_of_lt' bytes.fits

theorem writeLengthPrefixed_eq (hasher : Bytes) (bytes : Slice) :
    writeLengthPrefixed hasher bytes = hasher ++ lengthPrefixed bytes.bytes := by
  rw [writeLengthPrefixed, writeUleb128_eq, toNat_length, lengthPrefixed, List.append_assoc]

/-- A loop that feeds a record for each item feeds the records in order. -/
theorem foldl_feed {α : Type} {feed : Bytes → α → Bytes} {encode : α → Bytes}
    (h : ∀ hasher a, feed hasher a = hasher ++ encode a) (hasher : Bytes) (l : List α) :
    l.foldl feed hasher = hasher ++ l.flatMap encode := by
  induction l generalizing hasher with
  | nil => simp
  | cons a l ih => rw [List.foldl_cons, ih, h, List.flatMap_cons, List.append_assoc]

theorem partsStream_eq (domain : String) (parts : List Slice) :
    partsStream domain parts = partsInput domain (parts.map Slice.bytes) := by
  have hfeed : ∀ (hasher : Bytes) (part : Slice),
      writeUleb128 hasher (UInt64.ofNat part.bytes.length) ++ part.bytes =
        hasher ++ lengthPrefixed part.bytes := writeLengthPrefixed_eq
  unfold partsStream partsInput
  rw [foldl_feed hfeed, List.flatMap_map]

theorem fileStream_eq (path kind : Str) (contentHash : ContentHash) :
    fileStream path kind contentHash = fileInput path.text kind.text contentHash := by
  unfold fileStream fileInput
  simp only [writeLengthPrefixed_eq, List.append_assoc]
  rfl

/-- What is fed for a member of the manifest. -/
def memberRecord (entry : String × SourceFileId) : Bytes :=
  lengthPrefixed (utf8 entry.1) ++ entry.2.hash.bytes

theorem manifestStream_eq (sourceId policyId : Str) (manifest : List (Str × SourceFileId)) :
    manifestStream sourceId policyId manifest =
      manifestInput sourceId.text policyId.text (manifest.map fun e => (e.1.text, e.2)) := by
  have hfeed : ∀ (hasher : Bytes) (entry : Str × SourceFileId),
      writeLengthPrefixed hasher entry.1.asBytes ++ entry.2.hash.bytes =
        hasher ++ memberRecord (entry.1.text, entry.2) := by
    intro hasher entry
    rw [writeLengthPrefixed_eq, List.append_assoc]
    rfl
  unfold manifestStream manifestInput
  dsimp only
  rw [foldl_feed hfeed, writeLengthPrefixed_eq, writeLengthPrefixed_eq, List.flatMap_map,
    List.append_assoc, List.append_assoc]
  rfl

/-! ## What it was made from -/

/-- A member ends by itself: its path is behind its length, and its identity has 32 bytes. -/
theorem selfDelimiting_memberRecord : SelfDelimiting memberRecord where
  nonempty entry h := lengthPrefixed_ne_nil _ (List.append_eq_nil_iff.mp h).1
  append_inj {a b r s} h := by
    unfold memberRecord at h
    rw [List.append_assoc, List.append_assoc] at h
    obtain ⟨hpath, hrest⟩ := lengthPrefixed_append_inj h
    obtain ⟨hhash, htail⟩ := List.append_inj hrest
      (a.2.hash.length_bytes.trans b.2.hash.length_bytes.symm)
    have hid : a.2 = b.2 := TypedId.hash_injective (ContentHash.bytes_injective hhash)
    exact ⟨Prod.ext (utf8_injective hpath) hid, htail⟩

theorem partsInput_injective (domain : String) : Function.Injective (partsInput domain) :=
  fun _ _ h => parts_injective (List.append_cancel_left h)

theorem fileInput_inj {path path' kind kind' : String} {hash hash' : ContentHash}
    (h : fileInput path kind hash = fileInput path' kind' hash') :
    path = path' ∧ kind = kind' ∧ hash = hash' := by
  unfold fileInput at h
  obtain ⟨hpath, hrest⟩ := lengthPrefixed_append_inj (List.append_cancel_left h)
  obtain ⟨hkind, hhash⟩ := lengthPrefixed_append_inj hrest
  exact ⟨utf8_injective hpath, utf8_injective hkind, ContentHash.bytes_injective hhash⟩

theorem manifestInput_inj {source source' policy policy' : String}
    {manifest manifest' : List (String × SourceFileId)}
    (h : manifestInput source policy manifest = manifestInput source' policy' manifest') :
    source = source' ∧ policy = policy' ∧ manifest = manifest' := by
  unfold manifestInput at h
  obtain ⟨hsource, hrest⟩ := lengthPrefixed_append_inj (List.append_cancel_left h)
  obtain ⟨hpolicy, hmembers⟩ := lengthPrefixed_append_inj hrest
  exact ⟨utf8_injective hsource, utf8_injective hpolicy,
    selfDelimiting_memberRecord.flatMap_injective hmembers⟩

/-- **What is hashed determines what it was made from.** -/
theorem preimages_injective (domain : String) :
    Function.Injective (partsStream domain) ∧
      (Function.Injective fun file : Str × Str × ContentHash =>
        fileStream file.1 file.2.1 file.2.2) ∧
      (Function.Injective fun snapshot : Str × Str × List (Str × SourceFileId) =>
        manifestStream snapshot.1 snapshot.2.1 snapshot.2.2) := by
  refine ⟨fun parts parts' h => ?_, fun file file' h => ?_, fun snapshot snapshot' h => ?_⟩
  · rw [partsStream_eq, partsStream_eq] at h
    exact List.map_injective_iff.mpr Slice.bytes_injective (partsInput_injective domain h)
  · simp only [fileStream_eq] at h
    obtain ⟨hpath, hkind, hhash⟩ := fileInput_inj h
    exact Prod.ext (Str.text_injective hpath) (Prod.ext (Str.text_injective hkind) hhash)
  · simp only [manifestStream_eq] at h
    obtain ⟨hsource, hpolicy, hmanifest⟩ := manifestInput_inj h
    have hentry : Function.Injective fun e : Str × SourceFileId => (e.1.text, e.2) := by
      intro e e' he
      obtain ⟨htext, hid⟩ := Prod.mk.inj he
      exact Prod.ext (Str.text_injective htext) hid
    exact Prod.ext (Str.text_injective hsource) (Prod.ext (Str.text_injective hpolicy)
      (List.map_injective_iff.mpr hentry hmanifest))

end Okc.Core
