import Okc.Lib.FileTree
import Okc.Lib.Json

/-!
# Identities, hashes and errors (`identity.rs`, `canonical.rs`, `error.rs`)

A `ContentHash` is 32 bytes. The code obtains every hash from SHA-256 of a domain string followed
by bytes (`fromDomainBytes`) or by a value's canonical JSON (`canonicalHash`). SHA-256 and the
Unicode normalisation tables are third-party code: they are the fields of `Externals`, and a
result that needs a hash to separate two inputs says so by `NoCollisions` over the inputs it
means.

Typed identities wrap a hash and print it behind a prefix (`BlockId.toString_injective`).
-/

namespace Okc.Core

open Okc.Lib

/-- `ContentHash([u8; 32])`. -/
structure ContentHash where
  bytes : Bytes
  length_bytes : bytes.length = 32

namespace ContentHash

theorem bytes_injective : Function.Injective bytes := by
  intro h k he
  cases h
  cases k
  cases he
  rfl

/-- `derive(PartialOrd, Ord)`: the bytes in lexicographic order. -/
instance : LinearOrder ContentHash :=
  LinearOrder.lift' (fun h : ContentHash => h.bytes.map UInt8.toNat) fun _ _ h =>
    bytes_injective (Function.Injective.list_map (fun _ _ => UInt8.toNat_inj.mp) h)

/-- `ContentHash::hex`. -/
def hex (h : ContentHash) : String := Lib.hex h.bytes

theorem hex_injective : Function.Injective hex := fun _ _ h =>
  bytes_injective (Lib.hex_injective h)

theorem len_hex (h : ContentHash) : len h.hex = 64 := by
  rw [hex, Lib.len_hex, h.length_bytes]

/-- `impl Serialize for ContentHash`. -/
def toValue (h : ContentHash) : Value := .str h.hex

theorem toValue_injective : Function.Injective toValue := fun _ _ h =>
  hex_injective (Value.str_inj.mp h)

end ContentHash

/-! ## Typed identities -/

/-- `typed_id!(DocumentId, "doc")`. -/
structure DocumentId where
  hash : ContentHash

/-- `typed_id!(BlockId, "block")`. -/
structure BlockId where
  hash : ContentHash

theorem DocumentId.hash_injective : Function.Injective DocumentId.hash := by
  rintro ⟨_⟩ ⟨_⟩ h
  exact congrArg _ h

theorem BlockId.hash_injective : Function.Injective BlockId.hash := by
  rintro ⟨_⟩ ⟨_⟩ h
  exact congrArg _ h

instance : LinearOrder DocumentId :=
  LinearOrder.lift' DocumentId.hash DocumentId.hash_injective

instance : LinearOrder BlockId :=
  LinearOrder.lift' BlockId.hash BlockId.hash_injective

/-- `derive(PartialEq)` on the identities is equality. -/
instance : LawfulBEq ContentHash := inferInstance

instance : LawfulBEq DocumentId := inferInstance

instance : LawfulBEq BlockId := inferInstance

/-- `Display`: the prefix and the hash. -/
def DocumentId.toString (id : DocumentId) : String := "doc_" ++ id.hash.hex

def BlockId.toString (id : BlockId) : String := "block_" ++ id.hash.hex

theorem DocumentId.toString_injective : Function.Injective DocumentId.toString := fun _ _ h =>
  hash_injective (ContentHash.hex_injective (by simpa [toString] using h))

theorem BlockId.toString_injective : Function.Injective BlockId.toString := fun _ _ h =>
  hash_injective (ContentHash.hex_injective (by simpa [toString] using h))

def DocumentId.toValue (id : DocumentId) : Value := .str id.toString

def BlockId.toValue (id : BlockId) : Value := .str id.toString

theorem DocumentId.toValue_injective : Function.Injective DocumentId.toValue := fun _ _ h =>
  toString_injective (Value.str_inj.mp h)

theorem BlockId.toValue_injective : Function.Injective BlockId.toValue := fun _ _ h =>
  toString_injective (Value.str_inj.mp h)

/-! ## Third-party code -/

/-- What the code takes from other crates: `sha2`, `unicode-normalization` and `caseless`. -/
structure Externals where
  /-- `Sha256::digest`. -/
  sha256 : Bytes → ContentHash
  /-- `str::nfc().collect::<String>()`. -/
  nfc : String → String
  /-- `caseless::default_case_fold_str`. -/
  caseFold : String → String

/-- SHA-256 separates the given inputs. -/
def Externals.NoCollisions (X : Externals) (inputs : Set Bytes) : Prop :=
  Set.InjOn X.sha256 inputs

/-- `ContentHash::from_domain_bytes`. -/
def Externals.fromDomainBytes (X : Externals) (domain : String) (bytes : Bytes) : ContentHash :=
  X.sha256 (utf8 domain ++ bytes)

/-- The input of `canonical_hash`. -/
def hashInput (domain : String) (value : Value) : Bytes := utf8 domain ++ value.canonicalJson

/-- `canonical_hash`. -/
def Externals.canonicalHash (X : Externals) (domain : String) (value : Value) : ContentHash :=
  X.sha256 (hashInput domain value)

/-- `full_casefold_nfc`. -/
def Externals.fullCasefoldNfc (X : Externals) (value : String) : String :=
  X.caseFold (X.nfc value)

theorem hashInput_injective (domain : String) : Function.Injective (hashInput domain) :=
  fun _ _ h => Value.canonicalJson_injective (List.append_cancel_left h)

/-- Where SHA-256 separates the inputs, a canonical hash determines the value. -/
theorem eq_of_canonicalHash {X : Externals} {inputs : Set Bytes} (hX : X.NoCollisions inputs)
    {domain : String} {v w : Value} (hv : hashInput domain v ∈ inputs)
    (hw : hashInput domain w ∈ inputs)
    (h : X.canonicalHash domain v = X.canonicalHash domain w) : v = w :=
  hashInput_injective domain (hX hv hw h)

/-! ## Errors -/

/-- `OkcError`, with the kinds the modelled functions return. -/
inductive OkcError
  | invalidConfig (message : String)
  | unsafePath (path reason : String)
  | resourceLimit (message : String)
  | malformedInput (path reason : String)
  | identityMismatch (message : String)
  | planStale (message : String)
  | proposalInvalid (message : String)
  | approvalStale (message : String)
  | outputExists (path : String)
  | verificationFailed (message : String)
  | io (path : String) (source : FsError)
  | json (message : String)
  | internal (message : String)
deriving DecidableEq

end Okc.Core
