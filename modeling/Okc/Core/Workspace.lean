import Okc.Lib.Path
import Okc.Lib.Varint
import Okc.Core.Portable
import Okc.Core.Wikilink

/-!
# The canonical workspace (`ir.rs`, `identity.rs`, `config.rs`, `diagnostic.rs`)

The records the snapshot and parsing stages produce and the planner reads, the identities that
name them, and the compiler policy. A `BTreeMap` is its sorted entries.

* `eq_of_fromParts`: where SHA-256 separates the inputs, an identity computed from parts
  determines them.
* `CanvasReferenceTarget.key`: the order of the targets of a Canvas reference.
-/

namespace Okc.Core

open Okc.Lib

/-! ## Identities -/

/-- The families of `typed_id!` besides documents and blocks. -/
inductive IdKind
  | snapshot
  | file
  | section
  | link
  | asset
  | canvas
  | base
  | plan
  | operation
deriving DecidableEq

/-- The `$prefix` of a family. -/
def IdKind.word : IdKind → String
  | .snapshot => "snap"
  | .file => "file"
  | .section => "section"
  | .link => "link"
  | .asset => "asset"
  | .canvas => "canvas"
  | .base => "base"
  | .plan => "plan"
  | .operation => "op"

/-- `typed_id!`: a hash, shown behind the prefix of its family. -/
structure TypedId (kind : IdKind) where
  hash : ContentHash

abbrev SnapshotId := TypedId .snapshot
abbrev SourceFileId := TypedId .file
abbrev SectionId := TypedId .section
abbrev LinkId := TypedId .link
abbrev AssetId := TypedId .asset
abbrev CanvasId := TypedId .canvas
abbrev BaseArtifactId := TypedId .base
abbrev PlanId := TypedId .plan
abbrev OperationId := TypedId .operation

namespace TypedId

variable {kind : IdKind}

theorem hash_injective : Function.Injective (hash : TypedId kind → ContentHash) := by
  rintro ⟨_⟩ ⟨_⟩ h
  exact congrArg _ h

instance : LinearOrder (TypedId kind) := LinearOrder.lift' hash hash_injective

/-- `Display`. -/
def toString (id : TypedId kind) : String := kind.word ++ "_" ++ id.hash.hex

theorem toString_injective : Function.Injective (toString : TypedId kind → String) := fun _ _ h =>
  hash_injective (ContentHash.hex_injective (by simpa [toString] using h))

def toValue (id : TypedId kind) : Value := .str id.toString

theorem toValue_injective : Function.Injective (toValue : TypedId kind → Value) := fun _ _ h =>
  toString_injective (Value.str_inj.mp h)

end TypedId

/-- `ContentHash::from_bytes`. -/
def Externals.contentHash (X : Externals) (bytes : Bytes) : ContentHash :=
  X.fromDomainBytes "okc:content:v2\x00" bytes

/-- The input of `ContentHash::from_parts`. -/
def partsInput (domain : String) (parts : List Bytes) : Bytes :=
  utf8 domain ++ parts.flatMap lengthPrefixed

/-- `ContentHash::from_parts`. -/
def Externals.fromParts (X : Externals) (domain : String) (parts : List Bytes) : ContentHash :=
  X.sha256 (partsInput domain parts)

/-- Where SHA-256 separates the inputs, an identity computed from parts determines them. -/
theorem eq_of_fromParts {X : Externals} {inputs : Set Bytes} (hX : X.NoCollisions inputs)
    {domain : String} {ps qs : List Bytes} (hp : partsInput domain ps ∈ inputs)
    (hq : partsInput domain qs ∈ inputs) (h : X.fromParts domain ps = X.fromParts domain qs) :
    ps = qs :=
  parts_injective (List.append_cancel_left (hX hp hq h))

/-- `u64::to_be_bytes`. -/
def toBeBytes (value : Nat) : Bytes :=
  [56, 48, 40, 32, 24, 16, 8, 0].map fun shift => (value >>> shift).toUInt8

/-! ### Base32 suffixes -/

/-- `ALPHABET`. -/
def crockfordAlphabet : List Char := "0123456789ABCDEFGHJKMNPQRSTVWXYZ".toList

/-- The inner loop of `crockford_base32`: the characters that `bits` buffered bits give, and what
stays in the buffer. -/
def drainBits (buffer bits : Nat) : List Char × Nat × Nat :=
  if bits < 5 then ([], buffer, bits)
  else
    let rest := drainBits (buffer % 2 ^ (bits - 5)) (bits - 5)
    (crockfordAlphabet.getD (buffer >>> (bits - 5) % 32) '0' :: rest.1, rest.2)
termination_by bits
decreasing_by omega

/-- The loop of `crockford_base32`, with its `u16` buffer. -/
def crockfordFrom (buffer bits : Nat) : Bytes → List Char
  | [] => if 0 < bits then [crockfordAlphabet.getD (buffer <<< (5 - bits) % 32) '0'] else []
  | byte :: rest =>
    let (characters, buffer, bits) := drainBits ((buffer <<< 8) % 2 ^ 16 ||| byte.toNat) (bits + 8)
    characters ++ crockfordFrom buffer bits rest

def crockfordBase32 (bytes : Bytes) : String := String.ofList (crockfordFrom 0 0 bytes)

/-- `suffix_base32`. -/
def ContentHash.suffixBase32 (hash : ContentHash) (characters : Nat) : String :=
  String.ofList ((crockfordBase32 hash.bytes).toList.take (min characters 52))

/-! ## Files -/

inductive FileKind
  | markdown
  | canvas
  | base
  | asset
deriving DecidableEq

/-- `FileKind::classify`. -/
def FileKind.classify (path : String) : FileKind :=
  let is (word : String) := (extension path).any fun value => asciiLower value = word
  if is "md" then .markdown
  else if is "canvas" then .canvas
  else if is "base" then .base
  else .asset

def FileKind.mediaFamily : FileKind → String
  | .markdown => "text/markdown"
  | .canvas => "application/vnd.obsidian.canvas+json"
  | .base => "application/vnd.obsidian.base"
  | .asset => "application/octet-stream"

/-- The input of `SourceFileId::from_file`. -/
def fileInput (path kind : String) (contentHash : ContentHash) : Bytes :=
  utf8 "okc:file:v2\x00" ++ (lengthPrefixed (utf8 path) ++ (lengthPrefixed (utf8 kind) ++
    contentHash.bytes))

/-- `SourceFileId::from_file`. -/
def Externals.fileId (X : Externals) (path : String) (kind : FileKind) (contentHash : ContentHash) :
    SourceFileId := ⟨X.sha256 (fileInput path kind.mediaFamily contentHash)⟩

/-- The input of `SnapshotId::from_manifest`. -/
def manifestInput (sourceId policyId : String) (manifest : List (String × SourceFileId)) : Bytes :=
  utf8 "okc:snapshot:v2\x00" ++ (lengthPrefixed (utf8 sourceId) ++
    (lengthPrefixed (utf8 policyId) ++
      manifest.flatMap fun entry => lengthPrefixed (utf8 entry.1) ++ entry.2.hash.bytes))

/-- `SnapshotId::from_manifest`. -/
def Externals.snapshotId (X : Externals) (sourceId policyId : String)
    (manifest : List (String × SourceFileId)) : SnapshotId :=
  ⟨X.sha256 (manifestInput sourceId policyId manifest)⟩

/-- `SourceFile`. Its encoding has one value, `Utf8`. -/
structure SourceFile where
  sourceId : SourceId
  snapshotId : SnapshotId
  fileId : SourceFileId
  originalPath : String
  logicalPath : String
  kind : FileKind
  byteLen : Nat
  rawSha256 : String
  contentHash : ContentHash
deriving DecidableEq

/-! ## Documents -/

structure SourceSpan where
  byteStart : Nat
  byteEnd : Nat
deriving DecidableEq

inductive BlockKind
  | heading
  | paragraph
  | code
  | quote
  | list
  | callout
  | math
  | other
deriving DecidableEq

structure Block where
  blockId : BlockId
  kind : BlockKind
  span : SourceSpan
  contentHash : ContentHash
  comparisonText : String
  explicitId : Option String
deriving DecidableEq

structure Section where
  sectionId : SectionId
  headingLevel : Nat
  heading : String
  headingPath : List String
  blocks : List BlockId
  span : SourceSpan
deriving DecidableEq

inductive LinkResolution
  | pending
  | resolved (documentId : DocumentId)
  | unresolved
  | ambiguous (candidates : List DocumentId)
  | asset (assetId : AssetId)
deriving DecidableEq

/-- `Link`: what the scanner found, under its identity and with its resolution. -/
structure DocumentLink extends Link where
  linkId : LinkId
  resolution : LinkResolution
deriving DecidableEq

structure Document where
  documentId : DocumentId
  sourceFile : SourceFile
  title : Option String
  aliases : List String
  tags : List String
  frontmatter : Option Value
  frontmatterHash : ContentHash
  bodyHash : ContentHash
  comparisonText : String
  sections : List Section
  blocks : List Block
  links : List DocumentLink
deriving DecidableEq

/-! ## Canvases, assets and Bases -/

inductive CanvasReferenceTarget
  | document (id : DocumentId)
  | asset (id : AssetId)
  | canvas (id : CanvasId)
  | base (id : BaseArtifactId)
deriving DecidableEq

/-- The variant's index and its identity. -/
def CanvasReferenceTarget.key : CanvasReferenceTarget → Nat ×ₗ ContentHash
  | .document id => toLex (0, id.hash)
  | .asset id => toLex (1, id.hash)
  | .canvas id => toLex (2, id.hash)
  | .base id => toLex (3, id.hash)

theorem CanvasReferenceTarget.key_injective : Function.Injective CanvasReferenceTarget.key := by
  rintro (⟨⟨_⟩⟩ | ⟨⟨_⟩⟩ | ⟨⟨_⟩⟩ | ⟨⟨_⟩⟩) (⟨⟨_⟩⟩ | ⟨⟨_⟩⟩ | ⟨⟨_⟩⟩ | ⟨⟨_⟩⟩) h <;>
    simp_all [CanvasReferenceTarget.key]

/-- `derive(PartialOrd, Ord)`. -/
instance : LinearOrder CanvasReferenceTarget :=
  LinearOrder.lift' CanvasReferenceTarget.key CanvasReferenceTarget.key_injective

inductive CanvasReferenceResolution
  | pending
  | resolved (target : CanvasReferenceTarget)
  | unresolved
  | ambiguous (candidates : List CanvasReferenceTarget)
deriving DecidableEq

structure CanvasFileReference where
  nodeId : String
  rawPath : String
  resolution : CanvasReferenceResolution
deriving DecidableEq

structure Canvas where
  canvasId : CanvasId
  sourceFile : SourceFile
  value : Value
  fileReferences : List CanvasFileReference
deriving DecidableEq

structure Asset where
  assetId : AssetId
  /-- Every occurrence of these bytes, sorted by source, logical path and file. -/
  sources : List SourceFile
  /-- Basename of the first occurrence. -/
  basename : String
deriving DecidableEq

structure BaseArtifact where
  baseArtifactId : BaseArtifactId
  sourceFile : SourceFile
deriving DecidableEq

structure CanonicalWorkspace where
  documents : List (DocumentId × Document)
  canvases : List (CanvasId × Canvas)
  assets : List (AssetId × Asset)
  bases : List BaseArtifact
deriving DecidableEq

def CanonicalWorkspace.empty : CanonicalWorkspace := ⟨[], [], [], []⟩

def sourceBasename (file : SourceFile) : String := (fileName file.logicalPath).getD "asset"

/-- `Asset::from_source`. -/
def Asset.fromSource (assetId : AssetId) (file : SourceFile) : Asset :=
  ⟨assetId, [file], sourceBasename file⟩

/-- `(source_id, logical_path, file_id)`. -/
def SourceFile.key (file : SourceFile) : String ×ₗ String ×ₗ SourceFileId :=
  toLex (file.sourceId.value, toLex (file.logicalPath, file.fileId))

/-- `Vec::dedup_by`: an element equal to the one kept before it is dropped. -/
def dedupBy {α : Type} (same : α → α → Bool) : List α → List α
  | [] => []
  | x :: xs => x :: dedupBy same (xs.dropWhile fun y => same y x)
termination_by xs => xs.length
decreasing_by
  have := List.length_dropWhile_le (fun y => same y x) xs
  simp only [List.length_cons]
  omega

/-- `Asset::merge_sources`. -/
def Asset.mergeSources (asset : Asset) (sources : List SourceFile) : Asset :=
  let sorted := (asset.sources ++ sources).mergeSort fun a b => decide (a.key ≤ b.key)
  let merged := dedupBy (fun a b => a.snapshotId = b.snapshotId ∧ a.fileId = b.fileId) sorted
  { asset with
    sources := merged
    basename := (merged.head?.map sourceBasename).getD asset.basename }

/-- `Asset::canonical_source`. -/
def Asset.canonicalSource (asset : Asset) : Option SourceFile := asset.sources.head?

/-- A short note without title, frontmatter, headings and links, whose hashes spell `i`. -/
def plainNote (sourceId path : String) (i : Nat) : Document where
  documentId := ⟨indexHash i⟩
  sourceFile := {
    sourceId := ⟨sourceId⟩
    snapshotId := ⟨indexHash 0⟩
    fileId := ⟨indexHash i⟩
    originalPath := path
    logicalPath := path
    kind := .markdown
    byteLen := 2
    rawSha256 := (indexHash i).hex
    contentHash := indexHash i }
  title := none
  aliases := []
  tags := []
  frontmatter := none
  frontmatterHash := indexHash 0
  bodyHash := indexHash i
  comparisonText := "Hi"
  sections := []
  blocks := []
  links := []

end Okc.Core
