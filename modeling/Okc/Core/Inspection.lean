import Okc.Core.Parse

/-!
# Inspection (`snapshot.rs`, `plan.rs:27-60`)

Reading sources under a policy: the files of each are collected, sealed into a snapshot and parsed
into one workspace. A directory walk or an archive reader presents the files that are not excluded
as `SourceItem`s; what the modelled collector makes of them is what the three collectors of the
source share, and the checks of their own formats only reject more.
-/

namespace Okc.Core

open Okc.Lib

def sourcePolicyId : String := "okc-source-v2"

def inspectionSchemaVersion : Nat := 2

inductive SourceFormat
  | directory
  | zip
  | tarZst
deriving DecidableEq

/-- `SourceSpec`. -/
structure SourceSpec where
  format : SourceFormat
  sourceId : SourceId
  path : String
  ownerDisplayName : Option String

/-- A file as a walk or an archive reader presents it. -/
structure SourceItem where
  /-- Its path relative to the root of the source. -/
  path : String
  bytes : Bytes

structure RawEntry where
  originalPath : String
  logicalPath : String
  kind : FileKind
  bytes : Bytes

structure VaultSnapshot where
  snapshotId : SnapshotId
  vaultContentId : ContentHash
  sourceId : SourceId
  source : SourceSpec
  policyId : String
  files : List SourceFile

structure Inspection where
  schemaVersion : Nat
  compilerVersion : String
  policyHash : ContentHash
  inspectionHash : ContentHash
  snapshots : List VaultSnapshot
  workspace : CanonicalWorkspace
  diagnostics : List Diagnostic

/-! ## Collecting -/

section Collect

variable (X : Externals) (policy : CompilerPolicy) (source : SourceSpec)

/-- `decode_directory_path` or `decode_archive_path`. -/
def decodeItemPath (path : String) : Except OkcError SourcePathPair :=
  match source.format with
  | .directory => buildSourcePathPair X policy.pathLimits (splitSlash path) path
  | .zip | .tarZst => decodeArchivePath X policy.pathLimits path false

/-- A file that exceeds the limit for one file, as its collector reports it. -/
def oversizedFile (pair : SourcePathPair) : OkcError :=
  .resourceLimit <| match source.format with
  | .directory => "\x60" ++ source.path ++ "/" ++ pair.originalPath ++ "\x60 exceeds per-file limit"
  | .zip => "ZIP member \x60" ++ pair.logicalPath ++ "\x60 exceeds per-file limit"
  | .tarZst => "tar.zst member \x60" ++ pair.logicalPath ++ "\x60 exceeds per-file limit"

def validateStructuredSize (path : String) (bytes : Bytes) : Except OkcError Unit :=
  reject (FileKind.classify path ≠ .asset ∧
      policy.limits.maxStructuredTextBytes < bytes.length)
    (.resourceLimit ("structured file \x60" ++ path ++ "\x60 exceeds text limit"))

def enforceFileLimits (files totalBytes : Nat) : Except OkcError Unit := do
  reject (policy.limits.maxFiles < files)
    (.resourceLimit "file count exceeds configured maximum")
  reject (policy.limits.maxTotalBytes < totalBytes)
    (.resourceLimit "total bytes exceed configured maximum")

/-- The loop body of a collector, after the entries collected so far. -/
def collectItem (entries : List RawEntry) (item : SourceItem) :
    Except OkcError (List RawEntry) := do
  let pair ← decodeItemPath X policy source item.path
  reject (pair.logicalPath ∈ entries.map RawEntry.logicalPath)
    (.unsafePath pair.logicalPath "duplicate source path after NFC normalization")
  reject (policy.limits.maxFileBytes < item.bytes.length) (oversizedFile source pair)
  validateStructuredSize policy pair.logicalPath item.bytes
  enforceFileLimits policy (entries.length + 1)
    ((entries.map fun entry => entry.bytes.length).sum + item.bytes.length)
  .ok (entries ++ [⟨pair.originalPath, pair.logicalPath, .classify pair.logicalPath, item.bytes⟩])

/-- `collect_entries`. -/
def collectEntries (items : List SourceItem) : Except OkcError (List RawEntry) :=
  items.foldlM (collectItem X policy source) []

end Collect

/-! ## Sealing -/

/-- What `seal_and_parse` keeps of an entry. -/
def sourceFile (X : Externals) (sourceId : SourceId) (snapshotId : SnapshotId) (entry : RawEntry) :
    SourceFile :=
  let contentHash := X.contentHash entry.bytes
  { sourceId := sourceId
    snapshotId := snapshotId
    fileId := X.fileId entry.logicalPath entry.kind contentHash
    originalPath := entry.originalPath
    logicalPath := entry.logicalPath
    kind := entry.kind
    byteLen := entry.bytes.length
    rawSha256 := (X.sha256 entry.bytes).hex
    contentHash := contentHash }

/-- The manifest of an entry: its path and its file identity. -/
def manifestEntry (X : Externals) (entry : RawEntry) : String × SourceFileId :=
  (entry.logicalPath, X.fileId entry.logicalPath entry.kind (X.contentHash entry.bytes))

/-- The input of `vault_content_id`. -/
def manifestValue (manifest : List (String × SourceFileId)) : Value :=
  .arr (manifest.map fun entry => .arr [.str entry.1, entry.2.toValue])

/-- `seal_and_parse`, with the diagnostics pushed so far. -/
def sealAndParse (X : Crates) (policy : CompilerPolicy) (source : SourceSpec)
    (entries : List RawEntry) (diagnostics : List Diagnostic) :
    Except OkcError (VaultSnapshot × Parsed) := do
  let entries := entries.mergeSort fun a b => decide (a.logicalPath ≤ b.logicalPath)
  let manifest := entries.map (manifestEntry X.toExternals)
  let snapshotId := X.snapshotId source.sourceId.value sourcePolicyId manifest
  let parsed ← entries.foldlM
    (fun p entry => parseFile X policy.pathLimits p
      (sourceFile X.toExternals source.sourceId snapshotId entry) entry.bytes)
    ⟨.empty, diagnostics⟩
  .ok ({
    snapshotId := snapshotId
    vaultContentId := X.canonicalHash "okc:vault-content:v2\x00" (manifestValue manifest)
    sourceId := source.sourceId
    source := source
    policyId := sourcePolicyId
    files := entries.map (sourceFile X.toExternals source.sourceId snapshotId) }, parsed)

/-! ## Inspecting -/

/-- The entries that the policy's nonstandard extensions leave, and a diagnostic for each other. -/
def excludeNonstandard (policy : CompilerPolicy) (entries : List RawEntry) :
    List RawEntry × List Diagnostic :=
  if policy.paths.nonstandardFiles = .exclude then
    let explicit (entry : RawEntry) : Bool := (extension entry.logicalPath).any fun value =>
      policy.paths.nonstandardExtensions.any fun candidate =>
        decide (asciiLower candidate = asciiLower value)
    (entries.filter fun entry => !explicit entry,
      (entries.filter explicit).map fun entry => .warningFor .excludedPath
        "nonstandard file excluded explicitly by policy" entry.logicalPath)
  else (entries, [])

/-- The loop state of `inspect_sources`. -/
structure InspectLoop where
  snapshots : List VaultSnapshot
  parsed : Parsed
  totalFiles : Nat
  totalBytes : Nat

/-- The records of one source join those of the sources before it. -/
def CanonicalWorkspace.extend (w parsed : CanonicalWorkspace) : CanonicalWorkspace where
  documents := parsed.documents.foldl (fun m e => insertKey e.1 e.2 m) w.documents
  canvases := parsed.canvases.foldl (fun m e => insertKey e.1 e.2 m) w.canvases
  assets := parsed.assets.foldl (fun m e => insertKey e.1 (match get? e.1 m with
    | some asset => asset.mergeSources e.2.sources
    | none => e.2) m) w.assets
  bases := w.bases ++ parsed.bases

/-- The loop body of `inspect_sources`. -/
def inspectSource (X : Crates) (policy : CompilerPolicy) (s : InspectLoop)
    (input : SourceSpec × List SourceItem) : Except OkcError InspectLoop := do
  let collected ← collectEntries X.toExternals policy input.1 input.2
  let (entries, excluded) := excludeNonstandard policy collected
  let totalFiles := s.totalFiles + entries.length
  let totalBytes := s.totalBytes + (entries.map fun entry => entry.bytes.length).sum
  reject (policy.limits.maxFiles < totalFiles)
    (.resourceLimit ("file count exceeds " ++ Nat.repr policy.limits.maxFiles))
  reject (policy.limits.maxTotalBytes < totalBytes)
    (.resourceLimit ("total bytes exceed " ++ Nat.repr policy.limits.maxTotalBytes))
  let (snapshot, parsed) ← sealAndParse X policy input.1 entries (s.parsed.diagnostics ++ excluded)
  .ok ⟨s.snapshots ++ [snapshot],
    ⟨s.parsed.workspace.extend parsed.workspace, parsed.diagnostics⟩, totalFiles, totalBytes⟩

/-- `InspectionIdentity`. -/
def inspectionIdentity (schemaVersion : Nat) (compilerVersion : String) (policyHash : ContentHash)
    (snapshots : List VaultSnapshot) : Value :=
  .object [("schema_version", .nat schemaVersion), ("compiler_version", .str compilerVersion),
    ("policy_hash", policyHash.toValue),
    ("snapshots", .arr (snapshots.map fun snapshot => snapshot.snapshotId.toValue))]

def Externals.inspectionHash (X : Externals) (schemaVersion : Nat) (compilerVersion : String)
    (policyHash : ContentHash) (snapshots : List VaultSnapshot) : ContentHash :=
  X.canonicalHash "okc:inspection:v2\x00"
    (inspectionIdentity schemaVersion compilerVersion policyHash snapshots)

/-- The order of diagnostics: path, code, message. -/
def Diagnostic.key (d : Diagnostic) : (WithBot String) ×ₗ Nat ×ₗ String :=
  toLex (d.logicalPath.elim ⊥ fun path => path, toLex (d.code.ctorIdx, d.message))

def sortDiagnostics (diagnostics : List Diagnostic) : List Diagnostic :=
  diagnostics.mergeSort fun a b => decide (a.key ≤ b.key)

/-- `inspect_sources`. -/
def inspectSources (X : Crates) (policy : CompilerPolicy)
    (sources : List (SourceSpec × List SourceItem)) : Except OkcError Inspection := do
  policy.validate X
  reject (sources = []) (.invalidConfig "at least one source is required")
  reject (policy.limits.maxSources < sources.length)
    (.resourceLimit (Nat.repr sources.length ++ " sources exceeds configured maximum " ++
      Nat.repr policy.limits.maxSources))
  reject (¬ (sources.map fun input => input.1.sourceId).Nodup)
    (.invalidConfig "source IDs must be unique within an inspection")
  let s ← sources.foldlM (inspectSource X policy) ⟨[], ⟨.empty, []⟩, 0, 0⟩
  let snapshots := s.snapshots.mergeSort fun a b => decide (a.sourceId.value ≤ b.sourceId.value)
  scan (fun before snapshot =>
      reject (snapshot.vaultContentId ∈ before.map VaultSnapshot.vaultContentId)
        (.invalidConfig ("Vault bytes were registered more than once; duplicate detected at " ++
          "source \x60" ++ snapshot.sourceId.value ++ "\x60"))) [] snapshots
  let policyHash := policy.semanticHash X
  .ok {
    schemaVersion := inspectionSchemaVersion
    compilerVersion := productVersion
    policyHash := policyHash
    inspectionHash := X.inspectionHash inspectionSchemaVersion productVersion policyHash snapshots
    snapshots := snapshots
    workspace := s.parsed.workspace
    diagnostics := sortDiagnostics s.parsed.diagnostics }

end Okc.Core
