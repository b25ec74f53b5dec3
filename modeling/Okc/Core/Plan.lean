import Okc.Core.OutputPlan

/-!
# The draft plan (`plan.rs:62-221`, `plan.rs:512-1090`, `plan.rs:1092-1644`, `plan.rs:1859-1961`)

`build_plan` finds the duplicates of an inspection, gives every record a place in the output,
records what it could not decide as conflicts, resolves the links and turns all of it into
operations. The plan is checked as a whole before it is returned, and again whenever it is read.
-/

namespace Okc.Core

open Okc.Lib

def planSchemaVersion : Nat := 2

structure PlanResourceEstimate where
  sourceFiles : Nat
  sourceBytes : Nat
  noteCount : Nat
  estimatedOutputBytes : Nat
  estimatedPeakWorkingSetBytes : Nat
deriving DecidableEq

/-- `PlanIdentity`: the facts that a plan is identified by. -/
structure PlanIdentity where
  schemaVersion : Nat
  compilerVersion : String
  policyHash : ContentHash
  inspectionHash : ContentHash
  projectionHash : ContentHash
  paths : OutputPathMaps
  operations : List OutputOperation
  resourceEstimate : PlanResourceEstimate
  exactGroups : List ExactDuplicateGroup
  nearCandidates : List NearDuplicateCandidate
  conflicts : List Conflict
  diagnostics : List Diagnostic

/-- `DraftPlan`; its four maps of output paths are one field. -/
structure DraftPlan where
  schemaVersion : Nat
  compilerVersion : String
  planId : PlanId
  projectionHash : ContentHash
  policy : CompilerPolicy
  inspectionHash : ContentHash
  snapshots : List VaultSnapshot
  workspace : CanonicalWorkspace
  paths : OutputPathMaps
  operations : List OutputOperation
  resourceEstimate : PlanResourceEstimate
  exactGroups : List ExactDuplicateGroup
  nearCandidates : List NearDuplicateCandidate
  conflicts : List Conflict
  diagnostics : List Diagnostic

/-- How `serde` writes what is hashed: the workspace, with the nodes and edges of its canvases, and
the facts of a plan. -/
structure PlanEncoding where
  workspace : CanonicalWorkspace → Value
  identity : PlanIdentity → Value

/-- `projection_hash`. -/
def Externals.projectionHash (X : Externals) (E : PlanEncoding) (w : CanonicalWorkspace) :
    ContentHash :=
  X.canonicalHash "okc:projection:v2\x00" (E.workspace w)

/-- `calculate_plan_id`. -/
def calculatePlanId (X : Externals) (E : PlanEncoding) (identity : PlanIdentity) : PlanId :=
  ⟨X.canonicalHash "okc:plan:v2\x00" (E.identity identity)⟩

def DraftPlan.identity (plan : DraftPlan) (policyHash : ContentHash) : PlanIdentity where
  schemaVersion := plan.schemaVersion
  compilerVersion := plan.compilerVersion
  policyHash := policyHash
  inspectionHash := plan.inspectionHash
  projectionHash := plan.projectionHash
  paths := plan.paths
  operations := plan.operations
  resourceEstimate := plan.resourceEstimate
  exactGroups := plan.exactGroups
  nearCandidates := plan.nearCandidates
  conflicts := plan.conflicts
  diagnostics := plan.diagnostics

/-! ## The sealed sources -/

/-- The manifest that the identities of a snapshot are computed from. -/
def VaultSnapshot.manifest (snapshot : VaultSnapshot) : List (String × SourceFileId) :=
  snapshot.files.map fun file => (file.logicalPath, file.fileId)

/-- `total_files` and `total_bytes`. -/
structure SealedTotals where
  files : Nat
  bytes : Nat

/-- `checked_add`. -/
def checkedTotal (message : String) (total n : Nat) : Except OkcError Nat := do
  reject (2 ^ 64 ≤ total + n) (.resourceLimit message)
  .ok (total + n)

section

variable (X : Crates) (policy : CompilerPolicy)

/-- The checks of one file of a snapshot, after the files before it. -/
def validateSealedFile (snapshot : VaultSnapshot) (before : List SourceFile) (file : SourceFile) :
    Except OkcError Unit := do
  reject (NotAfter SourceFile.logicalPath before file)
    (.planStale ("snapshot " ++ snapshot.snapshotId.toString ++
      " file manifest is not strictly path-sorted"))
  validateSourcePathPair X.toExternals policy.pathLimits file.originalPath file.logicalPath
  validateOutputLogicalPath X.toExternals policy.pathLimits file.logicalPath
  reject (file.sourceId ≠ snapshot.sourceId ∨ file.snapshotId ≠ snapshot.snapshotId)
    (.planStale ("file \x60" ++ file.logicalPath ++ "\x60 is not bound to its containing snapshot"))
  reject (FileKind.classify file.logicalPath ≠ file.kind)
    (.planStale ("file \x60" ++ file.logicalPath ++
      "\x60 has an inconsistent media classification"))
  reject (policy.limits.maxFileBytes < file.byteLen)
    (.resourceLimit ("file \x60" ++ file.logicalPath ++
      "\x60 exceeds the configured per-file limit"))
  reject (file.kind ≠ .asset ∧ policy.limits.maxStructuredTextBytes < file.byteLen)
    (.resourceLimit ("structured file \x60" ++ file.logicalPath ++
      "\x60 exceeds the configured text limit"))
  reject (file.fileId ≠ X.fileId file.logicalPath file.kind file.contentHash)
    (.planStale ("file \x60" ++ file.logicalPath ++
      "\x60 identity does not match its manifest payload"))

/-- The file loop of `validate_snapshot_set`. -/
def validateSealedFiles (snapshot : VaultSnapshot) :
    List SourceFile → SealedTotals → List SourceFile → Except OkcError SealedTotals
  | _, totals, [] => .ok totals
  | before, totals, file :: files => do
    validateSealedFile X policy snapshot before file
    let totalFiles ← checkedTotal "plan file count overflow" totals.files 1
    let totalBytes ← checkedTotal "plan byte count overflow" totals.bytes file.byteLen
    validateSealedFiles snapshot (file :: before) ⟨totalFiles, totalBytes⟩ files

/-- The body of the loop of `validate_snapshot_set`, after the snapshots before it. -/
def validateSnapshot (before : List VaultSnapshot) (totals : SealedTotals)
    (snapshot : VaultSnapshot) : Except OkcError SealedTotals := do
  let _ ← SourceId.new snapshot.sourceId.value
  reject (NotAfter (fun s => s.sourceId.value) before snapshot)
    (.planStale "snapshots must be strictly ordered by unique source ID")
  reject (snapshot.source.sourceId ≠ snapshot.sourceId)
    (.planStale ("snapshot " ++ snapshot.snapshotId.toString ++
      " source descriptor has a different source ID"))
  reject (snapshot.policyId ≠ sourcePolicyId)
    (.planStale ("snapshot " ++ snapshot.snapshotId.toString ++
      " uses unsupported source policy \x60" ++ snapshot.policyId ++ "\x60"))
  reject (snapshot.vaultContentId ≠
        X.canonicalHash "okc:vault-content:v2\x00" (manifestValue snapshot.manifest) ∨
      snapshot.vaultContentId ∈ before.map VaultSnapshot.vaultContentId)
    (.planStale ("snapshot " ++ snapshot.snapshotId.toString ++
      " has a stale or duplicate Vault content identity"))
  let totals ← validateSealedFiles X policy snapshot [] totals snapshot.files
  reject (snapshot.snapshotId ≠
      X.snapshotId snapshot.sourceId.value snapshot.policyId snapshot.manifest)
    (.planStale ("snapshot " ++ snapshot.snapshotId.toString ++
      " identity does not match its file manifest"))
  .ok totals

/-- The loop of `validate_snapshot_set`. -/
def validateSnapshots : List VaultSnapshot → SealedTotals → List VaultSnapshot →
    Except OkcError SealedTotals
  | _, totals, [] => .ok totals
  | before, totals, snapshot :: snapshots => do
    let totals ← validateSnapshot X policy before totals snapshot
    validateSnapshots (snapshot :: before) totals snapshots

def validateSnapshotSet (snapshots : List VaultSnapshot) : Except OkcError Unit := do
  reject (snapshots = []) (.planStale "a plan must contain at least one snapshot")
  reject (policy.limits.maxSources < snapshots.length)
    (.resourceLimit (Nat.repr snapshots.length ++ " plan snapshots exceeds configured maximum " ++
      Nat.repr policy.limits.maxSources))
  let totals ← validateSnapshots X policy [] ⟨0, 0⟩ snapshots
  reject (policy.limits.maxFiles < totals.files)
    (.resourceLimit ("plan file count exceeds " ++ Nat.repr policy.limits.maxFiles))
  reject (policy.limits.maxTotalBytes < totals.bytes)
    (.resourceLimit ("plan source bytes exceed " ++ Nat.repr policy.limits.maxTotalBytes))

end

/-- `(source_id, snapshot_id, logical_path)`. -/
def SourceFile.sealKey (file : SourceFile) : String ×ₗ SnapshotId ×ₗ String :=
  toLex (file.sourceId.value, toLex (file.snapshotId, file.logicalPath))

/-- The files of the snapshots; of two at a key the later one stays. -/
def sealedFiles (snapshots : List VaultSnapshot) :
    List ((String ×ₗ SnapshotId ×ₗ String) × SourceFile) :=
  collect (snapshots.flatMap fun snapshot => snapshot.files.map fun file => (file.sealKey, file))

section

variable (X : Crates) (w : CanonicalWorkspace) (snapshots : List VaultSnapshot)

/-- `validate_file`. -/
def validateFile (file : SourceFile) : Except OkcError Unit :=
  reject (get? file.sealKey (sealedFiles snapshots) ≠ some file)
    (.planStale ("IR source \x60" ++ file.logicalPath ++ "\x60 is absent from its sealed snapshot"))

/-- The parts that the identity of a record is computed from. -/
def recordId (domain : String) (file : SourceFile) : ContentHash :=
  X.fromParts domain [file.snapshotId.hash.bytes, file.fileId.hash.bytes]

/-- Where the sections, the blocks and the links of a document are. -/
def Document.spans (d : Document) : List SourceSpan :=
  d.sections.map Section.span ++ d.blocks.map Block.span ++ d.links.map DocumentLink.span

/-- The body of the document loop of `validate_workspace_sources`. -/
def validateDocument (entry : DocumentId × Document) : Except OkcError Unit := do
  validateFile snapshots entry.2.sourceFile
  reject (entry.1 ≠ entry.2.documentId ∨
      entry.2.documentId ≠ ⟨recordId X "okc:document:v2\x00" entry.2.sourceFile⟩)
    (.planStale ("document " ++ entry.2.documentId.toString ++
      " identity does not match its source"))
  entry.2.spans.forM fun span =>
    reject (span.byteEnd < span.byteStart ∨ entry.2.sourceFile.byteLen < span.byteEnd)
      (.planStale ("document " ++ entry.2.documentId.toString ++
        " contains an out-of-bounds source span"))

/-- `validate_canvas_target`. -/
def validateCanvasTarget (target : CanvasReferenceTarget) : Except OkcError Unit :=
  let present : Bool := match target with
    | .document id => (get? id w.documents).isSome
    | .asset id => (get? id w.assets).isSome
    | .canvas id => (get? id w.canvases).isSome
    | .base id => w.bases.any fun base => base.baseArtifactId = id
  reject (present = false)
    (.planStale "Canvas reference target is absent from the canonical workspace")

/-- The body of the reference loop of `validate_workspace_sources`. -/
def validateReference (canvas : Canvas) (pair : CanvasFileReference × CanvasFileReference) :
    Except OkcError Unit := do
  reject (pair.1.nodeId ≠ pair.2.nodeId ∨ pair.1.rawPath ≠ pair.2.rawPath)
    (staleCanvas canvas "Canvas " " file-reference index is stale")
  match pair.2.resolution with
  | .pending => .error (staleCanvas canvas "Canvas " " contains a pending file reference")
  | .resolved target => validateCanvasTarget w target
  | .unresolved => .ok ()
  | .ambiguous candidates => do
    reject (candidates.length < 2 ∨ ¬ candidates.IsChain (· < ·))
      (staleCanvas canvas "Canvas " " ambiguity candidates are not strictly canonical")
    candidates.forM (validateCanvasTarget w)

/-- The body of the canvas loop of `validate_workspace_sources`. -/
def validateCanvas (entry : CanvasId × Canvas) : Except OkcError Unit := do
  validateFile snapshots entry.2.sourceFile
  reject (entry.2.sourceFile.kind ≠ .canvas)
    (staleCanvas entry.2 "Canvas " " references a non-Canvas source")
  reject (entry.1 ≠ entry.2.canvasId ∨
      entry.2.canvasId ≠ ⟨recordId X "okc:canvas:v2\x00" entry.2.sourceFile⟩)
    (staleCanvas entry.2 "Canvas " " identity does not match its source")
  let parsed ← orStale (canvasFileReferences entry.2.value entry.2.sourceFile.logicalPath)
  reject (parsed.length ≠ entry.2.fileReferences.length)
    (staleCanvas entry.2 "Canvas " " file-reference index does not match its JSON value")
  (parsed.zip entry.2.fileReferences).forM (validateReference w entry.2)

/-- The body of the loop over the occurrences of an asset, after those before. -/
def validateOccurrence (asset : Asset) (before : List SourceFile) (source : SourceFile) :
    Except OkcError Unit := do
  validateFile snapshots source
  reject (source.kind ≠ .asset)
    (.planStale ("asset " ++ asset.assetId.toString ++ " references a non-asset source"))
  reject ((⟨X.fromParts "okc:asset:v2\x00" [source.contentHash.bytes]⟩ : AssetId) ≠ asset.assetId)
    (.planStale ("asset " ++ asset.assetId.toString ++
      " groups source files with different content"))
  reject (NotAfter SourceFile.key before source)
    (.planStale ("asset " ++ asset.assetId.toString ++ " sources are not strictly canonical"))

/-- The body of the asset loop of `validate_workspace_sources`. -/
def validateAsset (entry : AssetId × Asset) : Except OkcError Unit := do
  reject (entry.1 ≠ entry.2.assetId ∨ entry.2.sources = [])
    (.planStale ("asset " ++ entry.2.assetId.toString ++
      " has an invalid identity or no source occurrences"))
  scan (validateOccurrence X snapshots entry.2) [] entry.2.sources
  reject (entry.2.basename ≠ (entry.2.sources.head?.map sourceBasename).getD "asset")
    (.planStale ("asset " ++ entry.2.assetId.toString ++
      " basename is not derived from its canonical source"))

/-- The body of the Base loop of `validate_workspace_sources`, after those before. -/
def validateBase (before : List BaseArtifact) (base : BaseArtifact) : Except OkcError Unit := do
  validateFile snapshots base.sourceFile
  reject (base.sourceFile.kind ≠ .base)
    (.planStale "opaque Base IR references a non-Base source")
  reject (base.baseArtifactId ≠ ⟨recordId X "okc:base:v2\x00" base.sourceFile⟩ ∨
      base.baseArtifactId ∈ before.map BaseArtifact.baseArtifactId)
    (.planStale ("Base artifact " ++ base.baseArtifactId.toString ++
      " has an invalid or duplicate identity"))

def validateWorkspaceSources : Except OkcError Unit := do
  w.documents.forM (validateDocument X snapshots)
  w.canvases.forM (validateCanvas X w snapshots)
  w.assets.forM (validateAsset X snapshots)
  scan (validateBase X snapshots) [] w.bases

end

/-! ## The recorded ambiguities -/

/-- The record of an ambiguous link. -/
structure LinkAmbiguity where
  documentId : DocumentId
  linkId : LinkId
  rawTarget : String
  candidates : List DocumentId
  documents : List DocumentId
deriving DecidableEq

/-- The record of an ambiguous reference. -/
structure ReferenceAmbiguity where
  canvasId : CanvasId
  nodeId : String
  rawPath : String
  candidates : List CanvasReferenceTarget
deriving DecidableEq

/-- The conflict is as `resolve_links` makes it for an ambiguity. -/
structure AmbiguityConflict (documents : List DocumentId) (message : String) (c : Conflict) :
    Prop where
  kind : c.kind = .linkAmbiguity
  required : c.required = true
  resolution : c.resolution = .unresolved
  documents : c.documents = documents
  message : c.message = message
  score : c.score = none

instance (documents : List DocumentId) (message : String) (c : Conflict) :
    Decidable (AmbiguityConflict documents message c) :=
  decidable_of_iff (c.kind = .linkAmbiguity ∧ c.required = true ∧ c.resolution = .unresolved ∧
      c.documents = documents ∧ c.message = message ∧ c.score = none)
    ⟨fun h => ⟨h.1, h.2.1, h.2.2.1, h.2.2.2.1, h.2.2.2.2.1, h.2.2.2.2.2⟩,
      fun h => ⟨h.1, h.2, h.3, h.4, h.5, h.6⟩⟩

/-- `OkcError::PlanStale` about a conflict. -/
def staleConflict (c : Conflict) (after : String) : OkcError :=
  .planStale ("conflict \x60" ++ c.conflictId ++ "\x60 " ++ after)

section

variable (w : CanonicalWorkspace) (exactGroups : List ExactDuplicateGroup)

/-- The record of a link of the document. -/
def linkAmbiguity (documentId : DocumentId) (linkId : LinkId) (rawTarget : String)
    (candidates : List DocumentId) : LinkAmbiguity :=
  ⟨documentId, linkId, rawTarget, candidates,
    sortedSet (representativeOf (representativeMap w exactGroups) documentId :: candidates)⟩

def DocumentLink.candidates (link : DocumentLink) : Option (List DocumentId) :=
  match link.resolution with
  | .ambiguous candidates => some candidates
  | _ => none

def CanvasFileReference.candidates (reference : CanvasFileReference) :
    Option (List CanvasReferenceTarget) :=
  match reference.resolution with
  | .ambiguous candidates => some candidates
  | _ => none

def expectedLinkAmbiguities : List LinkAmbiguity :=
  w.documents.flatMap fun e => e.2.links.filterMap fun link =>
    link.candidates.map (linkAmbiguity w exactGroups e.2.documentId link.linkId link.rawTarget)

def expectedReferenceAmbiguities : List ReferenceAmbiguity :=
  w.canvases.flatMap fun e => e.2.fileReferences.filterMap fun reference =>
    reference.candidates.map (ReferenceAmbiguity.mk e.2.canvasId reference.nodeId reference.rawPath)

/-- The candidates of the link that a conflict is about. -/
def conflictCandidates (c : Conflict) (documentId : DocumentId) (linkId : LinkId)
    (rawTarget : String) : Except OkcError (List DocumentId) :=
  match get? documentId w.documents with
  | none => .error (staleConflict c "references an unknown Markdown document")
  | some document =>
    match document.links.find? fun link => link.linkId = linkId ∧ link.rawTarget = rawTarget with
    | none => .error (staleConflict c "references an unknown Markdown link")
    | some link =>
      match link.candidates with
      | none => .error (staleConflict c "subject is not an ambiguous Markdown link")
      | some candidates => .ok candidates

/-- The reference that a conflict is about, and its candidates. -/
def conflictTargets (c : Conflict) (canvasId : CanvasId) (nodeId rawPath : String) :
    Except OkcError (CanvasFileReference × List CanvasReferenceTarget) :=
  match get? canvasId w.canvases with
  | none => .error (staleConflict c "references an unknown Canvas")
  | some canvas =>
    match canvas.fileReferences.find? fun reference =>
        reference.nodeId = nodeId ∧ reference.rawPath = rawPath with
    | none => .error (staleConflict c "references an unknown Canvas file node")
    | some reference =>
      match reference.candidates with
      | none => .error (staleConflict c "subject is not an ambiguous Canvas reference")
      | some candidates => .ok (reference, candidates)

/-- The body of the conflict loop of `validate_markdown_conflict_coverage`. -/
def validateLinkConflict (actual : List LinkAmbiguity) (c : Conflict) :
    Except OkcError (List LinkAmbiguity) :=
  match c.subject with
  | some (.markdownLink documentId linkId rawTarget) => do
    let candidates ← conflictCandidates w c documentId linkId rawTarget
    let record := linkAmbiguity w exactGroups documentId linkId rawTarget candidates
    reject (¬ AmbiguityConflict record.documents (markdownAmbiguityMessage rawTarget) c ∨
        record ∈ actual)
      (staleConflict c "is not the canonical Markdown ambiguity record")
    .ok (record :: actual)
  | _ => .ok actual

/-- The body of the conflict loop of `validate_canvas_conflict_coverage`. -/
def validateReferenceConflict (actual : List ReferenceAmbiguity) (c : Conflict) :
    Except OkcError (List ReferenceAmbiguity) :=
  match c.subject with
  | some (.canvasReference canvasId nodeId rawPath) => do
    let (reference, candidates) ← conflictTargets w c canvasId nodeId rawPath
    let record : ReferenceAmbiguity := ⟨canvasId, nodeId, rawPath, candidates⟩
    reject (¬ AmbiguityConflict (sortedSet (documentTargets candidates))
          (canvasAmbiguityMessage canvasId reference candidates) c ∨ record ∈ actual)
      (staleConflict c "is not the canonical Canvas ambiguity record")
    .ok (record :: actual)
  | _ => .ok actual

def validateMarkdownConflictCoverage (conflicts : List Conflict) : Except OkcError Unit := do
  let actual ← conflicts.foldlM (validateLinkConflict w exactGroups) []
  reject (¬ (actual ⊆ expectedLinkAmbiguities w exactGroups ∧
      expectedLinkAmbiguities w exactGroups ⊆ actual))
    (.planStale "Markdown ambiguity conflicts do not cover the canonical workspace")

def validateCanvasConflictCoverage (conflicts : List Conflict) : Except OkcError Unit := do
  let actual ← conflicts.foldlM (validateReferenceConflict w) []
  reject (¬ (actual ⊆ expectedReferenceAmbiguities w ∧ expectedReferenceAmbiguities w ⊆ actual))
    (.planStale "Canvas ambiguity conflicts do not cover the canonical workspace")

end

/-! ## Paths and operations -/

/-- The operations so far, the latest first, and what they cover. -/
structure Coverage where
  visited : List OutputOperation
  documentOutputs : List String
  assetOutputs : List String
  canvases : List CanvasId
  bases : List BaseArtifactId

def Coverage.empty : Coverage := ⟨[], [], [], [], []⟩

def OutputPathMaps.values (paths : OutputPathMaps) : List String :=
  paths.documents.map Prod.snd ++ paths.assets.map Prod.snd ++ paths.canvases.map Prod.snd ++
    paths.bases.map Prod.snd

section

variable (X : Crates) (policy : CompilerPolicy) (snapshots : List VaultSnapshot)
  (w : CanonicalWorkspace) (paths : OutputPathMaps)

/-- `OkcError::PlanStale` about the source of an operation. -/
def staleSource (before : String) (operation : OutputOperation) (after : String) : OkcError :=
  .planStale (before ++ "\x60" ++ operation.sourcePath ++ "\x60 " ++ after)

def validatePathCoverage : Except OkcError Unit := do
  reject (sortedSet (paths.documents.map Prod.fst) ≠ sortedSet (w.documents.map Prod.fst))
    (.planStale "document output path map does not cover the canonical workspace")
  reject (sortedSet (paths.assets.map Prod.fst) ≠ sortedSet (w.assets.map Prod.fst))
    (.planStale "asset output path map does not cover the canonical workspace")
  reject (sortedSet (paths.canvases.map Prod.fst) ≠ sortedSet (w.canvases.map Prod.fst))
    (.planStale "Canvas output path map does not cover the canonical workspace")
  reject (sortedSet (paths.bases.map Prod.fst) ≠
      sortedSet (w.bases.map BaseArtifact.baseArtifactId))
    (.planStale "Base output path map does not cover the canonical workspace")

/-- The document whose source an operation reads. -/
def documentOf (source : SourceFile) (operation : OutputOperation) (word : String) :
    Except OkcError Document :=
  match (w.documents.map Prod.snd).find? fun document => document.sourceFile = source with
  | none => .error (staleSource ("Markdown " ++ word ++ " source ") operation
      "is absent from the canonical workspace")
  | some document => .ok document

/-- The canvas whose source an operation reads. -/
def canvasOf (source : SourceFile) (operation : OutputOperation) (word : String) :
    Except OkcError Canvas :=
  match (w.canvases.map Prod.snd).find? fun canvas => canvas.sourceFile = source with
  | none => .error (staleSource ("Canvas " ++ word ++ " source ") operation
      "is absent from the canonical workspace")
  | some canvas => .ok canvas

/-- A note that is copied. -/
def validateMarkdownCopy (s : Coverage) (source : SourceFile) (operation : OutputOperation) :
    Except OkcError Coverage := do
  let document ← documentOf w source operation "copy"
  let planned ← plannedMarkdownReplacements paths document
  reject (get? document.documentId paths.documents ≠ some operation.destination ∨
      operation.destination ∈ s.documentOutputs ∨ planned ≠ [])
    (staleSource "Markdown copy operation for " operation "does not match its sealed resolution")
  .ok { s with documentOutputs := operation.destination :: s.documentOutputs }

/-- An asset that is copied. -/
def validateAssetCopy (s : Coverage) (source : SourceFile) (operation : OutputOperation) :
    Except OkcError Coverage :=
  match w.assets.find? fun e => e.2.canonicalSource = some source with
  | none => .error (staleSource "asset copy source " operation
      "is not the canonical source occurrence")
  | some e => do
    reject (get? e.1 paths.assets ≠ some operation.destination ∨
        operation.destination ∈ s.assetOutputs)
      (staleSource "asset copy operation for " operation "does not match its sealed output map")
    .ok { s with assetOutputs := operation.destination :: s.assetOutputs }

/-- A canvas that is copied. -/
def validateCanvasCopy (s : Coverage) (source : SourceFile) (operation : OutputOperation) :
    Except OkcError Coverage := do
  let stale := staleSource "Canvas copy operation for " operation
    "does not match its sealed references"
  let canvas ← canvasOf w source operation "copy"
  reject (get? canvas.canvasId paths.canvases ≠ some operation.destination ∨
    canvas.canvasId ∈ s.canvases) stale
  let planned ← plannedCanvasRewrites paths canvas operation.destination
  reject (planned ≠ []) stale
  .ok { s with canvases := canvas.canvasId :: s.canvases }

/-- A Base that is copied. -/
def validateBaseCopy (s : Coverage) (source : SourceFile) (operation : OutputOperation) :
    Except OkcError Coverage :=
  match w.bases.find? fun base => base.sourceFile = source with
  | none => .error (staleSource "Base copy source " operation
      "is absent from the canonical workspace")
  | some base => do
    reject (get? base.baseArtifactId paths.bases ≠ some operation.destination ∨
        base.baseArtifactId ∈ s.bases)
      (staleSource "Base copy operation for " operation "does not match its sealed output map")
    .ok { s with bases := base.baseArtifactId :: s.bases }

/-- A note that is rewritten. -/
def validateMarkdownRewrite (s : Coverage) (source : SourceFile) (operation : OutputOperation)
    (replacements : List RewriteReplacement) : Except OkcError Coverage := do
  reject (source.kind ≠ .markdown)
    (staleSource "rewrite operation source " operation "is not Markdown")
  let document ← documentOf w source operation "rewrite"
  let planned ← plannedMarkdownReplacements paths document
  reject (get? document.documentId paths.documents ≠ some operation.destination ∨
      operation.destination ∈ s.documentOutputs ∨ planned = [] ∨ planned ≠ replacements)
    (staleSource "Markdown rewrite operation for " operation
      "does not match its sealed resolution")
  .ok { s with documentOutputs := operation.destination :: s.documentOutputs }

/-- A canvas that is rewritten. -/
def validateCanvasRewrite (s : Coverage) (source : SourceFile) (operation : OutputOperation)
    (expectedOutputHash : ContentHash) (rewrites : List CanvasReferenceRewrite) :
    Except OkcError Coverage := do
  reject (source.kind ≠ .canvas)
    (staleSource "Canvas rewrite source " operation "is not Canvas JSON")
  let canvas ← canvasOf w source operation "rewrite"
  let planned ← plannedCanvasRewrites paths canvas operation.destination
  let rendered ← renderRewrittenCanvas canvas X rewrites
  reject (get? canvas.canvasId paths.canvases ≠ some operation.destination ∨
      canvas.canvasId ∈ s.canvases ∨ planned ≠ rewrites ∨
      X.contentHash rendered ≠ expectedOutputHash)
    (staleSource "Canvas rewrite operation for " operation "does not match its sealed resolution")
  .ok { s with canvases := canvas.canvasId :: s.canvases }

/-- A copy, by the kind of its source. -/
def validateCopy (s : Coverage) (source : SourceFile) (operation : OutputOperation) :
    FileKind → Except OkcError Coverage
  | .markdown => validateMarkdownCopy w paths s source operation
  | .asset => validateAssetCopy w paths s source operation
  | .canvas => validateCanvasCopy w paths s source operation
  | .base => validateBaseCopy w paths s source operation

/-- The checks that depend on what an operation does, and the identity that it should have. -/
def validateAction (s : Coverage) (source : SourceFile) (operation : OutputOperation) :
    Except OkcError (Coverage × OperationId) :=
  match operation.action with
  | .copy kind => do
    reject (source.kind ≠ kind) (staleSource "copy operation source " operation
      "has the wrong kind")
    let s ← validateCopy w paths s source operation kind
    .ok (s, copyOperationId X.toExternals operation.sourceId operation.sourcePath
      operation.destination operation.expectedHash)
  | .rewriteMarkdown expectedOutputHash replacements => do
    let s ← validateMarkdownRewrite w paths s source operation replacements
    .ok (s, markdownRewriteOperationId X.toExternals source operation.destination
      expectedOutputHash replacements)
  | .rewriteCanvas expectedOutputHash rewrites => do
    let s ← validateCanvasRewrite X w paths s source operation expectedOutputHash rewrites
    .ok (s, canvasRewriteOperationId X.toExternals source operation.destination
      expectedOutputHash rewrites)

/-- The sealed file that an operation reads. -/
def operationSource (operation : OutputOperation) : Except OkcError SourceFile :=
  match get? (toLex (operation.sourceId.value,
      toLex (operation.snapshotId, operation.sourcePath))) (sealedFiles snapshots) with
  | none => .error (staleSource "operation source " operation
      "is absent from the sealed snapshots")
  | some source => .ok source

/-- The body of the operation loop of `validate_plan_paths_and_operations`. -/
def validateOperation (s : Coverage) (operation : OutputOperation) : Except OkcError Coverage := do
  validateOutputLogicalPath X.toExternals policy.pathLimits operation.destination
  reject (portableKey X.toExternals operation.destination ∈
      s.visited.map fun o => portableKey X.toExternals o.destination)
    (.planStale ("multiple operations target portable path \x60" ++ operation.destination ++
      "\x60"))
  reject (NotAfter OutputOperation.key s.visited operation)
    (.planStale "operations must be strictly ordered by destination and operation ID")
  let source ← operationSource snapshots operation
  reject (source.contentHash ≠ operation.expectedHash)
    (staleSource "operation source " operation "has an inconsistent content hash")
  let (s, expectedId) ← validateAction X w paths { s with visited := operation :: s.visited } source
    operation
  reject (operation.operationId ≠ expectedId)
    (.planStale ("operation " ++ operation.operationId.toString ++
      " identity does not match its payload"))
  .ok s

/-- `validate_plan_paths_and_operations`. -/
def validatePlanPathsAndOperations (operations : List OutputOperation) : Except OkcError Unit := do
  validatePathCoverage w paths
  paths.values.forM (validateOutputLogicalPath X.toExternals policy.pathLimits)
  let s ← operations.foldlM (validateOperation X policy snapshots w paths) .empty
  reject (sortedSet s.documentOutputs ≠ sortedSet (paths.documents.map Prod.snd) ∨
      sortedSet s.assetOutputs ≠ sortedSet (paths.assets.map Prod.snd) ∨
      sortedSet s.canvases ≠ sortedSet (w.canvases.map Prod.fst) ∨
      sortedSet s.bases ≠ sortedSet (w.bases.map BaseArtifact.baseArtifactId))
    (.planStale "operations do not cover their sealed output maps")

end

/-! ## The estimate -/

section

variable (snapshots : List VaultSnapshot) (w : CanonicalWorkspace)

/-- The length of the file that an operation reads. -/
def operationLength (operation : OutputOperation) : Except OkcError Nat :=
  match (snapshots.find? fun snapshot => snapshot.snapshotId = operation.snapshotId).bind
      fun snapshot => snapshot.files.find? fun file => file.logicalPath = operation.sourcePath with
  | none => .error (.planStale "operation estimate source is stale")
  | some file => .ok file.byteLen

/-- The body of the operation loop of `calculate_resource_estimate`. -/
def estimateOperation (s : Nat × Nat) (operation : OutputOperation) :
    Except OkcError (Nat × Nat) := do
  let byteLen ← operationLength snapshots operation
  let total ← checkedTotal "output byte estimate overflow" s.1 byteLen
  .ok (total, max s.2 byteLen)

def calculateResourceEstimate (operations : List OutputOperation) :
    Except OkcError PlanResourceEstimate := do
  let sourceFiles ← snapshots.foldlM (fun total snapshot =>
    checkedTotal "source file estimate overflow" total snapshot.files.length) 0
  let sourceBytes ← (snapshots.flatMap VaultSnapshot.files).foldlM (fun total file =>
    checkedTotal "source byte estimate overflow" total file.byteLen) 0
  let (estimatedOutputBytes, largestFile) ←
    operations.foldlM (estimateOperation snapshots) (0, 0)
  .ok {
    sourceFiles := sourceFiles
    sourceBytes := sourceBytes
    noteCount := w.documents.length
    estimatedOutputBytes := estimatedOutputBytes
    estimatedPeakWorkingSetBytes :=
      min (min (largestFile * 2) (2 ^ 64 - 1) + 16 * 1024 * 1024) (2 ^ 64 - 1) }

end

/-! ## What is recorded as a conflict -/

section

variable (X : Crates) (w : CanonicalWorkspace) (map : List (DocumentId × DocumentId))

/-- The titles and the stems of the documents, by lookup key. -/
def titleEntries : List (String × DocumentId) :=
  w.documents.flatMap fun e =>
    (e.2.title.toList ++ (fileStem e.2.sourceFile.logicalPath).toList).map fun name =>
      (normalizeLookupKey X.toExternals name, representativeOf map e.2.documentId)

def aliasEntries : List (String × DocumentId) :=
  w.documents.flatMap fun e => e.2.aliases.map fun name =>
    (normalizeLookupKey X.toExternals name, representativeOf map e.2.documentId)

/-- `add_ambiguity_conflicts`. -/
def ambiguityConflicts (entries : List (String × DocumentId)) (kind : ConflictKind)
    (label : String) : List Conflict :=
  (groups entries).flatMap fun group =>
    if 1 < (sortedSet group.2).length then
      [conflict X kind false (sortedSet group.2)
        (label ++ " \x60" ++ group.1 ++ "\x60 has multiple candidates") none .unresolved]
    else []

/-- `add_lookup_conflicts`. -/
def lookupConflicts : List Conflict :=
  ambiguityConflicts X (titleEntries X w map) .titleAmbiguity "title lookup key" ++
    ambiguityConflicts X (aliasEntries X w map) .aliasAmbiguity "alias lookup key"

/-- `add_frontmatter_conflicts`. -/
def frontmatterConflicts : List Conflict :=
  (groups (w.documents.map fun e => (e.2.bodyHash, e.2))).flatMap fun group =>
    if 1 < group.2.length ∧ 1 < (sortedSet (group.2.map Document.frontmatterHash)).length then
      [conflict X .frontmatterValue false (group.2.map Document.documentId)
        ("equivalent bodies have differing normalized frontmatter; retaining each " ++
          "source-specific note")
        none .autoResolvedByNormativeRule]
    else []

def nearDuplicateConflict (c : NearDuplicateCandidate) : Conflict :=
  conflict X .contentNearDuplicate false [c.left, c.right]
    ("near-duplicate review candidate at " ++ X.formatSix c.estimatedSimilarity)
    (some c.estimatedSimilarity) .unresolved

/-- The warning about a document whose candidates were cut off. -/
def truncatedDiagnostic (documentId : DocumentId) : Diagnostic where
  code := .nearDuplicateCandidate
  severity := .warning
  message := "near-duplicate candidate pool was truncated by the configured resource bound"
  logicalPath := (get? documentId w.documents).map fun d => d.sourceFile.logicalPath
  sourceFileId := (get? documentId w.documents).map fun d => d.sourceFile.fileId
  documentId := some documentId
  remediation :=
    some "review common templates or raise max_candidates_per_document explicitly"

end

/-! ## The plan -/

section

variable (X : Crates) (E : PlanEncoding)

/-- The order check of `validate_integrity`. -/
def validateConflicts (conflicts : List Conflict) : Except OkcError Unit :=
  scan (fun before c => do
    c.validateIntegrity X
    reject (NotAfter Conflict.conflictId before c)
      (.planStale "conflicts must be strictly ordered by conflict_id")) [] conflicts

/-- `DraftPlan::validate_integrity`. -/
def DraftPlan.validateIntegrity (plan : DraftPlan) : Except OkcError Unit := do
  reject (plan.schemaVersion ≠ planSchemaVersion)
    (.planStale ("unsupported plan schema version " ++ Nat.repr plan.schemaVersion))
  reject (plan.compilerVersion ≠ productVersion)
    (.planStale ("plan compiler version \x60" ++ plan.compilerVersion ++
      "\x60 does not match \x60" ++ productVersion ++ "\x60"))
  plan.policy.validate X
  validateSnapshotSet X plan.policy plan.snapshots
  let policyHash := plan.policy.semanticHash X
  reject (plan.inspectionHash ≠
      X.inspectionHash inspectionSchemaVersion plan.compilerVersion policyHash plan.snapshots)
    (.planStale "inspection hash does not match the sealed snapshot set")
  reject (plan.projectionHash ≠ X.projectionHash E plan.workspace)
    (.planStale "projection hash does not match the canonical workspace")
  validateWorkspaceSources X plan.workspace plan.snapshots
  validatePlanPathsAndOperations X plan.policy plan.snapshots plan.workspace plan.paths
    plan.operations
  let estimate ← calculateResourceEstimate plan.snapshots plan.workspace plan.operations
  reject (plan.resourceEstimate ≠ estimate)
    (.planStale "plan resource estimate does not match its sealed inputs")
  validateConflicts X plan.conflicts
  validateMarkdownConflictCoverage plan.workspace plan.exactGroups plan.conflicts
  validateCanvasConflictCoverage plan.workspace plan.conflicts
  reject (plan.planId ≠ calculatePlanId X.toExternals E (plan.identity policyHash))
    (.planStale "plan ID does not match the canonical plan payload")

/-- The body of the loop that gives every member the path of its representative. -/
def memberOutputPath (m : List (DocumentId × String)) (e : DocumentId × DocumentId) :
    List (DocumentId × String) :=
  match get? e.2 m with
  | some path => insertKey e.1 path m
  | none => m

/-- Every member has the output path of its representative. -/
def memberPaths (map : List (DocumentId × DocumentId)) (outputPaths : List (DocumentId × String)) :
    List (DocumentId × String) :=
  map.foldl memberOutputPath outputPaths

/-- The output paths, with the conflicts and the diagnostics of their allocation. -/
def allocatePaths (policy : CompilerPolicy) (w : CanonicalWorkspace)
    (map : List (DocumentId × DocumentId)) :
    Except OkcError (OutputPathMaps × List Conflict × List Diagnostic) := do
  let (outputPaths, conflicts) ← allocateDocumentPaths X policy w map
  let outputPaths := memberPaths map outputPaths
  let (assetOutputPaths, diagnostics) ← allocateAssetPaths X policy w
  let auxiliary ← allocateCanvasAndBasePaths X policy w outputPaths assetOutputPaths
  .ok (⟨outputPaths, assetOutputPaths, auxiliary.canvases, auxiliary.bases⟩,
    conflicts ++ auxiliary.conflicts, diagnostics)

def sortConflicts (conflicts : List Conflict) : List Conflict :=
  sortBy Conflict.conflictId conflicts

/-- What `build_plan` computes on the way. -/
structure PlanParts where
  dedup : DedupReport
  paths : OutputPathMaps
  workspace : CanonicalWorkspace
  allocation : List Conflict
  ambiguities : List Conflict
  diagnostics : List Diagnostic
  operations : List OutputOperation
  resourceEstimate : PlanResourceEstimate

/-- The steps of `build_plan` before the plan is sealed. -/
def planParts (policy : CompilerPolicy) (disk : SourceSpec → List SourceItem)
    (inspection : Inspection) : Except OkcError PlanParts := do
  let w := inspection.workspace
  let dedup ← analyze X (w.documents.map Prod.snd) policy.dedup
  let map := representativeMap w dedup.exactGroups
  let (paths, allocation, warnings) ← allocatePaths X policy w map
  let (workspace, ambiguities, resolution) ← resolveLinks X w map paths
  let operations ← buildOperations X policy disk workspace paths inspection.snapshots map
  let estimate ← calculateResourceEstimate inspection.snapshots workspace operations
  .ok {
    dedup := dedup
    paths := paths
    workspace := workspace
    allocation := allocation
    ambiguities := ambiguities
    diagnostics := warnings ++ dedup.truncatedDocuments.map (truncatedDiagnostic w) ++ resolution
    operations := operations
    resourceEstimate := estimate }

/-- The conflicts of a plan, in their order. -/
def PlanParts.conflicts (parts : PlanParts) (w : CanonicalWorkspace) : List Conflict :=
  sortConflicts (parts.allocation ++
    lookupConflicts X w (representativeMap w parts.dedup.exactGroups) ++ frontmatterConflicts X w ++
    parts.dedup.nearCandidates.map (nearDuplicateConflict X) ++ parts.ambiguities)

/-- The facts that the identity of the plan is computed from. -/
def PlanParts.identity (parts : PlanParts) (policy : CompilerPolicy) (inspection : Inspection) :
    PlanIdentity where
  schemaVersion := planSchemaVersion
  compilerVersion := productVersion
  policyHash := policy.semanticHash X
  inspectionHash := inspection.inspectionHash
  projectionHash := X.projectionHash E parts.workspace
  paths := parts.paths
  operations := parts.operations
  resourceEstimate := parts.resourceEstimate
  exactGroups := parts.dedup.exactGroups
  nearCandidates := parts.dedup.nearCandidates
  conflicts := parts.conflicts X inspection.workspace
  diagnostics := sortDiagnostics (inspection.diagnostics ++ parts.diagnostics)

/-- The plan that `build_plan` checks. -/
def PlanParts.plan (parts : PlanParts) (policy : CompilerPolicy) (inspection : Inspection) :
    DraftPlan where
  schemaVersion := planSchemaVersion
  compilerVersion := productVersion
  planId := calculatePlanId X.toExternals E (parts.identity X E policy inspection)
  projectionHash := X.projectionHash E parts.workspace
  policy := policy
  inspectionHash := inspection.inspectionHash
  snapshots := inspection.snapshots
  workspace := parts.workspace
  paths := parts.paths
  operations := parts.operations
  resourceEstimate := parts.resourceEstimate
  exactGroups := parts.dedup.exactGroups
  nearCandidates := parts.dedup.nearCandidates
  conflicts := parts.conflicts X inspection.workspace
  diagnostics := sortDiagnostics (inspection.diagnostics ++ parts.diagnostics)

def buildPlan (policy : CompilerPolicy) (disk : SourceSpec → List SourceItem)
    (inspection : Inspection) : Except OkcError DraftPlan := do
  policy.validate X
  reject (inspection.policyHash ≠ policy.semanticHash X)
    (.planStale "inspection policy hash does not match current policy")
  let parts ← planParts X policy disk inspection
  let plan := parts.plan X E policy inspection
  plan.validateIntegrity X E
  .ok plan

end

end Okc.Core
