import Okc.Core.Conflict
import Okc.Core.Dedup

/-!
# Output paths (`plan.rs:1646-1857`, `plan.rs:3130-3176`, `plan.rs:3256-3331`)

Documents go to `knowledge/`, assets to `attachments/` under their content hash, canvases to
`canvases/` and Bases to `views/`. Two names with one portable spelling do not both keep it: the
later one gets a suffix of its identity, as short as makes it free.
-/

namespace Okc.Core

open Okc.Lib

/-- `portable_key`. -/
def portableKey (X : Externals) (path : String) : String := X.fullCasefoldNfc path

/-- `classify_path_collision`. -/
def classifyPathCollision (X : Externals) (existing requested : String) : ConflictKind :=
  if existing = requested then .pathExact
  else if X.nfc existing = X.nfc requested then .unicodeNormalization
  else .pathCasefold

/-! ## Names of bounded length -/

/-- `truncate_utf8`: as many characters as fit. -/
def truncateUtf8 : List Char → Nat → List Char
  | [], _ => []
  | c :: cs, maximumBytes =>
    if c.utf8Size ≤ maximumBytes then c :: truncateUtf8 cs (maximumBytes - c.utf8Size) else []

/-- An extension with its dot. -/
def dotExtension (path : String) : String := ((extension path).map ("." ++ ·)).getD ""

/-- `insert_suffix`. -/
def insertSuffix (path suffix : String) (maxComponentBytes : Nat) : String :=
  let stem := (fileStem path).getD "file"
  let extension := dotExtension path
  let budget := maxComponentBytes - (len suffix + len extension)
  let name := String.ofList (truncateUtf8 stem.toList budget) ++ suffix ++ extension
  if parent path = "" then name else parent path ++ "/" ++ name

/-- `truncate_filename`. -/
def truncateFilename (filename : String) (maximumBytes : Nat) : String :=
  if len filename ≤ maximumBytes then filename
  else
    let stem := (fileStem filename).getD "asset"
    let extension := if len (dotExtension filename) < maximumBytes then dotExtension filename else ""
    let stemBudget := maximumBytes - len extension
    let stem := truncateUtf8 stem.toList stemBudget
    let stem := if stem = [] then truncateUtf8 "asset".toList stemBudget else stem
    String.ofList stem ++ extension

/-- The suffix lengths that are tried, in order. -/
def suffixLengths : List Nat := List.range' 8 45

/-- A path with the first characters of an identity after its stem. -/
def suffixed (policy : CompilerPolicy) (preferred : String) (hash : ContentHash) (length : Nat) :
    String :=
  insertSuffix preferred ("~" ++ hash.suffixBase32 length) policy.limits.maxComponentBytes

section

variable (X : Crates) (policy : CompilerPolicy)

/-! ## Documents -/

/-- `allocation_tuple`. -/
def Document.allocationTuple (X : Externals) (d : Document) :
    String ×ₗ String ×ₗ SnapshotId ×ₗ DocumentId :=
  toLex (X.nfc d.sourceFile.logicalPath, toLex (d.sourceFile.sourceId.value,
    toLex (d.sourceFile.snapshotId, d.documentId)))

/-- The maps of `allocate_document_paths`: by portable key who has it and how it was asked for. -/
structure DocumentAllocation where
  allocated : List (String × DocumentId × String)
  output : List (DocumentId × String)
  conflicts : List Conflict

/-- The candidate whose portable key nobody has. -/
def freeCandidate {β : Type} (allocated : List (String × β)) (preferred : String)
    (hash : ContentHash) : Option String :=
  (suffixLengths.map (suffixed policy preferred hash)).find? fun candidate =>
    (get? (portableKey X.toExternals candidate) allocated).isNone

/-- Where a document goes, and the conflict when its path is taken. -/
def documentDestination (s : DocumentAllocation) (document : Document)
    (preferred originalRequest : String) : Except OkcError (String × Option Conflict) :=
  match get? (portableKey X.toExternals preferred) s.allocated with
  | none => .ok (preferred, none)
  | some (existing, existingOriginal) =>
    match freeCandidate X policy s.allocated preferred document.documentId.hash with
    | none => .error (.internal "full document ID could not resolve path collision")
    | some candidate =>
      .ok (candidate, some (conflict X
        (classifyPathCollision X.toExternals existingOriginal originalRequest) false
        [existing, document.documentId]
        ("portable path collision at \x60" ++ preferred ++ "\x60; allocated \x60" ++ candidate ++
          "\x60") none .autoResolvedByNormativeRule))

/-- The body of the loop of `allocate_document_paths`. -/
def allocateDocument (s : DocumentAllocation) (document : Document) :
    Except OkcError DocumentAllocation := do
  let preferred := "knowledge/" ++ document.sourceFile.logicalPath
  let originalRequest := "knowledge/" ++ document.sourceFile.originalPath
  validateOutputLogicalPath X.toExternals policy.pathLimits preferred
  let (destination, conflict) ← documentDestination X policy s document preferred originalRequest
  let collisionSpelling := if destination = preferred then originalRequest else destination
  .ok {
    allocated := insertKey (portableKey X.toExternals destination)
      (document.documentId, collisionSpelling) s.allocated
    output := insertKey document.documentId destination s.output
    conflicts := s.conflicts ++ conflict.toList }

/-- The representatives, in the order of allocation. -/
def allocationOrder (X : Externals) (w : CanonicalWorkspace)
    (representativeMap : List (DocumentId × DocumentId)) : List Document :=
  ((sortedSet (representativeMap.map Prod.snd)).filterMap fun id => get? id w.documents).mergeSort
    fun a b => decide (a.allocationTuple X ≤ b.allocationTuple X)

/-- The loop of `allocate_document_paths`. -/
def allocateDocuments (documents : List Document) : Except OkcError DocumentAllocation :=
  documents.foldlM (allocateDocument X policy) ⟨[], [], []⟩

/-- `allocate_document_paths`. -/
def allocateDocumentPaths (w : CanonicalWorkspace)
    (representativeMap : List (DocumentId × DocumentId)) :
    Except OkcError (List (DocumentId × String) × List Conflict) := do
  let s ← allocateDocuments X policy (allocationOrder X.toExternals w representativeMap)
  .ok (s.output, s.conflicts)

/-! ## Assets -/

/-- The path of an attachment. -/
def attachmentPath (hash : ContentHash) (basename : String) : String :=
  "attachments/" ++ String.ofList (hash.hex.toList.take 2) ++ "/" ++ hash.hex ++ "-" ++ basename

/-- The warning about a basename that was cut. -/
def truncationDiagnostics (basename original path : String) : List Diagnostic :=
  if basename ≠ original then
    [Diagnostic.warningFor .pathSanitized
      ("attachment basename truncated to \x60" ++ basename ++ "\x60 for portability") path]
  else []

/-- The body of the loop of `allocate_asset_paths`. -/
def allocateAsset (entry : AssetId × Asset) :
    Except OkcError ((AssetId × String) × List Diagnostic) :=
  match entry.2.canonicalSource with
  | none => .error (.internal ("asset " ++ entry.1.toString ++ " has no source occurrences"))
  | some source => do
    let hashBytes := len source.contentHash.hex + 1
    reject (policy.limits.maxComponentBytes ≤ hashBytes)
      (.invalidConfig "component byte limit is too small for content-addressed attachments")
    let basename := truncateFilename entry.2.basename (policy.limits.maxComponentBytes - hashBytes)
    let destination := attachmentPath source.contentHash basename
    validateOutputLogicalPath X.toExternals policy.pathLimits destination
    .ok ((entry.1, destination),
      truncationDiagnostics basename entry.2.basename source.logicalPath)

/-- `allocate_asset_paths`. -/
def allocateAssetPaths (w : CanonicalWorkspace) :
    Except OkcError (List (AssetId × String) × List Diagnostic) := do
  let allocated ← w.assets.mapM (allocateAsset X policy)
  .ok (collect (allocated.map Prod.fst), allocated.flatMap Prod.snd)

/-! ## Canvases and Bases -/

/-- `AllocatedPath`. -/
structure AllocatedPath where
  destination : String
  originalRequest : String

/-- `allocate_auxiliary_path`, with the map it updates. -/
def allocateAuxiliaryPath (preferred originalRequest : String) (identity : ContentHash)
    (allocated : List (String × AllocatedPath)) :
    Except OkcError ((String × Option (ConflictKind × String)) × List (String × AllocatedPath)) := do
  validateOutputLogicalPath X.toExternals policy.pathLimits preferred
  match get? (portableKey X.toExternals preferred) allocated with
  | none =>
    .ok ((preferred, none),
      insertKey (portableKey X.toExternals preferred) ⟨preferred, originalRequest⟩ allocated)
  | some existing =>
    match freeCandidate X policy allocated preferred identity with
    | none => .error (.internal "full artifact identity could not resolve path collision")
    | some candidate => do
      validateOutputLogicalPath X.toExternals policy.pathLimits candidate
      .ok ((candidate, some (classifyPathCollision X.toExternals existing.originalRequest
          originalRequest, existing.destination)),
        insertKey (portableKey X.toExternals candidate) ⟨candidate, candidate⟩ allocated)

/-- What a canvas or a Base is allocated from. -/
structure AuxiliaryRequest (ι : Type) where
  id : ι
  sourceFile : SourceFile
  identity : ContentHash

/-- The paths, the conflicts and the map so far. -/
structure AuxiliaryAllocation (ι : Type) where
  output : List (ι × String)
  conflicts : List Conflict
  allocated : List (String × AllocatedPath)

/-- The body of the two loops of `allocate_canvas_and_base_paths`. -/
def allocateAuxiliary {ι : Type} [LinearOrder ι] (directory word : String)
    (s : AuxiliaryAllocation ι) (request : AuxiliaryRequest ι) :
    Except OkcError (AuxiliaryAllocation ι) := do
  let preferred := directory ++ "/" ++ request.sourceFile.logicalPath
  let originalRequest := directory ++ "/" ++ request.sourceFile.originalPath
  let ((destination, collision), allocated) ←
    allocateAuxiliaryPath X policy preferred originalRequest request.identity s.allocated
  let conflicts := collision.toList.map fun collision =>
    conflict X collision.1 false []
      ("portable " ++ word ++ " path collision between \x60" ++ collision.2 ++ "\x60 and \x60" ++
        preferred ++ "\x60; allocated \x60" ++ destination ++ "\x60")
      none .autoResolvedByNormativeRule
  .ok ⟨insertKey request.id destination s.output, s.conflicts ++ conflicts, allocated⟩

/-- `(source_id, logical_path, base_artifact_id)`. -/
def BaseArtifact.key (base : BaseArtifact) : String ×ₗ String ×ₗ BaseArtifactId :=
  toLex (base.sourceFile.sourceId.value, toLex (base.sourceFile.logicalPath, base.baseArtifactId))

/-- `AuxiliaryPathAllocation`. -/
structure AuxiliaryPathAllocation where
  canvases : List (CanvasId × String)
  bases : List (BaseArtifactId × String)
  conflicts : List Conflict

/-- `allocate_canvas_and_base_paths`. -/
def allocateCanvasAndBasePaths (w : CanonicalWorkspace) (outputPaths : List (DocumentId × String))
    (assetOutputPaths : List (AssetId × String)) : Except OkcError AuxiliaryPathAllocation := do
  let allocated := collect ((outputPaths.map Prod.snd ++ assetOutputPaths.map Prod.snd).map
    fun path => (portableKey X.toExternals path, AllocatedPath.mk path path))
  let canvases ← (w.canvases.map fun entry =>
      AuxiliaryRequest.mk entry.1 entry.2.sourceFile entry.2.canvasId.hash).foldlM
    (allocateAuxiliary X policy "canvases" "Canvas") ⟨[], [], allocated⟩
  let sorted := w.bases.mergeSort fun a b => decide (a.key ≤ b.key)
  let bases ← (sorted.map fun base =>
      AuxiliaryRequest.mk base.baseArtifactId base.sourceFile base.baseArtifactId.hash).foldlM
    (allocateAuxiliary X policy "views" "Base") ⟨[], canvases.conflicts, canvases.allocated⟩
  .ok ⟨canvases.output, bases.output, bases.conflicts⟩

end

end Okc.Core
