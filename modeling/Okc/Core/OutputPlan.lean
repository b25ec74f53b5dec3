import Okc.Lib.SortBy
import Okc.Core.Inspection
import Okc.Core.MarkdownRewrite

/-!
# Output operations (`plan.rs:221-276`, `plan.rs:2464-2586`, `plan.rs:2674-2787`,
`plan.rs:2906-2981`, `plan.rs:3112-3128`, `plan.rs:3178-3206`)

Every file of the output is copied from a source or rewritten from one. A note is rewritten from the
bytes of its source, which is read once more: `disk` is what a source holds then.
-/

namespace Okc.Core

open Okc.Lib

/-! ## Operations -/

/-- What an operation does with its source. -/
inductive OutputAction
  | copy (kind : FileKind)
  | rewriteMarkdown (expectedOutputHash : ContentHash) (replacements : List RewriteReplacement)
  | rewriteCanvas (expectedOutputHash : ContentHash) (rewrites : List CanvasReferenceRewrite)
deriving DecidableEq

/-- The fields that the three variants share, and what they differ in. -/
structure OutputOperation where
  operationId : OperationId
  sourceId : SourceId
  snapshotId : SnapshotId
  sourcePath : String
  destination : String
  expectedHash : ContentHash
  action : OutputAction
deriving DecidableEq

def SourceSpan.toValue (s : SourceSpan) : Value :=
  .object [("byte_start", .nat s.byteStart), ("byte_end", .nat s.byteEnd)]

def RewriteReplacement.toValue (r : RewriteReplacement) : Value :=
  .object [("span", r.span.toValue), ("replacement", .str r.replacement)]

/-- `serde(tag = "kind", content = "id")`. -/
def CanvasReferenceTarget.toValue : CanvasReferenceTarget → Value
  | .document id => .object [("kind", .str "document"), ("id", id.toValue)]
  | .asset id => .object [("kind", .str "asset"), ("id", id.toValue)]
  | .canvas id => .object [("kind", .str "canvas"), ("id", id.toValue)]
  | .base id => .object [("kind", .str "base"), ("id", id.toValue)]

def CanvasReferenceRewrite.toValue (r : CanvasReferenceRewrite) : Value :=
  .object [("node_id", .str r.nodeId), ("original_path", .str r.originalPath),
    ("replacement_path", .str r.replacementPath), ("target", r.target.toValue)]

section

variable (X : Externals)

/-- `operation_id`. -/
def operationId (value : Value) : OperationId := ⟨X.canonicalHash "okc:operation:v2\x00" value⟩

/-- The identity of a copy, from the fields that it is computed from. -/
def copyOperationId (sourceId : SourceId) (sourcePath destination : String)
    (expectedHash : ContentHash) : OperationId :=
  operationId X (.arr [.str "copy", .str sourceId.value, .str sourcePath, .str destination,
    expectedHash.toValue])

def copyOperation (file : SourceFile) (destination : String) (kind : FileKind) :
    OutputOperation where
  operationId := copyOperationId X file.sourceId file.logicalPath destination file.contentHash
  sourceId := file.sourceId
  snapshotId := file.snapshotId
  sourcePath := file.logicalPath
  destination := destination
  expectedHash := file.contentHash
  action := .copy kind

/-- What the identities of both kinds of rewrite are computed from. -/
def rewriteOperationId (word : String) (source : SourceFile) (destination : String)
    (expectedOutputHash : ContentHash) (changes : List Value) : OperationId :=
  operationId X (.arr [.str word, .str source.sourceId.value, source.snapshotId.toValue,
    .str source.logicalPath, .str destination, source.contentHash.toValue,
    expectedOutputHash.toValue, .arr changes])

def markdownRewriteOperationId (source : SourceFile) (destination : String)
    (expectedOutputHash : ContentHash) (replacements : List RewriteReplacement) : OperationId :=
  rewriteOperationId X "rewrite_markdown" source destination expectedOutputHash
    (replacements.map RewriteReplacement.toValue)

def canvasRewriteOperationId (source : SourceFile) (destination : String)
    (expectedOutputHash : ContentHash) (rewrites : List CanvasReferenceRewrite) : OperationId :=
  rewriteOperationId X "rewrite_canvas" source destination expectedOutputHash
    (rewrites.map CanvasReferenceRewrite.toValue)

end

/-! ## The references of a canvas -/

section

variable (paths : OutputPathMaps) (canvas : Canvas) (destination : String)

/-- The body of the loop of `planned_canvas_rewrites`. -/
def plannedCanvasRewrite (reference : CanvasFileReference) :
    Except OkcError (List CanvasReferenceRewrite) :=
  match reference.resolution with
  | .resolved target =>
    match canvasReferenceOutputPath paths target with
    | none => .error (staleCanvas canvas "Canvas " " resolved target has no output path")
    | some targetOutput =>
      let replacementPath := relativeOutputTarget destination targetOutput
      .ok (if replacementPath ≠ reference.rawPath then
        [⟨reference.nodeId, reference.rawPath, replacementPath, target⟩] else [])
  | .unresolved | .ambiguous _ => do
    ensurePreservedCanvasTargetIsContained destination reference.rawPath
      canvas.sourceFile.logicalPath reference.nodeId
    .ok []
  | .pending => .error (staleCanvas canvas "Canvas " " contains a pending reference")

def plannedCanvasRewrites : Except OkcError (List CanvasReferenceRewrite) := do
  let rewrites ← canvas.fileReferences.mapM (plannedCanvasRewrite paths canvas destination)
  .ok (sortBy CanvasReferenceRewrite.nodeId rewrites.flatten)

end

/-! ## Building them -/

/-- `map[&key]`, whose panic is an error here. -/
def index {κ ν : Type} [LinearOrder κ] (key : κ) (m : List (κ × ν)) : Except OkcError ν :=
  match get? key m with
  | none => .error (.internal "no entry found for key")
  | some value => .ok value

structure PendingMarkdownRewrite where
  documentId : DocumentId
  destination : String
  replacements : List RewriteReplacement

section

variable (X : Crates) (policy : CompilerPolicy) (disk : SourceSpec → List SourceItem)
  (w : CanonicalWorkspace) (paths : OutputPathMaps) (snapshots : List VaultSnapshot)

/-- The body of the document loop of `build_operations`: a copy, or a rewrite that waits for its
source. -/
def documentOperation (documentId : DocumentId) :
    Except OkcError (OutputOperation ⊕ PendingMarkdownRewrite) := do
  let document ← index documentId w.documents
  let destination ← index documentId paths.documents
  let replacements ← plannedMarkdownReplacements paths document
  .ok (if replacements = [] then
    .inl (copyOperation X.toExternals document.sourceFile destination .markdown)
    else .inr ⟨documentId, destination, replacements⟩)

/-- The loop body over the entries of a source that is read again. -/
def rereadEntry (sourceId : SourceId) (neededPaths : List String)
    (sourceEntries : List (String × RawEntry)) (entry : RawEntry) :
    Except OkcError (List (String × RawEntry)) :=
  if entry.logicalPath ∈ neededPaths then do
    reject (entry.kind ≠ .markdown ∨ (get? entry.logicalPath sourceEntries).isSome)
      (.planStale ("Markdown rewrite source \x60" ++ sourceId.value ++ "/" ++ entry.logicalPath ++
        "\x60 is not unique Markdown"))
    .ok (insertKey entry.logicalPath entry sourceEntries)
  else .ok sourceEntries

/-- `OkcError` about a note that is rewritten. -/
def rewriteSource (sourceId : SourceId) (document : Document) (after : String) : String :=
  "Markdown rewrite source \x60" ++ sourceId.value ++ "/" ++ document.sourceFile.logicalPath ++
    after

/-- The operation of a note that was rewritten. -/
def markdownOperation (sourceId : SourceId) (document : Document) (rewrite : PendingMarkdownRewrite)
    (output : Bytes) : OutputOperation where
  operationId := markdownRewriteOperationId X.toExternals document.sourceFile rewrite.destination
    (X.contentHash output) rewrite.replacements
  sourceId := sourceId
  snapshotId := document.sourceFile.snapshotId
  sourcePath := document.sourceFile.logicalPath
  destination := rewrite.destination
  expectedHash := document.sourceFile.contentHash
  action := .rewriteMarkdown (X.contentHash output) rewrite.replacements

/-- The bytes of the note, in the entries that are left, which it is removed from. -/
def takeEntry (sourceId : SourceId) (document : Document)
    (sourceEntries : List (String × RawEntry)) :
    Except OkcError (RawEntry × List (String × RawEntry)) :=
  match get? document.sourceFile.logicalPath sourceEntries with
  | none => .error (.identityMismatch (rewriteSource sourceId document "\x60 is missing"))
  | some entry =>
    .ok (entry, sourceEntries.filter fun e => decide (e.1 ≠ document.sourceFile.logicalPath))

/-- The loop over the rewrites of a source. -/
def rewriteNotes (snapshot : VaultSnapshot) : List (String × RawEntry) →
    List PendingMarkdownRewrite → Except OkcError (List OutputOperation)
  | _, [] => .ok []
  | sourceEntries, rewrite :: rewrites => do
    let document ← index rewrite.documentId w.documents
    reject (document.sourceFile.snapshotId ≠ snapshot.snapshotId) (.planStale
      (rewriteSource snapshot.sourceId document "\x60 is bound to the wrong snapshot"))
    let (entry, rest) ← takeEntry snapshot.sourceId document sourceEntries
    reject (entry.originalPath ≠ document.sourceFile.originalPath)
      (.identityMismatch ("Markdown rewrite source path spelling changed for \x60" ++
        snapshot.sourceId.value ++ "/" ++ document.sourceFile.logicalPath ++ "\x60"))
    let output ← renderRewrittenMarkdown X policy document rewrite.destination entry.bytes
      rewrite.replacements
    let operations ← rewriteNotes snapshot rest rewrites
    .ok (markdownOperation X snapshot.sourceId document rewrite output :: operations)

/-- What is rewritten from one source. -/
def rewriteSourceNotes (group : String × List PendingMarkdownRewrite) :
    Except OkcError (List OutputOperation) :=
  match snapshots.find? fun snapshot => snapshot.sourceId.value = group.1 with
  | none => .error (.planStale ("Markdown rewrite source \x60" ++ group.1 ++
      "\x60 has no sealed snapshot"))
  | some snapshot => do
    let documents ← group.2.mapM fun rewrite => index rewrite.documentId w.documents
    let entries ← collectEntries X.toExternals policy snapshot.source (disk snapshot.source)
    let sourceEntries ← entries.foldlM (rereadEntry snapshot.sourceId
      (documents.map fun document => document.sourceFile.logicalPath)) []
    rewriteNotes X policy w snapshot sourceEntries group.2

/-- The source that a rewrite waits for. -/
def pendingSource (rewrite : PendingMarkdownRewrite) :
    Except OkcError (String × PendingMarkdownRewrite) :=
  match get? rewrite.documentId w.documents with
  | none => .error (.planStale ("pending Markdown rewrite references unknown document " ++
      rewrite.documentId.toString))
  | some document => .ok (document.sourceFile.sourceId.value, rewrite)

/-- `materialize_markdown_rewrites`. -/
def materializeMarkdownRewrites (pending : List PendingMarkdownRewrite) :
    Except OkcError (List OutputOperation) := do
  let entries ← pending.mapM (pendingSource w)
  let operations ← (groups entries).mapM (rewriteSourceNotes X policy disk w snapshots)
  .ok operations.flatten

/-- The body of the asset loop of `build_operations`. -/
def assetOperation (entry : AssetId × Asset) : Except OkcError OutputOperation :=
  match entry.2.canonicalSource with
  | none => .error (.internal ("asset " ++ entry.1.toString ++ " has no source occurrences"))
  | some source => do
    let destination ← index entry.1 paths.assets
    .ok (copyOperation X.toExternals source destination .asset)

/-- The operation of a canvas that was rewritten. -/
def canvasRewriteOperation (canvas : Canvas) (destination : String)
    (rewrites : List CanvasReferenceRewrite) (output : Bytes) : OutputOperation where
  operationId := canvasRewriteOperationId X.toExternals canvas.sourceFile destination
    (X.contentHash output) rewrites
  sourceId := canvas.sourceFile.sourceId
  snapshotId := canvas.sourceFile.snapshotId
  sourcePath := canvas.sourceFile.logicalPath
  destination := destination
  expectedHash := canvas.sourceFile.contentHash
  action := .rewriteCanvas (X.contentHash output) rewrites

/-- The body of the canvas loop of `build_operations`. -/
def canvasOperation (entry : CanvasId × Canvas) : Except OkcError OutputOperation := do
  let destination ← index entry.1 paths.canvases
  let rewrites ← plannedCanvasRewrites paths entry.2 destination
  if rewrites = [] then
    .ok (copyOperation X.toExternals entry.2.sourceFile destination .canvas)
  else do
    let output ← renderRewrittenCanvas entry.2 X rewrites
    .ok (canvasRewriteOperation X entry.2 destination rewrites output)

/-- The body of the Base loop of `build_operations`. -/
def baseOperation (base : BaseArtifact) : Except OkcError OutputOperation := do
  let destination ← index base.baseArtifactId paths.bases
  .ok (copyOperation X.toExternals base.sourceFile destination .base)

/-- The order of operations: destination, identity. -/
def OutputOperation.key (o : OutputOperation) : String ×ₗ OperationId :=
  toLex (o.destination, o.operationId)

/-- `build_operations`; the conflicts that it returns are none. -/
def buildOperations (map : List (DocumentId × DocumentId)) :
    Except OkcError (List OutputOperation) := do
  let documents ← (sortedSet (map.map Prod.snd)).mapM (documentOperation X w paths)
  let rewritten ← materializeMarkdownRewrites X policy disk w snapshots
    (documents.filterMap Sum.getRight?)
  let assets ← w.assets.mapM (assetOperation X paths)
  let canvases ← w.canvases.mapM (canvasOperation X paths)
  let bases ← (sortBy BaseArtifact.key w.bases).mapM (baseOperation X paths)
  let operations := sortBy OutputOperation.key
    (documents.filterMap Sum.getLeft? ++ rewritten ++ assets ++ canvases ++ bases)
  scan (fun before operation =>
      reject (portableKey X.toExternals operation.destination ∈
          before.map fun o => portableKey X.toExternals o.destination)
        (.internal ("operation destination collision at \x60" ++ operation.destination ++ "\x60")))
    [] operations
  .ok operations

end

end Okc.Core
