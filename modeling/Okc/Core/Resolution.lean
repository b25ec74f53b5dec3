import Okc.Core.Allocation
import Okc.Core.RelativeTarget

/-!
# Resolving links (`plan.rs:1963-2322`, `plan.rs:2379-2462`, `plan.rs:3333-3360`)

A target is resolved to a path of its source, relative to the artifact it stands in. Documents and
canvases then search separate indexes: first that path, then the path with `.md`, then the notes whose
title, alias or stem is the stem of the target. A document looks among the assets when all of that
found nothing.

* `linkAt_resolveLinks`, `referenceAt_resolveLinks`: `resolve_links` does to every link and every
  reference what the bodies of its loops do to one.
-/

namespace Okc.Core

open Okc.Lib

/-! ## Keys and paths -/

/-- `trim_start_matches("./")`. -/
def trimDotSlash : List Char → List Char
  | '.' :: '/' :: rest => trimDotSlash rest
  | cs => cs

/-- `replace('\\', "/")`. -/
def slashed (cs : List Char) : List Char := cs.map fun c => if c = '\\' then '/' else c

def normalizeLinkPath (X : Externals) (path : String) : String :=
  X.fullCasefoldNfc (String.ofList (slashed (trimDotSlash path.toList)))

/-- `normalize_lookup_key`. -/
def normalizeLookupKey (X : Externals) (value : String) : String := X.fullCasefoldNfc (trim value)

/-- `lookup_keys`: the title, the aliases and the stem. -/
def lookupKeys (X : Externals) (d : Document) : List String :=
  sortedSet ((d.title.toList ++ d.aliases ++ (fileStem d.sourceFile.logicalPath).toList).map
    (normalizeLookupKey X))

/-- The component loop of `resolve_relative_source_path`. -/
def relativeComponents (parts : List String) : List String → Option (List String)
  | [] => some parts
  | component :: rest =>
    if component = "" ∨ component = "." then relativeComponents parts rest
    else if component = ".." then
      if parts = [] then none else relativeComponents parts.dropLast rest
    else relativeComponents (parts ++ [component]) rest

/-- `resolve_relative_source_path`. -/
def resolveRelativeSourcePath (current target : String) : Option String :=
  let parts := if target.toList.head? = some '/' then []
    else (splitSlash (parent current)).filter fun part => part ≠ ""
  let normalized := String.ofList (slashed (target.toList.dropWhile (· = '/')))
  (relativeComponents parts (splitSlash normalized)).map joinSlash

/-- `to_ascii_lowercase().ends_with(".md")`. -/
def EndsInMd (path : String) : Prop := ".md".toList <:+ (asciiLower path).toList

instance (path : String) : Decidable (EndsInMd path) := by
  unfold EndsInMd
  infer_instance

/-! ## The indexes -/

/-- `OutputPathMaps`. -/
structure OutputPathMaps where
  documents : List (DocumentId × String)
  assets : List (AssetId × String)
  canvases : List (CanvasId × String)
  bases : List (BaseArtifactId × String)

/-- `representative_map[&id]`; the map has every document. -/
def representativeOf (map : List (DocumentId × DocumentId)) (id : DocumentId) : DocumentId :=
  (get? id map).getD id

/-- `(source_id, normalize_link_path(path))`. -/
def pathKey (X : Externals) (sourceId : SourceId) (path : String) : String ×ₗ String :=
  toLex (sourceId.value, normalizeLinkPath X path)

def fileKey (X : Externals) (file : SourceFile) : String ×ₗ String :=
  pathKey X file.sourceId file.logicalPath

section

variable (X : Externals) (w : CanonicalWorkspace) (map : List (DocumentId × DocumentId))

def documentEntries : List ((String ×ₗ String) × DocumentId) :=
  w.documents.map fun e => (fileKey X e.2.sourceFile, representativeOf map e.2.documentId)

def keyEntries : List (String × DocumentId) :=
  w.documents.flatMap fun e =>
    (lookupKeys X e.2).map fun key => (key, representativeOf map e.2.documentId)

def assetEntries : List ((String ×ₗ String) × AssetId) :=
  w.assets.flatMap fun e => e.2.sources.map fun source => (fileKey X source, e.1)

/-- What a canvas can name by its path. -/
def targetEntries : List ((String ×ₗ String) × CanvasReferenceTarget) :=
  (documentEntries X w map).map (fun e => (e.1, .document e.2)) ++
    (assetEntries X w).map (fun e => (e.1, .asset e.2)) ++
    w.canvases.map (fun e => (fileKey X e.2.sourceFile, .canvas e.1)) ++
    w.bases.map fun base => (fileKey X base.sourceFile, .base base.baseArtifactId)

/-- The indexes of `resolve_links`; of two assets at a key the later one stays. -/
structure LinkIndexes where
  paths : List ((String ×ₗ String) × List DocumentId)
  keys : List (String × List DocumentId)
  assets : List ((String ×ₗ String) × AssetId)
  canvasPaths : List ((String ×ₗ String) × List CanvasReferenceTarget)

def linkIndexes : LinkIndexes where
  paths := groups (documentEntries X w map)
  keys := groups (keyEntries X w map)
  assets := collect (assetEntries X w)
  canvasPaths := (groups (targetEntries X w map)).map fun e => (e.1, sortedSet e.2)

end

section

variable (X : Externals) (indexes : LinkIndexes) (sourceId : SourceId)

/-! ## The searches -/

/-- What an index has at the path, or else at the path with `.md`. -/
def pathCandidates {τ : Type} [DecidableEq τ] (index : List ((String ×ₗ String) × List τ))
    (resolved : String) : List τ :=
  let written := (get? (pathKey X sourceId resolved) index).getD []
  if written = [] ∧ ¬ EndsInMd resolved then
    (get? (pathKey X sourceId (resolved ++ ".md")) index).getD []
  else written

/-- The notes that the stem of the target names. -/
def keyCandidates (target : String) : List DocumentId :=
  (get? (normalizeLookupKey X ((fileStem target).getD target)) indexes.keys).getD []

/-- `resolve_document_candidates`. -/
def resolveDocumentCandidates (logicalPath : String) (target : Option String) : List DocumentId :=
  match target with
  | none => []
  | some target =>
    match resolveRelativeSourcePath logicalPath target with
    | none => []
    | some resolved =>
      let candidates := pathCandidates X sourceId indexes.paths resolved
      sortedSet (if candidates = [] then keyCandidates X indexes target else candidates)

/-- `resolve_canvas_reference_candidates`. -/
def resolveCanvasReferenceCandidates (resolved rawPath : String) : List CanvasReferenceTarget :=
  let candidates := pathCandidates X sourceId indexes.canvasPaths resolved
  sortedSet (if candidates = [] then (keyCandidates X indexes rawPath).map .document
    else candidates)

end

/-- `fragment_matches`. -/
def fragmentMatches (X : Externals) (d : Document) (heading blockId : Option String) : Bool :=
  heading.all (fun heading => heading = "" || d.sections.any fun s =>
    normalizeLookupKey X s.heading = normalizeLookupKey X heading) &&
  blockId.all fun blockId => d.blocks.any fun block => block.explicitId = some blockId

/-- `canvas_reference_output_path`. -/
def canvasReferenceOutputPath (paths : OutputPathMaps) : CanvasReferenceTarget → Option String
  | .document id => get? id paths.documents
  | .asset id => get? id paths.assets
  | .canvas id => get? id paths.canvases
  | .base id => get? id paths.bases

/-- `canvas_reference_target_label`. -/
def CanvasReferenceTarget.label : CanvasReferenceTarget → String
  | .document id => id.toString
  | .asset id => id.toString
  | .canvas id => id.toString
  | .base id => id.toString

/-- `markdown_ambiguity_message`. -/
def markdownAmbiguityMessage (rawTarget : String) : String :=
  "link \x60" ++ rawTarget ++ "\x60 resolves to multiple documents"

/-- `canvas_ambiguity_message`. -/
def canvasAmbiguityMessage (canvasId : CanvasId) (reference : CanvasFileReference)
    (candidates : List CanvasReferenceTarget) : String :=
  "Canvas " ++ canvasId.toString ++ " file reference \x60" ++ reference.rawPath ++
    "\x60 at node \x60" ++ reference.nodeId ++ "\x60 resolves to multiple targets: " ++
    ", ".intercalate (candidates.map CanvasReferenceTarget.label)

/-- `ensure_preserved_canvas_target_is_contained`. -/
def ensurePreservedCanvasTargetIsContained (canvasDestination rawPath sourcePath nodeId : String) :
    Except OkcError Unit :=
  reject (resolveContainedRelativePath sourcePath rawPath = none ∨
      resolveContainedRelativePath canvasDestination rawPath = none)
    (.unsafePath (sourcePath ++ "#" ++ nodeId) ("preserved Canvas file reference \x60" ++ rawPath ++
      "\x60 escapes the compiled Vault root"))

/-- `ensure_preserved_markdown_target_is_contained`. -/
def ensurePreservedMarkdownTargetIsContained (sourcePath outputDestination decodedPath
    rawTarget : String) : Except OkcError Unit :=
  reject (resolveContainedRelativePath sourcePath decodedPath = none ∨
      resolveContainedRelativePath outputDestination decodedPath = none)
    (.unsafePath sourcePath ("preserved Markdown reference \x60" ++ rawTarget ++
      "\x60 escapes a source or compiled Vault root"))

section

variable (X : Crates) (w : CanonicalWorkspace) (map : List (DocumentId × DocumentId))
  (indexes : LinkIndexes) (paths : OutputPathMaps)

/-! ## One link -/

/-- The path of the document that a preserved target would stand in. -/
def sealedOutputPath (documentId : DocumentId) : Except OkcError String :=
  match get? documentId paths.documents with
  | none => .error (.planStale ("document " ++ documentId.toString ++ " has no sealed output path"))
  | some destination => .ok destination

def unresolvedLink (document : Document) (documentId : DocumentId) (link : DocumentLink)
    (message : String) : Diagnostic where
  code := .linkUnresolved
  severity := .warning
  message := message
  logicalPath := some document.sourceFile.logicalPath
  sourceFileId := some document.sourceFile.fileId
  documentId := some documentId
  span := some ⟨link.byteStart, link.byteEnd⟩
  remediation := none

/-- The branch for more than one candidate. -/
def ambiguousLink (document : Document) (documentId : DocumentId) (link : DocumentLink)
    (candidates : List DocumentId) :
    Except OkcError (DocumentLink × List Conflict × List Diagnostic) := do
  match link.path with
  | none => .ok ()
  | some path => do
    let destination ← sealedOutputPath paths documentId
    ensurePreservedMarkdownTargetIsContained document.sourceFile.logicalPath destination path
      link.rawTarget
  .ok ({ link with resolution := .ambiguous candidates },
    [conflictWithSubject X .linkAmbiguity true
      (some (.markdownLink document.documentId link.linkId link.rawTarget))
      (documentId :: candidates) (markdownAmbiguityMessage link.rawTarget) none .unresolved], [])

/-- The branch for a path without candidates. -/
def linkWithoutCandidate (document : Document) (documentId : DocumentId) (link : DocumentLink)
    (path : String) : Except OkcError (DocumentLink × List Conflict × List Diagnostic) :=
  match (resolveRelativeSourcePath document.sourceFile.logicalPath path).bind fun resolved =>
      get? (pathKey X.toExternals document.sourceFile.sourceId resolved) indexes.assets with
  | some assetId =>
    .ok (if (get? assetId paths.assets).isSome then { link with resolution := .asset assetId }
      else link, [], [])
  | none => do
    let destination ← sealedOutputPath paths documentId
    ensurePreservedMarkdownTargetIsContained document.sourceFile.logicalPath destination path
      link.rawTarget
    .ok ({ link with resolution := .unresolved }, [],
      [unresolvedLink document documentId link ("unresolved link \x60" ++ link.rawTarget ++ "\x60")])

/-- The branch for a link without a path. -/
def linkWithinDocument (document : Document) (documentId : DocumentId) (link : DocumentLink) :
    DocumentLink × List Conflict × List Diagnostic :=
  if link.heading.isSome ∨ link.blockId.isSome then
    if (get? documentId w.documents).any fun candidate =>
        fragmentMatches X.toExternals candidate link.heading link.blockId then
      ({ link with resolution := .resolved documentId }, [], [])
    else ({ link with resolution := .unresolved }, [],
      [unresolvedLink document documentId link
        ("unresolved heading/block link \x60" ++ link.rawTarget ++ "\x60")])
  else ({ link with resolution := .unresolved }, [], [])

/-- The body of the link loop of `resolve_links`. -/
def resolveLink (document : Document) (link : DocumentLink) :
    Except OkcError (DocumentLink × List Conflict × List Diagnostic) :=
  let documentId := representativeOf map document.documentId
  let candidates := (resolveDocumentCandidates X.toExternals indexes document.sourceFile.sourceId
    document.sourceFile.logicalPath link.path).filter fun candidate =>
      (get? candidate w.documents).any fun candidate =>
        fragmentMatches X.toExternals candidate link.heading link.blockId
  match candidates with
  | [candidate] => .ok ({ link with resolution := .resolved candidate }, [], [])
  | _ :: _ :: _ => ambiguousLink X paths document documentId link candidates
  | [] =>
    match link.path with
    | some path => linkWithoutCandidate X indexes paths document documentId link path
    | none => .ok (linkWithinDocument X w document documentId link)

/-! ## One reference of a canvas -/

def canvasDiagnostic (canvas : Canvas) (code : DiagnosticCode) (message : String) : Diagnostic where
  code := code
  severity := .warning
  message := message
  logicalPath := some canvas.sourceFile.logicalPath
  sourceFileId := some canvas.sourceFile.fileId
  documentId := none
  span := none
  remediation := none

/-- The documents among the candidates. -/
def documentTargets (candidates : List CanvasReferenceTarget) : List DocumentId :=
  candidates.filterMap fun
    | .document id => some id
    | _ => none

/-- The body of the reference loop of `resolve_links`. -/
def resolveCanvasReference (canvas : Canvas) (destination : String)
    (reference : CanvasFileReference) :
    Except OkcError (CanvasFileReference × List Conflict × List Diagnostic) :=
  match resolveRelativeSourcePath canvas.sourceFile.logicalPath reference.rawPath with
  | none => .error (.unsafePath (canvas.sourceFile.logicalPath ++ "#" ++ reference.nodeId)
      ("Canvas file reference \x60" ++ reference.rawPath ++ "\x60 escapes the source Vault root"))
  | some resolved =>
    let candidates := resolveCanvasReferenceCandidates X.toExternals indexes
      canvas.sourceFile.sourceId resolved reference.rawPath
    match candidates with
    | [target] =>
      match canvasReferenceOutputPath paths target with
      | none => .error (.internal "resolved Canvas reference has no allocated output path")
      | some _ => .ok ({ reference with resolution := .resolved target }, [], [])
    | _ :: _ :: _ => do
      ensurePreservedCanvasTargetIsContained destination reference.rawPath
        canvas.sourceFile.logicalPath reference.nodeId
      let message := canvasAmbiguityMessage canvas.canvasId reference candidates
      .ok ({ reference with resolution := .ambiguous candidates },
        [conflictWithSubject X .linkAmbiguity true
          (some (.canvasReference canvas.canvasId reference.nodeId reference.rawPath))
          (documentTargets candidates) message none .unresolved],
        [canvasDiagnostic canvas .linkAmbiguity message])
    | [] => do
      ensurePreservedCanvasTargetIsContained destination reference.rawPath
        canvas.sourceFile.logicalPath reference.nodeId
      .ok ({ reference with resolution := .unresolved }, [],
        [canvasDiagnostic canvas .linkUnresolved
          ("unresolved Canvas file reference \x60" ++ reference.rawPath ++ "\x60")])

end

/-! ## All of them -/

/-- What a loop changed, and what it reported. -/
def gathered {α β : Type} (f : List α → β) (results : List (α × List Conflict × List Diagnostic)) :
    β × List Conflict × List Diagnostic :=
  (f (results.map Prod.fst), results.flatMap fun r => r.2.1, results.flatMap fun r => r.2.2)

section

variable (X : Crates) (w : CanonicalWorkspace) (map : List (DocumentId × DocumentId))
  (paths : OutputPathMaps)

/-- The body of the document loop. -/
def resolveDocument (entry : DocumentId × Document) :
    Except OkcError ((DocumentId × Document) × List Conflict × List Diagnostic) := do
  let links ← entry.2.links.mapM
    (resolveLink X w map (linkIndexes X.toExternals w map) paths entry.2)
  .ok (gathered (fun links => (entry.1, { entry.2 with links := links })) links)

/-- The body of the canvas loop. -/
def resolveCanvas (entry : CanvasId × Canvas) :
    Except OkcError ((CanvasId × Canvas) × List Conflict × List Diagnostic) :=
  match get? entry.2.canvasId paths.canvases with
  | none => .error (.internal
      ("Canvas " ++ entry.2.canvasId.toString ++ " has no allocated output path"))
  | some destination => do
    let references ← entry.2.fileReferences.mapM
      (resolveCanvasReference X (linkIndexes X.toExternals w map) paths entry.2 destination)
    .ok (gathered (fun references => (entry.1, { entry.2 with fileReferences := references }))
      references)

/-- `resolve_links`: the workspace, with the conflicts and the diagnostics that are added. -/
def resolveLinks : Except OkcError (CanonicalWorkspace × List Conflict × List Diagnostic) := do
  let documents ← w.documents.mapM (resolveDocument X w map paths)
  let canvases ← w.canvases.mapM (resolveCanvas X w map paths)
  .ok ({ w with documents := documents.map Prod.fst, canvases := canvases.map Prod.fst },
    (documents.flatMap fun r => r.2.1) ++ canvases.flatMap fun r => r.2.1,
    (documents.flatMap fun r => r.2.2) ++ canvases.flatMap fun r => r.2.2)

end

/-- Link `i` of document `n`. -/
def linkAt (w : CanonicalWorkspace) (n i : Nat) : Option DocumentLink :=
  w.documents[n]?.bind fun e => e.2.links[i]?

/-- File reference `i` of canvas `n`. -/
def referenceAt (w : CanonicalWorkspace) (n i : Nat) : Option CanvasFileReference :=
  w.canvases[n]?.bind fun e => e.2.fileReferences[i]?

section

variable {X : Crates} {w w' : CanonicalWorkspace} {map : List (DocumentId × DocumentId)}
  {paths : OutputPathMaps} {conflicts : List Conflict} {diagnostics : List Diagnostic} {n i : Nat}

theorem linkAt_resolveLinks (h : resolveLinks X w map paths = .ok (w', conflicts, diagnostics))
    {e : DocumentId × Document} (hn : w.documents[n]? = some e) {link : DocumentLink}
    (hi : e.2.links[i]? = some link) :
    ∃ r, resolveLink X w map (linkIndexes X.toExternals w map) paths e.2 link = .ok r ∧
      linkAt w' n i = some r.1 := by
  obtain ⟨documents, hdocuments, hrest⟩ := bind_eq_ok.mp h
  obtain ⟨canvases, -, hresult⟩ := bind_eq_ok.mp hrest
  obtain ⟨d, hd, hdn⟩ := getElem?_of_mapM hdocuments hn
  obtain ⟨links, hlinks, hgathered⟩ := bind_eq_ok.mp hd
  obtain ⟨r, hr, hri⟩ := getElem?_of_mapM hlinks hi
  refine ⟨r, hr, ?_⟩
  rw [← (Prod.mk.inj (Except.ok.inj hresult)).1]
  rw [← Except.ok.inj hgathered] at hdn
  simp [linkAt, hdn, gathered, hri]

theorem referenceAt_resolveLinks
    (h : resolveLinks X w map paths = .ok (w', conflicts, diagnostics)) {e : CanvasId × Canvas}
    (hn : w.canvases[n]? = some e) {reference : CanvasFileReference}
    (hi : e.2.fileReferences[i]? = some reference) :
    ∃ destination r, resolveCanvasReference X (linkIndexes X.toExternals w map) paths e.2
      destination reference = .ok r ∧ referenceAt w' n i = some r.1 := by
  obtain ⟨documents, -, hrest⟩ := bind_eq_ok.mp h
  obtain ⟨canvases, hcanvases, hresult⟩ := bind_eq_ok.mp hrest
  obtain ⟨c, hc, hcn⟩ := getElem?_of_mapM hcanvases hn
  rw [resolveCanvas] at hc
  cases hdestination : get? e.2.canvasId paths.canvases with
  | none =>
    rw [hdestination] at hc
    cases hc
  | some destination =>
    rw [hdestination] at hc
    obtain ⟨references, hreferences, hgathered⟩ := bind_eq_ok.mp hc
    obtain ⟨r, hr, hri⟩ := getElem?_of_mapM hreferences hi
    refine ⟨destination, r, hr, ?_⟩
    rw [← (Prod.mk.inj (Except.ok.inj hresult)).1]
    rw [← Except.ok.inj hgathered] at hcn
    simp [referenceAt, hcn, gathered, hri]

/-- The loops end where their bodies do. -/
theorem resolveLinks_isOk
    (hlinks : ∀ e ∈ w.documents, ∀ link ∈ e.2.links, ∃ r,
      resolveLink X w map (linkIndexes X.toExternals w map) paths e.2 link = .ok r)
    (hreferences : ∀ e ∈ w.canvases, ∃ destination,
      get? e.2.canvasId paths.canvases = some destination ∧ ∀ reference ∈ e.2.fileReferences, ∃ r,
        resolveCanvasReference X (linkIndexes X.toExternals w map) paths e.2 destination
          reference = .ok r) :
    ∃ w' conflicts diagnostics, resolveLinks X w map paths = .ok (w', conflicts, diagnostics) := by
  obtain ⟨documents, hdocuments⟩ := mapM_isOk (f := resolveDocument X w map paths)
    (l := w.documents) fun e he => by
      obtain ⟨links, h⟩ := mapM_isOk (hlinks e he)
      exact ⟨_, bind_eq_ok.mpr ⟨links, h, rfl⟩⟩
  obtain ⟨canvases, hcanvases⟩ := mapM_isOk (f := resolveCanvas X w map paths)
    (l := w.canvases) fun e he => by
      obtain ⟨destination, hget, hbodies⟩ := hreferences e he
      obtain ⟨references, h⟩ := mapM_isOk hbodies
      rw [resolveCanvas, hget]
      exact ⟨_, bind_eq_ok.mpr ⟨references, h, rfl⟩⟩
  exact ⟨_, _, _, bind_eq_ok.mpr ⟨documents, hdocuments, bind_eq_ok.mpr ⟨canvases, hcanvases, rfl⟩⟩⟩

end

end Okc.Core
