import Okc.Core.Revision

/-!
# Materialisation (`integration.rs:1593-1933`)

The files a plan stands for: one note for each cluster, one redirect stub for each source document,
and the provenance records of both, with the texts as the renderer writes them.

* `materializedFiles_isOk`: a valid plan materializes.
* `materializedFiles_paths`: its files are the note of each cluster and the stub of each document.
* `provenanceJsonl_isOk`: every file of a valid plan is classified.
-/

namespace Okc.Core

open Okc.Lib

/-- A path below the artifact's root with the content of the file there. -/
abbrev OutputFile := String × Bytes

/-- `sort_by(|left, right| left.path.cmp(&right.path))`. -/
def sortByPath {α : Type} (path : α → String) (files : List α) : List α :=
  files.insertionSort fun a b => path a ≤ path b

/-! ## Notes -/

def yamlScalar (value : String) : String := (Value.str value).text

/-- `{:?}` of a link kind. -/
def RelatedLinkKind.debug : RelatedLinkKind → String
  | .prerequisite => "Prerequisite"
  | .related => "Related"
  | .contrasts => "Contrasts"
  | .supersedes => "Supersedes"

/-- The `documents` of `render_canonical_note`. -/
def noteDocuments (corpus : IntegrationCorpus) (cluster : TaxonomyCluster) :
    List IntegrationDocument :=
  cluster.documentIds.filterMap fun id => corpus.documents.find? fun d => d.documentId = id

/-- `disposition_by_target`. -/
def dispositionByTarget (dispositions : List SourceDisposition) :
    List ((DocumentId ×ₗ String) × DispositionKind) :=
  collect (dispositions.map fun d =>
    (toLex (d.target.documentId, d.target.targetId), d.disposition))

/-- An entry of `okc_retained_metadata`. -/
def retainedEntry (documentId : DocumentId) (metadata : MetadataValue)
    (disposition : DispositionKind) : Value :=
  .object [("document_id", documentId.toValue), ("key", .str metadata.key),
    ("value_index", .nat metadata.valueIndex), ("value", metadata.value),
    ("disposition", disposition.toValue)]

def retainedMetadata (documents : List IntegrationDocument)
    (dispositions : List SourceDisposition) : List Value :=
  documents.flatMap fun document => document.metadata.filterMap fun metadata =>
    match get? (toLex (document.documentId, metadata.metadataId))
      (dispositionByTarget dispositions) with
    | none => none
    | some disposition =>
      if disposition ≠ .omissionProposed then
        some (retainedEntry document.documentId metadata disposition)
      else none

def preservedBlocks (documents : List IntegrationDocument)
    (dispositions : List SourceDisposition) : List (DocumentId × SourceBlock) :=
  documents.flatMap fun document => document.blocks.filterMap fun block =>
    if get? (toLex (document.documentId, block.blockId.toString))
        (dispositionByTarget dispositions) = some .preservedVerbatim then
      some (document.documentId, block)
    else none

def renderSection (s : SynthesisSection) : String :=
  "\n## " ++ s.heading ++ " \x7b#" ++ s.sectionId ++ "\x7d\n\n" ++ trimEnd s.markdownBody ++ "\n"

def renderPreserved (item : DocumentId × SourceBlock) : String :=
  "\n<!-- okc-source: " ++ item.1.toString ++ " " ++ item.2.blockId.toString ++ " -->\n\n" ++
    trimEnd item.2.text ++ "\n"

def renderClaim (claim : ContradictionClaim) : String :=
  "\n- **" ++ claim.context ++ ":** " ++ claim.renderedClaim ++
    (match claim.observedAt with
    | some observedAt => " (`" ++ observedAt ++ "`)"
    | none => "") ++ "\n"

def renderContradiction (c : ContradictionSet) : String :=
  "\n### " ++ c.summary ++ "\n" ++ concat (c.claims.map renderClaim)

def renderLink (clusters : List (String × TaxonomyCluster)) (link : RelatedLink) :
    Except OkcError String :=
  match get? link.targetClusterId clusters with
  | none => .error (.internal "validated related cluster disappeared")
  | some target =>
    .ok ("\n- " ++ link.kind.debug ++ ": [[knowledge/" ++ target.canonicalPath ++ "|" ++
      target.title ++ "]]\n")

/-- A heading and what stands under it, when anything does. -/
def underHeading (heading : String) (parts : List String) : String :=
  if parts = [] then "" else heading ++ concat parts

/-- The `okc_retained_metadata` line. -/
def retainedLine (retained : List Value) : String :=
  "okc_retained_metadata: " ++ (Value.arr retained).text ++ "\n"

def renderFrontMatter (plan : ApprovedIntegrationPlan) (cluster : TaxonomyCluster)
    (retained : List Value) : String :=
  concat [
    "---\nokc_generated: true\nokc_schema: 3\n",
    "okc_cluster_id: ", yamlScalar cluster.clusterId, "\n",
    "okc_integration_plan: ", yamlScalar plan.integrationPlanId, "\n",
    if retained = [] then "" else retainedLine retained,
    "---\n\n"]

def renderCanonicalNote (plan : ApprovedIntegrationPlan) (cluster : TaxonomyCluster)
    (revision : ApprovedClusterRevision) : Except OkcError String := do
  let proposal := revision.proposal
  let documents := noteDocuments plan.corpus cluster
  let links ← proposal.relatedLinks.mapM (renderLink plan.taxonomy.clustersById)
  .ok (concat [
    renderFrontMatter plan cluster (retainedMetadata documents proposal.dispositions),
    "# ", cluster.title, "\n",
    concat (proposal.sections.map renderSection),
    underHeading "\n## Preserved source material\n"
      ((preservedBlocks documents proposal.dispositions).map renderPreserved),
    underHeading "\n## Contradictions\n" (proposal.contradictions.map renderContradiction),
    underHeading "\n## Related\n" links])

/-! ## Stubs -/

/-- `canonical.strip_suffix(".md").unwrap_or(canonical)`. -/
def stripMd (path : String) : String :=
  if ".md".toList <:+ path.toList then String.ofList (path.toList.take (path.toList.length - 3))
  else path

def renderLegacyStub (plan : ApprovedIntegrationPlan) (document : IntegrationDocument)
    (canonical : String) : String :=
  "---\nokc_redirect: true\nokc_schema: 3\nokc_source_document: " ++
    yamlScalar document.documentId.toString ++ "\nokc_integration_plan: " ++
    yamlScalar plan.integrationPlanId ++
    "\n---\n\nThis source note was integrated into [[" ++ stripMd canonical ++ "]].\n"

/-! ## Materialized files -/

/-- The revision loop of `materialized_files`: the note, and its documents' entries in
`document_targets`. An identity without a cluster, where the source panics, is an error. -/
def materializeNote (X : Externals) (plan : ApprovedIntegrationPlan)
    (revision : ApprovedClusterRevision) :
    Except OkcError (OutputFile × List (DocumentId × String)) :=
  match get? revision.proposal.clusterId plan.taxonomy.clustersById with
  | none => .error (.internal "no entry found for key")
  | some cluster => do
    validateRelativePath X cluster.notePath
    let text ← renderCanonicalNote plan cluster revision
    .ok ((cluster.notePath, utf8 text), cluster.documentIds.map fun id => (id, cluster.notePath))

/-- The document loop of `materialized_files`. -/
def materializeStub (X : Externals) (plan : ApprovedIntegrationPlan)
    (documentTargets : List (DocumentId × String)) (document : IntegrationDocument) :
    Except OkcError OutputFile :=
  match get? document.documentId documentTargets with
  | none => .error (.internal "taxonomy document target disappeared during materialization")
  | some canonical => do
    validateRelativePath X document.stubPath
    .ok (document.stubPath, utf8 (renderLegacyStub plan document canonical))

/-- `windows(2).any(|pair| pair[0] == pair[1])`. -/
def adjacentEqual : List String → Bool
  | a :: b :: rest => a == b || adjacentEqual (b :: rest)
  | _ => false

def materializedFiles (X : Externals) (plan : ApprovedIntegrationPlan) :
    Except OkcError (List OutputFile) := do
  let notes ← plan.clusters.mapM (materializeNote X plan)
  let documentTargets := collect (notes.flatMap Prod.snd)
  let stubs ← plan.corpus.documents.mapM (materializeStub X plan documentTargets)
  let files := sortByPath Prod.fst (notes.map Prod.fst ++ stubs)
  reject (adjacentEqual (files.map Prod.fst))
    (.unsafePath "materialized output" "Schema 3 output paths collide")
  .ok files

/-! ## Provenance -/

structure ProvenanceRecord where
  schemaVersion : Nat
  recordId : String
  kind : String
  outputPath : String
  outputHash : ContentHash
  integrationPlanId : String
  clusterId : Option String
  proposalHash : Option ContentHash
  criticHash : Option ContentHash
  approvalHash : Option ContentHash
  evidence : List SectionEvidence
  sourceDocument : Option DocumentId
deriving DecidableEq

def ProvenanceRecord.toValue (r : ProvenanceRecord) : Value :=
  .object [("schema_version", .nat r.schemaVersion), ("record_id", .str r.recordId),
    ("kind", .str r.kind), ("output_path", .str r.outputPath),
    ("output_hash", r.outputHash.toValue), ("integration_plan_id", .str r.integrationPlanId),
    ("cluster_id", .option .str r.clusterId),
    ("proposal_hash", .option ContentHash.toValue r.proposalHash),
    ("critic_hash", .option ContentHash.toValue r.criticHash),
    ("approval_hash", .option ContentHash.toValue r.approvalHash),
    ("evidence", .arr (r.evidence.map SectionEvidence.toValue)),
    ("source_document", .option DocumentId.toValue r.sourceDocument)]

/-- `ProvenanceIdentity`. -/
def provenanceIdentity (outputPath : String) (outputHash : ContentHash)
    (integrationPlanId kind : String) : Value :=
  .object [("output_path", .str outputPath), ("output_hash", outputHash.toValue),
    ("integration_plan_id", .str integrationPlanId), ("kind", .str kind)]

/-- `derive(PartialOrd, Ord)`: field by field. -/
instance : LinearOrder SectionEvidence :=
  LinearOrder.lift' (fun e : SectionEvidence =>
      toLex (e.documentId, toLex (e.blockId, e.contentHash))) fun a b h => by
    cases a
    cases b
    simpa using h

/-- `collect::<BTreeSet<_>>().into_iter().collect()`. -/
def evidenceSet (evidence : List SectionEvidence) : List SectionEvidence :=
  (collect (evidence.map fun e => (e, ()))).map Prod.fst

/-- `revision_by_id`. -/
def ApprovedIntegrationPlan.revisionById (plan : ApprovedIntegrationPlan) :
    List (String × ApprovedClusterRevision) :=
  collect (plan.clusters.map fun r => (r.proposal.clusterId, r))

/-- `cluster_by_path`. -/
def ApprovedIntegrationPlan.clusterByPath (plan : ApprovedIntegrationPlan) :
    List (String × TaxonomyCluster) :=
  collect (plan.taxonomy.clusters.map fun c => (c.notePath, c))

/-- `source_by_path`. -/
def ApprovedIntegrationPlan.sourceByPath (plan : ApprovedIntegrationPlan) :
    List (String × IntegrationDocument) :=
  collect (plan.corpus.documents.map fun d => (d.stubPath, d))

/-- The record of a file of the cluster's approved revision. -/
def recordOf (X : Externals) (plan : ApprovedIntegrationPlan) (file : OutputFile) (kind : String)
    (cluster : TaxonomyCluster) (revision : ApprovedClusterRevision)
    (evidence : List SectionEvidence) (source : Option DocumentId) : ProvenanceRecord :=
  let outputHash := X.fromDomainBytes "okc:output:v3\x00" file.2
  { schemaVersion := integrationSchemaVersion
    recordId := "record_" ++ (X.canonicalHash "okc:provenance:v3\x00"
      (provenanceIdentity file.1 outputHash plan.integrationPlanId kind)).hex
    kind := kind
    outputPath := file.1
    outputHash := outputHash
    integrationPlanId := plan.integrationPlanId
    clusterId := some cluster.clusterId
    proposalHash := some revision.proposal.proposalHash
    criticHash := some revision.critic.criticHash
    approvalHash := some revision.approval.revisionHash
    evidence := evidence
    sourceDocument := source }

/-- The file loop of `provenance_jsonl`. A cluster without a revision, where the source panics, is
an error. -/
def provenanceRecord (X : Externals) (plan : ApprovedIntegrationPlan) (file : OutputFile) :
    Except OkcError ProvenanceRecord :=
  match get? file.1 plan.clusterByPath with
  | some cluster =>
    match get? cluster.clusterId plan.revisionById with
    | none => .error (.internal "no entry found for key")
    | some revision =>
      .ok (recordOf X plan file "canonical_note" cluster revision
        (evidenceSet revision.proposal.evidence) none)
  | none =>
    match get? file.1 plan.sourceByPath with
    | none => .error (.internal "unclassified Schema 3 materialized output")
    | some document =>
      match plan.taxonomy.clusters.find? fun c => document.documentId ∈ c.documentIds with
      | none => .error (.internal "validated legacy redirect lost its taxonomy cluster")
      | some cluster =>
        match get? cluster.clusterId plan.revisionById with
        | none => .error (.internal "no entry found for key")
        | some revision =>
          .ok (recordOf X plan file "legacy_redirect" cluster revision
            (document.blocks.map fun b => ⟨document.documentId, b.blockId, b.contentHash⟩)
            (some document.documentId))

def provenanceJsonl (X : Externals) (plan : ApprovedIntegrationPlan) (files : List OutputFile) :
    Except OkcError Bytes := do
  let records ← files.mapM (provenanceRecord X plan)
  .ok (records.flatMap fun r => r.toValue.canonicalJson ++ utf8 "\n")

/-! ## Valid plans materialize -/

theorem mem_sortByPath {α : Type} {path : α → String} {files : List α} {f : α} :
    f ∈ sortByPath path files ↔ f ∈ files :=
  List.mem_insertionSort _

theorem sortByPath_perm {α : Type} (path : α → String) (files : List α) :
    (sortByPath path files).Perm files :=
  List.perm_insertionSort _ _

theorem adjacentEqual_of_nodup : ∀ {paths : List String}, paths.Nodup → adjacentEqual paths = false
  | [], _ => rfl
  | [_], _ => rfl
  | a :: b :: rest, h => by
    rw [List.nodup_cons] at h
    have hab : a ≠ b := fun he => h.1 (he ▸ List.mem_cons_self)
    rw [adjacentEqual, adjacentEqual_of_nodup h.2]
    simp [hab]

theorem splitSlash_notePath (c : TaxonomyCluster) :
    splitSlash c.notePath = "knowledge" :: splitSlash c.canonicalPath := by
  have hslash : '/' ∉ "knowledge".toList := by decide
  exact splitSlash_append hslash c.canonicalPath

theorem splitSlash_stubPath (d : IntegrationDocument) : ∃ rest,
    splitSlash d.stubPath = "legacy" :: rest := by
  have hslash : '/' ∉ "legacy".toList := by decide
  have hpath : d.stubPath = "legacy" ++ "/" ++ (d.sourceId.value ++ "/" ++ d.originalPath) := by
    apply String.toList_inj.mp
    simp [IntegrationDocument.stubPath]
  exact ⟨_, hpath ▸ splitSlash_append hslash _⟩

/-- The paths of a plan's notes and stubs. -/
def outputPaths (p : ApprovedIntegrationPlan) : List String :=
  p.taxonomy.clusters.map TaxonomyCluster.notePath ++
    p.corpus.documents.map IntegrationDocument.stubPath

section Valid

variable {X : Externals} {p : ApprovedIntegrationPlan}

theorem ValidPlan.portable_outputPaths (h : ValidPlan X p) : ∀ q ∈ outputPaths p, Portable X q := by
  intro q hq
  rcases List.mem_append.mp hq with hn | hs
  · exact (insertable_apart h.taxonomy.outputPaths).1 q hn
  · exact (insertable_apart h.corpus.outputPaths).1 q hs

/-- **The outputs of a valid plan are pairwise apart.** -/
theorem ValidPlan.apart_outputPaths (h : ValidPlan X p) : (outputPaths p).Pairwise Apart := by
  refine List.pairwise_append.mpr ⟨(insertable_apart h.taxonomy.outputPaths).2,
    (insertable_apart h.corpus.outputPaths).2, fun a ha b hb => ?_⟩
  obtain ⟨c, -, rfl⟩ := List.mem_map.mp ha
  obtain ⟨d, -, rfl⟩ := List.mem_map.mp hb
  obtain ⟨rest, hrest⟩ := splitSlash_stubPath d
  simp [Apart, splitSlash_notePath, hrest, List.cons_prefix_cons]

theorem ValidPlan.nodup_outputPaths (h : ValidPlan X p) : (outputPaths p).Nodup :=
  h.apart_outputPaths.imp Apart.ne

theorem materializeNote_eq_ok {r : ApprovedClusterRevision}
    {note : OutputFile × List (DocumentId × String)} :
    materializeNote X p r = .ok note ↔ ∃ c text,
      get? r.proposal.clusterId p.taxonomy.clustersById = some c ∧ Portable X c.notePath ∧
      renderCanonicalNote p c r = .ok text ∧
      note = ((c.notePath, utf8 text), c.documentIds.map fun id => (id, c.notePath)) := by
  unfold materializeNote
  cases get? r.proposal.clusterId p.taxonomy.clustersById with
  | none => simp
  | some c =>
    simp only [bind_eq_ok, exists_unit, validateRelativePath_eq_ok, Except.ok.injEq,
      Option.some.injEq]
    constructor
    · rintro ⟨hp, text, ht, rfl⟩
      exact ⟨c, text, rfl, hp, ht, rfl⟩
    · rintro ⟨_, text, rfl, hp, ht, rfl⟩
      exact ⟨hp, text, ht, rfl⟩

theorem renderCanonicalNote_isOk (h : ValidPlan X p) {c : TaxonomyCluster}
    {r : ApprovedClusterRevision}
    (hv : ValidRevision X p.corpus p.taxonomy c p.providerRecordingHashes r) :
    ∃ text, renderCanonicalNote p c r = .ok text := by
  have hlinks : ∃ links, r.proposal.relatedLinks.mapM (renderLink p.taxonomy.clustersById) =
      .ok links := by
    refine mapM_isOk fun l hl => ?_
    obtain ⟨target, ht, hid⟩ := List.mem_map.mp (hv.proposal.links l hl).1
    have hg := h.taxonomy.get?_clustersById.mpr ⟨ht, hid⟩
    exact ⟨_, by rw [renderLink, hg]⟩
  obtain ⟨links, hlinks⟩ := hlinks
  exact ⟨_, by simp only [renderCanonicalNote, hlinks]; rfl⟩

theorem materializeNotes_isOk (h : ValidPlan X p) :
    ∃ notes, p.clusters.mapM (materializeNote X p) = .ok notes := by
  refine mapM_isOk fun r hr => ?_
  obtain ⟨c, hc, hg, hv⟩ := h.cluster_of_revision hr
  obtain ⟨text, ht⟩ := renderCanonicalNote_isOk h hv
  have hp := h.portable_outputPaths c.notePath
    (List.mem_append_left _ (List.mem_map_of_mem hc))
  exact ⟨_, materializeNote_eq_ok.mpr ⟨c, text, hg, hp, ht, rfl⟩⟩

/-- The notes are those of the taxonomy's clusters. -/
theorem materializeNotes_paths (h : ValidPlan X p)
    {notes : List (OutputFile × List (DocumentId × String))}
    (hn : p.clusters.mapM (materializeNote X p) = .ok notes) :
    (notes.map fun n => n.1.1).Perm (p.taxonomy.clusters.map TaxonomyCluster.notePath) := by
  let pathOf (id : String) : Option String :=
    (get? id p.taxonomy.clustersById).map TaxonomyCluster.notePath
  have hnotes : notes.map (fun n => some n.1.1) =
      (p.clusters.map fun r => r.proposal.clusterId).map pathOf := by
    rw [List.map_map]
    refine map_of_mapM hn fun r _ note hr => ?_
    obtain ⟨c, text, hg, -, -, rfl⟩ := materializeNote_eq_ok.mp hr
    simp [pathOf, hg]
  have hclusters : (p.taxonomy.clusters.map TaxonomyCluster.clusterId).map pathOf =
      p.taxonomy.clusters.map fun c => some c.notePath := by
    rw [List.map_map]
    refine List.map_congr_left fun c hc => ?_
    simp [pathOf, h.taxonomy.get?_clustersById.mpr ⟨hc, rfl⟩]
  have hperm := h.clusterIds_perm.map pathOf
  rw [← hnotes, hclusters] at hperm
  refine (List.map_perm_map_iff (Option.some_injective String)).mp ?_
  rw [List.map_map, List.map_map]
  exact hperm

/-- **`document_targets` sends a document to the note of its cluster.** -/
theorem get?_documentTargets (h : ValidPlan X p)
    {notes : List (OutputFile × List (DocumentId × String))}
    (hn : p.clusters.mapM (materializeNote X p) = .ok notes) {d : IntegrationDocument}
    (hd : d ∈ p.corpus.documents) {c : TaxonomyCluster} (hc : c ∈ p.taxonomy.clusters)
    (hdc : d.documentId ∈ c.documentIds) :
    get? d.documentId (collect (notes.flatMap Prod.snd)) = some c.notePath := by
  have hentry : ∀ e, e ∈ notes.flatMap Prod.snd ↔ ∃ r ∈ p.clusters, ∃ c' ∈ p.taxonomy.clusters,
      r.proposal.clusterId = c'.clusterId ∧ ∃ id ∈ c'.documentIds, e = (id, c'.notePath) := by
    intro e
    rw [List.mem_flatMap]
    constructor
    · rintro ⟨note, hnote, he⟩
      obtain ⟨r, hr, hrn⟩ := mem_of_mapM_right hn hnote
      obtain ⟨c', text, hg, -, -, rfl⟩ := materializeNote_eq_ok.mp hrn
      obtain ⟨id, hid, rfl⟩ := List.mem_map.mp he
      have hc' := h.taxonomy.get?_clustersById.mp hg
      exact ⟨r, hr, c', hc'.1, hc'.2.symm, id, hid, rfl⟩
    · rintro ⟨r, hr, c', hc', hrc, id, hid, rfl⟩
      obtain ⟨note, hnote, hrn⟩ := mem_of_mapM_left hn hr
      obtain ⟨e, text, hg, -, -, rfl⟩ := materializeNote_eq_ok.mp hrn
      have he := h.taxonomy.get?_clustersById.mp hg
      obtain rfl : e = c' := h.taxonomy.cluster_unique he.1 hc' (he.2.trans hrc)
      exact ⟨_, hnote, List.mem_map.mpr ⟨id, hid, rfl⟩⟩
  obtain ⟨r, hr, hid⟩ := h.revision_of_cluster hc
  have hkey : d.documentId ∈ (notes.flatMap Prod.snd).map Prod.fst :=
    List.mem_map.mpr ⟨_, (hentry _).mpr ⟨r, hr, c, hc, hid, _, hdc, rfl⟩, rfl⟩
  cases hg : get? d.documentId (collect (notes.flatMap Prod.snd)) with
  | none => exact absurd hkey (get?_collect_eq_none.mp hg)
  | some canonical =>
    obtain ⟨-, -, c', hc', -, id, hdc', he⟩ := (hentry _).mp (mem_of_mem_collect (mem_of_get? hg))
    obtain ⟨rfl, rfl⟩ := Prod.mk.inj he
    rw [(h.taxonomy.cluster_of_document hd).unique ⟨hc', hdc'⟩ ⟨hc, hdc⟩]

/-- The stub of a document, which leads to the note of its cluster. -/
theorem materializeStub_eq (h : ValidPlan X p)
    {notes : List (OutputFile × List (DocumentId × String))}
    (hn : p.clusters.mapM (materializeNote X p) = .ok notes) {d : IntegrationDocument}
    (hd : d ∈ p.corpus.documents) {c : TaxonomyCluster} (hc : c ∈ p.taxonomy.clusters)
    (hdc : d.documentId ∈ c.documentIds) :
    materializeStub X p (collect (notes.flatMap Prod.snd)) d =
      .ok (d.stubPath, utf8 (renderLegacyStub p d c.notePath)) := by
  have hp := validateRelativePath_eq_ok.mpr (h.portable_outputPaths d.stubPath
    (List.mem_append_right _ (List.mem_map_of_mem hd)))
  simp only [materializeStub, get?_documentTargets h hn hd hc hdc, hp]
  rfl

theorem materializeStubs_isOk (h : ValidPlan X p)
    {notes : List (OutputFile × List (DocumentId × String))}
    (hn : p.clusters.mapM (materializeNote X p) = .ok notes) :
    ∃ stubs, p.corpus.documents.mapM (materializeStub X p (collect (notes.flatMap Prod.snd))) =
      .ok stubs := by
  refine mapM_isOk fun d hd => ?_
  obtain ⟨c, hc, hdc⟩ := h.taxonomy.covers d hd
  exact ⟨_, materializeStub_eq h hn hd hc hdc⟩

theorem materializeStub_path {targets : List (DocumentId × String)} {d : IntegrationDocument}
    {stub : OutputFile} (h : materializeStub X p targets d = .ok stub) : stub.1 = d.stubPath := by
  unfold materializeStub at h
  split at h
  · cases h
  · rw [bind_unit_eq_ok] at h
    cases h.2
    rfl

theorem materialized_paths (h : ValidPlan X p)
    {notes : List (OutputFile × List (DocumentId × String))} {stubs : List OutputFile}
    {targets : List (DocumentId × String)}
    (hn : p.clusters.mapM (materializeNote X p) = .ok notes)
    (hs : p.corpus.documents.mapM (materializeStub X p targets) = .ok stubs) :
    ((sortByPath Prod.fst (notes.map Prod.fst ++ stubs)).map Prod.fst).Perm (outputPaths p) := by
  refine ((sortByPath_perm _ _).map _).trans ?_
  rw [List.map_append, List.map_map, map_of_mapM hs fun d _ stub => materializeStub_path]
  exact (materializeNotes_paths h hn).append_right _

/-- **The files of a valid plan are the note of each cluster and the stub of each document.** -/
theorem materializedFiles_paths (h : ValidPlan X p) {files : List OutputFile}
    (hf : materializedFiles X p = .ok files) : (files.map Prod.fst).Perm (outputPaths p) := by
  simp only [materializedFiles, bind_eq_ok, exists_unit, Except.ok.injEq] at hf
  obtain ⟨notes, hn, stubs, hs, -, rfl⟩ := hf
  exact materialized_paths h hn hs

/-- **A valid plan materializes.** -/
theorem materializedFiles_isOk (h : ValidPlan X p) :
    ∃ files, materializedFiles X p = .ok files := by
  obtain ⟨notes, hn⟩ := materializeNotes_isOk h
  obtain ⟨stubs, hs⟩ := materializeStubs_isOk h hn
  have hnodup := (materialized_paths h hn hs).nodup_iff.mpr h.nodup_outputPaths
  refine ⟨sortByPath Prod.fst (notes.map Prod.fst ++ stubs), ?_⟩
  simp only [materializedFiles, bind_eq_ok, exists_unit, Except.ok.injEq, reject_eq_ok]
  exact ⟨notes, hn, stubs, hs, by simp [adjacentEqual_of_nodup hnodup], rfl⟩

/-- The note of a cluster is among the files. -/
theorem note_mem_materializedFiles (h : ValidPlan X p) {files : List OutputFile}
    (hf : materializedFiles X p = .ok files) {c : TaxonomyCluster} {r : ApprovedClusterRevision}
    (hr : r ∈ p.clusters) (hc : c ∈ p.taxonomy.clusters)
    (hid : r.proposal.clusterId = c.clusterId) :
    ∃ text, renderCanonicalNote p c r = .ok text ∧ (c.notePath, utf8 text) ∈ files := by
  simp only [materializedFiles, bind_eq_ok, exists_unit, Except.ok.injEq] at hf
  obtain ⟨notes, hn, stubs, hs, -, rfl⟩ := hf
  obtain ⟨note, hnote, hrn⟩ := mem_of_mapM_left hn hr
  obtain ⟨d, text, hg, -, ht, rfl⟩ := materializeNote_eq_ok.mp hrn
  have hd := h.taxonomy.get?_clustersById.mp hg
  obtain rfl : d = c := h.taxonomy.cluster_unique hd.1 hc (hd.2.trans hid)
  exact ⟨text, ht, mem_sortByPath.mpr (List.mem_append_left _ (List.mem_map_of_mem hnote))⟩

/-- The stub of a document is among the files. -/
theorem stub_mem_materializedFiles (h : ValidPlan X p) {files : List OutputFile}
    (hf : materializedFiles X p = .ok files) {d : IntegrationDocument}
    (hd : d ∈ p.corpus.documents) {c : TaxonomyCluster} (hc : c ∈ p.taxonomy.clusters)
    (hdc : d.documentId ∈ c.documentIds) :
    (d.stubPath, utf8 (renderLegacyStub p d c.notePath)) ∈ files := by
  simp only [materializedFiles, bind_eq_ok, exists_unit, Except.ok.injEq] at hf
  obtain ⟨notes, hn, stubs, hs, -, rfl⟩ := hf
  obtain ⟨stub, hstub, hds⟩ := mem_of_mapM_left hs hd
  obtain rfl := Except.ok.inj (hds.symm.trans (materializeStub_eq h hn hd hc hdc))
  exact mem_sortByPath.mpr (List.mem_append_right _ hstub)

/-! ## Provenance of a valid plan -/

theorem get?_revisionById (h : ValidPlan X p) {r : ApprovedClusterRevision} (hr : r ∈ p.clusters) :
    get? r.proposal.clusterId p.revisionById = some r := by
  have hkeys : (p.clusters.map fun r => (r.proposal.clusterId, r)).map Prod.fst =
      p.clusters.map fun r => r.proposal.clusterId := by simp
  rw [ApprovedIntegrationPlan.revisionById,
    get?_collect_eq_some (by rw [hkeys]; exact h.revisionsDistinct)]
  exact List.mem_map_of_mem hr

theorem revisionById_isSome (h : ValidPlan X p) {c : TaxonomyCluster}
    (hc : c ∈ p.taxonomy.clusters) : ∃ r, get? c.clusterId p.revisionById = some r := by
  obtain ⟨r, hr, hid⟩ := h.revision_of_cluster hc
  exact ⟨r, hid ▸ get?_revisionById h hr⟩

theorem provenanceRecord_isOk (h : ValidPlan X p) {file : OutputFile}
    (hf : file.1 ∈ outputPaths p) : ∃ record, provenanceRecord X p file = .ok record := by
  unfold provenanceRecord
  cases hc : get? file.1 p.clusterByPath with
  | some c =>
    obtain ⟨c', hc', he⟩ := List.mem_map.mp (mem_of_mem_collect (mem_of_get? hc))
    obtain rfl : c' = c := congrArg Prod.snd he
    obtain ⟨r, hr⟩ := revisionById_isSome h hc'
    simp only [hr]
    exact ⟨_, rfl⟩
  | none =>
    have hnote : file.1 ∉ p.taxonomy.clusters.map TaxonomyCluster.notePath := by
      have := get?_collect_eq_none.mp hc
      rwa [List.map_map] at this
    cases hd : get? file.1 p.sourceByPath with
    | none =>
      have hstub := get?_collect_eq_none.mp hd
      rw [List.map_map] at hstub
      exact absurd hf fun hm => (List.mem_append.mp hm).elim hnote hstub
    | some d =>
      obtain ⟨d', hd', he⟩ := List.mem_map.mp (mem_of_mem_collect (mem_of_get? hd))
      obtain rfl : d' = d := congrArg Prod.snd he
      obtain ⟨c, hc, hdc⟩ := h.taxonomy.covers d' hd'
      cases hfind : p.taxonomy.clusters.find? fun c => d'.documentId ∈ c.documentIds with
      | none => simpa [hdc] using List.find?_eq_none.mp hfind c hc
      | some c' =>
        obtain ⟨r, hr⟩ := revisionById_isSome h (List.mem_of_find?_eq_some hfind)
        simp only [hfind, hr]
        exact ⟨_, rfl⟩

/-- **Every file of a valid plan has a provenance record.** -/
theorem provenanceJsonl_isOk (h : ValidPlan X p) {files : List OutputFile}
    (hf : materializedFiles X p = .ok files) : ∃ bytes, provenanceJsonl X p files = .ok bytes := by
  have hrecords : ∃ records, files.mapM (provenanceRecord X p) = .ok records :=
    mapM_isOk fun file hfile => provenanceRecord_isOk h
      ((materializedFiles_paths h hf).mem_iff.mp (List.mem_map_of_mem hfile))
  obtain ⟨records, hrecords⟩ := hrecords
  exact ⟨_, by simp only [provenanceJsonl, hrecords]; rfl⟩

end Valid

end Okc.Core
