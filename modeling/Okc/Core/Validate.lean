import Okc.Core.Integration
import Okc.Core.Portable

/-!
# Plan validation: corpus and taxonomy (`integration.rs:654-818`, `1172-1220`)

The validators of the plan's data, check by check, and for each the structure of conditions it
amounts to: `validateCorpus` accepts exactly the `ValidCorpus`es (`validateCorpus_eq_ok`) and
`validateTaxonomy` exactly the `ValidTaxonomy`s (`validateTaxonomy_eq_ok`). A loop's sets and
previous keys are read off the elements visited before (`scan`), except the portable output paths,
which are threaded through.

* `ValidCorpus.block_unique`, `ValidCorpus.document_unique`: identities pick out one document and
  one block.
* `ValidTaxonomy.cluster_of_document`: every document of the corpus is in exactly one cluster.
-/

namespace Okc.Core

open Okc.Lib

/-! ## Bounded text -/

def validateBoundedData (label value : String) (minimum maximum : Nat) : Except OkcError Unit :=
  reject (len value < minimum ∨ maximum < len value ∨ value.toList.any isControl)
    (.proposalInvalid (label ++ " must contain " ++ Nat.repr minimum ++ "..=" ++
      Nat.repr maximum ++ " non-control UTF-8 bytes"))

/-- What `validateBoundedData` accepts. -/
def Bounded (value : String) (minimum maximum : Nat) : Prop :=
  minimum ≤ len value ∧ len value ≤ maximum ∧ ∀ c ∈ value.toList, isControl c = false

theorem validateBoundedData_eq_ok {label value : String} {minimum maximum : Nat} :
    validateBoundedData label value minimum maximum = .ok () ↔ Bounded value minimum maximum := by
  simp [validateBoundedData, Bounded]

def validateOptionalRationale (kind : String) (rationale : Option String) (required : Bool) :
    Except OkcError Unit := do
  reject (required ∧ (rationale = none ∨ rationale = some ""))
    (.proposalInvalid (kind ++ " requires a rationale"))
  match rationale with
  | some rationale => validateBoundedData "rationale" rationale (if required then 1 else 0) 4096
  | none => .ok ()

/-- What `validateOptionalRationale` accepts. -/
def RationaleOk (rationale : Option String) (required : Bool) : Prop :=
  match rationale with
  | some rationale => Bounded rationale (if required then 1 else 0) 4096
  | none => required = false

theorem validateOptionalRationale_eq_ok {kind : String} {rationale : Option String}
    {required : Bool} :
    validateOptionalRationale kind rationale required = .ok () ↔ RationaleOk rationale required := by
  unfold validateOptionalRationale RationaleOk
  cases rationale with
  | none => cases required <;> simp
  | some text =>
    simp only [bind_unit_eq_ok, reject_eq_ok, validateBoundedData_eq_ok, and_iff_right_iff_imp]
    rintro hb ⟨hr, h⟩
    have ht : text = "" := by simpa using h
    rw [if_pos hr, ht] at hb
    exact absurd hb.1 (by decide)

def validateMarkdownBody (value : String) : Except OkcError Unit :=
  reject (trim value = "" ∨ 16 * 1024 * 1024 < len value ∨
      value.toList.any fun c => isControl c && !(c == '\n' || c == '\t'))
    (.proposalInvalid
      "section body must contain bounded non-empty Markdown with only LF/tab controls")

/-- `SourceId::new`. -/
def SourceId.new (value : String) : Except OkcError SourceId := do
  reject (value = "" ∨ 128 < len value ∨ value = "." ∨ value = "..")
    (.invalidConfig "source ID must contain 1..=128 UTF-8 bytes")
  reject (¬ value.toList.all fun c => c.isAlphanum || c == '-' || c == '_' || c == '.')
    (.invalidConfig ("source ID `" ++ value ++ "` contains unsupported characters"))
  .ok ⟨value⟩

/-! ## Corpus -/

/-- `MetadataValue::new`. -/
def MetadataValue.new (X : Externals) (documentId : DocumentId) (key : String) (valueIndex : Nat)
    (value : Value) : Except OkcError MetadataValue := do
  validateBoundedData "metadata key" key 1 1024
  let identity := metadataIdentity documentId key valueIndex value
  .ok {
    metadataId := "metadata_" ++ (X.canonicalHash "okc:metadata-id:v3\x00" identity).hex
    key := key
    valueIndex := valueIndex
    contentHash := X.canonicalHash "okc:metadata-value:v3\x00" identity
    value := value }

/-- `format!("legacy/{}/{}", document.source_id, document.original_path)`. -/
def IntegrationDocument.stubPath (d : IntegrationDocument) : String :=
  "legacy/" ++ d.sourceId.value ++ "/" ++ d.originalPath

/-- `format!("knowledge/{}", cluster.canonical_path)`. -/
def TaxonomyCluster.notePath (c : TaxonomyCluster) : String := "knowledge/" ++ c.canonicalPath

/-- The block loop of `validate_corpus`. -/
def checkBlock (X : Externals) (before : List SourceBlock) (block : SourceBlock) :
    Except OkcError Unit := do
  reject (NotAfter SourceBlock.blockId before block ∨
      block.blockId ∈ before.map SourceBlock.blockId)
    (.proposalInvalid "document blocks must be unique and strictly ID-sorted")
  reject (block.contentHash ≠ X.fromDomainBytes "okc:block-content:v3\x00" (utf8 block.text))
    (.planStale "integration block content hash does not match its text")

/-- The metadata loop of `validate_corpus`. -/
def checkMetadata (X : Externals) (documentId : DocumentId) (before : List MetadataValue)
    (metadata : MetadataValue) : Except OkcError Unit := do
  validateBoundedData "metadata ID" metadata.metadataId 1 128
  validateBoundedData "metadata key" metadata.key 1 1024
  reject (NotAfter MetadataValue.metadataId before metadata ∨
      metadata.metadataId ∈ before.map MetadataValue.metadataId ∨
      (metadata.key, metadata.valueIndex) ∈ before.map fun m => (m.key, m.valueIndex))
    (.proposalInvalid
      "metadata values and key/index slots must be unique and strictly ID-sorted")
  let expected ← MetadataValue.new X documentId metadata.key metadata.valueIndex metadata.value
  reject (expected ≠ metadata)
    (.planStale "integration metadata identity does not match its value")

/-- The state of the document loop: the documents visited, the latest first, and their output
paths. -/
structure CorpusLoop where
  visited : List IntegrationDocument
  outputPaths : PortableOutputPaths

/-- The document loop of `validate_corpus`. -/
def checkDocument (X : Externals) (s : CorpusLoop) (document : IntegrationDocument) :
    Except OkcError CorpusLoop := do
  reject (NotAfter IntegrationDocument.documentId s.visited document)
    (.planStale "integration documents are not strictly ID-sorted")
  reject (document.documentId ∈ s.visited.map IntegrationDocument.documentId)
    (.proposalInvalid "integration corpus contains a duplicate document")
  validateRelativePath X document.originalPath
  let _ ← SourceId.new document.sourceId.value
  let outputPaths ← insertPath X s.outputPaths document.stubPath
  reject ((document.sourceId, document.originalPath) ∈
      s.visited.map fun d => (d.sourceId, d.originalPath))
    (.proposalInvalid "integration corpus contains a duplicate source path")
  scan (checkBlock X) [] document.blocks
  scan (checkMetadata X document.documentId) [] document.metadata
  .ok ⟨document :: s.visited, outputPaths⟩

def validateCorpus (X : Externals) (corpus : IntegrationCorpus) : Except OkcError Unit := do
  reject (corpus.schemaVersion ≠ integrationSchemaVersion)
    (.planStale "integration corpus is not schema 3")
  reject (corpus.documents = [])
    (.proposalInvalid "Schema 3 integration corpus contains no Markdown documents")
  reject (X.canonicalHash "okc:integration-corpus:v3\x00" (documentsValue corpus.documents) ≠
      corpus.corpusHash)
    (.planStale "integration corpus hash does not match its documents")
  let _ ← corpus.documents.foldlM (checkDocument X) ⟨[], []⟩
  .ok ()

/-- `IntegrationCorpus::seal`. -/
def IntegrationCorpus.seal (X : Externals) (policyHash : ContentHash)
    (documents : List IntegrationDocument) : Except OkcError IntegrationCorpus := do
  let documents := (documents.mergeSort fun a b => a.documentId ≤ b.documentId).map fun d =>
    { d with
      blocks := d.blocks.mergeSort fun a b => a.blockId ≤ b.blockId
      metadata := d.metadata.mergeSort fun a b => a.metadataId ≤ b.metadataId }
  let corpus : IntegrationCorpus := {
    schemaVersion := integrationSchemaVersion
    corpusHash := X.canonicalHash "okc:integration-corpus:v3\x00" (documentsValue documents)
    policyHash := policyHash
    documents := documents }
  validateCorpus X corpus
  .ok corpus

/-- What the corpus validator asks of one metadata value. -/
structure ValidMetadata (X : Externals) (documentId : DocumentId) (m : MetadataValue) : Prop where
  idBounded : Bounded m.metadataId 1 128
  keyBounded : Bounded m.key 1 1024
  metadataId : m.metadataId = "metadata_" ++ (X.canonicalHash "okc:metadata-id:v3\x00"
    (metadataIdentity documentId m.key m.valueIndex m.value)).hex
  contentHash : m.contentHash = X.canonicalHash "okc:metadata-value:v3\x00"
    (metadataIdentity documentId m.key m.valueIndex m.value)

/-- What the corpus validator asks of one document. -/
structure ValidDocument (X : Externals) (d : IntegrationDocument) : Prop where
  originalPath : Portable X d.originalPath
  sourceId : SourceId.new d.sourceId.value = .ok d.sourceId
  blocksSorted : (d.blocks.map SourceBlock.blockId).Pairwise (· < ·)
  block : ∀ b ∈ d.blocks,
    b.contentHash = X.fromDomainBytes "okc:block-content:v3\x00" (utf8 b.text)
  metadataSorted : (d.metadata.map MetadataValue.metadataId).Pairwise (· < ·)
  slots : (d.metadata.map fun m => (m.key, m.valueIndex)).Nodup
  metadata : ∀ m ∈ d.metadata, ValidMetadata X d.documentId m

/-- What `validateCorpus` accepts. -/
structure ValidCorpus (X : Externals) (c : IntegrationCorpus) : Prop where
  schemaVersion : c.schemaVersion = integrationSchemaVersion
  nonempty : c.documents ≠ []
  corpusHash : c.corpusHash =
    X.canonicalHash "okc:integration-corpus:v3\x00" (documentsValue c.documents)
  sorted : (c.documents.map IntegrationDocument.documentId).Pairwise (· < ·)
  document : ∀ d ∈ c.documents, ValidDocument X d
  outputPaths : ScannedFrom (Insertable X) [] (c.documents.map IntegrationDocument.stubPath)
  sourcePaths : (c.documents.map fun d => (d.sourceId, d.originalPath)).Nodup

theorem scan_checkBlock {X : Externals} {blocks : List SourceBlock} :
    scan (checkBlock X) [] blocks = .ok () ↔
      (blocks.map SourceBlock.blockId).Pairwise (· < ·) ∧
      ∀ b ∈ blocks, b.contentHash = X.fromDomainBytes "okc:block-content:v3\x00" (utf8 b.text) := by
  simp only [scan_eq_ok, checkBlock, bind_unit_eq_ok, reject_eq_ok, not_or, not_notAfter,
    scannedFrom_and, scanned_ascending, scanned_fresh, scannedFrom_const, ne_eq, not_not]
  exact and_congr_left fun _ => and_iff_left_of_imp fun h => h.imp ne_of_lt

theorem metadataNew_eq_self {X : Externals} {documentId : DocumentId} {m : MetadataValue} :
    MetadataValue.new X documentId m.key m.valueIndex m.value = .ok m ↔
      Bounded m.key 1 1024 ∧
      m.metadataId = "metadata_" ++ (X.canonicalHash "okc:metadata-id:v3\x00"
        (metadataIdentity documentId m.key m.valueIndex m.value)).hex ∧
      m.contentHash = X.canonicalHash "okc:metadata-value:v3\x00"
        (metadataIdentity documentId m.key m.valueIndex m.value) := by
  simp only [MetadataValue.new, bind_unit_eq_ok, validateBoundedData_eq_ok, Except.ok.injEq]
  refine and_congr_right fun _ => ?_
  constructor
  · intro he
    exact ⟨(congrArg MetadataValue.metadataId he).symm,
      (congrArg MetadataValue.contentHash he).symm⟩
  · rintro ⟨hid, hhash⟩
    exact MetadataValue.ext hid.symm rfl rfl hhash.symm rfl

theorem scan_checkMetadata {X : Externals} {documentId : DocumentId}
    {metadata : List MetadataValue} :
    scan (checkMetadata X documentId) [] metadata = .ok () ↔
      (metadata.map MetadataValue.metadataId).Pairwise (· < ·) ∧
      (metadata.map fun m => (m.key, m.valueIndex)).Nodup ∧
      ∀ m ∈ metadata, ValidMetadata X documentId m := by
  simp only [scan_eq_ok, checkMetadata, bind_eq_ok, exists_unit, validateBoundedData_eq_ok,
    reject_eq_ok, not_or, not_notAfter, ne_eq, not_not, exists_eq_right, metadataNew_eq_self,
    scannedFrom_and, scanned_ascending, scanned_fresh, scannedFrom_const]
  constructor
  · rintro ⟨hid, hkey, ⟨hs, -, hslots⟩, -, hm, hh⟩
    exact ⟨hs, hslots, fun m hmem => ⟨hid m hmem, hkey m hmem, hm m hmem, hh m hmem⟩⟩
  · rintro ⟨hs, hslots, hm⟩
    exact ⟨fun m h => (hm m h).idBounded, fun m h => (hm m h).keyBounded,
      ⟨hs, hs.imp ne_of_lt, hslots⟩, fun m h => (hm m h).keyBounded,
      fun m h => (hm m h).metadataId, fun m h => (hm m h).contentHash⟩

theorem sourceIdNew_eq_ok {value : String} {id : SourceId} (h : SourceId.new value = .ok id) :
    id = ⟨value⟩ := by
  simp only [SourceId.new, bind_unit_eq_ok, Except.ok.injEq] at h
  exact h.2.2.symm

/-- What the document loop checks of a document after others. -/
structure DocumentAfter (X : Externals) (before : List IntegrationDocument)
    (d : IntegrationDocument) : Prop where
  valid : ValidDocument X d
  sorted : ∀ p ∈ before.head?, p.documentId < d.documentId
  fresh : d.documentId ∉ before.map IntegrationDocument.documentId
  outputPath : Insertable X (before.map IntegrationDocument.stubPath) d.stubPath
  sourcePath : (d.sourceId, d.originalPath) ∉ before.map fun d => (d.sourceId, d.originalPath)

/-- The loop state after visiting `before`. -/
def CorpusLoop.Reached (X : Externals) (s : CorpusLoop) (before : List IntegrationDocument) :
    Prop :=
  s.visited = before ∧
    Records X s.outputPaths (recorded (before.map IntegrationDocument.stubPath))

theorem checkDocument_eq_ok {X : Externals} {s t : CorpusLoop} {d : IntegrationDocument} :
    checkDocument X s d = .ok t ↔
      ValidDocument X d ∧ (∀ p ∈ s.visited.head?, p.documentId < d.documentId) ∧
      d.documentId ∉ s.visited.map IntegrationDocument.documentId ∧
      (d.sourceId, d.originalPath) ∉ s.visited.map (fun d => (d.sourceId, d.originalPath)) ∧
      ∃ paths, insertPath X s.outputPaths d.stubPath = .ok paths ∧ t = ⟨d :: s.visited, paths⟩ := by
  simp only [checkDocument, bind_eq_ok, exists_unit, reject_eq_ok, not_notAfter,
    validateRelativePath_eq_ok, scan_checkBlock, scan_checkMetadata, Except.ok.injEq]
  constructor
  · rintro ⟨hs, hf, hp, id, hid, paths, hins, hsp, ⟨hbs, hb⟩, ⟨hms, hslots, hm⟩, rfl⟩
    exact ⟨⟨hp, hid.trans (congrArg _ (sourceIdNew_eq_ok hid)), hbs, hb, hms, hslots, hm⟩, hs, hf,
      hsp, paths, hins, rfl⟩
  · rintro ⟨hv, hs, hf, hsp, paths, hins, rfl⟩
    exact ⟨hs, hf, hv.originalPath, _, hv.sourceId, paths, hins, hsp, ⟨hv.blocksSorted, hv.block⟩,
      ⟨hv.metadataSorted, hv.slots, hv.metadata⟩, rfl⟩

theorem checkDocument_isOk {X : Externals} {s : CorpusLoop} {before : List IntegrationDocument}
    {d : IntegrationDocument} (h : s.Reached X before) :
    (∃ t, checkDocument X s d = .ok t) ↔ DocumentAfter X before d := by
  obtain ⟨rfl, hrec⟩ := h
  have hins := @insertPath_isOk X d.stubPath _ _ hrec
  simp only [checkDocument_eq_ok]
  constructor
  · rintro ⟨_, hv, hs, hf, hsp, paths, hp, -⟩
    exact ⟨hv, hs, hf, hins.mp ⟨paths, hp⟩, hsp⟩
  · rintro ⟨hv, hs, hf, hp, hsp⟩
    obtain ⟨paths, hp⟩ := hins.mpr hp
    exact ⟨_, hv, hs, hf, hsp, paths, hp, rfl⟩

theorem checkDocument_reached {X : Externals} {s t : CorpusLoop}
    {before : List IntegrationDocument} {d : IntegrationDocument} (h : s.Reached X before)
    (ht : checkDocument X s d = .ok t) : t.Reached X (d :: before) := by
  obtain ⟨rfl, hrec⟩ := h
  obtain ⟨-, -, -, -, paths, hp, rfl⟩ := checkDocument_eq_ok.mp ht
  exact ⟨rfl, insertPath_records hrec hp⟩

/-- **The corpus validator accepts exactly the valid corpora.** -/
theorem validateCorpus_eq_ok {X : Externals} {c : IntegrationCorpus} :
    validateCorpus X c = .ok () ↔ ValidCorpus X c := by
  have hloop : (∃ t, c.documents.foldlM (checkDocument X) ⟨[], []⟩ = .ok t) ↔
      ScannedFrom (DocumentAfter X) [] c.documents :=
    foldlM_isOk (checkDocument X) (DocumentAfter X) (CorpusLoop.Reached X)
      (fun _ _ _ => checkDocument_isOk) (fun _ _ _ _ => checkDocument_reached) _
      ⟨rfl, records_nil X⟩
  have hafter : ∀ b d, DocumentAfter X b d ↔ ValidDocument X d ∧
      (∀ p ∈ b.head?, p.documentId < d.documentId) ∧
      d.documentId ∉ b.map IntegrationDocument.documentId ∧
      Insertable X (b.map IntegrationDocument.stubPath) d.stubPath ∧
      (d.sourceId, d.originalPath) ∉ b.map fun d => (d.sourceId, d.originalPath) :=
    fun b d => ⟨fun h => ⟨h.valid, h.sorted, h.fresh, h.outputPath, h.sourcePath⟩,
      fun ⟨a, b, c, d, e⟩ => ⟨a, b, c, d, e⟩⟩
  have hpaths := @scannedFrom_map _ _ (Insertable X) IntegrationDocument.stubPath [] c.documents
  rw [List.map_nil] at hpaths
  simp only [validateCorpus, bind_eq_ok, exists_unit, reject_eq_ok, and_true, hloop,
    scannedFrom_congr hafter, scannedFrom_and, scannedFrom_const, scanned_ascending, scanned_fresh,
    ← hpaths, ne_eq, not_not]
  constructor
  · rintro ⟨hv, hne, hh, hd, hs, -, hp, hsp⟩
    exact ⟨hv, hne, hh.symm, hs, hd, hp, hsp⟩
  · rintro ⟨hv, hne, hh, hs, hd, hp, hsp⟩
    exact ⟨hv, hne, hh.symm, hd, hs, hs.imp ne_of_lt, hp, hsp⟩

namespace ValidCorpus

variable {X : Externals} {c : IntegrationCorpus}

theorem nodup (h : ValidCorpus X c) : (c.documents.map IntegrationDocument.documentId).Nodup :=
  h.sorted.imp ne_of_lt

/-- A document identity picks out one document. -/
theorem document_unique (h : ValidCorpus X c) {d e : IntegrationDocument} (hd : d ∈ c.documents)
    (he : e ∈ c.documents) (hid : d.documentId = e.documentId) : d = e :=
  List.inj_on_of_nodup_map h.nodup hd he hid

/-- Within a document, a block identity picks out one block. -/
theorem block_unique (h : ValidCorpus X c) {d : IntegrationDocument} (hd : d ∈ c.documents)
    {a b : SourceBlock} (ha : a ∈ d.blocks) (hb : b ∈ d.blocks) (hid : a.blockId = b.blockId) :
    a = b :=
  List.inj_on_of_nodup_map ((h.document d hd).blocksSorted.imp ne_of_lt) ha hb hid

end ValidCorpus

/-! ## Taxonomy -/

/-- The `known_documents` of `validate_taxonomy`. -/
def knownDocuments (corpus : IntegrationCorpus) : List DocumentId :=
  corpus.documents.map IntegrationDocument.documentId

/-- The state of the cluster loop: the clusters visited, the latest first, and their output
paths. -/
structure TaxonomyLoop where
  visited : List TaxonomyCluster
  outputPaths : PortableOutputPaths

/-- The document loop of `validate_taxonomy`, after the clusters `visited`. -/
def checkAssignment (known : List DocumentId) (visited : List TaxonomyCluster)
    (before : List DocumentId) (documentId : DocumentId) : Except OkcError Unit :=
  reject (NotAfter id before documentId ∨ documentId ∉ known ∨
      documentId ∈ before ++ visited.flatMap TaxonomyCluster.documentIds)
    (.proposalInvalid "taxonomy must assign each known document exactly once")

/-- The cluster loop of `validate_taxonomy`. -/
def checkCluster (X : Externals) (known : List DocumentId) (s : TaxonomyLoop)
    (cluster : TaxonomyCluster) : Except OkcError TaxonomyLoop := do
  validateBoundedData "cluster ID" cluster.clusterId 1 128
  validateBoundedData "cluster title" cluster.title 1 1024
  reject (NotAfter TaxonomyCluster.clusterId s.visited cluster ∨
      cluster.clusterId ∈ s.visited.map TaxonomyCluster.clusterId)
    (.proposalInvalid "taxonomy cluster IDs must be unique and strictly sorted")
  validateRelativePath X cluster.canonicalPath
  reject (¬ ".md".toList <:+ (asciiLower cluster.canonicalPath).toList)
    (.proposalInvalid "taxonomy canonical paths must be unique Markdown paths")
  let outputPaths ← insertPath X s.outputPaths cluster.notePath
  reject (cluster.documentIds = []) (.proposalInvalid "taxonomy clusters cannot be empty")
  scan (checkAssignment known s.visited) [] cluster.documentIds
  .ok ⟨cluster :: s.visited, outputPaths⟩

def validateTaxonomy (X : Externals) (corpus : IntegrationCorpus) (taxonomy : TaxonomyProposal) :
    Except OkcError Unit := do
  reject (taxonomy.schemaVersion ≠ integrationSchemaVersion ∨
      taxonomy.corpusHash ≠ corpus.corpusHash)
    (.planStale "taxonomy is stale for the integration corpus")
  reject (taxonomy.taxonomyHash ≠ X.canonicalHash "okc:taxonomy:v3\x00"
      (taxonomyIdentity taxonomy.corpusHash taxonomy.clusters taxonomy.organizerRecordingHash))
    (.planStale "taxonomy hash does not match its payload")
  let _ ← taxonomy.clusters.foldlM (checkCluster X (knownDocuments corpus)) ⟨[], []⟩
  reject ((taxonomy.clusters.flatMap TaxonomyCluster.documentIds).toFinset ≠
      (knownDocuments corpus).toFinset)
    (.proposalInvalid "taxonomy does not cover every Markdown document")

/-- `TaxonomyProposal::seal`. -/
def TaxonomyProposal.seal (X : Externals) (corpus : IntegrationCorpus)
    (clusters : List TaxonomyCluster) (organizerRecordingHash : ContentHash) :
    Except OkcError TaxonomyProposal := do
  let clusters := (clusters.mergeSort fun a b => a.clusterId ≤ b.clusterId).map fun c =>
    { c with documentIds := c.documentIds.mergeSort fun a b => a ≤ b }
  let proposal : TaxonomyProposal := {
    schemaVersion := integrationSchemaVersion
    corpusHash := corpus.corpusHash
    taxonomyHash := X.canonicalHash "okc:taxonomy:v3\x00"
      (taxonomyIdentity corpus.corpusHash clusters organizerRecordingHash)
    clusters := clusters
    organizerRecordingHash := organizerRecordingHash }
  validateTaxonomy X corpus proposal
  .ok proposal

/-- What the taxonomy validator asks of one cluster. -/
structure ValidCluster (X : Externals) (known : List DocumentId) (c : TaxonomyCluster) : Prop where
  idBounded : Bounded c.clusterId 1 128
  titleBounded : Bounded c.title 1 1024
  canonicalPath : Portable X c.canonicalPath
  markdown : ".md".toList <:+ (asciiLower c.canonicalPath).toList
  nonempty : c.documentIds ≠ []
  sorted : c.documentIds.Pairwise (· < ·)
  known : ∀ d ∈ c.documentIds, d ∈ known

/-- What `validateTaxonomy` accepts. -/
structure ValidTaxonomy (X : Externals) (corpus : IntegrationCorpus) (t : TaxonomyProposal) :
    Prop where
  schemaVersion : t.schemaVersion = integrationSchemaVersion
  corpusHash : t.corpusHash = corpus.corpusHash
  taxonomyHash : t.taxonomyHash = X.canonicalHash "okc:taxonomy:v3\x00"
    (taxonomyIdentity t.corpusHash t.clusters t.organizerRecordingHash)
  cluster : ∀ c ∈ t.clusters, ValidCluster X (knownDocuments corpus) c
  sorted : (t.clusters.map TaxonomyCluster.clusterId).Pairwise (· < ·)
  outputPaths : ScannedFrom (Insertable X) [] (t.clusters.map TaxonomyCluster.notePath)
  disjoint : (t.clusters.flatMap TaxonomyCluster.documentIds).Nodup
  covers : ∀ d ∈ corpus.documents, ∃ c ∈ t.clusters, d.documentId ∈ c.documentIds

theorem scan_checkAssignment {known : List DocumentId} {visited : List TaxonomyCluster}
    {ids : List DocumentId} :
    scan (checkAssignment known visited) [] ids = .ok () ↔
      ids.Pairwise (· < ·) ∧ (∀ d ∈ ids, d ∈ known) ∧
      ∀ d ∈ ids, d ∉ visited.flatMap TaxonomyCluster.documentIds := by
  have hid : ∀ (b : List DocumentId) d, (d ∉ b) ↔ id d ∉ b.map id := fun b d => by simp
  simp only [scan_eq_ok, checkAssignment, reject_eq_ok, not_or, not_notAfter, not_not,
    List.mem_append, scannedFrom_and, scannedFrom_const, scanned_ascending, List.map_id]
  rw [scannedFrom_congr hid, scanned_fresh, List.map_id]
  exact ⟨fun ⟨hs, hk, _, hv⟩ => ⟨hs, hk, hv⟩, fun ⟨hs, hk, hv⟩ => ⟨hs, hk, hs.imp ne_of_lt, hv⟩⟩

/-- What the cluster loop checks of a cluster after others. -/
structure ClusterAfter (X : Externals) (known : List DocumentId) (before : List TaxonomyCluster)
    (c : TaxonomyCluster) : Prop where
  valid : ValidCluster X known c
  sorted : ∀ p ∈ before.head?, p.clusterId < c.clusterId
  fresh : c.clusterId ∉ before.map TaxonomyCluster.clusterId
  outputPath : Insertable X (before.map TaxonomyCluster.notePath) c.notePath
  unassigned : ∀ p ∈ before, ∀ d ∈ p.documentIds, d ∉ c.documentIds

/-- The loop state after visiting `before`. -/
def TaxonomyLoop.Reached (X : Externals) (s : TaxonomyLoop) (before : List TaxonomyCluster) :
    Prop :=
  s.visited = before ∧ Records X s.outputPaths (recorded (before.map TaxonomyCluster.notePath))

theorem checkCluster_eq_ok {X : Externals} {known : List DocumentId} {s t : TaxonomyLoop}
    {c : TaxonomyCluster} :
    checkCluster X known s c = .ok t ↔
      ValidCluster X known c ∧ (∀ p ∈ s.visited.head?, p.clusterId < c.clusterId) ∧
      c.clusterId ∉ s.visited.map TaxonomyCluster.clusterId ∧
      (∀ p ∈ s.visited, ∀ d ∈ p.documentIds, d ∉ c.documentIds) ∧
      ∃ paths, insertPath X s.outputPaths c.notePath = .ok paths ∧ t = ⟨c :: s.visited, paths⟩ := by
  simp only [checkCluster, bind_eq_ok, exists_unit, validateBoundedData_eq_ok, reject_eq_ok, not_or,
    not_notAfter, not_not, validateRelativePath_eq_ok, scan_checkAssignment, Except.ok.injEq]
  constructor
  · rintro ⟨hid, htitle, ⟨hs, hf⟩, hp, hmd, paths, hins, hne, ⟨hsorted, hk, hd⟩, rfl⟩
    refine ⟨⟨hid, htitle, hp, hmd, hne, hsorted, hk⟩, hs, hf, fun p hp d hdp hdc => ?_, paths, hins,
      rfl⟩
    exact hd d hdc (List.mem_flatMap.mpr ⟨p, hp, hdp⟩)
  · rintro ⟨hv, hs, hf, hd, paths, hins, rfl⟩
    refine ⟨hv.idBounded, hv.titleBounded, ⟨hs, hf⟩, hv.canonicalPath, hv.markdown, paths, hins,
      hv.nonempty, ⟨hv.sorted, hv.known, fun d hdc hm => ?_⟩, rfl⟩
    obtain ⟨p, hp, hdp⟩ := List.mem_flatMap.mp hm
    exact hd p hp d hdp hdc

theorem checkCluster_isOk {X : Externals} {known : List DocumentId} {s : TaxonomyLoop}
    {before : List TaxonomyCluster} {c : TaxonomyCluster} (h : s.Reached X before) :
    (∃ t, checkCluster X known s c = .ok t) ↔ ClusterAfter X known before c := by
  obtain ⟨rfl, hrec⟩ := h
  have hins := @insertPath_isOk X c.notePath _ _ hrec
  simp only [checkCluster_eq_ok]
  constructor
  · rintro ⟨_, hv, hs, hf, hd, paths, hp, -⟩
    exact ⟨hv, hs, hf, hins.mp ⟨paths, hp⟩, hd⟩
  · rintro ⟨hv, hs, hf, hp, hd⟩
    obtain ⟨paths, hp⟩ := hins.mpr hp
    exact ⟨_, hv, hs, hf, hd, paths, hp, rfl⟩

theorem checkCluster_reached {X : Externals} {known : List DocumentId} {s t : TaxonomyLoop}
    {before : List TaxonomyCluster} {c : TaxonomyCluster} (h : s.Reached X before)
    (ht : checkCluster X known s c = .ok t) : t.Reached X (c :: before) := by
  obtain ⟨rfl, hrec⟩ := h
  obtain ⟨-, -, -, -, paths, hp, rfl⟩ := checkCluster_eq_ok.mp ht
  exact ⟨rfl, insertPath_records hrec hp⟩

/-- The assigned documents are the known ones. -/
theorem assigned_eq_known {corpus : IntegrationCorpus} {clusters : List TaxonomyCluster} :
    (clusters.flatMap TaxonomyCluster.documentIds).toFinset = (knownDocuments corpus).toFinset ↔
      (∀ c ∈ clusters, ∀ d ∈ c.documentIds, d ∈ knownDocuments corpus) ∧
      ∀ d ∈ corpus.documents, ∃ c ∈ clusters, d.documentId ∈ c.documentIds := by
  simp only [Finset.ext_iff, List.mem_toFinset, List.mem_flatMap]
  constructor
  · exact fun h => ⟨fun c hc d hd => (h d).mp ⟨c, hc, hd⟩,
      fun d hd => (h _).mpr (List.mem_map_of_mem hd)⟩
  · rintro ⟨hknown, hcovers⟩ d
    refine ⟨fun ⟨c, hc, hd⟩ => hknown c hc d hd, fun hd => ?_⟩
    obtain ⟨e, he, rfl⟩ := List.mem_map.mp hd
    exact hcovers e he

theorem nodup_documentIds {clusters : List TaxonomyCluster} :
    (clusters.flatMap TaxonomyCluster.documentIds).Nodup ↔
      (∀ c ∈ clusters, c.documentIds.Nodup) ∧
      clusters.Pairwise fun p c => ∀ d ∈ p.documentIds, d ∉ c.documentIds := by
  rw [List.nodup_flatMap]
  exact and_congr_right fun _ => ⟨fun h => h.imp fun hd d hp hc => hd hp hc,
    fun h => h.imp fun hd d hp hc => hd d hp hc⟩

/-- **The taxonomy validator accepts exactly the valid taxonomies.** -/
theorem validateTaxonomy_eq_ok {X : Externals} {corpus : IntegrationCorpus}
    {t : TaxonomyProposal} : validateTaxonomy X corpus t = .ok () ↔ ValidTaxonomy X corpus t := by
  have hloop : (∃ s, t.clusters.foldlM (checkCluster X (knownDocuments corpus)) ⟨[], []⟩ = .ok s) ↔
      ScannedFrom (ClusterAfter X (knownDocuments corpus)) [] t.clusters :=
    foldlM_isOk (checkCluster X _) (ClusterAfter X _) (TaxonomyLoop.Reached X)
      (fun _ _ _ => checkCluster_isOk) (fun _ _ _ _ => checkCluster_reached) _
      ⟨rfl, records_nil X⟩
  have hafter : ∀ b c, ClusterAfter X (knownDocuments corpus) b c ↔
      ValidCluster X (knownDocuments corpus) c ∧
      (∀ p ∈ b.head?, p.clusterId < c.clusterId) ∧
      c.clusterId ∉ b.map TaxonomyCluster.clusterId ∧
      Insertable X (b.map TaxonomyCluster.notePath) c.notePath ∧
      ∀ p ∈ b, ∀ d ∈ p.documentIds, d ∉ c.documentIds :=
    fun b c => ⟨fun h => ⟨h.valid, h.sorted, h.fresh, h.outputPath, h.unassigned⟩,
      fun ⟨a, b, c, d, e⟩ => ⟨a, b, c, d, e⟩⟩
  have hpaths := @scannedFrom_map _ _ (Insertable X) TaxonomyCluster.notePath [] t.clusters
  rw [List.map_nil] at hpaths
  simp only [validateTaxonomy, bind_eq_ok, exists_unit, reject_eq_ok, exists_and_right, hloop,
    not_or, scannedFrom_congr hafter, scannedFrom_and, scannedFrom_const, scanned_ascending,
    scanned_fresh, scannedFrom_pairwise, ← hpaths, ne_eq, not_not]
  constructor
  · rintro ⟨⟨hv, hc⟩, hh, ⟨hcl, hs, -, hp, hd, -⟩, hcov⟩
    exact ⟨hv, hc, hh, hcl, hs, hp,
      nodup_documentIds.mpr ⟨fun c hc => (hcl c hc).sorted.imp ne_of_lt, hd⟩,
      (assigned_eq_known.mp hcov).2⟩
  · rintro ⟨hv, hc, hh, hcl, hs, hp, hd, hcov⟩
    exact ⟨⟨hv, hc⟩, hh, ⟨hcl, hs, hs.imp ne_of_lt, hp, (nodup_documentIds.mp hd).2, by simp⟩,
      assigned_eq_known.mpr ⟨fun c hc => (hcl c hc).known, hcov⟩⟩

namespace ValidTaxonomy

variable {X : Externals} {corpus : IntegrationCorpus} {t : TaxonomyProposal}

theorem nodup (h : ValidTaxonomy X corpus t) :
    (t.clusters.map TaxonomyCluster.clusterId).Nodup :=
  h.sorted.imp ne_of_lt

/-- A cluster identity picks out one cluster. -/
theorem cluster_unique (h : ValidTaxonomy X corpus t) {c d : TaxonomyCluster}
    (hc : c ∈ t.clusters) (hd : d ∈ t.clusters) (hid : c.clusterId = d.clusterId) : c = d :=
  List.inj_on_of_nodup_map h.nodup hc hd hid

/-- **Every document of the corpus is in exactly one cluster.** -/
theorem cluster_of_document (h : ValidTaxonomy X corpus t) {d : IntegrationDocument}
    (hd : d ∈ corpus.documents) : ∃! c, c ∈ t.clusters ∧ d.documentId ∈ c.documentIds := by
  obtain ⟨c, hc, hdc⟩ := h.covers d hd
  refine ⟨c, ⟨hc, hdc⟩, fun e ⟨he, hde⟩ => ?_⟩
  by_contra hne
  have : Std.Symm fun p c : TaxonomyCluster => ∀ d ∈ p.documentIds, d ∉ c.documentIds :=
    ⟨fun p c hpc d hdc hdp => hpc d hdp hdc⟩
  exact (nodup_documentIds.mp h.disjoint).2.forall he hc hne _ hde hdc

end ValidTaxonomy

end Okc.Core
