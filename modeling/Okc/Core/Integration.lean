import Okc.Lib.Check
import Okc.Core.Identity

/-!
# Schema 3 integration data (`integration.rs:24-512`)

The records of an approved integration plan, under the source's names, with their encodings: a
record's `toValue` is what `serde` serializes it to, and the nested `…Identity` encodings are what
the identity hashes are computed from.

* `toValue_inj` for each record: the encoding determines the record.
* `documentsValue_inj`, `taxonomyIdentity_inj`, `planIdentity_inj`: an identity encoding determines
  everything it lists.

The crate's `u32` and `u64` fields are natural numbers here; nothing computes with them.
-/

namespace Okc.Core

open Okc.Lib

def integrationSchemaVersion : Nat := 3

def productVersion : String := "0.3.0"

def packProfile : String := "okc-tar-zstd-deterministic-v3"

/-! ## Source corpus -/

/-- `SourceId(String)`. -/
structure SourceId where
  value : String
deriving DecidableEq

structure SourceBlock where
  blockId : BlockId
  contentHash : ContentHash
  text : String
deriving DecidableEq

@[ext] structure MetadataValue where
  metadataId : String
  key : String
  valueIndex : Nat
  contentHash : ContentHash
  value : Value
deriving DecidableEq

structure IntegrationDocument where
  sourceId : SourceId
  documentId : DocumentId
  originalPath : String
  documentHash : ContentHash
  blocks : List SourceBlock
  metadata : List MetadataValue
deriving DecidableEq

structure IntegrationCorpus where
  schemaVersion : Nat
  corpusHash : ContentHash
  policyHash : ContentHash
  documents : List IntegrationDocument
deriving DecidableEq

/-! ## Taxonomy -/

structure TaxonomyCluster where
  clusterId : String
  title : String
  /-- Relative path below `knowledge/`. -/
  canonicalPath : String
  documentIds : List DocumentId
deriving DecidableEq

structure TaxonomyProposal where
  schemaVersion : Nat
  corpusHash : ContentHash
  taxonomyHash : ContentHash
  clusters : List TaxonomyCluster
  organizerRecordingHash : ContentHash
deriving DecidableEq

structure ApprovalBinding where
  targetHash : ContentHash
  approved : Bool
  curatorId : String
  policyVersion : String
  rationale : Option String
deriving DecidableEq

/-! ## Proposals -/

inductive DispositionTargetKind
  | block
  | metadata
deriving DecidableEq

structure DispositionTarget where
  kind : DispositionTargetKind
  documentId : DocumentId
  targetId : String
  contentHash : ContentHash
deriving DecidableEq

/-- `DispositionTarget::block`. -/
def DispositionTarget.ofBlock (documentId : DocumentId) (block : SourceBlock) :
    DispositionTarget :=
  ⟨.block, documentId, block.blockId.toString, block.contentHash⟩

/-- `DispositionTarget::metadata`. -/
def DispositionTarget.ofMetadata (documentId : DocumentId) (metadata : MetadataValue) :
    DispositionTarget :=
  ⟨.metadata, documentId, metadata.metadataId, metadata.contentHash⟩

inductive DispositionKind
  | integrated
  | preservedVerbatim
  | omissionProposed
deriving DecidableEq

structure SourceDisposition where
  target : DispositionTarget
  disposition : DispositionKind
  rationale : Option String
deriving DecidableEq

structure SectionEvidence where
  documentId : DocumentId
  blockId : BlockId
  contentHash : ContentHash
deriving DecidableEq

structure SynthesisSection where
  sectionId : String
  heading : String
  markdownBody : String
  evidence : List SectionEvidence
deriving DecidableEq

inductive RelatedLinkKind
  | prerequisite
  | related
  | contrasts
  | supersedes
deriving DecidableEq

structure RelatedLink where
  kind : RelatedLinkKind
  targetClusterId : String
  evidence : List SectionEvidence
deriving DecidableEq

structure ContradictionClaim where
  claimId : String
  renderedClaim : String
  observedAt : Option String
  context : String
  evidence : List SectionEvidence
deriving DecidableEq

structure ContradictionSet where
  contradictionId : String
  summary : String
  claims : List ContradictionClaim
deriving DecidableEq

structure SynthesisProposal where
  schemaVersion : Nat
  clusterId : String
  taxonomyHash : ContentHash
  proposalHash : ContentHash
  revision : Nat
  sections : List SynthesisSection
  relatedLinks : List RelatedLink
  dispositions : List SourceDisposition
  contradictions : List ContradictionSet
  synthesisRecordingHash : ContentHash
deriving DecidableEq

/-! ## Critic reports and approvals -/

inductive CriticSeverity
  | minor
  | major
  | critical
deriving DecidableEq

inductive CriticFindingKind
  | unsupportedClaim
  | omission
  | hiddenContradiction
  | misattribution
  | linkLoss
  | metadataLoss
  | promptInjectionInfluence
deriving DecidableEq

structure CriticFinding where
  findingId : String
  severity : CriticSeverity
  kind : CriticFindingKind
  message : String
  evidence : List SectionEvidence
deriving DecidableEq

structure CriticReport where
  schemaVersion : Nat
  clusterId : String
  proposalHash : ContentHash
  criticHash : ContentHash
  findings : List CriticFinding
  criticRecordingHash : ContentHash
deriving DecidableEq

structure FindingWaiver where
  findingId : String
  curatorId : String
  rationale : String
deriving DecidableEq

structure OmissionApproval where
  target : DispositionTarget
  curatorId : String
  rationale : String
deriving DecidableEq

structure ClusterApproval where
  clusterId : String
  taxonomyHash : ContentHash
  proposalHash : ContentHash
  criticHash : ContentHash
  revisionHash : ContentHash
  approved : Bool
  curatorId : String
  policyVersion : String
  omissionApprovals : List OmissionApproval
  minorWaivers : List FindingWaiver
deriving DecidableEq

structure ApprovedClusterRevision where
  proposal : SynthesisProposal
  critic : CriticReport
  approval : ClusterApproval
deriving DecidableEq

structure ApprovedIntegrationPlan where
  formatFamily : String
  schemaVersion : Nat
  integrationPlanId : String
  corpus : IntegrationCorpus
  taxonomy : TaxonomyProposal
  taxonomyApproval : ApprovalBinding
  clusters : List ApprovedClusterRevision
  providerRecordingHashes : List ContentHash
deriving DecidableEq

/-! ## Encodings -/

@[simp] theorem ContentHash.toValue_inj {a b : ContentHash} : a.toValue = b.toValue ↔ a = b :=
  ContentHash.toValue_injective.eq_iff

@[simp] theorem DocumentId.toValue_inj {a b : DocumentId} : a.toValue = b.toValue ↔ a = b :=
  DocumentId.toValue_injective.eq_iff

@[simp] theorem BlockId.toValue_inj {a b : BlockId} : a.toValue = b.toValue ↔ a = b :=
  BlockId.toValue_injective.eq_iff

attribute [simp] Value.str_inj Value.bool_inj Value.nat_inj

@[simp] theorem optionStr_inj {a b : Option String} :
    Value.option .str a = Value.option .str b ↔ a = b :=
  Value.option_inj (fun _ _ => Value.str_inj.mp) Value.str_ne_null

def SourceBlock.toValue (b : SourceBlock) : Value :=
  .object [("block_id", b.blockId.toValue), ("content_hash", b.contentHash.toValue),
    ("text", .str b.text)]

def MetadataValue.toValue (m : MetadataValue) : Value :=
  .object [("metadata_id", .str m.metadataId), ("key", .str m.key),
    ("value_index", .nat m.valueIndex), ("content_hash", m.contentHash.toValue),
    ("value", m.value)]

def IntegrationDocument.toValue (d : IntegrationDocument) : Value :=
  .object [("source_id", .str d.sourceId.value), ("document_id", d.documentId.toValue),
    ("original_path", .str d.originalPath), ("document_hash", d.documentHash.toValue),
    ("blocks", .arr (d.blocks.map SourceBlock.toValue)),
    ("metadata", .arr (d.metadata.map MetadataValue.toValue))]

def IntegrationCorpus.toValue (c : IntegrationCorpus) : Value :=
  .object [("schema_version", .nat c.schemaVersion), ("corpus_hash", c.corpusHash.toValue),
    ("policy_hash", c.policyHash.toValue),
    ("documents", .arr (c.documents.map IntegrationDocument.toValue))]

def TaxonomyCluster.toValue (c : TaxonomyCluster) : Value :=
  .object [("cluster_id", .str c.clusterId), ("title", .str c.title),
    ("canonical_path", .str c.canonicalPath),
    ("document_ids", .arr (c.documentIds.map DocumentId.toValue))]

def TaxonomyProposal.toValue (t : TaxonomyProposal) : Value :=
  .object [("schema_version", .nat t.schemaVersion), ("corpus_hash", t.corpusHash.toValue),
    ("taxonomy_hash", t.taxonomyHash.toValue),
    ("clusters", .arr (t.clusters.map TaxonomyCluster.toValue)),
    ("organizer_recording_hash", t.organizerRecordingHash.toValue)]

def ApprovalBinding.toValue (a : ApprovalBinding) : Value :=
  .object [("target_hash", a.targetHash.toValue), ("approved", .bool a.approved),
    ("curator_id", .str a.curatorId), ("policy_version", .str a.policyVersion),
    ("rationale", .option .str a.rationale)]

def DispositionTargetKind.toValue : DispositionTargetKind → Value
  | .block => .str "block"
  | .metadata => .str "metadata"

def DispositionTarget.toValue (t : DispositionTarget) : Value :=
  .object [("kind", t.kind.toValue), ("document_id", t.documentId.toValue),
    ("target_id", .str t.targetId), ("content_hash", t.contentHash.toValue)]

def DispositionKind.toValue : DispositionKind → Value
  | .integrated => .str "integrated"
  | .preservedVerbatim => .str "preserved_verbatim"
  | .omissionProposed => .str "omission_proposed"

def SourceDisposition.toValue (d : SourceDisposition) : Value :=
  .object [("target", d.target.toValue), ("disposition", d.disposition.toValue),
    ("rationale", .option .str d.rationale)]

def SectionEvidence.toValue (e : SectionEvidence) : Value :=
  .object [("document_id", e.documentId.toValue), ("block_id", e.blockId.toValue),
    ("content_hash", e.contentHash.toValue)]

def SynthesisSection.toValue (s : SynthesisSection) : Value :=
  .object [("section_id", .str s.sectionId), ("heading", .str s.heading),
    ("markdown_body", .str s.markdownBody),
    ("evidence", .arr (s.evidence.map SectionEvidence.toValue))]

def RelatedLinkKind.toValue : RelatedLinkKind → Value
  | .prerequisite => .str "prerequisite"
  | .related => .str "related"
  | .contrasts => .str "contrasts"
  | .supersedes => .str "supersedes"

def RelatedLink.toValue (l : RelatedLink) : Value :=
  .object [("kind", l.kind.toValue), ("target_cluster_id", .str l.targetClusterId),
    ("evidence", .arr (l.evidence.map SectionEvidence.toValue))]

def ContradictionClaim.toValue (c : ContradictionClaim) : Value :=
  .object [("claim_id", .str c.claimId), ("rendered_claim", .str c.renderedClaim),
    ("observed_at", .option .str c.observedAt), ("context", .str c.context),
    ("evidence", .arr (c.evidence.map SectionEvidence.toValue))]

def ContradictionSet.toValue (c : ContradictionSet) : Value :=
  .object [("contradiction_id", .str c.contradictionId), ("summary", .str c.summary),
    ("claims", .arr (c.claims.map ContradictionClaim.toValue))]

def SynthesisProposal.toValue (p : SynthesisProposal) : Value :=
  .object [("schema_version", .nat p.schemaVersion), ("cluster_id", .str p.clusterId),
    ("taxonomy_hash", p.taxonomyHash.toValue), ("proposal_hash", p.proposalHash.toValue),
    ("revision", .nat p.revision),
    ("sections", .arr (p.sections.map SynthesisSection.toValue)),
    ("related_links", .arr (p.relatedLinks.map RelatedLink.toValue)),
    ("dispositions", .arr (p.dispositions.map SourceDisposition.toValue)),
    ("contradictions", .arr (p.contradictions.map ContradictionSet.toValue)),
    ("synthesis_recording_hash", p.synthesisRecordingHash.toValue)]

def CriticSeverity.toValue : CriticSeverity → Value
  | .minor => .str "minor"
  | .major => .str "major"
  | .critical => .str "critical"

def CriticFindingKind.toValue : CriticFindingKind → Value
  | .unsupportedClaim => .str "unsupported_claim"
  | .omission => .str "omission"
  | .hiddenContradiction => .str "hidden_contradiction"
  | .misattribution => .str "misattribution"
  | .linkLoss => .str "link_loss"
  | .metadataLoss => .str "metadata_loss"
  | .promptInjectionInfluence => .str "prompt_injection_influence"

def CriticFinding.toValue (f : CriticFinding) : Value :=
  .object [("finding_id", .str f.findingId), ("severity", f.severity.toValue),
    ("kind", f.kind.toValue), ("message", .str f.message),
    ("evidence", .arr (f.evidence.map SectionEvidence.toValue))]

def CriticReport.toValue (c : CriticReport) : Value :=
  .object [("schema_version", .nat c.schemaVersion), ("cluster_id", .str c.clusterId),
    ("proposal_hash", c.proposalHash.toValue), ("critic_hash", c.criticHash.toValue),
    ("findings", .arr (c.findings.map CriticFinding.toValue)),
    ("critic_recording_hash", c.criticRecordingHash.toValue)]

def FindingWaiver.toValue (w : FindingWaiver) : Value :=
  .object [("finding_id", .str w.findingId), ("curator_id", .str w.curatorId),
    ("rationale", .str w.rationale)]

def OmissionApproval.toValue (o : OmissionApproval) : Value :=
  .object [("target", o.target.toValue), ("curator_id", .str o.curatorId),
    ("rationale", .str o.rationale)]

def ClusterApproval.toValue (a : ClusterApproval) : Value :=
  .object [("cluster_id", .str a.clusterId), ("taxonomy_hash", a.taxonomyHash.toValue),
    ("proposal_hash", a.proposalHash.toValue), ("critic_hash", a.criticHash.toValue),
    ("revision_hash", a.revisionHash.toValue), ("approved", .bool a.approved),
    ("curator_id", .str a.curatorId), ("policy_version", .str a.policyVersion),
    ("omission_approvals", .arr (a.omissionApprovals.map OmissionApproval.toValue)),
    ("minor_waivers", .arr (a.minorWaivers.map FindingWaiver.toValue))]

def ApprovedClusterRevision.toValue (r : ApprovedClusterRevision) : Value :=
  .object [("proposal", r.proposal.toValue), ("critic", r.critic.toValue),
    ("approval", r.approval.toValue)]

def ApprovedIntegrationPlan.toValue (p : ApprovedIntegrationPlan) : Value :=
  .object [("format_family", .str p.formatFamily), ("schema_version", .nat p.schemaVersion),
    ("integration_plan_id", .str p.integrationPlanId), ("corpus", p.corpus.toValue),
    ("taxonomy", p.taxonomy.toValue), ("taxonomy_approval", p.taxonomyApproval.toValue),
    ("clusters", .arr (p.clusters.map ApprovedClusterRevision.toValue)),
    ("provider_recording_hashes", .arr (p.providerRecordingHashes.map ContentHash.toValue))]

/-! ## The encoding of a record determines it -/

/-- Lists of records whose encodings determine them. -/
@[simp] theorem arrMap_inj {α : Type} {f : α → Value} {xs ys : List α}
    (hf : ∀ {a b}, f a = f b ↔ a = b) : Value.arr (xs.map f) = Value.arr (ys.map f) ↔ xs = ys :=
  Value.arr_map_inj fun _ _ => hf.mp

@[simp] theorem SourceBlock.toValue_inj {a b : SourceBlock} : a.toValue = b.toValue ↔ a = b := by
  refine ⟨fun h => ?_, fun h => h ▸ rfl⟩
  unfold toValue at h
  have hf := Value.object_inj (by simp) (by simp) h
  cases a
  cases b
  simpa using hf

@[simp] theorem MetadataValue.toValue_inj {a b : MetadataValue} :
    a.toValue = b.toValue ↔ a = b := by
  refine ⟨fun h => ?_, fun h => h ▸ rfl⟩
  unfold toValue at h
  have hf := Value.object_inj (by simp) (by simp) h
  cases a
  cases b
  simpa using hf

theorem SourceId.ext_iff {a b : SourceId} : a.value = b.value ↔ a = b := by
  cases a
  cases b
  simp

@[simp] theorem IntegrationDocument.toValue_inj {a b : IntegrationDocument} :
    a.toValue = b.toValue ↔ a = b := by
  refine ⟨fun h => ?_, fun h => h ▸ rfl⟩
  unfold toValue at h
  have hf := Value.object_inj (by simp) (by simp) h
  cases a
  cases b
  simpa [SourceId.ext_iff] using hf

@[simp] theorem TaxonomyCluster.toValue_inj {a b : TaxonomyCluster} :
    a.toValue = b.toValue ↔ a = b := by
  refine ⟨fun h => ?_, fun h => h ▸ rfl⟩
  unfold toValue at h
  have hf := Value.object_inj (by simp) (by simp) h
  cases a
  cases b
  simpa using hf

@[simp] theorem ApprovalBinding.toValue_inj {a b : ApprovalBinding} :
    a.toValue = b.toValue ↔ a = b := by
  refine ⟨fun h => ?_, fun h => h ▸ rfl⟩
  unfold toValue at h
  have hf := Value.object_inj (by simp) (by simp) h
  cases a
  cases b
  simpa using hf

@[simp] theorem DispositionTargetKind.toValue_inj {a b : DispositionTargetKind} :
    a.toValue = b.toValue ↔ a = b := by
  refine ⟨fun h => ?_, fun h => h ▸ rfl⟩
  cases a <;> cases b <;> simp [toValue] at h <;> rfl

@[simp] theorem DispositionTarget.toValue_inj {a b : DispositionTarget} :
    a.toValue = b.toValue ↔ a = b := by
  refine ⟨fun h => ?_, fun h => h ▸ rfl⟩
  unfold toValue at h
  have hf := Value.object_inj (by simp) (by simp) h
  cases a
  cases b
  simpa using hf

@[simp] theorem DispositionKind.toValue_inj {a b : DispositionKind} :
    a.toValue = b.toValue ↔ a = b := by
  refine ⟨fun h => ?_, fun h => h ▸ rfl⟩
  cases a <;> cases b <;> simp [toValue] at h <;> rfl

@[simp] theorem SourceDisposition.toValue_inj {a b : SourceDisposition} :
    a.toValue = b.toValue ↔ a = b := by
  refine ⟨fun h => ?_, fun h => h ▸ rfl⟩
  unfold toValue at h
  have hf := Value.object_inj (by simp) (by simp) h
  cases a
  cases b
  simpa using hf

@[simp] theorem SectionEvidence.toValue_inj {a b : SectionEvidence} :
    a.toValue = b.toValue ↔ a = b := by
  refine ⟨fun h => ?_, fun h => h ▸ rfl⟩
  unfold toValue at h
  have hf := Value.object_inj (by simp) (by simp) h
  cases a
  cases b
  simpa using hf

@[simp] theorem SynthesisSection.toValue_inj {a b : SynthesisSection} :
    a.toValue = b.toValue ↔ a = b := by
  refine ⟨fun h => ?_, fun h => h ▸ rfl⟩
  unfold toValue at h
  have hf := Value.object_inj (by simp) (by simp) h
  cases a
  cases b
  simpa using hf

@[simp] theorem RelatedLinkKind.toValue_inj {a b : RelatedLinkKind} :
    a.toValue = b.toValue ↔ a = b := by
  refine ⟨fun h => ?_, fun h => h ▸ rfl⟩
  cases a <;> cases b <;> simp [toValue] at h <;> rfl

@[simp] theorem RelatedLink.toValue_inj {a b : RelatedLink} : a.toValue = b.toValue ↔ a = b := by
  refine ⟨fun h => ?_, fun h => h ▸ rfl⟩
  unfold toValue at h
  have hf := Value.object_inj (by simp) (by simp) h
  cases a
  cases b
  simpa using hf

@[simp] theorem ContradictionClaim.toValue_inj {a b : ContradictionClaim} :
    a.toValue = b.toValue ↔ a = b := by
  refine ⟨fun h => ?_, fun h => h ▸ rfl⟩
  unfold toValue at h
  have hf := Value.object_inj (by simp) (by simp) h
  cases a
  cases b
  simpa using hf

@[simp] theorem ContradictionSet.toValue_inj {a b : ContradictionSet} :
    a.toValue = b.toValue ↔ a = b := by
  refine ⟨fun h => ?_, fun h => h ▸ rfl⟩
  unfold toValue at h
  have hf := Value.object_inj (by simp) (by simp) h
  cases a
  cases b
  simpa using hf

@[simp] theorem SynthesisProposal.toValue_inj {a b : SynthesisProposal} :
    a.toValue = b.toValue ↔ a = b := by
  refine ⟨fun h => ?_, fun h => h ▸ rfl⟩
  unfold toValue at h
  have hf := Value.object_inj (by simp) (by simp) h
  cases a
  cases b
  simpa using hf

@[simp] theorem CriticSeverity.toValue_inj {a b : CriticSeverity} :
    a.toValue = b.toValue ↔ a = b := by
  refine ⟨fun h => ?_, fun h => h ▸ rfl⟩
  cases a <;> cases b <;> simp [toValue] at h <;> rfl

@[simp] theorem CriticFindingKind.toValue_inj {a b : CriticFindingKind} :
    a.toValue = b.toValue ↔ a = b := by
  refine ⟨fun h => ?_, fun h => h ▸ rfl⟩
  cases a <;> cases b <;> simp [toValue] at h <;> rfl

@[simp] theorem CriticFinding.toValue_inj {a b : CriticFinding} :
    a.toValue = b.toValue ↔ a = b := by
  refine ⟨fun h => ?_, fun h => h ▸ rfl⟩
  unfold toValue at h
  have hf := Value.object_inj (by simp) (by simp) h
  cases a
  cases b
  simpa using hf

@[simp] theorem CriticReport.toValue_inj {a b : CriticReport} : a.toValue = b.toValue ↔ a = b := by
  refine ⟨fun h => ?_, fun h => h ▸ rfl⟩
  unfold toValue at h
  have hf := Value.object_inj (by simp) (by simp) h
  cases a
  cases b
  simpa using hf

@[simp] theorem FindingWaiver.toValue_inj {a b : FindingWaiver} :
    a.toValue = b.toValue ↔ a = b := by
  refine ⟨fun h => ?_, fun h => h ▸ rfl⟩
  unfold toValue at h
  have hf := Value.object_inj (by simp) (by simp) h
  cases a
  cases b
  simpa using hf

@[simp] theorem OmissionApproval.toValue_inj {a b : OmissionApproval} :
    a.toValue = b.toValue ↔ a = b := by
  refine ⟨fun h => ?_, fun h => h ▸ rfl⟩
  unfold toValue at h
  have hf := Value.object_inj (by simp) (by simp) h
  cases a
  cases b
  simpa using hf

@[simp] theorem ClusterApproval.toValue_inj {a b : ClusterApproval} :
    a.toValue = b.toValue ↔ a = b := by
  refine ⟨fun h => ?_, fun h => h ▸ rfl⟩
  unfold toValue at h
  have hf := Value.object_inj (by simp) (by simp) h
  cases a
  cases b
  simpa using hf

@[simp] theorem ApprovedClusterRevision.toValue_inj {a b : ApprovedClusterRevision} :
    a.toValue = b.toValue ↔ a = b := by
  refine ⟨fun h => ?_, fun h => h ▸ rfl⟩
  unfold toValue at h
  have hf := Value.object_inj (by simp) (by simp) h
  cases a
  cases b
  simpa using hf

/-! ## Identity hashes -/

/-- `MetadataIdentityInput`. -/
def metadataIdentity (documentId : DocumentId) (key : String) (valueIndex : Nat) (value : Value) :
    Value :=
  .object [("document_id", documentId.toValue), ("key", .str key),
    ("value_index", .nat valueIndex), ("value", value)]

/-- What `corpus_hash` covers. -/
def documentsValue (documents : List IntegrationDocument) : Value :=
  .arr (documents.map IntegrationDocument.toValue)

/-- `TaxonomyIdentity`. -/
def taxonomyIdentity (corpusHash : ContentHash) (clusters : List TaxonomyCluster)
    (organizerRecordingHash : ContentHash) : Value :=
  .object [("corpus_hash", corpusHash.toValue),
    ("clusters", .arr (clusters.map TaxonomyCluster.toValue)),
    ("organizer_recording_hash", organizerRecordingHash.toValue)]

/-- `SynthesisIdentity`. -/
def synthesisIdentity (clusterId : String) (taxonomyHash : ContentHash) (revision : Nat)
    (sections : List SynthesisSection) (relatedLinks : List RelatedLink)
    (dispositions : List SourceDisposition) (contradictions : List ContradictionSet)
    (synthesisRecordingHash : ContentHash) : Value :=
  .object [("cluster_id", .str clusterId), ("taxonomy_hash", taxonomyHash.toValue),
    ("revision", .nat revision), ("sections", .arr (sections.map SynthesisSection.toValue)),
    ("related_links", .arr (relatedLinks.map RelatedLink.toValue)),
    ("dispositions", .arr (dispositions.map SourceDisposition.toValue)),
    ("contradictions", .arr (contradictions.map ContradictionSet.toValue)),
    ("synthesis_recording_hash", synthesisRecordingHash.toValue)]

/-- `CriticIdentity`. -/
def criticIdentity (clusterId : String) (proposalHash : ContentHash)
    (findings : List CriticFinding) (criticRecordingHash : ContentHash) : Value :=
  .object [("cluster_id", .str clusterId), ("proposal_hash", proposalHash.toValue),
    ("findings", .arr (findings.map CriticFinding.toValue)),
    ("critic_recording_hash", criticRecordingHash.toValue)]

/-- The `Revision` record of `cluster_revision_hash`. -/
def revisionIdentity (proposal : SynthesisProposal) (critic : CriticReport)
    (omissions : List OmissionApproval) (waivers : List FindingWaiver) : Value :=
  .object [("taxonomy_hash", proposal.taxonomyHash.toValue), ("proposal", proposal.toValue),
    ("critic", critic.toValue),
    ("omission_approvals", .arr (omissions.map OmissionApproval.toValue)),
    ("minor_waivers", .arr (waivers.map FindingWaiver.toValue))]

/-- `IntegrationPlanIdentity`. -/
def planIdentity (corpusHash policyHash taxonomyHash : ContentHash)
    (taxonomyApproval : ApprovalBinding) (clusters : List ApprovedClusterRevision)
    (providerRecordingHashes : List ContentHash) : Value :=
  .object [("corpus_hash", corpusHash.toValue), ("policy_hash", policyHash.toValue),
    ("taxonomy_hash", taxonomyHash.toValue), ("taxonomy_approval", taxonomyApproval.toValue),
    ("clusters", .arr (clusters.map ApprovedClusterRevision.toValue)),
    ("provider_recording_hashes", .arr (providerRecordingHashes.map ContentHash.toValue))]

theorem documentsValue_inj {a b : List IntegrationDocument} :
    documentsValue a = documentsValue b ↔ a = b := by
  simp [documentsValue]

theorem taxonomyIdentity_inj {h h' o o' : ContentHash} {c c' : List TaxonomyCluster} :
    taxonomyIdentity h c o = taxonomyIdentity h' c' o' ↔ h = h' ∧ c = c' ∧ o = o' := by
  refine ⟨fun he => ?_, fun ⟨hh, hc, ho⟩ => by rw [hh, hc, ho]⟩
  have hf := Value.object_inj (by simp) (by simp) he
  simpa using hf

theorem planIdentity_inj {c c' p p' t t' : ContentHash} {a a' : ApprovalBinding}
    {r r' : List ApprovedClusterRevision} {h h' : List ContentHash} :
    planIdentity c p t a r h = planIdentity c' p' t' a' r' h' ↔
      c = c' ∧ p = p' ∧ t = t' ∧ a = a' ∧ r = r' ∧ h = h' := by
  refine ⟨fun he => ?_, fun ⟨hc, hp, ht, ha, hr, hh⟩ => by rw [hc, hp, ht, ha, hr, hh]⟩
  have hf := Value.object_inj (by simp) (by simp) he
  simpa using hf

/-! ## Sealing -/

/-- `SynthesisProposal::seal`. -/
def SynthesisProposal.seal (X : Externals) (clusterId : String) (taxonomyHash : ContentHash)
    (revision : Nat) (sections : List SynthesisSection) (relatedLinks : List RelatedLink)
    (dispositions : List SourceDisposition) (contradictions : List ContradictionSet)
    (synthesisRecordingHash : ContentHash) : SynthesisProposal where
  schemaVersion := integrationSchemaVersion
  clusterId := clusterId
  taxonomyHash := taxonomyHash
  proposalHash := X.canonicalHash "okc:synthesis-proposal:v3\x00"
    (synthesisIdentity clusterId taxonomyHash revision sections relatedLinks dispositions
      contradictions synthesisRecordingHash)
  revision := revision
  sections := sections
  relatedLinks := relatedLinks
  dispositions := dispositions
  contradictions := contradictions
  synthesisRecordingHash := synthesisRecordingHash

/-- The identity of a proposal's own fields. -/
def SynthesisProposal.identity (p : SynthesisProposal) : Value :=
  synthesisIdentity p.clusterId p.taxonomyHash p.revision p.sections p.relatedLinks p.dispositions
    p.contradictions p.synthesisRecordingHash

/-- `CriticReport::seal`. -/
def CriticReport.seal (X : Externals) (clusterId : String) (proposalHash : ContentHash)
    (findings : List CriticFinding) (criticRecordingHash : ContentHash) : CriticReport where
  schemaVersion := integrationSchemaVersion
  clusterId := clusterId
  proposalHash := proposalHash
  criticHash := X.canonicalHash "okc:critic-report:v3\x00"
    (criticIdentity clusterId proposalHash findings criticRecordingHash)
  findings := findings
  criticRecordingHash := criticRecordingHash

/-- The identity of a report's own fields. -/
def CriticReport.identity (c : CriticReport) : Value :=
  criticIdentity c.clusterId c.proposalHash c.findings c.criticRecordingHash

/-- `cluster_revision_hash`. -/
def clusterRevisionHash (X : Externals) (proposal : SynthesisProposal) (critic : CriticReport)
    (omissions : List OmissionApproval) (waivers : List FindingWaiver) : ContentHash :=
  X.canonicalHash "okc:cluster-revision:v3\x00"
    (revisionIdentity proposal critic omissions waivers)

/-- `ClusterApproval::approve`. -/
def ClusterApproval.approve (X : Externals) (proposal : SynthesisProposal) (critic : CriticReport)
    (curatorId policyVersion : String) (omissionApprovals : List OmissionApproval)
    (minorWaivers : List FindingWaiver) : ClusterApproval where
  clusterId := proposal.clusterId
  taxonomyHash := proposal.taxonomyHash
  proposalHash := proposal.proposalHash
  criticHash := critic.criticHash
  revisionHash := clusterRevisionHash X proposal critic omissionApprovals minorWaivers
  approved := true
  curatorId := curatorId
  policyVersion := policyVersion
  omissionApprovals := omissionApprovals
  minorWaivers := minorWaivers

end Okc.Core
