import Okc.Core.Validate

/-!
# Plan validation: cluster revisions and the whole plan (`integration.rs:557-652`, `820-1220`)

`validateClusterRevision` checks one approved revision of a cluster, `validatePlan`
(`ApprovedIntegrationPlan::validate`) the complete approval closure. What they accept is
`ValidRevision` and `ValidPlan`. A revision's conditions are grouped by what they are about: the
proposal (`ValidProposal`), the critic's report (`ValidReport`) and the curator's decisions
(`ValidApproval`).

* `validateClusterRevision_eq_ok`, `validatePlan_eq_ok`: acceptance is the structure of conditions.
* `ValidPlan.revision_of_cluster`: every taxonomy cluster has exactly one revision.
-/

namespace Okc.Core

open Okc.Lib

/-! ## Evidence -/

/-- The documents of a cluster, by identity. -/
def clusterDocuments (corpus : IntegrationCorpus) (cluster : TaxonomyCluster) :
    List (DocumentId × IntegrationDocument) :=
  collect ((corpus.documents.filter fun d => d.documentId ∈ cluster.documentIds).map
    fun d => (d.documentId, d))

/-- The loop of `validate_evidence`. -/
def checkEvidence (documents : List (DocumentId × IntegrationDocument))
    (before : List SectionEvidence) (item : SectionEvidence) : Except OkcError Unit := do
  reject (item ∈ before) (.proposalInvalid "evidence references must be unique")
  reject (¬ (get? item.documentId documents).any fun document => document.blocks.any fun block =>
      block.blockId = item.blockId ∧ block.contentHash = item.contentHash)
    (.proposalInvalid "evidence is forged, stale, or belongs to another cluster")

def validateEvidence (documents : List (DocumentId × IntegrationDocument))
    (evidence : List SectionEvidence) : Except OkcError Unit :=
  scan (checkEvidence documents) [] evidence

/-- The evidence cites a block of the documents, with its hash. -/
def Cites (documents : List (DocumentId × IntegrationDocument)) (item : SectionEvidence) : Prop :=
  ∃ document, get? item.documentId documents = some document ∧
    ∃ block ∈ document.blocks,
      block.blockId = item.blockId ∧ block.contentHash = item.contentHash

/-- What `validateEvidence` accepts. -/
def EvidenceOk (documents : List (DocumentId × IntegrationDocument))
    (evidence : List SectionEvidence) : Prop :=
  evidence.Nodup ∧ ∀ item ∈ evidence, Cites documents item

theorem validateEvidence_eq_ok {documents : List (DocumentId × IntegrationDocument)}
    {evidence : List SectionEvidence} :
    validateEvidence documents evidence = .ok () ↔ EvidenceOk documents evidence := by
  have hid : ∀ (b : List SectionEvidence) e, (e ∉ b) ↔ id e ∉ b.map id := fun b e => by simp
  have hcites : ∀ item, ((get? item.documentId documents).any fun document =>
      document.blocks.any fun block =>
        block.blockId = item.blockId ∧ block.contentHash = item.contentHash) = true ↔
      Cites documents item := fun item => by
    simp [Cites, Option.any_eq_true]
  simp only [validateEvidence, scan_eq_ok, checkEvidence, bind_unit_eq_ok, reject_eq_ok, not_not,
    hcites, scannedFrom_and, scannedFrom_const, EvidenceOk]
  rw [scannedFrom_congr hid, scanned_fresh, List.map_id]

/-! ## Proposals -/

/-- Every block and metadata value of the documents. -/
def expectedTargets (documents : List (DocumentId × IntegrationDocument)) :
    List DispositionTarget :=
  documents.flatMap fun e =>
    e.2.blocks.map (DispositionTarget.ofBlock e.2.documentId) ++
      e.2.metadata.map (DispositionTarget.ofMetadata e.2.documentId)

section Targets

variable {X : Externals} {corpus : IntegrationCorpus} {cluster : TaxonomyCluster}

theorem get?_clusterDocuments (h : ValidCorpus X corpus) {id : DocumentId}
    {d : IntegrationDocument} :
    get? id (clusterDocuments corpus cluster) = some d ↔
      d ∈ corpus.documents ∧ d.documentId ∈ cluster.documentIds ∧ d.documentId = id := by
  have hkeys : (((corpus.documents.filter fun d => d.documentId ∈ cluster.documentIds).map
      fun d => (d.documentId, d)).map Prod.fst).Nodup := by
    rw [List.map_map]
    exact h.nodup.sublist (List.filter_sublist.map _)
  rw [clusterDocuments, get?_collect_eq_some hkeys, List.mem_map]
  constructor
  · rintro ⟨e, he, heq⟩
    cases heq
    obtain ⟨hmem, hin⟩ := List.mem_filter.mp he
    exact ⟨hmem, by simpa using hin, rfl⟩
  · rintro ⟨hmem, hin, rfl⟩
    exact ⟨d, List.mem_filter.mpr ⟨hmem, by simpa using hin⟩, rfl⟩

theorem mem_clusterDocuments (h : ValidCorpus X corpus) {e : DocumentId × IntegrationDocument} :
    e ∈ clusterDocuments corpus cluster ↔
      e.2 ∈ corpus.documents ∧ e.2.documentId ∈ cluster.documentIds ∧ e.2.documentId = e.1 := by
  rw [← get?_clusterDocuments h]
  exact ⟨get?_of_mem (sorted_collect _).nodup, mem_of_get?⟩

theorem mem_expectedTargets (h : ValidCorpus X corpus) {t : DispositionTarget} :
    t ∈ expectedTargets (clusterDocuments corpus cluster) ↔
      ∃ d ∈ corpus.documents, d.documentId ∈ cluster.documentIds ∧
        ((∃ b ∈ d.blocks, .ofBlock d.documentId b = t) ∨
          ∃ m ∈ d.metadata, .ofMetadata d.documentId m = t) := by
  simp only [expectedTargets, List.mem_flatMap, mem_clusterDocuments h, List.mem_append,
    List.mem_map, Prod.exists]
  constructor
  · rintro ⟨_, d, ⟨hd, hc, rfl⟩, ht⟩
    exact ⟨d, hd, hc, ht⟩
  · rintro ⟨d, hd, hc, ht⟩
    exact ⟨_, d, ⟨hd, hc, rfl⟩, ht⟩

end Targets

/-- The evidence of a proposal's sections and contradiction claims. -/
def SynthesisProposal.evidence (p : SynthesisProposal) : List SectionEvidence :=
  p.sections.flatMap SynthesisSection.evidence ++
    (p.contradictions.flatMap ContradictionSet.claims).flatMap ContradictionClaim.evidence

/-- The targets a proposal wants to omit. -/
def SynthesisProposal.omitted (p : SynthesisProposal) : List DispositionTarget :=
  (p.dispositions.filter fun d => d.disposition = .omissionProposed).map SourceDisposition.target

/-- `integrated_blocks`. -/
def SynthesisProposal.integratedBlocks (p : SynthesisProposal) : List (DocumentId × String) :=
  (p.dispositions.filter fun d => d.target.kind = .block ∧ d.disposition = .integrated).map
    fun d => (d.target.documentId, d.target.targetId)

/-- `evidenced_blocks`. -/
def SynthesisProposal.evidencedBlocks (p : SynthesisProposal) : List (DocumentId × String) :=
  p.evidence.map fun e => (e.documentId, e.blockId.toString)

/-- The section loop. -/
def checkSection (documents : List (DocumentId × IntegrationDocument)) (clusterId : String)
    (before : List SynthesisSection) (s : SynthesisSection) : Except OkcError Unit := do
  validateBoundedData "section ID" s.sectionId 1 128
  validateBoundedData "section heading" s.heading 1 1024
  validateMarkdownBody s.markdownBody
  reject (s.sectionId ∈ before.map SynthesisSection.sectionId ∨ s.evidence = [])
    (.proposalInvalid ("cluster `" ++ clusterId ++ "` sections require unique IDs and evidence"))
  validateEvidence documents s.evidence

/-- The related-link loop. -/
def checkLink (documents : List (DocumentId × IntegrationDocument)) (taxonomy : TaxonomyProposal)
    (clusterId : String) (link : RelatedLink) : Except OkcError Unit := do
  reject (link.targetClusterId ∉ taxonomy.clusters.map TaxonomyCluster.clusterId)
    (.proposalInvalid
      ("cluster `" ++ clusterId ++ "` has a related link to an unknown cluster"))
  validateEvidence documents link.evidence

/-- The claim loop of a contradiction set. -/
def checkClaim (documents : List (DocumentId × IntegrationDocument))
    (before : List ContradictionClaim) (claim : ContradictionClaim) : Except OkcError Unit := do
  validateBoundedData "contradiction claim" claim.renderedClaim 1 65536
  validateBoundedData "contradiction context" claim.context 1 4096
  reject (claim.claimId ∈ before.map ContradictionClaim.claimId ∨ claim.evidence = [])
    (.proposalInvalid "contradiction claims require unique IDs and evidence")
  validateEvidence documents claim.evidence

/-- The contradiction loop. -/
def checkContradiction (documents : List (DocumentId × IntegrationDocument))
    (before : List ContradictionSet) (contradiction : ContradictionSet) :
    Except OkcError Unit := do
  validateBoundedData "contradiction ID" contradiction.contradictionId 1 128
  reject (contradiction.contradictionId ∈ before.map ContradictionSet.contradictionId ∨
      contradiction.claims.length < 2)
    (.proposalInvalid "contradiction sets require a unique ID and at least two claims")
  scan (checkClaim documents) [] contradiction.claims

/-! ## Critic reports and approvals -/

/-- `{:?}` of a severity. -/
def CriticSeverity.debug : CriticSeverity → String
  | .minor => "Minor"
  | .major => "Major"
  | .critical => "Critical"

/-- The finding loop of `validate_critic`. -/
def checkFinding (documents : List (DocumentId × IntegrationDocument)) (clusterId : String)
    (before : List CriticFinding) (finding : CriticFinding) : Except OkcError Unit := do
  validateBoundedData "critic finding ID" finding.findingId 1 128
  validateBoundedData "critic finding message" finding.message 1 8192
  reject (finding.findingId ∈ before.map CriticFinding.findingId)
    (.proposalInvalid "critic finding IDs must be unique")
  validateEvidence documents finding.evidence
  reject (finding.severity = .major ∨ finding.severity = .critical)
    (.approvalStale ("cluster `" ++ clusterId ++ "` has an unresolved " ++
      finding.severity.debug ++ " critic finding"))

/-- The findings a curator must waive. -/
def CriticReport.minorFindings (c : CriticReport) : List String :=
  (c.findings.filter fun f => f.severity = .minor).map CriticFinding.findingId

def validateCritic (X : Externals) (proposal : SynthesisProposal) (critic : CriticReport)
    (documents : List (DocumentId × IntegrationDocument)) (approval : ClusterApproval) :
    Except OkcError Unit := do
  reject (critic.schemaVersion ≠ integrationSchemaVersion ∨
      critic.clusterId ≠ proposal.clusterId ∨ critic.proposalHash ≠ proposal.proposalHash)
    (.approvalStale ("cluster `" ++ proposal.clusterId ++ "` critic is stale"))
  reject (critic.criticHash ≠ X.canonicalHash "okc:critic-report:v3\x00" critic.identity)
    (.approvalStale ("cluster `" ++ proposal.clusterId ++ "` critic hash is forged"))
  scan (checkFinding documents proposal.clusterId) [] critic.findings
  let actualWaivers := approval.minorWaivers.map FindingWaiver.findingId
  reject (actualWaivers.toFinset.card ≠ approval.minorWaivers.length ∨
      actualWaivers.toFinset ≠ critic.minorFindings.toFinset)
    (.approvalStale ("cluster `" ++ proposal.clusterId ++
      "` minor critic waivers are incomplete or excessive"))
  forM approval.minorWaivers fun waiver => do
    validateBoundedData "finding waiver curator" waiver.curatorId 1 256
    validateBoundedData "finding waiver rationale" waiver.rationale 1 4096

def validateClusterApproval (X : Externals) (proposal : SynthesisProposal) (critic : CriticReport)
    (approval : ClusterApproval) : Except OkcError Unit := do
  reject (¬ approval.approved ∨ approval.clusterId ≠ proposal.clusterId ∨
      approval.taxonomyHash ≠ proposal.taxonomyHash ∨
      approval.proposalHash ≠ proposal.proposalHash ∨ approval.criticHash ≠ critic.criticHash)
    (.approvalStale ("cluster `" ++ proposal.clusterId ++ "` approval is absent or stale"))
  validateBoundedData "cluster approval curator" approval.curatorId 1 256
  validateBoundedData "cluster approval policy version" approval.policyVersion 1 256
  reject (approval.revisionHash ≠
      clusterRevisionHash X proposal critic approval.omissionApprovals approval.minorWaivers)
    (.approvalStale ("cluster `" ++ proposal.clusterId ++ "` revision hash is stale"))

def validateClusterRevision (X : Externals) (corpus : IntegrationCorpus)
    (taxonomy : TaxonomyProposal) (cluster : TaxonomyCluster) (revision : ApprovedClusterRevision)
    (recordings : List ContentHash) : Except OkcError Unit := do
  let proposal := revision.proposal
  let critic := revision.critic
  let approval := revision.approval
  let clusterId := cluster.clusterId
  reject (proposal.schemaVersion ≠ integrationSchemaVersion ∨ proposal.clusterId ≠ clusterId ∨
      proposal.taxonomyHash ≠ taxonomy.taxonomyHash)
    (.proposalInvalid ("cluster `" ++ clusterId ++ "` proposal is stale"))
  reject (proposal.proposalHash ≠
      X.canonicalHash "okc:synthesis-proposal:v3\x00" proposal.identity)
    (.proposalInvalid ("cluster `" ++ clusterId ++ "` proposal hash is forged"))
  reject (proposal.synthesisRecordingHash ∉ recordings ∨ critic.criticRecordingHash ∉ recordings)
    (.approvalStale ("cluster `" ++ clusterId ++ "` provider recording is absent"))
  let documents := clusterDocuments corpus cluster
  let actualTargets := proposal.dispositions.map SourceDisposition.target
  reject (actualTargets.toFinset.card ≠ proposal.dispositions.length ∨
      actualTargets.toFinset ≠ (expectedTargets documents).toFinset)
    (.proposalInvalid ("cluster `" ++ clusterId ++
      "` must give every block and metadata value exactly one disposition"))
  forM proposal.dispositions fun disposition =>
    if disposition.disposition = .omissionProposed then
      validateOptionalRationale "omission proposal" disposition.rationale true
    else .ok ()
  let approvedOmissions := approval.omissionApprovals.map OmissionApproval.target
  reject (approvedOmissions.toFinset.card ≠ approval.omissionApprovals.length ∨
      approvedOmissions.toFinset ≠ proposal.omitted.toFinset)
    (.approvalStale ("cluster `" ++ clusterId ++
      "` omission approvals are incomplete or excessive"))
  forM approval.omissionApprovals fun omission => do
    validateBoundedData "omission curator" omission.curatorId 1 256
    validateBoundedData "omission rationale" omission.rationale 1 4096
  scan (checkSection documents clusterId) [] proposal.sections
  reject (∃ target ∈ proposal.integratedBlocks, target ∉ proposal.evidencedBlocks)
    (.proposalInvalid ("cluster `" ++ clusterId ++ "` marks a block integrated without citing it"))
  forM proposal.relatedLinks (checkLink documents taxonomy clusterId)
  scan (checkContradiction documents) [] proposal.contradictions
  validateCritic X proposal critic documents approval
  validateClusterApproval X proposal critic approval

/-! ## What the revision checks accept -/

structure ValidSection (documents : List (DocumentId × IntegrationDocument))
    (s : SynthesisSection) : Prop where
  idBounded : Bounded s.sectionId 1 128
  headingBounded : Bounded s.heading 1 1024
  body : validateMarkdownBody s.markdownBody = .ok ()
  cited : s.evidence ≠ []
  evidence : EvidenceOk documents s.evidence

structure ValidClaim (documents : List (DocumentId × IntegrationDocument))
    (c : ContradictionClaim) : Prop where
  claimBounded : Bounded c.renderedClaim 1 65536
  contextBounded : Bounded c.context 1 4096
  cited : c.evidence ≠ []
  evidence : EvidenceOk documents c.evidence

structure ValidContradiction (documents : List (DocumentId × IntegrationDocument))
    (c : ContradictionSet) : Prop where
  idBounded : Bounded c.contradictionId 1 128
  claims : 2 ≤ c.claims.length
  claimIds : (c.claims.map ContradictionClaim.claimId).Nodup
  claim : ∀ x ∈ c.claims, ValidClaim documents x

/-- What the revision validator asks of a proposal. -/
structure ValidProposal (X : Externals) (corpus : IntegrationCorpus) (taxonomy : TaxonomyProposal)
    (cluster : TaxonomyCluster) (p : SynthesisProposal) : Prop where
  schemaVersion : p.schemaVersion = integrationSchemaVersion
  clusterId : p.clusterId = cluster.clusterId
  taxonomyHash : p.taxonomyHash = taxonomy.taxonomyHash
  proposalHash : p.proposalHash = X.canonicalHash "okc:synthesis-proposal:v3\x00" p.identity
  distinct : (p.dispositions.map SourceDisposition.target).Nodup
  targets : ∀ t, t ∈ p.dispositions.map SourceDisposition.target ↔
    t ∈ expectedTargets (clusterDocuments corpus cluster)
  rationale : ∀ d ∈ p.dispositions, d.disposition = .omissionProposed →
    RationaleOk d.rationale true
  sectionIds : (p.sections.map SynthesisSection.sectionId).Nodup
  sections : ∀ s ∈ p.sections, ValidSection (clusterDocuments corpus cluster) s
  integrated : ∀ t ∈ p.integratedBlocks, t ∈ p.evidencedBlocks
  links : ∀ l ∈ p.relatedLinks,
    l.targetClusterId ∈ taxonomy.clusters.map TaxonomyCluster.clusterId ∧
      EvidenceOk (clusterDocuments corpus cluster) l.evidence
  contradictionIds : (p.contradictions.map ContradictionSet.contradictionId).Nodup
  contradictions : ∀ c ∈ p.contradictions, ValidContradiction (clusterDocuments corpus cluster) c

structure ValidFinding (documents : List (DocumentId × IntegrationDocument))
    (f : CriticFinding) : Prop where
  idBounded : Bounded f.findingId 1 128
  messageBounded : Bounded f.message 1 8192
  evidence : EvidenceOk documents f.evidence

/-- What the revision validator asks of a critic's report. That its findings are all resolved is
the curator's business (`ValidApproval.resolved`). -/
structure ValidReport (X : Externals) (documents : List (DocumentId × IntegrationDocument))
    (p : SynthesisProposal) (c : CriticReport) : Prop where
  schemaVersion : c.schemaVersion = integrationSchemaVersion
  clusterId : c.clusterId = p.clusterId
  proposalHash : c.proposalHash = p.proposalHash
  criticHash : c.criticHash = X.canonicalHash "okc:critic-report:v3\x00" c.identity
  findingIds : (c.findings.map CriticFinding.findingId).Nodup
  findings : ∀ f ∈ c.findings, ValidFinding documents f

/-- What the revision validator asks of the curator's decisions. -/
structure ValidApproval (X : Externals) (p : SynthesisProposal) (c : CriticReport)
    (a : ClusterApproval) : Prop where
  omissionsDistinct : (a.omissionApprovals.map OmissionApproval.target).Nodup
  omissions : ∀ t, t ∈ a.omissionApprovals.map OmissionApproval.target ↔ t ∈ p.omitted
  omissionBounds : ∀ o ∈ a.omissionApprovals,
    Bounded o.curatorId 1 256 ∧ Bounded o.rationale 1 4096
  resolved : ∀ f ∈ c.findings, f.severity = .minor
  waiversDistinct : (a.minorWaivers.map FindingWaiver.findingId).Nodup
  waivers : ∀ i, i ∈ a.minorWaivers.map FindingWaiver.findingId ↔ i ∈ c.minorFindings
  waiverBounds : ∀ w ∈ a.minorWaivers, Bounded w.curatorId 1 256 ∧ Bounded w.rationale 1 4096
  approved : a.approved = true
  clusterId : a.clusterId = p.clusterId
  taxonomyHash : a.taxonomyHash = p.taxonomyHash
  proposalHash : a.proposalHash = p.proposalHash
  criticHash : a.criticHash = c.criticHash
  curatorBounded : Bounded a.curatorId 1 256
  policyBounded : Bounded a.policyVersion 1 256
  revisionHash : a.revisionHash =
    clusterRevisionHash X p c a.omissionApprovals a.minorWaivers

/-- What `validateClusterRevision` accepts. -/
structure ValidRevision (X : Externals) (corpus : IntegrationCorpus) (taxonomy : TaxonomyProposal)
    (cluster : TaxonomyCluster) (recordings : List ContentHash) (r : ApprovedClusterRevision) :
    Prop where
  proposal : ValidProposal X corpus taxonomy cluster r.proposal
  report : ValidReport X (clusterDocuments corpus cluster) r.proposal r.critic
  approval : ValidApproval X r.proposal r.critic r.approval
  synthesisRecording : r.proposal.synthesisRecordingHash ∈ recordings
  criticRecording : r.critic.criticRecordingHash ∈ recordings

section Spec

variable {documents : List (DocumentId × IntegrationDocument)} {clusterId : String}

theorem scan_checkSection {sections : List SynthesisSection} :
    scan (checkSection documents clusterId) [] sections = .ok () ↔
      (sections.map SynthesisSection.sectionId).Nodup ∧
      ∀ s ∈ sections, ValidSection documents s := by
  simp only [scan_eq_ok, checkSection, bind_unit_eq_ok, validateBoundedData_eq_ok, reject_eq_ok,
    not_or, validateEvidence_eq_ok, scannedFrom_and, scannedFrom_const, scanned_fresh]
  constructor
  · rintro ⟨hi, hh, hb, ⟨hn, hc⟩, he⟩
    exact ⟨hn, fun s hs => ⟨hi s hs, hh s hs, hb s hs, hc s hs, he s hs⟩⟩
  · rintro ⟨hn, h⟩
    exact ⟨fun s hs => (h s hs).idBounded, fun s hs => (h s hs).headingBounded,
      fun s hs => (h s hs).body, ⟨hn, fun s hs => (h s hs).cited⟩, fun s hs => (h s hs).evidence⟩

theorem scan_checkClaim {claims : List ContradictionClaim} :
    scan (checkClaim documents) [] claims = .ok () ↔
      (claims.map ContradictionClaim.claimId).Nodup ∧ ∀ c ∈ claims, ValidClaim documents c := by
  simp only [scan_eq_ok, checkClaim, bind_unit_eq_ok, validateBoundedData_eq_ok, reject_eq_ok,
    not_or, validateEvidence_eq_ok, scannedFrom_and, scannedFrom_const, scanned_fresh]
  constructor
  · rintro ⟨hr, hx, ⟨hn, hc⟩, he⟩
    exact ⟨hn, fun c h => ⟨hr c h, hx c h, hc c h, he c h⟩⟩
  · rintro ⟨hn, h⟩
    exact ⟨fun c hc => (h c hc).claimBounded, fun c hc => (h c hc).contextBounded,
      ⟨hn, fun c hc => (h c hc).cited⟩, fun c hc => (h c hc).evidence⟩

theorem scan_checkContradiction {contradictions : List ContradictionSet} :
    scan (checkContradiction documents) [] contradictions = .ok () ↔
      (contradictions.map ContradictionSet.contradictionId).Nodup ∧
      ∀ c ∈ contradictions, ValidContradiction documents c := by
  rw [scan_eq_ok]
  simp only [checkContradiction, bind_unit_eq_ok, validateBoundedData_eq_ok, reject_eq_ok, not_or,
    not_lt, scan_checkClaim, scannedFrom_and, scannedFrom_const, scanned_fresh]
  constructor
  · rintro ⟨hi, ⟨hn, hl⟩, hids, hc⟩
    exact ⟨hn, fun c h => ⟨hi c h, hl c h, hids c h, hc c h⟩⟩
  · rintro ⟨hn, h⟩
    exact ⟨fun c hc => (h c hc).idBounded, ⟨hn, fun c hc => (h c hc).claims⟩,
      fun c hc => (h c hc).claimIds, fun c hc => (h c hc).claim⟩

theorem severity_resolved {s : CriticSeverity} : ¬ (s = .major ∨ s = .critical) ↔ s = .minor := by
  cases s <;> simp

theorem scan_checkFinding {findings : List CriticFinding} :
    scan (checkFinding documents clusterId) [] findings = .ok () ↔
      (findings.map CriticFinding.findingId).Nodup ∧
      (∀ f ∈ findings, ValidFinding documents f) ∧ ∀ f ∈ findings, f.severity = .minor := by
  simp only [scan_eq_ok, checkFinding, bind_unit_eq_ok, validateBoundedData_eq_ok, reject_eq_ok,
    severity_resolved, validateEvidence_eq_ok, scannedFrom_and, scannedFrom_const, scanned_fresh]
  constructor
  · rintro ⟨hi, hm, hn, he, hs⟩
    exact ⟨hn, fun f h => ⟨hi f h, hm f h, he f h⟩, hs⟩
  · rintro ⟨hn, h, hs⟩
    exact ⟨fun f hf => (h f hf).idBounded, fun f hf => (h f hf).messageBounded, hn,
      fun f hf => (h f hf).evidence, hs⟩

/-- `set.len() == slice.len() && set == expected`: the slice lists the expected set, each element
once. -/
theorem lists_set {α β : Type} [DecidableEq α] {items : List β} {f : β → α} {expected : List α} :
    ¬ ((items.map f).toFinset.card ≠ items.length ∨ (items.map f).toFinset ≠ expected.toFinset) ↔
      (items.map f).Nodup ∧ ∀ a, a ∈ items.map f ↔ a ∈ expected := by
  have hcard : (items.map f).toFinset.card = items.length ↔ (items.map f).Nodup := by
    rw [← List.length_map (f := f), card_toFinset_eq_length]
  simp only [not_or, ne_eq, not_not, hcard, Finset.ext_iff, List.mem_toFinset]

theorem validateCritic_eq_ok {X : Externals} {p : SynthesisProposal} {c : CriticReport}
    {a : ClusterApproval} :
    validateCritic X p c documents a = .ok () ↔
      ValidReport X documents p c ∧ (∀ f ∈ c.findings, f.severity = .minor) ∧
      (a.minorWaivers.map FindingWaiver.findingId).Nodup ∧
      (∀ i, i ∈ a.minorWaivers.map FindingWaiver.findingId ↔ i ∈ c.minorFindings) ∧
      ∀ w ∈ a.minorWaivers, Bounded w.curatorId 1 256 ∧ Bounded w.rationale 1 4096 := by
  simp only [validateCritic, bind_unit_eq_ok, reject_eq_ok, forM_eq_ok, scan_checkFinding,
    validateBoundedData_eq_ok, lists_set]
  simp only [not_or, ne_eq, not_not]
  constructor
  · rintro ⟨⟨hs, hc, hp⟩, hh, ⟨hn, hf, hr⟩, ⟨hw, he⟩, hb⟩
    exact ⟨⟨hs, hc, hp, hh, hn, hf⟩, hr, hw, he, hb⟩
  · rintro ⟨h, hr, hw, he, hb⟩
    exact ⟨⟨h.schemaVersion, h.clusterId, h.proposalHash⟩, h.criticHash,
      ⟨h.findingIds, h.findings, hr⟩, ⟨hw, he⟩, hb⟩

theorem validateClusterApproval_eq_ok {X : Externals} {p : SynthesisProposal} {c : CriticReport}
    {a : ClusterApproval} :
    validateClusterApproval X p c a = .ok () ↔
      (a.approved = true ∧ a.clusterId = p.clusterId ∧ a.taxonomyHash = p.taxonomyHash ∧
        a.proposalHash = p.proposalHash ∧ a.criticHash = c.criticHash) ∧
      Bounded a.curatorId 1 256 ∧ Bounded a.policyVersion 1 256 ∧
      a.revisionHash = clusterRevisionHash X p c a.omissionApprovals a.minorWaivers := by
  simp only [validateClusterApproval, bind_unit_eq_ok, reject_eq_ok, validateBoundedData_eq_ok,
    not_or, ne_eq, not_not]

end Spec

/-- **The revision validator accepts exactly the valid revisions.** -/
theorem validateClusterRevision_eq_ok {X : Externals} {corpus : IntegrationCorpus}
    {taxonomy : TaxonomyProposal} {cluster : TaxonomyCluster} {r : ApprovedClusterRevision}
    {recordings : List ContentHash} :
    validateClusterRevision X corpus taxonomy cluster r recordings = .ok () ↔
      ValidRevision X corpus taxonomy cluster recordings r := by
  have hrationale : ∀ d : SourceDisposition,
      (if d.disposition = .omissionProposed then
        validateOptionalRationale "omission proposal" d.rationale true else .ok ()) = .ok () ↔
      (d.disposition = .omissionProposed → RationaleOk d.rationale true) := fun d => by
    split_ifs with h <;> simp [h, validateOptionalRationale_eq_ok]
  have hlink : ∀ l, checkLink (clusterDocuments corpus cluster) taxonomy cluster.clusterId l =
      .ok () ↔ l.targetClusterId ∈ taxonomy.clusters.map TaxonomyCluster.clusterId ∧
        EvidenceOk (clusterDocuments corpus cluster) l.evidence := fun l => by
    simp only [checkLink, bind_unit_eq_ok, reject_eq_ok, not_not, validateEvidence_eq_ok]
  simp only [validateClusterRevision, bind_unit_eq_ok, reject_eq_ok, forM_eq_ok, lists_set,
    hrationale, hlink, validateBoundedData_eq_ok, scan_checkSection, scan_checkContradiction,
    validateCritic_eq_ok, validateClusterApproval_eq_ok]
  simp only [not_or, ne_eq, not_not, not_exists, not_and]
  constructor
  · rintro ⟨⟨hs, hc, ht⟩, hh, ⟨hsr, hcr⟩, ⟨hd, htg⟩, hra, ⟨hod, ho⟩, hob, ⟨hsi, hse⟩, hin, hl,
      ⟨hci, hco⟩, ⟨hrep, hres, hwd, hw, hwb⟩, ⟨ha, hac, hat, hap, hacr⟩, hcb, hpb, hrh⟩
    exact ⟨⟨hs, hc, ht, hh, hd, htg, hra, hsi, hse, hin, hl, hci, hco⟩, hrep,
      ⟨hod, ho, hob, hres, hwd, hw, hwb, ha, hac, hat, hap, hacr, hcb, hpb, hrh⟩, hsr, hcr⟩
  · rintro ⟨hp, hrep, ha, hsr, hcr⟩
    exact ⟨⟨hp.schemaVersion, hp.clusterId, hp.taxonomyHash⟩, hp.proposalHash, ⟨hsr, hcr⟩,
      ⟨hp.distinct, hp.targets⟩, hp.rationale, ⟨ha.omissionsDistinct, ha.omissions⟩,
      ha.omissionBounds, ⟨hp.sectionIds, hp.sections⟩, hp.integrated, hp.links,
      ⟨hp.contradictionIds, hp.contradictions⟩,
      ⟨hrep, ha.resolved, ha.waiversDistinct, ha.waivers, ha.waiverBounds⟩,
      ⟨ha.approved, ha.clusterId, ha.taxonomyHash, ha.proposalHash, ha.criticHash⟩,
      ha.curatorBounded, ha.policyBounded, ha.revisionHash⟩

/-! ## The plan -/

def validateApproval (kind : String) (approval : ApprovalBinding) (expected : ContentHash) :
    Except OkcError Unit := do
  reject (¬ approval.approved ∨ approval.targetHash ≠ expected)
    (.approvalStale (kind ++ " approval is absent or stale"))
  validateBoundedData "approval curator" approval.curatorId 1 256
  validateBoundedData "approval policy version" approval.policyVersion 1 256
  validateOptionalRationale kind approval.rationale false

/-- The identity of a plan's own fields. -/
def ApprovedIntegrationPlan.identity (p : ApprovedIntegrationPlan) : Value :=
  planIdentity p.corpus.corpusHash p.corpus.policyHash p.taxonomy.taxonomyHash p.taxonomyApproval
    p.clusters p.providerRecordingHashes

/-- `format!("integration_{}", canonical_hash(..).hex())`. -/
def expectedPlanId (X : Externals) (identity : Value) : String :=
  "integration_" ++ (X.canonicalHash "okc:integration-plan:v3\x00" identity).hex

/-- `clusters_by_id`. -/
def TaxonomyProposal.clustersById (t : TaxonomyProposal) : List (String × TaxonomyCluster) :=
  collect (t.clusters.map fun c => (c.clusterId, c))

/-- The revision loop of `validate`. -/
def checkRevision (X : Externals) (plan : ApprovedIntegrationPlan)
    (before : List ApprovedClusterRevision) (revision : ApprovedClusterRevision) :
    Except OkcError Unit :=
  let clusterId := revision.proposal.clusterId
  match get? clusterId plan.taxonomy.clustersById with
  | none => .error (.proposalInvalid ("proposal references unknown cluster `" ++ clusterId ++ "`"))
  | some cluster => do
    reject (clusterId ∈ before.map fun r => r.proposal.clusterId)
      (.proposalInvalid ("cluster `" ++ clusterId ++ "` has duplicate revisions"))
    validateClusterRevision X plan.corpus plan.taxonomy cluster revision
      plan.providerRecordingHashes

/-- `ApprovedIntegrationPlan::validate`. -/
def validatePlan (X : Externals) (plan : ApprovedIntegrationPlan) : Except OkcError Unit := do
  reject (plan.formatFamily ≠ "okc" ∨ plan.schemaVersion ≠ integrationSchemaVersion)
    (.planStale "approved integration plan is not OKC schema 3")
  validateCorpus X plan.corpus
  validateTaxonomy X plan.corpus plan.taxonomy
  validateApproval "taxonomy" plan.taxonomyApproval plan.taxonomy.taxonomyHash
  reject (plan.providerRecordingHashes = [])
    (.approvalStale "Schema 3 integration requires sealed provider recordings")
  reject (plan.providerRecordingHashes.toFinset.card ≠ plan.providerRecordingHashes.length)
    (.planStale "provider recording hashes must be unique")
  reject (plan.taxonomy.organizerRecordingHash ∉ plan.providerRecordingHashes)
    (.approvalStale "organizer recording is absent from the sealed recording set")
  reject (plan.clusters.length ≠ plan.taxonomy.clustersById.length)
    (.approvalStale
      "every taxonomy cluster, including singletons, requires one approved revision")
  scan (checkRevision X plan) [] plan.clusters
  reject (plan.integrationPlanId ≠ expectedPlanId X plan.identity)
    (.planStale "approved integration plan identity does not match its payload")

/-- `ApprovedIntegrationPlan::seal`. -/
def ApprovedIntegrationPlan.seal (X : Externals) (corpus : IntegrationCorpus)
    (taxonomy : TaxonomyProposal) (taxonomyApproval : ApprovalBinding)
    (clusters : List ApprovedClusterRevision) (providerRecordingHashes : List ContentHash) :
    Except OkcError ApprovedIntegrationPlan := do
  let clusters := clusters.mergeSort fun a b => a.proposal.clusterId ≤ b.proposal.clusterId
  let recordings := (providerRecordingHashes.mergeSort fun a b => a.hex ≤ b.hex).dedup
  let identity := planIdentity corpus.corpusHash corpus.policyHash taxonomy.taxonomyHash
    taxonomyApproval clusters recordings
  let plan : ApprovedIntegrationPlan := {
    formatFamily := "okc"
    schemaVersion := integrationSchemaVersion
    integrationPlanId := expectedPlanId X identity
    corpus := corpus
    taxonomy := taxonomy
    taxonomyApproval := taxonomyApproval
    clusters := clusters
    providerRecordingHashes := recordings }
  validatePlan X plan
  .ok plan

/-- What `validatePlan` accepts. -/
structure ValidPlan (X : Externals) (p : ApprovedIntegrationPlan) : Prop where
  formatFamily : p.formatFamily = "okc"
  schemaVersion : p.schemaVersion = integrationSchemaVersion
  corpus : ValidCorpus X p.corpus
  taxonomy : ValidTaxonomy X p.corpus p.taxonomy
  approved : p.taxonomyApproval.approved = true
  targetHash : p.taxonomyApproval.targetHash = p.taxonomy.taxonomyHash
  curatorBounded : Bounded p.taxonomyApproval.curatorId 1 256
  policyBounded : Bounded p.taxonomyApproval.policyVersion 1 256
  rationale : RationaleOk p.taxonomyApproval.rationale false
  recorded : p.providerRecordingHashes ≠ []
  recordingsDistinct : p.providerRecordingHashes.Nodup
  organizer : p.taxonomy.organizerRecordingHash ∈ p.providerRecordingHashes
  complete : p.clusters.length = p.taxonomy.clusters.length
  revisionsDistinct : (p.clusters.map fun r => r.proposal.clusterId).Nodup
  revision : ∀ r ∈ p.clusters, ∃ c ∈ p.taxonomy.clusters,
    ValidRevision X p.corpus p.taxonomy c p.providerRecordingHashes r
  planId : p.integrationPlanId = expectedPlanId X p.identity

/-- In a valid taxonomy the cluster map holds exactly the clusters. -/
theorem ValidTaxonomy.get?_clustersById {X : Externals} {corpus : IntegrationCorpus}
    {t : TaxonomyProposal} (h : ValidTaxonomy X corpus t) {id : String} {c : TaxonomyCluster} :
    get? id t.clustersById = some c ↔ c ∈ t.clusters ∧ c.clusterId = id := by
  have hkeys : (t.clusters.map fun c => (c.clusterId, c)).map Prod.fst =
      t.clusters.map TaxonomyCluster.clusterId := by simp
  rw [TaxonomyProposal.clustersById, get?_collect_eq_some (by rw [hkeys]; exact h.nodup),
    List.mem_map]
  constructor
  · rintro ⟨d, hd, he⟩
    cases he
    exact ⟨hd, rfl⟩
  · rintro ⟨hc, rfl⟩
    exact ⟨c, hc, rfl⟩

theorem ValidTaxonomy.length_clustersById {X : Externals} {corpus : IntegrationCorpus}
    {t : TaxonomyProposal} (h : ValidTaxonomy X corpus t) :
    t.clustersById.length = t.clusters.length := by
  have hkeys : (t.clusters.map fun c => (c.clusterId, c)).map Prod.fst =
      t.clusters.map TaxonomyCluster.clusterId := by simp
  rw [TaxonomyProposal.clustersById, (collect_perm (by rw [hkeys]; exact h.nodup)).length_eq,
    List.length_map]

theorem scan_checkRevision {X : Externals} {p : ApprovedIntegrationPlan}
    (h : ValidTaxonomy X p.corpus p.taxonomy) :
    scan (checkRevision X p) [] p.clusters = .ok () ↔
      (p.clusters.map fun r => r.proposal.clusterId).Nodup ∧
      ∀ r ∈ p.clusters, ∃ c ∈ p.taxonomy.clusters,
        ValidRevision X p.corpus p.taxonomy c p.providerRecordingHashes r := by
  have hcheck : ∀ b r, checkRevision X p b r = .ok () ↔
      (r.proposal.clusterId ∉ b.map fun r => r.proposal.clusterId) ∧
      ∃ c ∈ p.taxonomy.clusters,
        ValidRevision X p.corpus p.taxonomy c p.providerRecordingHashes r := by
    intro b r
    simp only [checkRevision]
    cases hg : get? r.proposal.clusterId p.taxonomy.clustersById with
    | none =>
      simp only [reduceCtorEq, false_iff, not_and, not_exists]
      intro _ c hc hv
      rw [h.get?_clustersById.mpr ⟨hc, hv.proposal.clusterId.symm⟩] at hg
      cases hg
    | some c =>
      obtain ⟨hc, hid⟩ := h.get?_clustersById.mp hg
      simp only [bind_unit_eq_ok, reject_eq_ok, validateClusterRevision_eq_ok]
      refine and_congr_right fun _ => ⟨fun hv => ⟨c, hc, hv⟩, ?_⟩
      rintro ⟨d, hd, hv⟩
      rwa [h.cluster_unique hc hd (hid.trans hv.proposal.clusterId)]
  simp only [scan_eq_ok, scannedFrom_congr hcheck, scannedFrom_and, scannedFrom_const,
    scanned_fresh]

/-- **The plan validator accepts exactly the valid plans.** -/
theorem validatePlan_eq_ok {X : Externals} {p : ApprovedIntegrationPlan} :
    validatePlan X p = .ok () ↔ ValidPlan X p := by
  simp only [validatePlan, validateApproval, bind_unit_eq_ok, reject_eq_ok, validateCorpus_eq_ok,
    validateTaxonomy_eq_ok, validateBoundedData_eq_ok, validateOptionalRationale_eq_ok, not_or,
    ne_eq, not_not, card_toFinset_eq_length]
  constructor
  · rintro ⟨⟨hf, hs⟩, hc, ht, ⟨⟨ha, hth⟩, hcb, hpb, hr⟩, hne, hnd, ho, hl, hrev, hid⟩
    obtain ⟨hrd, hrv⟩ := (scan_checkRevision ht).mp hrev
    exact ⟨hf, hs, hc, ht, ha, hth, hcb, hpb, hr, hne, hnd, ho, hl.trans ht.length_clustersById,
      hrd, hrv, hid⟩
  · intro h
    exact ⟨⟨h.formatFamily, h.schemaVersion⟩, h.corpus, h.taxonomy,
      ⟨⟨h.approved, h.targetHash⟩, h.curatorBounded, h.policyBounded, h.rationale⟩, h.recorded,
      h.recordingsDistinct, h.organizer, h.complete.trans h.taxonomy.length_clustersById.symm,
      (scan_checkRevision h.taxonomy).mpr ⟨h.revisionsDistinct, h.revision⟩, h.planId⟩

namespace ValidPlan

variable {X : Externals} {p : ApprovedIntegrationPlan}

/-- A revision belongs to the cluster whose identity its proposal names. -/
theorem revision_valid (h : ValidPlan X p) {r : ApprovedClusterRevision} (hr : r ∈ p.clusters)
    {c : TaxonomyCluster} (hc : c ∈ p.taxonomy.clusters)
    (hid : r.proposal.clusterId = c.clusterId) :
    ValidRevision X p.corpus p.taxonomy c p.providerRecordingHashes r := by
  obtain ⟨d, hd, hv⟩ := h.revision r hr
  rwa [h.taxonomy.cluster_unique hc hd (hid.symm.trans hv.proposal.clusterId)]

/-- There are as many revisions as clusters, and they name distinct clusters. -/
theorem clusterIds_perm (h : ValidPlan X p) :
    (p.clusters.map fun r => r.proposal.clusterId).Perm
      (p.taxonomy.clusters.map TaxonomyCluster.clusterId) := by
  have hsub : (p.clusters.map fun r => r.proposal.clusterId) ⊆
      p.taxonomy.clusters.map TaxonomyCluster.clusterId := by
    intro id hid
    obtain ⟨r, hr, rfl⟩ := List.mem_map.mp hid
    obtain ⟨d, hd, hv⟩ := h.revision r hr
    exact List.mem_map.mpr ⟨d, hd, hv.proposal.clusterId.symm⟩
  exact (List.subperm_of_subset h.revisionsDistinct hsub).perm_of_length_le (by simp [h.complete])

/-- **Every taxonomy cluster has a revision.** -/
theorem revision_of_cluster (h : ValidPlan X p) {c : TaxonomyCluster}
    (hc : c ∈ p.taxonomy.clusters) : ∃ r ∈ p.clusters, r.proposal.clusterId = c.clusterId := by
  obtain ⟨r, hr, he⟩ := List.mem_map.mp (h.clusterIds_perm.mem_iff.mpr (List.mem_map_of_mem hc))
  exact ⟨r, hr, he⟩

/-- A revision's cluster is found under the identity its proposal names. -/
theorem cluster_of_revision (h : ValidPlan X p) {r : ApprovedClusterRevision}
    (hr : r ∈ p.clusters) : ∃ c ∈ p.taxonomy.clusters,
      get? r.proposal.clusterId p.taxonomy.clustersById = some c ∧
      ValidRevision X p.corpus p.taxonomy c p.providerRecordingHashes r := by
  obtain ⟨c, hc, hv⟩ := h.revision r hr
  exact ⟨c, hc, h.taxonomy.get?_clustersById.mpr ⟨hc, hv.proposal.clusterId.symm⟩, hv⟩

end ValidPlan

end Okc.Core
