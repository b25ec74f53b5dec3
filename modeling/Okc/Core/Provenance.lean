import Okc.Core.Bulk
import Okc.Core.Compilation
import Okc.Core.Retention
import Okc.Lib.Table

/-!
# The record of a file (`integration.rs:1567-1591`, `1805-1920`)

Every materialized file has one record in `.okc/provenance.jsonl`. It names the cluster that owns
the file, the hashes of the cluster's approved revision, and evidence.

* `provenanceRecord_note`, `provenanceRecord_stub`: what the classification by path comes to on the
  files of a valid plan.
* `evidenceComplete_iff`: the evidence of a note's record covers the source blocks the note carries
  exactly when every preserved block is also cited.
* `explain_iff`: on a compiled artifact `explain` answers with the record of the path, for the paths
  of materialized files and no other.
-/

namespace Okc.Core

open Okc.Lib

/-! ## Records by path -/

section Records

variable {X : Externals} {p : ApprovedIntegrationPlan} {c : TaxonomyCluster}
  {r : ApprovedClusterRevision} {d : IntegrationDocument}

theorem get?_clusterByPath (h : ValidPlan X p) (hc : c ∈ p.taxonomy.clusters) :
    get? c.notePath p.clusterByPath = some c := by
  have hkeys : ((p.taxonomy.clusters.map fun c => (c.notePath, c)).map Prod.fst).Nodup := by
    rw [List.map_map]
    exact (List.nodup_append.mp h.nodup_outputPaths).1
  exact (get?_collect_eq_some hkeys).mpr (List.mem_map_of_mem hc)

theorem get?_clusterByPath_stub (h : ValidPlan X p) (hd : d ∈ p.corpus.documents) :
    get? d.stubPath p.clusterByPath = none := by
  refine get?_collect_eq_none.mpr fun hmem => ?_
  rw [List.map_map] at hmem
  exact (List.nodup_append.mp h.nodup_outputPaths).2.2 _ hmem _ (List.mem_map_of_mem hd) rfl

theorem get?_sourceByPath (h : ValidPlan X p) (hd : d ∈ p.corpus.documents) :
    get? d.stubPath p.sourceByPath = some d := by
  have hkeys : ((p.corpus.documents.map fun d => (d.stubPath, d)).map Prod.fst).Nodup := by
    rw [List.map_map]
    exact (List.nodup_append.mp h.nodup_outputPaths).2.1
  exact (get?_collect_eq_some hkeys).mpr (List.mem_map_of_mem hd)

/-- **The record of a canonical note.** -/
theorem provenanceRecord_note (h : ValidPlan X p) (hc : c ∈ p.taxonomy.clusters)
    (hr : r ∈ p.clusters) (hid : r.proposal.clusterId = c.clusterId) (bytes : Bytes) :
    provenanceRecord X p (c.notePath, bytes) = .ok (recordOf X p (c.notePath, bytes)
      "canonical_note" c r (evidenceSet r.proposal.evidence) none) := by
  have hrevision : get? c.clusterId p.revisionById = some r := hid ▸ get?_revisionById h hr
  simp only [provenanceRecord, get?_clusterByPath h hc, hrevision]

/-- **The record of a stub.** -/
theorem provenanceRecord_stub (h : ValidPlan X p) (hd : d ∈ p.corpus.documents)
    (hc : c ∈ p.taxonomy.clusters) (hdc : d.documentId ∈ c.documentIds) (hr : r ∈ p.clusters)
    (hid : r.proposal.clusterId = c.clusterId) (bytes : Bytes) :
    provenanceRecord X p (d.stubPath, bytes) = .ok (recordOf X p (d.stubPath, bytes)
      "legacy_redirect" c r (d.blocks.map (citation d.documentId)) (some d.documentId)) := by
  have hrevision : get? c.clusterId p.revisionById = some r := hid ▸ get?_revisionById h hr
  have hfind : (p.taxonomy.clusters.find? fun c => d.documentId ∈ c.documentIds) = some c := by
    cases hf : p.taxonomy.clusters.find? fun c => d.documentId ∈ c.documentIds with
    | none => simpa [hdc] using List.find?_eq_none.mp hf c hc
    | some e =>
      have he : e ∈ p.taxonomy.clusters ∧ d.documentId ∈ e.documentIds :=
        ⟨List.mem_of_find?_eq_some hf, by simpa using List.find?_some hf⟩
      rw [(h.taxonomy.cluster_of_document hd).unique he ⟨hc, hdc⟩]
  simp only [provenanceRecord, get?_clusterByPath_stub h hd, get?_sourceByPath h hd, hfind,
    hrevision]
  rfl

theorem mem_evidenceSet {e : SectionEvidence} {evidence : List SectionEvidence} :
    e ∈ evidenceSet evidence ↔ e ∈ evidence := by
  have hkeys : (evidence.map fun e => (e, ())).map Prod.fst = evidence := by
    rw [List.map_map]
    exact List.map_id' evidence
  have hnone : get? e (collect (evidence.map fun e => (e, ()))) = none ↔ _ := get?_collect_eq_none
  rw [get?_eq_none, hkeys] at hnone
  exact not_iff_not.mp hnone

end Records

/-! ## What the evidence of a note covers -/

/-- The note carries the content of the block. -/
def Carried (p : SynthesisProposal) (documentId : DocumentId) (block : SourceBlock) : Prop :=
  Disposed p (.ofBlock documentId block) .integrated ∨
    Disposed p (.ofBlock documentId block) .preservedVerbatim

/-- The evidence has every carried block of the cluster, with its content hash. -/
def EvidenceComplete (plan : ApprovedIntegrationPlan) (cluster : TaxonomyCluster)
    (p : SynthesisProposal) (evidence : List SectionEvidence) : Prop :=
  ∀ d ∈ plan.corpus.documents, d.documentId ∈ cluster.documentIds → ∀ b ∈ d.blocks,
    Carried p d.documentId b → citation d.documentId b ∈ evidence

/-- A section or a claim cites every preserved block of the cluster. -/
def PreservedCited (plan : ApprovedIntegrationPlan) (cluster : TaxonomyCluster)
    (p : SynthesisProposal) : Prop :=
  ∀ d ∈ plan.corpus.documents, d.documentId ∈ cluster.documentIds → ∀ b ∈ d.blocks,
    Disposed p (.ofBlock d.documentId b) .preservedVerbatim →
      (d.documentId, b.blockId.toString) ∈ p.evidencedBlocks

section Evidence

variable {X : Externals} {p : ApprovedIntegrationPlan} {c : TaxonomyCluster}
  {r : ApprovedClusterRevision}

theorem evidenceComplete_iff_of_revision (hc : ValidCorpus X p.corpus)
    (hp : ValidProposal X p.corpus p.taxonomy c r.proposal) :
    EvidenceComplete p c r.proposal r.proposal.evidence ↔ PreservedCited p c r.proposal := by
  constructor
  · intro h d hd hdc b hb hpreserved
    exact (mem_evidencedBlocks hc hp hd hb).mpr (h d hd hdc b hb (Or.inr hpreserved))
  · intro h d hd hdc b hb hcarried
    rcases hcarried with hintegrated | hpreserved
    · exact citation_of_integrated hc hp hd hb hintegrated
    · exact (mem_evidencedBlocks hc hp hd hb).mp (h d hd hdc b hb hpreserved)

/-- **What a note's evidence leaves out.** The records of a valid plan's notes cite every block the
notes carry exactly when each preserved block is cited by a section or a claim too. -/
theorem evidenceComplete_iff (h : ValidPlan X p) {files : List OutputFile}
    (hf : materializedFiles X p = .ok files) :
    (∀ f ∈ files, ∀ record, provenanceRecord X p f = .ok record →
      ∀ c ∈ p.taxonomy.clusters, f.1 = c.notePath →
        ∀ r ∈ p.clusters, r.proposal.clusterId = c.clusterId →
          EvidenceComplete p c r.proposal record.evidence) ↔
      ∀ c ∈ p.taxonomy.clusters, ∀ r ∈ p.clusters, r.proposal.clusterId = c.clusterId →
        PreservedCited p c r.proposal := by
  have hvalid : ∀ {c r}, c ∈ p.taxonomy.clusters → r ∈ p.clusters →
      r.proposal.clusterId = c.clusterId →
      (EvidenceComplete p c r.proposal (evidenceSet r.proposal.evidence) ↔
        PreservedCited p c r.proposal) := by
    intro c r hc hr hid
    rw [← evidenceComplete_iff_of_revision h.corpus (h.revision_valid hr hc hid).proposal]
    simp only [EvidenceComplete, mem_evidenceSet]
  constructor
  · intro hall c hc r hr hid
    obtain ⟨text, -, hmem⟩ := note_mem_materializedFiles h hf hr hc hid
    have hrecord := provenanceRecord_note (X := X) h hc hr hid (utf8 text)
    exact (hvalid hc hr hid).mp (hall _ hmem _ hrecord c hc rfl r hr hid)
  · rintro hall ⟨path, bytes⟩ hmem record hrecord c hc rfl r hr hid
    rw [provenanceRecord_note h hc hr hid bytes] at hrecord
    obtain rfl := Except.ok.inj hrecord
    exact (hvalid hc hr hid).mpr (hall c hc r hr hid)

end Evidence

/-- A note whose one section cites the bulk block. -/
def cited (X : Externals) : NoteContent where
  path := "all.md"
  sections := [⟨"s", "Kept", "Kept as it is.", [bulkCitation X]⟩]
  links := []
  contradictions := []

theorem cited_ok (sha256 : Bytes → ContentHash) :
    (cited (plainExternals sha256)).Ok (plainExternals sha256) 1 where
  path := (portable_note "all.md" (by decide) (by decide)).1
  notePath := (portable_note "all.md" (by decide) (by decide)).2
  markdown := by
    show ".md".toList <:+ (asciiLower "all.md").toList
    decide
  sectionIds := List.nodup_singleton _
  sections := by
    intro s hs
    rw [List.mem_singleton.mp hs]
    have hbody : validateMarkdownBody "Kept as it is." = .ok () := by decide
    exact ⟨by simp [Bounded]; decide, by simp [Bounded]; decide, hbody,
      List.cons_ne_nil _ _, evidenceOk_bulkCitation _⟩
  links := fun l hl => absurd hl List.not_mem_nil
  contradictionIds := List.nodup_nil
  contradictions := fun c hc => absurd hc List.not_mem_nil

theorem evidenceComplete_iff_cited : ∃ files,
    materializedFiles (plainExternals prefixHash) (notePlan (plainExternals prefixHash) 1
      (cited (plainExternals prefixHash))) = .ok files ∧
    ∀ f ∈ files, ∀ record, provenanceRecord (plainExternals prefixHash)
        (notePlan (plainExternals prefixHash) 1 (cited (plainExternals prefixHash))) f =
          .ok record →
      f.1 = "knowledge/all.md" →
        EvidenceComplete (notePlan (plainExternals prefixHash) 1 (cited (plainExternals prefixHash)))
          (noteCluster 1 (cited (plainExternals prefixHash)))
          (noteProposal (plainExternals prefixHash) 1 (cited (plainExternals prefixHash)))
          record.evidence := by
  have h := notePlan_valid (n := 1) (by omega) (by omega) (cited_ok prefixHash)
  obtain ⟨files, hf⟩ := materializedFiles_isOk h
  have hcited : ∀ c ∈ (noteTaxonomy (plainExternals prefixHash) 1
        (cited (plainExternals prefixHash))).clusters,
      ∀ r ∈ [noteRevision (plainExternals prefixHash) 1 (cited (plainExternals prefixHash))],
        r.proposal.clusterId = c.clusterId → PreservedCited (notePlan (plainExternals prefixHash) 1
          (cited (plainExternals prefixHash))) c r.proposal := by
    intro c _ r hr _ d hd _ b hb _
    obtain ⟨i, hi, rfl⟩ := List.mem_map.mp hd
    obtain rfl : i = 0 := by simpa using hi
    rw [List.mem_singleton.mp hr, List.mem_singleton.mp hb]
    exact List.mem_singleton_self _
  refine ⟨files, hf, fun f hmem record hrecord hpath => ?_⟩
  exact (evidenceComplete_iff h hf).mpr hcited f hmem record hrecord _ (List.mem_singleton_self _)
    hpath _ (List.mem_singleton_self _) rfl

/-- The note of the bulk plan carries a block that its record does not name. -/
theorem preserved_not_evidenced :
    ValidPlan (plainExternals prefixHash) (bulkPlan (plainExternals prefixHash) 1) ∧
    ∃ files f record,
      materializedFiles (plainExternals prefixHash) (bulkPlan (plainExternals prefixHash) 1) =
        .ok files ∧ f ∈ files ∧ f.1 = (bulkCluster 1).notePath ∧
      provenanceRecord (plainExternals prefixHash) (bulkPlan (plainExternals prefixHash) 1) f =
        .ok record ∧
      ¬ EvidenceComplete (bulkPlan (plainExternals prefixHash) 1) (bulkCluster 1)
        (bulkProposal (plainExternals prefixHash) 1) record.evidence := by
  have h := bulkPlan_valid prefixHash (n := 1) Nat.one_pos (by decide)
  obtain ⟨files, hf⟩ := materializedFiles_isOk h
  obtain ⟨text, -, hmem⟩ := note_mem_materializedFiles h hf (List.mem_singleton_self _)
    (List.mem_singleton_self _) rfl
  refine ⟨h, files, _, _, hf, hmem, rfl, provenanceRecord_note h (List.mem_singleton_self _)
    (List.mem_singleton_self _) rfl _, fun hcomplete => ?_⟩
  have hdisposed : Disposed (bulkProposal (plainExternals prefixHash) 1)
      (.ofBlock ⟨indexHash 0⟩ (bulkBlock (plainExternals prefixHash) 0)) .preservedVerbatim :=
    ⟨_, List.mem_cons_self, rfl, rfl⟩
  have hcitation := hcomplete (bulkDocument (plainExternals prefixHash) 0) List.mem_cons_self
    List.mem_cons_self _ List.mem_cons_self (Or.inr hdisposed)
  exact absurd (mem_evidenceSet.mp hcitation) List.not_mem_nil

/-! ## Explaining a path -/

/-- `explain`, on a tree that nobody changes meanwhile. `decodeRecord` is
`serde_json::from_slice::<ProvenanceRecord>`. -/
def explain (X : Externals) (K : Codec) (decodeRecord : Bytes → Except OkcError ProvenanceRecord)
    (t : Tree) (outputPath : String) : Except OkcError ProvenanceRecord := do
  let _ ← verify X K t
  validateRelativePath X outputPath
  let bytes ← match t.read (splitSlash provenancePath) with
    | some bytes => .ok bytes
    | none => .error (.io provenancePath .other)
  let records ← (lines bytes).mapM decodeRecord
  match records.filter fun record => record.outputPath = outputPath with
  | [] => .error (.verificationFailed
      ("Schema 3 artifact has no provenance for \x60" ++ outputPath ++ "\x60"))
  | [record] => .ok record
  | _ :: _ :: _ => .error (.verificationFailed
      ("Schema 3 artifact has duplicate provenance for \x60" ++ outputPath ++ "\x60"))

/-- The cluster's note, or a stub of one of its documents. -/
def Owns (plan : ApprovedIntegrationPlan) (cluster : TaxonomyCluster) (path : String) : Prop :=
  path = cluster.notePath ∨
    ∃ d ∈ plan.corpus.documents, d.documentId ∈ cluster.documentIds ∧ path = d.stubPath

/-- The record is that of the file, by the hashes of the one cluster that owns it. -/
structure Describes (X : Externals) (plan : ApprovedIntegrationPlan) (file : OutputFile)
    (record : ProvenanceRecord) : Prop where
  outputPath : record.outputPath = file.1
  outputHash : record.outputHash = X.fromDomainBytes "okc:output:v3\x00" file.2
  owner : ∃! c, c ∈ plan.taxonomy.clusters ∧ Owns plan c file.1
  hashes : ∀ c ∈ plan.taxonomy.clusters, Owns plan c file.1 → ∀ r ∈ plan.clusters,
    r.proposal.clusterId = c.clusterId →
      record.clusterId = some c.clusterId ∧
      record.proposalHash = some r.proposal.proposalHash ∧
      record.criticHash = some r.critic.criticHash ∧
      record.approvalHash = some r.approval.revisionHash

/-- The records of a plan's files, one a file and one a line. -/
structure Recorded (X : Externals) (plan : ApprovedIntegrationPlan) (files : List OutputFile)
    (provenance : Bytes) (records : List ProvenanceRecord) : Prop where
  distinct : (files.map Prod.fst).Nodup
  paths : records.map ProvenanceRecord.outputPath = files.map Prod.fst
  lines : lines provenance = records.map fun record => record.toValue.canonicalJson
  describes : ∀ f ∈ files, ∀ record ∈ records, record.outputPath = f.1 → Describes X plan f record

/-- `serde_json` reads back the records it writes for the plan. -/
def RecordsReadBack (X : Externals) (plan : ApprovedIntegrationPlan)
    (decodeRecord : Bytes → Except OkcError ProvenanceRecord) : Prop :=
  ∀ files, materializedFiles X plan = .ok files → ∀ f ∈ files, ∀ record,
    provenanceRecord X plan f = .ok record →
      decodeRecord record.toValue.canonicalJson = .ok record

section Explain

variable {X : Externals} {p : ApprovedIntegrationPlan} {files : List OutputFile}

theorem owner_unique (h : ValidPlan X p) {c e : TaxonomyCluster} (hc : c ∈ p.taxonomy.clusters)
    (he : e ∈ p.taxonomy.clusters) {path : String} (hcp : Owns p c path) (hep : Owns p e path) :
    c = e := by
  have hnote := (List.nodup_append.mp h.nodup_outputPaths).1
  have hstub := (List.nodup_append.mp h.nodup_outputPaths).2.1
  have hapart := (List.nodup_append.mp h.nodup_outputPaths).2.2
  rcases hcp with rfl | ⟨d, hd, hdc, rfl⟩
  · rcases hep with hpath | ⟨d, hd, -, hpath⟩
    · exact List.inj_on_of_nodup_map hnote hc he hpath
    · exact absurd hpath (hapart _ (List.mem_map_of_mem hc) _ (List.mem_map_of_mem hd))
  · rcases hep with hpath | ⟨d', hd', hde, hpath⟩
    · exact absurd hpath.symm (hapart _ (List.mem_map_of_mem he) _ (List.mem_map_of_mem hd))
    · obtain rfl := List.inj_on_of_nodup_map hstub hd hd' hpath
      exact (h.taxonomy.cluster_of_document hd).unique ⟨hc, hdc⟩ ⟨he, hde⟩

/-- The hashes of the revision of the cluster that owns the file describe it. -/
theorem describes_recordOf (h : ValidPlan X p) {c : TaxonomyCluster} {r : ApprovedClusterRevision}
    (hc : c ∈ p.taxonomy.clusters) (hr : r ∈ p.clusters) (hid : r.proposal.clusterId = c.clusterId)
    {f : OutputFile} (howns : Owns p c f.1) (kind : String) (evidence : List SectionEvidence)
    (source : Option DocumentId) :
    Describes X p f (recordOf X p f kind c r evidence source) where
  outputPath := rfl
  outputHash := rfl
  owner := ⟨c, ⟨hc, howns⟩, fun _ he => owner_unique h he.1 hc he.2 howns⟩
  hashes := by
    intro c' hc' howns' r' hr' hid'
    obtain rfl := owner_unique h hc' hc howns' howns
    obtain rfl := List.inj_on_of_nodup_map h.revisionsDistinct hr' hr (hid'.trans hid.symm)
    exact ⟨rfl, rfl, rfl, rfl⟩

/-- **The record of a file of a valid plan.** -/
theorem describes_of_record (h : ValidPlan X p) {f : OutputFile} (hf : f.1 ∈ outputPaths p)
    {record : ProvenanceRecord} (hrecord : provenanceRecord X p f = .ok record) :
    Describes X p f record := by
  obtain ⟨path, bytes⟩ := f
  rcases List.mem_append.mp hf with hnote | hstub
  · obtain ⟨c, hc, rfl⟩ := List.mem_map.mp hnote
    obtain ⟨r, hr, hid⟩ := h.revision_of_cluster hc
    rw [provenanceRecord_note h hc hr hid] at hrecord
    exact Except.ok.inj hrecord ▸ describes_recordOf h hc hr hid (Or.inl rfl) _ _ _
  · obtain ⟨d, hd, rfl⟩ := List.mem_map.mp hstub
    obtain ⟨c, hc, hdc⟩ := h.taxonomy.covers d hd
    obtain ⟨r, hr, hid⟩ := h.revision_of_cluster hc
    rw [provenanceRecord_stub h hd hc hdc hr hid] at hrecord
    exact Except.ok.inj hrecord ▸
      describes_recordOf h hc hr hid (Or.inr ⟨d, hd, hdc, rfl⟩) _ _ _

theorem recorded_of_valid (h : ValidPlan X p) (hf : materializedFiles X p = .ok files)
    {provenance : Bytes} (hprov : provenanceJsonl X p files = .ok provenance) :
    ∃ records, files.mapM (provenanceRecord X p) = .ok records ∧
      Recorded X p files provenance records := by
  have hdistinct : (files.map Prod.fst).Nodup :=
    (materializedFiles_paths h hf).nodup_iff.mpr h.nodup_outputPaths
  simp only [provenanceJsonl, bind_eq_ok, Except.ok.injEq] at hprov
  obtain ⟨records, hrecords, rfl⟩ := hprov
  have hdescribes : ∀ f ∈ files, ∀ record, provenanceRecord X p f = .ok record →
      Describes X p f record := fun f hmem record hr =>
    describes_of_record h ((materializedFiles_paths h hf).mem_iff.mp (List.mem_map_of_mem hmem)) hr
  refine ⟨records, hrecords, hdistinct, ?_, ?_, ?_⟩
  · exact map_of_mapM hrecords fun f hmem record hr => (hdescribes f hmem record hr).outputPath
  · exact lines_flatMap fun record _ =>
      ⟨Value.break_not_mem_canonicalJson _, Value.canonicalJson_ne_nil _⟩
  · intro f hmem record hrecord hpath
    obtain ⟨g, hg, hr⟩ := mem_of_mapM_right hrecords hrecord
    have hfg := List.inj_on_of_nodup_map hdistinct hmem hg
      (hpath.symm.trans (hdescribes g hg record hr).outputPath)
    exact hfg ▸ hdescribes g hg record hr

/-- What `explain` reads in the tree of a plan's envelope. -/
theorem explain_of_holds {K : Codec} {t : Tree} {provenance : Bytes}
    {records : List ProvenanceRecord} {decodeRecord : Bytes → Except OkcError ProvenanceRecord}
    (hv : ∃ m, verify X K t = .ok m) (h : ValidPlan X p) (hf : materializedFiles X p = .ok files)
    (hread : t.read (splitSlash provenancePath) = some provenance)
    (hrec : Recorded X p files provenance records)
    (hdecode : ∀ record ∈ records, decodeRecord record.toValue.canonicalJson = .ok record)
    (path : String) (record : ProvenanceRecord) :
    explain X K decodeRecord t path = .ok record ↔ record ∈ records ∧ record.outputPath = path := by
  obtain ⟨m, hm⟩ := hv
  have hdecoded : (lines provenance).mapM decodeRecord = .ok records := by
    rw [hrec.lines, mapM_eq_ok, List.forall₂_map_left_iff, List.forall₂_same]
    exact hdecode
  have hdistinct : (records.map ProvenanceRecord.outputPath).Nodup := hrec.paths ▸ hrec.distinct
  unfold explain
  simp only [hm, hread, hdecoded, bind_eq_ok, Except.ok.injEq, exists_eq_left', exists_unit,
    validateRelativePath_eq_ok]
  constructor
  · rintro ⟨-, hfound⟩
    have hmem : ∀ q ∈ records.filter fun record => record.outputPath = path,
        q ∈ records ∧ q.outputPath = path := fun q hq => by simpa using List.mem_filter.mp hq
    split at hfound
    · cases hfound
    · rename_i q hq
      obtain rfl := Except.ok.inj hfound
      exact hmem q (hq ▸ List.mem_singleton_self _)
    · cases hfound
  · rintro ⟨hmem, rfl⟩
    refine ⟨?_, by rw [filter_key hdistinct hmem]⟩
    have hpath := hrec.paths ▸ List.mem_map_of_mem (f := ProvenanceRecord.outputPath) hmem
    exact h.portable_outputPaths _ ((materializedFiles_paths h hf).mem_iff.mp hpath)

/-- **Provenance of a valid plan.** Each materialized file has one record, which describes it, on
a line of its own, and on every artifact compiled from the plan `explain` answers for the paths of
these files, with their records, and for no other path. -/
theorem explain_iff (h : ValidPlan X p) :
    ∃ files provenance records, materializedFiles X p = .ok files ∧
      provenanceJsonl X p files = .ok provenance ∧ Recorded X p files provenance records ∧
      ∀ K env site w artifact w' decodeRecord, w.Fresh →
        compileWithHook X K env site p w = (.ok artifact, w') → RecordsReadBack X p decodeRecord →
        ∃ t, w'.destination = some (.directory t) ∧ ∀ path record,
          explain X K decodeRecord t path = .ok record ↔
            record ∈ records ∧ record.outputPath = path := by
  obtain ⟨files, hf⟩ := materializedFiles_isOk h
  obtain ⟨provenance, hprov⟩ := provenanceJsonl_isOk h hf
  obtain ⟨records, hrecords, hrec⟩ := recorded_of_valid h hf hprov
  refine ⟨files, provenance, records, hf, hprov, hrec, ?_⟩
  intro K env site w artifact w' decodeRecord hw hrun hdecode
  obtain ⟨⟨t, ht, hv, hpublished⟩, -⟩ := (compile_triple X K env site p).ok hw hrun
  refine ⟨t, hpublished.destination, explain_of_holds hv h hf ?_ hrec fun record hmem => ?_⟩
  · obtain ⟨m, hm⟩ := hv
    obtain ⟨u, hu, hholds⟩ := stageTree_isOk h hf hprov (portable_of_verify hm)
    obtain rfl : t = u := congrArg Prod.fst (Except.ok.inj (ht.symm.trans hu))
    refine Tree.read_eq_some.mpr (kindAt_of_mem (f := (provenancePath, provenance)) hholds ?_)
    simp [envelope, withManifest, payload]
  · obtain ⟨f, hmemf, hr⟩ := mem_of_mapM_right hrecords hmem
    exact hdecode files hf f hmemf record hr

end Explain

@[simp] theorem optionHash_inj {a b : Option ContentHash} :
    Value.option ContentHash.toValue a = Value.option ContentHash.toValue b ↔ a = b :=
  Value.option_inj ContentHash.toValue_injective fun _ => Value.str_ne_null _

@[simp] theorem optionDocument_inj {a b : Option DocumentId} :
    Value.option DocumentId.toValue a = Value.option DocumentId.toValue b ↔ a = b :=
  Value.option_inj DocumentId.toValue_injective fun _ => Value.str_ne_null _

theorem ProvenanceRecord.toValue_inj {a b : ProvenanceRecord} : a.toValue = b.toValue ↔ a = b := by
  refine ⟨fun h => ?_, fun h => h ▸ rfl⟩
  unfold toValue at h
  have hf := Value.object_inj (by simp) (by simp) h
  cases a
  cases b
  simpa using hf

/-- A decoder that knows the given records. -/
def decoderOf (records : List ProvenanceRecord) (bytes : Bytes) : Except OkcError ProvenanceRecord :=
  match records.find? fun record => record.toValue.canonicalJson = bytes with
  | some record => .ok record
  | none => .error (.json "expected value")

theorem decoderOf_readsBack {X : Externals} {p : ApprovedIntegrationPlan} {files : List OutputFile}
    {records : List ProvenanceRecord} (hf : materializedFiles X p = .ok files)
    (hr : files.mapM (provenanceRecord X p) = .ok records) :
    RecordsReadBack X p (decoderOf records) := by
  intro files' hf' f hmem record hrecord
  obtain rfl : files = files' := Except.ok.inj (hf.symm.trans hf')
  obtain ⟨record', hmem', hrecord'⟩ := mem_of_mapM_left hr hmem
  obtain rfl : record' = record := Except.ok.inj (hrecord'.symm.trans hrecord)
  unfold decoderOf
  cases hfind : records.find? fun q => q.toValue.canonicalJson = record'.toValue.canonicalJson with
  | none => simpa using List.find?_eq_none.mp hfind record' hmem'
  | some q =>
    have hsame : q.toValue.canonicalJson = record'.toValue.canonicalJson := by
      simpa using List.find?_some hfind
    rw [ProvenanceRecord.toValue_inj.mp (Value.canonicalJson_injective hsame)]

theorem explain_iff_bulk : ∃ K decodeRecord t files,
    materializedFiles (plainExternals prefixHash) (bulkPlan (plainExternals prefixHash) 1) =
      .ok files ∧
    ∀ path, (∃ record, explain (plainExternals prefixHash) K decodeRecord t path = .ok record) ↔
      path ∈ files.map Prod.fst := by
  have h := bulkPlan_valid prefixHash (n := 1) Nat.one_pos (by decide)
  obtain ⟨files, provenance, records, hf, hprov, hrec, hexplain⟩ := explain_iff h
  have hK := codecOf_readsBack hf hprov
  obtain ⟨u, hu, hholds⟩ := stageTree_isOk h hf hprov (controlPaths_portable prefixHash)
  obtain ⟨m, hm⟩ := (verify_envelope hK h hf hprov (controlPaths_portable prefixHash) hholds).mpr
    (@bulkPlan_keepsLimits prefixHash)
  have hsite : Site.hasLeaf ⟨"out", ".", ".okc-stage-x", true⟩ = true := rfl
  have hrun := compile_quiet_isOk undisturbed_quiet hsite (validatePlan_eq_ok.mpr h) hu hm
  obtain ⟨read, hread, -⟩ := recorded_of_valid h hf hprov
  cases hr : compileWithHook (plainExternals prefixHash)
      (codecOf (plainExternals prefixHash) (bulkPlan (plainExternals prefixHash) 1) files provenance)
      quiet ⟨"out", ".", ".okc-stage-x", true⟩ (bulkPlan (plainExternals prefixHash) 1)
      World.free with
  | mk r w =>
    cases r with
    | error e => exact (hrun.error ⟨World.fresh_free, rfl⟩ hr).elim
    | ok artifact =>
      obtain ⟨t, -, ht⟩ := hexplain _ _ _ _ _ _ (decoderOf read) World.fresh_free hr
        (decoderOf_readsBack hf hread)
      refine ⟨codecOf (plainExternals prefixHash) (bulkPlan (plainExternals prefixHash) 1) files
        provenance, decoderOf read, t, files, hf, fun path => ?_⟩
      simp only [ht, ← hrec.paths, List.mem_map]

end Okc.Core
