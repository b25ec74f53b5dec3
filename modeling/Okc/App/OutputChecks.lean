import Okc.App.ClusterTasks
import Okc.Lib.Hex

/-!
# Whether a stored output keeps the rules (`integration_execution.rs:740-872`, `integration.rs`)

`run_cluster_tasks` seals what the provider drafted and completes the task with it. The rules for a
proposal and a report are checked when a plan is sealed, and nowhere before.

* `SynthesisDraft.Keeps`, `KeepsFindings`: the rules, asked of a draft. What is sealed of it is
  valid then and only then (`valid_toProposal_iff`, `valid_seal_iff`).
* `Sound.proposal_valid`, `Sound.output_valid`: what is found under a key is valid for the taxonomy
  and the cluster at hand, whichever call stored it.
* `targets_of_synthesisRequest`: a request shows the provider everything it has to dispose of.
* **`clusterOutputs_valid`**: where every draft keeps the rules, every stored and every returned
  output is valid.
* `empty_draft_stored`: where one does not, the output is stored and returned all the same.
-/

namespace Okc.App

open Okc.Lib Okc.Core

/-! ## The rules for a draft -/

/-- The blocks that a draft cites. -/
def SynthesisDraft.citations (draft : SynthesisDraft) : List (DocumentId × String) :=
  (draft.sections.flatMap SynthesisSection.evidence ++
    (draft.contradictions.flatMap DraftContradiction.claims).flatMap
      DraftContradictionClaim.evidence).map fun e => (e.documentId, e.blockId.toString)

/-- The draft keeps the rules for a proposal for the cluster. -/
structure SynthesisDraft.Keeps (approved : ApprovedTaxonomy) (cluster : TaxonomyCluster)
    (draft : SynthesisDraft) : Prop where
  distinct : (draft.dispositions.map fun d => d.toDisposition.target).Nodup
  targets : ∀ t, t ∈ draft.dispositions.map (fun d => d.toDisposition.target) ↔
    t ∈ expectedTargets (Core.clusterDocuments approved.corpus cluster)
  rationale : ∀ d ∈ draft.dispositions, d.disposition = .omissionProposed →
    RationaleOk (nonEmpty d.rationale) true
  sectionIds : (draft.sections.map SynthesisSection.sectionId).Nodup
  sections : ∀ s ∈ draft.sections, ValidSection (Core.clusterDocuments approved.corpus cluster) s
  integrated : ∀ d ∈ draft.dispositions, d.kind = .block → d.disposition = .integrated →
    (d.documentId, d.targetId) ∈ draft.citations
  links : ∀ l ∈ draft.relatedLinks,
    l.targetClusterId ∈ approved.taxonomy.clusters.map TaxonomyCluster.clusterId ∧
      EvidenceOk (Core.clusterDocuments approved.corpus cluster) l.evidence
  contradictionIds : (draft.contradictions.map DraftContradiction.contradictionId).Nodup
  contradictions : ∀ c ∈ draft.contradictions,
    ValidContradiction (Core.clusterDocuments approved.corpus cluster) c.toSet

/-- The findings keep the rules for a report. -/
structure KeepsFindings (approved : ApprovedTaxonomy) (cluster : TaxonomyCluster)
    (findings : List CriticFinding) : Prop where
  ids : (findings.map CriticFinding.findingId).Nodup
  findings : ∀ f ∈ findings, ValidFinding (Core.clusterDocuments approved.corpus cluster) f

/-- Drafts that keep the rules. -/
def keepingDrafts : Drafts where
  synthesis approved cluster draft := draft.Keeps approved cluster
  critic approved cluster _ findings := KeepsFindings approved cluster findings

/-- The output keeps the rules that `validate_cluster_revision` has for it. -/
structure ClusterTaskOutput.Valid (X : Externals) (approved : ApprovedTaxonomy)
    (cluster : TaxonomyCluster) (output : ClusterTaskOutput) : Prop where
  proposal : ValidProposal X approved.corpus approved.taxonomy cluster output.proposal
  report : ValidReport X (Core.clusterDocuments approved.corpus cluster) output.proposal
    output.critic

section

variable {X : Externals} {approved : ApprovedTaxonomy} {cluster : TaxonomyCluster}

theorem evidencedBlocks_toProposal {draft : SynthesisDraft} {clusterId : String}
    {taxonomyHash recordingHash : ContentHash} {revision : Nat} :
    (draft.toProposal X clusterId taxonomyHash revision recordingHash).evidencedBlocks =
      draft.citations := by
  have hclaims : ((draft.contradictions.map DraftContradiction.toSet).flatMap
      ContradictionSet.claims).flatMap ContradictionClaim.evidence =
      (draft.contradictions.flatMap DraftContradiction.claims).flatMap
        DraftContradictionClaim.evidence := by
    rw [List.flatMap_map, List.flatMap_assoc, List.flatMap_assoc]
    refine List.flatMap_congr fun c _ => ?_
    exact List.flatMap_map _ _ _
  unfold SynthesisProposal.evidencedBlocks SynthesisProposal.evidence SynthesisDraft.citations
  unfold SynthesisDraft.toProposal SynthesisProposal.seal
  dsimp only
  rw [hclaims]

/-- **What is sealed of a draft is valid iff the draft keeps the rules.** -/
theorem valid_toProposal_iff {draft : SynthesisDraft} {revision : Nat}
    {recordingHash : ContentHash} :
    ValidProposal X approved.corpus approved.taxonomy cluster (draft.toProposal X
      cluster.clusterId approved.taxonomy.taxonomyHash revision recordingHash) ↔
      draft.Keeps approved cluster := by
  have htargets : (draft.toProposal X cluster.clusterId approved.taxonomy.taxonomyHash revision
      recordingHash).dispositions.map SourceDisposition.target =
      draft.dispositions.map fun d => d.toDisposition.target := List.map_map
  have hids : (draft.toProposal X cluster.clusterId approved.taxonomy.taxonomyHash revision
      recordingHash).contradictions.map ContradictionSet.contradictionId =
      draft.contradictions.map DraftContradiction.contradictionId := List.map_map
  have hintegrated : (∀ t ∈ (draft.toProposal X cluster.clusterId approved.taxonomy.taxonomyHash
      revision recordingHash).integratedBlocks, t ∈ draft.citations) ↔
      ∀ d ∈ draft.dispositions, d.kind = .block → d.disposition = .integrated →
        (d.documentId, d.targetId) ∈ draft.citations := by
    unfold SynthesisProposal.integratedBlocks SynthesisDraft.toProposal SynthesisProposal.seal
    simp only [List.mem_map, List.mem_filter, DraftDisposition.toDisposition]
    constructor
    · intro h d hd hk hi
      exact h _ ⟨_, ⟨⟨d, hd, rfl⟩, by simp [hk, hi]⟩, rfl⟩
    · rintro h _ ⟨_, ⟨⟨d, hd, rfl⟩, hkind⟩, rfl⟩
      simp only [decide_eq_true_eq] at hkind
      exact h d hd hkind.1 hkind.2
  constructor
  · intro h
    exact
      { distinct := htargets ▸ h.distinct
        targets := htargets ▸ h.targets
        rationale := fun d hd => h.rationale _ (List.mem_map_of_mem hd)
        sectionIds := h.sectionIds
        sections := h.sections
        integrated := hintegrated.mp (evidencedBlocks_toProposal ▸ h.integrated)
        links := h.links
        contradictionIds := hids ▸ h.contradictionIds
        contradictions := fun c hc => h.contradictions _ (List.mem_map_of_mem hc) }
  · intro h
    exact
      { schemaVersion := rfl
        clusterId := rfl
        taxonomyHash := rfl
        proposalHash := rfl
        distinct := htargets ▸ h.distinct
        targets := htargets ▸ h.targets
        rationale := List.forall_mem_map.mpr h.rationale
        sectionIds := h.sectionIds
        sections := h.sections
        integrated := evidencedBlocks_toProposal ▸ hintegrated.mpr h.integrated
        links := h.links
        contradictionIds := hids ▸ h.contradictionIds
        contradictions := List.forall_mem_map.mpr h.contradictions }

theorem valid_seal_iff {p : SynthesisProposal} {findings : List CriticFinding}
    {recordingHash : ContentHash} (hid : p.clusterId = cluster.clusterId) :
    ValidReport X (Core.clusterDocuments approved.corpus cluster) p
      (.seal X cluster.clusterId p.proposalHash findings recordingHash) ↔
      KeepsFindings approved cluster findings :=
  ⟨fun h => ⟨h.findingIds, h.findings⟩, fun h => ⟨rfl, hid.symm, rfl, rfl, h.ids, h.findings⟩⟩

theorem clusterDocuments_congr {corpus corpus' : IntegrationCorpus}
    (h : corpus.documents = corpus'.documents) (cluster : TaxonomyCluster) :
    Core.clusterDocuments corpus cluster = Core.clusterDocuments corpus' cluster := by
  unfold Core.clusterDocuments
  rw [h]

/-- The same taxonomy over the same documents. -/
structure ApprovedTaxonomy.Same (approved approved' : ApprovedTaxonomy) : Prop where
  taxonomyHash : approved.taxonomy.taxonomyHash = approved'.taxonomy.taxonomyHash
  clusters : approved.taxonomy.clusters = approved'.taxonomy.clusters
  documents : approved.corpus.documents = approved'.corpus.documents

theorem ApprovedTaxonomy.Same.valid {approved' : ApprovedTaxonomy} (h : approved.Same approved')
    {p : SynthesisProposal}
    (hp : ValidProposal X approved.corpus approved.taxonomy cluster p) :
    ValidProposal X approved'.corpus approved'.taxonomy cluster p := by
  have hdocuments := clusterDocuments_congr h.documents cluster
  exact { hp with
    taxonomyHash := hp.taxonomyHash.trans h.taxonomyHash
    targets := hdocuments ▸ hp.targets
    sections := hdocuments ▸ hp.sections
    links := h.clusters ▸ hdocuments ▸ hp.links
    contradictions := hdocuments ▸ hp.contradictions }

end

/-! ## What is stored -/

/-- SHA-256 separates what the registrations and the recorded taxonomies hash. -/
def Ledger.Discerning (X : Externals) (b : Ledger) : Prop :=
  X.NoCollisions {m | (∃ p ∈ b.registered, m ∈ p.2.hashed) ∨
    ∃ row ∈ b.journal.approvals, ∃ approved, row.object = .approvedTaxonomy approved ∧
      (m = taxonomyMessage approved.taxonomy ∨ m = corpusMessage approved.corpus)}

section

variable {X : Externals} {G : Drafts} {b : Ledger} {run : RunRecord} {approved : ApprovedTaxonomy}
  {cluster : TaxonomyCluster}

theorem Ledger.Discerning.separated (h : b.Discerning X) : b.Separated X :=
  Set.InjOn.mono (fun _ => Or.inl) h

/-- Recorded taxonomies with one hash are the same. -/
theorem Sound.same (h : Sound X G b) (hX : b.Discerning X) {approved' : ApprovedTaxonomy}
    {corpus corpus' : IntegrationCorpus} (hap : Approved b corpus approved)
    (hap' : Approved b corpus' approved')
    (hhash : approved.taxonomy.taxonomyHash = approved'.taxonomy.taxonomyHash) :
    approved.Same approved' := by
  obtain ⟨row, hrow, -, hobject⟩ := hap.row
  obtain ⟨row', hrow', -, hobject'⟩ := hap'.row
  have htaxonomy := h.approvals row hrow approved hobject
  have htaxonomy' := h.approvals row' hrow' approved' hobject'
  obtain ⟨hclusters, hcorpora⟩ := htaxonomy.unique hX htaxonomy'
    (.inr ⟨row, hrow, approved, hobject, .inl rfl⟩)
    (.inr ⟨row', hrow', approved', hobject', .inl rfl⟩) hhash
  exact ⟨hhash, hclusters, documents_of_corpusHash hX htaxonomy.corpus htaxonomy'.corpus
    (.inr ⟨row, hrow, approved, hobject, .inr rfl⟩)
    (.inr ⟨row', hrow', approved', hobject', .inr rfl⟩) hcorpora⟩

/-- **A cluster's proposal is valid for it**, whichever call completed the task. -/
theorem Sound.proposal_valid (h : Sound X keepingDrafts b) (hX : b.Discerning X)
    {corpus : IntegrationCorpus} {texts : BlockTextMap} {proposal : SynthesisProposal}
    (hap : Approved b corpus approved)
    (hp : ProposedFor X b run approved cluster texts proposal) :
    ValidProposal X approved.corpus approved.taxonomy cluster proposal := by
  cases hp with
  | mk name profile regeneration task filed responds =>
    cases h.toBacked.responds filed.stored responds with
    | synthesis approval listed filed' recorded admitted =>
      have hkey := key_of_registered hX.separated filed.registered filed'.registered filed.key
        filed'.key
      obtain ⟨-, hhash, rfl⟩ := synthesis_agrees hX.separated
        (filed.runId.symm.trans filed'.runId) (messages_of_registered filed.registered)
        (messages_of_registered filed'.registered) hkey
      exact (h.same hX approval hap hhash.symm).valid (valid_toProposal_iff.mpr admitted)

/-- **A cluster's output is valid for it**, whichever call completed the task. -/
theorem Sound.output_valid (h : Sound X keepingDrafts b) (hX : b.Discerning X)
    {prepared : PreparedCorpus X} {name : String} {profile : ProviderProfile}
    {task : TaskDefinition} {proposal : SynthesisProposal} {output : ClusterTaskOutput}
    (hap : Approved b prepared.corpus approved) (hlisted : cluster ∈ approved.taxonomy.clusters)
    (hp : ProposedFor X b run approved cluster prepared.blockTexts proposal)
    (hfiled : Filed X b run (criticRegistration X run approved cluster name profile
      prepared.corpus prepared.blockTexts proposal) task)
    (hresponds : b.journal.Responds task.taskId (.clusterOutput output)) :
    output.Valid X approved cluster := by
  cases h.toBacked.responds hfiled.stored hresponds with
  | @critic run' prepared' approved' cluster' _ _ proposal' findings recordingHash approval listed
      filed proposed recorded admitted =>
    have hkey := key_of_registered hX.separated hfiled.registered filed.registered hfiled.key
      filed.key
    have hin := messages_of_registered hfiled.registered
    have hin' := messages_of_registered filed.registered
    unfold criticRegistration at hkey hin hin'
    simp only [List.forall_mem_cons] at hin hin'
    have hsealed := h.proposed hX.separated hp
    have hsealed' := h.proposed hX.separated proposed
    obtain ⟨rfl, hid, hhash⟩ := hsealed.unique hX.separated hsealed' hin.2.1 hin'.2.1
      (ContentHash.hex_injective (source_of_key hkey))
    have hsame := h.same hX approval hap hhash.symm
    obtain ⟨row, hrow, -, hobject⟩ := hap.row
    -- the cluster is the one with its identity in the taxonomy
    obtain rfl : cluster' = cluster :=
      List.inj_on_of_nodup_map (h.approvals row hrow approved hobject).taxonomy.nodup
        (hsame.clusters ▸ listed) hlisted hid.symm
    have hreport := (@valid_seal_iff X approved' cluster' proposal findings recordingHash
      hsealed.clusterId).mpr admitted
    rw [clusterDocuments_congr hsame.documents] at hreport
    exact ⟨hsame.valid (h.proposal_valid hX approval proposed), hreport⟩

/-! ### Complete tasks -/

/-- The response of the task is valid for the taxonomy and the cluster it was filed for. -/
inductive ResponseValid (X : Externals) (b : Ledger) (task : TaskDefinition) : Object → Prop
  /-- The response of another stage. -/
  | bytes (bytes : Bytes) : ResponseValid X b task (.bytes bytes)
  | value (value : Value) : ResponseValid X b task (.value value)
  | taxonomy (output : TaxonomyTaskOutput) : ResponseValid X b task (.taxonomyOutput output)
  | proposal {run : RunRecord} {prepared : PreparedCorpus X} {approved : ApprovedTaxonomy}
      {cluster : TaxonomyCluster} {name : String} {profile : ProviderProfile}
      {regeneration : Option ClusterRegenerationRequest} {proposal : SynthesisProposal}
      (approval : Approved b prepared.corpus approved)
      (listed : cluster ∈ approved.taxonomy.clusters)
      (filed : Filed X b run (synthesisRegistration X run approved cluster name profile
        prepared.blockTexts regeneration) task)
      (valid : ValidProposal X approved.corpus approved.taxonomy cluster proposal) :
      ResponseValid X b task (.proposal proposal)
  | output {run : RunRecord} {prepared : PreparedCorpus X} {approved : ApprovedTaxonomy}
      {cluster : TaxonomyCluster} {name : String} {profile : ProviderProfile}
      {output : ClusterTaskOutput} (approval : Approved b prepared.corpus approved)
      (listed : cluster ∈ approved.taxonomy.clusters)
      (filed : Filed X b run (criticRegistration X run approved cluster name profile
        prepared.corpus prepared.blockTexts output.proposal) task)
      (valid : output.Valid X approved cluster) : ResponseValid X b task (.clusterOutput output)

/-- Every complete task holds a valid response. -/
def Ledger.Validated (X : Externals) (b : Ledger) : Prop :=
  ∀ task ∈ b.journal.tasks, ∀ response, b.journal.Responds task.taskId response →
    ResponseValid X b task response

theorem Sound.validated (h : Sound X keepingDrafts b) (hX : b.Discerning X) : b.Validated X := by
  intro task htask response hresponds
  cases h.toBacked.responds htask hresponds with
  | bytes bytes => exact .bytes bytes
  | value value => exact .value value
  | organizer sealed recorded => exact .taxonomy _
  | synthesis approval listed filed recorded admitted =>
    exact .proposal approval listed filed (valid_toProposal_iff.mpr admitted)
  | @critic run prepared approved cluster name profile proposal findings recordingHash approval
      listed filed proposed recorded admitted =>
    exact .output approval listed filed ⟨h.proposal_valid hX approval proposed,
      valid_seal_iff (h.proposed hX.separated proposed).clusterId |>.mpr admitted⟩

end

/-! ## A call that meets no stored task -/

section

variable {X : Externals} {approved approved' : ApprovedTaxonomy}
  {cluster cluster' : TaxonomyCluster}

/-- What is sealed of two drafts is valid iff both keep the rules. -/
theorem valid_sealed_iff {draft : SynthesisDraft} {findings : List CriticFinding} {revision : Nat}
    {synthesisHash criticHash : ContentHash} {proposal : SynthesisProposal}
    (hproposal : proposal = draft.toProposal X cluster.clusterId approved.taxonomy.taxonomyHash
      revision synthesisHash) :
    ClusterTaskOutput.Valid X approved cluster ⟨proposal, .seal X cluster.clusterId
      proposal.proposalHash findings criticHash⟩ ↔
      draft.Keeps approved cluster ∧ KeepsFindings approved cluster findings := by
  subst hproposal
  exact ⟨fun h => ⟨valid_toProposal_iff.mp h.proposal, (valid_seal_iff rfl).mp h.report⟩,
    fun h => ⟨valid_toProposal_iff.mpr h.1, (valid_seal_iff rfl).mpr h.2⟩⟩

/-- The draft that keeps every target as it is. -/
def SynthesisDraft.verbatim (targets : List DispositionTarget) : SynthesisDraft where
  sections := []
  relatedLinks := []
  dispositions := targets.map fun t =>
    ⟨t.kind, t.documentId, t.targetId, t.contentHash, .preservedVerbatim, ""⟩
  contradictions := []

theorem keeps_verbatim_iff {targets : List DispositionTarget} :
    (SynthesisDraft.verbatim targets).Keeps approved cluster ↔ targets.Nodup ∧
      ∀ t, t ∈ targets ↔ t ∈ expectedTargets (Core.clusterDocuments approved.corpus cluster) := by
  have htargets : (SynthesisDraft.verbatim targets).dispositions.map
      (fun d => d.toDisposition.target) = targets := by
    unfold SynthesisDraft.verbatim
    rw [List.map_map]
    exact List.map_id _
  have hkept : ∀ d ∈ (SynthesisDraft.verbatim targets).dispositions,
      d.disposition = .preservedVerbatim := List.forall_mem_map.mpr fun _ _ => rfl
  constructor
  · intro h
    exact ⟨htargets ▸ h.distinct, htargets ▸ h.targets⟩
  · rintro ⟨hnodup, hmem⟩
    exact
      { distinct := htargets.symm ▸ hnodup
        targets := htargets.symm ▸ hmem
        rationale := fun d hd homit => absurd ((hkept d hd).symm.trans homit) (by decide)
        sectionIds := List.nodup_nil
        sections := fun _ h => absurd h List.not_mem_nil
        integrated := fun d hd _ hi => absurd ((hkept d hd).symm.trans hi) (by decide)
        links := fun _ h => absurd h List.not_mem_nil
        contradictionIds := List.nodup_nil
        contradictions := fun _ h => absurd h List.not_mem_nil }

/-! ### What a request shows -/

def sourceTargets (d : IntegrationDocument) : List DispositionTarget :=
  d.blocks.map (.ofBlock d.documentId) ++ d.metadata.map (.ofMetadata d.documentId)

/-- What one reading of an item determines, the readings of a list determine. -/
theorem map_determines {α β γ δ : Type} {f : α → γ} {f' : β → γ} {g : α → δ} {g' : β → δ}
    (h : ∀ a b, f a = f' b → g a = g' b) {l : List α} {l' : List β}
    (hl : l.map f = l'.map f') : l.map g = l'.map g' := by
  induction l generalizing l' with
  | nil => rw [List.map_eq_nil_iff.mp hl.symm, List.map_nil, List.map_nil]
  | cons a l ih =>
    obtain ⟨b, rest, rfl, hb, hrest⟩ := List.map_eq_cons_iff.mp hl.symm
    rw [List.map_cons, List.map_cons, h a b hb.symm, ih hrest.symm]

theorem targets_of_sourceInput {texts texts' : BlockTextMap} {d d' : IntegrationDocument}
    (h : sourceInput texts d = sourceInput texts' d') :
    (d.documentId, sourceTargets d) = (d'.documentId, sourceTargets d') := by
  have hfields := Value.object_inj (by simp) (by simp) h
  simp only [List.cons.injEq, Prod.mk.injEq, true_and, and_true, DocumentId.toValue_inj] at hfields
  obtain ⟨hid, -, -, -, hblocks, hmetadata⟩ := hfields
  have htargets : d.blocks.map (DispositionTarget.ofBlock d.documentId) =
      d'.blocks.map (DispositionTarget.ofBlock d'.documentId) := by
    refine map_determines (fun b b' hb => ?_) (Value.arr_injective hblocks)
    have hshown := Value.object_inj (by simp) (by simp) hb
    simp only [List.cons.injEq, Prod.mk.injEq, true_and, BlockId.toValue_inj,
      ContentHash.toValue_inj] at hshown
    unfold DispositionTarget.ofBlock
    rw [hid, hshown.1, hshown.2.1]
  unfold sourceTargets
  rw [htargets, (arrMap_inj MetadataValue.toValue_inj).mp hmetadata, hid]

theorem expectedTargets_clusterDocuments (approved : ApprovedTaxonomy) (cluster : TaxonomyCluster) :
    expectedTargets (Core.clusterDocuments approved.corpus cluster) =
      (collect ((clusterDocuments approved cluster).map fun d =>
        (d.documentId, sourceTargets d))).flatMap Prod.snd := by
  have hmap : (clusterDocuments approved cluster).map (fun d =>
      (d.documentId, sourceTargets d)) =
      ((clusterDocuments approved cluster).map fun d => (d.documentId, d)).map fun e =>
        (e.1, sourceTargets e.2) := by
    rw [List.map_map]
    rfl
  rw [hmap, ← collect_map, List.flatMap_map]
  rfl

/-- **A request for a synthesis shows every target**: what it lists determines what is expected. -/
theorem targets_of_synthesisRequest {run run' : RunRecord} {texts texts' : BlockTextMap}
    {regeneration regeneration' : Option ClusterRegenerationRequest}
    (h : synthesisRequest run approved cluster texts regeneration =
      synthesisRequest run' approved' cluster' texts' regeneration') :
    expectedTargets (Core.clusterDocuments approved.corpus cluster) =
      expectedTargets (Core.clusterDocuments approved'.corpus cluster') := by
  have hfields := Value.object_inj (by simp) (by simp)
    (congrArg StructuredGenerationRequest.input h)
  simp only [List.cons.injEq, Prod.mk.injEq, true_and] at hfields
  obtain ⟨-, -, hsources, -⟩ := hfields
  rw [expectedTargets_clusterDocuments, expectedTargets_clusterDocuments,
    map_determines (fun _ _ => targets_of_sourceInput) (Value.arr_injective hsources)]

end

/-! ### A project with an approved taxonomy -/

/-- A hash that keeps the domain of its input, and a byte where two keys and a byte where two tasks
of a run differ. -/
def letterHash (m : Bytes) : ContentHash :=
  ⟨(m.take 15 ++ (m.drop (m.length - 32)).take 1 ++ (m.drop 33).take 1 ++
    List.replicate 32 0).take 32, by simp; omega⟩

theorem take_letterHash {m : Bytes} (h : 15 ≤ m.length) :
    (letterHash m).bytes.take 15 = m.take 15 := by
  unfold letterHash
  rw [List.take_take, List.append_assoc, List.append_assoc]
  exact (List.take_append_of_le_length (by rw [List.length_take]; omega)).trans (by simp)

theorem domain_letterHash {domain : String} (h : 15 ≤ (utf8 domain).length) (rest : Bytes) :
    (letterHash (utf8 domain ++ rest)).bytes.take 15 = (utf8 domain).take 15 := by
  rw [take_letterHash (by rw [List.length_append]; omega), List.take_append_of_le_length h]

theorem letterHash_late {m : Bytes} (h : 34 ≤ m.length) :
    (letterHash m).bytes[15]? = m[m.length - 32]? := by
  have hlen : (m.take 15).length = 15 := by
    rw [List.length_take]
    omega
  unfold letterHash
  rw [List.getElem?_take_of_lt (by omega), List.append_assoc, List.append_assoc,
    List.getElem?_append_right (by omega), hlen, List.getElem?_append_left (by simp; omega)]
  simp

theorem letterHash_early {m : Bytes} (h : 34 ≤ m.length) : (letterHash m).bytes[16]? = m[33]? := by
  have hlen : (m.take 15 ++ (m.drop (m.length - 32)).take 1).length = 16 := by
    simp
    omega
  unfold letterHash
  rw [List.getElem?_take_of_lt (by omega), List.append_assoc,
    List.getElem?_append_right (by omega), hlen, List.getElem?_append_left (by simp; omega)]
  simp

theorem compact_obj_cons (k v : String) (es : List (String × Json)) :
    compact (.obj ((k, .str v) :: es)) =
      '{' :: (quote k ++ ':' :: (quote v ++ (compactEntries false es ++ ['}']))) := by
  simp [compact, compactEntries, comma]

/-- The first letter of a key's stage. -/
theorem key_letter (key : TaskCacheKey) : key.message[33]? =
    (utf8 (String.ofList (quote key.stage.asStr)))[1]? := by
  obtain ⟨rest, hcompact⟩ : ∃ rest, compact key.toJson =
      "\x7b\"stage\":".toList ++ (quote key.stage.asStr ++ rest) := by
    have hname : quote "stage" = "\"stage\"".toList := by decide
    unfold TaskCacheKey.toJson
    rw [compact_obj_cons, hname]
    exact ⟨_, rfl⟩
  have hvec : ∃ tail, toVec key.toJson = utf8 "\x7b\"stage\":" ++
      (utf8 (String.ofList (quote key.stage.asStr)) ++ tail) := by
    refine ⟨utf8 (String.ofList rest), ?_⟩
    unfold toVec
    rw [hcompact, String.ofList_append, String.ofList_append, String.ofList_toList, utf8_append,
      utf8_append]
  obtain ⟨tail, hvec⟩ := hvec
  have hdomain : (utf8 "okc:ai-task:v3\x00").length = 15 := by decide
  have hstart : (utf8 "\x7b\"stage\":").length = 9 := by decide
  have hquote : 1 < (utf8 (String.ofList (quote key.stage.asStr))).length := by
    cases key.stage <;> decide
  have hbytes (n : Nat) : (lengthBytes n).length = 8 := length_lengthBytes n
  unfold TaskCacheKey.message digestInput
  simp only [List.flatMap_cons, List.flatMap_nil, List.append_nil]
  rw [List.getElem?_append_right (by omega), hdomain, List.getElem?_append_right (by simp), hbytes,
    hvec, List.getElem?_append_right (by omega), hstart, List.getElem?_append_left hquote]

theorem getElem?_pairs {α β : Type} (f g : α → β) (l : List α) (i : Nat) :
    (l.flatMap fun a => [f a, g a])[2 * i]? = l[i]?.map f := by
  induction l generalizing i with
  | nil => rfl
  | cons a l ih =>
    cases i with
    | zero => rfl
    | succ i => exact ih i

/-- The digit of a hash that is thirty-two from the end of a task's message. -/
theorem task_digit (runId : String) (hash : ContentHash) :
    let m := digestInput "okc:task:v3\x00" [utf8 runId, utf8 hash.hex]
    34 ≤ m.length ∧ m[m.length - 32]? = hash.bytes[16]?.map fun b => hexByte (b.toNat / 16) := by
  have hlen : (utf8 hash.hex).length = 64 := by
    rw [length_utf8]
    exact hash.len_hex
  intro m
  have hm : ∃ front, m = front ++ utf8 hash.hex := by
    refine ⟨utf8 "okc:task:v3\x00" ++ (lengthBytes (utf8 runId).length ++ utf8 runId) ++
      lengthBytes (utf8 hash.hex).length, ?_⟩
    show digestInput _ _ = _
    unfold digestInput
    simp only [List.flatMap_cons, List.flatMap_nil, List.append_nil, List.append_assoc]
  obtain ⟨front, hm⟩ := hm
  rw [hm, List.length_append, hlen]
  refine ⟨by omega, ?_⟩
  rw [List.getElem?_append_right (by omega)]
  have hindex : front.length + 64 - 32 - front.length = 2 * 16 := by omega
  rw [hindex, ContentHash.hex, utf8_hex]
  exact getElem?_pairs _ _ _ 16

theorem letterHash_key (key : TaskCacheKey) :
    34 ≤ key.message.length ∧ (letterHash key.message).bytes[16]? =
      (utf8 (String.ofList (quote key.stage.asStr)))[1]? := by
  have hquote : 1 < (utf8 (String.ofList (quote key.stage.asStr))).length := by
    cases key.stage <;> decide
  have hsome : key.message[33]?.isSome := by
    rw [key_letter, List.getElem?_eq_getElem hquote]
    rfl
  have hlen : 34 ≤ key.message.length := by
    rw [isSome_getElem?] at hsome
    exact hsome
  exact ⟨hlen, (letterHash_early hlen).trans (key_letter key)⟩

/-- Behind a complete critic's task is the complete task of its proposal. -/
theorem Completion.proposal {X : Externals} {G : Drafts} {b : Ledger} {task : TaskDefinition}
    {output : ClusterTaskOutput} (h : Completion X G b task (.clusterOutput output)) :
    ∃ other ∈ b.journal.tasks, b.journal.Responds other.taskId (.proposal output.proposal) := by
  cases h with
  | critic approval listed filed proposed recorded admitted =>
    cases proposed with
    | mk name profile regeneration other filed responds => exact ⟨other, filed.stored, responds⟩

namespace Drafted

/-- The hash function keeps the two tasks of the run apart. -/
abbrev externals : Externals := plainExternals letterHash

def prepared : PreparedCorpus externals :=
  .ofValid (bulkCorpus_valid letterHash Nat.one_pos (by decide))

def run : RunRecord := bulkRun externals

def approved : ApprovedTaxonomy := bulkApproved externals 1

def cluster : TaxonomyCluster := bulkCluster 1

def request : StructuredGenerationRequest :=
  synthesisRequest run approved cluster prepared.blockTexts none

def response : StructuredGenerationResponse := ⟨.null, .null, "", "", "stop", .null⟩

/-- A provider on this machine that answers the one request for a synthesis, and every critic. -/
def client : Client where
  capabilities := ⟨3, .local⟩
  embed _ := .error .refusal
  generateStructured asked :=
    if asked = request ∨ asked.role = .critic then .ok response else .error .refusal

/-- Every answer reads as this draft, or as a report without findings. -/
def environment (draft : SynthesisDraft) : Environment externals where
  build _ := .ok prepared
  config := .ok ⟨[("default", defaultProfile)]⟩
  client _ := .ok client
  dataBoundary _ := .local
  similarity := offline.similarity
  organizerDraft _ := .ok []
  synthesisDraft _ := .ok draft
  criticDraft _ := .ok []

def taxonomyRow : ApprovalRow :=
  ⟨run.runId, "taxonomy", "taxonomy", approved.taxonomy.taxonomyHash.hex,
    .approvedTaxonomy approved⟩

/-- One run, and its approved taxonomy. -/
def journal : Journal := { Journal.empty with runs := [run], approvals := [taxonomyRow] }

theorem journal_intact : journal.Intact := by
  constructor <;> simp [journal, Journal.empty, Journal.HasRun, taxonomyRow]

def session : Session := ⟨⟨0, journal, journal_intact, plainManifest, plainManifest⟩, []⟩

def first : Registration :=
  synthesisRegistration externals run approved cluster "default" defaultProfile prepared.blockTexts
    none

def proposal (draft : SynthesisDraft) : SynthesisProposal :=
  draft.toProposal externals cluster.clusterId approved.taxonomy.taxonomyHash 1
    (exchangeHash externals request response)

def second (draft : SynthesisDraft) : Registration :=
  criticRegistration externals run approved cluster "default" defaultProfile prepared.corpus
    prepared.blockTexts (proposal draft)

def output (draft : SynthesisDraft) : ClusterTaskOutput :=
  ⟨proposal draft, .seal externals cluster.clusterId (proposal draft).proposalHash []
    (exchangeHash externals
      (criticRequest run approved cluster prepared.blockTexts (proposal draft)) response)⟩

variable {draft : SynthesisDraft}

theorem providerTaskKey_hash {stage : TaskStage} {prompt schema : Bytes} {source : ContentHash} :
    (providerTaskKey externals stage prompt schema source.hex "default" defaultProfile).hash
      externals = .ok (letterHash (providerTaskKey externals stage prompt schema source.hex "default"
        defaultProfile).message).hex := by
  refine hash_of_identified rfl rfl rfl rfl ?_
  simp only [List.mem_cons, List.not_mem_nil, or_false]
  rintro p (rfl | rfl | rfl)
  · exact (by decide : validateIdentifier "provider" "default" = .ok ())
  · exact (by decide : validateIdentifier "model" "m" = .ok ())
  · exact (by decide : validateIdentifier "adapter" productVersion = .ok ())

theorem first_hash : first.key.hash externals = .ok (letterHash first.key.message).hex :=
  providerTaskKey_hash

theorem second_hash :
    (second draft).key.hash externals = .ok (letterHash (second draft).key.message).hex :=
  providerTaskKey_hash

theorem letter_first : (letterHash first.key.message).bytes[16]? = some 115 :=
  (letterHash_key _).2.trans (by decide : (utf8 (String.ofList (quote "synthesis")))[1]? = some 115)

theorem letter_second : (letterHash (second draft).key.message).bytes[16]? = some 99 :=
  (letterHash_key _).2.trans (by decide : (utf8 (String.ofList (quote "critic")))[1]? = some 99)

theorem hash_ne :
    (letterHash (second draft).key.message).hex ≠ (letterHash first.key.message).hex := by
  intro h
  have hbytes := congrArg (fun c : ContentHash => c.bytes[16]?) (ContentHash.hex_injective h)
  exact absurd (letter_second.symm.trans (hbytes.trans letter_first)) (by decide)

theorem taskId_ne :
    ((second draft).task externals run (letterHash (second draft).key.message).hex).taskId ≠
      (first.task externals run (letterHash first.key.message).hex).taskId := by
  intro h
  have hhash := ContentHash.hex_injective (String.append_right_inj _ |>.mp h)
  have hbytes := congrArg (fun c : ContentHash => c.bytes[15]?) hhash
  obtain ⟨hlen, hdigit⟩ := task_digit run.runId (letterHash first.key.message)
  obtain ⟨hlen', hdigit'⟩ := task_digit run.runId (letterHash (second draft).key.message)
  have hfirst := (letterHash_late hlen).trans hdigit
  have hsecond := (letterHash_late hlen').trans hdigit'
  rw [letter_first] at hfirst
  rw [letter_second] at hsecond
  exact absurd (hsecond.symm.trans (hbytes.trans hfirst)) (by decide)

/-- The ledger with both tasks. -/
def filed (draft : SynthesisDraft) : Ledger :=
  (session.filed.file externals run first (letterHash first.key.message).hex).file externals run
    (second draft) (letterHash (second draft).key.message).hex

theorem grants {role : AiRole} {disclosed : List DocumentId} {asked : StructuredGenerationRequest}
    (h : asked = request ∨ asked.role = .critic) :
    (environment draft).Grants ⟨[], []⟩ false false role "default" disclosed asked response :=
  ⟨client, ⟨"default", role, .local⟩, rfl, by
    simp [SensitiveScan.authorize, authorizeDisclosure, client, reject], if_pos h⟩

/-- **The call returns what is sealed of the draft.** -/
theorem yields_call (draft : SynthesisDraft) : Yields session.filed (filed draft)
    (runClusterTasks externals noFaults (environment draft) run ⟨[], []⟩ false false .initial
      ⟨[("default", defaultProfile)]⟩ prepared approved cluster) (output draft) := by
  have hrun : session.filed.journal.HasRun run.runId := List.mem_singleton_self _
  have hfirst : Unregistered externals session.filed run first
      (letterHash first.key.message).hex :=
    ⟨first_hash, List.not_mem_nil, List.not_mem_nil⟩
  have hsecond : Unregistered externals
      (session.filed.file externals run first (letterHash first.key.message).hex) run (second draft)
      (letterHash (second draft).key.message).hex := by
    refine ⟨second_hash, fun h => taskId_ne (List.mem_singleton.mp h), fun h => ?_⟩
    exact hash_ne (Prod.mk.inj (List.mem_singleton.mp h)).2
  exact yields_runClusterTasks hrun rfl rfl rfl hfirst (grants (.inl rfl)) rfl rfl hsecond
    (grants (.inr rfl)) rfl

/-! ### What the ledger is -/

theorem approval : Approved session.ledger prepared.corpus approved :=
  ⟨⟨taxonomyRow, List.mem_singleton_self _, rfl, rfl⟩, rfl⟩

theorem listed : cluster ∈ approved.taxonomy.clusters := List.mem_singleton_self _

theorem session_sound (G : Drafts) : Sound externals G session.ledger where
  intact := journal_intact
  completion _ he := absurd he List.not_mem_nil
  approvals row hrow found hobject := by
    obtain rfl := List.mem_singleton.mp hrow
    obtain rfl := Object.approvedTaxonomy.inj hobject
    exact ⟨prepared.valid, bulkTaxonomy_valid letterHash Nat.one_pos (by decide)⟩
  registers _ hp := absurd hp List.not_mem_nil
  tasks _ ht := absurd ht List.not_mem_nil

/-- Everything that is hashed for the two registrations. -/
def messages (draft : SynthesisDraft) : List Bytes :=
  [optionsMessage defaultProfile, utf8 synthesisDomain ++ request.input.canonicalJson,
    proposalMessage (proposal draft), taxonomyMessage approved.taxonomy,
    corpusMessage approved.corpus]

theorem nodup_domains (draft : SynthesisDraft) (key : TaskCacheKey) :
    ((key.message :: messages draft).map letterHash).Nodup := by
  refine List.Nodup.of_map (fun c : ContentHash => c.bytes.take 15) ?_
  have hdomains : ((key.message :: messages draft).map letterHash).map
      (fun c : ContentHash => c.bytes.take 15) =
      ["okc:ai-task:v3\x00", optionsDomain, synthesisDomain, "okc:synthesis-proposal:v3\x00",
        "okc:taxonomy:v3\x00", "okc:integration-corpus:v3\x00"].map
        fun domain => (utf8 domain).take 15 := by
    unfold messages
    simp only [List.map_cons, List.map_nil]
    rw [TaskCacheKey.message, digestInput, optionsMessage, proposalMessage, taxonomyMessage,
      corpusMessage, hashInput, hashInput, hashInput, domain_letterHash (by decide),
      domain_letterHash (by decide), domain_letterHash (by decide), domain_letterHash (by decide),
      domain_letterHash (by decide), domain_letterHash (by decide)]
  rw [hdomains]
  decide

/-- The hash function separates the messages. -/
theorem injOn_messages (draft : SynthesisDraft) : externals.NoCollisions
    {m | m ∈ first.key.message :: (second draft).key.message :: messages draft} := by
  refine List.inj_on_of_nodup_map ?_
  obtain ⟨hfirst, hrest⟩ := List.nodup_cons.mp (nodup_domains draft first.key)
  rw [List.map_cons, List.map_cons, List.nodup_cons, List.mem_cons, not_or]
  refine ⟨⟨fun h => hash_ne (congrArg ContentHash.hex h.symm), hfirst⟩, nodup_domains _ _⟩

theorem discerning {t : Session} (h : t.filed = filed draft) :
    t.ledger.Discerning externals := by
  have hregistered : t.registered = [(run, first), (run, second draft)] :=
    congrArg Ledger.registered h
  have happrovals : t.project.journal.approvals = [taxonomyRow] :=
    congrArg (fun b : Ledger => b.journal.approvals) h
  refine Set.InjOn.mono (fun m hm => ?_) (injOn_messages draft)
  have hmessages : ∀ {n}, n ∈ messages draft →
      n ∈ first.key.message :: (second draft).key.message :: messages draft := fun h =>
    List.mem_cons_of_mem _ (List.mem_cons_of_mem _ h)
  rcases hm with ⟨p, hp, hm⟩ | ⟨row, hrow, found, hobject, hm⟩
  · rw [Session.ledger, hregistered] at hp
    rcases List.mem_pair.mp hp with rfl | rfl
    · rcases hm with rfl | hm
      · exact List.mem_cons_self
      · have hin : m ∈ [optionsMessage defaultProfile,
          utf8 synthesisDomain ++ request.input.canonicalJson] := hm
        rcases List.mem_pair.mp hin with rfl | rfl <;>
          exact hmessages (by simp only [messages, List.mem_cons, true_or, or_true])
    · rcases hm with rfl | hm
      · exact List.mem_cons_of_mem _ List.mem_cons_self
      · have hin : m ∈ [optionsMessage defaultProfile, proposalMessage (proposal draft),
          taxonomyMessage approved.taxonomy, corpusMessage approved.corpus,
          corpusMessage approved.corpus] := hm
        simp only [List.mem_cons, List.not_mem_nil, or_false] at hin
        rcases hin with rfl | rfl | rfl | rfl | rfl <;>
          exact hmessages (by simp only [messages, List.mem_cons, true_or, or_true])
  · rw [Session.ledger, happrovals] at hrow
    obtain rfl := List.mem_singleton.mp hrow
    obtain rfl := Object.approvedTaxonomy.inj hobject
    rcases hm with rfl | rfl <;>
      exact hmessages (by simp only [messages, List.mem_cons, true_or, or_true])

/-- The draft that keeps every target. -/
def keeping : SynthesisDraft := .verbatim ((List.range 1).flatMap (bulkTargets externals))

theorem mem_keeping {t : DispositionTarget} :
    t ∈ (List.range 1).flatMap (bulkTargets externals) ↔
      t ∈ expectedTargets (Core.clusterDocuments approved.corpus cluster) :=
  mem_bulkTargets letterHash Nat.one_pos (by decide)

/-- The provider answers only where the draft keeps the rules. -/
theorem admits_keeping : (environment keeping).Admits keepingDrafts where
  synthesis asker approved' cluster' texts regeneration name answer draft hanswers hdraft := by
    obtain rfl := Except.ok.inj hdraft
    obtain ⟨client', response', hclient, hresponse, -⟩ := hanswers
    obtain rfl := Except.ok.inj hclient
    have hasked : synthesisRequest asker approved' cluster' texts regeneration = request := by
      by_contra hne
      have hrefused : client.generateStructured
          (synthesisRequest asker approved' cluster' texts regeneration) = .error .refusal :=
        if_neg (not_or.mpr ⟨hne, fun h => by cases h⟩)
      rw [hrefused] at hresponse
      cases hresponse
    refine keeps_verbatim_iff.mpr ⟨nodup_bulkTargets letterHash (by decide), fun t => ?_⟩
    rw [targets_of_synthesisRequest hasked]
    exact mem_keeping
  critic asker approved' cluster' texts proposed name answer drafted hanswers hdraft := by
    obtain rfl := Except.ok.inj hdraft
    exact ⟨List.nodup_nil, fun _ h => absurd h List.not_mem_nil⟩

end Drafted

/-! ## Every call -/

/-- **Outputs are valid as far as the drafts are**: in a history of services whose providers' drafts
all keep the rules, every complete task holds a valid response. Where `run_cluster_tasks` is then
called with such providers, for a recorded taxonomy and one of its clusters, what it returns is
valid for them, whichever call stored it, and so is every response it leaves. -/
theorem clusterOutputs_valid {X : Externals} {faults : Faults} {first s : Session}
    (hfirst : Sound X keepingDrafts first.ledger)
    (h : Reaches (Session.step X faults) (fun _ op => op.Serves keepingDrafts) first s) :
    (s.ledger.Discerning X → s.ledger.Validated X) ∧
    ∀ (faults' : Faults) (env : Environment X) (run : RunRecord) (findings : SensitiveScan)
      (allowRemoteProvider confirmed : Bool) (routes : AiRouteConfig) (config : ProviderConfig)
      (prepared : PreparedCorpus X) (approved : ApprovedTaxonomy) (cluster : TaxonomyCluster)
      (result : Except AppError ClusterTaskOutput) (t : Session),
      env.Admits keepingDrafts → Approved s.ledger prepared.corpus approved →
      cluster ∈ approved.taxonomy.clusters →
      runClusterTasks X faults' env run findings allowRemoteProvider confirmed routes config
        prepared approved cluster s = (result, t) →
      t.ledger.Discerning X →
      (∀ output, result = .ok output → output.Valid X approved cluster) ∧ t.ledger.Validated X := by
  have hsound := sound_of_moved hfirst (moved_of_reaches h)
  refine ⟨fun hX => hsound.validated hX, ?_⟩
  intro faults' env run findings allowRemoteProvider confirmed routes config prepared approved
    cluster result t henv hap hlisted hcall hX
  have htrue : Stable fun _ => True := fun _ _ _ h => h
  have hwrites := @writes_runClusterTasks X keepingDrafts faults' (fun _ => True) env run findings
    allowRemoteProvider confirmed prepared approved cluster htrue henv hlisted routes config
  have hmoves := hwrites.moves (s := s) ⟨hap, trivial⟩
  rw [hcall] at hmoves
  have hsound' := sound_of_moved hsound hmoves
  refine ⟨fun output houtput => ?_, hsound'.validated hX⟩
  subst houtput
  obtain ⟨⟨name, profile, proposal, task, hproposed, hfiled, hresponds⟩, hap', -⟩ :=
    hwrites.ok (s := s) ⟨hap, trivial⟩ hcall
  exact hsound'.output_valid hX hap' hlisted hproposed hfiled hresponds

/-- The theorem at work: a call with a draft that keeps every target. -/
theorem clusterOutputs_valid_kept : ∃ t, runClusterTasks Drafted.externals noFaults
      (Drafted.environment Drafted.keeping) Drafted.run ⟨[], []⟩ false false .initial
      ⟨[("default", defaultProfile)]⟩ Drafted.prepared Drafted.approved Drafted.cluster
      Drafted.session = (.ok (Drafted.output Drafted.keeping), t) ∧
    (Drafted.output Drafted.keeping).Valid Drafted.externals Drafted.approved Drafted.cluster ∧
    t.ledger.Validated Drafted.externals := by
  obtain ⟨output, t, hcall, rfl, hfiled⟩ :=
    (Drafted.yields_call Drafted.keeping).run Drafted.session rfl
  have hfirst := Drafted.session_sound keepingDrafts
  obtain ⟨houtput, hvalidated⟩ := (@clusterOutputs_valid _ noFaults _ _ hfirst .refl).2 noFaults _ _
    _ _ _ _ _ _ _ _ _ _ Drafted.admits_keeping Drafted.approval Drafted.listed hcall
    (Drafted.discerning hfiled)
  exact ⟨t, hcall, houtput _ rfl, hvalidated⟩

/-- **An empty draft is stored and returned**: nothing checks it before `complete_task`. -/
theorem empty_draft_stored : ∃ t, runClusterTasks Drafted.externals noFaults
      (Drafted.environment (.verbatim [])) Drafted.run ⟨[], []⟩ false false .initial
      ⟨[("default", defaultProfile)]⟩ Drafted.prepared Drafted.approved Drafted.cluster
      Drafted.session = (.ok (Drafted.output (.verbatim [])), t) ∧
    (∃ task ∈ t.project.journal.tasks, t.project.journal.Responds task.taskId
      (.proposal (Drafted.output (.verbatim [])).proposal)) ∧
    (∃ task ∈ t.project.journal.tasks, t.project.journal.Responds task.taskId
      (.clusterOutput (Drafted.output (.verbatim [])))) ∧
    ¬ ValidProposal Drafted.externals Drafted.approved.corpus Drafted.approved.taxonomy
      Drafted.cluster (Drafted.output (.verbatim [])).proposal := by
  obtain ⟨output, t, hcall, rfl, hfiled⟩ :=
    (Drafted.yields_call (.verbatim [])).run Drafted.session rfl
  have htrue : Stable fun _ => True := fun _ _ _ h => h
  have hwrites := @writes_runClusterTasks Drafted.externals .any noFaults (fun _ => True)
    (Drafted.environment (.verbatim [])) Drafted.run ⟨[], []⟩ false false Drafted.prepared
    Drafted.approved Drafted.cluster htrue (Environment.admits_any _) Drafted.listed .initial
    ⟨[("default", defaultProfile)]⟩
  have hmoves := hwrites.moves (s := Drafted.session) ⟨Drafted.approval, trivial⟩
  rw [hcall] at hmoves
  have hsound := sound_of_moved (Drafted.session_sound .any) hmoves
  obtain ⟨⟨name, profile, proposal, task, -, hcritic, hresponds⟩, -, -⟩ :=
    hwrites.ok (s := Drafted.session) ⟨Drafted.approval, trivial⟩ hcall
  refine ⟨t, hcall, ?_, ⟨task, hcritic.stored, hresponds⟩, fun hvalid => ?_⟩
  · exact (hsound.toBacked.responds hcritic.stored hresponds).proposal
  · have hkeeps := valid_toProposal_iff.mp hvalid
    have htarget := (keeps_verbatim_iff.mp hkeeps).2 (.ofBlock ⟨indexHash 0⟩
      (bulkBlock Drafted.externals 0))
    exact absurd (htarget.mpr (Drafted.mem_keeping.mp List.mem_cons_self)) List.not_mem_nil

end Okc.App
