import Okc.Lib.SortBy
import Okc.Core.Bulk

/-!
# Sealing in any order (`integration.rs:102-170`, `integration.rs:515-555`)

Each `seal` sorts what it is given, level by level, and validates the result, which refuses
repeated IDs. Sorting is stable, so where an ID repeats the order of the two is the one given, and
the error that is found first depends on it. What is sealed does not.

* `sortDocuments_congr`, `sortClusters_congr`: without repeated IDs every order is sorted alike.
* `untied_of_sealDocuments`, `untied_of_sealClusters`, `untied_of_sealRevisions`: what can be sealed
  repeats no ID.
* `seal_reordered`: reordering changes neither what is sealed nor, without repeated IDs, the error.
  A sealed value is sealed again as it is.
-/

namespace Okc.Core

open Okc.Lib

/-- Both seal the same value or both fail. Without ties they fail alike. -/
def Alike {α : Type} (untied : Prop) (a b : Except OkcError α) : Prop :=
  b.toOption = a.toOption ∧ (untied → b = a)

theorem alike_of {α : Type} {untied untied' : Prop} {a b : Except OkcError α}
    (h : untied → b = a) (h' : untied' → a = b) (ha : ∀ v, a = .ok v → untied)
    (hb : ∀ v, b = .ok v → untied') : Alike untied a b := by
  refine ⟨?_, h⟩
  cases hva : a with
  | ok v => rw [← hva, h (ha v hva)]
  | error e =>
    cases hvb : b with
    | ok v => rw [← hva, ← hvb, h' (hb v hvb)]
    | error e' => rfl

/-! ## Corpora -/

/-- The blocks and the metadata of a document sorted. -/
def IntegrationDocument.sortParts (d : IntegrationDocument) : IntegrationDocument :=
  { d with
    blocks := sortBy SourceBlock.blockId d.blocks
    metadata := sortBy MetadataValue.metadataId d.metadata }

theorem sortParts_sortParts (d : IntegrationDocument) : d.sortParts.sortParts = d.sortParts := by
  simp [IntegrationDocument.sortParts]

/-- The documents as `IntegrationCorpus::seal` sorts them. -/
def sortDocuments (documents : List IntegrationDocument) : List IntegrationDocument :=
  (sortBy IntegrationDocument.documentId documents).map IntegrationDocument.sortParts

/-- The corpus of sorted documents, when it is valid. -/
def sealDocuments (X : Externals) (policyHash : ContentHash)
    (documents : List IntegrationDocument) : Except OkcError IntegrationCorpus := do
  let corpus : IntegrationCorpus := {
    schemaVersion := integrationSchemaVersion
    corpusHash := X.canonicalHash "okc:integration-corpus:v3\x00" (documentsValue documents)
    policyHash := policyHash
    documents := documents }
  validateCorpus X corpus
  .ok corpus

theorem corpusSeal_eq (X : Externals) (policyHash : ContentHash)
    (documents : List IntegrationDocument) :
    IntegrationCorpus.seal X policyHash documents =
      sealDocuments X policyHash (sortDocuments documents) := rfl

/-- One document with its blocks and metadata in another order. -/
structure SameDocument (d e : IntegrationDocument) : Prop where
  sourceId : e.sourceId = d.sourceId
  documentId : e.documentId = d.documentId
  originalPath : e.originalPath = d.originalPath
  documentHash : e.documentHash = d.documentHash
  blocks : e.blocks.Perm d.blocks
  metadata : e.metadata.Perm d.metadata

theorem SameDocument.symm {d e : IntegrationDocument} (h : SameDocument d e) : SameDocument e d :=
  ⟨h.sourceId.symm, h.documentId.symm, h.originalPath.symm, h.documentHash.symm, h.blocks.symm,
    h.metadata.symm⟩

/-- Elements in another order, each perhaps another one that is the same. -/
def Reordered {α : Type} (same : α → α → Prop) (l m : List α) : Prop :=
  ∃ between, List.Forall₂ same l between ∧ m.Perm between

theorem Reordered.symm {α : Type} {same : α → α → Prop} (hsame : ∀ {a b}, same a b → same b a)
    {l m : List α} (h : Reordered same l m) : Reordered same m l := by
  obtain ⟨between, hpairs, hperm⟩ := h
  have hflip : List.Forall₂ same between l := (hpairs.imp fun _ _ => hsame).flip
  obtain ⟨other, hother, hp⟩ := List.perm_comp_forall₂ hperm hflip
  exact ⟨other, hother, hp.symm⟩

/-- No ID repeats, of the documents, of the blocks of one or of the metadata of one. -/
structure UntiedDocuments (documents : List IntegrationDocument) : Prop where
  ids : (documents.map IntegrationDocument.documentId).Nodup
  blocks : ∀ d ∈ documents, (d.blocks.map SourceBlock.blockId).Nodup
  metadata : ∀ d ∈ documents, (d.metadata.map MetadataValue.metadataId).Nodup

theorem sortParts_congr {d e : IntegrationDocument} (h : SameDocument d e)
    (hblocks : (d.blocks.map SourceBlock.blockId).Nodup)
    (hmetadata : (d.metadata.map MetadataValue.metadataId).Nodup) : e.sortParts = d.sortParts := by
  rw [IntegrationDocument.sortParts, IntegrationDocument.sortParts, h.sourceId, h.documentId,
    h.originalPath, h.documentHash, sortBy_congr_of_nodup h.blocks hblocks,
    sortBy_congr_of_nodup h.metadata hmetadata]

theorem sortDocuments_eq (documents : List IntegrationDocument) :
    sortDocuments documents =
      sortBy IntegrationDocument.documentId (documents.map IntegrationDocument.sortParts) :=
  map_sortBy (f := IntegrationDocument.sortParts) IntegrationDocument.documentId
    IntegrationDocument.documentId (fun _ => rfl) documents

/-- What maps alike on both sides maps alike along the pairs. -/
theorem map_congr_of_forall₂ {α β : Type} {same : α → α → Prop} {f : α → β} {l m : List α}
    (h : List.Forall₂ same l m) (hf : ∀ a ∈ l, ∀ b, same a b → f b = f a) :
    m.map f = l.map f := by
  induction h with
  | nil => rfl
  | @cons a b l m hab hrest ih =>
    rw [List.map_cons, List.map_cons, hf a List.mem_cons_self b hab,
      ih fun c hc => hf c (List.mem_cons_of_mem _ hc)]

/-- **Documents without repeated IDs are sorted alike in every order.** -/
theorem sortDocuments_congr {documents others : List IntegrationDocument}
    (h : Reordered SameDocument documents others) (hties : UntiedDocuments documents) :
    sortDocuments others = sortDocuments documents := by
  obtain ⟨between, hsame, hperm⟩ := h
  have hparts : between.map IntegrationDocument.sortParts =
      documents.map IntegrationDocument.sortParts :=
    map_congr_of_forall₂ hsame fun d hd _ hde =>
      sortParts_congr hde (hties.blocks d hd) (hties.metadata d hd)
  rw [sortDocuments_eq, sortDocuments_eq, ← hparts]
  refine sortBy_congr_of_nodup (hperm.map _) ?_
  rw [hparts, List.map_map]
  exact hties.ids

theorem untied_of_sealDocuments {X : Externals} {policyHash : ContentHash}
    {documents : List IntegrationDocument} {c : IntegrationCorpus}
    (h : IntegrationCorpus.seal X policyHash documents = .ok c) : UntiedDocuments documents := by
  rw [corpusSeal_eq, sealDocuments, bind_unit_eq_ok, validateCorpus_eq_ok] at h
  have hvalid := h.1
  have hsorted : ∀ d ∈ documents, ValidDocument X d.sortParts := fun d hd =>
    hvalid.document _ (List.mem_map_of_mem (mem_sortBy.mpr hd))
  have hids : (sortDocuments documents).map IntegrationDocument.documentId =
      (sortBy IntegrationDocument.documentId documents).map IntegrationDocument.documentId := by
    rw [sortDocuments, List.map_map]
    rfl
  refine ⟨?_, fun d hd => ?_, fun d hd => ?_⟩
  · have hnodup := hvalid.nodup
    rw [hids] at hnodup
    exact ((sortBy_perm _ documents).map _).nodup_iff.mp hnodup
  · have hnodup : ((sortBy SourceBlock.blockId d.blocks).map SourceBlock.blockId).Nodup :=
      (hsorted d hd).blocksSorted.imp ne_of_lt
    exact ((sortBy_perm _ d.blocks).map _).nodup_iff.mp hnodup
  · have hnodup : ((sortBy MetadataValue.metadataId d.metadata).map MetadataValue.metadataId).Nodup :=
      (hsorted d hd).metadataSorted.imp ne_of_lt
    exact ((sortBy_perm _ d.metadata).map _).nodup_iff.mp hnodup

theorem sortDocuments_sortDocuments (documents : List IntegrationDocument) :
    sortDocuments (sortDocuments documents) = sortDocuments documents := by
  rw [sortDocuments_eq documents, sortDocuments, sortBy_sortBy, ← sortDocuments_eq documents,
    sortDocuments, List.map_map]
  exact List.map_congr_left fun d _ => sortParts_sortParts d

theorem corpus_alike (X : Externals) (policyHash : ContentHash)
    {documents others : List IntegrationDocument} (h : Reordered SameDocument documents others) :
    Alike (UntiedDocuments documents) (IntegrationCorpus.seal X policyHash documents)
      (IntegrationCorpus.seal X policyHash others) := by
  refine alike_of (fun hties => ?_) (fun hties => ?_) (fun _ => untied_of_sealDocuments)
    (fun _ => untied_of_sealDocuments)
  · rw [corpusSeal_eq, corpusSeal_eq, sortDocuments_congr h hties]
  · rw [corpusSeal_eq, corpusSeal_eq, sortDocuments_congr (h.symm SameDocument.symm) hties]

theorem corpus_again {X : Externals} {policyHash : ContentHash}
    {documents : List IntegrationDocument} {c : IntegrationCorpus}
    (h : IntegrationCorpus.seal X policyHash documents = .ok c) :
    IntegrationCorpus.seal X c.policyHash c.documents = .ok c := by
  have hsealed := h
  rw [corpusSeal_eq, sealDocuments, bind_unit_eq_ok] at hsealed
  obtain ⟨-, hc⟩ := hsealed
  have hdocuments : c.documents = sortDocuments documents := by rw [← Except.ok.inj hc]
  have hpolicy : c.policyHash = policyHash := by rw [← Except.ok.inj hc]
  rw [hdocuments, hpolicy, corpusSeal_eq, sortDocuments_sortDocuments, ← corpusSeal_eq, h]

/-! ## Taxonomies -/

/-- The document IDs of a cluster sorted. -/
def TaxonomyCluster.sortParts (c : TaxonomyCluster) : TaxonomyCluster :=
  { c with documentIds := sortBy id c.documentIds }

theorem clusterSortParts_sortParts (c : TaxonomyCluster) :
    c.sortParts.sortParts = c.sortParts := by
  simp [TaxonomyCluster.sortParts]

/-- The clusters as `TaxonomyProposal::seal` sorts them. -/
def sortClusters (clusters : List TaxonomyCluster) : List TaxonomyCluster :=
  (sortBy TaxonomyCluster.clusterId clusters).map TaxonomyCluster.sortParts

/-- The proposal of sorted clusters, when it is valid. -/
def sealClusters (X : Externals) (corpus : IntegrationCorpus) (organizerRecordingHash : ContentHash)
    (clusters : List TaxonomyCluster) : Except OkcError TaxonomyProposal := do
  let proposal : TaxonomyProposal := {
    schemaVersion := integrationSchemaVersion
    corpusHash := corpus.corpusHash
    taxonomyHash := X.canonicalHash "okc:taxonomy:v3\x00"
      (taxonomyIdentity corpus.corpusHash clusters organizerRecordingHash)
    clusters := clusters
    organizerRecordingHash := organizerRecordingHash }
  validateTaxonomy X corpus proposal
  .ok proposal

theorem taxonomySeal_eq (X : Externals) (corpus : IntegrationCorpus)
    (clusters : List TaxonomyCluster) (organizerRecordingHash : ContentHash) :
    TaxonomyProposal.seal X corpus clusters organizerRecordingHash =
      sealClusters X corpus organizerRecordingHash (sortClusters clusters) := rfl

/-- One cluster with its document IDs in another order. -/
structure SameCluster (c d : TaxonomyCluster) : Prop where
  clusterId : d.clusterId = c.clusterId
  title : d.title = c.title
  canonicalPath : d.canonicalPath = c.canonicalPath
  documentIds : d.documentIds.Perm c.documentIds

theorem SameCluster.symm {c d : TaxonomyCluster} (h : SameCluster c d) : SameCluster d c :=
  ⟨h.clusterId.symm, h.title.symm, h.canonicalPath.symm, h.documentIds.symm⟩

/-- Equal document IDs are one, so that they never tie. -/
theorem clusterSortParts_congr {c d : TaxonomyCluster} (h : SameCluster c d) :
    d.sortParts = c.sortParts := by
  have hids : sortBy id d.documentIds = sortBy id c.documentIds :=
    sortBy_congr h.documentIds fun _ _ _ _ heq => heq
  rw [TaxonomyCluster.sortParts, TaxonomyCluster.sortParts, h.clusterId, h.title, h.canonicalPath,
    hids]

theorem sortClusters_eq (clusters : List TaxonomyCluster) :
    sortClusters clusters =
      sortBy TaxonomyCluster.clusterId (clusters.map TaxonomyCluster.sortParts) :=
  map_sortBy (f := TaxonomyCluster.sortParts) TaxonomyCluster.clusterId
    TaxonomyCluster.clusterId (fun _ => rfl) clusters

/-- **Clusters without repeated IDs are sorted alike in every order.** -/
theorem sortClusters_congr {clusters others : List TaxonomyCluster}
    (h : Reordered SameCluster clusters others)
    (hties : (clusters.map TaxonomyCluster.clusterId).Nodup) :
    sortClusters others = sortClusters clusters := by
  obtain ⟨between, hsame, hperm⟩ := h
  have hparts : between.map TaxonomyCluster.sortParts = clusters.map TaxonomyCluster.sortParts :=
    map_congr_of_forall₂ hsame fun _ _ _ hcd => clusterSortParts_congr hcd
  rw [sortClusters_eq, sortClusters_eq, ← hparts]
  refine sortBy_congr_of_nodup (hperm.map _) ?_
  rw [hparts, List.map_map]
  exact hties

theorem untied_of_sealClusters {X : Externals} {corpus : IntegrationCorpus}
    {clusters : List TaxonomyCluster} {recording : ContentHash} {t : TaxonomyProposal}
    (h : TaxonomyProposal.seal X corpus clusters recording = .ok t) :
    (clusters.map TaxonomyCluster.clusterId).Nodup := by
  rw [taxonomySeal_eq, sealClusters, bind_unit_eq_ok, validateTaxonomy_eq_ok] at h
  have hnodup : ((sortClusters clusters).map TaxonomyCluster.clusterId).Nodup := h.1.nodup
  rw [sortClusters, List.map_map] at hnodup
  exact ((sortBy_perm _ clusters).map _).nodup_iff.mp hnodup

theorem sortClusters_sortClusters (clusters : List TaxonomyCluster) :
    sortClusters (sortClusters clusters) = sortClusters clusters := by
  rw [sortClusters_eq clusters, sortClusters, sortBy_sortBy, ← sortClusters_eq clusters,
    sortClusters, List.map_map]
  exact List.map_congr_left fun c _ => clusterSortParts_sortParts c

theorem taxonomy_alike (X : Externals) (corpus : IntegrationCorpus) (recording : ContentHash)
    {clusters others : List TaxonomyCluster} (h : Reordered SameCluster clusters others) :
    Alike (clusters.map TaxonomyCluster.clusterId).Nodup
      (TaxonomyProposal.seal X corpus clusters recording)
      (TaxonomyProposal.seal X corpus others recording) := by
  refine alike_of (fun hties => ?_) (fun hties => ?_) (fun _ => untied_of_sealClusters)
    (fun _ => untied_of_sealClusters)
  · rw [taxonomySeal_eq, taxonomySeal_eq, sortClusters_congr h hties]
  · rw [taxonomySeal_eq, taxonomySeal_eq, sortClusters_congr (h.symm SameCluster.symm) hties]

theorem taxonomy_again {X : Externals} {corpus : IntegrationCorpus}
    {clusters : List TaxonomyCluster} {recording : ContentHash} {t : TaxonomyProposal}
    (h : TaxonomyProposal.seal X corpus clusters recording = .ok t) :
    TaxonomyProposal.seal X corpus t.clusters t.organizerRecordingHash = .ok t := by
  have hsealed := h
  rw [taxonomySeal_eq, sealClusters, bind_unit_eq_ok] at hsealed
  obtain ⟨-, ht⟩ := hsealed
  have hclusters : t.clusters = sortClusters clusters := by rw [← Except.ok.inj ht]
  have hrecording : t.organizerRecordingHash = recording := by rw [← Except.ok.inj ht]
  rw [hclusters, hrecording, taxonomySeal_eq, sortClusters_sortClusters, ← taxonomySeal_eq, h]

/-! ## Plans -/

/-- The cluster that a revision is of. -/
def ApprovedClusterRevision.clusterId (r : ApprovedClusterRevision) : String := r.proposal.clusterId

/-- The plan of sorted revisions and recordings, when it is valid. -/
def sealRevisions (X : Externals) (corpus : IntegrationCorpus) (taxonomy : TaxonomyProposal)
    (taxonomyApproval : ApprovalBinding) (clusters : List ApprovedClusterRevision)
    (recordings : List ContentHash) : Except OkcError ApprovedIntegrationPlan := do
  let identity := planIdentity corpus.corpusHash corpus.policyHash taxonomy.taxonomyHash
    taxonomyApproval clusters recordings
  let plan : ApprovedIntegrationPlan := {
    formatFamily := "okc"
    schemaVersion := integrationSchemaVersion
    integrationPlanId := expectedPlanId X identity
    corpus := corpus
    taxonomy := taxonomy
    taxonomyApproval := taxonomyApproval
    clusters := clusters
    providerRecordingHashes := recordings }
  validatePlan X plan
  .ok plan

/-- The recordings as `ApprovedIntegrationPlan::seal` sorts them. -/
def sortRecordings (recordings : List ContentHash) : List ContentHash :=
  (sortBy ContentHash.hex recordings).dedup

theorem planSeal_eq (X : Externals) (corpus : IntegrationCorpus) (taxonomy : TaxonomyProposal)
    (approval : ApprovalBinding) (revisions : List ApprovedClusterRevision)
    (recordings : List ContentHash) :
    ApprovedIntegrationPlan.seal X corpus taxonomy approval revisions recordings =
      sealRevisions X corpus taxonomy approval
        (sortBy ApprovedClusterRevision.clusterId revisions) (sortRecordings recordings) := rfl

theorem sortRecordings_sortRecordings (recordings : List ContentHash) :
    sortRecordings (sortRecordings recordings) = sortRecordings recordings := by
  have hsorted : (sortRecordings recordings).Pairwise fun a b => a.hex ≤ b.hex :=
    (pairwise_sortBy ContentHash.hex recordings).sublist (List.dedup_sublist _)
  rw [sortRecordings, sortBy_eq_self hsorted, sortRecordings, List.dedup_idem]

theorem untied_of_sealRevisions {X : Externals} {corpus : IntegrationCorpus}
    {taxonomy : TaxonomyProposal} {approval : ApprovalBinding}
    {revisions : List ApprovedClusterRevision} {recordings : List ContentHash}
    {p : ApprovedIntegrationPlan}
    (h : ApprovedIntegrationPlan.seal X corpus taxonomy approval revisions recordings = .ok p) :
    (revisions.map ApprovedClusterRevision.clusterId).Nodup := by
  rw [planSeal_eq, sealRevisions, bind_unit_eq_ok, validatePlan_eq_ok] at h
  have hnodup : ((sortBy ApprovedClusterRevision.clusterId revisions).map
      ApprovedClusterRevision.clusterId).Nodup := h.1.revisionsDistinct
  exact ((sortBy_perm _ revisions).map _).nodup_iff.mp hnodup

theorem plan_alike (X : Externals) (corpus : IntegrationCorpus) (taxonomy : TaxonomyProposal)
    (approval : ApprovalBinding) {revisions others : List ApprovedClusterRevision}
    {recordings repeated : List ContentHash} (hperm : others.Perm revisions)
    (hsame : ∀ r, r ∈ repeated ↔ r ∈ recordings) :
    Alike (revisions.map ApprovedClusterRevision.clusterId).Nodup
      (ApprovedIntegrationPlan.seal X corpus taxonomy approval revisions recordings)
      (ApprovedIntegrationPlan.seal X corpus taxonomy approval others repeated) := by
  have hrecordings : sortRecordings repeated = sortRecordings recordings :=
    dedup_sortBy_congr ContentHash.hex_injective hsame
  refine alike_of (fun hties => ?_) (fun hties => ?_) (fun _ => untied_of_sealRevisions)
    (fun _ => untied_of_sealRevisions)
  · rw [planSeal_eq, planSeal_eq, hrecordings, sortBy_congr_of_nodup hperm hties]
  · rw [planSeal_eq, planSeal_eq, hrecordings, sortBy_congr_of_nodup hperm.symm hties]

theorem plan_again {X : Externals} {corpus : IntegrationCorpus}
    {taxonomy : TaxonomyProposal} {approval : ApprovalBinding}
    {revisions : List ApprovedClusterRevision} {recordings : List ContentHash}
    {p : ApprovedIntegrationPlan}
    (h : ApprovedIntegrationPlan.seal X corpus taxonomy approval revisions recordings = .ok p) :
    ApprovedIntegrationPlan.seal X p.corpus p.taxonomy p.taxonomyApproval p.clusters
      p.providerRecordingHashes = .ok p := by
  have hsealed := h
  rw [planSeal_eq, sealRevisions, bind_unit_eq_ok] at hsealed
  obtain ⟨-, hp⟩ := hsealed
  have hplan := Except.ok.inj hp
  have hcorpus : p.corpus = corpus := by rw [← hplan]
  have htaxonomy : p.taxonomy = taxonomy := by rw [← hplan]
  have happroval : p.taxonomyApproval = approval := by rw [← hplan]
  have hclusters : p.clusters = sortBy ApprovedClusterRevision.clusterId revisions := by
    rw [← hplan]
  have hrecordings : p.providerRecordingHashes = sortRecordings recordings := by rw [← hplan]
  rw [hcorpus, htaxonomy, happroval, hclusters, hrecordings, planSeal_eq, sortBy_sortBy,
    sortRecordings_sortRecordings, ← planSeal_eq, h]

/-- **Sealing does not depend on the order of what is sealed**, and a sealed value is sealed again
as it is. -/
theorem seal_reordered (X : Externals) :
    (∀ policyHash documents others, Reordered SameDocument documents others →
      Alike (UntiedDocuments documents) (IntegrationCorpus.seal X policyHash documents)
        (IntegrationCorpus.seal X policyHash others)) ∧
    (∀ corpus recording clusters others, Reordered SameCluster clusters others →
      Alike (clusters.map TaxonomyCluster.clusterId).Nodup
        (TaxonomyProposal.seal X corpus clusters recording)
        (TaxonomyProposal.seal X corpus others recording)) ∧
    (∀ corpus taxonomy approval revisions others recordings repeated, others.Perm revisions →
      (∀ r, r ∈ repeated ↔ r ∈ recordings) →
      Alike (revisions.map ApprovedClusterRevision.clusterId).Nodup
        (ApprovedIntegrationPlan.seal X corpus taxonomy approval revisions recordings)
        (ApprovedIntegrationPlan.seal X corpus taxonomy approval others repeated)) ∧
    (∀ policyHash documents c, IntegrationCorpus.seal X policyHash documents = .ok c →
      IntegrationCorpus.seal X c.policyHash c.documents = .ok c) ∧
    (∀ corpus recording clusters t, TaxonomyProposal.seal X corpus clusters recording = .ok t →
      TaxonomyProposal.seal X corpus t.clusters t.organizerRecordingHash = .ok t) ∧
    (∀ corpus taxonomy approval revisions recordings p,
      ApprovedIntegrationPlan.seal X corpus taxonomy approval revisions recordings = .ok p →
      ApprovedIntegrationPlan.seal X p.corpus p.taxonomy p.taxonomyApproval p.clusters
        p.providerRecordingHashes = .ok p) :=
  ⟨fun policyHash _ _ h => corpus_alike X policyHash h,
    fun corpus recording _ _ h => taxonomy_alike X corpus recording h,
    fun corpus taxonomy approval _ _ _ _ hperm hsame =>
      plan_alike X corpus taxonomy approval hperm hsame,
    fun _ _ _ h => corpus_again h, fun _ _ _ _ h => taxonomy_again h,
    fun _ _ _ _ _ _ h => plan_again h⟩

/-! ## A repeated ID -/

/-- The error of a document whose path cannot be stored, when it comes first. -/
theorem sealDocuments_unsafe {X : Externals} {policyHash : ContentHash} {d : IntegrationDocument}
    {rest : List IntegrationDocument} {e : OkcError}
    (h : validateRelativePath X d.originalPath = .error e) :
    sealDocuments X policyHash (d :: rest) = .error e := by
  have hcheck : checkDocument X ⟨[], []⟩ d = .error e := by
    rw [checkDocument, reject, if_neg (by simp [NotAfter]), reject, if_neg (by simp), h]
    rfl
  simp only [sealDocuments, validateCorpus, List.foldlM_cons, hcheck, reject, ne_eq,
    not_true_eq_false, if_false, reduceCtorEq]
  rfl

/-- A document without blocks under an identity that others have too. -/
def emptyDocument (originalPath : String) : IntegrationDocument :=
  ⟨⟨"notes"⟩, ⟨indexHash 0⟩, originalPath, indexHash 0, [], []⟩

/-- The error names the document that was given first. -/
theorem error_depends_on_order :
    ¬ ∀ X policyHash documents others, Reordered SameDocument documents others →
      IntegrationCorpus.seal X policyHash others = IntegrationCorpus.seal X policyHash documents := by
  intro h
  have hsame : ∀ path, SameDocument (emptyDocument path) (emptyDocument path) := fun _ =>
    ⟨rfl, rfl, rfl, rfl, List.Perm.refl _, List.Perm.refl _⟩
  have hsorted : ∀ p q, sortDocuments [emptyDocument p, emptyDocument q] =
      [emptyDocument p, emptyDocument q] := fun p q => by
    have hnil : ∀ p, (emptyDocument p).sortParts = emptyDocument p := fun p => by
      simp [IntegrationDocument.sortParts, emptyDocument, sortBy]
    rw [sortDocuments, sortBy_eq_self (by simp [emptyDocument])]
    simp only [List.map_cons, List.map_nil, hnil]
  have hpair : Reordered SameDocument [emptyDocument ".", emptyDocument ".."]
      [emptyDocument "..", emptyDocument "."] :=
    ⟨_, .cons (hsame _) (.cons (hsame _) .nil), List.Perm.swap _ _ _⟩
  have heq := h (plainExternals prefixHash) (indexHash 0) _ _ hpair
  have hdot : validateRelativePath (plainExternals prefixHash) "." =
      .error (.unsafePath "." "empty source path") := by decide +kernel
  have hparent : validateRelativePath (plainExternals prefixHash) ".." =
      .error (.unsafePath ".." "archive path traverses a parent") := by decide +kernel
  rw [corpusSeal_eq, corpusSeal_eq, hsorted, hsorted, sealDocuments_unsafe hparent,
    sealDocuments_unsafe hdot] at heq
  exact absurd (OkcError.unsafePath.inj (Except.error.inj heq)).1 (by decide)

end Okc.Core
