import Okc.App.Backing
import Okc.App.Disclosure
import Okc.App.Admission
import Okc.App.Authority

/-!
# What a cache key determines (`integration_execution.rs:291-611`, `672-842`)

The six stages build their key and their request apart. A key hashes some text of the request and
names the profile; what it leaves out is determined by the hashes it holds.

* `Sound`: what a history of services keeps of the registrations, the tasks and the approvals.
* `Registers.determined`: two registrations of a run under one key have one request and one profile;
  one lemma for each stage.
* `cache_key_determines`: so a task that is found under a key was registered for the same request.
-/

namespace Okc.App

open Okc.Lib Okc.Core

section

variable {X : Externals} {G : Drafts}

/-! ## What a history keeps -/

/-- The taxonomy was sealed for a sealed corpus. -/
structure ApprovedTaxonomy.Sealed (X : Externals) (approved : ApprovedTaxonomy) : Prop where
  corpus : ValidCorpus X approved.corpus
  taxonomy : ValidTaxonomy X approved.corpus approved.taxonomy

structure Sound (X : Externals) (G : Drafts) (b : Ledger) : Prop extends Backed X G b where
  approvals : ∀ row ∈ b.journal.approvals, ∀ approved, row.object = .approvedTaxonomy approved →
    approved.Sealed X
  registers : ∀ p ∈ b.registered, Registers X b p.1 p.2
  tasks : ∀ task ∈ b.journal.tasks, ∃ p ∈ b.registered, p.1.runId = task.runId ∧
    p.2.key.hash X = .ok task.cacheKey ∧ task.request = p.2.request

theorem stable_registers {run : RunRecord} {r : Registration} :
    Stable fun b => Registers X b run r := by
  intro b c hle h
  cases h with
  | preflight prepared => exact .preflight prepared
  | embedding prepared name profile => exact .embedding prepared name profile
  | candidates embeddings => exact .candidates embeddings
  | organizer prepared candidates name profile => exact .organizer prepared candidates name profile
  | synthesis name profile regeneration approval listed =>
    exact .synthesis name profile regeneration (stable_approved b c hle approval) listed
  | critic name profile approval listed proposed =>
    exact .critic name profile (stable_approved b c hle approval) listed
      (stable_proposedFor b c hle proposed)

theorem valid_of_seal {corpus : IntegrationCorpus} {clusters : List TaxonomyCluster}
    {recordingHash : ContentHash} {taxonomy : TaxonomyProposal}
    (h : TaxonomyProposal.seal X corpus clusters recordingHash = .ok taxonomy) :
    ValidTaxonomy X corpus taxonomy := by
  obtain ⟨hvalid, h⟩ := bind_unit_eq_ok.mp h
  exact Except.ok.inj h ▸ validateTaxonomy_eq_ok.mp hvalid

/-- What `approve_taxonomy` records was sealed, as it was proposed or as it was edited. -/
theorem sealed_of_reviewed {task : TaskDefinition} {b : Ledger} {manifest : ProjectManifest}
    {proposed : TaxonomyTaskOutput} {editedClusters : Option (List TaxonomyCluster)}
    {rationale : Option String} {approved : ApprovedTaxonomy}
    (hbehind : Completion X G b task (.taxonomyOutput proposed))
    (h : reviewedTaxonomy X manifest proposed editedClusters rationale = .ok approved) :
    approved.Sealed X := by
  cases hbehind with
  | @organizer prepared clusters recordingHash taxonomy sealed recorded =>
    unfold reviewedTaxonomy at h
    obtain ⟨-, h⟩ := bind_unit_eq_ok.mp h
    cases editedClusters with
    | none =>
      obtain rfl := Except.ok.inj h
      exact ⟨prepared.valid, valid_of_seal sealed⟩
    | some edited =>
      obtain ⟨taxonomy, htaxonomy, h⟩ := bind_eq_ok.mp h
      obtain rfl := Except.ok.inj h
      exact ⟨prepared.valid, valid_of_seal (liftCore_eq_ok.mp htaxonomy)⟩

theorem Sound.moved {b c : Ledger} (h : Sound X G b) (hm : Moved X G b c) : Sound X G c := by
  have hle := hm.le
  have hbacked := h.toBacked.moved hm
  have hregisters : ∀ p ∈ b.registered, Registers X c p.1 p.2 := fun p hp =>
    stable_registers b c hle (h.registers p hp)
  have htasks : ∀ task ∈ b.journal.tasks, ∃ p ∈ c.registered, p.1.runId = task.runId ∧
      p.2.key.hash X = .ok task.cacheKey ∧ task.request = p.2.request := fun task ht => by
    obtain ⟨p, hp, hfiled⟩ := h.tasks task ht
    exact ⟨p, hle.registered.subset hp, hfiled⟩
  cases hm with
  | @insert j k registered row served inserted =>
    refine ⟨hbacked, fun row hrow approved hobject => ?_, hregisters, fun task ht => ?_⟩
    · cases inserted with
      | approval =>
        rcases List.mem_append.mp hrow with hrow | hrow
        · exact h.approvals row hrow approved hobject
        obtain rfl := List.mem_singleton.mp hrow
        cases served with
        | taxonomy latest valid latestTaxonomy reviewed =>
          obtain rfl := Object.approvedTaxonomy.inj hobject
          obtain ⟨task, -, -, hbehind⟩ := h.toBacked.latestTaxonomy latest latestTaxonomy
          exact sealed_of_reviewed hbehind reviewed
        | cluster => cases hobject
        | stale => cases hobject
      | _ => exact h.approvals row hrow approved hobject
    · cases inserted with
      | task =>
        rcases List.mem_append.mp ht with ht | ht
        · exact htasks task ht
        obtain rfl := List.mem_singleton.mp ht
        cases served with
        | @task _ run r registered runId key request =>
          exact ⟨(run, r), registered, runId.symm, key, request⟩
      | _ => exact htasks task ht
  | @note _ run r registers =>
    refine ⟨hbacked, h.approvals, fun p hp => ?_, htasks⟩
    rcases List.mem_append.mp hp with hp | hp
    · exact hregisters p hp
    · obtain rfl := List.mem_singleton.mp hp
      exact stable_registers b _ hle registers

theorem sound_create (manifest : ProjectManifest) :
    Sound X G (Session.create manifest).ledger := by
  refine ⟨backed_create manifest, ?_, ?_, ?_⟩
  all_goals exact fun _ hmem => absurd hmem List.not_mem_nil

theorem sound_of_moved {b c : Ledger} (h : Sound X G b)
    (hm : Relation.ReflTransGen (Moved X G) b c) : Sound X G c := by
  induction hm with
  | refl => exact h
  | tail _ hstep ih => exact ih.moved hstep

theorem sound_of_reaches {faults : Faults} {manifest : ProjectManifest} {s : Session}
    (h : Reaches (Session.step X faults) (fun _ op => op.Serves G) (.create manifest) s) :
    Sound X G s.ledger :=
  sound_of_moved (sound_create manifest) (moved_of_reaches h)

end

/-! ## What hashes determine -/

section

variable {X : Externals} {inputs : Set Bytes} {run run' : RunRecord} {name name' : String}
  {profile profile' : ProviderProfile}

/-- The requests of two registrations with these inputs are the same, and so are their profiles. -/
structure Registration.Agrees (r r' : Registration) : Prop where
  request : r.request = r'.request
  profile : r.profile = r'.profile

theorem rawHash_inj (hX : X.NoCollisions inputs) {domain : String} {a b : Bytes}
    (ha : utf8 domain ++ a ∈ inputs) (hb : utf8 domain ++ b ∈ inputs)
    (h : (rawHash X domain a).hex = (rawHash X domain b).hex) : a = b :=
  List.append_cancel_left (hX ha hb (ContentHash.hex_injective h))

theorem documents_of_corpusHash (hX : X.NoCollisions inputs) {c c' : IntegrationCorpus}
    (hc : ValidCorpus X c) (hc' : ValidCorpus X c') (hm : corpusMessage c ∈ inputs)
    (hm' : corpusMessage c' ∈ inputs) (h : c.corpusHash = c'.corpusHash) :
    c.documents = c'.documents :=
  documentsValue_inj.mp (eq_of_canonicalHash hX hm hm'
    (hc.corpusHash.symm.trans (h.trans hc'.corpusHash)))

/-! ### The texts of a request -/

/-- Two prepared corpora with the same documents hold the same texts. -/
theorem blockText_congr {prepared prepared' : PreparedCorpus X}
    (h : prepared.corpus.documents = prepared'.corpus.documents) {d : IntegrationDocument}
    (hd : d ∈ prepared.corpus.documents) {b : SourceBlock} (hb : b ∈ d.blocks) :
    blockText prepared.blockTexts d b = blockText prepared'.blockTexts d b :=
  (blockText_eq prepared hd hb).trans (blockText_eq prepared' (h ▸ hd) hb).symm

theorem embeddingInput_congr {texts texts' : BlockTextMap} {d : IntegrationDocument}
    (h : ∀ b ∈ d.blocks, blockText texts d b = blockText texts' d b) :
    embeddingInput texts d = embeddingInput texts' d := by
  unfold embeddingInput
  have hblocks : d.blocks.map (fun b => "\nblock_id: " ++ b.blockId.toString ++ "\n" ++
      blockText texts d b) = d.blocks.map fun b =>
        "\nblock_id: " ++ b.blockId.toString ++ "\n" ++ blockText texts' d b := by
    refine List.map_congr_left fun b hb => ?_
    rw [h b hb]
  rw [hblocks]

theorem sourceInput_congr {prepared prepared' : PreparedCorpus X}
    (h : prepared.corpus.documents = prepared'.corpus.documents) {d : IntegrationDocument}
    (hd : d ∈ prepared.corpus.documents) :
    sourceInput prepared.blockTexts d = sourceInput prepared'.blockTexts d := by
  have hblocks : blocksInput prepared.blockTexts d = blocksInput prepared'.blockTexts d := by
    unfold blocksInput
    congr 1
    exact List.map_congr_left fun b hb => by rw [blockText_congr h hd hb]
  rw [sourceInput, sourceInput, hblocks]

theorem sourceInputs_congr {prepared prepared' : PreparedCorpus X}
    (h : prepared.corpus.documents = prepared'.corpus.documents)
    {documents : List IntegrationDocument} (hsub : documents ⊆ prepared.corpus.documents) :
    documents.map (sourceInput prepared.blockTexts) =
      documents.map (sourceInput prepared'.blockTexts) :=
  List.map_congr_left fun _ hd => sourceInput_congr h (hsub hd)

/-! ### The stages without a provider -/

theorem preflight_agrees (hX : X.NoCollisions inputs) {prepared prepared' : PreparedCorpus X}
    (hin : ∀ m ∈ (preflightRegistration X prepared.corpus).messages, m ∈ inputs)
    (hin' : ∀ m ∈ (preflightRegistration X prepared'.corpus).messages, m ∈ inputs)
    (hkey : (preflightRegistration X prepared.corpus).key =
      (preflightRegistration X prepared'.corpus).key) :
    (preflightRegistration X prepared.corpus).Agrees
      (preflightRegistration X prepared'.corpus) := by
  unfold preflightRegistration at hkey hin hin' ⊢
  dsimp only at hkey hin hin' ⊢
  have hsource : prepared.corpus.corpusHash.hex = prepared'.corpus.corpusHash.hex :=
    congrArg TaskCacheKey.sourceHash hkey
  have hdocuments := documents_of_corpusHash hX prepared.valid prepared'.valid
    (hin _ List.mem_cons_self) (hin' _ List.mem_cons_self) (ContentHash.hex_injective hsource)
  refine ⟨?_, rfl⟩
  dsimp only
  rw [SensitiveScan.scan, SensitiveScan.scan, hdocuments]

theorem candidates_agrees (hX : X.NoCollisions inputs) {embeddings embeddings' : Value}
    (hin : ∀ m ∈ (candidateRegistration X embeddings).messages, m ∈ inputs)
    (hin' : ∀ m ∈ (candidateRegistration X embeddings').messages, m ∈ inputs)
    (hkey : (candidateRegistration X embeddings).key =
      (candidateRegistration X embeddings').key) :
    (candidateRegistration X embeddings).Agrees (candidateRegistration X embeddings') := by
  unfold candidateRegistration at hkey hin hin' ⊢
  dsimp only at hkey hin hin' ⊢
  exact ⟨rawHash_inj hX (hin _ List.mem_cons_self) (hin' _ List.mem_cons_self)
    (congrArg TaskCacheKey.sourceHash hkey), rfl⟩

/-! ### The stages with a provider -/

/-- The hash of what a stage reads is in its key. -/
theorem source_of_key {stage stage' : TaskStage} {prompt prompt' schema schema' : Bytes}
    {source source' : String}
    (h : providerTaskKey X stage prompt schema source name profile =
      providerTaskKey X stage' prompt' schema' source' name' profile') : source = source' :=
  congrArg TaskCacheKey.sourceHash h

theorem embedding_agrees (hX : X.NoCollisions inputs) (hrun : run.runId = run'.runId)
    {prepared prepared' : PreparedCorpus X}
    (hin : ∀ m ∈ (embeddingRegistration X run name profile prepared.corpus
      prepared.blockTexts).messages, m ∈ inputs)
    (hin' : ∀ m ∈ (embeddingRegistration X run' name' profile' prepared'.corpus
      prepared'.blockTexts).messages, m ∈ inputs)
    (hkey : (embeddingRegistration X run name profile prepared.corpus prepared.blockTexts).key =
      (embeddingRegistration X run' name' profile' prepared'.corpus prepared'.blockTexts).key) :
    (embeddingRegistration X run name profile prepared.corpus prepared.blockTexts).Agrees
      (embeddingRegistration X run' name' profile' prepared'.corpus prepared'.blockTexts) := by
  unfold embeddingRegistration at hkey hin hin' ⊢
  dsimp only at hkey hin hin' ⊢
  obtain ⟨rfl, rfl⟩ := profile_of_key hX (hin _ List.mem_cons_self) (hin' _ List.mem_cons_self) hkey
  have hdocuments := documents_of_corpusHash hX prepared.valid prepared'.valid
    (hin _ (List.mem_cons_of_mem _ List.mem_cons_self))
    (hin' _ (List.mem_cons_of_mem _ List.mem_cons_self))
    (ContentHash.hex_injective (source_of_key hkey))
  have hinputs : prepared.corpus.documents.map (embeddingInput prepared.blockTexts) =
      prepared'.corpus.documents.map (embeddingInput prepared'.blockTexts) := by
    rw [← hdocuments]
    exact List.map_congr_left fun _ hd =>
      embeddingInput_congr fun b hb => blockText_congr hdocuments hd hb
  refine ⟨?_, rfl⟩
  dsimp only
  unfold embeddingRequest
  rw [hinputs, hrun]

theorem organizer_agrees (hX : X.NoCollisions inputs) (hrun : run.runId = run'.runId)
    {corpus corpus' : IntegrationCorpus} {texts texts' : BlockTextMap}
    {candidates candidates' : List Value}
    (hin : ∀ m ∈ (organizerRegistration X run name profile corpus texts candidates).messages,
      m ∈ inputs)
    (hin' : ∀ m ∈ (organizerRegistration X run' name' profile' corpus' texts'
      candidates').messages, m ∈ inputs)
    (hkey : (organizerRegistration X run name profile corpus texts candidates).key =
      (organizerRegistration X run' name' profile' corpus' texts' candidates').key) :
    (organizerRegistration X run name profile corpus texts candidates).Agrees
      (organizerRegistration X run' name' profile' corpus' texts' candidates') := by
  unfold organizerRegistration at hkey hin hin' ⊢
  dsimp only at hkey hin hin' ⊢
  obtain ⟨rfl, rfl⟩ := profile_of_key hX (hin _ List.mem_cons_self) (hin' _ List.mem_cons_self) hkey
  have hinput := Value.canonicalJson_injective (rawHash_inj hX
    (hin _ (List.mem_cons_of_mem _ List.mem_cons_self))
    (hin' _ (List.mem_cons_of_mem _ List.mem_cons_self)) (source_of_key hkey))
  refine ⟨?_, rfl⟩
  dsimp only
  unfold StructuredGenerationRequest.toValue
  rw [hinput]
  unfold organizerRequest
  dsimp only
  rw [hrun]

/-- The input of a synthesis request names the taxonomy and the cluster. -/
theorem synthesis_input {approved approved' : ApprovedTaxonomy}
    {cluster cluster' : TaxonomyCluster} {texts texts' : BlockTextMap}
    {regeneration regeneration' : Option ClusterRegenerationRequest}
    (h : (synthesisRequest run approved cluster texts regeneration).input =
      (synthesisRequest run' approved' cluster' texts' regeneration').input) :
    approved.taxonomy.taxonomyHash = approved'.taxonomy.taxonomyHash ∧ cluster = cluster' := by
  unfold synthesisRequest at h
  have hfields := Value.object_inj (by simp) (by simp) h
  simp only [List.cons.injEq, Prod.mk.injEq, true_and, ContentHash.toValue_inj,
    TaxonomyCluster.toValue_inj] at hfields
  exact ⟨hfields.1, hfields.2.1⟩

theorem synthesis_agrees (hX : X.NoCollisions inputs) (hrun : run.runId = run'.runId)
    {approved approved' : ApprovedTaxonomy} {cluster cluster' : TaxonomyCluster}
    {texts texts' : BlockTextMap} {regeneration regeneration' : Option ClusterRegenerationRequest}
    (hin : ∀ m ∈ (synthesisRegistration X run approved cluster name profile texts
      regeneration).messages, m ∈ inputs)
    (hin' : ∀ m ∈ (synthesisRegistration X run' approved' cluster' name' profile' texts'
      regeneration').messages, m ∈ inputs)
    (hkey : (synthesisRegistration X run approved cluster name profile texts regeneration).key =
      (synthesisRegistration X run' approved' cluster' name' profile' texts' regeneration').key) :
    (synthesisRegistration X run approved cluster name profile texts regeneration).Agrees
      (synthesisRegistration X run' approved' cluster' name' profile' texts' regeneration') ∧
    approved.taxonomy.taxonomyHash = approved'.taxonomy.taxonomyHash ∧ cluster = cluster' := by
  unfold synthesisRegistration at hkey hin hin' ⊢
  dsimp only at hkey hin hin' ⊢
  obtain ⟨rfl, rfl⟩ := profile_of_key hX (hin _ List.mem_cons_self) (hin' _ List.mem_cons_self) hkey
  have hinput := Value.canonicalJson_injective (rawHash_inj hX
    (hin _ (List.mem_cons_of_mem _ List.mem_cons_self))
    (hin' _ (List.mem_cons_of_mem _ List.mem_cons_self)) (source_of_key hkey))
  obtain ⟨hhash, rfl⟩ := synthesis_input hinput
  refine ⟨⟨?_, rfl⟩, hhash, rfl⟩
  dsimp only
  unfold StructuredGenerationRequest.toValue
  rw [hinput]
  unfold synthesisRequest
  dsimp only
  rw [hrun]

/-! ### The critic -/

theorem proposal_of_identity {p q : SynthesisProposal} (hschema : p.schemaVersion = q.schemaVersion)
    (hhash : p.proposalHash = q.proposalHash) (h : p.identity = q.identity) : p = q := by
  have hfields := Value.object_inj (by simp) (by simp) h
  simp only [List.cons.injEq, Prod.mk.injEq, true_and, and_true, Value.str_inj, Value.nat_inj,
    ContentHash.toValue_inj] at hfields
  cases p
  cases q
  simp_all

/-- A proposal was sealed for the cluster of the taxonomy. -/
structure SealedFor (X : Externals) (approved : ApprovedTaxonomy)
    (cluster : TaxonomyCluster) (p : SynthesisProposal) : Prop where
  schemaVersion : p.schemaVersion = integrationSchemaVersion
  proposalHash : p.proposalHash = X.canonicalHash "okc:synthesis-proposal:v3\x00" p.identity
  clusterId : p.clusterId = cluster.clusterId
  taxonomyHash : p.taxonomyHash = approved.taxonomy.taxonomyHash

variable {G : Drafts} {b : Ledger}

/-- SHA-256 separates what the ledger's registrations hash. -/
def Ledger.Separated (X : Externals) (b : Ledger) : Prop :=
  X.NoCollisions {m | ∃ p ∈ b.registered, m ∈ p.2.hashed}

theorem messages_of_registered {r : Registration} (h : (run, r) ∈ b.registered) :
    ∀ m ∈ r.messages, m ∈ {m | ∃ p ∈ b.registered, m ∈ p.2.hashed} :=
  fun _ hm => ⟨_, h, Or.inr hm⟩

theorem key_of_registered (hX : b.Separated X) {r r' : Registration}
    (h : (run, r) ∈ b.registered) (h' : (run', r') ∈ b.registered) {hash : String}
    (hr : r.key.hash X = .ok hash) (hr' : r'.key.hash X = .ok hash) : r.key = r'.key :=
  key_of_hash hX ⟨_, h, Or.inl rfl⟩ ⟨_, h', Or.inl rfl⟩ hr hr'

/-- The response of a cluster's synthesis task was sealed for the cluster. -/
theorem Sound.proposed (h : Sound X G b) (hX : b.Separated X) {approved : ApprovedTaxonomy}
    {cluster : TaxonomyCluster} {texts : BlockTextMap} {proposal : SynthesisProposal}
    (hp : ProposedFor X b run approved cluster texts proposal) :
    SealedFor X approved cluster proposal := by
  cases hp with
  | mk name profile regeneration task filed responds =>
    cases h.toBacked.responds filed.stored responds with
    | synthesis approval listed filed' recorded admitted =>
      have hkey := key_of_registered hX filed.registered filed'.registered filed.key filed'.key
      obtain ⟨-, hhash, rfl⟩ := synthesis_agrees hX (filed.runId.symm.trans filed'.runId)
        (messages_of_registered filed.registered) (messages_of_registered filed'.registered) hkey
      exact ⟨rfl, rfl, rfl, hhash.symm⟩

/-- One hash of a sealed proposal, one proposal and one cluster. -/
theorem SealedFor.unique {inputs : Set Bytes} (hX : X.NoCollisions inputs)
    {approved approved' : ApprovedTaxonomy} {cluster cluster' : TaxonomyCluster}
    {p q : SynthesisProposal} (hp : SealedFor X approved cluster p)
    (hq : SealedFor X approved' cluster' q) (hin : proposalMessage p ∈ inputs)
    (hin' : proposalMessage q ∈ inputs) (hhash : p.proposalHash = q.proposalHash) :
    p = q ∧ cluster.clusterId = cluster'.clusterId ∧
      approved.taxonomy.taxonomyHash = approved'.taxonomy.taxonomyHash := by
  have hidentity := eq_of_canonicalHash hX hin hin'
    (hp.proposalHash.symm.trans (hhash.trans hq.proposalHash))
  obtain rfl := proposal_of_identity (hp.schemaVersion.trans hq.schemaVersion.symm) hhash hidentity
  exact ⟨rfl, hp.clusterId.symm.trans hq.clusterId, hp.taxonomyHash.symm.trans hq.taxonomyHash⟩

/-- One hash of sealed taxonomies, one list of clusters and one corpus. -/
theorem ApprovedTaxonomy.Sealed.unique {inputs : Set Bytes} (hX : X.NoCollisions inputs)
    {approved approved' : ApprovedTaxonomy} (h : approved.Sealed X) (h' : approved'.Sealed X)
    (hin : taxonomyMessage approved.taxonomy ∈ inputs)
    (hin' : taxonomyMessage approved'.taxonomy ∈ inputs)
    (hhash : approved.taxonomy.taxonomyHash = approved'.taxonomy.taxonomyHash) :
    approved.taxonomy.clusters = approved'.taxonomy.clusters ∧
      approved.corpus.corpusHash = approved'.corpus.corpusHash := by
  obtain ⟨hcorpus, hclusters, -⟩ := taxonomyIdentity_inj.mp (eq_of_canonicalHash hX hin hin'
    (h.taxonomy.taxonomyHash.symm.trans (hhash.trans h'.taxonomy.taxonomyHash)))
  exact ⟨hclusters, h.taxonomy.corpusHash.symm.trans (hcorpus.trans h'.taxonomy.corpusHash)⟩

theorem critic_agrees (h : Sound X G b) (hX : b.Separated X) (hrun : run.runId = run'.runId)
    {prepared prepared' : PreparedCorpus X} {approved approved' : ApprovedTaxonomy}
    {cluster cluster' : TaxonomyCluster} {proposal proposal' : SynthesisProposal}
    (hap : Approved b prepared.corpus approved) (hap' : Approved b prepared'.corpus approved')
    (hlisted : cluster ∈ approved.taxonomy.clusters)
    (hlisted' : cluster' ∈ approved'.taxonomy.clusters)
    (hp : ProposedFor X b run approved cluster prepared.blockTexts proposal)
    (hp' : ProposedFor X b run' approved' cluster' prepared'.blockTexts proposal')
    (hreg : (run, criticRegistration X run approved cluster name profile prepared.corpus
      prepared.blockTexts proposal) ∈ b.registered)
    (hreg' : (run', criticRegistration X run' approved' cluster' name' profile' prepared'.corpus
      prepared'.blockTexts proposal') ∈ b.registered)
    (hkey : (criticRegistration X run approved cluster name profile prepared.corpus
      prepared.blockTexts proposal).key = (criticRegistration X run' approved' cluster' name'
        profile' prepared'.corpus prepared'.blockTexts proposal').key) :
    (criticRegistration X run approved cluster name profile prepared.corpus prepared.blockTexts
      proposal).Agrees (criticRegistration X run' approved' cluster' name' profile'
        prepared'.corpus prepared'.blockTexts proposal') := by
  have hin := messages_of_registered hreg
  have hin' := messages_of_registered hreg'
  have hsealed := h.proposed hX hp
  have hsealed' := h.proposed hX hp'
  obtain ⟨row, hrow, -, hobject⟩ := hap.row
  obtain ⟨row', hrow', -, hobject'⟩ := hap'.row
  have htaxonomy := h.approvals row hrow approved hobject
  have htaxonomy' := h.approvals row' hrow' approved' hobject'
  unfold criticRegistration at hkey hin hin' ⊢
  dsimp only at hkey hin hin' ⊢
  simp only [List.forall_mem_cons] at hin hin'
  obtain ⟨hoptions, hproposal, hclusters, hcorpus, hprepared, -⟩ := hin
  obtain ⟨hoptions', hproposal', hclusters', hcorpus', hprepared', -⟩ := hin'
  obtain ⟨rfl, rfl⟩ := profile_of_key hX hoptions hoptions' hkey
  obtain ⟨rfl, hid, hhash⟩ := hsealed.unique hX hsealed' hproposal hproposal'
    (ContentHash.hex_injective (source_of_key hkey))
  obtain ⟨hlist, hcorpora⟩ := htaxonomy.unique hX htaxonomy' hclusters hclusters' hhash
  -- the cluster is the one with its identity in the taxonomy
  obtain rfl : cluster = cluster' :=
    List.inj_on_of_nodup_map htaxonomy.taxonomy.nodup hlisted (hlist ▸ hlisted') hid
  have hdocuments := documents_of_corpusHash hX htaxonomy.corpus htaxonomy'.corpus hcorpus hcorpus'
    hcorpora
  have hown := documents_of_corpusHash hX htaxonomy.corpus prepared.valid hcorpus hprepared
    hap.corpusHash
  have hsame := documents_of_corpusHash hX prepared.valid prepared'.valid hprepared hprepared'
    (hap.corpusHash.symm.trans (hcorpora.trans hap'.corpusHash))
  have hsources : clusterSources approved cluster prepared.blockTexts =
      clusterSources approved' cluster prepared'.blockTexts := by
    unfold clusterSources clusterDocuments
    rw [← hdocuments, sourceInputs_congr hsame (hown ▸ List.filter_sublist.subset)]
  refine ⟨?_, rfl⟩
  dsimp only
  unfold criticRequest
  rw [hsources, hrun]

/-! ## Every history -/

/-- **Two registrations of a run under one key** have one request and one profile. -/
theorem Registers.determined (h : Sound X G b) (hX : b.Separated X) (hrun : run.runId = run'.runId)
    {r r' : Registration} (hr : (run, r) ∈ b.registered) (hr' : (run', r') ∈ b.registered)
    (hkey : r.key = r'.key) : r.Agrees r' := by
  have hstage := congrArg TaskCacheKey.stage hkey
  have hin := messages_of_registered hr
  have hin' := messages_of_registered hr'
  have hfirst : Registers X b run r := h.registers _ hr
  have hsecond : Registers X b run' r' := h.registers _ hr'
  cases hfirst with
  | preflight prepared =>
    cases hsecond with
    | preflight prepared' => exact preflight_agrees hX hin hin' hkey
    | _ => cases hstage
  | embedding prepared name profile =>
    cases hsecond with
    | embedding prepared' name' profile' => exact embedding_agrees hX hrun hin hin' hkey
    | _ => cases hstage
  | candidates embeddings =>
    cases hsecond with
    | candidates embeddings' => exact candidates_agrees hX hin hin' hkey
    | _ => cases hstage
  | organizer prepared candidates name profile =>
    cases hsecond with
    | organizer prepared' candidates' name' profile' =>
      exact organizer_agrees hX hrun hin hin' hkey
    | _ => cases hstage
  | synthesis name profile regeneration approval listed =>
    cases hsecond with
    | synthesis name' profile' regeneration' approval' listed' =>
      exact (synthesis_agrees hX hrun hin hin' hkey).1
    | _ => cases hstage
  | critic name profile approval listed proposed =>
    cases hsecond with
    | critic name' profile' approval' listed' proposed' =>
      exact critic_agrees h hX hrun approval approval' listed listed' proposed proposed' hr hr' hkey
    | _ => cases hstage

/-! ### The check of `register_task` -/

/-- What `register_task` reports of a task that was registered for another request. -/
def staleKey : AppError := .invalidProject "task cache key is stale for its request bytes"

/-- No step is made to fail with the error. -/
def Faults.Spare (faults : Faults) (e : AppError) : Prop :=
  ∀ clock fault, faults clock = some fault → fault.error ≠ e

variable {faults : Faults}

theorem triple_commit {α : Type} {f : Project → Except AppError (α × Project)} {e : AppError}
    {P : Project → Prop} {Q : α → Project → Prop} (hfaults : faults.Spare e)
    (hQ : ∀ s a t, P s → f s.tick = .ok (a, t) → Q a t)
    (hE : ∀ s, P s → f s.tick ≠ .error e) :
    Triple P (commit faults f) Q fun e' _ => e' ≠ e := by
  refine ⟨fun s hs => ?_⟩
  unfold commit
  cases hfault : faults s.clock with
  | none =>
    cases hf : f s.tick with
    | ok out => exact hQ s out.1 out.2 hs hf
    | error e' => exact fun he => hE s hs (he ▸ hf)
  | some fault =>
    have hspare := hfaults _ _ hfault
    obtain ⟨e', applied⟩ := fault
    cases f s.tick with
    | ok out => cases applied <;> exact hspare
    | error e'' => cases applied <;> exact hspare

theorem triple_query {α : Type} {f : Project → Except AppError α} {e : AppError}
    {P : Project → Prop} {Q : α → Project → Prop} (hfaults : faults.Spare e)
    (hQ : ∀ s a, P s → f s.tick = .ok a → Q a s.tick) (hE : ∀ s, P s → f s.tick ≠ .error e) :
    Triple P (query faults f) Q fun e' _ => e' ≠ e := by
  refine triple_commit hfaults (fun s a t hs hf => ?_) fun s hs hf => ?_
  · cases hv : f s.tick with
    | error e' => simp [hv, Except.map] at hf
    | ok b =>
      simp only [hv, Except.map, Except.ok.injEq, Prod.mk.injEq] at hf
      obtain ⟨rfl, rfl⟩ := hf
      exact hQ s b hs hv
  · cases hv : f s.tick with
    | error e' =>
      simp only [hv, Except.map, Except.error.injEq] at hf
      exact hE s hs (hf ▸ hv)
    | ok b => simp [hv, Except.map] at hf

theorem taskState_ne_stale (j : Journal) (taskId : String) :
    j.taskState taskId ≠ .error staleKey := by
  unfold Journal.taskState staleKey
  split <;> simp

theorem insert_ne_stale (s : Project) (row : Row) : s.insert row ≠ .error staleKey := by
  have hj : s.journal.insert row ≠ .error staleKey := by
    unfold Journal.insert staleKey Journal.uniqueFailed Journal.foreignKeyFailed
    cases row <;> simp [reject, bind, Except.bind] <;> split_ifs <;> simp
  unfold Project.insert
  split
  · simp
  · rename_i e he
    intro h
    obtain rfl := Except.error.inj h
    exact hj he

/-- **The check passes** where every task under the key was registered for the request. -/
theorem registerTask_ne_stale {r : Registration} {hash : String} (hfaults : faults.Spare staleKey)
    (hhash : r.key.hash X = .ok hash) {p : Project}
    (h : ∀ task ∈ p.journal.tasks, task.runId = run.runId → task.cacheKey = hash →
      task.request = r.request) :
    (registerTask X faults run r.key.stage r.key r.request p).1 ≠ .error staleKey := by
  have hspec : Triple (fun s : Project => s.journal = p.journal)
      (registerTask X faults run r.key.stage r.key r.request) (fun _ _ => True)
      fun e _ => e ≠ staleKey := by
    unfold registerTask
    refine Triple.bind (Q := fun _ s => s.journal = p.journal)
      (Triple.lift (fun _ _ _ hs => hs) fun e _ he _ => by simp [reject] at he) fun _ => ?_
    refine Triple.bind (Q := fun key s => key = hash ∧ s.journal = p.journal)
      (Triple.lift (fun key _ hk hs => ⟨Except.ok.inj (hk.symm.trans hhash), hs⟩)
        fun e _ he _ => by simp [hhash] at he) fun key => Triple.assuming fun hkey => ?_
    subst hkey
    refine Triple.bind (Q := fun _ s => s.journal = p.journal)
      (triple_query hfaults (fun _ _ hs _ => hs) fun _ _ he => by cases he) fun _ => ?_
    refine Triple.bind (Q := fun found s => ∀ st, found = some st → st.task.request = r.request)
      (triple_query hfaults (fun s found hs hf st hst => ?_) fun s hs hf => ?_) fun found => ?_
    · subst hst
      have hjournal : s.tick.journal = p.journal := hs
      cases hfind : s.tick.journal.tasks.find? fun t => t.runId = run.runId && t.cacheKey = key with
      | none =>
        rw [hfind] at hf
        cases hf
      | some task =>
        rw [hfind] at hf
        obtain ⟨hmem, hid⟩ : st.task ∈ s.tick.journal.tasks ∧ st.task.taskId = task.taskId := by
          cases hst : s.tick.journal.taskState task.taskId with
          | error e => simp [hst, Except.map] at hf
          | ok found =>
            simp only [hst, Except.map, Except.ok.injEq, Option.some.injEq] at hf
            subst hf
            exact ⟨(taskState_spec hst).1, (taskState_spec hst).2.1⟩
        have htask := List.mem_of_find?_eq_some hfind
        have hsame := s.tick.intact.task_unique hmem htask hid
        have hp := List.find?_some hfind
        simp only [Bool.and_eq_true, decide_eq_true_eq] at hp
        rw [hsame]
        exact h task (hjournal ▸ htask) hp.1 hp.2
    · split at hf
      · rename_i task _
        cases hst : s.tick.journal.taskState task.taskId with
        | ok st => simp [hst, Except.map] at hf
        | error e =>
          simp only [hst, Except.map, Except.error.injEq] at hf
          exact taskState_ne_stale _ _ (hf ▸ hst)
      · cases hf
    · cases found with
      | some st =>
        dsimp only
        refine Triple.bind (Q := fun _ _ => True) (Triple.lift (fun _ _ _ _ => trivial)
          fun e _ he hs => ?_) fun _ => Triple.pure fun _ _ => trivial
        rw [reject, if_neg (not_not.mpr (hs st rfl))] at he
        cases he
      | none =>
        dsimp only
        refine Triple.bind (Q := fun _ _ => True) (triple_commit hfaults (fun _ _ _ _ _ => trivial)
          fun s _ hf => ?_) fun _ => triple_query hfaults (fun _ _ _ _ => trivial)
            fun s _ => taskState_ne_stale _ _
        rcases bind_eq_error.mp hf with ht | ⟨t, -, hf⟩
        · exact insert_ne_stale _ _ ht
        · rcases bind_eq_error.mp hf with hu | ⟨u, -, hf⟩
          · exact insert_ne_stale _ _ hu
          · cases hf
  have hrun := hspec.run p rfl
  cases hcall : registerTask X faults run r.key.stage r.key r.request p with
  | mk x t =>
    rw [hcall] at hrun
    cases x with
    | ok st => simp
    | error e => exact fun he => hrun (Except.error.inj he)

/-- **A cache key determines the request**: in a history of services two registrations of a run
under one key ask the same of the same profile, so a task is found only by the request it was
registered for, and `register_task` never takes it for stale. -/
theorem cache_key_determines (X : Externals) (faults : Faults) (manifest : ProjectManifest)
    {s : Session}
    (h : Reaches (Session.step X faults) (fun _ op => op.Serves .any) (.create manifest) s)
    (hX : s.ledger.Separated X) {run : RunRecord} {r : Registration} (hr : (run, r) ∈ s.registered)
    {hash : String} (hhash : r.key.hash X = .ok hash) :
    (∀ run' r', (run', r') ∈ s.registered → run.runId = run'.runId → r'.key.hash X = .ok hash →
      r.Agrees r') ∧
    (∀ task ∈ s.project.journal.tasks, task.runId = run.runId → task.cacheKey = hash →
      task.request = r.request) ∧
    ∀ (faults' : Faults) (p : Project), faults'.Spare staleKey →
      p.journal.tasks ⊆ s.project.journal.tasks →
      (registerTask X faults' run r.key.stage r.key r.request p).1 ≠ .error staleKey := by
  have hsound := sound_of_reaches h
  have hagrees : ∀ run' r', (run', r') ∈ s.registered → run.runId = run'.runId →
      r'.key.hash X = .ok hash → r.Agrees r' := fun run' r' hr' hrun hhash' =>
    Registers.determined hsound hX hrun hr hr' (key_of_registered hX hr hr' hhash hhash')
  have htasks : ∀ task ∈ s.project.journal.tasks, task.runId = run.runId → task.cacheKey = hash →
      task.request = r.request := fun task htask hid hkey => by
    obtain ⟨⟨run', r'⟩, hr', hrun', hhash', hrequest⟩ := hsound.tasks task htask
    rw [hrequest]
    exact (hagrees run' r' hr' (hid.symm.trans hrun'.symm) (hkey ▸ hhash')).request.symm
  exact ⟨hagrees, htasks, fun _ _ hspare hp =>
    registerTask_ne_stale hspare hhash fun task ht => htasks task (hp ht)⟩

/-! ### A preflight -/

/-- A stage that makes no registration. -/
abbrev Silent {α : Type} (l : List (RunRecord × Registration)) (stage : Stage α) : Prop :=
  Triple (fun s : Session => s.registered = l) stage (fun _ s => s.registered = l)
    fun _ s => s.registered = l

theorem Silent.kept {α : Type} {l : List (RunRecord × Registration)} {stage : Stage α}
    (h : Silent l stage) {s : Session} (hs : s.registered = l) : (stage s).2.registered = l := by
  have hrun := h.run s hs
  cases hr : stage s with
  | mk x t =>
    rw [hr] at hrun
    cases x <;> exact hrun

theorem silent_within {α : Type} {l : List (RunRecord × Registration)} {op : Op α} :
    Silent l (within op) := by
  refine ⟨fun s hs => ?_⟩
  unfold within
  cases op s.project with
  | mk x t => cases x <;> exact hs

theorem silent_lift {α : Type} {l : List (RunRecord × Registration)} {x : Except AppError α} :
    Silent l (Act.lift x) := Triple.lift (fun _ _ _ hs => hs) fun _ _ _ hs => hs

theorem within_ok {α : Type} {op : Op α} {s : Session} {p : Project} {a : α}
    (h : op s.project = (.ok a, p)) : within op s = (.ok a, ⟨p, s.registered⟩) := by
  unfold within
  rw [h]

/-- A preflight of a new project makes one registration. -/
theorem registered_preflight {env : Environment X} {prepared : PreparedCorpus X}
    (hbuild : env.build plainManifest.sources = .ok prepared) : ∃ run : RunRecord,
    (Operation.run X noFaults (.preflight env) (.create plainManifest)).2.registered =
      [(run, preflightRegistration X prepared.corpus)] := by
  have hfirst : (Session.create plainManifest).project.stored = (.empty, plainManifest) := rfl
  obtain ⟨_, p₁, h₁, -, hs₁⟩ := leads_attemptIo.run _ hfirst
  obtain ⟨_, p₂, h₂, rfl, hs₂⟩ := (leads_openProject plainManifest_valid).run p₁ hs₁
  obtain ⟨_, p₃, h₃, -, hs₃⟩ := leads_attemptIo.run p₂ hs₂
  obtain ⟨_, p₄, h₄, -, hs₄⟩ := leads_attemptIo.run p₃ hs₃
  have hbegin := @leads_beginOrResumeRun .empty plainManifest X prepared.corpus.corpusHash.hex
    (integrationConfigHash X plainManifest.aiRoutes) (validateHexHash_hex _ _)
    (validateHexHash_hex _ _) (by simp [Journal.latestRun, Journal.empty, newest])
    (by simp [Journal.HasRun, Journal.empty]) (by simp [Journal.empty])
  obtain ⟨run, p₅, h₅, -, -⟩ := hbegin.run p₄ hs₄
  refine ⟨run, ?_⟩
  unfold Operation.run preflight
  simp only [Act.bind_assoc']
  rw [Act.bind_ok (within_ok h₁), Act.bind_ok (within_ok h₂), acquireWriterLock,
    Act.bind_ok (within_ok h₃), hbuild, Act.lift_ok_bind, Act.bind_ok (within_ok h₄),
    Act.bind_ok (within_ok h₅)]
  have hnote : note run (preflightRegistration X prepared.corpus)
      ⟨p₅, (Session.create plainManifest).registered⟩ =
        (.ok (), ⟨p₅, [(run, preflightRegistration X prepared.corpus)]⟩) := rfl
  unfold recordPreflight register
  simp only [Act.bind_assoc']
  rw [Act.bind_ok hnote]
  refine Silent.kept ?_ rfl
  refine Triple.bind silent_within fun task => ?_
  refine Triple.bind (Q := fun _ s =>
    s.registered = [(run, preflightRegistration X prepared.corpus)]) ?_ fun _ => ?_
  · split_ifs
    · unfold completeTask
      exact Triple.bind silent_within fun _ => Triple.pure fun _ hs => hs
    · exact Triple.pure fun _ hs => hs
  · refine Triple.bind silent_lift fun config => ?_
    refine Triple.bind silent_lift fun routes => ?_
    refine Triple.bind silent_lift fun bytes => ?_
    exact Triple.pure fun _ hs => hs

end

/-- A corpus of one document, without providers. -/
def offline : Environment (plainExternals prefixHash) where
  build _ := .ok (bulkPrepared 1 Nat.one_pos (by decide))
  config := .ok ⟨[]⟩
  client _ := .error (.invalidProject "no client")
  dataBoundary _ := .local
  similarity := ⟨Unit, Nat, inferInstance, fun _ => [], fun _ => none, fun _ _ => 0, 0, .nat⟩
  organizerDraft _ := .ok []
  synthesisDraft _ := .error (.invalidProject "no draft")
  criticDraft _ := .ok []

theorem take_prefixHash {domain : String} (h : 5 ≤ (utf8 domain).length) (rest : Bytes) :
    (prefixHash (utf8 domain ++ rest)).bytes.take 5 = (utf8 domain).take 5 := by
  rw [prefixHash, List.take_take, List.append_assoc]
  exact List.take_append_of_le_length h

theorem preflightKey_hash {X : Externals} (corpus : IntegrationCorpus) :
    (preflightRegistration X corpus).key.hash X = .ok
      (digest X "okc:ai-task:v3\x00" [toVec (preflightRegistration X corpus).key.toJson]).hex := by
  refine hash_of_identified rfl rfl rfl rfl ?_
  simp only [List.mem_cons, List.not_mem_nil, or_false]
  rintro p (rfl | rfl | rfl)
  · exact (by decide : validateIdentifier "provider" "deterministic-local" = .ok ())
  · exact (by decide : validateIdentifier "model" sensitiveScannerVersion = .ok ())
  · exact (by decide : validateIdentifier "adapter" productVersion = .ok ())

/-- The two messages of a preflight have two domains. -/
theorem separated_preflight {run : RunRecord} {corpus : IntegrationCorpus} {b : Ledger}
    (h : b.registered = [(run, preflightRegistration (plainExternals prefixHash) corpus)]) :
    b.Separated (plainExternals prefixHash) := by
  have hcorpus : (prefixHash (corpusMessage corpus)).bytes.take 5 = [111, 107, 99, 58, 105] :=
    (take_prefixHash (by decide) _).trans (by decide)
  have hkey : ∀ key : TaskCacheKey,
      (prefixHash key.message).bytes.take 5 = [111, 107, 99, 58, 97] := fun key =>
    (take_prefixHash (by decide) _).trans (by decide)
  rintro m ⟨p, hp, hm⟩ m' ⟨p', hp', hm'⟩ heq
  rw [h, List.mem_singleton] at hp hp'
  subst hp hp'
  have htake := congrArg (fun c : ContentHash => c.bytes.take 5) heq
  rcases hm with rfl | hm <;> rcases hm' with rfl | hm'
  · rfl
  · obtain rfl := List.mem_singleton.mp hm'
    exact absurd ((hkey _).symm.trans (htake.trans hcorpus)) (by decide)
  · obtain rfl := List.mem_singleton.mp hm
    exact absurd (hcorpus.symm.trans (htake.trans (hkey _))) (by decide)
  · rw [List.mem_singleton.mp hm, List.mem_singleton.mp hm']

/-- The theorem at work: a preflight, and the tasks that are found under its key. -/
theorem cache_key_determines_preflight : ∃ (s : Session) (run : RunRecord) (r : Registration)
    (hash : String), (run, r) ∈ s.registered ∧ r.key.hash (plainExternals prefixHash) = .ok hash ∧
      ∀ task ∈ s.project.journal.tasks, task.runId = run.runId → task.cacheKey = hash →
        task.request = r.request := by
  have hbuild : offline.build plainManifest.sources =
    .ok (bulkPrepared 1 Nat.one_pos (by decide)) := rfl
  obtain ⟨run, hrun⟩ := registered_preflight hbuild
  generalize hs : (Operation.run (plainExternals prefixHash) noFaults (.preflight offline)
    (.create plainManifest)).2 = s at hrun
  have hreaches : Reaches (Session.step (plainExternals prefixHash) noFaults)
      (fun _ op => op.Serves .any) (.create plainManifest) s :=
    Relation.ReflTransGen.single ⟨.preflight offline, trivial, congrArg some hs⟩
  have hr := hrun ▸ List.mem_singleton_self (run, preflightRegistration
    (plainExternals prefixHash) (bulkPrepared 1 Nat.one_pos (by decide)).corpus)
  exact ⟨s, run, _, _, hr, preflightKey_hash _, (cache_key_determines _ noFaults plainManifest
    hreaches (separated_preflight hrun) hr (preflightKey_hash _)).2.1⟩

end Okc.App
