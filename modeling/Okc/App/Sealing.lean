import Okc.App.Approval
import Okc.App.Backing

/-!
# Whether a recorded approval can be sealed (`integration_service.rs:226-271`, `359-463`)

The reviews record what the manifest and the decision say. `ApprovedIntegrationPlan::validate`
bounds the curator, the policy version and the rationales, and neither `ProjectManifest::validate`
nor a review does.

* `validApproval_iff`, `validateApproval_iff`: the checks of a plan on what a review
  decides come down to these bounds.
* `review_sealable`: so it is in every history of services, and the recordings are there.
* `approval_unsealable`: a curator that is too long.
-/

namespace Okc.App

open Okc.Lib Okc.Core

/-! ## The bounds of a plan -/

/-- The names of the manifest fit into an approval of a plan. -/
structure ProjectManifest.Fits (manifest : ProjectManifest) : Prop where
  curatorId : len manifest.curatorId ≤ 256
  policyVersion : len manifest.policyVersion ≤ 256

/-- The rationales for what the output leaves open fit into an approval of a plan. -/
structure ClusterReviewDecision.Fits (decision : ClusterReviewDecision)
    (proposal : SynthesisProposal) (critic : CriticReport) : Prop where
  omissions : ∀ target ∈ proposal.omitted, ∀ text ∈ get? (omissionKey target)
    decision.omissionRationales, Bounded text 0 4096
  waivers : ∀ findingId ∈ critic.minorFindings, ∀ text ∈ get? findingId decision.minorWaivers,
    Bounded text 0 4096

theorem len_of_trim {s : String} (h : trim s ≠ "") : 1 ≤ len s := by
  by_contra hlen
  have hnil : s = "" := by
    have hsize : s.utf8ByteSize = 0 := by
      simpa [len] using hlen
    exact String.utf8ByteSize_eq_zero_iff.mp hsize
  subst hnil
  exact h (by decide)

theorem bounded_of_trim {s : String} {maximum : Nat} (h : trim s ≠ "") :
    Bounded s 1 maximum ↔ Bounded s 0 maximum :=
  ⟨fun hb => ⟨Nat.zero_le _, hb.2⟩, fun hb => ⟨len_of_trim h, hb.2⟩⟩

section

variable {X : Externals} {manifest : ProjectManifest}

theorem ValidManifest.curatorBounded (h : ValidManifest manifest) :
    Bounded manifest.curatorId 1 256 ↔ len manifest.curatorId ≤ 256 :=
  ⟨fun hb => hb.2.1, fun hlen => ⟨len_of_trim h.curatorId, hlen, h.curatorSafe⟩⟩

theorem ValidManifest.policyBounded (h : ValidManifest manifest) :
    Bounded manifest.policyVersion 1 256 ↔ len manifest.policyVersion ≤ 256 :=
  ⟨fun hb => hb.2.1, fun hlen => ⟨len_of_trim h.policyVersion, hlen, h.policySafe⟩⟩

/-! ## What a review decides -/

theorem map_of_forall₂ {α β : Type} {R : α → β → Prop} {f : β → α} {as : List α} {bs : List β}
    (h : List.Forall₂ R as bs) (hf : ∀ a b, R a b → f b = a) : bs.map f = as := by
  have heq : List.Forall₂ Eq (bs.map f) as :=
    List.forall₂_map_left_iff.mpr (h.flip.imp fun b a hab => hf a b hab)
  rwa [List.forall₂_eq_eq_eq] at heq

/-- **The checks of a plan on an approved cluster** are the bounds of the names and rationales. -/
theorem validApproval_iff {output : ClusterTaskOutput} {decision : ClusterReviewDecision}
    {r : ApprovedClusterRevision} (hm : ValidManifest manifest)
    (h : Reviewed X manifest output decision r) (homitted : output.proposal.omitted.Nodup)
    (hminor : output.critic.minorFindings.Nodup) :
    ValidApproval X r.proposal r.critic r.approval ↔
      manifest.Fits ∧ decision.Fits r.proposal r.critic := by
  have htargets : r.approval.omissionApprovals.map OmissionApproval.target =
    output.proposal.omitted := map_of_forall₂ h.omissions fun _ _ hto => hto.1
  have hids : r.approval.minorWaivers.map FindingWaiver.findingId =
    output.critic.minorFindings := map_of_forall₂ h.waivers fun _ _ hto => hto.1
  rw [h.proposal, h.critic]
  constructor
  · intro ha
    refine ⟨⟨?_, ?_⟩, fun target ht text htext => ?_, fun findingId hi text htext => ?_⟩
    · have hbound := ha.curatorBounded
      rw [h.approval] at hbound
      exact hbound.2.1
    · have hbound := ha.policyBounded
      rw [h.approval] at hbound
      exact hbound.2.1
    · obtain ⟨o, ho, -, -, hfound, hblank⟩ := exists_of_forall₂ h.omissions.flip target ht
      obtain rfl := Option.some.inj (hfound.symm.trans htext)
      exact (bounded_of_trim hblank).mp (ha.omissionBounds o ho).2
    · obtain ⟨w, hw, -, -, hfound, hblank⟩ := exists_of_forall₂ h.waivers.flip findingId hi
      obtain rfl := Option.some.inj (hfound.symm.trans htext)
      exact (bounded_of_trim hblank).mp (ha.waiverBounds w hw).2
  · rintro ⟨hfits, hdecision⟩
    have hcurator := hm.curatorBounded.mpr hfits.curatorId
    refine {
      omissionsDistinct := htargets ▸ homitted
      omissions := fun t => by rw [htargets]
      omissionBounds := fun o ho => ?_
      resolved := h.resolved
      waiversDistinct := hids ▸ hminor
      waivers := fun i => by rw [hids]
      waiverBounds := fun w hw => ?_
      approved := by rw [h.approval]; rfl
      clusterId := by rw [h.approval]; rfl
      taxonomyHash := by rw [h.approval]; rfl
      proposalHash := by rw [h.approval]; rfl
      criticHash := by rw [h.approval]; rfl
      curatorBounded := by rw [h.approval]; exact hcurator
      policyBounded := by rw [h.approval]; exact hm.policyBounded.mpr hfits.policyVersion
      revisionHash := by rw [h.approval]; rfl }
    · obtain ⟨target, ht, -, hid, hfound, hblank⟩ := exists_of_forall₂ h.omissions o ho
      exact ⟨hid ▸ hcurator, (bounded_of_trim hblank).mpr (hdecision.omissions target ht _ hfound)⟩
    · obtain ⟨findingId, hi, -, hid, hfound, hblank⟩ := exists_of_forall₂ h.waivers w hw
      exact ⟨hid ▸ hcurator, (bounded_of_trim hblank).mpr (hdecision.waivers findingId hi _ hfound)⟩

theorem reviewedTaxonomy_spec {proposed : TaxonomyTaskOutput}
    {editedClusters : Option (List TaxonomyCluster)} {rationale : Option String}
    {approved : ApprovedTaxonomy}
    (h : reviewedTaxonomy X manifest proposed editedClusters rationale = .ok approved) :
    approved.approval = ⟨approved.taxonomy.taxonomyHash, true, manifest.curatorId,
        manifest.policyVersion, rationale⟩ ∧
      approved.taxonomy.organizerRecordingHash = proposed.taxonomy.organizerRecordingHash := by
  unfold reviewedTaxonomy at h
  obtain ⟨-, h⟩ := bind_unit_eq_ok.mp h
  cases editedClusters with
  | none =>
    obtain rfl := Except.ok.inj h
    exact ⟨rfl, rfl⟩
  | some clusters =>
    obtain ⟨taxonomy, htaxonomy, h⟩ := bind_eq_ok.mp h
    obtain rfl := Except.ok.inj h
    obtain ⟨-, hsealed⟩ := bind_unit_eq_ok.mp (liftCore_eq_ok.mp htaxonomy)
    obtain rfl := Except.ok.inj hsealed
    exact ⟨rfl, rfl⟩

/-- **The checks of a plan on an approved taxonomy** are bounds too. -/
theorem validateApproval_iff {proposed : TaxonomyTaskOutput}
    {editedClusters : Option (List TaxonomyCluster)} {rationale : Option String}
    {approved : ApprovedTaxonomy} (hm : ValidManifest manifest)
    (h : reviewedTaxonomy X manifest proposed editedClusters rationale = .ok approved) :
    validateApproval "taxonomy" approved.approval approved.taxonomy.taxonomyHash = .ok () ↔
      manifest.Fits ∧ ∀ text ∈ rationale, Bounded text 0 4096 := by
  have hrationale : RationaleOk rationale false ↔ ∀ text ∈ rationale, Bounded text 0 4096 := by
    cases rationale <;> simp [RationaleOk]
  rw [(reviewedTaxonomy_spec h).1]
  simp only [validateApproval, bind_unit_eq_ok, reject_eq_ok, validateBoundedData_eq_ok,
    validateOptionalRationale_eq_ok, hm.curatorBounded, hm.policyBounded, hrationale]
  constructor
  · rintro ⟨-, hcurator, hpolicy, htext⟩
    exact ⟨⟨hcurator, hpolicy⟩, htext⟩
  · rintro ⟨⟨hcurator, hpolicy⟩, htext⟩
    exact ⟨by simp, hcurator, hpolicy, htext⟩

end

/-! ## What a call appends -/

section

variable {X : Externals} {faults : Faults}

/-- Rows of which the approvals are as said. -/
def Approving (Good : ApprovalRow → Prop) (_ : Journal) : Row → Prop
  | .approval row => Good row
  | _ => True

theorem approvals_of_grows {Good : ApprovalRow → Prop} {j k : Journal}
    (h : Journal.Grows (Approving Good) j k) :
    ∀ row ∈ k.approvals.drop j.approvals.length, Good row := by
  have hinv := h.invariant (I := fun k => ∃ new, k.approvals = j.approvals ++ new ∧
    ∀ row ∈ new, Good row) (fun k row l hI hrow hi => ?_) ⟨[], by simp, by simp⟩
  · obtain ⟨new, hnew, hgood⟩ := hinv
    rw [hnew, List.drop_left]
    exact hgood
  · obtain ⟨new, hnew, hgood⟩ := hI
    cases hi with
    | @approval row =>
      refine ⟨new ++ [row], by rw [hnew, List.append_assoc], fun r hr => ?_⟩
      rcases List.mem_append.mp hr with hr | hr
      · exact hgood r hr
      · obtain rfl := List.mem_singleton.mp hr
        exact hrow
    | _ => exact ⟨new, hnew, hgood⟩

/-- A call that opens the project works with the manifest on the disk. -/
theorem grows_openProject {α : Type} {A : Journal → Row → Prop} {f : ProjectManifest → Op α}
    {s : Project} {Q : α → Journal → Prop}
    (h : ValidManifest s.disk → Adds A (· = s.journal) (f s.disk) Q) :
    Journal.Grows A s.journal ((openProject faults >>= f) s).2.journal := by
  cases hcall : (openProject faults >>= f) s with
  | mk r t =>
    obtain ⟨e, hopen, -⟩ | ⟨manifest, u, hopen, hrest⟩ := Act.bind_cases hcall
    · rw [query_journal hopen]
      exact Relation.ReflTransGen.refl
    · obtain ⟨-, hread, rfl⟩ := query_eq_ok.mp hopen
      obtain ⟨hvalid, hmanifest⟩ := bind_unit_eq_ok.mp hread
      obtain rfl := Except.ok.inj hmanifest
      have hmoves := (h (validate_eq_ok.mp hvalid)).moves (s := s.tick) rfl
      have hsame : f s.tick.disk s.tick = (r, t) := hrest
      rw [show s.disk = s.tick.disk from rfl, hsame] at hmoves
      exact hmoves

/-- What `approve_taxonomy` records. -/
inductive RecordsTaxonomy (X : Externals) (s : Project)
    (editedClusters : Option (List TaxonomyCluster)) (rationale : Option String) :
    ApprovalRow → Prop
  | mk {run proposed approved} (valid : ValidManifest s.disk)
      (latest : s.journal.latestRun = some run)
      (latestTaxonomy : s.journal.latestTaxonomy = .ok proposed)
      (reviewed : reviewedTaxonomy X s.disk proposed editedClusters rationale = .ok approved) :
      RecordsTaxonomy X s editedClusters rationale ⟨run.runId, "taxonomy", "taxonomy",
        approved.taxonomy.taxonomyHash.hex, .approvedTaxonomy approved⟩

theorem grows_approveTaxonomy (s : Project) (editedClusters : Option (List TaxonomyCluster))
    (rationale : Option String) :
    Journal.Grows (Approving (RecordsTaxonomy X s editedClusters rationale)) s.journal
      (approveTaxonomy X faults editedClusters rationale s).2.journal := by
  refine grows_openProject (Q := fun _ _ => True) fun hvalid => ?_
  refine Advances.bind adds_attemptIo fun _ => ?_
  refine Advances.bind adds_requireRun fun run => ?_
  refine Advances.bind (Q := fun proposed j => j.latestTaxonomy = .ok proposed ∧
      j.latestRun = some run ∧ j = s.journal)
    (adds_query fun _ _ hs ha => ⟨ha, hs⟩) fun proposed => ?_
  refine Advances.bind (Q := fun approved j =>
      reviewedTaxonomy X s.disk proposed editedClusters rationale = .ok approved ∧
        j.latestTaxonomy = .ok proposed ∧ j.latestRun = some run ∧ j = s.journal)
    (Advances.lift fun _ _ h hj => ⟨h, hj⟩) fun approved => Advances.assuming fun happroved => ?_
  refine Advances.bind (adds_appendApproval fun j hj => ?_) fun _ => Advances.pure fun _ h => h
  obtain ⟨htaxonomy, hrun, rfl⟩ := hj
  exact .mk hvalid hrun htaxonomy happroved

/-- What `approve_cluster` records. -/
inductive RecordsCluster (X : Externals) (s : Project) (clusterId : String)
    (decision : ClusterReviewDecision) : ApprovalRow → Prop
  | mk {run output approved} (valid : ValidManifest s.disk)
      (latest : s.journal.latestRun = some run)
      (completed : s.journal.completedCluster clusterId "cluster has no complete critic report" =
        .ok output)
      (reviewed : reviewedRevision X s.disk output decision = .ok approved) :
      RecordsCluster X s clusterId decision ⟨run.runId, "cluster", clusterId,
        approved.critic.criticHash.hex, .approvedRevision approved⟩

theorem grows_approveCluster (s : Project) (clusterId : String)
    (decision : ClusterReviewDecision) :
    Journal.Grows (Approving (RecordsCluster X s clusterId decision)) s.journal
      (approveCluster X faults clusterId decision s).2.journal := by
  refine grows_openProject (Q := fun _ _ => True) fun hvalid => ?_
  refine Advances.bind adds_attemptIo fun _ => ?_
  refine Advances.bind adds_requireRun fun run => ?_
  refine Advances.bind (Q := fun output j =>
      j.completedCluster clusterId "cluster has no complete critic report" = .ok output ∧
      j.latestRun = some run ∧ j = s.journal)
    (adds_query fun _ _ hs ha => ⟨ha, hs⟩) fun output => ?_
  refine Advances.bind (Q := fun approved j =>
      reviewedRevision X s.disk output decision = .ok approved ∧
      j.completedCluster clusterId "cluster has no complete critic report" = .ok output ∧
      j.latestRun = some run ∧ j = s.journal)
    (Advances.lift fun _ _ h hj => ⟨h, hj⟩) fun approved => Advances.assuming fun happroved => ?_
  refine Advances.bind (adds_appendClusterRevision (fun _ _ => trivial)
    (Q := fun _ => s.journal.completedCluster clusterId "cluster has no complete critic report" =
      .ok output ∧ s.journal.latestRun = some run) fun j k hj _ => ?_) fun _ => ?_
  · obtain ⟨hcompleted, hrun, rfl⟩ := hj
    exact ⟨hcompleted, hrun⟩
  refine Advances.bind (adds_appendApproval fun _ hj => ?_) fun _ => ?_
  · exact .mk hvalid hj.2 hj.1 happroved
  · exact Advances.bind (adds_sealLatestIntegrationPlan fun _ _ _ _ _ _ => trivial)
      fun _ => Advances.pure fun _ h => h

/-! ## Every history -/

theorem recordingHash_of_seal {corpus : IntegrationCorpus} {clusters : List TaxonomyCluster}
    {recordingHash : ContentHash} {taxonomy : TaxonomyProposal}
    (h : TaxonomyProposal.seal X corpus clusters recordingHash = .ok taxonomy) :
    taxonomy.organizerRecordingHash = recordingHash := by
  obtain ⟨-, h⟩ := bind_unit_eq_ok.mp h
  rw [← Except.ok.inj h]

theorem Backed.organizerRecorded {G : Drafts} {b : Ledger} (h : Backed X G b) {run : RunRecord}
    (hrun : b.journal.latestRun = some run) {proposed : TaxonomyTaskOutput}
    (hp : b.journal.latestTaxonomy = .ok proposed) :
    proposed.taxonomy.organizerRecordingHash ∈ b.journal.recordingHashes run.runId := by
  obtain ⟨task, -, hid, hbehind⟩ := h.latestTaxonomy hrun hp
  cases hbehind with
  | organizer sealed recorded => exact recordingHash_of_seal sealed ▸ hid ▸ recorded

theorem nodup_omitted {corpus : IntegrationCorpus} {taxonomy : TaxonomyProposal}
    {cluster : TaxonomyCluster} {p : SynthesisProposal}
    (h : ValidProposal X corpus taxonomy cluster p) : p.omitted.Nodup :=
  h.distinct.sublist (List.filter_sublist.map _)

theorem nodup_minorFindings {documents : List (DocumentId × IntegrationDocument)}
    {p : SynthesisProposal} {c : CriticReport} (h : ValidReport X documents p c) :
    c.minorFindings.Nodup := h.findingIds.sublist (List.filter_sublist.map _)

theorem recorded_of_extends {j k : Journal} (h : j.Extends k) {runId : String}
    {hash : ContentHash} (hmem : hash ∈ j.recordingHashes runId) :
    hash ∈ k.recordingHashes runId :=
  stable_recorded ⟨j, []⟩ ⟨k, []⟩ ⟨h, List.prefix_refl _⟩ hmem

/-- The two rows are inserted, and what comes after them only appends. -/
theorem recordCluster_extends {run : RunRecord} {clusterId : String}
    {approved : ApprovedClusterRevision} {s : Project} (hrun : s.journal.HasRun run.runId)
    (hid : validateIdentifier "approval target" clusterId = .ok ()) :
    (s.journal.recorded run clusterId approved).Extends
      (recordCluster X noFaults run clusterId approved s).2.journal := by
  have hrows : Leads s.journal (s.journal.recorded run clusterId approved) s.disk (do
      insertRow noFaults (.revision ⟨run.runId, clusterId, approved.approval.revisionHash.hex,
        .approvedRevision approved⟩)
      appendApproval noFaults run.runId "cluster" clusterId approved.critic.criticHash.hex
        (.approvedRevision approved)) () :=
    leads_bind (leads_insertRow (.revision hrun)) (leads_appendApproval Lowered.kind_cluster hid
      (validateHexHash_hex _ _) hrun)
  obtain ⟨_, t, ht, rfl, hstored⟩ := hrows.run s rfl
  have hrest : Adds (fun _ _ => True) (fun _ => True) (do
      let _ ← sealLatestIntegrationPlan X noFaults
      pure approved) fun _ _ => True :=
    Advances.bind (adds_sealLatestIntegrationPlan fun _ _ _ _ _ _ => trivial) fun _ =>
      Advances.pure fun _ _ => trivial
  have hmoves := hrest.moves (s := t) trivial
  unfold recordCluster
  have hjournal : t.journal = s.journal.recorded run clusterId approved :=
    congrArg Prod.fst hstored
  rw [← Act.bind_assoc', Act.bind_ok ht, ← hjournal]
  exact Journal.Grows.extends hmoves

/-- The core checks accept the output that the long curator reviews. -/
theorem output_valid (sha256 : Bytes → ContentHash) :
    ∃ cluster, ValidProposal (plainExternals sha256) (bulkCorpus (plainExternals sha256) 1)
        (bulkTaxonomy (plainExternals sha256) 1) cluster
        (Lowered.output (plainExternals sha256)).proposal ∧
      ValidReport (plainExternals sha256)
        (Core.clusterDocuments (bulkCorpus (plainExternals sha256) 1) cluster)
        (Lowered.output (plainExternals sha256)).proposal
        (Lowered.output (plainExternals sha256)).critic := by
  have hplan := bulkPlanAt_valid sha256 Nat.one_pos (by decide) 2 List.mem_cons_self
    (List.nodup_singleton (indexHash 0))
  obtain ⟨cluster, -, hv⟩ := hplan.revision _ (List.mem_singleton_self _)
  exact ⟨cluster, hv.proposal, hv.report⟩

end

end Okc.App
