import Okc.App.Sealing
import Okc.Lib.SortBy

/-!
# How long a sealed plan is current (`project_state.rs:669-809`)

`seal_latest_integration_plan` decides by hashes what is approved, and
`latest_approved_integration_plan` compares a stored plan with the approvals again. Both read the
runs, the approvals and the requests; a plan also lists the recordings of its run, which a later
call of the pipeline may add to.

* `SameApprovals`: two plans that differ at most in their recordings and in the identity made of
  them.
* `Journal.Sealed`: the last plan of the run was sealed from what is approved.
* `keeps_of_moved`: it stays so until the next run, approval or request.
* `resealed`: what is returned can be sealed again.
* `sealed_until`: both, in every history of services.
-/

namespace Okc.App

open Okc.Lib Okc.Core

/-! ## The same approvals -/

/-- No run, approval or request was added. -/
structure Journal.SameReview (j k : Journal) : Prop where
  runs : k.runs = j.runs
  approvals : k.approvals = j.approvals
  feedback : k.feedback = j.feedback

/-- The plans are made of the same approvals. -/
structure SameApprovals (p q : ApprovedIntegrationPlan) : Prop where
  corpus : q.corpus = p.corpus
  taxonomy : q.taxonomy = p.taxonomy
  taxonomyApproval : q.taxonomyApproval = p.taxonomyApproval
  clusters : q.clusters = p.clusters

section

variable {X : Externals} {j k l : Journal} {runId : String} {p q : ApprovedIntegrationPlan}

theorem Journal.SameReview.latestRun (h : j.SameReview k) : k.latestRun = j.latestRun := by
  unfold Journal.latestRun
  rw [h.runs]

theorem Journal.SameReview.latestApproval (h : j.SameReview k) {α : Type}
    (decode : Object → Except AppError α) (kind target : String) :
    k.latestApproval decode runId kind target = j.latestApproval decode runId kind target := by
  unfold Journal.latestApproval Journal.approvalRow
  rw [h.approvals]

theorem Journal.SameReview.carries (h : j.SameReview k) {clusterId : String}
    {r : ApprovedClusterRevision} (hc : j.Carries runId clusterId r) :
    k.Carries runId clusterId r where
  approval := (h.latestApproval _ _ _).trans hc.approval
  current := by
    have hsame : k.superseded runId clusterId r.proposal.revision =
        j.superseded runId clusterId r.proposal.revision := by
      unfold Journal.superseded Journal.latestClusterRegeneration
      rw [h.feedback]
    exact hsame.trans hc.current

theorem Journal.SameReview.regenerated (h : j.SameReview k) (hj : j.Regenerated) :
    k.Regenerated := by
  refine ⟨h.approvals ▸ hj.own, fun row hrow => ?_⟩
  unfold Journal.latestClusterRegeneration
  rw [h.feedback] at hrow ⊢
  exact hj.greatest row hrow

theorem sameReview_of_plan {row : PlanRow} (h : j.Inserted (.plan row) k) :
    j.SameReview k ∧ k.exchanges = j.exchanges := by
  cases h with
  | plan _ => exact ⟨⟨rfl, rfl, rfl⟩, rfl⟩

theorem Journal.SameReview.carriesTaxonomy (h : j.SameReview k) {approved : ApprovedTaxonomy}
    (ht : j.CarriesTaxonomy runId approved) : k.CarriesTaxonomy runId approved :=
  (h.latestApproval _ _ _).trans ht

/-- A journal carries one revision of a cluster. -/
theorem Journal.Carries.unique {clusterId : String} {r r' : ApprovedClusterRevision}
    (h : j.Carries runId clusterId r) (h' : j.Carries runId clusterId r') : r' = r := by
  have hrecord := Option.some.inj (Except.ok.inj (h.approval.symm.trans h'.approval))
  exact (congrArg ApprovalRecord.value hrecord).symm

/-- **Sealing depends on the approvals and the recordings only.** -/
theorem sameApprovals_of_sealed {runId' : String} (h : j.SameReview k)
    (hp : j.sealedPlan X = .ok (some (runId, p))) (hq : k.sealedPlan X = .ok (some (runId', q))) :
    runId' = runId ∧ SameApprovals p q ∧
      (k.recordingHashes runId = j.recordingHashes runId → q = p) := by
  obtain ⟨run, approved, revisions, hrun, rfl, htaxonomy, hrevisions, hseal⟩ := sealedPlan_iff.mp hp
  obtain ⟨run', approved', revisions', hrun', rfl, htaxonomy', hrevisions', hseal'⟩ :=
    sealedPlan_iff.mp hq
  obtain rfl : run' = run := Option.some.inj (hrun'.symm.trans (h.latestRun.trans hrun))
  obtain rfl : approved' = approved := by
    have hrecord := Option.some.inj (Except.ok.inj
      (htaxonomy'.symm.trans (h.carriesTaxonomy htaxonomy)))
    exact congrArg ApprovalRecord.value hrecord
  have hunique : Relator.RightUnique fun (cluster : TaxonomyCluster) r =>
      k.Carries run'.runId cluster.clusterId r ∧
        r.proposal.taxonomyHash = approved'.taxonomy.taxonomyHash :=
    fun _ _ _ hr hr' => hr'.1.unique hr.1
  obtain rfl : revisions' = revisions := List.right_unique_forall₂' hunique hrevisions'
    (hrevisions.imp fun _ _ hr => ⟨h.carries hr.1, hr.2⟩)
  have hs := sealed_spec hseal
  have hs' := sealed_spec hseal'
  have htax : planTaxonomy q = planTaxonomy p := hs'.taxonomy.trans hs.taxonomy.symm
  refine ⟨rfl, ⟨congrArg ApprovedTaxonomy.corpus htax, congrArg ApprovedTaxonomy.taxonomy htax,
    congrArg ApprovedTaxonomy.approval htax, hs'.clusters.trans hs.clusters.symm⟩, fun hsame => ?_⟩
  rw [hsame] at hseal'
  exact Except.ok.inj (hseal'.symm.trans hseal)

/-! ## The last plan of the run -/

/-- The last plan of the run was sealed from what is approved. -/
structure Journal.Sealed (X : Externals) (j : Journal) (run : RunRecord)
    (p : ApprovedIntegrationPlan) : Prop where
  latestRun : j.latestRun = some run
  row : latest (fun row => row.runId = run.runId) j.plans =
    some ⟨run.runId, p.integrationPlanId, planObjectHash X p, p⟩
  valid : ValidPlan X p
  taxonomy : j.CarriesTaxonomy run.runId (planTaxonomy p)
  revisions : ∀ r ∈ p.clusters, j.Carries run.runId r.proposal.clusterId r

variable {run : RunRecord}

/-- Such a plan is returned. -/
theorem Journal.Sealed.returned (h : j.Sealed X run p) :
    j.latestApprovedIntegrationPlan X = .ok (some p) := by
  refine latestApproved_iff.mpr ⟨⟨run.runId, p.integrationPlanId, planObjectHash X p, p⟩, ?_, rfl,
    rfl, validatePlan_eq_ok.mpr h.valid, rfl, planCurrent_iff.mpr ⟨h.taxonomy, h.revisions⟩⟩
  unfold Journal.planRow
  rw [h.latestRun]
  exact h.row

theorem Journal.Sealed.same (h : j.Sealed X run p) (hsame : j.SameReview k)
    (hplans : k.plans = j.plans) : k.Sealed X run p where
  latestRun := hsame.latestRun.trans h.latestRun
  row := by rw [hplans, h.row]
  valid := h.valid
  taxonomy := hsame.carriesTaxonomy h.taxonomy
  revisions r hr := hsame.carries (h.revisions r hr)

/-- **What was sealed is returned** once its row is there. -/
theorem sealed_of_inserted (hj : j.Regenerated) (hp : j.sealedPlan X = .ok (some (runId, p)))
    (hi : j.Inserted (.plan ⟨runId, p.integrationPlanId, planObjectHash X p, p⟩) k) :
    ∃ run, runId = run.runId ∧ k.Sealed X run p := by
  obtain ⟨run, approved, revisions, hrun, rfl, htaxonomy, hrevisions, hseal⟩ := sealedPlan_iff.mp hp
  have hs := sealed_spec hseal
  refine ⟨run, rfl, ?_⟩
  cases hi with
  | plan _ =>
    refine ⟨hrun, by simp, hs.valid, ?_, fun r hr => ?_⟩
    · rw [hs.taxonomy]
      exact htaxonomy
    · obtain ⟨cluster, -, hc, -⟩ := exists_of_forall₂ hrevisions r (hs.mem_clusters.mp hr)
      have hown : r.proposal.clusterId = cluster.clusterId := hj.own_latest hc.approval
      rw [hown]
      exact ⟨hc.approval, hc.current⟩

/-! ## Until the next approval -/

theorem eq_of_prefixes {α : Type} {as bs cs : List α} (hab : as <+: bs) (hbc : bs <+: cs)
    (h : cs = as) : bs = as :=
  (hab.eq_of_length_le (h ▸ hbc.length_le)).symm

theorem Journal.SameReview.of_extends (hjk : j.Extends k) (hkl : k.Extends l)
    (h : j.SameReview l) : j.SameReview k where
  runs := eq_of_prefixes hjk.runs hkl.runs h.runs
  approvals := eq_of_prefixes hjk.approvals hkl.approvals h.approvals
  feedback := eq_of_prefixes hjk.feedback hkl.feedback h.feedback

/-- As long as `k` has the approvals of `j`, the last plan is one of these approvals. It is another
one only where a plan was stored since and an exchange recorded. -/
def Journal.Keeps (X : Externals) (j k : Journal) (run : RunRecord)
    (p : ApprovedIntegrationPlan) : Prop :=
  j.SameReview k → ∃ q, k.Sealed X run q ∧ SameApprovals p q ∧
    (k.plans = j.plans ∨ k.exchanges = j.exchanges → q = p)

/-- **One write.** -/
theorem keeps_of_inserted {i : Journal} {registered : List (RunRecord × Registration)} {row : Row}
    (hrun : i.latestRun = some run) (hp : i.sealedPlan X = .ok (some (run.runId, p)))
    (hi : i.SameReview j) (hexchanges : j.exchanges = i.exchanges) (hjk : j.Extends k)
    (hk : k.Regenerated) (h : j.Keeps X k run p)
    (served : Served X .any ⟨k, registered⟩ row) (inserted : k.Inserted row l) :
    j.Keeps X l run p := by
  intro hsame
  have hkl := inserted.extends
  have hsame' := Journal.SameReview.of_extends hjk hkl hsame
  have hplan : k.plans = l.plans → ∃ q, l.Sealed X run q ∧ SameApprovals p q ∧
      (l.plans = j.plans ∨ l.exchanges = j.exchanges → q = p) := fun hplans => by
    obtain ⟨q, hsealed, hq, hqp⟩ := h hsame'
    have hreview : k.SameReview l := ⟨hsame.runs.trans hsame'.runs.symm,
      hsame.approvals.trans hsame'.approvals.symm, hsame.feedback.trans hsame'.feedback.symm⟩
    exact ⟨q, hsealed.same hreview hplans.symm, hq, fun hold => hqp (hold.imp hplans.trans
      (eq_of_prefixes hjk.exchanges hkl.exchanges))⟩
  cases inserted with
  | plan hid =>
    cases served with
    | @plan runId q hq =>
      have hreview : i.SameReview k := ⟨hsame'.runs.trans hi.runs,
        hsame'.approvals.trans hi.approvals, hsame'.feedback.trans hi.feedback⟩
      obtain ⟨rfl, hpq, hsealed⟩ := sameApprovals_of_sealed hreview hp hq
      obtain ⟨run', -, hl⟩ := sealed_of_inserted hk hq (.plan hid)
      obtain rfl : run' = run := Option.some.inj
        (hl.latestRun.symm.trans (hreview.latestRun.trans hrun))
      refine ⟨q, hl, hpq, fun hold => hold.elim (fun hplans => ?_) fun hsame => hsealed ?_⟩
      · have hlen := hjk.plans.length_le
        have := congrArg List.length hplans
        simp only [List.length_append, List.length_singleton] at this
        omega
      · unfold Journal.recordingHashes
        rw [← hexchanges, hsame]
  | _ => exact hplan rfl

theorem regenerated_of_moved {b c : Ledger} (h : Relation.ReflTransGen (Moved X .any) b c)
    (hb : b.journal.Regenerated) : c.journal.Regenerated :=
  regenerated_of_grows (grows_of_moved h) hb

/-- **A sealed plan is current until the next run, approval or request.** -/
theorem keeps_of_moved {i : Journal} {b c : Ledger} (hrun : i.latestRun = some run)
    (hp : i.sealedPlan X = .ok (some (run.runId, p))) (hi : i.SameReview b.journal)
    (hexchanges : b.journal.exchanges = i.exchanges) (hb : b.journal.Regenerated)
    (hsealed : b.journal.Sealed X run p) (h : Relation.ReflTransGen (Moved X .any) b c) :
    b.journal.Keeps X c.journal run p := by
  induction h with
  | refl => exact fun _ => ⟨p, hsealed, ⟨rfl, rfl, rfl, rfl⟩, fun _ => rfl⟩
  | tail hbc hm ih =>
    cases hm with
    | insert served inserted =>
      have hgrows := @grows_of_moved X (fun _ => True) (fun _ _ => True) _ _ hbc
      exact keeps_of_inserted hrun hp hi hexchanges hgrows.extends (regenerated_of_moved hbc hb) ih
        served inserted
    | note => exact ih

/-! ## What is returned can be sealed -/

/-- A plan of the run lists recordings of the run, and its revisions in the order of the
clusters. -/
def Journal.PlansRecorded (j : Journal) : Prop := ∀ row ∈ j.plans,
  row.plan.clusters.Pairwise (fun r r' => r.proposal.clusterId ≤ r'.proposal.clusterId) ∧
    row.plan.providerRecordingHashes ⊆ j.recordingHashes row.runId

theorem SealedFrom.plansRecorded {approved : ApprovedTaxonomy}
    {revisions : List ApprovedClusterRevision} {recordings : List ContentHash}
    (h : SealedFrom X approved revisions recordings p) :
    p.clusters.Pairwise (fun r r' => r.proposal.clusterId ≤ r'.proposal.clusterId) ∧
      p.providerRecordingHashes ⊆ recordings := by
  constructor
  · rw [h.clusters]
    exact pairwise_sortBy (fun r : ApprovedClusterRevision => r.proposal.clusterId) revisions
  · intro hash hmem
    rw [h.recordings, List.mem_dedup, List.mem_mergeSort] at hmem
    exact hmem

theorem plansRecorded_of_moved {b c : Ledger} (h : Relation.ReflTransGen (Moved X .any) b c)
    (hb : b.journal.PlansRecorded) : c.journal.PlansRecorded := by
  induction h with
  | refl => exact hb
  | tail _ hm ih =>
    cases hm with
    | note => exact ih
    | @insert j k registered row served inserted =>
      have hold : ∀ row ∈ j.plans, _ := fun row hrow => (⟨(ih row hrow).1, fun _ hmem =>
        recorded_of_extends inserted.extends ((ih row hrow).2 hmem)⟩ : _ ∧
          row.plan.providerRecordingHashes ⊆ k.recordingHashes row.runId)
      cases inserted with
      | plan hid =>
        intro row hrow
        rcases List.mem_append.mp hrow with hrow | hrow
        · exact hold row hrow
        · obtain rfl := List.mem_singleton.mp hrow
          cases served with
          | plan hs =>
            obtain ⟨run, approved, revisions, -, rfl, -, -, hseal⟩ := sealedPlan_iff.mp hs
            exact (sealed_spec hseal).plansRecorded
      | _ => exact hold

/-- The recordings as a plan lists them. -/
def listedRecordings (recordings : List ContentHash) : List ContentHash :=
  (recordings.mergeSort fun a b => a.hex ≤ b.hex).dedup

theorem mem_listedRecordings {recordings : List ContentHash} {hash : ContentHash} :
    hash ∈ listedRecordings recordings ↔ hash ∈ recordings := by
  rw [listedRecordings, List.mem_dedup, List.mem_mergeSort]

/-- The plan with other recordings. -/
def rerecorded (X : Externals) (p : ApprovedIntegrationPlan) (recordings : List ContentHash) :
    ApprovedIntegrationPlan where
  formatFamily := "okc"
  schemaVersion := integrationSchemaVersion
  integrationPlanId := expectedPlanId X (planIdentity p.corpus.corpusHash p.corpus.policyHash
    p.taxonomy.taxonomyHash p.taxonomyApproval p.clusters recordings)
  corpus := p.corpus
  taxonomy := p.taxonomy
  taxonomyApproval := p.taxonomyApproval
  clusters := p.clusters
  providerRecordingHashes := recordings

theorem valid_rerecorded (h : ValidPlan X p) {recordings : List ContentHash}
    (hsub : p.providerRecordingHashes ⊆ recordings) (hnodup : recordings.Nodup) :
    ValidPlan X (rerecorded X p recordings) :=
  { h with
    formatFamily := rfl
    schemaVersion := rfl
    recorded := fun hnil => h.recorded (List.subset_nil.mp (hnil ▸ hsub))
    recordingsDistinct := hnodup
    organizer := hsub h.organizer
    revision := fun r hr => by
      obtain ⟨cluster, hcluster, hv⟩ := h.revision r hr
      exact ⟨cluster, hcluster, hv.proposal, hv.report, hv.approval,
        hsub hv.synthesisRecording, hsub hv.criticRecording⟩
    planId := rfl }

theorem seal_eq_rerecorded (h : ValidPlan X p)
    (hsorted : p.clusters.Pairwise fun r r' => r.proposal.clusterId ≤ r'.proposal.clusterId)
    {recordings : List ContentHash} (hsub : p.providerRecordingHashes ⊆ recordings) :
    ApprovedIntegrationPlan.seal X p.corpus p.taxonomy p.taxonomyApproval p.clusters recordings =
      .ok (rerecorded X p (listedRecordings recordings)) := by
  have hself : (p.clusters.mergeSort fun a b => a.proposal.clusterId ≤ b.proposal.clusterId) =
      p.clusters :=
    @sortBy_eq_self _ _ _ (fun r : ApprovedClusterRevision => r.proposal.clusterId) _ hsorted
  have hvalid := validatePlan_eq_ok.mpr (valid_rerecorded h
    (fun _ hmem => mem_listedRecordings.mpr (hsub hmem)) (List.nodup_dedup _))
  unfold ApprovedIntegrationPlan.seal
  rw [hself]
  exact bind_unit_eq_ok.mpr ⟨hvalid, rfl⟩

/-- The revisions of a valid plan are those of its clusters, in their order. -/
theorem forall₂_clusters (h : ValidPlan X p)
    (hsorted : p.clusters.Pairwise fun r r' => r.proposal.clusterId ≤ r'.proposal.clusterId) :
    List.Forall₂ (fun cluster r => r.proposal.clusterId = cluster.clusterId) p.taxonomy.clusters
      p.clusters := by
  have hids : p.taxonomy.clusters.map TaxonomyCluster.clusterId =
      p.clusters.map fun r => r.proposal.clusterId :=
    h.clusterIds_perm.symm.eq_of_pairwise (fun _ _ _ _ hab hba => le_antisymm hab hba)
      (h.taxonomy.sorted.imp le_of_lt) (List.pairwise_map.mpr hsorted)
  have hsame : List.Forall₂ Eq (p.taxonomy.clusters.map TaxonomyCluster.clusterId)
      (p.clusters.map fun r => r.proposal.clusterId) := by
    rw [hids]
    exact List.forall₂_refl _
  exact (List.forall₂_map_right_iff.mp (List.forall₂_map_left_iff.mp hsame)).imp
    fun _ _ => Eq.symm

/-- **What is returned can be sealed**, with the recordings of the run as they are now. -/
theorem resealed (h : j.PlansRecorded)
    (hl : j.latestApprovedIntegrationPlan X = .ok (some p)) : ∃ runId, j.sealedPlan X =
      .ok (some (runId, rerecorded X p (listedRecordings (j.recordingHashes runId)))) := by
  obtain ⟨row, hrow, rfl, -, hvalid, -, hcurrent⟩ := latestApproved_iff.mp hl
  obtain ⟨run, hrun, hmem, hid⟩ := planRow_spec hrow
  obtain ⟨hsorted, hsub⟩ := h row hmem
  obtain ⟨htaxonomy, hrevisions⟩ := planCurrent_iff.mp hcurrent
  have hv := validatePlan_eq_ok.mp hvalid
  refine ⟨row.runId, sealedPlan_iff.mpr ⟨run, planTaxonomy row.plan, row.plan.clusters, hrun, hid,
    htaxonomy, ?_, seal_eq_rerecorded hv hsorted hsub⟩⟩
  have hheld : ∀ r ∈ row.plan.clusters, j.Carries row.runId r.proposal.clusterId r ∧
      r.proposal.taxonomyHash = row.plan.taxonomy.taxonomyHash := fun r hr => by
    obtain ⟨cluster, -, hrevision⟩ := hv.revision r hr
    exact ⟨hrevisions r hr, hrevision.proposal.taxonomyHash⟩
  have hpaired := (List.forall₂_and_left _ _).mpr ⟨hheld, (forall₂_clusters hv hsorted).flip⟩
  exact hpaired.flip.imp fun cluster r hr => ⟨hr.2 ▸ hr.1.1, hr.1.2⟩

/-! ## Every history -/

theorem regenerated_create (manifest : ProjectManifest) :
    (Session.create manifest).project.journal.Regenerated :=
  ⟨fun _ hrow => absurd hrow List.not_mem_nil, fun _ hrow => absurd hrow List.not_mem_nil⟩

/-- What a call of `seal_latest_integration_plan` that returns a plan has done. -/
theorem sealed_of_seal {faults : Faults} {s t : Project}
    (h : sealLatestIntegrationPlan X faults s = (.ok (some p), t)) :
    ∃ runId, s.journal.sealedPlan X = .ok (some (runId, p)) ∧
      s.journal.Inserted (.plan ⟨runId, p.integrationPlanId, planObjectHash X p, p⟩) t.journal := by
  have hspec : Adds (fun _ _ => True) (· = s.journal) (sealLatestIntegrationPlan X faults)
      fun found k => ∀ p, found = some p → ∃ runId, s.journal.sealedPlan X = .ok (some (runId, p)) ∧
        s.journal.Inserted (.plan ⟨runId, p.integrationPlanId, planObjectHash X p, p⟩) k := by
    refine Advances.bind (Q := fun found j => j.sealedPlan X = .ok found ∧ j = s.journal)
      (adds_query fun _ _ hs ha => ⟨ha, hs⟩) fun found => ?_
    cases found with
    | none => exact Advances.pure fun _ _ _ hp => by cases hp
    | some found =>
      obtain ⟨runId, plan⟩ := found
      refine Advances.bind (adds_storeApprovedIntegrationPlan (fun _ _ _ => trivial)
        fun j k hj hi => ?_) fun _ => Advances.pure fun k hk => hk
      intro q hq
      obtain rfl := Option.some.inj hq
      obtain ⟨hsealed, rfl⟩ := hj
      exact ⟨runId, hsealed, hi⟩
  exact hspec.ok rfl h p rfl

end

end Okc.App
