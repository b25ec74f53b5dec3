import Okc.App.Review

/-!
# What the plan queries read

The conditions under which a stored plan is current and those under which a plan is sealed, as
statements about the latest approvals of the run.

* `Journal.Carries`: the latest approval of a cluster carries this revision, which no request
  supersedes. Both loops ask for it (`revisionsCurrent_eq_true`, `approvedRevisions_eq_some`).
* `planCurrent_iff`, `sealedPlan_iff`: the two queries.
* `sealed_spec`: what `ApprovedIntegrationPlan.seal` makes of its arguments.
-/

namespace Okc.App

open Okc.Lib Okc.Core

section

variable {X : Externals} {j : Journal} {runId : String}

/-- The latest approval of the cluster is one of this revision, and no later revision was asked
for. -/
structure Journal.Carries (j : Journal) (runId clusterId : String)
    (r : ApprovedClusterRevision) : Prop where
  approval : j.latestApproval Object.asApprovedRevision runId "cluster" clusterId =
    .ok (some ⟨r.critic.criticHash.hex, r⟩)
  current : j.superseded runId clusterId r.proposal.revision = false

theorem superseded_eq_false {clusterId : String} {revision : Nat} :
    j.superseded runId clusterId revision = false ↔
      ∀ request, j.latestClusterRegeneration runId clusterId = some request →
        request.revision ≤ revision := by
  unfold Journal.superseded
  cases j.latestClusterRegeneration runId clusterId with
  | none => simp
  | some request => simp

/-- The cluster loop of `integration_plan_is_current`. -/
theorem revisionsCurrent_eq_true : ∀ {revisions : List ApprovedClusterRevision},
    j.revisionsCurrent runId revisions = .ok true ↔
      ∀ r ∈ revisions, j.Carries runId r.proposal.clusterId r
  | [] => by simp [Journal.revisionsCurrent]
  | r :: rest => by
    have ih := @revisionsCurrent_eq_true rest
    rw [List.forall_mem_cons, ← ih, Journal.revisionsCurrent]
    constructor
    · intro h
      obtain ⟨approval, ha, hrest⟩ := bind_eq_ok.mp h
      cases approval with
      | none => cases hrest
      | some approval =>
        obtain ⟨targetHash, value⟩ := approval
        dsimp only at hrest
        split at hrest
        · cases hrest
        · rename_i hsame
          split at hrest
          · cases hrest
          · rename_i hs
            simp only [not_or, not_not] at hsame
            obtain ⟨rfl, rfl⟩ := hsame
            exact ⟨⟨ha, by simpa using hs⟩, hrest⟩
    · rintro ⟨hc, h⟩
      rw [hc.approval]
      simp [bind, Except.bind, hc.current, h]

/-- The cluster loop of `seal_latest_integration_plan`. -/
theorem approvedRevisions_eq_some {taxonomyHash : ContentHash} :
    ∀ {clusters : List TaxonomyCluster} {revisions : List ApprovedClusterRevision},
      j.approvedRevisions runId taxonomyHash clusters = .ok (some revisions) ↔
        List.Forall₂ (fun cluster r => j.Carries runId cluster.clusterId r ∧
          r.proposal.taxonomyHash = taxonomyHash) clusters revisions
  | [], revisions => by
    simp [Journal.approvedRevisions, eq_comm]
  | cluster :: rest, revisions => by
    have ih := @approvedRevisions_eq_some taxonomyHash rest
    rw [Journal.approvedRevisions]
    constructor
    · intro h
      obtain ⟨approved, ha, h⟩ := bind_eq_ok.mp h
      cases approved with
      | none => cases h
      | some approved =>
        obtain ⟨targetHash, value⟩ := approved
        dsimp only at h
        split at h
        · cases h
        · rename_i hbad
          simp only [not_or, not_not, Bool.not_eq_true] at hbad
          obtain ⟨found, hf, h⟩ := bind_eq_ok.mp h
          obtain ⟨tail, rfl, rfl⟩ := Option.map_eq_some_iff.mp (Except.ok.inj h)
          obtain ⟨rfl, hhash, hs⟩ := hbad
          exact .cons ⟨⟨ha, hs⟩, hhash⟩ (ih.mp hf)
    · intro h
      cases h with
      | cons hc hrest =>
        obtain ⟨hc, hhash⟩ := hc
        rw [hc.approval]
        simp [bind, Except.bind, hc.current, hhash, ih.mpr hrest]

/-- The taxonomy's latest approval is this one. -/
def Journal.CarriesTaxonomy (j : Journal) (runId : String) (approved : ApprovedTaxonomy) : Prop :=
  j.latestApproval Object.asApprovedTaxonomy runId "taxonomy" "taxonomy" =
    .ok (some ⟨approved.taxonomy.taxonomyHash.hex, approved⟩)

/-- The approval that a plan is made from. -/
def planTaxonomy (plan : ApprovedIntegrationPlan) : ApprovedTaxonomy :=
  ⟨plan.corpus, plan.taxonomy, plan.taxonomyApproval⟩

/-- **A plan is current** where the latest approvals are those it was made from. -/
theorem planCurrent_iff {plan : ApprovedIntegrationPlan} :
    j.integrationPlanIsCurrent runId plan = .ok true ↔
      j.CarriesTaxonomy runId (planTaxonomy plan) ∧
        ∀ r ∈ plan.clusters, j.Carries runId r.proposal.clusterId r := by
  rw [← revisionsCurrent_eq_true, Journal.integrationPlanIsCurrent, Journal.CarriesTaxonomy]
  constructor
  · intro h
    obtain ⟨taxonomy, ht, h⟩ := bind_eq_ok.mp h
    cases taxonomy with
    | none => cases h
    | some taxonomy =>
      obtain ⟨targetHash, corpus, taxonomy, approval⟩ := taxonomy
      dsimp only at h
      split at h
      · cases h
      · rename_i hbad
        simp only [not_or, not_not] at hbad
        obtain ⟨rfl, rfl, rfl, rfl⟩ := hbad
        exact ⟨ht, h⟩
  · rintro ⟨ht, h⟩
    rw [ht]
    simpa [bind, Except.bind, planTaxonomy] using h

/-- What `latest_approved_integration_plan` returns. -/
theorem latestApproved_iff {plan : ApprovedIntegrationPlan} :
    j.latestApprovedIntegrationPlan X = .ok (some plan) ↔
      ∃ row, j.planRow = some row ∧ row.plan = plan ∧ planObjectHash X plan = row.planHash ∧
        validatePlan X plan = .ok () ∧ plan.integrationPlanId = row.planId ∧
        j.integrationPlanIsCurrent row.runId plan = .ok true := by
  unfold Journal.latestApprovedIntegrationPlan
  cases hrow : j.planRow with
  | none => simp
  | some row =>
    dsimp only
    constructor
    · intro h
      obtain ⟨hh, h⟩ := bind_unit_eq_ok.mp h
      obtain ⟨hv, h⟩ := bind_unit_eq_ok.mp h
      obtain ⟨hi, h⟩ := bind_unit_eq_ok.mp h
      obtain ⟨current, hc, h⟩ := bind_eq_ok.mp h
      cases current with
      | false => simp at h
      | true =>
        obtain rfl : row.plan = plan := by simpa using h
        exact ⟨row, rfl, rfl, not_not.mp (reject_eq_ok.mp hh), liftCore_eq_ok.mp hv,
          not_not.mp (reject_eq_ok.mp hi), hc⟩
    · rintro ⟨row', hr, rfl, hh, hv, hi, hc⟩
      obtain rfl := Option.some.inj hr
      refine bind_unit_eq_ok.mpr ⟨reject_eq_ok.mpr (not_not.mpr hh), bind_unit_eq_ok.mpr
        ⟨liftCore_eq_ok.mpr hv, bind_unit_eq_ok.mpr ⟨reject_eq_ok.mpr (not_not.mpr hi),
          bind_eq_ok.mpr ⟨true, hc, rfl⟩⟩⟩⟩

/-- **What `seal_latest_integration_plan` seals.** -/
theorem sealedPlan_iff {plan : ApprovedIntegrationPlan} :
    j.sealedPlan X = .ok (some (runId, plan)) ↔
      ∃ run approved revisions, j.latestRun = some run ∧ runId = run.runId ∧
        j.CarriesTaxonomy runId approved ∧
        List.Forall₂ (fun cluster r => j.Carries runId cluster.clusterId r ∧
          r.proposal.taxonomyHash = approved.taxonomy.taxonomyHash)
          approved.taxonomy.clusters revisions ∧
        ApprovedIntegrationPlan.seal X approved.corpus approved.taxonomy approved.approval
          revisions (j.recordingHashes runId) = .ok plan := by
  unfold Journal.sealedPlan Journal.CarriesTaxonomy
  cases hrun : j.latestRun with
  | none => simp
  | some run =>
    dsimp only
    constructor
    · intro h
      obtain ⟨taxonomy, ht, h⟩ := bind_eq_ok.mp h
      cases taxonomy with
      | none => cases h
      | some taxonomy =>
        obtain ⟨targetHash, approved⟩ := taxonomy
        dsimp only at h
        split at h
        · cases h
        · rename_i hhash
          obtain rfl := not_not.mp hhash
          obtain ⟨revisions, hr, h⟩ := bind_eq_ok.mp h
          cases revisions with
          | none => cases h
          | some revisions =>
            obtain ⟨p, hp, h⟩ := bind_eq_ok.mp h
            obtain ⟨rfl, rfl⟩ := Prod.mk.inj (Option.some.inj (Except.ok.inj h))
            exact ⟨run, approved, revisions, rfl, rfl, ht, approvedRevisions_eq_some.mp hr,
              liftCore_eq_ok.mp hp⟩
    · rintro ⟨run', approved, revisions, hr, rfl, ht, hrevs, hp⟩
      obtain rfl := Option.some.inj hr
      refine bind_eq_ok.mpr ⟨_, ht, ?_⟩
      dsimp only
      rw [if_neg (not_not.mpr rfl)]
      exact bind_eq_ok.mpr ⟨_, approvedRevisions_eq_some.mpr hrevs,
        bind_eq_ok.mpr ⟨plan, liftCore_eq_ok.mpr hp, rfl⟩⟩

end

/-- What is sealed. -/
structure SealedFrom (X : Externals) (approved : ApprovedTaxonomy)
    (revisions : List ApprovedClusterRevision) (recordings : List ContentHash)
    (plan : ApprovedIntegrationPlan) : Prop where
  taxonomy : planTaxonomy plan = approved
  clusters : plan.clusters =
    revisions.mergeSort fun a b => a.proposal.clusterId ≤ b.proposal.clusterId
  recordings : plan.providerRecordingHashes =
    (recordings.mergeSort fun a b => a.hex ≤ b.hex).dedup
  valid : ValidPlan X plan

theorem sealed_spec {X : Externals} {corpus : IntegrationCorpus} {taxonomy : TaxonomyProposal}
    {approval : ApprovalBinding} {revisions : List ApprovedClusterRevision}
    {recordings : List ContentHash} {plan : ApprovedIntegrationPlan}
    (h : ApprovedIntegrationPlan.seal X corpus taxonomy approval revisions recordings = .ok plan) :
    SealedFrom X ⟨corpus, taxonomy, approval⟩ revisions recordings plan := by
  unfold ApprovedIntegrationPlan.seal at h
  obtain ⟨hv, h⟩ := bind_unit_eq_ok.mp h
  obtain rfl := Except.ok.inj h
  exact ⟨rfl, rfl, rfl, validatePlan_eq_ok.mp hv⟩

theorem SealedFrom.mem_clusters {X : Externals} {approved : ApprovedTaxonomy}
    {revisions : List ApprovedClusterRevision} {recordings : List ContentHash}
    {plan : ApprovedIntegrationPlan} (h : SealedFrom X approved revisions recordings plan)
    {r : ApprovedClusterRevision} : r ∈ plan.clusters ↔ r ∈ revisions := by
  rw [h.clusters, List.mem_mergeSort]

end Okc.App
