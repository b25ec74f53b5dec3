import Okc.App.Store

/-!
# Reviewing proposals (`okc-app/src/integration_service.rs:90-150`, `210-463`)

The curator's side of the integration service: approving a taxonomy, reading the completed clusters,
asking for a regeneration and approving a cluster. Each function opens the project anew, takes the
writer lock and works on the latest run.

* The decision of a function (which approval it records) is a pure function of the journal, the
  manifest and the arguments; the operation records it.
* A map of the source is a sorted association list.

Results:
* `completedClusters_spec`: what `completed_clusters` returns: by cluster the response of the greatest
  revision.
* `completed_spec`: what a completed cluster output is: the response of a complete critic task of
  the approved taxonomy that no regeneration supersedes.
* `reviewed_of_reviewedRevision`: what `approve_cluster` records.
-/

namespace Okc.App

open Okc.Lib Okc.Core

/-- `require_run`. -/
def Journal.requireRun (j : Journal) : Except AppError RunRecord :=
  match j.latestRun with
  | none => .error (.invalidProject "project has no integration run")
  | some run => .ok run

/-! ## Taxonomies -/

/-- `latest_taxonomy`. -/
def Journal.latestTaxonomy (j : Journal) : Except AppError TaxonomyTaskOutput := do
  let run ← j.requireRun
  match latest (fun task => task.status = .complete) (j.tasksForStage run.runId .organizer) with
  | none => .error (.invalidProject "no complete taxonomy proposal")
  | some task => completeTaskResponse Object.asTaxonomyOutput task

/-- What `approve_taxonomy` records. -/
def reviewedTaxonomy (X : Externals) (manifest : ProjectManifest) (proposed : TaxonomyTaskOutput)
    (editedClusters : Option (List TaxonomyCluster)) (rationale : Option String) :
    Except AppError ApprovedTaxonomy := do
  reject (editedClusters.isSome ∧ rationale.all (· = ""))
    (.invalidProject "edited taxonomy approval requires a rationale")
  let taxonomy ← match editedClusters with
    | some clusters => liftCore (TaxonomyProposal.seal X proposed.corpus clusters
        proposed.taxonomy.organizerRecordingHash)
    | none => .ok proposed.taxonomy
  .ok {
    corpus := proposed.corpus
    taxonomy := taxonomy
    approval := {
      targetHash := taxonomy.taxonomyHash
      approved := true
      curatorId := manifest.curatorId
      policyVersion := manifest.policyVersion
      rationale := rationale } }

/-! ## Completed clusters -/

/-- The task loop of `completed_clusters`. -/
def Journal.keepLatest (j : Journal) (runId : String) (taxonomyHash : ContentHash)
    (kept : List (String × ClusterTaskOutput)) (task : TaskState) :
    Except AppError (List (String × ClusterTaskOutput)) := do
  let output ← completeTaskResponse Object.asClusterOutput task
  if output.proposal.taxonomyHash ≠ taxonomyHash ∨
      j.superseded runId output.proposal.clusterId output.proposal.revision then .ok kept
  else if (get? output.proposal.clusterId kept).all
      (·.proposal.revision ≤ output.proposal.revision) then
    .ok (insertKey output.proposal.clusterId output kept)
  else .ok kept

/-- `completed_clusters`. -/
def Journal.completedClusters (j : Journal) : Except AppError (List ClusterTaskOutput) := do
  let run ← j.requireRun
  let taxonomy ← j.latestApproval Object.asApprovedTaxonomy run.runId "taxonomy" "taxonomy"
  match taxonomy with
  | none => .ok []
  | some taxonomy => do
    let kept ← ((j.tasksForStage run.runId .critic).filter (·.status = .complete)).foldlM
      (j.keepLatest run.runId taxonomy.value.taxonomy.taxonomyHash) []
    .ok (kept.map Prod.snd)

/-- The output a review is about. -/
def Journal.completedCluster (j : Journal) (clusterId missing : String) :
    Except AppError ClusterTaskOutput := do
  let outputs ← j.completedClusters
  match outputs.find? (·.proposal.clusterId = clusterId) with
  | none => .error (.invalidProject missing)
  | some output => .ok output

/-! ## Approving a cluster -/

structure ClusterReviewDecision where
  omissionRationales : List (String × String)
  minorWaivers : List (String × String)

/-- `omission_key`. -/
def omissionKey (target : DispositionTarget) : String :=
  target.documentId.toString ++ ":" ++ target.targetId

/-- A rationale that is not blank. -/
def rationaleFor (key : String) (rationales : List (String × String)) (missing : String) :
    Except AppError String :=
  match (get? key rationales).filter fun value => trim value ≠ "" with
  | none => .error (.invalidProject missing)
  | some rationale => .ok rationale

/-- What `approve_cluster` records. -/
def reviewedRevision (X : Externals) (manifest : ProjectManifest) (output : ClusterTaskOutput)
    (decision : ClusterReviewDecision) : Except AppError ApprovedClusterRevision := do
  reject (output.critic.findings.any fun f => f.severity = .major || f.severity = .critical)
    (.invalidProject "major or critical critic findings require regeneration")
  let omissions ← output.proposal.omitted.mapM fun target => do
    let rationale ← rationaleFor (omissionKey target) decision.omissionRationales
      ("omission `" ++ omissionKey target ++ "` requires an individual rationale")
    .ok (OmissionApproval.mk target manifest.curatorId rationale)
  let waivers ← output.critic.minorFindings.mapM fun findingId => do
    let rationale ← rationaleFor findingId decision.minorWaivers
      ("minor finding `" ++ findingId ++ "` requires an individual rationale")
    .ok (FindingWaiver.mk findingId manifest.curatorId rationale)
  .ok {
    proposal := output.proposal
    critic := output.critic
    approval := .approve X output.proposal output.critic manifest.curatorId manifest.policyVersion
      omissions waivers }

/-! ## The operations -/

inductive IntegrationCheckpoint
  | needsProvider
  | needsSources
  | needsDisclosure
  | needsTaxonomy
  | needsClusters
  | readyToCompile
  | verified
deriving DecidableEq

section

variable (X : Externals) (faults : Faults)

/-- `approve_taxonomy`. -/
def approveTaxonomy (editedClusters : Option (List TaxonomyCluster)) (rationale : Option String) :
    Op ApprovedTaxonomy := do
  let manifest ← openProject faults
  acquireWriterLock faults
  let run ← query faults fun s => s.journal.requireRun
  let proposed ← query faults fun s => s.journal.latestTaxonomy
  let approved ← Act.lift (reviewedTaxonomy X manifest proposed editedClusters rationale)
  appendApproval faults run.runId "taxonomy" "taxonomy" approved.taxonomy.taxonomyHash.hex
    (.approvedTaxonomy approved)
  pure approved

/-- The request that `request_cluster_regeneration` appends. -/
def regenerationRequest (clusterId feedback : String) (output : ClusterTaskOutput) :
    ClusterRegenerationRequest where
  clusterId := clusterId
  revision := output.proposal.revision + 1
  feedback := feedback
  feedbackHash := clusterFeedbackHash X clusterId (output.proposal.revision + 1) feedback
    output.proposal.proposalHash output.critic.criticHash
  previousProposalHash := output.proposal.proposalHash
  previousCriticHash := output.critic.criticHash

/-- `request_cluster_regeneration`. -/
def requestClusterRegeneration (clusterId feedback : String) : Op ClusterRegenerationRequest := do
  Act.lift (reject (trim feedback = "")
    (.invalidProject "regeneration feedback must not be empty"))
  let _ ← openProject faults
  acquireWriterLock faults
  let run ← query faults fun s => s.journal.requireRun
  let output ← query faults fun s =>
    s.journal.completedCluster clusterId "cluster has no complete revision"
  let request := regenerationRequest X clusterId feedback output
  appendClusterRegeneration X faults request
  let old ← query faults fun s =>
    s.journal.latestApproval Object.asApprovedRevision run.runId "cluster" clusterId
  match old with
  | none => pure request
  | some old => do
    appendApproval faults run.runId "cluster" clusterId request.feedbackHash
      (.approvedRevision old.value)
    pure request

/-- `approve_cluster`. -/
def approveCluster (clusterId : String) (decision : ClusterReviewDecision) :
    Op ApprovedClusterRevision := do
  let manifest ← openProject faults
  acquireWriterLock faults
  let run ← query faults fun s => s.journal.requireRun
  let output ← query faults fun s =>
    s.journal.completedCluster clusterId "cluster has no complete critic report"
  let approved ← Act.lift (reviewedRevision X manifest output decision)
  appendClusterRevision faults run.runId clusterId approved.approval.revisionHash.hex
    (.approvedRevision approved)
  appendApproval faults run.runId "cluster" clusterId approved.critic.criticHash.hex
    (.approvedRevision approved)
  let _ ← sealLatestIntegrationPlan X faults
  pure approved

/-- The approvals that `checkpoint` asks for before it seals. -/
def Journal.clustersApproved (j : Journal) (runId : String) (taxonomyHash : ContentHash) :
    List TaxonomyCluster → Except AppError Bool
  | [] => .ok true
  | cluster :: rest => do
    let current ← j.latestApproval Object.asApprovedRevision runId "cluster" cluster.clusterId
    if current.all fun approval =>
        approval.targetHash ≠ approval.value.critic.criticHash.hex ∨
        approval.value.proposal.taxonomyHash ≠ taxonomyHash then .ok false
    else j.clustersApproved runId taxonomyHash rest

/-- The checkpoint that can be told without sealing. -/
def Journal.checkpointReached (j : Journal) (manifest : ProjectManifest)
    (profilesExist : Except AppError Bool) (outputVerified : String → Bool) :
    Except AppError (Option IntegrationCheckpoint) := do
  if manifest.sources = [] then .ok (some .needsSources)
  else do
    let output ← j.latestVerifiedOutput X
    if output.any outputVerified then .ok (some .verified)
    else do
      let plan ← j.latestApprovedIntegrationPlan X
      if plan.isSome then .ok (some .readyToCompile)
      else do
        let exist ← profilesExist
        if ¬ exist then .ok (some .needsProvider)
        else match j.latestRun with
          | none => .ok (some .needsDisclosure)
          | some run =>
            if ¬ (j.tasksForStage run.runId .sensitivePreflight).any (·.status = .complete) ∨
                ¬ (j.tasksForStage run.runId .organizer).any (·.status = .complete) then
              .ok (some .needsDisclosure)
            else do
              let taxonomy ← j.latestApproval Object.asApprovedTaxonomy run.runId "taxonomy"
                "taxonomy"
              match taxonomy with
              | none => .ok (some .needsTaxonomy)
              | some taxonomy =>
                if taxonomy.targetHash ≠ taxonomy.value.taxonomy.taxonomyHash.hex then
                  .ok (some .needsTaxonomy)
                else do
                  let approved ← j.clustersApproved run.runId
                    taxonomy.value.taxonomy.taxonomyHash taxonomy.value.taxonomy.clusters
                  .ok (if approved then none else some .needsClusters)

/-- `checkpoint`. -/
def checkpoint (profilesExist : Except AppError Bool) (outputVerified : String → Bool) :
    Op IntegrationCheckpoint := do
  let manifest ← openProject faults
  let reached ← query faults fun s =>
    s.journal.checkpointReached X manifest profilesExist outputVerified
  match reached with
  | some reached => pure reached
  | none => do
    acquireWriterLock faults
    let plan ← sealLatestIntegrationPlan X faults
    pure (if plan.isSome then .readyToCompile else .needsClusters)

end

/-! ## What the decisions are -/

section

variable {X : Externals} {j : Journal} {manifest : ProjectManifest} {output : ClusterTaskOutput}
  {decision : ClusterReviewDecision}

theorem requireRun_eq_ok {run : RunRecord} : j.requireRun = .ok run ↔ j.latestRun = some run := by
  unfold Journal.requireRun
  cases j.latestRun <;> simp

theorem completeTaskResponse_eq_ok {α : Type} {decode : Object → Except AppError α}
    {task : TaskState} {a : α} :
    completeTaskResponse decode task = .ok a ↔
      task.status = .complete ∧ ∃ object, task.response = some object ∧ decode object = .ok a := by
  unfold completeTaskResponse
  simp only [bind_unit_eq_ok, reject_eq_ok, ne_eq, not_not]
  cases task.response <;> simp

theorem asClusterOutput_eq_ok {object : Object} :
    object.asClusterOutput = .ok output ↔ object = .clusterOutput output := by
  cases object <;> simp [Object.asClusterOutput]

theorem asTaxonomyOutput_eq_ok {object : Object} {proposed : TaxonomyTaskOutput} :
    object.asTaxonomyOutput = .ok proposed ↔ object = .taxonomyOutput proposed := by
  cases object <;> simp [Object.asTaxonomyOutput]

theorem asApprovedTaxonomy_eq_ok {object : Object} {taxonomy : ApprovedTaxonomy} :
    object.asApprovedTaxonomy = .ok taxonomy ↔ object = .approvedTaxonomy taxonomy := by
  cases object <;> simp [Object.asApprovedTaxonomy]

theorem asApprovedRevision_eq_ok {object : Object} {revision : ApprovedClusterRevision} :
    object.asApprovedRevision = .ok revision ↔ object = .approvedRevision revision := by
  cases object <;> simp [Object.asApprovedRevision]

/-- What the latest approval is: the row the query reads, decoded. -/
theorem latestApproval_eq_some {α : Type} {decode : Object → Except AppError α}
    {runId kind target : String} {record : ApprovalRecord α}
    (h : j.latestApproval decode runId kind target = .ok (some record)) :
    ∃ row, j.approvalRow runId kind target = some row ∧ row.targetHash = record.targetHash ∧
      decode row.object = .ok record.value := by
  unfold Journal.latestApproval at h
  obtain ⟨-, h⟩ := bind_unit_eq_ok.mp h
  obtain ⟨-, h⟩ := bind_unit_eq_ok.mp h
  cases hr : j.approvalRow runId kind target with
  | none =>
    rw [hr] at h
    cases h
  | some row =>
    rw [hr] at h
    obtain ⟨value, hv, h⟩ := bind_eq_ok.mp h
    obtain rfl := Option.some.inj (Except.ok.inj h)
    exact ⟨row, rfl, rfl, hv⟩

/-- The response of a complete critic task of the approved taxonomy, not superseded. -/
structure CompletedOutput (j : Journal) (run : RunRecord) (taxonomyHash : ContentHash)
    (output : ClusterTaskOutput) : Prop where
  task : ∃ task ∈ j.tasksForStage run.runId .critic, task.status = .complete ∧
    task.response = some (.clusterOutput output)
  taxonomyHash : output.proposal.taxonomyHash = taxonomyHash
  current : j.superseded run.runId output.proposal.clusterId output.proposal.revision = false

/-- What the task loop keeps of the tasks it has seen: for every cluster the response with the
greatest revision. -/
structure KeepsLatest (j : Journal) (runId : String) (taxonomyHash : ContentHash)
    (kept : List (String × ClusterTaskOutput)) (visited : List TaskState) : Prop where
  sorted : Sorted kept
  key : ∀ e ∈ kept, e.2.proposal.clusterId = e.1
  response : ∀ e ∈ kept, ∃ task ∈ visited, task.status = .complete ∧
    task.response = some (.clusterOutput e.2)
  current : ∀ e ∈ kept, e.2.proposal.taxonomyHash = taxonomyHash ∧
    j.superseded runId e.2.proposal.clusterId e.2.proposal.revision = false
  greatest : ∀ task ∈ visited, ∀ output, task.response = some (.clusterOutput output) →
    output.proposal.taxonomyHash = taxonomyHash →
    j.superseded runId output.proposal.clusterId output.proposal.revision = false →
    ∃ found, get? output.proposal.clusterId kept = some found ∧
      output.proposal.revision ≤ found.proposal.revision

theorem keepsLatest_nil {runId : String} {taxonomyHash : ContentHash} :
    KeepsLatest j runId taxonomyHash [] [] where
  sorted := List.Pairwise.nil
  key _ he := absurd he List.not_mem_nil
  response _ he := absurd he List.not_mem_nil
  current _ he := absurd he List.not_mem_nil
  greatest _ htask := absurd htask List.not_mem_nil

/-- A task whose response is passed over. -/
theorem KeepsLatest.skip {runId : String} {taxonomyHash : ContentHash}
    {kept : List (String × ClusterTaskOutput)} {visited : List TaskState}
    (h : KeepsLatest j runId taxonomyHash kept visited) {task : TaskState}
    (hresponse : task.response = some (.clusterOutput output))
    (hskip : output.proposal.taxonomyHash = taxonomyHash →
      j.superseded runId output.proposal.clusterId output.proposal.revision = false →
      ∃ found, get? output.proposal.clusterId kept = some found ∧
        output.proposal.revision ≤ found.proposal.revision) :
    KeepsLatest j runId taxonomyHash kept (task :: visited) where
  sorted := h.sorted
  key := h.key
  response e he := by
    obtain ⟨t, ht, hst⟩ := h.response e he
    exact ⟨t, List.mem_cons_of_mem _ ht, hst⟩
  current := h.current
  greatest t ht other hother hhash hcurrent := by
    rcases List.mem_cons.mp ht with rfl | ht
    · obtain rfl := Object.clusterOutput.inj (Option.some.inj (hresponse.symm.trans hother))
      exact hskip hhash hcurrent
    · exact h.greatest t ht other hother hhash hcurrent

/-- One turn of the task loop. -/
theorem KeepsLatest.step {runId : String} {taxonomyHash : ContentHash}
    {kept kept' : List (String × ClusterTaskOutput)} {visited : List TaskState} {task : TaskState}
    (h : KeepsLatest j runId taxonomyHash kept visited)
    (hstep : j.keepLatest runId taxonomyHash kept task = .ok kept') :
    KeepsLatest j runId taxonomyHash kept' (task :: visited) := by
  unfold Journal.keepLatest at hstep
  obtain ⟨out, hout, hstep⟩ := bind_eq_ok.mp hstep
  obtain ⟨hstatus, object, hobject, hdecode⟩ := completeTaskResponse_eq_ok.mp hout
  rw [asClusterOutput_eq_ok] at hdecode
  subst hdecode
  by_cases hpass : out.proposal.taxonomyHash ≠ taxonomyHash ∨
      j.superseded runId out.proposal.clusterId out.proposal.revision
  · rw [if_pos hpass] at hstep
    obtain rfl := Except.ok.inj hstep
    refine h.skip hobject fun hhash hcurrent => ?_
    rcases hpass with hpass | hpass
    · exact absurd hhash hpass
    · rw [hcurrent] at hpass
      cases hpass
  · rw [if_neg hpass] at hstep
    rw [not_or, not_not, Bool.not_eq_true] at hpass
    by_cases hreplace : (get? out.proposal.clusterId kept).all
        (·.proposal.revision ≤ out.proposal.revision)
    · rw [if_pos hreplace] at hstep
      obtain rfl := Except.ok.inj hstep
      refine ⟨sorted_insertKey _ _ h.sorted, fun e he => ?_, fun e he => ?_, fun e he => ?_,
        fun t ht other hother hhash hcurrent => ?_⟩
      · rcases mem_insertKey he with rfl | he
        · rfl
        · exact h.key e he
      · rcases mem_insertKey he with rfl | he
        · exact ⟨task, List.mem_cons_self, hstatus, hobject⟩
        · obtain ⟨t, ht, hst⟩ := h.response e he
          exact ⟨t, List.mem_cons_of_mem _ ht, hst⟩
      · rcases mem_insertKey he with rfl | he
        · exact hpass
        · exact h.current e he
      · by_cases hsame : other.proposal.clusterId = out.proposal.clusterId
        · rw [hsame, get?_insertKey_self]
          refine ⟨out, rfl, ?_⟩
          rcases List.mem_cons.mp ht with rfl | ht
          · obtain rfl := Object.clusterOutput.inj (Option.some.inj (hobject.symm.trans hother))
            exact le_refl _
          · obtain ⟨found, hfound, hle⟩ := h.greatest t ht other hother hhash hcurrent
            rw [← hsame, hfound] at hreplace
            exact hle.trans (of_decide_eq_true hreplace)
        · rw [get?_insertKey_ne _ _ (Ne.symm hsame)]
          rcases List.mem_cons.mp ht with rfl | ht
          · obtain rfl := Object.clusterOutput.inj (Option.some.inj (hobject.symm.trans hother))
            exact absurd rfl hsame
          · exact h.greatest t ht other hother hhash hcurrent
    · rw [if_neg hreplace] at hstep
      obtain rfl := Except.ok.inj hstep
      refine h.skip hobject fun _ _ => ?_
      cases hfound : get? out.proposal.clusterId kept with
      | none =>
        rw [hfound] at hreplace
        exact absurd rfl hreplace
      | some found =>
        rw [hfound, Option.all_some, decide_eq_true_eq, not_le] at hreplace
        exact ⟨found, rfl, hreplace.le⟩

/-- **What `completed_clusters` returns**: nothing without an approved taxonomy, and else by cluster
the response of the greatest revision. -/
theorem completedClusters_spec {outputs : List ClusterTaskOutput}
    (h : j.completedClusters = .ok outputs) :
    ∃ run, j.latestRun = some run ∧
      (j.latestApproval Object.asApprovedTaxonomy run.runId "taxonomy" "taxonomy" = .ok none ∧
          outputs = [] ∨
        ∃ taxonomy kept, j.latestApproval Object.asApprovedTaxonomy run.runId "taxonomy"
            "taxonomy" = .ok (some taxonomy) ∧ outputs = kept.map Prod.snd ∧
          KeepsLatest j run.runId taxonomy.value.taxonomy.taxonomyHash kept
            (((j.tasksForStage run.runId .critic).filter (·.status = .complete)).reverse)) := by
  unfold Journal.completedClusters at h
  obtain ⟨run, hrun, h⟩ := bind_eq_ok.mp h
  obtain ⟨taxonomy, htaxonomy, h⟩ := bind_eq_ok.mp h
  refine ⟨run, requireRun_eq_ok.mp hrun, ?_⟩
  cases taxonomy with
  | none => exact Or.inl ⟨htaxonomy, (Except.ok.inj h).symm⟩
  | some taxonomy =>
    obtain ⟨kept, hkept, h⟩ := bind_eq_ok.mp h
    refine Or.inr ⟨taxonomy, kept, htaxonomy, (Except.ok.inj h).symm, ?_⟩
    have hrun := foldlM_represents (KeepsLatest j run.runId taxonomy.value.taxonomy.taxonomyHash)
      (fun _ _ _ _ hrep hstep => hrep.step hstep) _ keepsLatest_nil hkept
    rwa [List.append_nil] at hrun

theorem KeepsLatest.completed {run : RunRecord} {taxonomyHash : ContentHash}
    {kept : List (String × ClusterTaskOutput)}
    (h : KeepsLatest j run.runId taxonomyHash kept
      (((j.tasksForStage run.runId .critic).filter (·.status = .complete)).reverse))
    (hmem : output ∈ kept.map Prod.snd) : CompletedOutput j run taxonomyHash output := by
  obtain ⟨e, he, rfl⟩ := List.mem_map.mp hmem
  obtain ⟨task, htask, hstatus, hresponse⟩ := h.response e he
  rw [List.mem_reverse, List.mem_filter] at htask
  exact ⟨⟨task, htask.1, hstatus, hresponse⟩, (h.current e he).1, (h.current e he).2⟩

/-- **A completed output** is the response of a critic task. -/
theorem completed_spec {clusterId missing : String}
    (h : j.completedCluster clusterId missing = .ok output) :
    output.proposal.clusterId = clusterId ∧
    ∃ run taxonomy, j.latestRun = some run ∧
      j.latestApproval Object.asApprovedTaxonomy run.runId "taxonomy" "taxonomy" =
        .ok (some taxonomy) ∧
      CompletedOutput j run taxonomy.value.taxonomy.taxonomyHash output := by
  unfold Journal.completedCluster at h
  obtain ⟨outputs, ho, h⟩ := bind_eq_ok.mp h
  cases hf : outputs.find? (·.proposal.clusterId = clusterId) with
  | none =>
    rw [hf] at h
    cases h
  | some found =>
    rw [hf] at h
    cases h
    have hmem := List.mem_of_find?_eq_some hf
    refine ⟨by simpa using List.find?_some hf, ?_⟩
    obtain ⟨run, hrun, ⟨-, rfl⟩ | ⟨taxonomy, kept, htaxonomy, rfl, hkept⟩⟩ :=
      completedClusters_spec ho
    · cases hmem
    · exact ⟨run, taxonomy, hrun, htaxonomy, hkept.completed hmem⟩

/-! ## What is recorded -/

theorem rationaleFor_eq_ok {key missing rationale : String} {rationales : List (String × String)} :
    rationaleFor key rationales missing = .ok rationale ↔
      get? key rationales = some rationale ∧ trim rationale ≠ "" := by
  unfold rationaleFor
  cases hf : (get? key rationales).filter fun value => trim value ≠ "" with
  | none =>
    simp only [reduceCtorEq, false_iff, not_and]
    intro hg
    simpa [hg] using hf
  | some found =>
    obtain ⟨hg, ht⟩ := Option.filter_eq_some_iff.mp hf
    simp only [Except.ok.injEq]
    constructor
    · rintro rfl
      exact ⟨hg, by simpa using ht⟩
    · rintro ⟨hg', -⟩
      exact Option.some.inj (hg.symm.trans hg')

/-- What `approve_cluster` records for an output. -/
structure Reviewed (X : Externals) (manifest : ProjectManifest) (output : ClusterTaskOutput)
    (decision : ClusterReviewDecision) (r : ApprovedClusterRevision) : Prop where
  proposal : r.proposal = output.proposal
  critic : r.critic = output.critic
  resolved : ∀ f ∈ output.critic.findings, f.severity = .minor
  omissions : List.Forall₂ (fun target (o : OmissionApproval) =>
    o.target = target ∧ o.curatorId = manifest.curatorId ∧
      get? (omissionKey target) decision.omissionRationales = some o.rationale ∧
      trim o.rationale ≠ "") output.proposal.omitted r.approval.omissionApprovals
  waivers : List.Forall₂ (fun findingId (w : FindingWaiver) =>
    w.findingId = findingId ∧ w.curatorId = manifest.curatorId ∧
      get? findingId decision.minorWaivers = some w.rationale ∧ trim w.rationale ≠ "")
    output.critic.minorFindings r.approval.minorWaivers
  approval : r.approval = .approve X output.proposal output.critic manifest.curatorId
    manifest.policyVersion r.approval.omissionApprovals r.approval.minorWaivers

theorem reviewed_of_reviewedRevision {r : ApprovedClusterRevision}
    (h : reviewedRevision X manifest output decision = .ok r) :
    Reviewed X manifest output decision r := by
  unfold reviewedRevision at h
  obtain ⟨hres, h⟩ := bind_unit_eq_ok.mp h
  obtain ⟨omissions, ho, h⟩ := bind_eq_ok.mp h
  obtain ⟨waivers, hw, h⟩ := bind_eq_ok.mp h
  obtain rfl := Except.ok.inj h
  refine ⟨rfl, rfl, fun f hf => ?_, ?_, ?_, rfl⟩
  · rw [reject_eq_ok, List.any_eq_true, not_exists] at hres
    have hne := hres f
    cases hsev : f.severity with
    | minor => rfl
    | major => simp [hf, hsev] at hne
    | critical => simp [hf, hsev] at hne
  · refine (mapM_eq_ok.mp ho).imp fun target o hto => ?_
    obtain ⟨rationale, hr, hto⟩ := bind_eq_ok.mp hto
    obtain rfl := Except.ok.inj hto
    obtain ⟨hg, ht⟩ := rationaleFor_eq_ok.mp hr
    exact ⟨rfl, rfl, hg, ht⟩
  · refine (mapM_eq_ok.mp hw).imp fun findingId w hto => ?_
    obtain ⟨rationale, hr, hto⟩ := bind_eq_ok.mp hto
    obtain rfl := Except.ok.inj hto
    obtain ⟨hg, ht⟩ := rationaleFor_eq_ok.mp hr
    exact ⟨rfl, rfl, hg, ht⟩

end

end Okc.App
