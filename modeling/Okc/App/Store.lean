import Okc.App.Journal
import Okc.Core.Artifact
import Okc.Lib.Hoare

/-!
# The project store (`okc-app/src/lib.rs:403-608`, `project_state.rs:270-860`)

The operations of `ProjectStore` on the journal and the manifest. An operation is a sequence of
steps; each step may fail, before it took effect or after (`Faults`), and what earlier steps did
stays.

* One step stands for one SQL statement or one transaction, the storing of one object, the writing
  of the staged manifest, its rename, the permission change after it, or one group of reads.
* `Project.manifest` is what the caller's handle holds in memory; `Project.disk` is `manifest.json`.
  A service function opens a handle of its own and works with what it reads from the disk.
* `validate_source_selection` and `paths_overlap` look at the file system; they are parameters
  (`SourceChecks`).
-/

namespace Okc.App

open Okc.Lib Okc.Core

/-! ## Steps -/

structure Project where
  clock : Nat
  journal : Journal
  intact : journal.Intact
  disk : ProjectManifest
  manifest : ProjectManifest

/-- `ProjectStore::create`. -/
def Project.create (manifest : ProjectManifest) : Project where
  clock := 0
  journal := .empty
  intact := Journal.empty_intact
  disk := manifest
  manifest := manifest

/-- `INSERT INTO`. -/
def Project.insert (s : Project) (row : Row) : Except AppError Project :=
  match h : s.journal.insert row with
  | .ok j =>
    .ok { s with journal := j, intact := (Journal.inserted_of_insert h).intact s.intact }
  | .error e => .error e

/-- A step that reports an error, with or without having done its work. -/
structure Fault where
  error : AppError
  applied : Bool

abbrev Faults := Nat → Option Fault

abbrev Op (α : Type) := Act Project AppError α

def Project.tick (s : Project) : Project := { s with clock := s.clock + 1 }

/-- One step. -/
def commit {α : Type} (faults : Faults) (f : Project → Except AppError (α × Project)) : Op α :=
  fun s =>
    match faults s.clock with
    | none =>
      match f s.tick with
      | .ok (a, t) => (.ok a, t)
      | .error e => (.error e, s.tick)
    | some fault =>
      match f s.tick, fault.applied with
      | .ok (_, t), true => (.error fault.error, t)
      | _, _ => (.error fault.error, s.tick)

/-- A step that only reads. -/
def query {α : Type} (faults : Faults) (f : Project → Except AppError α) : Op α :=
  commit faults fun s => (f s).map fun a => (a, s)

/-- A step with an effect outside the journal and the manifest: the lock file, an object, a
cancellation check. -/
def attemptIo (faults : Faults) : Op Unit := query faults fun _ => .ok ()

/-- One `INSERT`. -/
def insertRow (faults : Faults) (row : Row) : Op Unit :=
  commit faults fun s => (s.insert row).map fun t => ((), t)

/-- `ProjectStore::open`: the manifest of the handle. -/
def openProject (faults : Faults) : Op ProjectManifest := query faults fun s => do
  s.disk.validate
  .ok s.disk

def acquireWriterLock (faults : Faults) : Op Unit := attemptIo faults

section

variable (X : Externals) (faults : Faults)

/-! ## Runs -/

/-- `latest_run`. -/
def latestRun : Op (Option RunRecord) := query faults fun s => .ok s.journal.latestRun

/-- The run that `begin_or_resume_run` starts. -/
def startedRun (j : Journal) (inputHash configHash : String) : RunRecord where
  runId := "run_" ++ (digest X "okc:run:v3\x00"
    [utf8 inputHash, utf8 configHash, lengthBytes j.nextRunSequence]).hex
  inputHash := inputHash
  configHash := configHash
  sequence := j.nextRunSequence

def beginOrResumeRun (inputHash configHash : String) : Op RunRecord := do
  Act.lift (validateHexHash "input hash" inputHash)
  Act.lift (validateHexHash "configuration hash" configHash)
  let existing ← latestRun faults
  match existing.filter fun run => run.inputHash = inputHash && run.configHash = configHash with
  | some run => pure run
  | none =>
    commit faults fun s => do
      let run := startedRun X s.journal inputHash configHash
      let t ← s.insert (.run run)
      .ok (run, t)

/-! ## Tasks -/

structure TaskCacheKey where
  stage : TaskStage
  promptHash : String
  schemaHash : String
  sourceHash : String
  provider : String
  model : String
  adapter : String
  optionsHash : String
deriving DecidableEq

/-- `serde_json::to_vec`. A record's fields come in the order of their declaration. -/
def toVec (json : Json) : Bytes := utf8 (String.ofList (compact json))

theorem toVec_injective : Function.Injective toVec := fun _ _ h =>
  compact_injective (String.ofList_injective (utf8_injective h))

def TaskCacheKey.toJson (key : TaskCacheKey) : Json :=
  .obj [("stage", .str key.stage.asStr), ("prompt_hash", .str key.promptHash),
    ("schema_hash", .str key.schemaHash), ("source_hash", .str key.sourceHash),
    ("provider", .str key.provider), ("model", .str key.model), ("adapter", .str key.adapter),
    ("options_hash", .str key.optionsHash)]

/-- `TaskCacheKey::hash`. -/
def TaskCacheKey.hash (key : TaskCacheKey) : Except AppError String := do
  forM [("prompt hash", key.promptHash), ("schema hash", key.schemaHash),
    ("source hash", key.sourceHash), ("options hash", key.optionsHash)] fun p =>
      validateHexHash p.1 p.2
  forM [("provider", key.provider), ("model", key.model), ("adapter", key.adapter)] fun p =>
    validateIdentifier p.1 p.2
  .ok (digest X "okc:ai-task:v3\x00" [toVec key.toJson]).hex

/-- `register_task`. -/
def registerTask (run : RunRecord) (stage : TaskStage) (cacheKey : TaskCacheKey)
    (request : Bytes) : Op TaskState := do
  Act.lift (reject (cacheKey.stage ≠ stage)
    (.invalidProject "task stage does not match its cache key"))
  let key ← Act.lift (cacheKey.hash X)
  attemptIo faults
  let existing ← query faults fun s =>
    match s.journal.tasks.find? fun t => t.runId = run.runId && t.cacheKey = key with
    | some task => (s.journal.taskState task.taskId).map some
    | none => .ok none
  match existing with
  | some task => do
    Act.lift (reject (task.task.request ≠ request)
      (.invalidProject "task cache key is stale for its request bytes"))
    pure task
  | none =>
    let task : TaskDefinition := {
      taskId := "task_" ++ (digest X "okc:task:v3\x00" [utf8 run.runId, utf8 key]).hex
      runId := run.runId
      stage := stage
      cacheKey := key
      request := request }
    commit faults fun s => do
      let t ← s.insert (.task task)
      let u ← t.insert (.event ⟨task.taskId, .queued, none, none⟩)
      .ok ((), u)
    query faults fun s => s.journal.taskState task.taskId

/-- `append_task_status`. -/
def appendTaskStatus (taskId : String) (status : TaskStatus) (response : Option Object)
    (errorKind : Option String) : Op TaskState := do
  Act.lift (reject (status = .complete ∧ (response.isNone ∨ errorKind.isSome))
    (.invalidProject "a complete task requires one response and no error"))
  Act.lift (reject ((status = .failed ∨ status = .cancelled) ∧ errorKind.isNone)
    (.invalidProject "failed/cancelled task events require an error kind"))
  attemptIo faults
  insertRow faults (.event ⟨taskId, status, response, errorKind⟩)
  query faults fun s => s.journal.taskState taskId

/-- The hash of a recording. -/
def recordingHash (recording : Bytes) : ContentHash :=
  digest X "okc:provider-recording:v3\x00" [recording]

/-- `record_exchange`. -/
def recordExchange (runId taskId : String) (recording : Bytes) : Op ContentHash := do
  attemptIo faults
  insertRow faults (.exchange ⟨runId, taskId, recording, recordingHash X recording⟩)
  pure (recordingHash X recording)

/-- `tasks_for_stage`. -/
def tasksForStage (runId : String) (stage : TaskStage) : Op (List TaskState) :=
  query faults fun s => .ok (s.journal.tasksForStage runId stage)

/-! ## Stored objects -/

/-- `serde_json::from_slice` of the bytes of another record. -/
def decodeFailed : AppError := .json "invalid type"

def Object.asTaxonomyOutput : Object → Except AppError TaxonomyTaskOutput
  | .taxonomyOutput output => .ok output
  | _ => .error decodeFailed

def Object.asApprovedTaxonomy : Object → Except AppError ApprovedTaxonomy
  | .approvedTaxonomy taxonomy => .ok taxonomy
  | _ => .error decodeFailed

def Object.asProposal : Object → Except AppError SynthesisProposal
  | .proposal p => .ok p
  | _ => .error decodeFailed

def Object.asClusterOutput : Object → Except AppError ClusterTaskOutput
  | .clusterOutput output => .ok output
  | _ => .error decodeFailed

def Object.asApprovedRevision : Object → Except AppError ApprovedClusterRevision
  | .approvedRevision revision => .ok revision
  | _ => .error decodeFailed

def Object.asValue : Object → Except AppError Value
  | .value v => .ok v
  | _ => .error decodeFailed

/-- `complete_task_response`. -/
def completeTaskResponse {α : Type} (decode : Object → Except AppError α) (task : TaskState) :
    Except AppError α := do
  reject (task.status ≠ .complete)
    (.invalidProject ("task `" ++ task.task.taskId ++ "` is not complete"))
  match task.response with
  | none => .error (.invalidProject
      ("complete task `" ++ task.task.taskId ++ "` has no response object"))
  | some object => decode object

/-! ## Approvals -/

structure ApprovalRecord (α : Type) where
  targetHash : String
  value : α
deriving DecidableEq

/-- `latest_approval`. -/
def Journal.latestApproval {α : Type} (decode : Object → Except AppError α) (j : Journal)
    (runId approvalKind targetId : String) : Except AppError (Option (ApprovalRecord α)) := do
  validateIdentifier "approval kind" approvalKind
  validateIdentifier "approval target" targetId
  match j.approvalRow runId approvalKind targetId with
  | none => .ok none
  | some row => do
    let value ← decode row.object
    .ok (some ⟨row.targetHash, value⟩)

/-- `append_cluster_revision`. -/
def appendClusterRevision (runId clusterId revisionHash : String) (object : Object) : Op Unit := do
  Act.lift (validateIdentifier "cluster ID" clusterId)
  Act.lift (validateHexHash "cluster revision hash" revisionHash)
  attemptIo faults
  insertRow faults (.revision ⟨runId, clusterId, revisionHash, object⟩)

/-- `append_approval`. -/
def appendApproval (runId approvalKind targetId targetHash : String) (object : Object) :
    Op Unit := do
  Act.lift (validateIdentifier "approval kind" approvalKind)
  Act.lift (validateIdentifier "approval target" targetId)
  Act.lift (validateHexHash "approval target hash" targetHash)
  attemptIo faults
  insertRow faults (.approval ⟨runId, approvalKind, targetId, targetHash, object⟩)

/-- `cluster_feedback_hash`. -/
def clusterFeedbackHash (clusterId : String) (revision : Nat) (feedback : String)
    (previousProposalHash previousCriticHash : ContentHash) : String :=
  (rawHash X "okc:cluster-feedback:v3\x00" (Value.arr [.str clusterId, .nat revision,
    .str feedback, previousProposalHash.toValue, previousCriticHash.toValue]).canonicalJson).hex

/-- `append_cluster_regeneration`. -/
def appendClusterRegeneration (request : ClusterRegenerationRequest) : Op Unit := do
  Act.lift (reject (trim request.feedback = "" ∨ request.revision < 2)
    (.invalidProject "cluster regeneration requires feedback and revision >= 2"))
  let run ← latestRun faults
  match run with
  | none => Act.fail (.invalidProject "cluster regeneration requires a current run")
  | some run => do
    Act.lift (reject (request.feedbackHash ≠ clusterFeedbackHash X request.clusterId
        request.revision request.feedback request.previousProposalHash request.previousCriticHash)
      (.invalidProject "cluster feedback hash does not match its binding"))
    attemptIo faults
    insertRow faults (.feedback ⟨run.runId, request.clusterId, request⟩)

/-! ## Plans -/

/-- The hash in a plan's row. -/
def planObjectHash (plan : ApprovedIntegrationPlan) : ContentHash :=
  digest X "okc:integration-plan-object:v3\x00" [plan.toValue.canonicalJson]

def storeApprovedIntegrationPlan (runId : String) (plan : ApprovedIntegrationPlan) : Op Unit := do
  Act.lift (liftCore (validatePlan X plan))
  attemptIo faults
  insertRow faults (.plan ⟨runId, plan.integrationPlanId, planObjectHash X plan, plan⟩)

/-- A regeneration was requested after this revision was proposed. -/
def Journal.superseded (j : Journal) (runId clusterId : String) (revision : Nat) : Bool :=
  (j.latestClusterRegeneration runId clusterId).any fun request => revision < request.revision

/-- The cluster loop of `integration_plan_is_current`. -/
def Journal.revisionsCurrent (j : Journal) (runId : String) :
    List ApprovedClusterRevision → Except AppError Bool
  | [] => .ok true
  | revision :: rest => do
    let approval ← j.latestApproval Object.asApprovedRevision runId "cluster"
      revision.proposal.clusterId
    match approval with
    | none => .ok false
    | some approval =>
      if approval.targetHash ≠ revision.critic.criticHash.hex ∨ approval.value ≠ revision then
        .ok false
      else if j.superseded runId revision.proposal.clusterId revision.proposal.revision then
        .ok false
      else j.revisionsCurrent runId rest

/-- `integration_plan_is_current`. -/
def Journal.integrationPlanIsCurrent (j : Journal) (runId : String)
    (plan : ApprovedIntegrationPlan) : Except AppError Bool := do
  let taxonomy ← j.latestApproval Object.asApprovedTaxonomy runId "taxonomy" "taxonomy"
  match taxonomy with
  | none => .ok false
  | some taxonomy =>
    if taxonomy.targetHash ≠ plan.taxonomy.taxonomyHash.hex ∨
        taxonomy.value.taxonomy ≠ plan.taxonomy ∨
        taxonomy.value.approval ≠ plan.taxonomyApproval ∨
        taxonomy.value.corpus ≠ plan.corpus then .ok false
    else j.revisionsCurrent runId plan.clusters

/-- `latest_approved_integration_plan`. -/
def Journal.latestApprovedIntegrationPlan (j : Journal) :
    Except AppError (Option ApprovedIntegrationPlan) :=
  match j.planRow with
  | none => .ok none
  | some row => do
    reject (planObjectHash X row.plan ≠ row.planHash)
      (.invalidProject "approved integration plan object hash is stale")
    liftCore (validatePlan X row.plan)
    reject (row.plan.integrationPlanId ≠ row.planId)
      (.invalidProject "approved integration plan pointer does not match its object")
    let current ← j.integrationPlanIsCurrent row.runId row.plan
    .ok (if current then some row.plan else none)

/-- The cluster loop of `seal_latest_integration_plan`: the approved revisions, if there is one for
every cluster. -/
def Journal.approvedRevisions (j : Journal) (runId : String) (taxonomyHash : ContentHash) :
    List TaxonomyCluster → Except AppError (Option (List ApprovedClusterRevision))
  | [] => .ok (some [])
  | cluster :: rest => do
    let approved ← j.latestApproval Object.asApprovedRevision runId "cluster" cluster.clusterId
    match approved with
    | none => .ok none
    | some approved =>
      if approved.targetHash ≠ approved.value.critic.criticHash.hex ∨
          approved.value.proposal.taxonomyHash ≠ taxonomyHash ∨
          j.superseded runId cluster.clusterId approved.value.proposal.revision then .ok none
      else do
        let revisions ← j.approvedRevisions runId taxonomyHash rest
        .ok (revisions.map fun revisions => approved.value :: revisions)

/-- What `seal_latest_integration_plan` seals, with its run. -/
def Journal.sealedPlan (j : Journal) :
    Except AppError (Option (String × ApprovedIntegrationPlan)) :=
  match j.latestRun with
  | none => .ok none
  | some run => do
    let taxonomy ← j.latestApproval Object.asApprovedTaxonomy run.runId "taxonomy" "taxonomy"
    match taxonomy with
    | none => .ok none
    | some taxonomy =>
      if taxonomy.targetHash ≠ taxonomy.value.taxonomy.taxonomyHash.hex then .ok none
      else do
        let revisions ← j.approvedRevisions run.runId taxonomy.value.taxonomy.taxonomyHash
          taxonomy.value.taxonomy.clusters
        match revisions with
        | none => .ok none
        | some revisions => do
          let plan ← liftCore (ApprovedIntegrationPlan.seal X taxonomy.value.corpus
            taxonomy.value.taxonomy taxonomy.value.approval revisions (j.recordingHashes run.runId))
          .ok (some (run.runId, plan))

/-- `seal_latest_integration_plan`. -/
def sealLatestIntegrationPlan : Op (Option ApprovedIntegrationPlan) := do
  let sealed ← query faults fun s => s.journal.sealedPlan X
  match sealed with
  | none => pure none
  | some (runId, plan) => do
    storeApprovedIntegrationPlan X faults runId plan
    pure (some plan)

/-! ## Verified outputs -/

/-- `record_verified_output`. -/
def recordVerifiedOutput (path : String) (manifest : CompiledVaultManifest) : Op Unit := do
  let run ← latestRun faults
  match run with
  | none => Act.fail (.invalidProject "cannot record verification without a current run")
  | some run => do
    let approved ← query faults fun s => s.journal.latestApprovedIntegrationPlan X
    Act.lift (reject (approved.all fun plan =>
        manifest.integrationPlanId ≠ plan.integrationPlanId ∨
        manifest.corpusHash ≠ plan.corpus.corpusHash ∨
        manifest.taxonomyHash ≠ plan.taxonomy.taxonomyHash)
      (.invalidProject "verified artifact is stale for the current approved integration plan"))
    attemptIo faults
    insertRow faults (.verified ⟨run.runId, manifest.integrationPlanId, path⟩)

/-- `latest_verified_output`. -/
def Journal.latestVerifiedOutput (j : Journal) : Except AppError (Option String) := do
  let plan ← j.latestApprovedIntegrationPlan X
  .ok (plan.bind fun plan => (j.verifiedRow plan.integrationPlanId).map VerifiedRow.outputPath)

end

/-! ## Rules for the steps -/

section

variable {faults : Faults}

theorem insert_eq_ok {s t : Project} {row : Row} :
    s.insert row = .ok t ↔ s.journal.insert row = .ok t.journal ∧
      t.clock = s.clock ∧ t.disk = s.disk ∧ t.manifest = s.manifest := by
  cases s with
  | mk clock journal intact disk manifest =>
    cases t with
    | mk clock' journal' intact' disk' manifest' =>
      unfold Project.insert
      split
      · rename_i j h
        simp only at h
        simp [h, eq_comm]
        tauto
      · rename_i e h
        simp only at h
        simp [h]

/-- A step either does nothing or does its work; it reports success only if it did. -/
theorem commit_cases {α : Type} {f : Project → Except AppError (α × Project)} {s t : Project}
    {r : Except AppError α} (h : commit faults f s = (r, t)) :
    (t = s.tick ∧ ∃ e, r = .error e) ∨
      ∃ a, f s.tick = .ok (a, t) ∧ (r = .ok a ∨ ∃ e, r = .error e) := by
  unfold commit at h
  cases hf : f s.tick with
  | error e =>
    rw [hf] at h
    cases hc : faults s.clock with
    | none =>
      rw [hc] at h
      cases h
      exact .inl ⟨rfl, _, rfl⟩
    | some fault =>
      rw [hc] at h
      cases h
      exact .inl ⟨rfl, _, rfl⟩
  | ok p =>
    rw [hf] at h
    obtain ⟨a, u⟩ := p
    cases hc : faults s.clock with
    | none =>
      rw [hc] at h
      cases h
      exact .inr ⟨a, rfl, .inl rfl⟩
    | some fault =>
      rw [hc] at h
      dsimp only at h
      cases ha : fault.applied with
      | false =>
        rw [ha] at h
        cases h
        exact .inl ⟨rfl, _, rfl⟩
      | true =>
        rw [ha] at h
        cases h
        exact .inr ⟨a, rfl, .inr ⟨_, rfl⟩⟩

theorem commit_eq_ok {α : Type} {f : Project → Except AppError (α × Project)} {s t : Project}
    {a : α} : commit faults f s = (.ok a, t) ↔ faults s.clock = none ∧ f s.tick = .ok (a, t) := by
  unfold commit
  cases hc : faults s.clock with
  | none => cases hf : f s.tick <;> simp [Prod.ext_iff]
  | some fault =>
    obtain ⟨e, applied⟩ := fault
    rcases hf : f s.tick with e' | ⟨b, u⟩ <;> cases applied <;> simp

theorem query_eq_ok {α : Type} {f : Project → Except AppError α} {s t : Project} {a : α} :
    query faults f s = (.ok a, t) ↔ faults s.clock = none ∧ f s.tick = .ok a ∧ t = s.tick := by
  rw [query, commit_eq_ok]
  cases hf : f s.tick <;> simp [Except.map, eq_comm]

/-- A query leaves the journal. -/
theorem query_journal {α : Type} {f : Project → Except AppError α} {s t : Project}
    {r : Except AppError α} (h : query faults f s = (r, t)) : t.journal = s.journal := by
  obtain ⟨rfl, -⟩ | ⟨a, ha, -⟩ := commit_cases h
  · rfl
  · cases hf : f s.tick with
    | error e => simp [hf, Except.map] at ha
    | ok b =>
      simp only [hf, Except.map, Except.ok.injEq, Prod.mk.injEq] at ha
      rw [← ha.2]
      rfl

theorem attemptIo_eq_ok {s t : Project} :
    attemptIo faults s = (.ok (), t) ↔ faults s.clock = none ∧ t = s.tick := by
  rw [attemptIo, query_eq_ok]
  simp

theorem attemptIo_journal {s t : Project} {r : Except AppError Unit}
    (h : attemptIo faults s = (r, t)) : t.journal = s.journal := query_journal h

variable {P : Project → Prop} {E : AppError → Project → Prop}

/-- **One step.** -/
theorem Triple.commit {α : Type} {f : Project → Except AppError (α × Project)}
    {Q : α → Project → Prop}
    (hf : ∀ s a t, P s → f s.tick = .ok (a, t) → Q a t ∧ ∀ e, E e t)
    (hE : ∀ s e, P s → E e s.tick) : Triple P (App.commit faults f) Q E := by
  refine ⟨fun s hs => ?_⟩
  cases hc : App.commit faults f s with
  | mk r t =>
    rcases commit_cases hc with ⟨rfl, e, rfl⟩ | ⟨a, ha, rfl | ⟨e, rfl⟩⟩
    · exact hE s e hs
    · exact (hf s a t hs ha).1
    · exact (hf s a t hs ha).2 e

theorem Triple.query {α : Type} {f : Project → Except AppError α} {Q : α → Project → Prop}
    (hf : ∀ s a, P s → f s.tick = .ok a → Q a s.tick) (hE : ∀ s e, P s → E e s.tick) :
    Triple P (App.query faults f) Q E := by
  refine Triple.commit (fun s a t hs ha => ?_) hE
  cases hv : f s.tick with
  | error e => simp [hv, Except.map] at ha
  | ok b =>
    simp only [hv, Except.map, Except.ok.injEq, Prod.mk.injEq] at ha
    obtain ⟨rfl, rfl⟩ := ha
    exact ⟨hf s b hs hv, fun e => hE s e hs⟩

theorem Triple.attemptIo {Q : Unit → Project → Prop} (hQ : ∀ s, P s → Q () s.tick)
    (hE : ∀ s e, P s → E e s.tick) : Triple P (App.attemptIo faults) Q E :=
  Triple.query (fun s _ hs _ => hQ s hs) hE

theorem Triple.insertRow {row : Row} {Q : Unit → Project → Prop}
    (hi : ∀ s t, P s → s.tick.insert row = .ok t → Q () t ∧ ∀ e, E e t)
    (hE : ∀ s e, P s → E e s.tick) : Triple P (App.insertRow faults row) Q E := by
  refine Triple.commit (fun s _ t hs ht => ?_) hE
  cases hv : s.tick.insert row with
  | error e => simp [hv, Except.map] at ht
  | ok u =>
    simp only [hv, Except.map, Except.ok.injEq, Prod.mk.injEq, true_and] at ht
    exact ht ▸ hi s u hs hv

end

end Okc.App
