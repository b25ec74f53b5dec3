import Okc.App.Manifest
import Okc.Core.Revision
import Okc.Lib.Runs
import Okc.Lib.Table

/-!
# The journal (`okc-app/src/lib.rs:763-878`, `project_state.rs:30-260`, `460-770`)

The append-only tables of `state.sqlite3` and the queries the application makes of them. A table is
the list of its rows in the order of their `sequence`; a query that asks for the latest row is
`latest`.

* A row that points to a stored object holds the object (`Object`). Objects are addressed by their
  hash and never rewritten, and `put_object` refuses bytes that collide, so two pointers are equal
  exactly when the objects are. An `Object` is what `serde_json` makes of the bytes, and `.bytes`
  is anything that is none of the records the readers ask for.
* An insertion checks the keys the schema declares: primary keys, `UNIQUE` and `REFERENCES`.
* `stage_state`, `decisions` and `approvals` are created and never used, and are left out. So are
  the columns no query reads (`detail` of an event, the hashes beside a feedback object, the
  manifest object of a verified output).

Results:
* `Inserted`: what an insertion does, table by table; `Grows.invariant`: an invariant of the
  insertions is an invariant of everything that only inserts.
* `Inserted.intact`: the keys and references the schema enforces stay (`Journal.Intact`).
* `Inserted.extends`: no insertion changes or removes a row (`Journal.Extends`).
-/

namespace Okc.App

open Okc.Lib Okc.Core

/-! ## Rows -/

structure RunRecord where
  runId : String
  inputHash : String
  configHash : String
  sequence : Nat
deriving DecidableEq

inductive TaskStage
  | sensitivePreflight
  | embedding
  | semanticCandidates
  | organizer
  | synthesis
  | critic
  | materialization
deriving DecidableEq

def TaskStage.asStr : TaskStage → String
  | .sensitivePreflight => "sensitive_preflight"
  | .embedding => "embedding"
  | .semanticCandidates => "semantic_candidates"
  | .organizer => "organizer"
  | .synthesis => "synthesis"
  | .critic => "critic"
  | .materialization => "materialization"

inductive TaskStatus
  | queued
  | running
  | complete
  | failed
  | cancelled
deriving DecidableEq

structure TaxonomyTaskOutput where
  corpus : IntegrationCorpus
  taxonomy : TaxonomyProposal
deriving DecidableEq

structure ApprovedTaxonomy where
  corpus : IntegrationCorpus
  taxonomy : TaxonomyProposal
  approval : ApprovalBinding
deriving DecidableEq

structure ClusterTaskOutput where
  proposal : SynthesisProposal
  critic : CriticReport
deriving DecidableEq

structure ClusterRegenerationRequest where
  clusterId : String
  revision : Nat
  feedback : String
  feedbackHash : String
  previousProposalHash : ContentHash
  previousCriticHash : ContentHash
deriving DecidableEq

/-- What a stored object decodes to. An embedding response is its JSON value and the number of its
vectors. -/
inductive Object
  | taxonomyOutput (output : TaxonomyTaskOutput)
  | approvedTaxonomy (taxonomy : ApprovedTaxonomy)
  | proposal (proposal : SynthesisProposal)
  | clusterOutput (output : ClusterTaskOutput)
  | approvedRevision (revision : ApprovedClusterRevision)
  | value (value : Value)
  | bytes (bytes : Bytes)
deriving DecidableEq

/-- A row of `task_definitions`. -/
structure TaskDefinition where
  taskId : String
  runId : String
  stage : TaskStage
  cacheKey : String
  request : Bytes
deriving DecidableEq

/-- A row of `task_events`. -/
structure TaskEvent where
  taskId : String
  status : TaskStatus
  response : Option Object
  errorKind : Option String
deriving DecidableEq

/-- A row of `exchanges_v3`. -/
structure Exchange where
  runId : String
  taskId : String
  recording : Bytes
  recordingHash : ContentHash
deriving DecidableEq

/-- A row of `cluster_revisions_v3`. -/
structure RevisionRow where
  runId : String
  clusterId : String
  revisionHash : String
  object : Object
deriving DecidableEq

/-- A row of `approvals_v3`. -/
structure ApprovalRow where
  runId : String
  approvalKind : String
  targetId : String
  targetHash : String
  object : Object
deriving DecidableEq

/-- A row of `source_set_revisions_v4`. -/
structure SourceSetRow where
  revisionHash : String
  sources : List SourceBinding
  runId : String
deriving DecidableEq

/-- A row of `integration_plans_v4`. -/
structure PlanRow where
  runId : String
  planId : String
  planHash : ContentHash
  plan : ApprovedIntegrationPlan
deriving DecidableEq

/-- A row of `verified_outputs_v4`. -/
structure VerifiedRow where
  runId : String
  planId : String
  outputPath : String
deriving DecidableEq

/-- A row of `cluster_feedback_v4`. -/
structure FeedbackRow where
  runId : String
  clusterId : String
  request : ClusterRegenerationRequest
deriving DecidableEq

/-- A task with its latest event. -/
structure TaskState where
  task : TaskDefinition
  status : TaskStatus
  response : Option Object
  errorKind : Option String
deriving DecidableEq

inductive Row
  | run (row : RunRecord)
  | task (row : TaskDefinition)
  | event (row : TaskEvent)
  | exchange (row : Exchange)
  | revision (row : RevisionRow)
  | approval (row : ApprovalRow)
  | sourceSet (row : SourceSetRow)
  | plan (row : PlanRow)
  | verified (row : VerifiedRow)
  | feedback (row : FeedbackRow)
  | projectEvent (kind : String)
deriving DecidableEq

@[ext] structure Journal where
  runs : List RunRecord
  tasks : List TaskDefinition
  events : List TaskEvent
  exchanges : List Exchange
  revisions : List RevisionRow
  approvals : List ApprovalRow
  sourceSets : List SourceSetRow
  plans : List PlanRow
  verified : List VerifiedRow
  feedback : List FeedbackRow
  projectEvents : List String
deriving DecidableEq

/-- What `initialize_state` leaves in a new project. -/
def Journal.empty : Journal := ⟨[], [], [], [], [], [], [], [], [], [], []⟩

namespace Journal

variable (j : Journal)

/-! ## Insertions -/

def uniqueFailed : AppError := .sqlite "UNIQUE constraint failed"

def foreignKeyFailed : AppError := .sqlite "FOREIGN KEY constraint failed"

/-- `REFERENCES runs(run_id)`. -/
def HasRun (runId : String) : Prop := runId ∈ j.runs.map RunRecord.runId

instance (runId : String) : Decidable (j.HasRun runId) := by
  unfold HasRun
  infer_instance

/-- `REFERENCES task_definitions(task_id)`. -/
def HasTask (taskId : String) : Prop := taskId ∈ j.tasks.map TaskDefinition.taskId

instance (taskId : String) : Decidable (j.HasTask taskId) := by
  unfold HasTask
  infer_instance

/-- `INSERT INTO`, with the constraints of the table. -/
def insert : Row → Except AppError Journal
  | .run row => do
    reject (j.HasRun row.runId ∨ row.sequence ∈ j.runs.map RunRecord.sequence) uniqueFailed
    .ok { j with runs := j.runs ++ [row] }
  | .task row => do
    reject (j.HasTask row.taskId ∨
      (row.runId, row.cacheKey) ∈ j.tasks.map fun t => (t.runId, t.cacheKey)) uniqueFailed
    reject (¬ j.HasRun row.runId) foreignKeyFailed
    .ok { j with tasks := j.tasks ++ [row] }
  | .event row => do
    reject (¬ j.HasTask row.taskId) foreignKeyFailed
    .ok { j with events := j.events ++ [row] }
  | .exchange row => do
    reject (¬ j.HasRun row.runId ∨ ¬ j.HasTask row.taskId) foreignKeyFailed
    .ok { j with exchanges := j.exchanges ++ [row] }
  | .revision row => do
    reject (¬ j.HasRun row.runId) foreignKeyFailed
    .ok { j with revisions := j.revisions ++ [row] }
  | .approval row => do
    reject (¬ j.HasRun row.runId) foreignKeyFailed
    .ok { j with approvals := j.approvals ++ [row] }
  | .sourceSet row => do
    reject (¬ j.HasRun row.runId) foreignKeyFailed
    .ok { j with sourceSets := j.sourceSets ++ [row] }
  | .plan row => do
    reject (¬ j.HasRun row.runId) foreignKeyFailed
    .ok { j with plans := j.plans ++ [row] }
  | .verified row => do
    reject (¬ j.HasRun row.runId) foreignKeyFailed
    .ok { j with verified := j.verified ++ [row] }
  | .feedback row => do
    reject (¬ j.HasRun row.runId) foreignKeyFailed
    .ok { j with feedback := j.feedback ++ [row] }
  | .projectEvent kind => .ok { j with projectEvents := j.projectEvents ++ [kind] }

/-! ## Queries -/

/-- `latest_run`. -/
def latestRun : Option RunRecord := newest RunRecord.sequence j.runs

/-- `SELECT COALESCE(MAX(sequence), 0) + 1 FROM runs`. -/
def nextRunSequence : Nat := nextSequence RunRecord.sequence j.runs

/-- `invalidate_downstream`'s `has_work`. -/
def hasWork (runId : String) : Bool :=
  j.tasks.any (·.runId = runId) || j.approvals.any (·.runId = runId) ||
    j.plans.any (·.runId = runId)

/-- The row `latest_approval` reads. -/
def approvalRow (runId approvalKind targetId : String) : Option ApprovalRow :=
  latest (fun row => row.runId = runId && row.approvalKind = approvalKind &&
    row.targetId = targetId) j.approvals

/-- `latest_cluster_regeneration`. -/
def latestClusterRegeneration (runId clusterId : String) : Option ClusterRegenerationRequest :=
  (latest (fun row => row.runId = runId && row.clusterId = clusterId) j.feedback).map
    FeedbackRow.request

/-- `recording_hashes`. -/
def recordingHashes (runId : String) : List ContentHash :=
  (j.exchanges.filter fun e => e.runId = runId).map Exchange.recordingHash

/-- The row `latest_approved_integration_plan` reads. -/
def planRow : Option PlanRow :=
  j.latestRun.bind fun run => latest (fun row => row.runId = run.runId) j.plans

/-- The row `latest_verified_output` reads. -/
def verifiedRow (planId : String) : Option VerifiedRow :=
  j.latestRun.bind fun run =>
    latest (fun row => row.runId = run.runId && row.planId = planId) j.verified

/-- `task_state`. -/
def taskState (taskId : String) : Except AppError TaskState :=
  match j.tasks.find? (·.taskId = taskId), latest (·.taskId = taskId) j.events with
  | some task, some event => .ok ⟨task, event.status, event.response, event.errorKind⟩
  | _, _ => .error (.sqlite "Query returned no rows")

/-- `tasks_for_stage`: the tasks of a stage in the order of their last events. -/
def tasksForStage (runId : String) (stage : TaskStage) : List TaskState :=
  (lastRows TaskEvent.taskId j.events).filterMap fun event =>
    (j.tasks.find? fun task => task.taskId = event.taskId && task.runId = runId &&
      task.stage = stage).map fun task => ⟨task, event.status, event.response, event.errorKind⟩

/-! ## Growth -/

/-- An insertion as a step: none where a constraint fails. -/
def step (j : Journal) (row : Row) : Option Journal := (j.insert row).toOption

/-- `k` comes from `j` by inserting rows, each of which met `P` when it was inserted. -/
def Grows (P : Journal → Row → Prop) : Journal → Journal → Prop := Reaches step P

theorem step_eq_some {j k : Journal} {row : Row} : j.step row = some k ↔ j.insert row = .ok k := by
  unfold step
  cases j.insert row with
  | error e => simp [Except.toOption]
  | ok l => simp [Except.toOption]

/-- What an insertion does to each table, with the constraints that held. -/
inductive Inserted (j : Journal) : Row → Journal → Prop
  | run {row} (id : ¬ j.HasRun row.runId)
      (sequence : row.sequence ∉ j.runs.map RunRecord.sequence) :
      Inserted j (.run row) { j with runs := j.runs ++ [row] }
  | task {row} (id : ¬ j.HasTask row.taskId)
      (key : (row.runId, row.cacheKey) ∉ j.tasks.map fun t => (t.runId, t.cacheKey))
      (run : j.HasRun row.runId) :
      Inserted j (.task row) { j with tasks := j.tasks ++ [row] }
  | event {row} (task : j.HasTask row.taskId) :
      Inserted j (.event row) { j with events := j.events ++ [row] }
  | exchange {row} (run : j.HasRun row.runId) (task : j.HasTask row.taskId) :
      Inserted j (.exchange row) { j with exchanges := j.exchanges ++ [row] }
  | revision {row} (run : j.HasRun row.runId) :
      Inserted j (.revision row) { j with revisions := j.revisions ++ [row] }
  | approval {row} (run : j.HasRun row.runId) :
      Inserted j (.approval row) { j with approvals := j.approvals ++ [row] }
  | sourceSet {row} (run : j.HasRun row.runId) :
      Inserted j (.sourceSet row) { j with sourceSets := j.sourceSets ++ [row] }
  | plan {row} (run : j.HasRun row.runId) :
      Inserted j (.plan row) { j with plans := j.plans ++ [row] }
  | verified {row} (run : j.HasRun row.runId) :
      Inserted j (.verified row) { j with verified := j.verified ++ [row] }
  | feedback {row} (run : j.HasRun row.runId) :
      Inserted j (.feedback row) { j with feedback := j.feedback ++ [row] }
  | projectEvent {kind} :
      Inserted j (.projectEvent kind) { j with projectEvents := j.projectEvents ++ [kind] }

theorem inserted_of_insert {j k : Journal} {row : Row} (h : j.insert row = .ok k) :
    Inserted j row k := by
  cases row with
  | run row =>
    simp only [insert, bind_unit_eq_ok, reject_eq_ok, not_or, Except.ok.injEq] at h
    exact h.2 ▸ .run h.1.1 h.1.2
  | task row =>
    simp only [insert, bind_unit_eq_ok, reject_eq_ok, not_or, not_not, Except.ok.injEq] at h
    exact h.2.2 ▸ .task h.1.1 h.1.2 h.2.1
  | exchange row =>
    simp only [insert, bind_unit_eq_ok, reject_eq_ok, not_or, not_not, Except.ok.injEq] at h
    exact h.2 ▸ .exchange h.1.1 h.1.2
  | event row =>
    simp only [insert, bind_unit_eq_ok, reject_eq_ok, not_not, Except.ok.injEq] at h
    exact h.2 ▸ .event h.1
  | revision row =>
    simp only [insert, bind_unit_eq_ok, reject_eq_ok, not_not, Except.ok.injEq] at h
    exact h.2 ▸ .revision h.1
  | approval row =>
    simp only [insert, bind_unit_eq_ok, reject_eq_ok, not_not, Except.ok.injEq] at h
    exact h.2 ▸ .approval h.1
  | sourceSet row =>
    simp only [insert, bind_unit_eq_ok, reject_eq_ok, not_not, Except.ok.injEq] at h
    exact h.2 ▸ .sourceSet h.1
  | plan row =>
    simp only [insert, bind_unit_eq_ok, reject_eq_ok, not_not, Except.ok.injEq] at h
    exact h.2 ▸ .plan h.1
  | verified row =>
    simp only [insert, bind_unit_eq_ok, reject_eq_ok, not_not, Except.ok.injEq] at h
    exact h.2 ▸ .verified h.1
  | feedback row =>
    simp only [insert, bind_unit_eq_ok, reject_eq_ok, not_not, Except.ok.injEq] at h
    exact h.2 ▸ .feedback h.1
  | projectEvent kind =>
    simp only [insert, Except.ok.injEq] at h
    exact h ▸ .projectEvent

theorem insert_of_inserted {j k : Journal} {row : Row} (h : Inserted j row k) :
    j.insert row = .ok k := by
  cases h with
  | run hid hs =>
    simp only [insert, bind_unit_eq_ok, reject_eq_ok, not_or]
    exact ⟨⟨hid, hs⟩, trivial⟩
  | task hid hk hr =>
    simp only [insert, bind_unit_eq_ok, reject_eq_ok, not_or, not_not]
    exact ⟨⟨hid, hk⟩, hr, trivial⟩
  | exchange hr hk =>
    simp only [insert, bind_unit_eq_ok, reject_eq_ok, not_or, not_not]
    exact ⟨⟨hr, hk⟩, trivial⟩
  | event hr | revision hr | approval hr | sourceSet hr | plan hr | verified hr | feedback hr =>
    simp only [insert, bind_unit_eq_ok, reject_eq_ok, not_not]
    exact ⟨hr, trivial⟩
  | projectEvent => rfl

/-- **What every insertion allowed by `P` keeps holds after growing by such rows.** -/
theorem Grows.invariant {P : Journal → Row → Prop} {I : Journal → Prop} {j k : Journal}
    (h : Grows P j k) (hstep : ∀ j row k, I j → P j row → Inserted j row k → I k) (hj : I j) :
    I k :=
  Reaches.invariant h
    (fun j row k hI hP hs => hstep j row k hI hP (inserted_of_insert (step_eq_some.mp hs))) hj

theorem Grows.insert {P : Journal → Row → Prop} {j k l : Journal} {row : Row} (h : Grows P j k)
    (hP : P k row) (hi : k.insert row = .ok l) : Grows P j l :=
  Relation.ReflTransGen.tail h ⟨row, hP, step_eq_some.mpr hi⟩

theorem Grows.trans {P : Journal → Row → Prop} {j k l : Journal} (h : Grows P j k)
    (h' : Grows P k l) : Grows P j l :=
  Relation.ReflTransGen.trans h h'

/-! ## Nothing is rewritten -/

/-- Every table keeps its rows. -/
structure Extends (j k : Journal) : Prop where
  runs : j.runs <+: k.runs
  tasks : j.tasks <+: k.tasks
  events : j.events <+: k.events
  exchanges : j.exchanges <+: k.exchanges
  revisions : j.revisions <+: k.revisions
  approvals : j.approvals <+: k.approvals
  sourceSets : j.sourceSets <+: k.sourceSets
  plans : j.plans <+: k.plans
  verified : j.verified <+: k.verified
  feedback : j.feedback <+: k.feedback

theorem Extends.refl (j : Journal) : j.Extends j := by
  constructor <;> exact List.prefix_refl _

theorem Extends.trans {j k l : Journal} (h : j.Extends k) (h' : k.Extends l) : j.Extends l where
  runs := h.runs.trans h'.runs
  tasks := h.tasks.trans h'.tasks
  events := h.events.trans h'.events
  exchanges := h.exchanges.trans h'.exchanges
  revisions := h.revisions.trans h'.revisions
  approvals := h.approvals.trans h'.approvals
  sourceSets := h.sourceSets.trans h'.sourceSets
  plans := h.plans.trans h'.plans
  verified := h.verified.trans h'.verified
  feedback := h.feedback.trans h'.feedback

/-- The keys and references that the schema enforces. -/
structure Intact (j : Journal) : Prop where
  runIds : (j.runs.map RunRecord.runId).Nodup
  sequences : (j.runs.map RunRecord.sequence).Nodup
  taskIds : (j.tasks.map TaskDefinition.taskId).Nodup
  tasks : ∀ row ∈ j.tasks, j.HasRun row.runId
  events : ∀ row ∈ j.events, j.HasTask row.taskId
  exchanges : ∀ row ∈ j.exchanges, j.HasRun row.runId
  approvals : ∀ row ∈ j.approvals, j.HasRun row.runId
  plans : ∀ row ∈ j.plans, j.HasRun row.runId
  verified : ∀ row ∈ j.verified, j.HasRun row.runId
  feedback : ∀ row ∈ j.feedback, j.HasRun row.runId

theorem empty_intact : empty.Intact := by
  constructor <;> simp [empty]

theorem Inserted.extends {row : Row} {j k : Journal} (h : Inserted j row k) : j.Extends k := by
  cases h <;> constructor <;> first | exact List.prefix_append _ _ | exact List.prefix_refl _

theorem HasRun.mono {j k : Journal} {id : String} (h : j.HasRun id) (he : j.Extends k) :
    k.HasRun id :=
  (he.runs.map RunRecord.runId).subset h

theorem HasTask.mono {j k : Journal} {id : String} (h : j.HasTask id) (he : j.Extends k) :
    k.HasTask id :=
  (he.tasks.map TaskDefinition.taskId).subset h

theorem Grows.extends {P : Journal → Row → Prop} {j k : Journal} (h : Grows P j k) :
    j.Extends k :=
  h.invariant (fun _ _ _ hI _ hins => hI.trans hins.extends) (Extends.refl j)

/-- References to runs survive, and a row that refers to a run may be added. -/
theorem forall_hasRun {α : Type} {run : α → String} {j k : Journal} {rows more : List α}
    (h : ∀ row ∈ rows, j.HasRun (run row)) (he : j.Extends k)
    (hm : ∀ row ∈ more, j.HasRun (run row)) : ∀ row ∈ rows ++ more, k.HasRun (run row) := by
  intro row hrow
  rcases List.mem_append.mp hrow with hrow | hrow
  · exact (h row hrow).mono he
  · exact (hm row hrow).mono he

/-- **An insertion keeps the keys and references.** -/
theorem Inserted.intact {row : Row} {j k : Journal} (h : Inserted j row k) (hj : j.Intact) :
    k.Intact := by
  have he := h.extends
  have hruns : ∀ {α : Type} {run : α → String} {rows : List α},
      (∀ row ∈ rows, j.HasRun (run row)) → ∀ row ∈ rows, k.HasRun (run row) :=
    fun h row hrow => (h row hrow).mono he
  have htasks : ∀ row ∈ j.events, k.HasTask row.taskId := fun row hrow =>
    (hj.events row hrow).mono he
  have hnew : ∀ {α : Type} {run : α → String} {new : α}, j.HasRun (run new) →
      ∀ row ∈ [new], j.HasRun (run row) := fun h row hrow => List.mem_singleton.mp hrow ▸ h
  obtain ⟨hids, hseq, htids, ht, hev, hex, ha, hp, hv, hf⟩ := hj
  cases h with
  | @run new hid hs =>
    refine ⟨?_, ?_, htids, hruns ht, htasks, hruns hex, hruns ha, hruns hp, hruns hv, hruns hf⟩
    · rw [List.map_append, List.map_singleton]
      exact hids.append (List.nodup_singleton _) (List.disjoint_singleton.mpr hid)
    · rw [List.map_append, List.map_singleton]
      exact hseq.append (List.nodup_singleton _) (List.disjoint_singleton.mpr hs)
  | @task new hid hk hr =>
    refine ⟨hids, hseq, ?_, forall_hasRun ht he (hnew hr), htasks, hruns hex, hruns ha, hruns hp,
      hruns hv, hruns hf⟩
    rw [List.map_append, List.map_singleton]
    exact htids.append (List.nodup_singleton _) (List.disjoint_singleton.mpr hid)
  | @event new hr =>
    refine ⟨hids, hseq, htids, hruns ht, fun row hrow => ?_, hruns hex, hruns ha, hruns hp,
      hruns hv, hruns hf⟩
    rcases List.mem_append.mp hrow with hrow | hrow
    · exact htasks row hrow
    · exact List.mem_singleton.mp hrow ▸ hr.mono he
  | @exchange new hr hk =>
    exact ⟨hids, hseq, htids, hruns ht, htasks, forall_hasRun hex he (hnew hr), hruns ha,
      hruns hp, hruns hv, hruns hf⟩
  | @approval new hr =>
    exact ⟨hids, hseq, htids, hruns ht, htasks, hruns hex, forall_hasRun ha he (hnew hr),
      hruns hp, hruns hv, hruns hf⟩
  | @plan new hr =>
    exact ⟨hids, hseq, htids, hruns ht, htasks, hruns hex, hruns ha,
      forall_hasRun hp he (hnew hr), hruns hv, hruns hf⟩
  | @verified new hr =>
    exact ⟨hids, hseq, htids, hruns ht, htasks, hruns hex, hruns ha, hruns hp,
      forall_hasRun hv he (hnew hr), hruns hf⟩
  | @feedback new hr =>
    exact ⟨hids, hseq, htids, hruns ht, htasks, hruns hex, hruns ha, hruns hp, hruns hv,
      forall_hasRun hf he (hnew hr)⟩
  | revision hr =>
    exact ⟨hids, hseq, htids, hruns ht, htasks, hruns hex, hruns ha, hruns hp, hruns hv, hruns hf⟩
  | sourceSet hr =>
    exact ⟨hids, hseq, htids, hruns ht, htasks, hruns hex, hruns ha, hruns hp, hruns hv, hruns hf⟩
  | projectEvent =>
    exact ⟨hids, hseq, htids, hruns ht, htasks, hruns hex, hruns ha, hruns hp, hruns hv, hruns hf⟩

theorem Grows.intact {P : Journal → Row → Prop} {j k : Journal} (h : Grows P j k)
    (hj : j.Intact) : k.Intact :=
  h.invariant (fun _ _ _ hI _ hins => hins.intact hI) hj

/-! ## The latest run -/

theorem mem_of_latestRun {j : Journal} {run : RunRecord} (h : j.latestRun = some run) :
    run ∈ j.runs :=
  mem_of_newest h

/-- A run that takes the next number is the latest. -/
theorem latestRun_append {j : Journal} {run : RunRecord}
    (h : run.sequence = j.nextRunSequence) :
    newest RunRecord.sequence (j.runs ++ [run]) = some run :=
  newest_append_next h

end Journal

end Okc.App
