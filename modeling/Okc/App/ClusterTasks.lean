import Okc.App.CacheKeys

/-!
# When a cluster's tasks return (`integration_execution.rs:740-842`, `874-1004`)

Without faults `run_cluster_tasks` returns what it seals of the providers' answers, where neither of
its two tasks was registered before. `Yields v w stage a` says so of a stage: from a session that
`Session.filed` shows as `v` it returns `a` and leaves `w`. Events and recordings are not shown: a
stage reads them only of a task that was there before.

* `yields_bind`, `yields_within`, `yields_event`: the steps.
* `yields_register`, `yields_generate`: the parts of a stage.
* **`yields_runClusterTasks`**: the output is sealed from the two drafts, whatever they say.
-/

namespace Okc.App

open Okc.Lib Okc.Core

/-- The journal, less the events and the recordings. -/
def Journal.files (j : Journal) : Journal := { j with events := [], exchanges := [] }

def Session.filed (s : Session) : Ledger := ⟨s.project.journal.files, s.registered⟩

abbrev Yields {α : Type} (v w : Ledger) (stage : Stage α) (a : α) : Prop :=
  Succeeds Session.filed (· = v) stage fun b u => b = a ∧ u = w

section

variable {α β : Type} {u v w : Ledger} {X : Externals}

theorem yields_bind {stage : Stage α} {f : α → Stage β} {a : α} {b : β} (h : Yields u v stage a)
    (hf : Yields v w (f a) b) : Yields u w (stage >>= f) b :=
  Succeeds.bind h fun c => ⟨fun s hs => by
    obtain ⟨rfl, hs⟩ := hs
    exact hf.run s hs⟩

theorem yields_pure {a : α} : Yields v v (pure a) a := Succeeds.pure fun _ hv => ⟨rfl, hv⟩

theorem yields_lift {x : Except AppError α} {a : α} (h : x = .ok a) : Yields v v (Act.lift x) a :=
  Succeeds.lift fun _ hv => ⟨a, h, rfl, hv⟩

theorem yields_within {op : Op α} {a : α} (h : ∀ s : Session, s.filed = v →
      ∃ k, Leads s.project.journal k s.project.disk op a ∧ Ledger.mk k.files s.registered = w) :
    Yields v w (within op) a := by
  refine ⟨fun s hs => ?_⟩
  obtain ⟨k, hl, hw⟩ := h s hs
  obtain ⟨_, t, ht, rfl, hk⟩ := hl.run s.project rfl
  refine ⟨_, _, within_ok ht, rfl, ?_⟩
  obtain rfl : t.journal = k := congrArg Prod.fst hk
  exact hw

/-- A question that events and recordings do not bear on. -/
theorem yields_query {f : Project → Except AppError α} {a : α}
    (h : ∀ s : Project, s.journal.files = v.journal → f s = .ok a) :
    Yields v v (within (query noFaults f)) a :=
  yields_within fun s hs => ⟨_, leads_query fun t hj _ =>
    h t (by rw [hj]; exact congrArg Ledger.journal hs), hs⟩

/-! ## Events -/

/-- The event that was appended last is the state of its task. -/
theorem taskState_append {j : Journal} (h : j.Intact) {task : TaskDefinition}
    (ht : task ∈ j.tasks) (status : TaskStatus) (response : Option Object)
    (errorKind : Option String) :
    Journal.taskState { j with events := j.events ++ [⟨task.taskId, status, response, errorKind⟩] }
      task.taskId = .ok ⟨task, status, response, errorKind⟩ := by
  have hfind : j.tasks.find? (fun t => t.taskId = task.taskId) = some task := by
    cases hf : j.tasks.find? fun t => t.taskId = task.taskId with
    | none => exact absurd (decide_eq_true rfl) (List.find?_eq_none.mp hf task ht)
    | some found =>
      have hid := List.find?_some hf
      rw [h.task_unique (List.mem_of_find?_eq_some hf) ht (of_decide_eq_true hid)]
  unfold Journal.taskState
  simp [hfind]

theorem yields_event {task : TaskDefinition} {status : TaskStatus} {response : Option Object}
    {errorKind : Option String} (ht : task ∈ v.journal.tasks)
    (hc : ¬ (status = .complete ∧ (response.isNone ∨ errorKind.isSome)))
    (hf : ¬ ((status = .failed ∨ status = .cancelled) ∧ errorKind.isNone)) :
    Yields v v (within (appendTaskStatus noFaults task.taskId status response errorKind))
      ⟨task, status, response, errorKind⟩ := by
  refine yields_within fun s hs => ?_
  have ht' : task ∈ s.project.journal.tasks := by
    subst hs
    exact ht
  exact ⟨_, leads_appendTaskStatus hc hf (List.mem_map_of_mem ht')
    (taskState_append s.project.intact ht' _ _ _), hs⟩

theorem yields_completeTask {task : TaskState} {response : Object}
    (ht : task.task ∈ v.journal.tasks) : Yields v v (completeTask noFaults task response) () :=
  yields_bind (yields_event ht (by simp) (by simp)) yields_pure

theorem yields_askProvider {task : TaskState} {response : α} (ht : task.task ∈ v.journal.tasks) :
    Yields v v (askProvider noFaults task (.ok response)) response :=
  yields_bind (yields_event ht (by simp) (by simp)) yields_pure

theorem yields_recordExchange {task : TaskDefinition} {recording : Bytes}
    (ht : task ∈ v.journal.tasks) {runId : String} (hrun : v.journal.HasRun runId) :
    Yields v v (within (recordExchange X noFaults runId task.taskId recording))
      (recordingHash X recording) := by
  refine yields_within fun s hs => ?_
  subst hs
  have hrun' : s.project.journal.HasRun runId := hrun
  have ht' : s.project.journal.HasTask task.taskId := List.mem_map_of_mem ht
  exact ⟨_, leads_bind leads_attemptIo
    (leads_bind (leads_insertRow (.exchange hrun' ht')) leads_pure), rfl⟩

/-! ## The parts of a stage -/

/-- The task that is stored for the registration. -/
def Registration.task (X : Externals) (run : RunRecord) (r : Registration) (hash : String) :
    TaskDefinition :=
  ⟨"task_" ++ (digest X "okc:task:v3\x00" [utf8 run.runId, utf8 hash]).hex, run.runId, r.key.stage,
    hash, r.request⟩

/-- No task was registered under the key. -/
structure Unregistered (X : Externals) (v : Ledger) (run : RunRecord) (r : Registration)
    (hash : String) : Prop where
  key : r.key.hash X = .ok hash
  taskId : ¬ v.journal.HasTask (r.task X run hash).taskId
  cacheKey : (run.runId, hash) ∉ v.journal.tasks.map fun t => (t.runId, t.cacheKey)

/-- The ledger with a task for the registration. -/
def Ledger.file (X : Externals) (v : Ledger) (run : RunRecord) (r : Registration) (hash : String) :
    Ledger :=
  ⟨{ v.journal with tasks := v.journal.tasks ++ [r.task X run hash] }, v.registered ++ [(run, r)]⟩

theorem yields_register {run : RunRecord} {r : Registration} {hash : String}
    (h : Unregistered X v run r hash) (hrun : v.journal.HasRun run.runId) :
    Yields v (v.file X run r hash) (register X noFaults run r)
      ⟨r.task X run hash, .queued, none, none⟩ := by
  have hnote : Yields v ⟨v.journal, v.registered ++ [(run, r)]⟩ (note run r) () :=
    ⟨fun s hs => ⟨(), _, rfl, rfl, by subst hs; rfl⟩⟩
  refine yields_bind hnote (yields_within fun s hs => ?_)
  have hjournal : s.project.journal.files = v.journal := congrArg Ledger.journal hs
  have hregistered : s.registered = v.registered ++ [(run, r)] := congrArg Ledger.registered hs
  have htasks : s.project.journal.tasks = v.journal.tasks := by
    rw [← hjournal]
    rfl
  have hruns : s.project.journal.runs = v.journal.runs := by
    rw [← hjournal]
    rfl
  refine ⟨_, leads_registerTask rfl h.key rfl ?_ ?_ ?_, ?_⟩
  · unfold Journal.HasTask
    rw [htasks]
    exact h.taskId
  · rw [htasks]
    exact h.cacheKey
  · unfold Journal.HasRun
    rw [hruns]
    exact hrun
  · unfold Ledger.file
    rw [← hjournal, ← hregistered]
    rfl

/-- The disclosure is authorized, and the client answers the request. -/
def Environment.Grants (env : Environment X) (findings : SensitiveScan)
    (allowRemoteProvider confirmed : Bool) (role : AiRole) (profileName : String)
    (disclosed : List DocumentId) (request : StructuredGenerationRequest)
    (response : StructuredGenerationResponse) : Prop :=
  ∃ client authorization, env.client profileName = .ok client ∧
    findings.authorize role profileName client.capabilities disclosed allowRemoteProvider confirmed
      true = .ok authorization ∧
    client.generateStructured request = .ok response

/-- The hash of the exchange of a request. -/
def exchangeHash (X : Externals) (request : StructuredGenerationRequest)
    (response : StructuredGenerationResponse) : ContentHash :=
  recordingHash X (exchangeRecording request.toValue response.toValue)

section

variable {env : Environment X} {run : RunRecord} {findings : SensitiveScan}
  {allowRemoteProvider confirmed : Bool} {name : String} {response : StructuredGenerationResponse}

theorem yields_generate {task : TaskState} {role : AiRole} {disclosed : List DocumentId}
    {request : StructuredGenerationRequest}
    (h : env.Grants findings allowRemoteProvider confirmed role name disclosed request response)
    (ht : task.task ∈ v.journal.tasks) (hrun : v.journal.HasRun run.runId) :
    Yields v v (generate X noFaults env run task role name findings disclosed allowRemoteProvider
      confirmed request) (response.output, exchangeHash X request response) := by
  obtain ⟨client, authorization, hclient, hauthorize, hanswer⟩ := h
  refine yields_bind (yields_lift hclient) (yields_bind (yields_lift hauthorize) ?_)
  rw [hanswer]
  exact yields_bind (yields_askProvider ht) <|
    yields_bind (yields_recordExchange ht hrun) yields_pure

/-! ## The two stages -/

variable {approved : ApprovedTaxonomy} {cluster : TaxonomyCluster} {texts : BlockTextMap}
  {profile : ProviderProfile} {hash : String}

theorem mem_file {r : Registration} : r.task X run hash ∈ (v.file X run r hash).journal.tasks :=
  List.mem_append_right _ List.mem_cons_self

theorem yields_runSynthesisTask {regeneration : Option ClusterRegenerationRequest}
    {draft : SynthesisDraft} (hrun : v.journal.HasRun run.runId)
    (hnew : Unregistered X v run
      (synthesisRegistration X run approved cluster name profile texts regeneration) hash)
    (hgrants : env.Grants findings allowRemoteProvider confirmed .synthesis name
      (disclosedDocuments approved cluster)
      (synthesisRequest run approved cluster texts regeneration) response)
    (hdraft : env.synthesisDraft response.output = .ok draft) :
    Yields v (v.file X run
        (synthesisRegistration X run approved cluster name profile texts regeneration) hash)
      (runSynthesisTask X noFaults env run findings allowRemoteProvider confirmed approved cluster
        texts name profile regeneration)
      (draft.toProposal X cluster.clusterId approved.taxonomy.taxonomyHash
        (revisionFor regeneration)
        (exchangeHash X (synthesisRequest run approved cluster texts regeneration) response)) := by
  refine yields_bind (yields_register hnew hrun) ?_
  rw [if_neg (by simp)]
  exact yields_bind (yields_generate hgrants mem_file hrun) <| yields_bind (yields_lift hdraft) <|
    yields_bind (yields_completeTask mem_file) yields_pure

theorem yields_runCriticTask {corpus : IntegrationCorpus} {proposal : SynthesisProposal}
    {drafted : List CriticFinding} (hrun : v.journal.HasRun run.runId)
    (hnew : Unregistered X v run
      (criticRegistration X run approved cluster name profile corpus texts proposal) hash)
    (hgrants : env.Grants findings allowRemoteProvider confirmed .critic name
      (disclosedDocuments approved cluster) (criticRequest run approved cluster texts proposal)
      response)
    (hdraft : env.criticDraft response.output = .ok drafted) :
    Yields v (v.file X run
        (criticRegistration X run approved cluster name profile corpus texts proposal) hash)
      (runCriticTask X noFaults env run findings allowRemoteProvider confirmed approved cluster
        texts name profile corpus proposal)
      ⟨proposal, .seal X cluster.clusterId proposal.proposalHash drafted
        (exchangeHash X (criticRequest run approved cluster texts proposal) response)⟩ := by
  refine yields_bind (yields_register hnew hrun) ?_
  rw [if_neg (by simp)]
  exact yields_bind (yields_generate hgrants mem_file hrun) <| yields_bind (yields_lift hdraft) <|
    yields_bind (yields_completeTask mem_file) yields_pure

/-- **The tasks of a cluster** return what is sealed of the two drafts, whatever these say. -/
theorem yields_runClusterTasks {routes : AiRouteConfig} {config : ProviderConfig}
    {prepared : PreparedCorpus X} {synthesisProfile criticProfile : ProviderProfile}
    {regeneration : Option ClusterRegenerationRequest} {draft : SynthesisDraft}
    {proposal : SynthesisProposal} {drafted : List CriticFinding} {first second : String}
    {answer : StructuredGenerationResponse} (hrun : v.journal.HasRun run.runId)
    (hregeneration : v.journal.latestClusterRegeneration run.runId cluster.clusterId = regeneration)
    (hsynthesis : requiredProfile config (routes.profileFor .synthesis) = .ok synthesisProfile)
    (hcritic : requiredProfile config (routes.profileFor .critic) = .ok criticProfile)
    (hfirst : Unregistered X v run (synthesisRegistration X run approved cluster
      (routes.profileFor .synthesis) synthesisProfile prepared.blockTexts regeneration) first)
    (hanswer : env.Grants findings allowRemoteProvider confirmed .synthesis
      (routes.profileFor .synthesis) (disclosedDocuments approved cluster)
      (synthesisRequest run approved cluster prepared.blockTexts regeneration) answer)
    (hdraft : env.synthesisDraft answer.output = .ok draft)
    (hproposal : proposal = draft.toProposal X cluster.clusterId approved.taxonomy.taxonomyHash
      (revisionFor regeneration) (exchangeHash X
        (synthesisRequest run approved cluster prepared.blockTexts regeneration) answer))
    (hsecond : Unregistered X (v.file X run (synthesisRegistration X run approved cluster
        (routes.profileFor .synthesis) synthesisProfile prepared.blockTexts regeneration) first)
      run (criticRegistration X run approved cluster (routes.profileFor .critic) criticProfile
        prepared.corpus prepared.blockTexts proposal) second)
    (hresponse : env.Grants findings allowRemoteProvider confirmed .critic
      (routes.profileFor .critic) (disclosedDocuments approved cluster)
      (criticRequest run approved cluster prepared.blockTexts proposal) response)
    (hdrafted : env.criticDraft response.output = .ok drafted) :
    Yields v ((v.file X run (synthesisRegistration X run approved cluster
        (routes.profileFor .synthesis) synthesisProfile prepared.blockTexts regeneration)
        first).file X run (criticRegistration X run approved cluster (routes.profileFor .critic) criticProfile
          prepared.corpus prepared.blockTexts proposal) second)
      (runClusterTasks X noFaults env run findings allowRemoteProvider confirmed routes config
        prepared approved cluster)
      ⟨proposal, .seal X cluster.clusterId proposal.proposalHash drafted
        (exchangeHash X (criticRequest run approved cluster prepared.blockTexts proposal) response)⟩
    := by
  refine yields_bind (a := ()) (yields_query fun _ _ => rfl) (yields_bind (yields_lift hsynthesis)
    (yields_bind (a := regeneration) (yields_query fun s hs => ?_) ?_))
  · rw [← hregeneration, ← hs]
    rfl
  · refine yields_bind (yields_runSynthesisTask hrun hfirst hanswer hdraft) ?_
    subst hproposal
    exact yields_bind (yields_lift hcritic)
      (yields_runCriticTask hrun hsecond hresponse hdrafted)

end

end

end Okc.App
