import Okc.App.Currency
import Okc.App.FirstCall

/-!
# Running the pipeline again (`integration_execution.rs:104-278`)

A call of `execute` that returned can be made again, with other providers or none: every stage finds
its task complete, and the call returns what it returned. Of the journal only the last plan may be
there once more.

* `Later`: what the stages of a run do to the journal and the manifest file.
* `resumed_task`: a stage, made again. One lemma follows for each stage and each loop.
* `resumed_executeFrom`, **`execute_again`**: the call.
-/

namespace Okc.App

open Okc.Lib Okc.Core

/-- The rows of stages were inserted. -/
abbrev Later : Journal × ProjectManifest → Journal × ProjectManifest → Prop :=
  Relation.ReflTransGen (Appends Works)

/-- Where the one returned, the other repeats it. -/
abbrev Resumed {α : Type} (K S : Journal × ProjectManifest → Journal × ProjectManifest → Prop)
    (m n : Stage α) : Prop := Replayed Session.stored (Appends Works) K S m n

/-- The last plan may be there once more. -/
def Resealed (v w : Journal × ProjectManifest) : Prop :=
  w.2 = v.2 ∧ (w.1 = v.1 ∨ ∃ row, v.1.plans.getLast? = some row ∧
    w.1 = { v.1 with plans := v.1.plans ++ [row] })

section

variable {α : Type} {X : Externals} {faults : Faults} {v w : Journal × ProjectManifest}

theorem resealed_of_eq (h : v = w) : Resealed v w := h ▸ ⟨rfl, .inl rfl⟩

theorem sameReview_of_works {j k : Journal} {row : Row} (h : Works j row)
    (hi : j.Inserted row k) : j.SameReview k := by
  cases hi with
  | run | approval | feedback => exact absurd h id
  | _ => exact ⟨rfl, rfl, rfl⟩

/-- Stages change neither the review nor the manifest file. -/
theorem sameReview_of_later (h : Later v w) : v.1.SameReview w.1 ∧ w.2 = v.2 := by
  induction h with
  | refl => exact ⟨⟨rfl, rfl, rfl⟩, rfl⟩
  | tail _ hm ih =>
    obtain ⟨⟨row, hrow, hi⟩, hdisk⟩ := hm
    have hnext := sameReview_of_works hrow hi
    exact ⟨⟨hnext.runs.trans ih.1.runs, hnext.approvals.trans ih.1.approvals,
      hnext.feedback.trans ih.1.feedback⟩, hdisk.trans ih.2⟩

/-! ## Steps -/

/-- An operation without effect, in a session. -/
theorem repeats_within {K : Journal × ProjectManifest → Journal × ProjectManifest → Prop}
    {op : Op α} {a : α}
    (h : ∀ s : Project, K v s.stored → Leads s.journal s.journal s.disk op a) :
    Repeats Session.stored K Eq (within op) a v := by
  refine ⟨fun s hs => ?_⟩
  obtain ⟨_, t, ht, rfl, hstored⟩ := (h s.project hs).run s.project rfl
  exact ⟨_, within_ok ht, hstored.symm⟩

/-- A question that the rows of stages do not bear on. -/
theorem resumed_query {f : Project → Except AppError α}
    (hf : ∀ s t : Project, s.journal.SameReview t.journal → f t = f s) :
    Resumed Later Eq (within (query faults f)) (within (query noFaults f)) := by
  have hfirst : Logs (fun _ => True) (within (query faults f)) fun a v =>
      ∃ s : Project, s.stored = v ∧ f s = .ok a := logs_within (puts_query fun s a _ ha => ⟨s, rfl, ha⟩)
  refine hfirst.mono (fun _ h => h) fun a v hv => ?_
  obtain ⟨s, rfl, ha⟩ := hv
  refine repeats_within fun t ht => leads_query fun u hj _ => ?_
  rw [← ha]
  exact hf s u (hj ▸ (sameReview_of_later ht).1)

theorem resumed_attemptIo :
    Resumed Later Eq (within (attemptIo faults)) (within (attemptIo noFaults)) :=
  resumed_query fun _ _ _ => rfl

/-- A stored task is found by its identity. -/
theorem find?_task {j : Journal} (h : j.Intact) {task : TaskDefinition} (ht : task ∈ j.tasks) :
    j.tasks.find? (fun t => t.taskId = task.taskId) = some task := by
  cases hf : j.tasks.find? fun t => t.taskId = task.taskId with
  | none => exact absurd (decide_eq_true rfl) (List.find?_eq_none.mp hf task ht)
  | some found =>
    have hid := List.find?_some hf
    rw [h.task_unique (List.mem_of_find?_eq_some hf) ht (of_decide_eq_true hid)]

/-- A registration finds the complete task. -/
theorem repeats_register {run : RunRecord} {r : Registration} {response : Option Object}
    (h : v.1.Answers X run r response) :
    ∃ st : TaskState, st.status = .complete ∧ st.response = response ∧
      Repeats Session.stored Later Eq (register X noFaults run r) st v := by
  obtain ⟨task, e, hlists, he, hc, hr⟩ := h
  refine ⟨⟨task, e.status, e.response, e.errorKind⟩, hc, hr, ?_⟩
  have hnote : Repeats Session.stored Later Eq (note run r) () v :=
    ⟨fun s _ => ⟨_, rfl, rfl⟩⟩
  refine hnote.bind (repeats_within fun s hs => ?_)
  obtain ⟨hlists', he'⟩ := listed_of_works hs hlists he hc
  have htask := find?_task s.intact (List.mem_of_find?_eq_some hlists'.found)
  refine leads_bind (leads_lift (reject_eq_ok.mpr (not_not.mpr rfl))) (leads_bind
    (leads_lift hlists'.key) (leads_bind leads_attemptIo (leads_bind
      (a := some ⟨task, e.status, e.response, e.errorKind⟩) (leads_query fun t hj _ => ?_) ?_)))
  · have hfound : t.journal.tasks.find? (fun t => t.runId = run.runId && t.cacheKey =
        task.cacheKey) = some task := hj ▸ hlists'.found
    rw [hfound, hj]
    dsimp only
    unfold Journal.taskState
    rw [htask, show latest (fun e => e.taskId = task.taskId) s.journal.events = some e from he']
    rfl
  · exact leads_bind (leads_lift (reject_eq_ok.mpr (not_not.mpr hlists'.request))) leads_pure

/-- **A stage, made again.** -/
theorem repeats_task {run : RunRecord} {r : Registration} {decode : Object → Except AppError α}
    {rest : TaskState → Stage α} {a : α} (h : v.1.Gives X run r decode a) :
    Repeats Session.stored Later Eq (do
      let task ← register X noFaults run r
      if task.status = .complete then Act.lift (completeTaskResponse decode task)
      else rest task) a v := by
  obtain ⟨response, hdecode, hanswers⟩ := h
  obtain ⟨st, hstatus, hresponse, hregister⟩ := repeats_register hanswers
  refine hregister.bind ?_
  rw [if_pos hstatus]
  exact Repeats.lift (completeTaskResponse_eq_ok.mpr ⟨hstatus, response, hresponse, hdecode⟩)

/-! ## Stages -/

section

variable {env env' : Environment X} {run : RunRecord} {findings : SensitiveScan}
  {allow confirmed allow' confirmed' : Bool} {prepared : PreparedCorpus X}
  {name : String} {profile : ProviderProfile} {disclosed : List DocumentId}

theorem resumed_recordPreflight {corpus : IntegrationCorpus} :
    Resumed Later Eq (recordPreflight X faults run corpus)
      (recordPreflight X noFaults run corpus) := by
  refine logs_recordPreflight.mono (fun _ h => h) fun _ v hv => ?_
  obtain ⟨response, hanswers⟩ := hv
  obtain ⟨st, hstatus, -, hregister⟩ := repeats_register hanswers
  refine hregister.bind ?_
  rw [if_neg (not_not.mpr hstatus)]
  exact Repeats.pure

theorem resumed_runEmbeddingTask :
    Resumed Later Eq
      (runEmbeddingTask X faults env run findings allow confirmed prepared name profile disclosed)
      (runEmbeddingTask X noFaults env' run findings allow' confirmed' prepared name profile
        disclosed) :=
  logs_runEmbeddingTask.mono (fun _ h => h) fun _ _ h => repeats_task h

theorem resumed_runCandidateTask {corpus : IntegrationCorpus} {embeddings : Value} :
    Resumed Later Eq (runCandidateTask X faults env run corpus embeddings)
      (runCandidateTask X noFaults env' run corpus embeddings) :=
  logs_runCandidateTask.mono (fun _ h => h) fun _ _ h => repeats_task h

theorem resumed_runOrganizerTask {candidates : List Value} :
    Resumed Later Eq
      (runOrganizerTask X faults env run findings allow confirmed prepared candidates name profile
        disclosed)
      (runOrganizerTask X noFaults env' run findings allow' confirmed' prepared candidates name
        profile disclosed) :=
  logs_runOrganizerTask.mono (fun _ h => h) fun _ _ h => repeats_task h

section

variable {approved : ApprovedTaxonomy} {cluster : TaxonomyCluster} {texts : BlockTextMap}

theorem resumed_runSynthesisTask {regeneration : Option ClusterRegenerationRequest} :
    Resumed Later Eq
      (runSynthesisTask X faults env run findings allow confirmed approved cluster texts name
        profile regeneration)
      (runSynthesisTask X noFaults env' run findings allow' confirmed' approved cluster texts name
        profile regeneration) :=
  logs_runSynthesisTask.mono (fun _ h => h) fun _ _ h => repeats_task h

theorem resumed_runCriticTask {corpus : IntegrationCorpus} {proposal : SynthesisProposal} :
    Resumed Later Eq
      (runCriticTask X faults env run findings allow confirmed approved cluster texts name profile
        corpus proposal)
      (runCriticTask X noFaults env' run findings allow' confirmed' approved cluster texts name
        profile corpus proposal) :=
  logs_runCriticTask.mono (fun _ h => h) fun _ _ h => repeats_task h

theorem resumed_runClusterTasks {routes : AiRouteConfig} {config : ProviderConfig} :
    Resumed Later Eq
      (runClusterTasks X faults env run findings allow confirmed routes config prepared approved
        cluster)
      (runClusterTasks X noFaults env' run findings allow' confirmed' routes config prepared
        approved cluster) := by
  have hlater : ∀ v w, Later v w → Later v w := fun _ _ h => h
  refine Replayed.bind resumed_attemptIo (fun _ => ?_) hlater
  refine Replayed.bind Replayed.lift (fun synthesisProfile => ?_) hlater
  refine Replayed.bind (resumed_query fun s t h => ?_) (fun regeneration => ?_) hlater
  · unfold Journal.latestClusterRegeneration
    rw [h.feedback]
  refine Replayed.bind resumed_runSynthesisTask (fun proposal => ?_) hlater
  exact Replayed.bind Replayed.lift (fun criticProfile => resumed_runCriticTask) hlater

end

theorem resumed_runClusters {routes : AiRouteConfig} {config : ProviderConfig}
    {approved : ApprovedTaxonomy} (clusters : List TaxonomyCluster) :
    Resumed Later Eq
      (runClusters X faults env run findings allow confirmed routes config prepared approved
        clusters)
      (runClusters X noFaults env' run findings allow' confirmed' routes config prepared approved
        clusters) := by
  have hlater : ∀ v w, Later v w → Later v w := fun _ _ h => h
  induction clusters with
  | nil => exact Replayed.pure
  | cons cluster rest ih =>
    refine Replayed.bind resumed_runClusterTasks (fun output => ?_) hlater
    refine Replayed.bind (resumed_query fun s t h => h.latestApproval _ _ _) (fun approval => ?_)
      hlater
    exact Replayed.bind ih (fun completed => Replayed.pure) hlater

/-! ## The seal -/

/-- Sealing again seals the same plan. -/
theorem sealedPlan_of_inserted {j k : Journal} {row : PlanRow} {runId : String}
    {p : ApprovedIntegrationPlan} (h : j.Inserted (.plan row) k)
    (hp : j.sealedPlan X = .ok (some (runId, p))) : k.sealedPlan X = .ok (some (runId, p)) := by
  obtain ⟨run, approved, revisions, hrun, rfl, htaxonomy, hrevisions, hseal⟩ := sealedPlan_iff.mp hp
  obtain ⟨hsame, hexchanges⟩ := sameReview_of_plan h
  refine sealedPlan_iff.mpr ⟨run, approved, revisions, hsame.latestRun.trans hrun, rfl,
    hsame.carriesTaxonomy htaxonomy, hrevisions.imp fun _ _ hr => ⟨hsame.carries hr.1, hr.2⟩, ?_⟩
  unfold Journal.recordingHashes
  rw [hexchanges]
  exact hseal

/-- The plan that `seal_latest_integration_plan` returned is the last row. -/
def Journal.SealedLast (X : Externals) (j : Journal) : Option ApprovedIntegrationPlan → Prop
  | none => j.sealedPlan X = .ok none
  | some p => ∃ runId row, j.sealedPlan X = .ok (some (runId, p)) ∧
      row = ⟨runId, p.integrationPlanId, planObjectHash X p, p⟩ ∧ j.plans.getLast? = some row

theorem resumed_seal : Resumed Eq Resealed (within (sealLatestIntegrationPlan X faults))
    (within (sealLatestIntegrationPlan X noFaults)) := by
  have hfirst : Logs (fun _ => True) (within (sealLatestIntegrationPlan X faults)) fun found v =>
      v.1.SealedLast X found := by
    refine logs_within (Advances.bind (Q := fun found v => v.1.sealedPlan X = .ok found)
      (puts_query fun _ _ _ ha => ha) fun found => ?_)
    cases found with
    | none => exact Advances.pure fun _ hv => hv
    | some found =>
      obtain ⟨runId, p⟩ := found
      refine Advances.bind (Q := fun _ v => ∃ row, v.1.sealedPlan X = .ok (some (runId, p)) ∧
        row = ⟨runId, p.integrationPlanId, planObjectHash X p, p⟩ ∧
        v.1.plans.getLast? = some row) ?_ fun _ => Advances.pure fun _ hv => ⟨runId, hv⟩
      refine Advances.bind (Q := fun _ v => v.1.sealedPlan X = .ok (some (runId, p)))
        (Advances.lift fun _ _ _ hv => hv) fun _ => ?_
      refine Advances.bind puts_attemptIo fun _ => ?_
      refine puts_insertRow (fun _ _ => by trivial) fun v k hv hi => ?_
      refine ⟨_, sealedPlan_of_inserted hi hv, rfl, ?_⟩
      cases hi
      exact List.getLast?_concat
  refine hfirst.mono (fun _ h => h) fun found v hv => ⟨fun s hs => ?_⟩
  subst hs
  cases found with
  | none =>
    obtain ⟨_, t, ht, rfl, hstored⟩ := (leads_bind (leads_query fun u hj _ => by rw [hj]; exact hv)
      leads_pure : Leads s.project.journal s.project.journal s.project.disk
        (sealLatestIntegrationPlan X noFaults) none).run s.project rfl
    exact ⟨_, within_ok ht, resealed_of_eq hstored.symm⟩
  | some p =>
    obtain ⟨runId, row, hsealed, rfl, hlast⟩ := hv
    obtain ⟨_, t, ht, rfl, hstored⟩ :=
      (leads_sealLatestIntegrationPlan (m := s.project.disk) hsealed).run s.project rfl
    obtain ⟨hjournal, hdisk⟩ := Prod.mk.inj hstored
    exact ⟨_, within_ok ht, hdisk, .inr ⟨_, hlast, hjournal⟩⟩

theorem resumed_runApproved {routes : AiRouteConfig} {config : ProviderConfig}
    {base : IntegrationExecution} {approved : ApprovedTaxonomy} :
    Resumed Eq Resealed
      (runApproved X faults env run findings allow confirmed routes config prepared base approved)
      (runApproved X noFaults env' run findings allow' confirmed' routes config prepared base
        approved) := by
  have heq : ∀ v w : Journal × ProjectManifest, v = w → Later v w := fun _ _ h =>
    h ▸ Relation.ReflTransGen.refl
  refine Replayed.bind Replayed.lift (fun _ => ?_) heq
  refine Replayed.bind (resumed_runClusters _) (fun completed => ?_) heq
  by_cases hall : completed ≠ approved.taxonomy.clusters.length
  · rw [if_pos hall, if_pos hall]
    exact Replayed.pure.mono (fun _ _ h => h) fun _ _ => resealed_of_eq
  · rw [if_neg hall, if_neg hall]
    refine Replayed.bind_lift resumed_seal fun plan => ?_
    cases plan with
    | none => exact ⟨.error _, rfl⟩
    | some plan => exact ⟨.ok _, rfl⟩

/-! ## The call -/

/-- The environments differ at most in the providers. -/
structure Environment.Same (env env' : Environment X) : Prop where
  build : env'.build = env.build
  config : env'.config = env.config
  similarity : env'.similarity = env.similarity

theorem resumed_executeFrom {manifest : ProjectManifest} (hsame : env.Same env') :
    Resumed Eq Resealed (executeFrom X faults env allow confirmed manifest prepared run)
      (executeFrom X noFaults env' allow' confirmed' manifest prepared run) := by
  have heq : ∀ v w : Journal × ProjectManifest, v = w → Later v w := fun _ _ h =>
    h ▸ Relation.ReflTransGen.refl
  unfold executeFrom
  rw [hsame.config, hsame.similarity]
  refine Replayed.bind resumed_recordPreflight (fun _ => ?_) heq
  refine Replayed.bind Replayed.lift (fun config => ?_) heq
  refine Replayed.bind Replayed.lift (fun _ => ?_) heq
  refine Replayed.bind Replayed.lift (fun embeddingProfile => ?_) heq
  refine Replayed.bind resumed_runEmbeddingTask (fun embeddings => ?_) heq
  refine Replayed.bind resumed_attemptIo (fun _ => ?_) heq
  refine Replayed.bind resumed_runCandidateTask (fun candidates => ?_) heq
  refine Replayed.bind Replayed.lift (fun organizerProfile => ?_) heq
  refine Replayed.bind resumed_runOrganizerTask (fun _ => ?_) heq
  refine Replayed.bind Replayed.lift (fun bytes => ?_) heq
  refine Replayed.bind (resumed_query fun s t h => h.latestApproval _ _ _) (fun approval => ?_) heq
  dsimp only
  split
  · exact Replayed.pure.mono (fun _ _ h => h) fun _ _ => resealed_of_eq
  · exact resumed_runApproved

/-- The run is the latest, and of these hashes. -/
structure Resumable (j : Journal) (inputHash configHash : String) (run : RunRecord) : Prop where
  input : validateHexHash "input hash" inputHash = .ok ()
  config : validateHexHash "configuration hash" configHash = .ok ()
  latest : j.latestRun = some run
  same : run.inputHash = inputHash ∧ run.configHash = configHash

theorem latestRun_of_started {j k : Journal} {inputHash configHash : String}
    (h : j.Inserted (.run (startedRun X j inputHash configHash)) k) :
    k.latestRun = some (startedRun X j inputHash configHash) := by
  have hseq : (startedRun X j inputHash configHash).sequence = j.nextRunSequence := rfl
  generalize startedRun X j inputHash configHash = run at h hseq
  cases h
  exact Journal.latestRun_append hseq

theorem resumable_of_begin {inputHash configHash : String} {s t : Project}
    (h : beginOrResumeRun X faults inputHash configHash s = (.ok run, t)) :
    Resumable t.journal inputHash configHash run ∧ t.disk = s.disk := by
  obtain ⟨_, _, hi, h₁⟩ := Act.bind_eq_ok.mp h
  obtain ⟨hinput, rfl⟩ := Act.lift_eq_ok.mp hi
  obtain ⟨_, _, hc, h₂⟩ := Act.bind_eq_ok.mp h₁
  obtain ⟨hconfig, rfl⟩ := Act.lift_eq_ok.mp hc
  obtain ⟨existing, _, hlatest, h₃⟩ := Act.bind_eq_ok.mp h₂
  obtain ⟨-, hread, rfl⟩ := query_eq_ok.mp hlatest
  clear h h₁ h₂
  obtain rfl := Except.ok.inj hread
  generalize hfilter : Option.filter (fun run : RunRecord => decide (run.inputHash = inputHash) &&
    decide (run.configHash = configHash)) _ = found at h₃
  cases found with
  | some found =>
    obtain ⟨hrun, rfl⟩ := Prod.mk.inj h₃
    obtain rfl := Except.ok.inj hrun
    obtain ⟨hlatest, hsame⟩ := Option.filter_eq_some_iff.mp hfilter
    rw [Bool.and_eq_true, decide_eq_true_eq, decide_eq_true_eq] at hsame
    exact ⟨⟨hinput, hconfig, hlatest, hsame⟩, rfl⟩
  | none =>
    obtain ⟨-, hstart⟩ := commit_eq_ok.mp h₃
    obtain ⟨u, hu, hstart⟩ := bind_eq_ok.mp hstart
    obtain ⟨rfl, rfl⟩ := Prod.mk.inj (Except.ok.inj hstart)
    obtain ⟨hinsert, -, hdisk, -⟩ := insert_eq_ok.mp hu
    exact ⟨⟨hinput, hconfig, latestRun_of_started (Journal.inserted_of_insert hinsert), rfl, rfl⟩,
      hdisk⟩

theorem leads_resumeRun {j : Journal} {m : ProjectManifest} {inputHash configHash : String}
    (h : Resumable j inputHash configHash run) :
    Leads j j m (beginOrResumeRun X noFaults inputHash configHash) run := by
  refine leads_bind (leads_lift h.input) (leads_bind (leads_lift h.config) (leads_bind
    (leads_query (a := some run) fun s hj _ => by rw [hj, h.latest]) ?_))
  have hfilter : ((some run).filter fun run =>
      run.inputHash = inputHash && run.configHash = configHash) = some run := by
    rw [Option.filter_some, if_pos (by simp [h.same.1, h.same.2])]
  rw [hfilter]
  exact leads_pure

theorem within_eq_ok {op : Op α} {a : α} {s t : Session} (h : within op s = (.ok a, t)) :
    op s.project = (.ok a, t.project) := by
  unfold within at h
  cases hop : op s.project with
  | mk r u =>
    rw [hop] at h
    obtain ⟨rfl, rfl⟩ := Prod.mk.inj h
    rfl

/-- **A call of `execute` can be made again.** Where it returned, whatever failed before, and
whatever the providers and the permissions are now, it returns the same; no task, event or exchange
is added, and of a plan only the last row once more. -/
theorem execute_again {s t : Session} {result : IntegrationExecution} (hsame : env.Same env')
    (h : execute X faults env allow confirmed s = (.ok result, t)) :
    ∃ u, execute X noFaults env' allow' confirmed' t = (.ok result, u) ∧
      Resealed t.stored u.stored := by
  rw [execute_eq] at h
  obtain ⟨_, s₁, hstart, h₁⟩ := Act.bind_eq_ok.mp h
  obtain ⟨manifest, s₂, hopen, h₂⟩ := Act.bind_eq_ok.mp h₁
  obtain ⟨_, s₃, hlock, h₃⟩ := Act.bind_eq_ok.mp h₂
  obtain ⟨_, s₄, hreject, h₄⟩ := Act.bind_eq_ok.mp h₃
  obtain ⟨prepared, s₅, hcorpus, h₅⟩ := Act.bind_eq_ok.mp h₄
  obtain ⟨_, s₆, hcheck, h₆⟩ := Act.bind_eq_ok.mp h₅
  obtain ⟨run, s₇, hbegin, h₇⟩ := Act.bind_eq_ok.mp h₆
  clear h h₁ h₂ h₃ h₄ h₅ h₆
  obtain ⟨hsources, rfl⟩ := Act.lift_eq_ok.mp hreject
  obtain ⟨hbuild, rfl⟩ := Act.lift_eq_ok.mp hcorpus
  obtain ⟨-, hread, hp₂⟩ := query_eq_ok.mp (within_eq_ok hopen)
  obtain ⟨hvalid, hmanifest⟩ := bind_unit_eq_ok.mp hread
  have hmanifest := Except.ok.inj hmanifest
  obtain ⟨hresumable, hdisk⟩ := resumable_of_begin (within_eq_ok hbegin)
  have hdisk₇ : s₇.project.disk = manifest := by
    rw [hdisk, (attemptIo_eq_ok.mp (within_eq_ok hcheck)).2,
      (attemptIo_eq_ok.mp (within_eq_ok hlock)).2, hp₂, ← hmanifest]
    rfl
  -- from here on the rows of stages are inserted, and nothing else
  have hresumed := @resumed_executeFrom X faults env env' run allow confirmed allow' confirmed'
    prepared manifest hsame
  have hlater := hresumed.moves (s := s₇) trivial
  rw [h₇] at hlater
  obtain ⟨hreview, hdisk'⟩ := sameReview_of_later hlater
  have hmanifest' : t.project.disk = manifest := hdisk'.trans hdisk₇
  have hrest := hresumed.ok (s := s₇) trivial h₇
  have hagain : Repeats Session.stored Eq Resealed
      (execute X noFaults env' allow' confirmed') result t.stored := by
    rw [execute_eq]
    refine (repeats_within fun _ _ => leads_attemptIo).bind ?_
    refine (repeats_within (a := manifest) fun s hs => ?_).bind ?_
    · have hs' : s.disk = manifest := (congrArg Prod.snd hs).symm.trans hmanifest'
      rw [hs']
      exact leads_openProject (hmanifest ▸ validate_eq_ok.mp hvalid)
    refine (repeats_within fun _ _ => leads_attemptIo).bind ?_
    refine (Repeats.lift hsources).bind ?_
    refine (Repeats.lift (hsame.build ▸ hbuild)).bind ?_
    refine (repeats_within fun _ _ => leads_attemptIo).bind ?_
    refine (repeats_within (a := run) fun s hs => ?_).bind hrest
    have hjournal : s.journal = t.project.journal := (congrArg Prod.fst hs).symm
    refine leads_resumeRun { hresumable with latest := ?_ }
    rw [hjournal]
    exact hreview.latestRun.trans hresumable.latest
  exact hagain.run t rfl

end

end

/-- The theorem at work: what a first call found, a second one finds without a provider. -/
theorem execute_again_offline : ∃ result t u,
    execute Pilot.externals noFaults Pilot.environment false false (.create Pilot.manifest) =
      (.ok result, t) ∧
    execute Pilot.externals noFaults { Pilot.environment with
      client := fun _ => .error (.invalidProject "no client") } false false t = (.ok result, u) ∧
    Resealed t.stored u.stored := by
  obtain ⟨result, t, h⟩ := Pilot.returns
  obtain ⟨u, hu, hstored⟩ := @execute_again _ _ Pilot.environment { Pilot.environment with
    client := fun _ => .error (.invalidProject "no client") } _ _ false false _ _ _
    ⟨rfl, rfl, rfl⟩ h
  exact ⟨result, t, u, h, hu, hstored⟩

end Okc.App
