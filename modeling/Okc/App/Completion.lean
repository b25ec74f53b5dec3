import Okc.App.Resume

/-!
# A task is completed once (`project_state.rs:460-530`, `integration_execution.rs:104-842`)

`append_task_status` takes an event for every task of the project, a complete one too. What keeps a
completed task as it is are its callers: each stage registers first and asks for the last status.

* `Eventless`: the rows of the reviews, the runs and the configuration are no events of tasks.
* `once_execute`, `once_preflight`: the rows that a call of the pipeline adds, failures included.
* **`completed_once`**: in every history of services nothing follows the event that completes a
  task, and its recorded answer is the one that is read from then on.
-/

namespace Okc.App

open Okc.Lib Okc.Core

/-! ## Rows that are no events -/

/-- The row is no event of a task. -/
def Eventless (_ : Journal) (row : Row) : Prop := ∀ e, row ≠ .event e

theorem configures_eventless : Configures Eventless where
  run _ _ _ _ h := by cases h
  sourceSet _ _ _ h := by cases h
  projectEvent _ _ _ h := by cases h

section

variable {X : Externals} {faults : Faults} {α : Type}

/-- The operation adds no events. -/
abbrev Quiet (op : Op α) : Prop := Adds Eventless (fun _ => True) op fun _ _ => True

theorem quiet_query {f : Project → Except AppError α} : Quiet (query faults f) :=
  adds_query fun _ _ _ _ => trivial

theorem quiet_lift {x : Except AppError α} : Quiet (Act.lift x : Op α) :=
  Advances.lift fun _ _ _ _ => trivial

theorem quiet_openProject : Quiet (openProject faults) := quiet_query

theorem quiet_seal : Quiet (sealLatestIntegrationPlan X faults) :=
  adds_sealLatestIntegrationPlan fun _ _ _ _ _ _ _ h => by cases h

theorem quiet_appendApproval {runId kind target targetHash : String} {object : Object} :
    Quiet (appendApproval faults runId kind target targetHash object) :=
  adds_appendApproval fun _ _ _ h => by cases h

theorem quiet_approveTaxonomy {editedClusters : Option (List TaxonomyCluster)}
    {rationale : Option String} : Quiet (approveTaxonomy X faults editedClusters rationale) := by
  refine Advances.bind quiet_openProject fun manifest => ?_
  refine Advances.bind adds_attemptIo fun _ => ?_
  refine Advances.bind quiet_query fun run => ?_
  refine Advances.bind quiet_query fun proposed => ?_
  refine Advances.bind quiet_lift fun approved => ?_
  exact Advances.bind quiet_appendApproval fun _ => Advances.pure fun _ h => h

theorem quiet_requestClusterRegeneration {clusterId feedback : String} :
    Quiet (requestClusterRegeneration X faults clusterId feedback) := by
  refine Advances.bind quiet_lift fun _ => ?_
  refine Advances.bind quiet_openProject fun manifest => ?_
  refine Advances.bind adds_attemptIo fun _ => ?_
  refine Advances.bind quiet_query fun run => ?_
  refine Advances.bind quiet_query fun output => ?_
  refine Advances.bind (adds_appendClusterRegeneration (Q := fun _ => True)
    (fun _ _ _ _ _ h => by cases h) fun _ _ _ _ _ _ => trivial) fun _ => ?_
  refine Advances.bind quiet_query fun old => ?_
  cases old with
  | none => exact Advances.pure fun _ h => h
  | some old => exact Advances.bind quiet_appendApproval fun _ => Advances.pure fun _ h => h

theorem quiet_approveCluster {clusterId : String} {decision : ClusterReviewDecision} :
    Quiet (approveCluster X faults clusterId decision) := by
  refine Advances.bind quiet_openProject fun manifest => ?_
  refine Advances.bind adds_attemptIo fun _ => ?_
  refine Advances.bind quiet_query fun run => ?_
  refine Advances.bind quiet_query fun output => ?_
  refine Advances.bind quiet_lift fun approved => ?_
  refine Advances.bind (adds_appendClusterRevision (Q := fun _ => True)
    (fun _ _ _ h => by cases h) fun _ _ _ _ => trivial) fun _ => ?_
  refine Advances.bind quiet_appendApproval fun _ => ?_
  exact Advances.bind quiet_seal fun _ => Advances.pure fun _ h => h

theorem quiet_checkpoint {profilesExist : Except AppError Bool}
    {outputVerified : String → Bool} :
    Quiet (checkpoint X faults profilesExist outputVerified) := by
  refine Advances.bind quiet_openProject fun manifest => ?_
  refine Advances.bind quiet_query fun reached => ?_
  cases reached with
  | some reached => exact Advances.pure fun _ h => h
  | none =>
    refine Advances.bind adds_attemptIo fun _ => ?_
    exact Advances.bind quiet_seal fun _ => Advances.pure fun _ h => h

theorem quiet_beginOrResumeRun {inputHash configHash : String} :
    Quiet (beginOrResumeRun X faults inputHash configHash) :=
  (adds_beginOrResumeRun (P := fun _ => True) (fun _ _ _ h => by cases h)
    fun _ _ _ h => h).mono (fun _ h => h) fun _ _ _ => trivial

end

/-! ## The rows of a call -/

section

variable {X : Externals} {faults : Faults} {α : Type}

/-- The call adds no event to a complete task. -/
abbrev KeepsOnce (stage : Stage α) : Prop :=
  Advances (fun s : Session => s.project.journal) (Moves Journal.step Once) (fun _ => True) stage
    fun _ _ => True

theorem once_of_eventless {j : Journal} {row : Row} (h : Eventless j row) : Once j row :=
  fun e he => absurd he (h e)

theorem once_within {op : Op α} (h : Quiet op) : KeepsOnce (within op) := by
  have hmono : ∀ j k, Relation.ReflTransGen (Moves Journal.step Eventless) j k →
      Relation.ReflTransGen (Moves Journal.step Once) j k := fun j k hjk =>
    Reaches.mono hjk fun _ _ => once_of_eventless
  refine ⟨fun s hs => ?_⟩
  have hop := h.run s.project hs
  unfold within
  cases hr : op s.project with
  | mk r t =>
    rw [hr] at hop
    cases r with
    | ok a => exact ⟨hmono _ _ hop.1, trivial⟩
    | error e => exact hmono _ _ hop

/-- A stage inserts its rows only. -/
theorem once_of_resumed {K S : Journal × ProjectManifest → Journal × ProjectManifest → Prop}
    {m n : Stage α} (h : Resumed K S m n) : KeepsOnce m := by
  refine Advances.through (g := Prod.fst) h fun v w hvw => ?_
  obtain ⟨⟨row, hrow, hi⟩, -⟩ := hvw
  exact ⟨row, once_of_works hrow, Journal.step_eq_some.mpr (Journal.insert_of_inserted hi)⟩

theorem once_lift {x : Except AppError α} : KeepsOnce (Act.lift x : Stage α) :=
  Advances.lift fun _ _ _ _ => trivial

theorem once_execute {env : Environment X} {allowRemoteProvider confirmed : Bool} :
    KeepsOnce (execute X faults env allowRemoteProvider confirmed) := by
  rw [execute_eq]
  refine Advances.bind (once_within adds_attemptIo) fun _ => ?_
  refine Advances.bind (once_within quiet_openProject) fun manifest => ?_
  refine Advances.bind (once_within adds_attemptIo) fun _ => ?_
  refine Advances.bind once_lift fun _ => ?_
  refine Advances.bind once_lift fun prepared => ?_
  refine Advances.bind (once_within adds_attemptIo) fun _ => ?_
  refine Advances.bind (once_within quiet_beginOrResumeRun) fun run => ?_
  exact once_of_resumed (@resumed_executeFrom X faults env env run allowRemoteProvider confirmed
    false false prepared manifest ⟨rfl, rfl, rfl⟩)

theorem once_preflight {env : Environment X} : KeepsOnce (preflight X faults env) := by
  refine Advances.bind (once_within adds_attemptIo) fun _ => ?_
  refine Advances.bind (once_within quiet_openProject) fun manifest => ?_
  refine Advances.bind (once_within adds_attemptIo) fun _ => ?_
  refine Advances.bind once_lift fun prepared => ?_
  refine Advances.bind (once_within adds_attemptIo) fun _ => ?_
  refine Advances.bind (once_within quiet_beginOrResumeRun) fun run => ?_
  refine Advances.bind (once_of_resumed resumed_recordPreflight) fun _ => ?_
  refine Advances.bind once_lift fun config => ?_
  refine Advances.bind once_lift fun routes => ?_
  exact Advances.bind once_lift fun bytes => Advances.pure fun _ h => h

theorem once_void {stage : Stage α} (h : KeepsOnce stage) :
    KeepsOnce (do let _ ← stage : Stage Unit) :=
  Advances.bind h fun _ => Advances.pure fun _ h => h

/-- **Every service operation** leaves complete tasks alone. -/
theorem once_operation {op : Operation X} (h : op.Serves .any) :
    KeepsOnce (op.run X faults) := by
  cases op with
  | useStore manifest => exact once_within adds_setMemory
  | change checks request => exact once_within (adds_change configures_eventless request)
  | beginOrResumeRun inputHash configHash =>
    exact once_within (adds_void quiet_beginOrResumeRun)
  | sealLatestIntegrationPlan => exact once_within (adds_void quiet_seal)
  | recordVerifiedOutput path manifest =>
    exact once_within (adds_recordVerifiedOutput fun _ _ _ _ _ h => by cases h)
  | approveTaxonomy editedClusters rationale =>
    exact once_within (adds_void quiet_approveTaxonomy)
  | requestClusterRegeneration clusterId feedback =>
    exact once_within (adds_void quiet_requestClusterRegeneration)
  | approveCluster clusterId decision => exact once_within (adds_void quiet_approveCluster)
  | checkpoint profilesExist outputVerified => exact once_within (adds_void quiet_checkpoint)
  | preflight env => exact once_void once_preflight
  | execute env allowRemoteProvider confirmed => exact once_void once_execute
  | _ => exact h.elim

/-- **A history of services** adds no event to a complete task. -/
theorem grows_once {s t : Session}
    (h : Reaches (Session.step X faults) (fun _ op => op.Serves .any) s t) :
    Journal.Grows Once s.project.journal t.project.journal := by
  induction h with
  | refl => exact Relation.ReflTransGen.refl
  | @tail u _ _ hm ih =>
    obtain ⟨op, hop, hs⟩ := hm
    obtain rfl := Option.some.inj hs
    exact Journal.Grows.trans ih ((once_operation hop).moves (s := u) trivial)

end

/-! ## The events of a task -/

/-- Nothing follows the event that completes a task. -/
def Journal.CompletesLast (j : Journal) : Prop :=
  j.events.Pairwise fun e e' => e.status = .complete → e'.taskId ≠ e.taskId

section

variable {j k : Journal}

theorem Journal.CompletesLast.completed (h : j.CompletesLast) {e : TaskEvent} (he : e ∈ j.events)
    (hc : e.status = .complete) : j.Completed e.taskId := by
  obtain ⟨before, after, hevents⟩ := List.append_of_mem he
  unfold Journal.CompletesLast at h
  rw [hevents, List.pairwise_append, List.pairwise_cons] at h
  obtain ⟨-, ⟨hafter, -⟩, -⟩ := h
  have hnone : latest (fun f => f.taskId = e.taskId) after = none :=
    latest_eq_none.mpr fun f hf => by simpa using hafter f hf hc
  refine ⟨e, ?_, hc⟩
  rw [hevents, List.append_cons, latest_append, hnone, latest_concat]
  simp

/-- **One row.** -/
theorem Journal.CompletesLast.inserted (h : j.CompletesLast) {row : Row} (hrow : Once j row)
    (hi : j.Inserted row k) : k.CompletesLast := by
  cases hi with
  | @event added =>
    refine List.pairwise_append.mpr ⟨h, List.pairwise_singleton _ _, fun e he e' he' hc heq => ?_⟩
    obtain rfl := List.mem_singleton.mp he'
    exact hrow e' rfl (heq ▸ h.completed he hc)
  | _ => exact h

/-- **A complete task stays as it is.** -/
theorem taskState_of_once (h : Journal.Grows Once j k) {taskId : String} {st : TaskState}
    (hst : j.taskState taskId = .ok st) (hc : st.status = .complete) :
    k.taskState taskId = .ok st := by
  refine h.invariant (I := fun k => k.taskState taskId = .ok st) (fun k row l hI hrow hi => ?_) hst
  unfold Journal.taskState at hI ⊢
  split at hI
  · rename_i task event htask hevent
    obtain rfl := Except.ok.inj hI
    obtain ⟨more, hmore⟩ := hi.extends.tasks
    rw [← hmore, List.find?_append, htask, latest_of_once hrow hi hevent hc]
    rfl
  · cases hI

end

/-- **A task is completed once.** Where services only write, nothing follows the event that
completes a task, whatever failed and however often the pipeline was called; and what was recorded
as its answer is what every later session reads. -/
theorem completed_once (X : Externals) (faults : Faults) (manifest : ProjectManifest)
    {s : Session}
    (hs : Reaches (Session.step X faults) (fun _ op => op.Serves .any) (.create manifest) s) :
    s.project.journal.CompletesLast ∧
    ∀ taskId st, s.project.journal.taskState taskId = .ok st → st.status = .complete →
      ∀ t, Reaches (Session.step X faults) (fun _ op => op.Serves .any) s t →
        t.project.journal.taskState taskId = .ok st :=
  ⟨(grows_once hs).invariant (fun _ _ _ hI hrow hi => hI.inserted hrow hi) List.Pairwise.nil,
    fun _ _ hst hc _ ht => taskState_of_once (grows_once ht) hst hc⟩

theorem step_execute {X : Externals} {faults : Faults} {env : Environment X}
    {allow confirmed : Bool} {s t : Session} {result : IntegrationExecution}
    (h : execute X faults env allow confirmed s = (.ok result, t)) :
    s.step X faults (.execute env allow confirmed) = some t := by
  refine congrArg some ?_
  show ((do let _ ← execute X faults env allow confirmed : Stage Unit) s).2 = t
  rw [Act.bind_ok h]
  rfl

/-- The theorem at work: the first call of a project. -/
theorem completed_once_first : ∃ result t,
    execute Pilot.externals noFaults Pilot.environment false false (.create Pilot.manifest) =
      (.ok result, t) ∧ t.project.journal.CompletesLast := by
  obtain ⟨result, t, h⟩ := Pilot.returns
  exact ⟨result, t, h, (completed_once Pilot.externals noFaults Pilot.manifest
    (Relation.ReflTransGen.single
      ⟨.execute Pilot.environment false false, Pilot.environment.admits_any, step_execute h⟩)).1⟩

end Okc.App
