import Okc.App.Operations

/-!
# What stands behind a response

The services complete a task only with what a stage made of a draft (`Completion`). In a history of
services every response that a query finds has its completion behind it, whichever operation stored
it, and so has its recordings among those of the run.

* `backed_of_reaches`: the invariant over a history.
* `Backed.completed`: what is behind an output under review.
* `Backed.latestTaxonomy`: what is behind the taxonomy under review.
-/

namespace Okc.App

open Okc.Lib Okc.Core

section

variable {X : Externals} {G : Drafts}

theorem stable_completion {task : TaskDefinition} {response : Object} :
    Stable fun b => Completion X G b task response := by
  intro b c hle h
  cases h with
  | bytes => exact .bytes _
  | value => exact .value _
  | organizer sealed recorded => exact .organizer sealed (stable_recorded b c hle recorded)
  | synthesis approval listed filed recorded admitted =>
    exact .synthesis (stable_approved b c hle approval) listed (stable_filed b c hle filed)
      (stable_recorded b c hle recorded) admitted
  | critic approval listed filed proposed recorded admitted =>
    exact .critic (stable_approved b c hle approval) listed (stable_filed b c hle filed)
      (stable_proposedFor b c hle proposed) (stable_recorded b c hle recorded) admitted

/-- The response of a complete task is what a stage made. -/
structure Backed (X : Externals) (G : Drafts) (b : Ledger) : Prop where
  intact : b.journal.Intact
  completion : ∀ e ∈ b.journal.events, e.status = .complete → ∃ task ∈ b.journal.tasks,
    task.taskId = e.taskId ∧ ∃ response, e.response = some response ∧
      Completion X G b task response

/-- What was there before a write is backed after it. -/
theorem Backed.kept {b c : Ledger} (h : Backed X G b) (hle : b.Le c) {e : TaskEvent}
    (he : e ∈ b.journal.events) (hcomplete : e.status = .complete) :
    ∃ task ∈ c.journal.tasks, task.taskId = e.taskId ∧ ∃ response, e.response = some response ∧
      Completion X G c task response := by
  obtain ⟨task, htask, hid, response, hresponse, hbehind⟩ := h.completion e he hcomplete
  exact ⟨task, hle.journal.tasks.subset htask, hid, response, hresponse,
    stable_completion b c hle hbehind⟩

theorem Backed.moved {b c : Ledger} (h : Backed X G b) (hm : Moved X G b c) : Backed X G c := by
  have hle := hm.le
  cases hm with
  | @insert j k registered row served inserted =>
    refine ⟨inserted.intact h.intact, fun e he hcomplete => ?_⟩
    cases inserted with
    | event =>
      rcases List.mem_append.mp he with he | he
      · exact h.kept hle he hcomplete
      obtain rfl := List.mem_singleton.mp he
      cases served with
      | event status => exact absurd hcomplete status
      | @complete _ task response stored id responds completion =>
        exact ⟨task, stored, id.symm, response, responds, stable_completion _ _ hle completion⟩
    | _ => exact h.kept hle he hcomplete
  | note => exact ⟨h.intact, fun e he hcomplete => h.kept hle he hcomplete⟩

theorem backed_of_moved {b c : Ledger} (h : Backed X G b)
    (hm : Relation.ReflTransGen (Moved X G) b c) : Backed X G c := by
  induction hm with
  | refl => exact h
  | tail _ hstep ih => exact ih.moved hstep

theorem backed_create (manifest : ProjectManifest) :
    Backed X G (Session.create manifest).ledger where
  intact := Journal.empty_intact
  completion _ he := absurd he List.not_mem_nil

/-- **In a history of services every response is backed.** -/
theorem backed_of_reaches {faults : Faults} {manifest : ProjectManifest} {s : Session}
    (h : Reaches (Session.step X faults) (fun _ op => op.Serves G) (.create manifest) s) :
    Backed X G s.ledger :=
  backed_of_moved (backed_create manifest) (moved_of_reaches h)

/-! ## What a query finds -/

variable {b : Ledger}

theorem Backed.responds (h : Backed X G b) {task : TaskDefinition} (ht : task ∈ b.journal.tasks)
    {response : Object} (hr : b.journal.Responds task.taskId response) :
    Completion X G b task response := by
  obtain ⟨e, he, hid, hstatus, hresponse⟩ := hr
  obtain ⟨other, hother, hsame, found, hfound, hbehind⟩ := h.completion e he hstatus
  obtain rfl := h.intact.task_unique hother ht (hsame.trans hid)
  obtain rfl := Option.some.inj (hresponse.symm.trans hfound)
  exact hbehind

/-- The proposal of a cluster's synthesis task. -/
theorem Backed.proposal (h : Backed X G b) {run : RunRecord} {approved : ApprovedTaxonomy}
    {cluster : TaxonomyCluster} {texts : BlockTextMap} {proposal : SynthesisProposal}
    (hp : ProposedFor X b run approved cluster texts proposal) :
    ∃ task ∈ b.journal.tasks, task.runId = run.runId ∧
      Completion X G b task (.proposal proposal) := by
  cases hp with
  | mk name profile regeneration task filed responds =>
    exact ⟨task, filed.stored, filed.runId, h.responds filed.stored responds⟩

theorem Backed.taskState (h : Backed X G b) {runId : String} {stage : TaskStage} {st : TaskState}
    (hst : st ∈ b.journal.tasksForStage runId stage) (hcomplete : st.status = .complete)
    {response : Object} (hr : st.response = some response) :
    st.task ∈ b.journal.tasks ∧ st.task.runId = runId ∧ Completion X G b st.task response := by
  obtain ⟨e, he, hst⟩ := List.mem_filterMap.mp hst
  obtain ⟨task, htask, rfl⟩ := Option.map_eq_some_iff.mp hst
  have hmem := List.mem_of_find?_eq_some htask
  have hp := List.find?_some htask
  simp only [Bool.and_eq_true, decide_eq_true_eq] at hp
  refine ⟨hmem, hp.1.2, h.responds hmem ⟨e, ?_, hp.1.1.symm, hcomplete, hr⟩⟩
  exact (lastRows_sublist _).subset he

theorem Backed.completed (h : Backed X G b) {run : RunRecord} {hash : ContentHash}
    {output : ClusterTaskOutput} (ho : CompletedOutput b.journal run hash output) :
    ∃ task ∈ b.journal.tasks, task.runId = run.runId ∧
      Completion X G b task (.clusterOutput output) := by
  obtain ⟨st, hst, hcomplete, hresponse⟩ := ho.task
  obtain ⟨htask, hrun, hbehind⟩ := h.taskState hst hcomplete hresponse
  exact ⟨st.task, htask, hrun, hbehind⟩

/-- **An output under review has its recordings in the run.** -/
theorem Backed.recorded (h : Backed X G b) {run : RunRecord} {hash : ContentHash}
    {output : ClusterTaskOutput} (ho : CompletedOutput b.journal run hash output) :
    output.proposal.synthesisRecordingHash ∈ b.journal.recordingHashes run.runId ∧
      output.critic.criticRecordingHash ∈ b.journal.recordingHashes run.runId := by
  obtain ⟨task, -, hrun, hbehind⟩ := h.completed ho
  cases hbehind with
  | critic approval listed filed proposed recorded admitted =>
    obtain ⟨other, -, hother, hproposal⟩ := h.proposal proposed
    rw [← filed.runId, hrun] at hother
    refine ⟨?_, hrun ▸ recorded⟩
    cases hproposal with
    | synthesis _ _ _ recorded => exact hother ▸ recorded

theorem Backed.latestTaxonomy (h : Backed X G b) {run : RunRecord}
    (hrun : b.journal.latestRun = some run) {proposed : TaxonomyTaskOutput}
    (hp : b.journal.latestTaxonomy = .ok proposed) :
    ∃ task ∈ b.journal.tasks, task.runId = run.runId ∧
      Completion X G b task (.taxonomyOutput proposed) := by
  unfold Journal.latestTaxonomy at hp
  obtain ⟨run', hrun', hp⟩ := bind_eq_ok.mp hp
  obtain rfl := Option.some.inj (hrun.symm.trans (requireRun_eq_ok.mp hrun'))
  cases hlatest : latest (fun task => task.status = .complete)
      (b.journal.tasksForStage run.runId .organizer) with
  | none =>
    rw [hlatest] at hp
    cases hp
  | some st =>
    rw [hlatest] at hp
    obtain ⟨hcomplete, object, hresponse, hdecode⟩ := completeTaskResponse_eq_ok.mp hp
    rw [asTaxonomyOutput_eq_ok] at hdecode
    subst hdecode
    obtain ⟨htask, hid, hbehind⟩ := h.taskState (mem_of_latest hlatest) hcomplete hresponse
    exact ⟨st.task, htask, hid, hbehind⟩

end

end Okc.App
