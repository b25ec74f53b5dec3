import Okc.App.ClusterTasks
import Okc.Lib.Replay

/-!
# What a stage leaves (`integration_execution.rs:280-842`)

A stage that returned has a complete task under its key, and the response of that task decodes to
what it returned: it was found so, or the stage completed it. No stage adds an event to a task that
is complete.

* `Works`: the rows of a stage. `Logs P stage Q`: the stage inserts such rows only.
* `Journal.Answers`: the task under a key is complete; `listed_of_works`: it stays so.
* `logs_task`: the common part of the stages, with one lemma for each of them below.
* `executeFrom`: what `execute` does once it has a run.
-/

namespace Okc.App

open Okc.Lib Okc.Core

def Session.stored (s : Session) : Journal × ProjectManifest := s.project.stored

namespace Journal

variable (j : Journal)

/-- The last event of the task completes it. -/
def Completed (taskId : String) : Prop :=
  ∃ e, latest (fun e => e.taskId = taskId) j.events = some e ∧ e.status = .complete

/-- The task is in the state that its last event says. -/
def Shows (st : TaskState) : Prop :=
  ∃ e, latest (fun e => e.taskId = st.task.taskId) j.events = some e ∧ e.status = st.status ∧
    e.response = st.response

/-- The task is the one under the key of the registration. -/
structure Lists (X : Externals) (run : RunRecord) (r : Registration) (task : TaskDefinition) :
    Prop where
  key : r.key.hash X = .ok task.cacheKey
  found : j.tasks.find? (fun t => t.runId = run.runId && t.cacheKey = task.cacheKey) = some task
  request : task.request = r.request

/-- The task under the key is complete with the response. -/
def Answers (X : Externals) (run : RunRecord) (r : Registration) (response : Option Object) :
    Prop :=
  ∃ task e, j.Lists X run r task ∧
    latest (fun e => e.taskId = task.taskId) j.events = some e ∧ e.status = .complete ∧
    e.response = response

end Journal

/-! ## Rows -/

/-- No event is added to a complete task. -/
def Once (j : Journal) (row : Row) : Prop := ∀ e, row = .event e → ¬ j.Completed e.taskId

/-- The rows of a stage. -/
def Works (j : Journal) : Row → Prop
  | .task _ | .exchange _ | .plan _ => True
  | .event e => ¬ j.Completed e.taskId
  | _ => False

/-- A row that `A` allows is inserted; the manifest file stays. -/
def Appends (A : Journal → Row → Prop) (b c : Journal × ProjectManifest) : Prop :=
  (∃ row, A b.1 row ∧ b.1.Inserted row c.1) ∧ c.2 = b.2

section

variable {j k : Journal} {row : Row}

theorem once_of_works (h : Works j row) : Once j row := by
  rintro e rfl
  exact h

theorem latest_of_once {taskId : String} {e : TaskEvent} (h : Once j row) (hi : j.Inserted row k)
    (he : latest (fun e => e.taskId = taskId) j.events = some e) (hc : e.status = .complete) :
    latest (fun e => e.taskId = taskId) k.events = some e := by
  cases hi with
  | @event added =>
    have hne : added.taskId ≠ taskId := by
      rintro rfl
      exact h added rfl ⟨e, he, hc⟩
    rw [latest_concat, if_neg (by simpa using hne), he]
  | _ => exact he

theorem Journal.Lists.extends {X : Externals} {run : RunRecord} {r : Registration}
    {task : TaskDefinition} (h : j.Lists X run r task) (he : j.Extends k) :
    k.Lists X run r task where
  key := h.key
  found := by
    obtain ⟨more, hmore⟩ := he.tasks
    rw [← hmore, List.find?_append, h.found]
    rfl
  request := h.request

theorem appends_of_grows {A : Journal → Row → Prop} {m : ProjectManifest}
    (h : Journal.Grows A j k) : Relation.ReflTransGen (Appends A) (j, m) (k, m) := by
  induction h with
  | refl => exact Relation.ReflTransGen.refl
  | tail _ hm ih =>
    obtain ⟨row, hA, hs⟩ := hm
    exact ih.tail ⟨⟨row, hA, Journal.inserted_of_insert (Journal.step_eq_some.mp hs)⟩, rfl⟩

/-- **A completion stays** while stages work. -/
theorem listed_of_works {X : Externals} {run : RunRecord} {r : Registration}
    {task : TaskDefinition} {e : TaskEvent} {b c : Journal × ProjectManifest}
    (h : Relation.ReflTransGen (Appends Works) b c) (hb : b.1.Lists X run r task)
    (he : latest (fun e => e.taskId = task.taskId) b.1.events = some e)
    (hc : e.status = .complete) :
    c.1.Lists X run r task ∧ latest (fun e => e.taskId = task.taskId) c.1.events = some e := by
  induction h with
  | refl => exact ⟨hb, he⟩
  | tail _ hm ih =>
    obtain ⟨⟨row, hrow, hi⟩, -⟩ := hm
    exact ⟨ih.1.extends hi.extends, latest_of_once (once_of_works hrow) hi ih.2 hc⟩

end

/-! ## Steps -/

section

variable {X : Externals} {faults : Faults} {P : Journal × ProjectManifest → Prop}

/-- The operation inserts the rows of a stage. -/
abbrev Puts {α : Type} (P : Journal × ProjectManifest → Prop) (op : Op α)
    (Q : α → Journal × ProjectManifest → Prop) : Prop :=
  Advances Project.stored (Appends Works) P op Q

theorem puts_commit {α : Type} {f : Project → Except AppError (α × Project)}
    {Q : α → Journal × ProjectManifest → Prop} (h : ∀ s a t, P s.stored → f s = .ok (a, t) →
      Journal.Grows Works s.journal t.journal ∧ t.disk = s.disk ∧ Q a t.stored) :
    Puts P (commit faults f) Q := by
  refine ⟨fun s hs => ?_⟩
  have hmoves : ∀ a t, f s.tick = .ok (a, t) →
      Relation.ReflTransGen (Appends Works) s.stored t.stored ∧ Q a t.stored := fun a t ha => by
    obtain ⟨hg, hdisk, hQ⟩ := h s.tick a t hs ha
    refine ⟨?_, hQ⟩
    have := appends_of_grows (m := s.disk) hg
    rwa [show (t.journal, s.disk) = t.stored from Prod.ext rfl hdisk.symm] at this
  cases hc : commit faults f s with
  | mk r t =>
    rcases commit_cases hc with ⟨rfl, e, rfl⟩ | ⟨a, ha, rfl | ⟨e, rfl⟩⟩
    · exact Relation.ReflTransGen.refl
    · exact hmoves a t ha
    · exact (hmoves a t ha).1

theorem puts_query {α : Type} {f : Project → Except AppError α}
    {Q : α → Journal × ProjectManifest → Prop}
    (h : ∀ s a, P s.stored → f s = .ok a → Q a s.stored) : Puts P (query faults f) Q := by
  refine puts_commit fun s a t hs ha => ?_
  cases hv : f s with
  | error e => simp [hv, Except.map] at ha
  | ok b =>
    simp only [hv, Except.map, Except.ok.injEq, Prod.mk.injEq] at ha
    obtain ⟨rfl, rfl⟩ := ha
    exact ⟨Relation.ReflTransGen.refl, rfl, h s b hs hv⟩

theorem puts_attemptIo : Puts P (attemptIo faults) fun _ => P := puts_query fun _ _ hs _ => hs

theorem puts_insertRow {row : Row} {Q : Unit → Journal × ProjectManifest → Prop}
    (hA : ∀ v, P v → Works v.1 row)
    (hQ : ∀ v k, P v → v.1.Inserted row k → Q () (k, v.2)) : Puts P (insertRow faults row) Q := by
  refine puts_commit fun s a t hs ha => ?_
  cases hv : s.insert row with
  | error e => simp [hv, Except.map] at ha
  | ok u =>
    simp only [hv, Except.map, Except.ok.injEq, Prod.mk.injEq, true_and] at ha
    subst ha
    obtain ⟨hi, -, hdisk, -⟩ := insert_eq_ok.mp hv
    have hQ' := hQ _ _ hs (Journal.inserted_of_insert hi)
    rw [show (u.journal, s.stored.2) = u.stored from Prod.ext rfl hdisk.symm] at hQ'
    exact ⟨Journal.Grows.insert Relation.ReflTransGen.refl (hA _ hs) hi, hdisk, hQ'⟩

theorem puts_appendTaskStatus {taskId : String} {status : TaskStatus} {response : Option Object}
    {errorKind : Option String} {Q : Journal × ProjectManifest → Prop}
    (hP : ∀ v, P v → ¬ v.1.Completed taskId)
    (hQ : ∀ v k, P v → v.1.Inserted (.event ⟨taskId, status, response, errorKind⟩) k →
      Q (k, v.2)) :
    Puts P (appendTaskStatus faults taskId status response errorKind) fun _ => Q := by
  refine Advances.bind (Q := fun _ => P) (Advances.lift fun _ _ _ h => h) fun _ => ?_
  refine Advances.bind (Q := fun _ => P) (Advances.lift fun _ _ _ h => h) fun _ => ?_
  refine Advances.bind puts_attemptIo fun _ => ?_
  refine Advances.bind (Q := fun _ => Q) (puts_insertRow hP hQ) fun _ => ?_
  exact puts_query fun _ _ hs _ => hs

theorem puts_recordExchange {runId taskId : String} {recording : Bytes}
    (hP : ∀ v k, P v → v.1.Inserted
      (.exchange ⟨runId, taskId, recording, recordingHash X recording⟩) k → P (k, v.2)) :
    Puts P (recordExchange X faults runId taskId recording) fun _ => P := by
  refine Advances.bind puts_attemptIo fun _ => ?_
  refine Advances.bind (puts_insertRow (Q := fun _ => P) (fun _ _ => by trivial) hP) fun _ => ?_
  exact Advances.pure fun _ h => h

/-! ## Registrations -/

/-- **A new task** has no event but its first, which does not complete it. -/
theorem grows_newTask {s t : Project} {task : TaskDefinition} (h : (do
      let u ← s.insert (.task task)
      let v ← u.insert (.event ⟨task.taskId, .queued, none, none⟩)
      Except.ok ((), v)) = .ok ((), t)) :
    Journal.Grows Works s.journal t.journal ∧ t.disk = s.disk ∧
      t.journal.tasks = s.journal.tasks ++ [task] := by
  obtain ⟨u, hu, h⟩ := bind_eq_ok.mp h
  obtain ⟨v, hv, h⟩ := bind_eq_ok.mp h
  obtain ⟨-, rfl⟩ := Prod.mk.inj (Except.ok.inj h)
  obtain ⟨hju, -, hdu, -⟩ := insert_eq_ok.mp hu
  obtain ⟨hjv, -, hdv, -⟩ := insert_eq_ok.mp hv
  have hiu := Journal.inserted_of_insert hju
  have hiv := Journal.inserted_of_insert hjv
  have hnew : ¬ u.journal.Completed task.taskId ∧
      u.journal.tasks = s.journal.tasks ++ [task] := by
    generalize u.journal = k at hiu
    cases hiu with
    | task hid _ _ =>
      refine ⟨?_, rfl⟩
      rintro ⟨e, he, -⟩
      have hsame : e.taskId = task.taskId := by simpa using prop_of_latest he
      exact hid (hsame ▸ s.intact.events e (mem_of_latest he))
  have hqueued : Works u.journal (.event ⟨task.taskId, .queued, none, none⟩) := hnew.1
  refine ⟨(Journal.Grows.insert Relation.ReflTransGen.refl (by trivial) hju).insert hqueued hjv,
    hdv.trans hdu, ?_⟩
  rw [← hnew.2]
  generalize v.journal = k at hiv
  cases hiv
  rfl

theorem shows_of_taskState {s : Project} {task : TaskDefinition} {st : TaskState}
    (ht : task ∈ s.journal.tasks) (h : s.journal.taskState task.taskId = .ok st) :
    st.task = task ∧ s.journal.Shows st := by
  unfold Journal.taskState at h
  split at h
  · rename_i found event hfound hevent
    obtain rfl := Except.ok.inj h
    have hid : found.taskId = task.taskId := by simpa using List.find?_some hfound
    obtain rfl := s.intact.task_unique (List.mem_of_find?_eq_some hfound) ht hid
    exact ⟨rfl, event, hevent, rfl, rfl⟩
  · cases h

/-- What looking for a task by its key finds. -/
def Journal.Finds (j : Journal) (runId hash : String) : Option TaskState → Prop
  | some st => (j.tasks.find? fun t => t.runId = runId && t.cacheKey = hash) = some st.task ∧
      j.Shows st
  | none => (j.tasks.find? fun t => t.runId = runId && t.cacheKey = hash) = none

theorem puts_registerTask {run : RunRecord} {r : Registration} :
    Puts (fun _ => True) (registerTask X faults run r.key.stage r.key r.request) fun st v =>
      v.1.Lists X run r st.task ∧ v.1.Shows st := by
  refine Advances.bind (Q := fun _ _ => True) (Advances.lift fun _ _ _ _ => trivial) fun _ => ?_
  refine Advances.bind (Q := fun h _ => r.key.hash X = .ok h ∧ True)
    (Advances.lift fun h _ hh _ => ⟨hh, trivial⟩) fun hash => Advances.assuming fun hhash => ?_
  refine Advances.bind (puts_attemptIo (P := fun _ => True)) fun _ => ?_
  refine Advances.bind (Q := fun found v => v.1.Finds run.runId hash found)
    (puts_query fun s found _ hf => ?_) fun found => ?_
  · split at hf
    · rename_i task ht
      cases hs : s.journal.taskState task.taskId with
      | error e => simp [hs, Except.map] at hf
      | ok st =>
        simp only [hs, Except.map, Except.ok.injEq] at hf
        subst hf
        obtain ⟨rfl, hshows⟩ := shows_of_taskState (List.mem_of_find?_eq_some ht) hs
        exact ⟨ht, hshows⟩
    · obtain rfl := Except.ok.inj hf
      assumption
  cases found with
  | some st =>
    refine Advances.bind (Q := fun _ v => st.task.request = r.request ∧
        (v.1.tasks.find? fun t => t.runId = run.runId && t.cacheKey = hash) = some st.task ∧
        v.1.Shows st)
      (Advances.lift fun _ v h hv => ⟨not_not.mp (reject_eq_ok.mp h), hv.1, hv.2⟩) fun _ => ?_
    refine Advances.pure fun v hv => ⟨?_, hv.2.2⟩
    obtain rfl : st.task.cacheKey = hash := by
      have := List.find?_some hv.2.1
      rw [Bool.and_eq_true, decide_eq_true_eq, decide_eq_true_eq] at this
      exact this.2
    exact ⟨hhash, hv.2.1, hv.1⟩
  | none =>
    refine Advances.bind (Q := fun _ v => v.1.Lists X run r (r.task X run hash)) ?_ fun _ => ?_
    · refine puts_commit fun s _ t hnone ha => ?_
      obtain ⟨hgrows, hdisk, htasks⟩ := @grows_newTask s t (r.task X run hash) ha
      refine ⟨hgrows, hdisk, hhash, ?_, rfl⟩
      have hnone' : (s.journal.tasks.find? fun t => t.runId = run.runId && t.cacheKey =
          (r.task X run hash).cacheKey) = none := hnone
      rw [show t.stored.1.tasks = s.journal.tasks ++ [r.task X run hash] from htasks,
        List.find?_append, hnone']
      simp [Registration.task]
    · refine puts_query fun s st hs hst => ?_
      have hmem : r.task X run hash ∈ s.journal.tasks := List.mem_of_find?_eq_some hs.found
      obtain ⟨htask, hshows⟩ := shows_of_taskState hmem hst
      exact ⟨htask ▸ hs, hshows⟩

end

/-! ## Parts of a stage -/

section

variable {X : Externals} {faults : Faults} {P : Journal × ProjectManifest → Prop} {α : Type}

/-- The stage inserts such rows. -/
abbrev Logs {α : Type} (P : Journal × ProjectManifest → Prop) (stage : Stage α)
    (Q : α → Journal × ProjectManifest → Prop) : Prop :=
  Advances Session.stored (Appends Works) P stage Q

theorem logs_within {op : Op α} {Q : α → Journal × ProjectManifest → Prop} (h : Puts P op Q) :
    Logs P (within op) Q := by
  refine ⟨fun s hs => ?_⟩
  have hop := h.run s.project hs
  unfold within
  cases hr : op s.project with
  | mk r t =>
    rw [hr] at hop
    cases r with
    | ok a => exact hop
    | error e => exact hop

/-- The stage works on the task, which is not complete. -/
structure Journal.Open (j : Journal) (X : Externals) (run : RunRecord) (r : Registration)
    (task : TaskDefinition) : Prop where
  lists : j.Lists X run r task
  unfinished : ¬ j.Completed task.taskId

/-- The task under the key is complete, and its response decodes to the value. -/
def Journal.Gives (j : Journal) (X : Externals) (run : RunRecord) (r : Registration)
    (decode : Object → Except AppError α) (a : α) : Prop :=
  ∃ response, decode response = .ok a ∧ j.Answers X run r (some response)

variable {run : RunRecord} {r : Registration}

theorem Journal.Shows.unfinished {j : Journal} {st : TaskState} (h : j.Shows st)
    (hst : st.status ≠ .complete) : ¬ j.Completed st.task.taskId := by
  rintro ⟨e, he, hc⟩
  obtain ⟨e', he', hstatus, -⟩ := h
  obtain rfl := Option.some.inj (he.symm.trans he')
  exact hst (hstatus.symm.trans hc)

theorem logs_register : Logs (fun _ => True) (register X faults run r) fun st v =>
    v.1.Lists X run r st.task ∧ v.1.Shows st := by
  have hnote : Logs (fun _ => True) (note run r) fun _ _ => True :=
    ⟨fun s _ => ⟨Relation.ReflTransGen.refl, trivial⟩⟩
  exact Advances.bind hnote fun _ => logs_within puts_registerTask

theorem logs_status {task : TaskState} {status : TaskStatus} {errorKind : Option String}
    (hs : status ≠ .complete) :
    Logs (fun v => v.1.Open X run r task.task)
      (within (appendTaskStatus faults task.task.taskId status none errorKind))
      fun _ v => v.1.Open X run r task.task := by
  refine logs_within (puts_appendTaskStatus (fun v hv => hv.unfinished) fun v k hv hi => ?_)
  refine ⟨hv.lists.extends hi.extends, ?_⟩
  cases hi
  rintro ⟨e, he, hc⟩
  rw [latest_concat, if_pos (by simp)] at he
  obtain rfl := Option.some.inj he
  exact hs hc

/-- **A completion** is the answer of its task. -/
theorem logs_completeTask {task : TaskState} {response : Object} :
    Logs (fun v => v.1.Open X run r task.task) (completeTask faults task response)
      fun _ v => v.1.Answers X run r (some response) := by
  refine Advances.bind (Q := fun _ v => v.1.Answers X run r (some response))
    (logs_within (puts_appendTaskStatus (fun v hv => hv.unfinished) fun v k hv hi => ?_))
    fun _ => Advances.pure fun _ h => h
  refine ⟨task.task, ⟨task.task.taskId, .complete, some response, none⟩,
    hv.lists.extends hi.extends, ?_, rfl, rfl⟩
  cases hi
  rw [latest_concat, if_pos (by simp)]

theorem logs_askProvider {task : TaskState} {answer : Except ProviderErrorKind α} :
    Logs (fun v => v.1.Open X run r task.task) (askProvider faults task answer)
      fun _ v => v.1.Open X run r task.task := by
  refine Advances.bind (Q := fun _ v => v.1.Open X run r task.task) (logs_status (by simp))
    fun _ => ?_
  cases answer with
  | ok response => exact Advances.pure fun _ h => h
  | error kind =>
    exact Advances.bind (Q := fun _ _ => True)
      (Advances.attempt_moves (logs_status (by simp))) fun _ => Advances.fail

theorem logs_recordExchange {task : TaskDefinition} {runId taskId : String} {recording : Bytes} :
    Logs (fun v => v.1.Open X run r task) (within (recordExchange X faults runId taskId recording))
      fun _ v => v.1.Open X run r task := by
  refine logs_within (puts_recordExchange fun v k hv hi => ?_)
  refine ⟨hv.lists.extends hi.extends, ?_⟩
  cases hi
  exact hv.unfinished

theorem logs_lift {x : Except AppError α} : Logs P (Act.lift x) fun a v => x = .ok a ∧ P v :=
  Advances.lift fun _ _ h hj => ⟨h, hj⟩

theorem logs_generate {env : Environment X} {task : TaskState} {role : AiRole}
    {profileName : String} {findings : SensitiveScan} {disclosed : List DocumentId}
    {allowRemoteProvider confirmed : Bool} {request : StructuredGenerationRequest} :
    Logs (fun v => v.1.Open X run r task.task) (generate X faults env run task role profileName
      findings disclosed allowRemoteProvider confirmed request)
      fun _ v => v.1.Open X run r task.task := by
  refine Advances.bind logs_lift fun client => Advances.assuming fun _ => ?_
  refine Advances.bind logs_lift fun _ => Advances.assuming fun _ => ?_
  refine Advances.bind logs_askProvider fun response => ?_
  exact Advances.bind logs_recordExchange fun _ => Advances.pure fun _ h => h

/-- **What a stage leaves**, where what it does with a task that is not complete leaves it. -/
theorem logs_task {decode : Object → Except AppError α} {rest : TaskState → Stage α}
    (hrest : ∀ task, Logs (fun v => v.1.Open X run r task.task) (rest task)
      fun a v => v.1.Gives X run r decode a) :
    Logs (fun _ => True) (do
      let task ← register X faults run r
      if task.status = .complete then Act.lift (completeTaskResponse decode task)
      else rest task) fun a v => v.1.Gives X run r decode a := by
  refine Advances.bind logs_register fun task => ?_
  by_cases hc : task.status = .complete
  · rw [if_pos hc]
    refine Advances.lift fun a v h hv => ?_
    obtain ⟨-, response, hresponse, hdecode⟩ := completeTaskResponse_eq_ok.mp h
    obtain ⟨hlists, e, he, hstatus, hobject⟩ := hv
    exact ⟨response, hdecode, task.task, e, hlists, he, hstatus.trans hc, hobject.trans hresponse⟩
  · rw [if_neg hc]
    exact (hrest task).mono (fun v hv => ⟨hv.1, hv.2.unfinished hc⟩) fun _ _ h => h

/-- The last steps of a stage. -/
theorem logs_finish {task : TaskState} {decode : Object → Except AppError α} {response : Object}
    {a : α} (hdecode : decode response = .ok a) :
    Logs (fun v => v.1.Open X run r task.task) (do completeTask faults task response; pure a)
      fun b v => v.1.Gives X run r decode b :=
  Advances.bind logs_completeTask fun _ => Advances.pure fun _ hv => ⟨response, hdecode, hv⟩

end

/-! ## The stages -/

section

variable {X : Externals} {faults : Faults} {env : Environment X} {run : RunRecord}
  {findings : SensitiveScan} {allowRemoteProvider confirmed : Bool} {prepared : PreparedCorpus X}
  {name : String} {profile : ProviderProfile} {disclosed : List DocumentId}

theorem logs_recordPreflight {corpus : IntegrationCorpus} :
    Logs (fun _ => True) (recordPreflight X faults run corpus) fun _ v =>
      ∃ response, v.1.Answers X run (preflightRegistration X corpus) response := by
  refine Advances.bind logs_register fun task => ?_
  by_cases hc : task.status = .complete
  · rw [if_neg (not_not.mpr hc)]
    refine Advances.pure fun v hv => ?_
    obtain ⟨hlists, e, he, hstatus, -⟩ := hv
    exact ⟨_, task.task, e, hlists, he, hstatus.trans hc, rfl⟩
  · rw [if_pos hc]
    exact (logs_completeTask.mono (fun v hv => ⟨hv.1, hv.2.unfinished hc⟩)
      fun _ _ h => ⟨_, h⟩)

theorem logs_runEmbeddingTask :
    Logs (fun _ => True) (runEmbeddingTask X faults env run findings allowRemoteProvider confirmed
      prepared name profile disclosed) fun a v => v.1.Gives X run
        (embeddingRegistration X run name profile prepared.corpus prepared.blockTexts)
        Object.asValue a := by
  refine logs_task fun task => ?_
  refine Advances.bind logs_lift fun client => Advances.assuming fun _ => ?_
  refine Advances.bind logs_lift fun _ => Advances.assuming fun _ => ?_
  refine Advances.bind logs_askProvider fun response => ?_
  exact Advances.bind logs_recordExchange fun _ => logs_finish rfl

theorem asItems_items (items : List Value) :
    Object.asItems (.value (.arr items)) = .ok items := by
  unfold Object.asItems Value.arr
  refine congrArg Except.ok (Value.json_injective.list_map ?_)
  rw [List.map_map]
  exact List.attach_map_subtype_val _

theorem logs_runCandidateTask {corpus : IntegrationCorpus} {embeddings : Value} :
    Logs (fun _ => True) (runCandidateTask X faults env run corpus embeddings) fun a v =>
      v.1.Gives X run (candidateRegistration X embeddings) Object.asItems a := by
  refine logs_task fun task => ?_
  refine Advances.bind (logs_status (by simp)) fun _ => ?_
  refine Advances.bind logs_lift fun candidates => Advances.assuming fun _ => ?_
  exact logs_finish (asItems_items _)

theorem logs_runOrganizerTask {candidates : List Value} :
    Logs (fun _ => True) (runOrganizerTask X faults env run findings allowRemoteProvider confirmed
      prepared candidates name profile disclosed) fun a v => v.1.Gives X run
        (organizerRegistration X run name profile prepared.corpus prepared.blockTexts candidates)
        Object.asTaxonomyOutput a := by
  refine logs_task fun task => ?_
  refine Advances.bind logs_generate fun out => ?_
  obtain ⟨response, recordingHash⟩ := out
  refine Advances.bind logs_lift fun clusters => Advances.assuming fun _ => ?_
  refine Advances.bind logs_lift fun taxonomy => Advances.assuming fun _ => ?_
  exact logs_finish rfl

variable {approved : ApprovedTaxonomy} {cluster : TaxonomyCluster} {texts : BlockTextMap}

theorem logs_runSynthesisTask {regeneration : Option ClusterRegenerationRequest} :
    Logs (fun _ => True) (runSynthesisTask X faults env run findings allowRemoteProvider confirmed
      approved cluster texts name profile regeneration) fun a v => v.1.Gives X run
        (synthesisRegistration X run approved cluster name profile texts regeneration)
        Object.asProposal a := by
  refine logs_task fun task => ?_
  refine Advances.bind logs_generate fun out => ?_
  obtain ⟨response, recordingHash⟩ := out
  refine Advances.bind logs_lift fun draft => Advances.assuming fun _ => ?_
  exact logs_finish rfl

theorem logs_runCriticTask {corpus : IntegrationCorpus} {proposal : SynthesisProposal} :
    Logs (fun _ => True) (runCriticTask X faults env run findings allowRemoteProvider confirmed
      approved cluster texts name profile corpus proposal) fun a v => v.1.Gives X run
        (criticRegistration X run approved cluster name profile corpus texts proposal)
        Object.asClusterOutput a := by
  refine logs_task fun task => ?_
  refine Advances.bind logs_generate fun out => ?_
  obtain ⟨response, recordingHash⟩ := out
  refine Advances.bind logs_lift fun draft => Advances.assuming fun _ => ?_
  exact logs_finish rfl

end

/-! ## The call -/

/-- What `execute` does once it has a run. -/
def executeFrom (X : Externals) (faults : Faults) (env : Environment X)
    (allowRemoteProvider confirmed : Bool) (manifest : ProjectManifest)
    (prepared : PreparedCorpus X) (run : RunRecord) : Stage IntegrationExecution := do
  let corpus := prepared.corpus
  let findings := SensitiveScan.scan X corpus
  recordPreflight X faults run corpus
  let config ← Act.lift env.config
  Act.lift (validateRoutes manifest.aiRoutes config)
  let allDocuments := corpus.documents.map IntegrationDocument.documentId
  let embeddingName := manifest.aiRoutes.profileFor .embedding
  let embeddingProfile ← Act.lift (requiredProfile config embeddingName)
  let embeddings ← runEmbeddingTask X faults env run findings allowRemoteProvider confirmed
    prepared embeddingName embeddingProfile allDocuments
  within (attemptIo faults)
  let candidates ← runCandidateTask X faults env run corpus embeddings
  let organizerName := manifest.aiRoutes.profileFor .organizer
  let organizerProfile ← Act.lift (requiredProfile config organizerName)
  let _ ← runOrganizerTask X faults env run findings allowRemoteProvider confirmed prepared
    candidates organizerName organizerProfile allDocuments
  let bytes ← Act.lift (inputBytes prepared.blockTexts "integration byte count overflow")
  let base : IntegrationExecution := {
    runId := run.runId
    documents := corpus.documents.length
    embeddingInputs := (env.similarity.vectors embeddings).length
    inputBytes := bytes
    sensitiveFindings := findings.count
    semanticCandidates := candidates.length
    checkpoint := .needsTaxonomy
    integrationPlanId := none }
  let approval ← within (query faults fun s =>
    s.journal.latestApproval Object.asApprovedTaxonomy run.runId "taxonomy" "taxonomy")
  let current := approval.filter fun record =>
    record.targetHash = record.value.taxonomy.taxonomyHash.hex &&
      record.value.corpus.corpusHash = corpus.corpusHash
  match current with
  | none => pure base
  | some record =>
    runApproved X faults env run findings allowRemoteProvider confirmed manifest.aiRoutes config
      prepared base record.value

theorem execute_eq {X : Externals} {faults : Faults} {env : Environment X}
    {allowRemoteProvider confirmed : Bool} :
    execute X faults env allowRemoteProvider confirmed = (do
    within (attemptIo faults)
    let manifest ← within (openProject faults)
    within (acquireWriterLock faults)
    Act.lift (reject (manifest.sources = [])
      (.invalidProject "the project has no source bindings"))
    let prepared ← Act.lift (env.build manifest.sources)
    within (attemptIo faults)
    let run ← within (beginOrResumeRun X faults prepared.corpus.corpusHash.hex
      (integrationConfigHash X manifest.aiRoutes))
    executeFrom X faults env allowRemoteProvider confirmed manifest prepared run) := rfl

end Okc.App
