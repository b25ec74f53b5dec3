import Okc.App.Operations

/-!
# When the operations return

Without faults an operation whose checks hold returns, and the journal has its rows. `Leads j k m
op a` says so from the journal `j` and the manifest file `m`: the operation returns `a` and leaves
`k` and `m`.

* `leads_bind`, `leads_lift`, `leads_query`, `leads_insertRow`: the steps.
* One lemma for each operation, with the checks it makes as hypotheses.
* `Visits.step`: such an operation as a step of a history.
-/

namespace Okc.App

open Okc.Lib Okc.Core

/-- No step fails. -/
def noFaults : Faults := fun _ => none

/-- What other processes see of a project. -/
def Project.stored (s : Project) : Journal × ProjectManifest := (s.journal, s.disk)

abbrev Leads {α : Type} (j k : Journal) (m : ProjectManifest) (op : Op α) (a : α) : Prop :=
  Succeeds Project.stored (· = (j, m)) op fun b v => b = a ∧ v = (k, m)

section

variable {α β : Type} {j k l : Journal} {m : ProjectManifest} {X : Externals}

theorem leads_bind {op : Op α} {f : α → Op β} {a : α} {b : β} (h : Leads j k m op a)
    (hf : Leads k l m (f a) b) : Leads j l m (op >>= f) b :=
  Succeeds.bind h fun c => ⟨fun s hs => by
    obtain ⟨rfl, hs⟩ := hs
    exact hf.run s hs⟩

theorem leads_pure {a : α} : Leads j j m (pure a) a := Succeeds.pure fun _ hv => ⟨rfl, hv⟩

theorem leads_lift {x : Except AppError α} {a : α} (h : x = .ok a) : Leads j j m (Act.lift x) a :=
  Succeeds.lift fun _ hv => ⟨a, h, rfl, hv⟩

theorem commit_noFaults {f : Project → Except AppError (α × Project)} {s t : Project} {a : α}
    (h : f s.tick = .ok (a, t)) : commit noFaults f s = (.ok a, t) := by
  unfold commit noFaults
  dsimp only
  rw [h]

theorem leads_commit {f : Project → Except AppError (α × Project)} {a : α}
    (h : ∀ s, s.journal = j → s.disk = m →
      ∃ t, f s = .ok (a, t) ∧ t.journal = k ∧ t.disk = m) : Leads j k m (commit noFaults f) a := by
  refine ⟨fun s hs => ?_⟩
  obtain ⟨hj, hm⟩ := Prod.mk.inj hs
  obtain ⟨t, ht, hk, hd⟩ := h s.tick hj hm
  exact ⟨a, t, commit_noFaults ht, rfl, Prod.ext hk hd⟩

theorem leads_query {f : Project → Except AppError α} {a : α}
    (h : ∀ s, s.journal = j → s.disk = m → f s = .ok a) : Leads j j m (query noFaults f) a :=
  leads_commit fun s hj hm => ⟨s, by rw [h s hj hm]; rfl, hj, hm⟩

theorem leads_attemptIo : Leads j j m (attemptIo noFaults) () := leads_query fun _ _ _ => rfl

theorem exists_insert {s : Project} {row : Row} (hj : s.journal = j) (h : j.Inserted row k) :
    ∃ t, s.insert row = .ok t ∧ t.journal = k ∧ t.disk = s.disk := by
  subst hj
  exact ⟨⟨s.clock, k, h.intact s.intact, s.disk, s.manifest⟩,
    insert_eq_ok.mpr ⟨Journal.insert_of_inserted h, rfl, rfl, rfl⟩, rfl, rfl⟩

theorem leads_insertRow {row : Row} (h : j.Inserted row k) :
    Leads j k m (insertRow noFaults row) () := by
  refine leads_commit fun s hj hm => ?_
  obtain ⟨t, ht, hk, hd⟩ := exists_insert hj h
  exact ⟨t, by rw [ht]; rfl, hk, hd.trans hm⟩

theorem leads_openProject (h : ValidManifest m) : Leads j j m (openProject noFaults) m :=
  leads_query fun s _ hm => by
    rw [hm]
    exact bind_unit_eq_ok.mpr ⟨validate_eq_ok.mpr h, rfl⟩

/-! ## The operations of the store -/

theorem leads_beginOrResumeRun {inputHash configHash : String}
    (hi : validateHexHash "input hash" inputHash = .ok ())
    (hc : validateHexHash "configuration hash" configHash = .ok ())
    (hnew : ∀ run, j.latestRun = some run →
      run.inputHash ≠ inputHash ∨ run.configHash ≠ configHash)
    (hid : ¬ j.HasRun (startedRun X j inputHash configHash).runId)
    (hseq : j.nextRunSequence ∉ j.runs.map RunRecord.sequence) :
    Leads j { j with runs := j.runs ++ [startedRun X j inputHash configHash] } m
      (beginOrResumeRun X noFaults inputHash configHash) (startedRun X j inputHash configHash) := by
  refine leads_bind (leads_lift hi) (leads_bind (leads_lift hc) (leads_bind
    (leads_query (a := j.latestRun) fun s hj _ => by rw [hj]) ?_))
  have hnone : (j.latestRun.filter fun run =>
      run.inputHash = inputHash && run.configHash = configHash) = none := by
    refine Option.filter_eq_none_iff.mpr fun run hrun => ?_
    have := hnew run hrun
    simp only [Bool.and_eq_true, decide_eq_true_eq]
    tauto
  rw [hnone]
  refine leads_commit fun s hj hm => ?_
  obtain ⟨t, ht, hk, hd⟩ := exists_insert hj (.run hid hseq)
  refine ⟨t, ?_, hk, hd.trans hm⟩
  rw [hj]
  exact bind_eq_ok.mpr ⟨t, ht, rfl⟩

theorem leads_appendTaskStatus {taskId : String} {status : TaskStatus} {response : Option Object}
    {errorKind : Option String} {st : TaskState}
    (hc : ¬ (status = .complete ∧ (response.isNone ∨ errorKind.isSome)))
    (hf : ¬ ((status = .failed ∨ status = .cancelled) ∧ errorKind.isNone))
    (htask : j.HasTask taskId)
    (hst : Journal.taskState { j with events := j.events ++ [⟨taskId, status, response, errorKind⟩] }
      taskId = .ok st) :
    Leads j { j with events := j.events ++ [⟨taskId, status, response, errorKind⟩] } m
      (appendTaskStatus noFaults taskId status response errorKind) st :=
  leads_bind (leads_lift (reject_eq_ok.mpr hc)) <| leads_bind (leads_lift (reject_eq_ok.mpr hf)) <|
    leads_bind leads_attemptIo <| leads_bind (leads_insertRow (.event htask)) <|
      leads_query fun s hj _ => by rw [hj, hst]

theorem leads_appendApproval {row : ApprovalRow}
    (hk : validateIdentifier "approval kind" row.approvalKind = .ok ())
    (ht : validateIdentifier "approval target" row.targetId = .ok ())
    (hh : validateHexHash "approval target hash" row.targetHash = .ok ())
    (hrun : j.HasRun row.runId) :
    Leads j { j with approvals := j.approvals ++ [row] } m
      (appendApproval noFaults row.runId row.approvalKind row.targetId row.targetHash row.object)
      () :=
  leads_bind (leads_lift hk) <| leads_bind (leads_lift ht) <| leads_bind (leads_lift hh) <|
    leads_bind leads_attemptIo (leads_insertRow (.approval hrun))

theorem leads_appendClusterRegeneration {request : ClusterRegenerationRequest} {run : RunRecord}
    (hfeedback : trim request.feedback ≠ "") (hrevision : 2 ≤ request.revision)
    (hrun : j.latestRun = some run)
    (hhash : request.feedbackHash = clusterFeedbackHash X request.clusterId request.revision
      request.feedback request.previousProposalHash request.previousCriticHash) :
    Leads j { j with feedback := j.feedback ++ [⟨run.runId, request.clusterId, request⟩] } m
      (appendClusterRegeneration X noFaults request) () := by
  refine leads_bind (leads_lift (reject_eq_ok.mpr ?_)) (leads_bind
    (leads_query (a := some run) fun s hj _ => by rw [hj, hrun]) ?_)
  · rintro (h | h)
    · exact hfeedback h
    · omega
  · exact leads_bind (leads_lift (reject_eq_ok.mpr (not_not.mpr hhash))) <|
      leads_bind leads_attemptIo (leads_insertRow
        (.feedback (List.mem_map_of_mem (Journal.mem_of_latestRun hrun))))

theorem leads_storeApprovedIntegrationPlan {runId : String} {plan : ApprovedIntegrationPlan}
    (hplan : ValidPlan X plan) (hrun : j.HasRun runId) :
    Leads j { j with plans := j.plans ++
        [⟨runId, plan.integrationPlanId, planObjectHash X plan, plan⟩] } m
      (storeApprovedIntegrationPlan X noFaults runId plan) () :=
  leads_bind (leads_lift (liftCore_eq_ok.mpr (validatePlan_eq_ok.mpr hplan))) <|
    leads_bind leads_attemptIo (leads_insertRow (.plan hrun))

/-- **Sealing** stores the plan and returns it. -/
theorem leads_sealLatestIntegrationPlan {runId : String} {plan : ApprovedIntegrationPlan}
    (hs : j.sealedPlan X = .ok (some (runId, plan))) :
    Leads j { j with plans := j.plans ++
        [⟨runId, plan.integrationPlanId, planObjectHash X plan, plan⟩] } m
      (sealLatestIntegrationPlan X noFaults) (some plan) := by
  obtain ⟨run, approved, revisions, hrun, rfl, -, -, hseal⟩ := sealedPlan_iff.mp hs
  refine leads_bind (leads_query fun s hj _ => by rw [hj, hs]) ?_
  exact leads_bind (leads_storeApprovedIntegrationPlan (sealed_spec hseal).valid
    (List.mem_map_of_mem (Journal.mem_of_latestRun hrun))) leads_pure

theorem leads_registerTask {run : RunRecord} {stage : TaskStage} {key : TaskCacheKey}
    {request : Bytes} {hash : String} {task : TaskDefinition} (hstage : key.stage = stage)
    (hkey : key.hash X = .ok hash) (htask : task = ⟨"task_" ++ (digest X "okc:task:v3\x00"
      [utf8 run.runId, utf8 hash]).hex, run.runId, stage, hash, request⟩)
    (hid : ¬ j.HasTask task.taskId)
    (hnew : (run.runId, hash) ∉ j.tasks.map fun t => (t.runId, t.cacheKey))
    (hrun : j.HasRun run.runId) :
    Leads j { j with tasks := j.tasks ++ [task], events := j.events ++
        [⟨task.taskId, .queued, none, none⟩] } m
      (registerTask X noFaults run stage key request) ⟨task, .queued, none, none⟩ := by
  refine leads_bind (leads_lift (reject_eq_ok.mpr (not_not.mpr hstage))) (leads_bind
    (leads_lift hkey) (leads_bind leads_attemptIo (leads_bind
      (leads_query (a := none) fun s hj _ => ?_) ?_)))
  · have hnone : (j.tasks.find? fun t => t.runId = run.runId && t.cacheKey = hash) = none := by
      refine List.find?_eq_none.mpr fun t ht h => hnew ?_
      rw [Bool.and_eq_true, decide_eq_true_eq, decide_eq_true_eq] at h
      exact List.mem_map.mpr ⟨t, ht, Prod.ext h.1 h.2⟩
    rw [hj, hnone]
  · subst htask
    refine leads_bind (a := ()) (leads_commit fun s hj hm => ?_) (leads_query fun s hj _ => ?_)
    · obtain ⟨t, ht, hk, hd⟩ := exists_insert hj (.task hid hnew hrun)
      obtain ⟨u, hu, hl, hd'⟩ := exists_insert hk (@Journal.Inserted.event _
        ⟨_, .queued, none, none⟩ (List.mem_map_of_mem (List.mem_append_right _ List.mem_cons_self)))
      exact ⟨u, bind_eq_ok.mpr ⟨t, ht, bind_eq_ok.mpr ⟨u, hu, rfl⟩⟩, hl, hd'.trans (hd.trans hm)⟩
    · generalize hid' : "task_" ++ (digest X "okc:task:v3\x00" [utf8 run.runId, utf8 hash]).hex =
        taskId at hid ⊢
      have hnone : j.tasks.find? (fun t => t.taskId = taskId) = none :=
        List.find?_eq_none.mpr fun t ht h => hid (List.mem_map.mpr ⟨t, ht, by simpa using h⟩)
      rw [hj]
      simp [Journal.taskState, List.find?_append, hnone, hid']

/-! ## The operations of the services -/

theorem leads_requireRun {run : RunRecord} (h : j.latestRun = some run) :
    Leads j j m (query noFaults fun s => s.journal.requireRun) run :=
  leads_query fun s hj _ => by rw [hj, requireRun_eq_ok.mpr h]

/-- A first request for a cluster that no approval was recorded for. -/
theorem leads_requestClusterRegeneration {clusterId feedback : String} {run : RunRecord}
    {output : ClusterTaskOutput} (hm : ValidManifest m) (hf : trim feedback ≠ "")
    (hrun : j.latestRun = some run)
    (hout : j.completedCluster clusterId "cluster has no complete revision" = .ok output)
    (hrevision : 1 ≤ output.proposal.revision)
    (hnone : j.latestApproval Object.asApprovedRevision run.runId "cluster" clusterId = .ok none) :
    Leads j { j with feedback := j.feedback ++
        [⟨run.runId, clusterId, regenerationRequest X clusterId feedback output⟩] } m
      (requestClusterRegeneration X noFaults clusterId feedback)
      (regenerationRequest X clusterId feedback output) :=
  leads_bind (leads_lift (reject_eq_ok.mpr hf)) <| leads_bind (leads_openProject hm) <|
    leads_bind leads_attemptIo <| leads_bind (leads_requireRun hrun) <|
      leads_bind (leads_query fun s hj _ => by rw [hj, hout]) <|
        leads_bind (leads_appendClusterRegeneration hf (Nat.succ_le_succ hrevision) hrun rfl) <|
          leads_bind (a := none) (leads_query fun s hj _ => by rw [hj]; exact hnone) leads_pure

end

/-! ## Text -/

theorem hexDigit_lower : ∀ n < 16,
    ((hexDigit n).isDigit || ('a' ≤ hexDigit n && hexDigit n ≤ 'f')) = true := by
  decide

theorem validateHexHash_hex (label : String) (h : ContentHash) :
    validateHexHash label h.hex = .ok () := by
  have hchars : ∀ bytes : Bytes, ∀ c ∈ hexChars bytes,
      (c.isDigit || ('a' ≤ c && c ≤ 'f')) = true := by
    intro bytes
    induction bytes with
    | nil => exact fun c hc => absurd hc List.not_mem_nil
    | cons b bs ih =>
      obtain ⟨hb, lb⟩ := byte_halves_lt b
      intro c hc
      rcases List.mem_cons.mp hc with rfl | hc
      · exact hexDigit_lower _ hb
      · rcases List.mem_cons.mp hc with rfl | hc
        · exact hexDigit_lower _ lb
        · exact ih c hc
  refine reject_eq_ok.mpr (not_or.mpr ⟨not_not.mpr h.len_hex, not_not.mpr ?_⟩)
  rw [List.all_eq_true, ContentHash.hex, hex, String.toList_ofList]
  exact hchars _

/-- A key of hashes and identifiers has a hash. -/
theorem hash_of_identified {X : Externals} {key : TaskCacheKey}
    {prompt schema source options : ContentHash} (hprompt : key.promptHash = prompt.hex)
    (hschema : key.schemaHash = schema.hex) (hsource : key.sourceHash = source.hex)
    (hoptions : key.optionsHash = options.hex)
    (hids : ∀ p ∈ [("provider", key.provider), ("model", key.model), ("adapter", key.adapter)],
      validateIdentifier p.1 p.2 = .ok ()) :
    key.hash X = .ok (digest X "okc:ai-task:v3\x00" [toVec key.toJson]).hex := by
  unfold TaskCacheKey.hash
  rw [hprompt, hschema, hsource, hoptions]
  refine bind_unit_eq_ok.mpr ⟨?_, bind_unit_eq_ok.mpr ⟨forM_eq_ok.mpr hids, rfl⟩⟩
  simp only [forM_eq_ok, List.forall_mem_cons, validateHexHash_hex, true_and]
  exact fun _ h => absurd h List.not_mem_nil

/-! ## Histories -/

section

variable {X : Externals} {P : Session → Operation X → Prop} {j k : Journal} {m : ProjectManifest}

/-- A history without faults leads to a session with this journal. -/
def Visits (X : Externals) (P : Session → Operation X → Prop) (m : ProjectManifest)
    (s : Session) (j : Journal) : Prop :=
  ∃ t, Reaches (Session.step X noFaults) P s t ∧ t.project.stored = (j, m)

theorem visits_create : Visits X P m (.create m) .empty :=
  ⟨_, Relation.ReflTransGen.refl, rfl⟩

/-- The call of an operation of a project. -/
def Operation.Calls {α : Type} (X : Externals) (operation : Operation X) (op : Op α) : Prop :=
  ∀ s, (operation.run X noFaults s).2.project = (op s.project).2

theorem Leads.result {α : Type} {op : Op α} {a : α} (h : Leads j k m op a) {s : Project}
    (hs : s.stored = (j, m)) : (op s).1 = .ok a ∧ (op s).2.stored = (k, m) := by
  obtain ⟨b, t, ht, rfl, hk⟩ := h.run s hs
  rw [ht]
  exact ⟨rfl, hk⟩

theorem Visits.step {α : Type} {s : Session} (h : Visits X P m s j) (operation : Operation X)
    {op : Op α} {a : α} (hl : Leads j k m op a) (hcalls : operation.Calls X op)
    (hP : ∀ s, s.project.journal = j → P s operation) : Visits X P m s k := by
  obtain ⟨t, hr, ht⟩ := h
  refine ⟨(operation.run X noFaults t).2, hr.tail ⟨operation, hP t ?_, rfl⟩, ?_⟩
  · exact congrArg Prod.fst ht
  · have := (Leads.result hl ht).2
    unfold Project.stored at this ⊢
    rw [hcalls t]
    exact this

end

end Okc.App
