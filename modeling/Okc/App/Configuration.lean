import Okc.App.Store

/-!
# Changing the configuration (`okc-app/src/lib.rs:350-500`, `541-608`, `project_state.rs:320-341`)

`set_language`, `set_ai_route` and the source operations first invalidate the journal's authority in
one transaction, then replace `manifest.json` by a rename, and last the manifest in memory.

* `invalidate_downstream` starts a run only where the latest one has tasks, approvals or plans; a
  run without them has no authority to lose (`authority_of_bare`). `replace_sources_locked` always
  starts one.
* The manifest is staged, renamed into place and then made private: the last of these may fail with
  the new manifest already on disk and the old one still in memory.

Results:
* `commitConfiguration_triple`, `replaceSourcesLocked_triple`: what every outcome of the two
  mutations leaves behind.
* `outcome_of_change`, `configuration_change`: every change, whatever step fails, ends in one of three states, and a
  manifest that has changed has no authority beside it.
-/

namespace Okc.App

open Okc.Lib Okc.Core

/-- The checks of a source selection that look at the file system. -/
structure SourceChecks where
  /-- `WorkspaceBootstrap::validate_source_selection`. -/
  validateSourceSelection : List SourceBinding → Except AppError (List SourceBinding)
  /-- `WorkspaceBootstrap::validate_explicit_source_selection`. -/
  validateExplicitSourceSelection : List SourceBinding → Except AppError (List SourceBinding)
  /-- `paths_overlap(&self.root, &source.path)`. -/
  overlapsProject : SourceBinding → Bool

def SourceChecks.select (checks : SourceChecks) (explicit : Bool) (sources : List SourceBinding) :
    Except AppError (List SourceBinding) :=
  if explicit then checks.validateExplicitSourceSelection sources
  else checks.validateSourceSelection sources

/-! ## Encodings -/

def optionJson : Option String → Json
  | none => .null
  | some s => .str s

def AiRouteConfig.toJson (routes : AiRouteConfig) : Json :=
  .obj [("default", .str routes.default), ("embedding", optionJson routes.embedding),
    ("organizer", optionJson routes.organizer), ("synthesis", optionJson routes.synthesis),
    ("critic", optionJson routes.critic)]

def SourceBinding.toJson (source : SourceBinding) : Json :=
  .obj [("source_id", .str source.sourceId.value),
    ("owner_display_name", optionJson source.ownerDisplayName), ("path", .str source.path),
    ("snapshot_id", optionJson source.snapshotId)]

/-- `config_hash` of an invalidation. -/
def configHash (X : Externals) (manifest : ProjectManifest) : String :=
  (rawHash X "okc:integration-config:v3\x00" (toVec (.arr [.str manifest.policyVersion,
    optionJson manifest.language, manifest.aiRoutes.toJson]))).hex

/-- `revision_hash` of a source set. -/
def sourceSetHash (X : Externals) (sources : List SourceBinding) : String :=
  (rawHash X "okc:source-set:v3\x00" (toVec (.arr (sources.map SourceBinding.toJson)))).hex

/-- The run that an invalidation starts. -/
def invalidationRun (X : Externals) (j : Journal) (inputHash configHash : String) :
    RunRecord where
  runId := "run_" ++ (rawHash X "okc:run:v3\x00"
    (utf8 (inputHash ++ ":" ++ configHash ++ ":" ++ Nat.repr j.nextRunSequence))).hex
  inputHash := inputHash
  configHash := configHash
  sequence := j.nextRunSequence

/-! ## The operations -/

/-- `self.manifest`. -/
def memory : Op ProjectManifest := fun s => (.ok s.manifest, s)

def setMemory (manifest : ProjectManifest) : Op Unit := fun s =>
  (.ok (), { s with manifest := manifest })

section

variable (X : Externals) (faults : Faults)

/-- `save_manifest_value`. -/
def saveManifestValue (manifest : ProjectManifest) : Op Unit := do
  attemptIo faults
  commit faults fun s => .ok ((), { s with disk := manifest })
  attemptIo faults

/-- The transaction of `invalidate_downstream`. -/
def invalidated (next : ProjectManifest) (s : Project) : Except AppError Project := do
  let t ← s.insert (.projectEvent "source_invalidation")
  match t.journal.latestRun with
  | none => .ok t
  | some active =>
    if t.journal.hasWork active.runId then
      t.insert (.run (invalidationRun X t.journal active.inputHash (configHash X next)))
    else .ok t

/-- `invalidate_downstream`. -/
def invalidateDownstream (next : ProjectManifest) : Op Unit :=
  commit faults fun s => (invalidated X next s).map fun t => ((), t)

/-- `commit_configuration`. -/
def commitConfiguration (next : ProjectManifest) : Op Unit := do
  Act.lift next.validate
  invalidateDownstream X faults next
  saveManifestValue faults next
  setMemory next

/-- `set_language`. -/
def setLanguage (language : Option String) : Op Unit := do
  acquireWriterLock faults
  Act.lift (forM language.toList validateBcp47)
  let manifest ← memory
  if manifest.language = language then pure ()
  else commitConfiguration X faults { manifest with language := language }

/-- `set_ai_route`. -/
def setAiRoute (role : Option AiRole) (profile : String) : Op Unit := do
  acquireWriterLock faults
  let manifest ← memory
  let routes ← Act.lift (manifest.aiRoutes.set role profile)
  if routes = manifest.aiRoutes then pure ()
  else commitConfiguration X faults { manifest with aiRoutes := routes }

/-- The transaction of `replace_sources_locked`. -/
def sourcesReplaced (next : ProjectManifest) (s : Project) : Except AppError Project := do
  let run := invalidationRun X s.journal (sourceSetHash X next.sources) (configHash X next)
  let t ← s.insert (.run run)
  let u ← t.insert (.sourceSet ⟨sourceSetHash X next.sources, next.sources, run.runId⟩)
  u.insert (.projectEvent "source_invalidation")

/-- `replace_sources_locked`. -/
def replaceSourcesLocked (checks : SourceChecks) (sources : List SourceBinding) : Op Unit := do
  Act.lift (reject (sources.any checks.overlapsProject)
    (.invalidProject "project storage must be outside every immutable source"))
  let manifest ← memory
  if manifest.sources = sources then pure ()
  else do
    let next : ProjectManifest := { manifest with sources := sources }
    Act.lift next.validate
    attemptIo faults
    commit faults fun s => (sourcesReplaced X next s).map fun t => ((), t)
    saveManifestValue faults next
    setMemory next

/-- `replace_sources` and `replace_sources_explicit`. -/
def replaceSources (checks : SourceChecks) (explicit : Bool) (sources : List SourceBinding) :
    Op Unit := do
  acquireWriterLock faults
  let sources ← Act.lift (checks.select explicit sources)
  replaceSourcesLocked X faults checks sources

/-- `add_source` and `add_source_explicit`. -/
def addSource (checks : SourceChecks) (explicit : Bool) (binding : SourceBinding) : Op Unit := do
  let manifest ← memory
  Act.lift (reject (10 ≤ manifest.sources.length)
    (.invalidProject "a project supports at most 10 sources"))
  Act.lift (reject (manifest.sources.any (·.sourceId = binding.sourceId))
    (.invalidProject ("duplicate source ID `" ++ binding.sourceId.value ++ "`")))
  replaceSources X faults checks explicit (manifest.sources ++ [binding])

/-- The source set with one source bound to another place. -/
def rebound (sourceId : SourceId) (path : String) (snapshotId : Option String) :
    List SourceBinding → List SourceBinding
  | [] => []
  | source :: rest =>
    if source.sourceId = sourceId then
      { source with path := path, snapshotId := snapshotId } :: rest
    else source :: rebound sourceId path snapshotId rest

/-- `rebind_source` and `rebind_source_explicit`. -/
def rebindSource (checks : SourceChecks) (explicit : Bool) (sourceId : SourceId) (path : String)
    (snapshotId : Option String) : Op Unit := do
  let manifest ← memory
  match manifest.sources.find? (·.sourceId = sourceId) with
  | none => Act.fail (.invalidProject ("unknown source `" ++ sourceId.value ++ "`"))
  | some source =>
    if source.path = path ∧ source.snapshotId = snapshotId then pure ()
    else do
      replaceSources X faults checks explicit (rebound sourceId path snapshotId manifest.sources)

end

/-! ## Authority -/

namespace Journal

/-- What the journal answers to those who ask for a plan or an output. -/
def authority (X : Externals) (j : Journal) :
    Except AppError (Option ApprovedIntegrationPlan) ×
      Except AppError (Option (String × ApprovedIntegrationPlan)) ×
      Except AppError (Option String) :=
  (j.latestApprovedIntegrationPlan X, j.sealedPlan X, j.latestVerifiedOutput X)

/-- No plan is current, none can be sealed and no output is verified. -/
def NoAuthority (X : Externals) (j : Journal) : Prop :=
  j.authority X = (.ok none, .ok none, .ok none)

/-- No approval and no plan belongs to the latest run. -/
def Bare (j : Journal) : Prop :=
  ∀ run, j.latestRun = some run →
    (∀ row ∈ j.approvals, row.runId ≠ run.runId) ∧ ∀ row ∈ j.plans, row.runId ≠ run.runId

theorem latestApproval_of_fresh {α : Type} {decode : Object → Except AppError α} {j : Journal}
    {runId kind target : String} (hk : validateIdentifier "approval kind" kind = .ok ())
    (ht : validateIdentifier "approval target" target = .ok ())
    (h : ∀ row ∈ j.approvals, row.runId ≠ runId) :
    j.latestApproval decode runId kind target = .ok none := by
  have hrow : j.approvalRow runId kind target = none :=
    latest_eq_none.mpr fun row hrow => by simp [h row hrow]
  simp [latestApproval, hk, ht, hrow]

/-- **Without rows of the latest run there is no authority.** -/
theorem authority_of_bare {X : Externals} {j : Journal} (h : j.Bare) : j.NoAuthority X := by
  have hplan : j.latestApprovedIntegrationPlan X = .ok none := by
    have hrow : j.planRow = none := by
      unfold planRow
      cases hr : j.latestRun with
      | none => rfl
      | some run =>
        exact latest_eq_none.mpr fun row hrow => by simp [(h run hr).2 row hrow]
    unfold latestApprovedIntegrationPlan
    rw [hrow]
  have hsealed : j.sealedPlan X = .ok none := by
    unfold sealedPlan
    cases hr : j.latestRun with
    | none => rfl
    | some run =>
      have hnone : j.latestApproval Object.asApprovedTaxonomy run.runId "taxonomy" "taxonomy" =
          .ok none := latestApproval_of_fresh (by decide) (by decide) (h run hr).1
      simp [hnone]
  unfold NoAuthority authority latestVerifiedOutput
  rw [hplan, hsealed]
  rfl

/-- A run that nothing refers to is bare. -/
theorem bare_of_insert_run {j k : Journal} {run : RunRecord} (hj : j.Intact)
    (hs : run.sequence = j.nextRunSequence) (h : Inserted j (.run run) k) : k.Bare := by
  cases h with
  | run hid _ =>
    intro latest hl
    have hlatest : some latest = some run := hl.symm.trans (latestRun_append hs)
    obtain rfl := Option.some.inj hlatest
    exact ⟨fun row hrow he => hid (he ▸ hj.approvals row hrow),
      fun row hrow he => hid (he ▸ hj.plans row hrow)⟩

/-- Rows of no approval, plan or run leave a bare journal bare. -/
theorem Bare.congr {j k : Journal} (h : j.Bare) (hr : k.runs = j.runs)
    (ha : k.approvals = j.approvals) (hp : k.plans = j.plans) : k.Bare := by
  intro run hrun
  rw [latestRun, hr] at hrun
  rw [ha, hp]
  exact h run hrun

theorem bare_of_not_hasWork {j : Journal} {run : RunRecord} (hr : j.latestRun = some run)
    (h : j.hasWork run.runId = false) : j.Bare := by
  intro latest hl
  obtain rfl := Option.some.inj (hr.symm.trans hl)
  simp only [hasWork, Bool.or_eq_false_iff, List.any_eq_false, decide_eq_true_eq] at h
  exact ⟨h.1.2, h.2⟩

end Journal

/-! ## What the transactions do -/

section

variable {X : Externals} {faults : Faults} {checks : SourceChecks}

/-- The journal, the manifest on disk and the manifest in memory. -/
def Holds (j : Journal) (disk manifest : ProjectManifest) (s : Project) : Prop :=
  s.journal = j ∧ s.disk = disk ∧ s.manifest = manifest

/-- The same, where only the lack of approvals and plans is known of the journal. -/
def Invalidated (disk manifest : ProjectManifest) (s : Project) : Prop :=
  s.journal.Bare ∧ s.disk = disk ∧ s.manifest = manifest

theorem invalidated_spec {next : ProjectManifest} {s t : Project}
    (h : invalidated X next s = .ok t) : Invalidated s.disk s.manifest t := by
  unfold invalidated at h
  obtain ⟨u, hu, h⟩ := bind_eq_ok.mp h
  obtain ⟨hju, -, hdu, hmu⟩ := insert_eq_ok.mp hu
  cases hr : u.journal.latestRun with
  | none =>
    rw [hr] at h
    cases h
    exact ⟨fun run hrun => by simp [hr] at hrun, hdu, hmu⟩
  | some active =>
    rw [hr] at h
    dsimp only at h
    by_cases hw : u.journal.hasWork active.runId
    · rw [if_pos hw] at h
      obtain ⟨hjt, -, hdt, hmt⟩ := insert_eq_ok.mp h
      exact ⟨Journal.bare_of_insert_run u.intact rfl (Journal.inserted_of_insert hjt),
        hdt.trans hdu, hmt.trans hmu⟩
    · rw [if_neg hw] at h
      cases h
      exact ⟨Journal.bare_of_not_hasWork hr (Bool.not_eq_true _ ▸ hw), hdu, hmu⟩

theorem sourcesReplaced_spec {next : ProjectManifest} {s t : Project}
    (h : sourcesReplaced X next s = .ok t) : Invalidated s.disk s.manifest t := by
  unfold sourcesReplaced at h
  obtain ⟨u, hu, h⟩ := bind_eq_ok.mp h
  obtain ⟨v, hv, ht⟩ := bind_eq_ok.mp h
  obtain ⟨hju, -, hdu, hmu⟩ := insert_eq_ok.mp hu
  obtain ⟨hjv, -, hdv, hmv⟩ := insert_eq_ok.mp hv
  obtain ⟨hjt, -, hdt, hmt⟩ := insert_eq_ok.mp ht
  have hbare : u.journal.Bare :=
    Journal.bare_of_insert_run s.intact rfl (Journal.inserted_of_insert hju)
  refine ⟨?_, hdt.trans (hdv.trans hdu), hmt.trans (hmv.trans hmu)⟩
  have hvj := Journal.inserted_of_insert hjv
  have htj := Journal.inserted_of_insert hjt
  generalize v.journal = k at hvj htj
  generalize t.journal = l at htj
  cases hvj
  cases htj
  exact hbare.congr rfl rfl rfl

/-! ## Every outcome of a mutation -/

variable {j : Journal} {disk manifest next : ProjectManifest}

/-- Before the transaction nothing has changed; after it, the authority is gone. -/
def NotInstalled (j : Journal) (disk manifest : ProjectManifest) (s : Project) :
    Prop :=
  Holds j disk manifest s ∨ Invalidated disk manifest s

/-- Where the manifest was saved it is on disk, with the authority gone. -/
def MaybeInstalled (j : Journal) (disk manifest next : ProjectManifest)
    (s : Project) : Prop :=
  NotInstalled j disk manifest s ∨ Invalidated next manifest s

theorem saveManifestValue_triple :
    Triple (Invalidated disk manifest) (saveManifestValue faults next)
      (fun _ => Invalidated next manifest)
      (fun _ s => Invalidated disk manifest s ∨ Invalidated next manifest s) := by
  refine Triple.bind (Q := fun _ => Invalidated disk manifest) ?_ fun _ => ?_
  · exact Triple.attemptIo (fun _ h => h) fun _ _ h => .inl h
  refine Triple.bind (Q := fun _ => Invalidated next manifest) ?_ fun _ => ?_
  · refine Triple.commit (fun s _ t hs ht => ?_) fun _ _ h => .inl h
    obtain ⟨-, rfl⟩ := Prod.mk.inj (Except.ok.inj ht)
    exact ⟨⟨hs.1, rfl, hs.2.2⟩, fun _ => .inr ⟨hs.1, rfl, hs.2.2⟩⟩
  · exact Triple.attemptIo (fun _ h => h) fun _ _ h => .inr h

/-- A transaction that ends the authority, then the manifest on disk, then the one in memory. -/
theorem install_triple {f : Project → Except AppError Project}
    (hf : ∀ s t, f s = .ok t → Invalidated s.disk s.manifest t) :
    Triple (Holds j disk manifest)
      (do
        commit faults fun s => (f s).map fun t => ((), t)
        saveManifestValue faults next
        setMemory next)
      (fun _ => Invalidated next next)
      (fun _ => MaybeInstalled j disk manifest next) := by
  refine Triple.bind (Q := fun _ => Invalidated disk manifest) ?_ fun _ => ?_
  · refine Triple.commit (fun s _ t hs ht => ?_) fun _ _ h => .inl (.inl h)
    cases hv : f s.tick with
    | error e => simp [hv, Except.map] at ht
    | ok u =>
      simp only [hv, Except.map, Except.ok.injEq, Prod.mk.injEq, true_and] at ht
      subst ht
      obtain ⟨hn, hd, hm⟩ := hf s.tick u hv
      have hu : Invalidated disk manifest u := ⟨hn, hd.trans hs.2.1, hm.trans hs.2.2⟩
      exact ⟨hu, fun _ => .inl (.inr hu)⟩
  refine Triple.bind (Q := fun _ => Invalidated next manifest) ?_ fun _ => ?_
  · exact saveManifestValue_triple.mono (fun _ h => h) (fun _ _ h => h) fun _ _ h =>
      h.imp .inr id
  · exact ⟨fun s hs => ⟨hs.1, hs.2.1, rfl⟩⟩

theorem commitConfiguration_triple :
    Triple (Holds j disk manifest) (commitConfiguration X faults next)
      (fun _ => Invalidated next next)
      (fun _ => MaybeInstalled j disk manifest next) := by
  refine Triple.bind (Q := fun _ => Holds j disk manifest) ?_ fun _ => ?_
  · exact Triple.lift (fun _ _ _ h => h) fun _ _ _ h => .inl (.inl h)
  · exact install_triple fun s t ht => invalidated_spec ht

/-- Replacing the sources leaves everything as it was, or ends as any other mutation. -/
theorem replaceSourcesLocked_triple {sources : List SourceBinding} :
    Triple (Holds j disk manifest) (replaceSourcesLocked X faults checks sources)
      (fun _ s => (manifest.sources = sources ∧ Holds j disk manifest s) ∨
        Invalidated { manifest with sources := sources } { manifest with sources := sources } s)
      (fun _ => MaybeInstalled j disk manifest { manifest with sources := sources }) := by
  refine Triple.bind (Q := fun _ => Holds j disk manifest) ?_ fun _ => ?_
  · exact Triple.lift (fun _ _ _ h => h) fun _ _ _ h => .inl (.inl h)
  refine Triple.bind (Q := fun m s => m = manifest ∧ Holds j disk manifest s)
    ⟨fun s hs => ⟨hs.2.2, hs⟩⟩ fun m => ?_
  refine Triple.assuming fun hm => ?_
  subst hm
  by_cases hsame : m.sources = sources
  · rw [if_pos hsame]
    exact Triple.pure fun s hs => .inl ⟨hsame, hs⟩
  rw [if_neg hsame]
  refine Triple.bind (Q := fun _ => Holds j disk m) ?_ fun _ => ?_
  · exact Triple.lift (fun _ _ _ h => h) fun _ _ _ h => .inl (.inl h)
  refine Triple.bind (Q := fun _ => Holds j disk m) ?_ fun _ => ?_
  · exact Triple.attemptIo (fun _ h => h) fun _ _ h => .inl (.inl h)
  exact (install_triple fun s t ht => sourcesReplaced_spec ht).mono (fun _ h => h)
    (fun _ _ h => .inr h) fun _ _ h => h

end

/-! ## Every change -/

/-- A configuration or source-set change, as the caller of a handle asks for it. -/
inductive Change
  | setLanguage (language : Option String)
  | setAiRoute (role : Option AiRole) (profile : String)
  | replaceSources (explicit : Bool) (sources : List SourceBinding)
  | addSource (explicit : Bool) (binding : SourceBinding)
  | rebindSource (explicit : Bool) (sourceId : SourceId) (path : String)
      (snapshotId : Option String)

namespace Change

def run (X : Externals) (faults : Faults) (checks : SourceChecks) : Change → Op Unit
  | .setLanguage language => App.setLanguage X faults language
  | .setAiRoute role profile => App.setAiRoute X faults role profile
  | .replaceSources explicit sources => App.replaceSources X faults checks explicit sources
  | .addSource explicit binding => App.addSource X faults checks explicit binding
  | .rebindSource explicit sourceId path snapshotId =>
    App.rebindSource X faults checks explicit sourceId path snapshotId

/-- `next` is the manifest the change asks for, where the handle's is `manifest`. -/
def Asks (checks : SourceChecks) (manifest next : ProjectManifest) : Change → Prop
  | .setLanguage language => next = { manifest with language := language }
  | .setAiRoute role profile =>
    ∃ routes, manifest.aiRoutes.set role profile = .ok routes ∧
      next = { manifest with aiRoutes := routes }
  | .replaceSources explicit sources =>
    ∃ selected, checks.select explicit sources = .ok selected ∧
      next = { manifest with sources := selected }
  | .addSource explicit binding =>
    ∃ selected, checks.select explicit (manifest.sources ++ [binding]) = .ok selected ∧
      next = { manifest with sources := selected }
  | .rebindSource explicit sourceId path snapshotId =>
    next = { manifest with sources := rebound sourceId path snapshotId manifest.sources } ∨
    ∃ selected, checks.select explicit (rebound sourceId path snapshotId manifest.sources) =
        .ok selected ∧ next = { manifest with sources := selected }

end Change

/-- How a change can end: the result `r` and the project `t` it leaves of `s`. -/
inductive Outcome (X : Externals) (asks : ProjectManifest → Prop) (s : Project)
    (r : Except AppError Unit) (t : Project) : Prop
  /-- Nothing changed; a success means that nothing was asked for. -/
  | unchanged (disk : t.disk = s.disk) (manifest : t.manifest = s.manifest)
      (authority : t.journal.authority X = s.journal.authority X)
      (asked : r = .ok () → asks s.manifest)
  /-- The old manifest stays, without authority. -/
  | invalidated (disk : t.disk = s.disk) (manifest : t.manifest = s.manifest)
      (authority : t.journal.NoAuthority X) (error : r ≠ .ok ())
  /-- The new manifest is installed, without authority. -/
  | installed (next : ProjectManifest) (asked : asks next) (disk : t.disk = next)
      (manifest : t.manifest = if r = .ok () then next else s.manifest)
      (authority : t.journal.NoAuthority X)

section

variable {X : Externals} {faults : Faults} {checks : SourceChecks} {s t : Project}
  {r : Except AppError Unit} {asks : ProjectManifest → Prop} {j : Journal}
  {disk manifest next : ProjectManifest}

/-- What a successful change leaves. -/
def Ended (asks : ProjectManifest → Prop) (j : Journal)
    (disk manifest : ProjectManifest) (t : Project) : Prop :=
  (asks manifest ∧ Holds j disk manifest t) ∨ ∃ next, asks next ∧ Invalidated next next t

/-- What a failed change leaves. -/
def Failed (asks : ProjectManifest → Prop) (j : Journal)
    (disk manifest : ProjectManifest) (t : Project) : Prop :=
  NotInstalled j disk manifest t ∨ ∃ next, asks next ∧ Invalidated next manifest t

theorem outcome_of_triple {m : Op Unit}
    (h : Triple (Holds s.journal s.disk s.manifest) m
      (fun _ => Ended asks s.journal s.disk s.manifest)
      (fun _ => Failed asks s.journal s.disk s.manifest))
    (hm : m s = (r, t)) : Outcome X asks s r t := by
  cases r with
  | ok u =>
    rcases h.ok ⟨rfl, rfl, rfl⟩ hm with ⟨ha, hj, hd, hmem⟩ | ⟨next, ha, hn, hd, hmem⟩
    · exact .unchanged hd hmem (by rw [hj]) fun _ => ha
    · exact .installed next ha hd (by rw [hmem, if_pos rfl])
        (Journal.authority_of_bare hn)
  | error e =>
    rcases h.error ⟨rfl, rfl, rfl⟩ hm with (⟨hj, hd, hmem⟩ | ⟨hn, hd, hmem⟩) |
      ⟨next, ha, hn, hd, hmem⟩
    · exact .unchanged hd hmem (by rw [hj]) fun he => by cases he
    · exact .invalidated hd hmem (Journal.authority_of_bare hn) (by simp)
    · exact .installed next ha hd (by rw [hmem, if_neg (by simp)])
        (Journal.authority_of_bare hn)

theorem Failed.of_holds (h : Holds j disk manifest s) : Failed asks j disk manifest s :=
  .inl (.inl h)

theorem lock_triple :
    Triple (Holds j disk manifest) (acquireWriterLock faults) (fun _ => Holds j disk manifest)
      (fun _ => Failed asks j disk manifest) :=
  Triple.attemptIo (fun _ h => h) fun _ _ h => .of_holds h

theorem lift_triple {α : Type} {x : Except AppError α} :
    Triple (Holds j disk manifest) (Act.lift x) (fun a s => x = .ok a ∧ Holds j disk manifest s)
      (fun _ => Failed asks j disk manifest) :=
  Triple.lift (fun _ _ ha h => ⟨ha, h⟩) fun _ _ _ h => .of_holds h

theorem memory_triple {E : AppError → Project → Prop} :
    Triple (Holds j disk manifest) memory (fun m s => m = manifest ∧ Holds j disk manifest s) E :=
  ⟨fun _ hs => ⟨hs.2.2, hs⟩⟩

/-- The end of `set_language` and `set_ai_route`. -/
theorem commit_unless_triple {same : Prop} [Decidable same] (hsame : same → asks manifest)
    (hnext : asks next) :
    Triple (Holds j disk manifest)
      (if same then (pure () : Op Unit) else commitConfiguration X faults next)
      (fun _ => Ended asks j disk manifest) (fun _ => Failed asks j disk manifest) := by
  by_cases h : same
  · rw [if_pos h]
    exact Triple.pure fun s hs => .inl ⟨hsame h, hs⟩
  · rw [if_neg h]
    exact commitConfiguration_triple.mono (fun _ h => h) (fun _ _ h => .inr ⟨next, hnext, h⟩)
      fun _ _ h => h.imp id fun h => ⟨next, hnext, h⟩

theorem setLanguage_triple {language : Option String} :
    Triple (Holds j disk manifest) (setLanguage X faults language)
      (fun _ => Ended ((Change.setLanguage language).Asks checks manifest) j disk manifest)
      (fun _ => Failed ((Change.setLanguage language).Asks checks manifest) j disk manifest) := by
  refine Triple.bind lock_triple fun _ => ?_
  refine Triple.bind lift_triple fun _ => Triple.assuming fun _ => ?_
  refine Triple.bind memory_triple fun m => Triple.assuming fun hm => ?_
  subst hm
  refine commit_unless_triple (fun h => ?_) rfl
  subst h
  rfl

theorem setAiRoute_triple (checks : SourceChecks) {role : Option AiRole} {profile : String} :
    Triple (Holds j disk manifest) (setAiRoute X faults role profile)
      (fun _ => Ended ((Change.setAiRoute role profile).Asks checks manifest) j disk manifest)
      (fun _ => Failed ((Change.setAiRoute role profile).Asks checks manifest) j disk
        manifest) := by
  refine Triple.bind lock_triple fun _ => ?_
  refine Triple.bind memory_triple fun m => Triple.assuming fun hm => ?_
  subst hm
  refine Triple.bind lift_triple fun routes => Triple.assuming fun hroutes => ?_
  refine commit_unless_triple (fun h => ⟨routes, hroutes, ?_⟩) ⟨routes, hroutes, rfl⟩
  subst h
  rfl

theorem replaceSources_triple {explicit : Bool} {sources : List SourceBinding}
    (hasks : ∀ selected, checks.select explicit sources = .ok selected →
      asks { manifest with sources := selected }) :
    Triple (Holds j disk manifest) (replaceSources X faults checks explicit sources)
      (fun _ => Ended asks j disk manifest) (fun _ => Failed asks j disk manifest) := by
  refine Triple.bind lock_triple fun _ => ?_
  refine Triple.bind lift_triple fun selected => Triple.assuming fun hsel => ?_
  have ha := hasks selected hsel
  refine replaceSourcesLocked_triple.mono (fun _ h => h) ?_ ?_
  · rintro _ t (⟨hs, ht⟩ | ht)
    · subst hs
      exact .inl ⟨ha, ht⟩
    · exact .inr ⟨_, ha, ht⟩
  · exact fun _ _ h => h.imp id fun h => ⟨_, ha, h⟩

theorem addSource_triple {explicit : Bool} {binding : SourceBinding} :
    Triple (Holds j disk manifest) (addSource X faults checks explicit binding)
      (fun _ => Ended ((Change.addSource explicit binding).Asks checks manifest) j disk manifest)
      (fun _ => Failed ((Change.addSource explicit binding).Asks checks manifest) j disk
        manifest) := by
  refine Triple.bind memory_triple fun m => Triple.assuming fun hm => ?_
  subst hm
  refine Triple.bind lift_triple fun _ => Triple.assuming fun _ => ?_
  refine Triple.bind lift_triple fun _ => Triple.assuming fun _ => ?_
  exact replaceSources_triple fun selected hsel => ⟨selected, hsel, rfl⟩

/-- Binding a source to where it is changes nothing. -/
theorem rebound_eq {sourceId : SourceId} {source : SourceBinding} : ∀ {sources : List SourceBinding},
    sources.find? (·.sourceId = sourceId) = some source →
    rebound sourceId source.path source.snapshotId sources = sources
  | first :: rest, h => by
    rw [List.find?_cons] at h
    unfold rebound
    by_cases hid : first.sourceId = sourceId
    · simp only [hid, decide_true, Option.some.injEq] at h
      rw [if_pos hid, h]
    · simp only [hid, decide_false] at h
      rw [if_neg hid, rebound_eq h]

theorem rebindSource_triple {explicit : Bool} {sourceId : SourceId} {path : String}
    {snapshotId : Option String} :
    Triple (Holds j disk manifest) (rebindSource X faults checks explicit sourceId path snapshotId)
      (fun _ => Ended ((Change.rebindSource explicit sourceId path snapshotId).Asks checks
        manifest) j disk manifest)
      (fun _ => Failed ((Change.rebindSource explicit sourceId path snapshotId).Asks checks
        manifest) j disk manifest) := by
  refine Triple.bind memory_triple fun m => Triple.assuming fun hm => ?_
  subst hm
  cases hf : m.sources.find? (·.sourceId = sourceId) with
  | none => exact Triple.fail fun s hs => .of_holds hs
  | some source =>
    dsimp only
    by_cases hsame : source.path = path ∧ source.snapshotId = snapshotId
    · rw [if_pos hsame]
      refine Triple.pure fun s hs => .inl ⟨.inl ?_, hs⟩
      rw [← hsame.1, ← hsame.2, rebound_eq hf]
    · rw [if_neg hsame]
      exact replaceSources_triple fun selected hsel => .inr ⟨selected, hsel, rfl⟩

end

/-- Every change ends as a mutation does. -/
theorem change_triple (X : Externals) (faults : Faults) (checks : SourceChecks) (change : Change)
    (j : Journal) (disk manifest : ProjectManifest) :
    Triple (Holds j disk manifest) (change.run X faults checks)
      (fun _ => Ended (change.Asks checks manifest) j disk manifest)
      (fun _ => Failed (change.Asks checks manifest) j disk manifest) := by
  cases change with
  | setLanguage language => exact setLanguage_triple
  | setAiRoute role profile => exact setAiRoute_triple checks
  | replaceSources explicit sources =>
    exact replaceSources_triple fun selected hsel => ⟨selected, hsel, rfl⟩
  | addSource explicit binding => exact addSource_triple
  | rebindSource explicit sourceId path snapshotId => exact rebindSource_triple

theorem outcome_of_change (X : Externals) (faults : Faults) (checks : SourceChecks)
    (change : Change) (s : Project) :
    Outcome X (change.Asks checks s.manifest) s (change.run X faults checks s).1
      (change.run X faults checks s).2 :=
  outcome_of_triple (change_triple X faults checks change s.journal s.disk s.manifest) rfl

/-- **A change that reaches a manifest leaves the latest run bare.** -/
theorem bare_of_change {X : Externals} {faults : Faults} {checks : SourceChecks} {change : Change}
    {s t : Project} (ht : (change.run X faults checks s).2 = t)
    (hne : t.disk ≠ s.disk ∨ t.manifest ≠ s.manifest) : t.journal.Bare := by
  have h := (change_triple X faults checks change s.journal s.disk s.manifest).run s ⟨rfl, rfl, rfl⟩
  have hold : ∀ u : Project, Holds s.journal s.disk s.manifest u →
      ¬ (u.disk ≠ s.disk ∨ u.manifest ≠ s.manifest) := by
    rintro u ⟨-, hd, hm⟩
    simp [hd, hm]
  subst ht
  cases hr : change.run X faults checks s with
  | mk r t =>
    rw [hr] at h hne
    cases r with
    | ok a =>
      rcases h with ⟨-, h⟩ | ⟨next, -, h⟩
      · exact absurd hne (hold t h)
      · exact h.1
    | error e =>
      rcases h with (h | h) | ⟨next, -, h⟩
      · exact absurd hne (hold t h)
      · exact h.1
      · exact h.1

/-- **Every configuration or source-set change**, whatever step of it fails, leaves everything as it
was, or the old manifest without authority, or the new manifest without authority; a manifest that
has changed, on disk or in memory, has no plan beside it. -/
theorem configuration_change (X : Externals) (faults : Faults) (checks : SourceChecks)
    (change : Change) (s : Project) :
    Outcome X (change.Asks checks s.manifest) s (change.run X faults checks s).1
        (change.run X faults checks s).2 ∧
      ((change.run X faults checks s).2.disk ≠ s.disk ∨
        (change.run X faults checks s).2.manifest ≠ s.manifest →
        (change.run X faults checks s).2.journal.NoAuthority X) := by
  have h := outcome_of_change X faults checks change s
  refine ⟨h, fun hne => ?_⟩
  cases h with
  | unchanged hd hm => exact absurd hne (not_or.mpr ⟨not_not.mpr hd, not_not.mpr hm⟩)
  | invalidated _ _ hn => exact hn
  | installed _ _ _ _ hn => exact hn

end Okc.App
