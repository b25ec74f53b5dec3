import Okc.Core.Verification
import Okc.Lib.Hoare

/-!
# Publishing an artifact (`integration.rs:1324-1434`, `2027-2055`)

`compileWithHook` stages the artifact next to its destination and renames it into place. Every I/O
step and every hook call may fail, other programs may create, replace or remove the destination
until it is published, and they may use the old staging name afterwards. The staging directory
itself is the program's own until it is published.

One step of the model stands for one call of the code that can fail as a whole: a file written, a
directory synchronized, a tree walked. A failed step may leave anything at the staging name. The
rename is atomic: it moves the stage to a free destination, or it fails and moves nothing.

* `Triple.step`: a step keeps what no interference breaks.
* `stagedResult_triple`: staging ends with the verified tree published, or with nothing published.
* `compile_atomic`: what every outcome of a compilation leaves behind.
-/

namespace Okc.Core

open Okc.Lib

/-! ## The world -/

/-- What can stand at a name of the parent directory. -/
inductive Content
  | directory (tree : Tree)
  | other (bytes : Bytes)

inductive PublicationCheckpoint
  | stageCreated
  | materialized
  | treeSynchronized
  | verified
  | beforePublish
  | published
  | parentSynchronized
  | beforeCleanup
deriving DecidableEq

/-- The paths of a compilation. -/
structure Site where
  destination : String
  parent : String
  stage : String
  /-- `destination.file_name().is_some()`. -/
  hasLeaf : Bool

/-- What happens around one step. -/
structure Interference where
  /-- The step fails. -/
  fault : Option FsError
  /-- Someone else changes what stands at the destination. -/
  destination : Option (Option Content)
  /-- What a failed step leaves at the staging name. -/
  residue : Option Content
  /-- Someone else changes what stands at the old staging name. -/
  reuse : Option (Option Content)

/-- The parent directory, with the steps done and the checkpoints passed. The last four fields are
bookkeeping that no step reads for its result: whether the rename has happened, whether the program
has set out to remove what stands at the staging name, and what others last left at the two
names. -/
structure World where
  clock : Nat
  observed : List PublicationCheckpoint
  destination : Option Content
  stage : Option Content
  published : Bool
  removing : Bool
  destinationLeft : Option Content
  stageLeft : Option Content

namespace World

/-- Others act on the destination until it is published, then on the old staging name. -/
def disturb (i : Interference) (w : World) : World :=
  if w.published then
    { w with stage := i.reuse.getD w.stage, stageLeft := i.reuse.getD w.stageLeft }
  else
    { w with
      destination := i.destination.getD w.destination
      destinationLeft := i.destination.getD w.destinationLeft }

def tick (w : World) : World := { w with clock := w.clock + 1 }

/-- A failed step leaves its residue where a stage was. -/
def spoil (residue : Option Content) (w : World) : World :=
  if w.published ∨ w.stage.isNone then w else { w with stage := residue }

def observe (checkpoint : PublicationCheckpoint) (w : World) : World :=
  { w with observed := w.observed ++ [checkpoint] }

end World

/-! ## Steps -/

/-- One call that can fail. -/
def step {α : Type} (env : Nat → Interference) (m : Act World FsError α) : Act World FsError α :=
  fun w =>
    match (env w.clock).fault with
    | some error => (.error error, (w.disturb (env w.clock)).tick.spoil (env w.clock).residue)
    | none => m (w.disturb (env w.clock)).tick

def hook (env : Nat → Interference) (checkpoint : PublicationCheckpoint) :
    Act World FsError Unit := fun w => step env (pure ()) (w.observe checkpoint)

/-- A call on the tree of the staging directory. -/
def onStage {α : Type} (env : Nat → Interference) (path : String)
    (f : Tree → Except OkcError (α × Tree)) : Act World OkcError α := do
  Act.mapError (OkcError.io path) (step env (pure ()))
  fun w =>
    match w.stage with
    | some (.directory t) =>
      match f t with
      | .ok (a, u) => (.ok a, { w with stage := some (.directory u) })
      | .error e => (.error e, w)
    | _ => (.error (.io path .other), w)

/-- `write_new_file` below the staging directory. -/
def writeStaged (X : Externals) (env : Nat → Interference) (site : Site) (path : String)
    (bytes : Bytes) : Act World OkcError Unit := do
  Act.lift (validateRelativePath X path)
  onStage env (site.stage ++ "/" ++ path) fun t =>
    (writeNewFile X t path bytes).map fun u => ((), u)

/-- `inventory` of the staging directory. -/
def inventoryStaged (X : Externals) (env : Nat → Interference) (site : Site)
    (excluded : List String) : Act World OkcError (List ManifestFile) :=
  onStage env site.stage fun t => (inventory X t excluded).map fun files => (files, t)

/-- `fs::symlink_metadata(destination).is_ok()`. -/
def destinationExists (env : Nat → Interference) : Act World OkcError Bool := do
  let metadata ← Act.attempt (step env fun w => (.ok w.destination.isSome, w))
  pure (match metadata with
    | .ok present => present
    | .error _ => false)

/-- `renameat_with(.., RenameFlags::NOREPLACE)`. -/
def renameNoreplace : Act World FsError Unit := fun w =>
  match w.destination, w.stage with
  | some _, _ => (.error .alreadyExists, w)
  | none, none => (.error .other, w)
  | none, some stage =>
    (.ok (), { w with destination := some stage, stage := none, published := true,
                      stageLeft := none })

/-- `publish_directory_noreplace`: two `canonicalize`, the parent's `open`, the rename. The staging
directory was created in the destination's parent. -/
def publishDirectoryNoreplace (env : Nat → Interference) (site : Site) :
    Act World FsError Unit := do
  step env (pure ())
  step env (pure ())
  Act.lift (if site.hasLeaf then .ok () else .error .other)
  step env (pure ())
  step env renameNoreplace

/-- `remove_dir_all` of the staging name. -/
def removeStage : Act World FsError Unit := fun w =>
  match w.stage with
  | some (.directory _) => (.ok (), { w with stage := none })
  | _ => (.error .other, w)

/-- `TempDir::close`. -/
def closeStage (env : Nat → Interference) : Act World FsError Unit := fun w =>
  step env removeStage { w with removing := true }

/-! ## Compilation -/

/-- What stands between the checkpoints `StageCreated` and `Materialized`. -/
def writeEnvelope (X : Externals) (env : Nat → Interference) (site : Site)
    (plan : ApprovedIntegrationPlan) : Act World OkcError Nat := do
  let files ← Act.lift (materializedFiles X plan)
  files.forM fun f => writeStaged X env site f.1 f.2
  writeStaged X env site planPath plan.toValue.canonicalJsonPretty
  let provenance ← Act.lift (provenanceJsonl X plan files)
  writeStaged X env site provenancePath provenance
  let inventoryFiles ← inventoryStaged X env site [manifestPath, checksumsPath]
  writeStaged X env site manifestPath (manifestOf plan inventoryFiles).toValue.canonicalJsonPretty
  let inventoryFiles ← inventoryStaged X env site [checksumsPath]
  writeStaged X env site checksumsPath (utf8 (checksumText inventoryFiles))
  pure (inventoryFiles.length + 1)

/-- The `match` on `publish_directory_noreplace`. -/
def publishStage (env : Nat → Interference) (site : Site) : Act World OkcError Unit := do
  let published ← Act.attempt (publishDirectoryNoreplace env site)
  match published with
  | .ok () => pure ()
  | .error error =>
    if error = .alreadyExists then Act.fail (.outputExists site.destination)
    else do
      let present ← destinationExists env
      if present then Act.fail (.outputExists site.destination)
      else Act.fail (.io site.destination error)

/-- The closure of `compile_with_hook`. -/
def stagedResult (X : Externals) (K : Codec) (env : Nat → Interference) (site : Site)
    (plan : ApprovedIntegrationPlan) : Act World OkcError Nat := do
  Act.mapError (OkcError.io site.stage) (hook env .stageCreated)
  let files ← writeEnvelope X env site plan
  Act.mapError (OkcError.io site.stage) (hook env .materialized)
  Act.mapError (OkcError.io site.stage) (step env (pure ()))
  Act.mapError (OkcError.io site.stage) (hook env .treeSynchronized)
  onStage env site.stage fun t => (verify X K t).map fun _ => ((), t)
  Act.mapError (OkcError.io site.stage) (hook env .verified)
  Act.mapError (OkcError.io site.stage) (hook env .beforePublish)
  publishStage env site
  pure files

/-- The variants of `OkcError` that a compilation ends with: those of its steps, and the two that
`compile_with_hook` alone builds. -/
inductive CompileError
  | okc (error : OkcError)
  | stagingDispositionFailed (path : String) (original : OkcError) (source : FsError)
  | publishedButDurabilityUncertain (path : String) (source : FsError)

structure CompiledArtifact where
  path : String
  integrationPlanId : String
  files : Nat
deriving DecidableEq

/-- What happens to the staging directory after a failure. -/
def disposeStage (env : Nat → Interference) (site : Site) (original : OkcError) :
    Act World CompileError Nat := do
  let cleanup ← Act.attempt do
    hook env .beforeCleanup
    closeStage env
  match cleanup with
  | .ok () => Act.fail (.okc original)
  | .error source => Act.fail (.stagingDispositionFailed site.stage original source)

/-- After the rename: `sync_directory(parent)` between two checkpoints. -/
def settle (env : Nat → Interference) (site : Site) : Act World CompileError Unit :=
  Act.mapError (CompileError.publishedButDurabilityUncertain site.destination) do
    hook env .published
    step env (pure ())
    hook env .parentSynchronized

/-- Creates the parent and the staging directory in it. -/
def createStage (env : Nat → Interference) (site : Site) : Act World OkcError Unit := do
  Act.mapError (OkcError.io site.parent) (step env (pure ()))
  Act.mapError (OkcError.io site.parent)
    (step env fun w => (.ok (), { w with stage := some (.directory Tree.empty) }))

def compileWithHook (X : Externals) (K : Codec) (env : Nat → Interference) (site : Site)
    (plan : ApprovedIntegrationPlan) : Act World CompileError CompiledArtifact := do
  Act.mapError CompileError.okc (Act.lift (validatePlan X plan))
  let present ← Act.mapError CompileError.okc (destinationExists env)
  if present then Act.fail (.okc (.outputExists site.destination))
  else do
    Act.mapError CompileError.okc (createStage env site)
    let staged ← Act.attempt (stagedResult X K env site plan)
    let files ← match staged with
      | .ok files => pure files
      | .error original => disposeStage env site original
    settle env site
    pure ⟨site.destination, plan.integrationPlanId, files⟩

/-! ## What a step keeps -/

namespace World

/-- Nothing is published, and the destination is as others left it. -/
structure Private (w : World) : Prop where
  published : w.published = false
  destination : w.destination = w.destinationLeft

/-- The staging directory holds a tree. -/
structure Staged (t : Tree) (w : World) : Prop extends Private w where
  stage : w.stage = some (.directory t)
  removing : w.removing = false

/-- The destination holds a tree, and nothing but others has touched the old staging name. -/
structure Published (t : Tree) (w : World) : Prop where
  published : w.published = true
  destination : w.destination = some (.directory t)
  stage : w.stage = w.stageLeft
  removing : w.removing = false

/-- Before a compilation: no stage, and others have left the destination as it is. -/
structure Fresh (w : World) : Prop extends Private w where
  stage : w.stage = none
  removing : w.removing = false

end World

/-- A property that neither others nor the bookkeeping of a step can break. -/
structure Steady (env : Nat → Interference) (P : World → Prop) : Prop where
  disturb : ∀ n w, P w → P (w.disturb (env n)).tick
  observe : ∀ c w, P w → P (w.observe c)

theorem World.disturb_private (i : Interference) {w : World} (h : w.published = false) :
    w.disturb i = { w with
      destination := i.destination.getD w.destination
      destinationLeft := i.destination.getD w.destinationLeft } := by
  rw [World.disturb, if_neg (by simp [h])]

theorem World.disturb_published (i : Interference) {w : World} (h : w.published = true) :
    w.disturb i =
      { w with stage := i.reuse.getD w.stage, stageLeft := i.reuse.getD w.stageLeft } := by
  rw [World.disturb, if_pos h]

section Steady

variable (env : Nat → Interference)

theorem steady_private : Steady env World.Private where
  disturb n w h := by
    rw [World.disturb_private _ h.published]
    exact ⟨h.published, congrArg (env n).destination.getD h.destination⟩
  observe _ _ h := ⟨h.published, h.destination⟩

theorem steady_staged (t : Tree) : Steady env (World.Staged t) where
  disturb n w h := by
    have hp := (steady_private env).disturb n w h.toPrivate
    rw [World.disturb_private _ h.published] at hp ⊢
    exact ⟨hp, h.stage, h.removing⟩
  observe _ _ h := ⟨⟨h.published, h.destination⟩, h.stage, h.removing⟩

theorem steady_fresh : Steady env World.Fresh where
  disturb n w h := by
    have hp := (steady_private env).disturb n w h.toPrivate
    rw [World.disturb_private _ h.published] at hp ⊢
    exact ⟨hp, h.stage, h.removing⟩
  observe _ _ h := ⟨⟨h.published, h.destination⟩, h.stage, h.removing⟩

theorem steady_published (t : Tree) : Steady env (World.Published t) where
  disturb n w h := by
    rw [World.disturb_published _ h.published]
    exact ⟨h.published, h.destination, congrArg (env n).reuse.getD h.stage, h.removing⟩
  observe _ _ h := ⟨h.published, h.destination, h.stage, h.removing⟩

end Steady

theorem private_spoil {w : World} (h : w.Private) (residue : Option Content) :
    (w.spoil residue).Private := by
  unfold World.spoil
  split_ifs
  · exact h
  · exact ⟨h.published, h.destination⟩

theorem spoil_eq {w : World} (residue : Option Content) (h : w.published = true ∨ w.stage = none) :
    w.spoil residue = w := by
  unfold World.spoil
  rw [if_pos]
  rcases h with h | h <;> simp [h]

section Steps

variable {env : Nat → Interference} {P : World → Prop}

/-- **A step keeps what no interference breaks.** -/
theorem Triple.step {α : Type} {m : Act World FsError α} {Q : α → World → Prop}
    {E : FsError → World → Prop} (hP : Steady env P) (hm : Triple P m Q E)
    (hE : ∀ n e w, (env n).fault = some e → P w → E e (w.spoil (env n).residue)) :
    Triple P (step env m) Q E := by
  refine ⟨fun w hw => ?_⟩
  have hw' := hP.disturb w.clock w hw
  unfold Okc.Core.step
  cases hf : (env w.clock).fault with
  | some e => exact hE w.clock e _ hf hw'
  | none => exact hm.run _ hw'

theorem Triple.hook {checkpoint : PublicationCheckpoint} {E : FsError → World → Prop}
    (hP : Steady env P)
    (hE : ∀ n e w, (env n).fault = some e → P w → E e (w.spoil (env n).residue)) :
    Triple P (hook env checkpoint) (fun _ => P) E :=
  ⟨fun w hw => (Triple.step hP (Triple.pure fun _ h => h) hE).run _ (hP.observe checkpoint w hw)⟩

variable {t : Tree} {site : Site}

/-- A step before publication that fails leaves nothing published. -/
theorem staged_spoil (n : Nat) (e : FsError) (w : World) (_ : (env n).fault = some e)
    (h : w.Staged t) : (w.spoil (env n).residue).Private := private_spoil h.toPrivate _

/-- A call of the staging phase that only takes its time. -/
theorem stagedStep_triple (path : String) {m : Act World FsError Unit}
    (hm : Triple (World.Staged t) m (fun _ => World.Staged t) fun _ => World.Private) :
    Triple (World.Staged t) (Act.mapError (OkcError.io path) m) (fun _ => World.Staged t)
      fun _ => World.Private := Triple.mapError hm

theorem hookStaged_triple (checkpoint : PublicationCheckpoint) :
    Triple (World.Staged t) (hook env checkpoint) (fun _ => World.Staged t)
      fun _ => World.Private :=
  Triple.hook (steady_staged env t) staged_spoil

theorem pauseStaged_triple :
    Triple (World.Staged t) (step env (pure ())) (fun _ => World.Staged t)
      fun _ => World.Private :=
  Triple.step (steady_staged env t) (Triple.pure fun _ h => h) staged_spoil

theorem liftStaged_triple {α : Type} {x : Except OkcError α} :
    Triple (World.Staged t) (Act.lift x) (fun a w => x = .ok a ∧ w.Staged t)
      fun _ => World.Private :=
  Triple.lift (fun _ _ hx h => ⟨hx, h⟩) fun _ _ _ h => h.toPrivate

theorem onStage_triple {α : Type} (path : String) (f : Tree → Except OkcError (α × Tree)) :
    Triple (World.Staged t) (onStage env path f)
      (fun a w => ∃ u, f t = .ok (a, u) ∧ w.Staged u) fun _ => World.Private := by
  refine Triple.bind (stagedStep_triple path pauseStaged_triple) fun _ => ⟨fun w hw => ?_⟩
  simp only [hw.stage]
  cases hf : f t with
  | ok r => exact ⟨r.2, rfl, ⟨hw.published, hw.destination⟩, rfl, hw.removing⟩
  | error e => exact hw.toPrivate

theorem writeStaged_triple {X : Externals} (path : String) (bytes : Bytes) :
    Triple (World.Staged t) (writeStaged X env site path bytes)
      (fun _ w => ∃ u, writeNewFile X t path bytes = .ok u ∧ w.Staged u)
      fun _ => World.Private := by
  refine Triple.bind (Q := fun _ => World.Staged t) (Triple.lift (fun _ _ _ h => h)
    fun _ _ _ h => h.toPrivate) fun _ => ?_
  refine (onStage_triple _ _).mono (fun _ h => h) (fun _ w ⟨u, hu, hw⟩ => ?_) fun _ _ h => h
  cases hwrite : writeNewFile X t path bytes with
  | error e =>
    rw [hwrite] at hu
    cases hu
  | ok v =>
    rw [hwrite] at hu
    obtain rfl : v = u := congrArg Prod.snd (Except.ok.inj hu)
    exact ⟨v, rfl, hw⟩

theorem inventoryStaged_triple {X : Externals} (excluded : List String) :
    Triple (World.Staged t) (inventoryStaged X env site excluded)
      (fun files w => inventory X t excluded = .ok files ∧ w.Staged t)
      fun _ => World.Private := by
  refine (onStage_triple _ _).mono (fun _ h => h) (fun files w ⟨u, hu, hw⟩ => ?_) fun _ _ h => h
  cases hi : inventory X t excluded with
  | error e =>
    rw [hi] at hu
    cases hu
  | ok files' =>
    rw [hi] at hu
    obtain ⟨rfl, rfl⟩ := Prod.mk.inj (Except.ok.inj hu)
    exact ⟨rfl, hw⟩

theorem verifyStaged_triple {X : Externals} {K : Codec} :
    Triple (World.Staged t) (onStage env site.stage fun t => (verify X K t).map fun _ => ((), t))
      (fun _ w => (∃ m, verify X K t = .ok m) ∧ w.Staged t) fun _ => World.Private := by
  refine (onStage_triple _ _).mono (fun _ h => h) (fun _ w ⟨u, hu, hw⟩ => ?_) fun _ _ h => h
  cases hv : verify X K t with
  | error e =>
    rw [hv] at hu
    cases hu
  | ok m =>
    rw [hv] at hu
    obtain rfl : t = u := congrArg Prod.snd (Except.ok.inj hu)
    exact ⟨⟨m, rfl⟩, hw⟩

/-- **The rename publishes the stage or changes nothing.** -/
theorem publish_triple : Triple (World.Staged t) (publishDirectoryNoreplace env site)
    (fun _ => World.Published t) fun _ => World.Private := by
  refine Triple.bind pauseStaged_triple fun _ => Triple.bind pauseStaged_triple fun _ => ?_
  refine Triple.bind (Q := fun _ => World.Staged t) (Triple.lift (fun _ _ _ h => h)
    fun _ _ _ h => h.toPrivate) fun _ => ?_
  refine Triple.bind pauseStaged_triple fun _ => ?_
  refine Triple.step (steady_staged env t) ⟨fun w hw => ?_⟩ staged_spoil
  unfold renameNoreplace
  rw [hw.stage]
  cases hd : w.destination with
  | some c => exact hw.toPrivate
  | none => exact ⟨rfl, rfl, rfl, hw.removing⟩

/-! ## Staging -/

theorem writeFiles_triple {X : Externals} (files : List OutputFile) :
    Triple (World.Staged Tree.empty) (files.forM fun f => writeStaged X env site f.1 f.2)
      (fun _ w => ∃ u, files.foldlM (fun t f => writeNewFile X t f.1 f.2) Tree.empty = .ok u ∧
        w.Staged u) fun _ => World.Private := by
  have hnil : ([] : List OutputFile).foldlM (fun t f => writeNewFile X t f.1 f.2) Tree.empty =
      .ok Tree.empty := List.foldlM_nil
  have hloop := Triple.forM (E := fun _ => World.Private) (I := fun done w => ∃ u,
    done.foldlM (fun t f => writeNewFile X t f.1 f.2) Tree.empty = .ok u ∧ w.Staged u)
    (f := fun f => writeStaged X env site f.1 f.2) files fun done f _ =>
      Triple.exists fun u => Triple.assuming fun hu => by
        refine (writeStaged_triple f.1 f.2).mono (fun _ h => h)
          (fun _ w ⟨v, hv, hw⟩ => ⟨v, ?_, hw⟩) fun _ _ h => h
        rw [List.foldlM_append, hu]
        show (writeNewFile X u f.1 f.2 >>= fun t => pure t) = _
        rw [hv]
        rfl
  exact hloop.mono (fun w hw => ⟨Tree.empty, hnil, hw⟩) (fun _ _ h => h) fun _ _ h => h

/-- **The staged envelope is the one of the undisturbed code.** -/
theorem writeEnvelope_triple {X : Externals} {plan : ApprovedIntegrationPlan} :
    Triple (World.Staged Tree.empty) (writeEnvelope X env site plan)
      (fun n w => ∃ t, stageTree X plan = .ok (t, n) ∧ w.Staged t) fun _ => World.Private := by
  unfold writeEnvelope
  refine Triple.bind liftStaged_triple fun files => Triple.assuming fun hf => ?_
  refine Triple.bind (writeFiles_triple files) fun _ => Triple.exists fun t₁ =>
    Triple.assuming fun h₁ => ?_
  refine Triple.bind (writeStaged_triple _ _) fun _ => Triple.exists fun t₂ =>
    Triple.assuming fun h₂ => ?_
  refine Triple.bind liftStaged_triple fun provenance => Triple.assuming fun hprov => ?_
  refine Triple.bind (writeStaged_triple _ _) fun _ => Triple.exists fun t₃ =>
    Triple.assuming fun h₃ => ?_
  refine Triple.bind (inventoryStaged_triple _) fun inventory₃ => Triple.assuming fun hi₃ => ?_
  refine Triple.bind (writeStaged_triple _ _) fun _ => Triple.exists fun t₄ =>
    Triple.assuming fun h₄ => ?_
  refine Triple.bind (inventoryStaged_triple _) fun inventory₄ => Triple.assuming fun hi₄ => ?_
  refine Triple.bind (writeStaged_triple _ _) fun _ => Triple.exists fun t₅ =>
    Triple.assuming fun h₅ => ?_
  refine Triple.pure fun w hw => ⟨t₅, ?_, hw⟩
  simp only [stageTree, bind_eq_ok, Except.ok.injEq]
  exact ⟨files, hf, t₁, h₁, t₂, h₂, provenance, hprov, t₃, h₃, inventory₃, hi₃, t₄, h₄, inventory₄,
    hi₄, t₅, h₅, rfl⟩

/-- Whether the destination exists is asked without touching anything but the stage. -/
theorem destinationExists_triple {P : World → Prop} {E : OkcError → World → Prop}
    (hP : Steady env P) (hspoil : ∀ w residue, P w → P (w.spoil residue)) :
    Triple P (destinationExists env) (fun _ => P) E := by
  have hask : Triple P (step env fun w => (.ok w.destination.isSome, w)) (fun _ => P)
      fun _ => P := Triple.step hP ⟨fun _ h => h⟩ fun _ _ w _ h => hspoil w _ h
  refine Triple.bind (Triple.attempt hask) fun r => Triple.pure fun w hw => ?_
  cases r with
  | ok present => exact hw
  | error e => exact hw

theorem publishStage_triple : Triple (World.Staged t) (publishStage env site)
    (fun _ => World.Published t) fun _ => World.Private := by
  refine Triple.bind (Triple.attempt publish_triple) fun r => ?_
  cases r with
  | ok _ => exact Triple.pure fun _ h => h
  | error e =>
    show Triple World.Private (if e = .alreadyExists then _ else _) _ _
    split_ifs
    · exact Triple.fail fun _ h => h
    · refine Triple.bind (destinationExists_triple (steady_private env)
        fun _ residue h => private_spoil h residue) fun present => ?_
      cases present with
      | true => exact Triple.fail fun _ h => h
      | false => exact Triple.fail fun _ h => h

/-- **Staging ends with the verified tree published, or with nothing published.** -/
theorem stagedResult_triple {X : Externals} {K : Codec} {plan : ApprovedIntegrationPlan} :
    Triple (World.Staged Tree.empty) (stagedResult X K env site plan)
      (fun n w => ∃ t, stageTree X plan = .ok (t, n) ∧ (∃ m, verify X K t = .ok m) ∧
        w.Published t) fun _ => World.Private := by
  unfold stagedResult
  refine Triple.bind (stagedStep_triple _ (hookStaged_triple _)) fun _ => ?_
  refine Triple.bind writeEnvelope_triple fun n => Triple.exists fun t =>
    Triple.assuming fun ht => ?_
  refine Triple.bind (stagedStep_triple _ (hookStaged_triple _)) fun _ => ?_
  refine Triple.bind (stagedStep_triple _ pauseStaged_triple) fun _ => ?_
  refine Triple.bind (stagedStep_triple _ (hookStaged_triple _)) fun _ => ?_
  refine Triple.bind verifyStaged_triple fun _ => Triple.assuming fun hv => ?_
  refine Triple.bind (stagedStep_triple _ (hookStaged_triple _)) fun _ => ?_
  refine Triple.bind (stagedStep_triple _ (hookStaged_triple _)) fun _ => ?_
  exact Triple.bind publishStage_triple fun _ => Triple.pure fun w hw => ⟨t, ht, hv, hw⟩

/-! ## Every outcome -/

theorem createStage_triple : Triple World.Fresh (createStage env site)
    (fun _ => World.Staged Tree.empty) fun _ => World.Fresh := by
  have hspoil : ∀ n e w, (env n).fault = some e → World.Fresh w →
      World.Fresh (w.spoil (env n).residue) := fun n _ w _ h => by
    rwa [spoil_eq _ (Or.inr h.stage)]
  have hparent : Triple World.Fresh (step env (pure ())) (fun _ => World.Fresh)
      fun _ => World.Fresh :=
    Triple.step (steady_fresh env) (Triple.pure fun _ h => h) hspoil
  refine Triple.bind (Triple.mapError hparent) fun _ => Triple.mapError ?_
  refine Triple.step (steady_fresh env) ⟨fun w hw => ?_⟩ hspoil
  exact ⟨⟨hw.published, hw.destination⟩, rfl, hw.removing⟩

theorem closeStage_triple : Triple World.Private (closeStage env)
    (fun _ w => w.Private ∧ w.stage = none) fun _ => World.Private := by
  have hremove : Triple World.Private (step env removeStage)
      (fun _ w => w.Private ∧ w.stage = none) fun _ => World.Private := by
    refine Triple.step (steady_private env) ⟨fun w hw => ?_⟩ fun _ _ _ _ h => private_spoil h _
    unfold removeStage
    split
    · rename_i heq
      split at heq
      · obtain ⟨-, rfl⟩ := Prod.mk.inj heq
        exact ⟨⟨hw.published, hw.destination⟩, rfl⟩
      · cases (Prod.mk.inj heq).1
    · rename_i heq
      split at heq
      · cases (Prod.mk.inj heq).1
      · obtain ⟨-, rfl⟩ := Prod.mk.inj heq
        exact hw
  exact ⟨fun w hw => hremove.run _ ⟨hw.published, hw.destination⟩⟩

/-- A failed compilation removes its stage or names it. -/
theorem disposeStage_triple {original : OkcError} :
    Triple World.Private (disposeStage env site original) (fun _ _ => False)
      fun e w => w.Private ∧ ((e = .okc original ∧ w.stage = none) ∨
        ∃ source, e = .stagingDispositionFailed site.stage original source) := by
  have hhook : Triple World.Private (hook env .beforeCleanup) (fun _ => World.Private)
      fun _ => World.Private :=
    Triple.hook (steady_private env) fun _ _ _ _ h => private_spoil h _
  refine Triple.bind (Triple.attempt (Triple.bind hhook fun _ => closeStage_triple)) fun r => ?_
  cases r with
  | ok _ => exact Triple.fail fun w hw => ⟨hw.1, Or.inl ⟨rfl, hw.2⟩⟩
  | error source => exact Triple.fail fun w hw => ⟨hw, Or.inr ⟨source, rfl⟩⟩

/-- Nothing that fails after the rename takes the artifact away. -/
theorem settle_triple : Triple (World.Published t) (settle env site) (fun _ => World.Published t)
    fun e w => (∃ source, e = .publishedButDurabilityUncertain site.destination source) ∧
      w.Published t := by
  have hspoil : ∀ n e w, (env n).fault = some e → World.Published t w →
      World.Published t (w.spoil (env n).residue) := fun _ _ w _ h => by
    rwa [spoil_eq _ (Or.inl h.published)]
  have hpause : Triple (World.Published t) (step env (pure ())) (fun _ => World.Published t)
      fun _ => World.Published t :=
    Triple.step (steady_published env t) (Triple.pure fun _ h => h) hspoil
  have hsteps := Triple.bind (@Triple.hook _ _ .published _ (steady_published env t) hspoil) fun _ => Triple.bind hpause fun _ =>
      @Triple.hook _ _ .parentSynchronized _ (steady_published env t) hspoil
  exact Triple.mapError (hsteps.mono (fun _ h => h) (fun _ _ h => h)
    fun source w h => ⟨⟨source, rfl⟩, h⟩)

end Steps

/-- The destination holds the verified artifact of a plan. -/
def World.Delivered (X : Externals) (K : Codec) (plan : ApprovedIntegrationPlan) (files : Nat)
    (w : World) : Prop :=
  ∃ t, stageTree X plan = .ok (t, files) ∧ (∃ m, verify X K t = .ok m) ∧ w.Published t

/-- What an error of a compilation leaves behind. -/
def CompileError.Leaves (X : Externals) (K : Codec) (site : Site) (plan : ApprovedIntegrationPlan)
    (w : World) : CompileError → Prop
  | .okc _ => w.Private ∧ w.stage = none
  | .stagingDispositionFailed path _ _ => path = site.stage ∧ w.Private
  | .publishedButDurabilityUncertain path _ =>
    path = site.destination ∧ ∃ files, w.Delivered X K plan files

theorem compile_triple (X : Externals) (K : Codec) (env : Nat → Interference) (site : Site)
    (plan : ApprovedIntegrationPlan) :
    Triple World.Fresh (compileWithHook X K env site plan)
      (fun artifact w => w.Delivered X K plan artifact.files ∧ artifact.path = site.destination)
      fun e w => e.Leaves X K site plan w := by
  have hokc : ∀ (e : OkcError) w, World.Fresh w →
      (CompileError.okc e).Leaves X K site plan w := fun e w h => ⟨h.toPrivate, h.stage⟩
  unfold compileWithHook
  refine Triple.bind (Q := fun _ => World.Fresh) (Triple.mapError (Triple.lift (fun _ _ _ h => h)
    fun e w _ h => hokc e w h)) fun _ => ?_
  refine Triple.bind (Triple.mapError (destinationExists_triple (steady_fresh env)
    fun w residue h => by rwa [spoil_eq residue (Or.inr h.stage)])) fun present => ?_
  cases present with
  | true => exact Triple.fail fun w h => hokc _ w h
  | false =>
    refine Triple.bind (Triple.mapError (createStage_triple.mono (fun _ h => h) (fun _ _ h => h)
      fun e w h => hokc e w h)) fun _ => ?_
    have hsettle : ∀ files, Triple (fun w => w.Delivered X K plan files)
        (settle env site >>= fun _ => pure ⟨site.destination, plan.integrationPlanId, files⟩)
        (fun (artifact : CompiledArtifact) w => w.Delivered X K plan artifact.files ∧
          artifact.path = site.destination) fun e w => e.Leaves X K site plan w := fun files => by
      refine Triple.exists fun t => Triple.assuming fun ht => Triple.assuming fun hv => ?_
      refine Triple.bind (settle_triple.mono (fun _ h => h) (fun _ _ h => h) fun e w h => ?_)
        fun _ => Triple.pure fun w hw => ⟨⟨t, ht, hv, hw⟩, rfl⟩
      obtain ⟨⟨source, rfl⟩, hw⟩ := h
      exact ⟨rfl, files, t, ht, hv, hw⟩
    refine Triple.bind (Triple.attempt stagedResult_triple) fun staged => ?_
    cases staged with
    | ok files => exact hsettle files
    | error original =>
      refine Triple.bind (disposeStage_triple.mono (fun _ h => h) (fun _ _ h => h.elim)
        fun e w h => ?_) hsettle
      rcases h with ⟨hw, ⟨rfl, hstage⟩ | ⟨source, rfl⟩⟩
      · exact ⟨hw, hstage⟩
      · exact ⟨rfl, hw⟩

/-- What a compilation may end with, and what it leaves behind. -/
inductive Outcome (X : Externals) (K : Codec) (site : Site) (plan : ApprovedIntegrationPlan) :
    Except CompileError CompiledArtifact × World → Prop
  | delivered {artifact : CompiledArtifact} {w : World} (path : artifact.path = site.destination)
      (tree : w.Delivered X K plan artifact.files) : Outcome X K site plan (.ok artifact, w)
  | failed {e : CompileError} {w : World} (leaves : e.Leaves X K site plan w) :
      Outcome X K site plan (.error e, w)

/-- **Publication is atomic.** -/
theorem compile_atomic (X : Externals) (K : Codec) (env : Nat → Interference) (site : Site)
    (plan : ApprovedIntegrationPlan) {w : World} (hw : w.Fresh) :
    Outcome X K site plan (compileWithHook X K env site plan w) := by
  have h := (compile_triple X K env site plan).run w hw
  cases hr : compileWithHook X K env site plan w with
  | mk r w' =>
    rw [hr] at h
    cases r with
    | ok artifact => exact .delivered h.2 h.1
    | error e => exact .failed h

/-- A parent directory without the destination, left alone. -/
def World.free : World := ⟨0, [], none, none, false, false, none, none⟩

/-- Nothing fails and nobody interferes. -/
def quiet : Nat → Interference := fun _ => ⟨none, none, none, none⟩

theorem World.fresh_free : World.free.Fresh := ⟨⟨rfl, rfl⟩, rfl, rfl⟩

theorem compile_atomic_bulk :
    Outcome (plainExternals prefixHash)
      (codecOf (plainExternals prefixHash) (bulkPlan (plainExternals prefixHash) 1) [] [])
      ⟨"out", ".", ".okc-stage-x", true⟩ (bulkPlan (plainExternals prefixHash) 1)
      (compileWithHook (plainExternals prefixHash)
        (codecOf (plainExternals prefixHash) (bulkPlan (plainExternals prefixHash) 1) [] []) quiet
        ⟨"out", ".", ".okc-stage-x", true⟩ (bulkPlan (plainExternals prefixHash) 1) World.free) :=
  compile_atomic _ _ _ _ _ World.fresh_free

end Okc.Core
