import Okc.Core.Publication

/-!
# Which plans compile

Left alone, a compilation to a free destination runs the staging code and verifies the result
before it publishes. The staged tree of a valid plan passes every check of the verifier except,
possibly, its size limits: a plan compiles iff it keeps them.

* `compile_quiet_isOk`: an undisturbed run publishes what it stages if that is verified.
* `compile_isOk_iff`: a valid plan compiles iff its plan and manifest keep the limits.
* `bulkPlan_not_compiled`: a valid plan that does not compile.
-/

namespace Okc.Core

open Okc.Lib

/-- No step fails, and nobody touches the destination. -/
structure Undisturbed (env : Nat → Interference) : Prop where
  fault : ∀ n, (env n).fault = none
  destination : ∀ n, (env n).destination = none

/-- The staging directory holds a tree, and the destination is free. -/
structure World.Ready (t : Tree) (w : World) : Prop extends World.Staged t w where
  free : w.destination = none

section Quiet

variable {env : Nat → Interference} {t u : Tree} {site : Site}

theorem steady_ready (henv : Undisturbed env) (t : Tree) : Steady env (World.Ready t) where
  disturb n w h := by
    have hs := (steady_staged env t).disturb n w h.toStaged
    rw [World.disturb_private _ h.published] at hs ⊢
    refine ⟨hs, ?_⟩
    show (env n).destination.getD w.destination = none
    rw [henv.destination n]
    exact h.free
  observe _ _ h := ⟨(steady_staged env t).observe _ _ h.toStaged, h.free⟩

/-- Without faults, a step ends as its call does. -/
theorem Triple.quiet (henv : Undisturbed env) {α : Type} {m : Act World FsError α}
    {P : World → Prop} {Q : α → World → Prop} {E : FsError → World → Prop} (hP : Steady env P)
    (hm : Triple P m Q E) : Triple P (Okc.Core.step env m) Q E :=
  Triple.step hP hm fun n e _ hfault _ => by
    rw [henv.fault n] at hfault
    cases hfault

theorem pause_quiet (henv : Undisturbed env) {P : World → Prop} (hP : Steady env P) :
    Triple P (step env (pure ())) (fun _ => P) fun _ _ => False :=
  Triple.quiet henv hP (Triple.pure fun _ h => h)

theorem hook_quiet (henv : Undisturbed env) {P : World → Prop} (hP : Steady env P)
    (checkpoint : PublicationCheckpoint) :
    Triple P (hook env checkpoint) (fun _ => P) fun _ _ => False :=
  Triple.hook hP fun n e _ hfault _ => by
    rw [henv.fault n] at hfault
    cases hfault

theorem onStage_quiet (henv : Undisturbed env) {α : Type} {path : String}
    {f : Tree → Except OkcError (α × Tree)} {a : α} (hf : f t = .ok (a, u)) :
    Triple (World.Ready t) (onStage env path f) (fun b w => b = a ∧ w.Ready u)
      fun _ _ => False := by
  refine Triple.bind (Triple.mapError (pause_quiet henv (steady_ready henv t))) fun _ =>
    ⟨fun w hw => ?_⟩
  simp only [hw.stage, hf]
  exact ⟨trivial, ⟨⟨hw.published, hw.destination⟩, rfl, hw.removing⟩, hw.free⟩

theorem writeStaged_quiet (henv : Undisturbed env) {X : Externals} {path : String} {bytes : Bytes}
    (h : writeNewFile X t path bytes = .ok u) :
    Triple (World.Ready t) (writeStaged X env site path bytes) (fun _ => World.Ready u)
      fun _ _ => False := by
  have hpath : validateRelativePath X path = .ok () := by
    unfold writeNewFile at h
    rw [bind_unit_eq_ok] at h
    exact h.1
  have hwrite : (writeNewFile X t path bytes).map (fun v => ((), v)) = .ok ((), u) := by
    rw [h]
    rfl
  refine Triple.bind (Q := fun _ => World.Ready t) (Triple.lift (fun _ _ _ h => h)
    fun e _ he _ => by rw [hpath] at he; cases he) fun _ => ?_
  exact (onStage_quiet henv hwrite).mono (fun _ h => h) (fun _ _ h => h.2) fun _ _ h => h

theorem inventoryStaged_quiet (henv : Undisturbed env) {X : Externals} {excluded : List String}
    {files : List ManifestFile} (h : inventory X t excluded = .ok files) :
    Triple (World.Ready t) (inventoryStaged X env site excluded)
      (fun r w => r = files ∧ w.Ready t) fun _ _ => False := by
  have hinventory : (inventory X t excluded).map (fun files => (files, t)) = .ok (files, t) := by
    rw [h]
    rfl
  exact onStage_quiet henv hinventory

theorem writeFiles_quiet (henv : Undisturbed env) {X : Externals} {files : List OutputFile}
    (h : files.foldlM (fun t f => writeNewFile X t f.1 f.2) t = .ok u) :
    Triple (World.Ready t) (files.forM fun f => writeStaged X env site f.1 f.2)
      (fun _ => World.Ready u) fun _ _ => False := by
  induction files generalizing t with
  | nil =>
    obtain rfl : t = u := Except.ok.inj h
    exact Triple.pure fun _ h => h
  | cons f files ih =>
    rw [List.foldlM_cons, bind_eq_ok] at h
    obtain ⟨v, hv, hrest⟩ := h
    show Triple _ (writeStaged X env site f.1 f.2 >>= fun _ => files.forM _) _ _
    exact Triple.bind (writeStaged_quiet henv hv) fun _ => ih hrest

/-- The envelope is written as `stageTree` says. -/
theorem writeEnvelope_quiet (henv : Undisturbed env) {X : Externals}
    {plan : ApprovedIntegrationPlan} {n : Nat} (h : stageTree X plan = .ok (t, n)) :
    Triple (World.Ready Tree.empty) (writeEnvelope X env site plan)
      (fun r w => r = n ∧ w.Ready t) fun _ _ => False := by
  simp only [stageTree, bind_eq_ok, Except.ok.injEq, Prod.mk.injEq] at h
  obtain ⟨files, hf, t₁, h₁, t₂, h₂, provenance, hprov, t₃, h₃, inventory₃, hi₃, t₄, h₄, inventory₄,
    hi₄, t₅, h₅, rfl, rfl⟩ := h
  unfold writeEnvelope
  have hlift : ∀ {α : Type} {x : Except OkcError α} {a : α} {t : Tree}, x = .ok a →
      Triple (World.Ready t) (Act.lift x) (fun b w => b = a ∧ w.Ready t) fun _ _ => False := by
    rintro α _ a t rfl
    exact Triple.lift (fun b _ hb h => ⟨(Except.ok.inj hb).symm, h⟩) fun _ _ he _ => by cases he
  refine Triple.bind (hlift hf) fun _ => Triple.assuming fun heq => ?_
  subst heq
  refine Triple.bind (writeFiles_quiet henv h₁) fun _ => ?_
  refine Triple.bind (writeStaged_quiet henv h₂) fun _ => ?_
  refine Triple.bind (hlift hprov) fun _ => Triple.assuming fun heq => ?_
  subst heq
  refine Triple.bind (writeStaged_quiet henv h₃) fun _ => ?_
  refine Triple.bind (inventoryStaged_quiet henv hi₃) fun _ => Triple.assuming fun heq => ?_
  subst heq
  refine Triple.bind (writeStaged_quiet henv h₄) fun _ => ?_
  refine Triple.bind (inventoryStaged_quiet henv hi₄) fun _ => Triple.assuming fun heq => ?_
  subst heq
  refine Triple.bind (writeStaged_quiet henv h₅) fun _ => ?_
  exact Triple.pure fun _ hw => ⟨rfl, hw⟩

theorem publish_quiet (henv : Undisturbed env) (hleaf : site.hasLeaf = true) :
    Triple (World.Ready t) (publishDirectoryNoreplace env site) (fun _ => World.Published t)
      fun _ _ => False := by
  have hpause := pause_quiet henv (steady_ready henv t)
  refine Triple.bind hpause fun _ => Triple.bind hpause fun _ => ?_
  refine Triple.bind (Q := fun _ => World.Ready t) (Triple.lift (fun _ _ _ h => h)
    fun e _ he _ => by rw [if_pos hleaf] at he; cases he) fun _ => ?_
  refine Triple.bind hpause fun _ => Triple.quiet henv (steady_ready henv t)
    ⟨fun w hw => ?_⟩
  unfold renameNoreplace
  simp only [hw.stage, hw.free]
  exact ⟨rfl, rfl, rfl, hw.removing⟩

theorem stagedResult_quiet (henv : Undisturbed env) (hleaf : site.hasLeaf = true) {X : Externals}
    {K : Codec} {plan : ApprovedIntegrationPlan} {n : Nat} {m : CompiledVaultManifest}
    (h : stageTree X plan = .ok (t, n)) (hv : verify X K t = .ok m) :
    Triple (World.Ready Tree.empty) (stagedResult X K env site plan)
      (fun r w => r = n ∧ w.Published t) fun _ _ => False := by
  have hready := fun t => steady_ready henv t
  have hverify : (verify X K t).map (fun _ => ((), t)) = .ok ((), t) := by
    rw [hv]
    rfl
  unfold stagedResult
  refine Triple.bind (Triple.mapError (hook_quiet henv (hready _) _)) fun _ => ?_
  refine Triple.bind (writeEnvelope_quiet henv h) fun _ => Triple.assuming fun heq => ?_
  subst heq
  refine Triple.bind (Triple.mapError (hook_quiet henv (hready t) _)) fun _ => ?_
  refine Triple.bind (Triple.mapError (pause_quiet henv (hready t))) fun _ => ?_
  refine Triple.bind (Triple.mapError (hook_quiet henv (hready t) _)) fun _ => ?_
  refine Triple.bind (onStage_quiet henv hverify) fun _ => Triple.assuming fun _ => ?_
  refine Triple.bind (Triple.mapError (hook_quiet henv (hready t) _)) fun _ => ?_
  refine Triple.bind (Triple.mapError (hook_quiet henv (hready t) _)) fun _ => ?_
  refine Triple.bind (Q := fun _ => World.Published t) ?_ fun _ => Triple.pure fun _ hw => ⟨rfl, hw⟩
  refine Triple.bind (Triple.attempt (publish_quiet henv hleaf)) fun r => ?_
  cases r with
  | ok _ => exact Triple.pure fun _ h => h
  | error e => exact ⟨fun w hw => hw.elim⟩

/-- **An undisturbed run publishes what it stages if that is verified.** -/
theorem compile_quiet_isOk (henv : Undisturbed env) (hleaf : site.hasLeaf = true) {X : Externals}
    {K : Codec} {plan : ApprovedIntegrationPlan} {n : Nat} {m : CompiledVaultManifest}
    (hplan : validatePlan X plan = .ok ()) (h : stageTree X plan = .ok (t, n))
    (hv : verify X K t = .ok m) :
    Triple (fun w => w.Fresh ∧ w.destination = none) (compileWithHook X K env site plan)
      (fun artifact w => artifact.files = n ∧ w.Published t) fun _ _ => False := by
  have hstart : Steady env fun w => w.Fresh ∧ w.destination = none :=
    { disturb := fun n w h => by
        have hf := (steady_fresh env).disturb n w h.1
        rw [World.disturb_private _ h.1.published] at hf ⊢
        refine ⟨hf, ?_⟩
        show (env n).destination.getD w.destination = none
        rw [henv.destination n]
        exact h.2
      observe := fun c w h => ⟨(steady_fresh env).observe c w h.1, h.2⟩ }
  unfold compileWithHook
  refine Triple.bind (Q := fun _ w => w.Fresh ∧ w.destination = none) (Triple.mapError
    (Triple.lift (fun _ _ _ h => h) fun _ _ he _ => by rw [hplan] at he; cases he)) fun _ => ?_
  have hask : Triple (fun w => w.Fresh ∧ w.destination = none)
      (step env fun w => (.ok w.destination.isSome, w))
      (fun present w => present = false ∧ w.Fresh ∧ w.destination = none) fun _ _ => False :=
    Triple.quiet henv hstart ⟨fun w hw => ⟨by simp [hw.2], hw⟩⟩
  refine Triple.bind (Q := fun present w => present = false ∧ w.Fresh ∧ w.destination = none)
    (Triple.mapError (Triple.bind (Triple.attempt hask) fun r => ?_)) fun present =>
      Triple.assuming fun hpresent => ?_
  · cases r with
    | ok present => exact Triple.pure fun _ h => h
    | error e => exact ⟨fun w hw => hw.elim⟩
  subst hpresent
  refine Triple.bind (Q := fun _ => World.Ready Tree.empty) (Triple.mapError (Triple.bind
    (Triple.mapError (pause_quiet henv hstart)) fun _ => Triple.mapError
      (Triple.quiet henv hstart ⟨fun w hw => ?_⟩))) fun _ => ?_
  · exact ⟨⟨⟨hw.1.published, hw.1.destination⟩, rfl, hw.1.removing⟩, hw.2⟩
  refine Triple.bind (Triple.attempt (stagedResult_quiet henv hleaf h hv)) fun staged => ?_
  cases staged with
  | error original => exact ⟨fun w hw => hw.elim⟩
  | ok files =>
    have hsteady := steady_published env t
    have hsettle : Triple (World.Published t) (settle env site) (fun _ => World.Published t)
        fun _ _ => False :=
      Triple.mapError (Triple.bind (hook_quiet henv hsteady _) fun _ =>
        Triple.bind (pause_quiet henv hsteady) fun _ => hook_quiet henv hsteady _)
    have hend : Triple (fun w => files = n ∧ World.Published t w)
        (settle env site >>= fun _ => pure ⟨site.destination, plan.integrationPlanId, files⟩)
        (fun (artifact : CompiledArtifact) w => artifact.files = n ∧ w.Published t)
        fun _ _ => False :=
      Triple.assuming fun hn => Triple.bind hsettle fun _ => Triple.pure fun w hw => ⟨hn, hw⟩
    exact hend

end Quiet

/-! ## Valid plans -/

/-- Unicode normalisation leaves ASCII text alone. -/
def Externals.LeavesAscii (X : Externals) : Prop :=
  ∀ s : String, (∀ c ∈ s.toList, c.toNat < 128) → X.nfc s = s

/-- The paths below `.okc` are ASCII. -/
theorem portable_controlPaths {X : Externals} (hX : X.LeavesAscii) :
    ∀ q ∈ controlPaths, Portable X q := by
  have hcontrol : ∀ q ∈ controlPaths, len q ≤ 1024 ∧ ∀ c ∈ splitSlash q,
      validateComponent .default c = .ok () ∧ c.toList.all (fun d => d.toNat < 128) = true := by
    decide
  intro q hq
  obtain ⟨hlen, hparts⟩ := hcontrol q hq
  have hnfc : ∀ c ∈ splitSlash q, X.nfc c = c := fun c hc =>
    hX c (forall_of_all (hparts c hc).2)
  refine ⟨fun c hc => ⟨(hparts c hc).1, by rw [hnfc c hc]; exact (hparts c hc).1⟩, hlen, ?_⟩
  rw [List.map_congr_left hnfc, List.map_id', joinSlash_splitSlash]
  exact hlen

/-- **A valid plan compiles iff its plan and its manifest keep the limits.** -/
theorem compile_isOk_iff {X : Externals} {K : Codec} {env : Nat → Interference} {site : Site}
    {plan : ApprovedIntegrationPlan} {w : World} (hX : X.LeavesAscii)
    (hv : validatePlan X plan = .ok ()) (hK : K.ReadsBack X plan) (henv : Undisturbed env)
    (hleaf : site.hasLeaf = true) (hw : w.Fresh) (hfree : w.destination = none) :
    (∃ artifact w', compileWithHook X K env site plan w = (.ok artifact, w')) ↔
      KeepsLimits X plan := by
  have h := validatePlan_eq_ok.mp hv
  obtain ⟨files, hf⟩ := materializedFiles_isOk h
  obtain ⟨provenance, hprov⟩ := provenanceJsonl_isOk h hf
  have hcontrol := portable_controlPaths hX
  obtain ⟨t, ht, hholds⟩ := stageTree_isOk h hf hprov hcontrol
  have hverify := verify_envelope hK h hf hprov hcontrol hholds
  constructor
  · rintro ⟨artifact, w', hr⟩
    obtain ⟨⟨u, hu, hm, -⟩, -⟩ := (compile_triple X K env site plan).ok hw hr
    obtain rfl : t = u := congrArg Prod.fst (Except.ok.inj (ht.symm.trans hu))
    exact hverify.mp hm
  · intro hlimits
    obtain ⟨m, hm⟩ := hverify.mpr hlimits
    have hrun := @compile_quiet_isOk _ _ site henv hleaf _ _ _ _ _ hv ht hm
    cases hr : compileWithHook X K env site plan w with
    | mk r w' =>
      cases r with
      | ok artifact => exact ⟨artifact, w', rfl⟩
      | error e => exact (hrun.error ⟨hw, hfree⟩ hr).elim

theorem undisturbed_quiet : Undisturbed quiet := ⟨fun _ => rfl, fun _ => rfl⟩

theorem plainExternals_leavesAscii (sha256 : Bytes → ContentHash) :
    (plainExternals sha256).LeavesAscii := fun _ _ => rfl

theorem compile_isOk_iff_bulk : ∃ K, K.ReadsBack (plainExternals prefixHash)
      (bulkPlan (plainExternals prefixHash) 1) ∧
    ((∃ artifact w', compileWithHook (plainExternals prefixHash) K quiet
      ⟨"out", ".", ".okc-stage-x", true⟩ (bulkPlan (plainExternals prefixHash) 1) World.free =
        (.ok artifact, w')) ↔
      KeepsLimits (plainExternals prefixHash) (bulkPlan (plainExternals prefixHash) 1)) := by
  have h := bulkPlan_valid prefixHash (n := 1) Nat.one_pos (by decide)
  obtain ⟨files, hf⟩ := materializedFiles_isOk h
  obtain ⟨provenance, hprov⟩ := provenanceJsonl_isOk h hf
  have hK := codecOf_readsBack hf hprov
  exact ⟨_, hK, compile_isOk_iff (plainExternals_leavesAscii prefixHash)
    (validatePlan_eq_ok.mpr h) hK undisturbed_quiet rfl World.fresh_free rfl⟩

/-- A valid plan over 8192 documents does not compile, though nothing fails. -/
theorem bulkPlan_not_compiled : ∃ K, K.ReadsBack (plainExternals prefixHash)
      (bulkPlan (plainExternals prefixHash) 8192) ∧
    validatePlan (plainExternals prefixHash) (bulkPlan (plainExternals prefixHash) 8192) = .ok () ∧
    ¬ ∃ artifact w', compileWithHook (plainExternals prefixHash) K quiet
      ⟨"out", ".", ".okc-stage-x", true⟩ (bulkPlan (plainExternals prefixHash) 8192) World.free =
        (.ok artifact, w') := by
  have h := bulkPlan_valid prefixHash (n := 8192) (by decide) (by decide)
  obtain ⟨files, hf⟩ := materializedFiles_isOk h
  obtain ⟨provenance, hprov⟩ := provenanceJsonl_isOk h hf
  have hcontrol := portable_controlPaths (plainExternals_leavesAscii prefixHash)
  obtain ⟨t, ht, hholds⟩ := stageTree_isOk h hf hprov hcontrol
  have hK := codecOf_readsBack hf hprov
  refine ⟨_, hK, validatePlan_eq_ok.mpr h, ?_⟩
  rintro ⟨artifact, w', hr⟩
  obtain ⟨⟨u, hu, hm, -⟩, -⟩ := (compile_triple _ _ _ _ _).ok World.fresh_free hr
  obtain rfl : t = u := congrArg Prod.fst (Except.ok.inj (ht.symm.trans hu))
  exact bulkPlan_breaks_limits prefixHash ((verify_envelope hK h hf hprov hcontrol hholds).mp hm)

end Okc.Core
