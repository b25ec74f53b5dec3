import Okc.App.Authority

/-!
# Approving a cluster (`integration_service.rs:359-463`, `project_state.rs:768-809`)

`approve_cluster` inserts the revision and its approval, and then seals the plan. What the seal
refuses is found out when the two rows are durable.

* `sealedPlan_isOk_iff`: which journals a seal does not fail on.
* `approveCluster_cases`, `approveCluster_of_accepts`: what happens before the first row.
* `recordCluster_returns`: when everything from the first row on goes through.
* `approveCluster_atomic_iff`: a call that fails leaves both tables exactly when one of the two holds:
  the first row was not inserted, or nothing fails after it.
-/

namespace Okc.App

open Okc.Lib Okc.Core

/-! ## What a seal fails on -/

/-- The revision approved for the cluster, current and of the taxonomy. -/
def Journal.Current (j : Journal) (runId : String) (approved : ApprovedTaxonomy)
    (cluster : TaxonomyCluster) (r : ApprovedClusterRevision) : Prop :=
  j.Carries runId cluster.clusterId r ∧ r.proposal.taxonomyHash = approved.taxonomy.taxonomyHash

/-- The approved taxonomy, and a revision for every cluster of it. -/
structure Journal.Completes (j : Journal) (run : RunRecord) (approved : ApprovedTaxonomy)
    (revisions : List ApprovedClusterRevision) : Prop where
  latest : j.latestRun = some run
  taxonomy : j.CarriesTaxonomy run.runId approved
  clusters : List.Forall₂ (j.Current run.runId approved) approved.taxonomy.clusters revisions

/-- The seal can decode what it reads, and what is complete makes a valid plan. -/
structure Journal.Sealable (X : Externals) (j : Journal) : Prop where
  taxonomy : ∀ run, j.latestRun = some run → ∃ record,
    j.latestApproval Object.asApprovedTaxonomy run.runId "taxonomy" "taxonomy" = .ok record
  clusters : ∀ run approved before cluster after revisions, j.latestRun = some run →
    j.CarriesTaxonomy run.runId approved →
    approved.taxonomy.clusters = before ++ cluster :: after →
    List.Forall₂ (j.Current run.runId approved) before revisions → ∃ record,
      j.latestApproval Object.asApprovedRevision run.runId "cluster" cluster.clusterId = .ok record
  plan : ∀ run approved revisions, j.Completes run approved revisions → ∃ plan,
    ApprovedIntegrationPlan.seal X approved.corpus approved.taxonomy approved.approval revisions
      (j.recordingHashes run.runId) = .ok plan

section

variable {X : Externals} {j : Journal}

/-- The cluster loop stops at the first cluster without a current revision. -/
theorem approvedRevisions_isOk {runId : String} {approved : ApprovedTaxonomy} :
    ∀ {clusters : List TaxonomyCluster},
      (∃ r, j.approvedRevisions runId approved.taxonomy.taxonomyHash clusters = .ok r) ↔
        ∀ before cluster after revisions, clusters = before ++ cluster :: after →
          List.Forall₂ (j.Current runId approved) before revisions → ∃ record,
            j.latestApproval Object.asApprovedRevision runId "cluster" cluster.clusterId =
              .ok record
  | [] => by
    refine ⟨fun _ before cluster after _ h => ?_, fun _ => ⟨some [], rfl⟩⟩
    exact absurd h.symm (List.append_ne_nil_of_right_ne_nil _ (List.cons_ne_nil _ _))
  | first :: rest => by
    have ih := @approvedRevisions_isOk runId approved rest
    constructor
    · rintro ⟨r, h⟩ before cluster after revisions hsplit hcurrent
      rw [Journal.approvedRevisions] at h
      obtain ⟨record, hrecord, h⟩ := bind_eq_ok.mp h
      cases hcurrent with
      | nil =>
        obtain ⟨rfl, -⟩ := List.cons.inj hsplit
        exact ⟨record, hrecord⟩
      | @cons _ r _ revisions hfirst hbefore =>
        obtain ⟨rfl, hrest⟩ := List.cons.inj hsplit
        refine ih.mp ?_ _ cluster after revisions hrest hbefore
        obtain ⟨⟨happroval, hsuperseded⟩, hhash⟩ := hfirst
        obtain rfl := Except.ok.inj (hrecord.symm.trans happroval)
        dsimp only at h
        rw [if_neg (by simp [hsuperseded, hhash])] at h
        obtain ⟨found, hfound, -⟩ := bind_eq_ok.mp h
        exact ⟨found, hfound⟩
    · intro h
      obtain ⟨record, hrecord⟩ := h [] first rest [] rfl .nil
      rw [Journal.approvedRevisions, hrecord]
      cases record with
      | none => exact ⟨none, rfl⟩
      | some record =>
        obtain ⟨targetHash, value⟩ := record
        by_cases hstale : targetHash ≠ value.critic.criticHash.hex ∨
            value.proposal.taxonomyHash ≠ approved.taxonomy.taxonomyHash ∨
            j.superseded runId first.clusterId value.proposal.revision = true
        · refine ⟨none, ?_⟩
          show (if targetHash ≠ value.critic.criticHash.hex ∨
            value.proposal.taxonomyHash ≠ approved.taxonomy.taxonomyHash ∨
            j.superseded runId first.clusterId value.proposal.revision = true then _ else _) = _
          rw [if_pos hstale]
        · have hfirst : j.Current runId approved first value := by
            simp only [not_or, not_not, Bool.not_eq_true] at hstale
            obtain ⟨rfl, hhash, hcurrent⟩ := hstale
            exact ⟨⟨hrecord, hcurrent⟩, hhash⟩
          obtain ⟨found, hfound⟩ := ih.mpr fun before cluster after revisions hsplit hbefore =>
            h (first :: before) cluster after (value :: revisions) (hsplit ▸ rfl)
              (.cons hfirst hbefore)
          refine ⟨found.map (value :: ·), ?_⟩
          show (if targetHash ≠ value.critic.criticHash.hex ∨
            value.proposal.taxonomyHash ≠ approved.taxonomy.taxonomyHash ∨
            j.superseded runId first.clusterId value.proposal.revision = true then _ else _) = _
          rw [if_neg hstale, hfound]
          rfl

/-- **Which journals a seal does not fail on.** -/
theorem sealedPlan_isOk_iff : (∃ r, j.sealedPlan X = .ok r) ↔ j.Sealable X := by
  cases hrun : j.latestRun with
  | none =>
    refine ⟨fun _ => ⟨?_, ?_, ?_⟩, fun _ => ⟨none, by rw [Journal.sealedPlan, hrun]⟩⟩
    · exact fun run h => absurd (hrun.symm.trans h) (by simp)
    · exact fun run _ _ _ _ _ h => absurd (hrun.symm.trans h) (by simp)
    · exact fun run _ _ h => absurd (hrun.symm.trans h.latest) (by simp)
  | some run =>
    constructor
    · rintro ⟨r, h⟩
      rw [Journal.sealedPlan, hrun] at h
      obtain ⟨record, hrecord, h⟩ := bind_eq_ok.mp h
      refine ⟨fun run' hrun' => ?_, fun run' approved before cluster after revisions hrun' htax
        hsplit hbefore => ?_, fun run' approved revisions hcomplete => ?_⟩
      · obtain rfl := Option.some.inj (hrun.symm.trans hrun')
        exact ⟨record, hrecord⟩
      · obtain rfl := Option.some.inj (hrun.symm.trans hrun')
        obtain rfl := Except.ok.inj (hrecord.symm.trans htax)
        dsimp only at h
        rw [if_neg (not_not.mpr rfl)] at h
        obtain ⟨found, hfound, -⟩ := bind_eq_ok.mp h
        exact approvedRevisions_isOk.mp ⟨found, hfound⟩ before cluster after revisions hsplit
          hbefore
      · obtain rfl := Option.some.inj (hrun.symm.trans hcomplete.latest)
        obtain rfl := Except.ok.inj (hrecord.symm.trans hcomplete.taxonomy)
        dsimp only at h
        rw [if_neg (not_not.mpr rfl)] at h
        obtain ⟨found, hfound, h⟩ := bind_eq_ok.mp h
        obtain rfl := Except.ok.inj
          (hfound.symm.trans (approvedRevisions_eq_some.mpr hcomplete.clusters))
        obtain ⟨plan, hplan, -⟩ := bind_eq_ok.mp h
        exact ⟨plan, liftCore_eq_ok.mp hplan⟩
    · intro h
      obtain ⟨record, hrecord⟩ := h.taxonomy run hrun
      rw [Journal.sealedPlan, hrun]
      cases record with
      | none => exact ⟨none, bind_eq_ok.mpr ⟨none, hrecord, rfl⟩⟩
      | some record =>
        obtain ⟨targetHash, approved⟩ := record
        by_cases hhash : targetHash = approved.taxonomy.taxonomyHash.hex
        · subst hhash
          obtain ⟨found, hfound⟩ := approvedRevisions_isOk.mpr
            fun before cluster after revisions hsplit hbefore =>
              h.clusters run approved before cluster after revisions hrun hrecord hsplit hbefore
          cases found with
          | none =>
            refine ⟨none, bind_eq_ok.mpr ⟨_, hrecord, ?_⟩⟩
            dsimp only
            rw [if_neg (not_not.mpr rfl), hfound]
            rfl
          | some revisions =>
            obtain ⟨plan, hplan⟩ := h.plan run approved revisions
              ⟨hrun, hrecord, approvedRevisions_eq_some.mp hfound⟩
            exact ⟨some (run.runId, plan), sealedPlan_iff.mpr ⟨run, approved, revisions, hrun, rfl,
              hrecord, approvedRevisions_eq_some.mp hfound, hplan⟩ ▸ by
                rw [Journal.sealedPlan, hrun]⟩
        · refine ⟨none, bind_eq_ok.mpr ⟨_, hrecord, ?_⟩⟩
          dsimp only
          rw [if_pos hhash]

end

/-! ## Steps that go through -/

section

variable {X : Externals} {faults : Faults} {α β : Type} {s t : Project}

theorem returns_lift {x : Except AppError α} {f : α → Op β} :
    Act.Returns (Act.lift x >>= f) s ↔ ∃ a, x = .ok a ∧ Act.Returns (f a) s := by
  rw [Act.returns_bind]
  simp only [Act.lift_eq_ok]
  exact ⟨fun ⟨a, _, ⟨hx, rfl⟩, h⟩ => ⟨a, hx, h⟩, fun ⟨a, hx, h⟩ => ⟨a, s, ⟨hx, rfl⟩, h⟩⟩

theorem returns_query {g : Project → Except AppError α} {f : α → Op β} :
    Act.Returns (query faults g >>= f) s ↔
      faults s.clock = none ∧ ∃ a, g s.tick = .ok a ∧ Act.Returns (f a) s.tick := by
  rw [Act.returns_bind]
  simp only [query_eq_ok]
  exact ⟨fun ⟨a, _, ⟨hc, hg, rfl⟩, h⟩ => ⟨hc, a, hg, h⟩,
    fun ⟨hc, a, hg, h⟩ => ⟨a, s.tick, ⟨hc, hg, rfl⟩, h⟩⟩

theorem returns_attemptIo {f : Unit → Op β} :
    Act.Returns (attemptIo faults >>= f) s ↔ faults s.clock = none ∧ Act.Returns (f ()) s.tick := by
  rw [attemptIo, returns_query]
  simp

theorem insertRow_eq_ok {row : Row} :
    insertRow faults row s = (.ok (), t) ↔ faults s.clock = none ∧ s.tick.insert row = .ok t := by
  refine commit_eq_ok.trans (and_congr_right fun _ => ?_)
  cases s.tick.insert row <;> simp [Except.map]

theorem returns_insertRow {row : Row} {f : Unit → Op β} (ht : s.tick.insert row = .ok t) :
    Act.Returns (insertRow faults row >>= f) s ↔ faults s.clock = none ∧ Act.Returns (f ()) t := by
  rw [Act.returns_bind]
  constructor
  · rintro ⟨_, u, h, hreturns⟩
    obtain ⟨hc, hu⟩ := insertRow_eq_ok.mp h
    obtain rfl := Except.ok.inj (ht.symm.trans hu)
    exact ⟨hc, hreturns⟩
  · rintro ⟨hc, hreturns⟩
    exact ⟨(), t, insertRow_eq_ok.mpr ⟨hc, ht⟩, hreturns⟩

theorem returns_pure {a : α} : Act.Returns (pure a : Op α) s := ⟨a, s, rfl⟩

theorem hasRun_of_latestRun {j : Journal} {run : RunRecord} (h : j.latestRun = some run) :
    j.HasRun run.runId := List.mem_map_of_mem (Journal.mem_of_latestRun h)

/-- A seal stores a plan exactly when the approvals are complete. -/
theorem isSome_sealedPlan {j : Journal} {r : Option (String × ApprovedIntegrationPlan)}
    (h : j.sealedPlan X = .ok r) :
    r.isSome = true ↔ ∃ run approved revisions, j.Completes run approved revisions := by
  constructor
  · intro hr
    obtain ⟨⟨runId, plan⟩, rfl⟩ := Option.isSome_iff_exists.mp hr
    obtain ⟨run, approved, revisions, hrun, rfl, htax, hclusters, -⟩ := sealedPlan_iff.mp h
    exact ⟨run, approved, revisions, hrun, htax, hclusters⟩
  · rintro ⟨run, approved, revisions, hcomplete⟩
    obtain ⟨plan, hplan⟩ := (sealedPlan_isOk_iff.mp ⟨r, h⟩).plan run approved revisions hcomplete
    have hsealed := sealedPlan_iff.mpr ⟨run, approved, revisions, hcomplete.latest, rfl,
      hcomplete.taxonomy, hcomplete.clusters, hplan⟩
    rw [Except.ok.inj (h.symm.trans hsealed)]
    rfl

/-- **When a seal goes through**, from the query to the row. -/
theorem seal_returns : Act.Returns (sealLatestIntegrationPlan X faults) s ↔
    faults s.clock = none ∧ s.journal.Sealable X ∧
      ((∃ run approved revisions, s.journal.Completes run approved revisions) →
        faults (s.clock + 1) = none ∧ faults (s.clock + 2) = none) := by
  unfold sealLatestIntegrationPlan
  rw [returns_query, ← sealedPlan_isOk_iff]
  refine and_congr_right fun _ => ?_
  constructor
  · rintro ⟨r, hr, h⟩
    refine ⟨⟨r, hr⟩, fun hcomplete => ?_⟩
    obtain ⟨⟨runId, plan⟩, rfl⟩ := Option.isSome_iff_exists.mp ((isSome_sealedPlan hr).mpr hcomplete)
    obtain ⟨run, approved, revisions, hrun, rfl, -, -, hplan⟩ := sealedPlan_iff.mp hr
    obtain ⟨t, ht, -⟩ := exists_insert (s := s.tick.tick.tick) rfl
      (@Journal.Inserted.plan _ ⟨run.runId, plan.integrationPlanId, planObjectHash X plan, plan⟩
        (hasRun_of_latestRun hrun))
    dsimp only at h
    rw [storeApprovedIntegrationPlan, Act.bind_assoc', returns_lift] at h
    obtain ⟨-, -, h⟩ := h
    rw [Act.bind_assoc', returns_attemptIo, returns_insertRow ht] at h
    exact ⟨h.1, h.2.1⟩
  · rintro ⟨⟨r, hr⟩, hquiet⟩
    refine ⟨r, hr, ?_⟩
    cases r with
    | none => exact returns_pure
    | some found =>
      obtain ⟨runId, plan⟩ := found
      obtain ⟨hio, hrow⟩ := hquiet ((isSome_sealedPlan hr).mp rfl)
      obtain ⟨run, approved, revisions, hrun, rfl, -, -, hplan⟩ := sealedPlan_iff.mp hr
      obtain ⟨t, ht, -⟩ := exists_insert (s := s.tick.tick.tick) rfl
        (@Journal.Inserted.plan _ ⟨run.runId, plan.integrationPlanId, planObjectHash X plan, plan⟩
          (hasRun_of_latestRun hrun))
      have hvalid := validatePlan_eq_ok.mpr (sealed_spec hplan).valid
      dsimp only
      rw [storeApprovedIntegrationPlan, Act.bind_assoc', returns_lift]
      refine ⟨(), by rw [hvalid]; rfl, ?_⟩
      rw [Act.bind_assoc', returns_attemptIo, returns_insertRow ht]
      exact ⟨hio, hrow, returns_pure⟩

/-! ## The two rows -/

/-- `approve_cluster` from its first row on. -/
def recordCluster (X : Externals) (faults : Faults) (run : RunRecord) (clusterId : String)
    (approved : ApprovedClusterRevision) : Op ApprovedClusterRevision := do
  insertRow faults (.revision ⟨run.runId, clusterId, approved.approval.revisionHash.hex,
    .approvedRevision approved⟩)
  appendApproval faults run.runId "cluster" clusterId approved.critic.criticHash.hex
    (.approvedRevision approved)
  let _ ← sealLatestIntegrationPlan X faults
  pure approved

/-- The journal with the two rows. -/
def Journal.recorded (j : Journal) (run : RunRecord) (clusterId : String)
    (approved : ApprovedClusterRevision) : Journal :=
  { j with
    revisions := j.revisions ++ [⟨run.runId, clusterId, approved.approval.revisionHash.hex,
      .approvedRevision approved⟩]
    approvals := j.approvals ++ [⟨run.runId, "cluster", clusterId,
      approved.critic.criticHash.hex, .approvedRevision approved⟩] }

/-- Nothing fails from the first row on: no step, and not the seal of what is then approved. -/
structure Records (X : Externals) (faults : Faults) (clock : Nat) (j : Journal) : Prop where
  quiet : ∀ i < 4, faults (clock + i) = none
  sealable : j.Sealable X
  stored : (∃ run approved revisions, j.Completes run approved revisions) →
    faults (clock + 4) = none ∧ faults (clock + 5) = none

theorem validateIdentifier_label {label value : String}
    (h : validateIdentifier label value = .ok ()) (label' : String) :
    validateIdentifier label' value = .ok () :=
  reject_eq_ok.mpr (reject_eq_ok.mp h)

variable {run : RunRecord} {clusterId : String} {approved : ApprovedClusterRevision}

/-- **When everything from the first row on goes through.** -/
theorem recordCluster_returns (hrun : s.journal.HasRun run.runId) {label : String}
    (hid : validateIdentifier label clusterId = .ok ()) :
    Act.Returns (recordCluster X faults run clusterId approved) s ↔
      Records X faults s.clock (s.journal.recorded run clusterId approved) := by
  obtain ⟨t, ht, htj, -⟩ := exists_insert (s := s.tick) rfl (@Journal.Inserted.revision _
    ⟨run.runId, clusterId, approved.approval.revisionHash.hex, .approvedRevision approved⟩ hrun)
  have htc : t.clock = s.clock + 1 := (insert_eq_ok.mp ht).2.1
  have hrun' : t.journal.HasRun run.runId := by
    rw [htj]
    exact hrun
  obtain ⟨u, hu, huj, -⟩ := exists_insert (s := t.tick.tick) rfl (@Journal.Inserted.approval _
    ⟨run.runId, "cluster", clusterId, approved.critic.criticHash.hex, .approvedRevision approved⟩
    hrun')
  have huc : u.clock = s.clock + 3 := by
    rw [(insert_eq_ok.mp hu).2.1]
    show t.clock + 1 + 1 = _
    rw [htc]
  have hjournal : u.journal = s.journal.recorded run clusterId approved := by
    have hsame : t.tick.tick.journal = t.journal := rfl
    rw [huj, hsame, htj]
    rfl
  have hkind : validateIdentifier "approval kind" "cluster" = .ok () := Lowered.kind_cluster
  have htarget := validateIdentifier_label hid "approval target"
  unfold recordCluster
  rw [returns_insertRow ht, appendApproval, hkind, htarget, validateHexHash_hex, Act.lift_ok_bind,
    Act.lift_ok_bind, Act.lift_ok_bind, Act.bind_assoc', returns_attemptIo, returns_insertRow hu,
    Act.returns_bind]
  have hseal : (∃ a v, sealLatestIntegrationPlan X faults u = (.ok a, v) ∧
      Act.Returns (pure approved : Op ApprovedClusterRevision) v) ↔
        Act.Returns (sealLatestIntegrationPlan X faults) u :=
    ⟨fun ⟨a, v, h, _⟩ => ⟨a, v, h⟩, fun ⟨a, v, h⟩ => ⟨a, v, h, returns_pure⟩⟩
  rw [hseal, seal_returns, hjournal, huc]
  show _ ∧ faults t.clock = none ∧ faults (t.clock + 1) = none ∧ _ ↔ _
  rw [htc]
  constructor
  · rintro ⟨h₀, h₁, h₂, h₃, hsealable, hstored⟩
    refine ⟨fun i hi => ?_, hsealable, hstored⟩
    match i, hi with
    | 0, _ => exact h₀
    | 1, _ => exact h₁
    | 2, _ => exact h₂
    | 3, _ => exact h₃
  · intro h
    exact ⟨h.quiet 0 (by decide), h.quiet 1 (by decide), h.quiet 2 (by decide),
      h.quiet 3 (by decide), h.sealable, h.stored⟩

/-- **A failure from the first row on leaves the tables as they were** exactly when the first row was
not inserted. -/
theorem recordCluster_atomic_iff (hrun : s.journal.HasRun run.runId) :
    (∀ e t, recordCluster X faults run clusterId approved s = (.error e, t) →
      t.journal.approvals = s.journal.approvals ∧ t.journal.revisions = s.journal.revisions) ↔
      (∃ fault, faults s.clock = some fault ∧ fault.applied = false) ∨
        Act.Returns (recordCluster X faults run clusterId approved) s := by
  obtain ⟨u, hu, huj, -⟩ := exists_insert (s := s.tick) rfl (@Journal.Inserted.revision _
    ⟨run.runId, clusterId, approved.approval.revisionHash.hex, .approvedRevision approved⟩ hrun)
  have hlength : u.journal.revisions.length = s.journal.revisions.length + 1 := by
    rw [huj]
    exact List.length_append
  -- what comes after the first row only appends
  have hextends : ∀ r t, recordCluster X faults run clusterId approved s = (r, t) →
      insertRow faults (.revision ⟨run.runId, clusterId, approved.approval.revisionHash.hex,
        .approvedRevision approved⟩) s = (.ok (), u) → u.journal.Extends t.journal := by
    intro r t h hinsert
    have hrest : Adds (fun _ _ => True) (fun _ => True) (do
        appendApproval faults run.runId "cluster" clusterId approved.critic.criticHash.hex
          (.approvedRevision approved)
        let _ ← sealLatestIntegrationPlan X faults
        pure approved) fun _ _ => True := by
      refine Advances.bind (adds_appendApproval fun _ _ => trivial) fun _ => ?_
      refine Advances.bind (adds_sealLatestIntegrationPlan fun _ _ _ _ _ _ => trivial) fun _ => ?_
      exact Advances.pure fun _ _ => trivial
    unfold recordCluster at h
    rw [Act.bind_ok hinsert] at h
    have hmoves := hrest.moves (s := u) trivial
    rw [h] at hmoves
    exact Journal.Grows.extends hmoves
  cases hfault : faults s.clock with
  | none =>
    have hinsert := insertRow_eq_ok.mpr ⟨hfault, hu⟩
    simp only [reduceCtorEq, false_and, exists_false, false_or]
    constructor
    · intro h
      cases hresult : recordCluster X faults run clusterId approved s with
      | mk r t =>
        cases r with
        | ok a => exact ⟨a, t, hresult⟩
        | error e =>
          have hgrown := (hextends _ _ hresult hinsert).revisions.length_le
          rw [(h e t hresult).2, hlength] at hgrown
          exact absurd hgrown (Nat.not_succ_le_self _)
    · rintro ⟨a, v, hreturns⟩ e t h
      rw [hreturns] at h
      cases h
  | some fault =>
    have hinsert : insertRow faults (.revision ⟨run.runId, clusterId,
        approved.approval.revisionHash.hex, .approvedRevision approved⟩) s =
          (.error fault.error, if fault.applied then u else s.tick) := by
      show commit faults _ s = _
      unfold commit
      rw [hfault]
      dsimp only
      rw [hu]
      cases fault.applied <;> rfl
    have hrecord : recordCluster X faults run clusterId approved s =
        (.error fault.error, if fault.applied then u else s.tick) := Act.bind_error hinsert
    have hnot : ¬ Act.Returns (recordCluster X faults run clusterId approved) s := by
      rintro ⟨a, v, hreturns⟩
      have := hrecord.symm.trans hreturns
      cases this
    cases happlied : fault.applied with
    | false =>
      refine ⟨fun _ => Or.inl ⟨fault, rfl, happlied⟩, fun _ e t h => ?_⟩
      obtain ⟨-, rfl⟩ := Prod.mk.inj (hrecord.symm.trans h)
      rw [happlied]
      exact ⟨rfl, rfl⟩
    | true =>
      refine ⟨fun h => ?_, ?_⟩
      · have hkept := (h _ _ hrecord).2
        rw [happlied] at hkept
        exact absurd (hlength.symm.trans (congrArg List.length hkept)) (Nat.succ_ne_self _)
      · rintro (⟨fault', heq, hnone⟩ | hreturns)
        · obtain rfl := Option.some.inj heq
          rw [happlied] at hnone
          cases hnone
        · exact absurd hreturns hnot

/-! ## Up to the first row -/

/-- The review is accepted, and everything before the first row goes through. -/
structure Accepts (X : Externals) (faults : Faults) (clusterId : String)
    (decision : ClusterReviewDecision) (s : Project) (run : RunRecord)
    (approved : ApprovedClusterRevision) : Prop where
  quiet : ∀ i < 5, faults (s.clock + i) = none
  valid : s.disk.validate = .ok ()
  latest : s.journal.latestRun = some run
  identifier : validateIdentifier "cluster ID" clusterId = .ok ()
  reviewed : ∃ output,
    s.journal.completedCluster clusterId "cluster has no complete critic report" = .ok output ∧
      reviewedRevision X s.disk output decision = .ok approved

/-- The first row divides the call. -/
theorem approveCluster_eq (decision : ClusterReviewDecision) :
    approveCluster X faults clusterId decision = (do
      let manifest ← openProject faults
      acquireWriterLock faults
      let run ← query faults fun s => s.journal.requireRun
      let output ← query faults fun s =>
        s.journal.completedCluster clusterId "cluster has no complete critic report"
      let approved ← Act.lift (reviewedRevision X manifest output decision)
      Act.lift (validateIdentifier "cluster ID" clusterId)
      Act.lift (validateHexHash "cluster revision hash" approved.approval.revisionHash.hex)
      attemptIo faults
      recordCluster X faults run clusterId approved) := by
  unfold approveCluster appendClusterRevision recordCluster
  simp only [Act.bind_assoc']

/-- The project five steps later. -/
def Project.reviewed (s : Project) : Project := s.tick.tick.tick.tick.tick

theorem approveCluster_of_accepts {decision : ClusterReviewDecision}
    (h : Accepts X faults clusterId decision s run approved) :
    approveCluster X faults clusterId decision s =
      recordCluster X faults run clusterId approved s.reviewed := by
  obtain ⟨output, houtput, hreviewed⟩ := h.reviewed
  have hopen : openProject faults s = (.ok s.disk, s.tick) :=
    query_eq_ok.mpr ⟨h.quiet 0 (by decide), bind_unit_eq_ok.mpr ⟨h.valid, rfl⟩, rfl⟩
  have hlock : acquireWriterLock faults s.tick = (.ok (), s.tick.tick) :=
    attemptIo_eq_ok.mpr ⟨h.quiet 1 (by decide), rfl⟩
  have hrun : query faults (fun s => s.journal.requireRun) s.tick.tick =
      (.ok run, s.tick.tick.tick) :=
    query_eq_ok.mpr ⟨h.quiet 2 (by decide), requireRun_eq_ok.mpr h.latest, rfl⟩
  have hcompleted : query faults (fun s => s.journal.completedCluster clusterId
      "cluster has no complete critic report") s.tick.tick.tick =
        (.ok output, s.tick.tick.tick.tick) :=
    query_eq_ok.mpr ⟨h.quiet 3 (by decide), houtput, rfl⟩
  have hobject : attemptIo faults s.tick.tick.tick.tick = (.ok (), s.reviewed) :=
    attemptIo_eq_ok.mpr ⟨h.quiet 4 (by decide), rfl⟩
  rw [approveCluster_eq, Act.bind_ok hopen, Act.bind_ok hlock, Act.bind_ok hrun,
    Act.bind_ok hcompleted, hreviewed, Act.lift_ok_bind, h.identifier, Act.lift_ok_bind,
    validateHexHash_hex, Act.lift_ok_bind, Act.bind_ok hobject]

/-- A call fails before the first row, or gets to it. -/
theorem approveCluster_cases {decision : ClusterReviewDecision}
    {r : Except AppError ApprovedClusterRevision}
    (h : approveCluster X faults clusterId decision s = (r, t)) :
    t.journal = s.journal ∨ ∃ run approved, Accepts X faults clusterId decision s run approved := by
  rw [approveCluster_eq] at h
  obtain ⟨e, hm, -⟩ | ⟨manifest, s₁, hm, h⟩ := Act.bind_cases h
  · exact Or.inl (query_journal hm)
  obtain ⟨hc₀, hopen, rfl⟩ := query_eq_ok.mp hm
  obtain ⟨hvalid, hmanifest⟩ := bind_unit_eq_ok.mp hopen
  obtain rfl := Except.ok.inj hmanifest
  obtain ⟨e, hm, -⟩ | ⟨_, s₂, hm, h⟩ := Act.bind_cases h
  · exact Or.inl ((attemptIo_journal hm).trans rfl)
  obtain ⟨hc₁, rfl⟩ := attemptIo_eq_ok.mp hm
  obtain ⟨e, hm, -⟩ | ⟨run, s₃, hm, h⟩ := Act.bind_cases h
  · exact Or.inl ((query_journal hm).trans rfl)
  obtain ⟨hc₂, hrun, rfl⟩ := query_eq_ok.mp hm
  obtain ⟨e, hm, -⟩ | ⟨output, s₄, hm, h⟩ := Act.bind_cases h
  · exact Or.inl ((query_journal hm).trans rfl)
  obtain ⟨hc₃, houtput, rfl⟩ := query_eq_ok.mp hm
  cases hreviewed : reviewedRevision X s.tick.disk output decision with
  | error e =>
    rw [hreviewed, Act.lift_error_bind] at h
    exact Or.inl ((Prod.mk.inj h).2 ▸ rfl)
  | ok approved =>
    rw [hreviewed, Act.lift_ok_bind] at h
    cases hid : validateIdentifier "cluster ID" clusterId with
    | error e =>
      rw [hid, Act.lift_error_bind] at h
      exact Or.inl ((Prod.mk.inj h).2 ▸ rfl)
    | ok _ =>
      rw [hid, Act.lift_ok_bind, validateHexHash_hex, Act.lift_ok_bind] at h
      obtain ⟨e, hm, -⟩ | ⟨_, s₅, hm, -⟩ := Act.bind_cases h
      · exact Or.inl ((attemptIo_journal hm).trans rfl)
      obtain ⟨hc₄, -⟩ := attemptIo_eq_ok.mp hm
      refine Or.inr ⟨run, approved, fun i hi => ?_, hvalid, requireRun_eq_ok.mp hrun, hid, output,
        houtput, hreviewed⟩
      match i, hi with
      | 0, _ => exact hc₀
      | 1, _ => exact hc₁
      | 2, _ => exact hc₂
      | 3, _ => exact hc₃
      | 4, _ => exact hc₄

/-- **A failed approval leaves the tables as they were** exactly when, if the review is accepted, the
first row was not inserted or nothing fails from it on. -/
theorem approveCluster_atomic_iff (X : Externals) (faults : Faults) (clusterId : String)
    (decision : ClusterReviewDecision) (s : Project) :
    (∀ e t, approveCluster X faults clusterId decision s = (.error e, t) →
      t.journal.approvals = s.journal.approvals ∧ t.journal.revisions = s.journal.revisions) ↔
      ∀ run approved, Accepts X faults clusterId decision s run approved →
        (∃ fault, faults (s.clock + 5) = some fault ∧ fault.applied = false) ∨
          Records X faults (s.clock + 5) (s.journal.recorded run clusterId approved) := by
  constructor
  · intro h run approved haccepts
    rw [approveCluster_of_accepts haccepts] at h
    have hrun : s.reviewed.journal.HasRun run.runId := hasRun_of_latestRun haccepts.latest
    exact ((recordCluster_atomic_iff hrun).mp h).imp_right
      (recordCluster_returns hrun haccepts.identifier).mp
  · intro h e t hfail
    rcases approveCluster_cases hfail with hsame | ⟨run, approved, haccepts⟩
    · rw [hsame]
      exact ⟨rfl, rfl⟩
    · have hrun : s.reviewed.journal.HasRun run.runId := hasRun_of_latestRun haccepts.latest
      rw [approveCluster_of_accepts haccepts] at hfail
      exact (recordCluster_atomic_iff hrun).mpr ((h run approved haccepts).imp_right
        (recordCluster_returns hrun haccepts.identifier).mpr) e t hfail

end

/-! ## A curator that a plan cannot bind -/

/-- A curator with a long name. -/
def longName (n : Nat) : String := String.ofList (List.replicate (n + 1) 'a')

theorem len_longName (n : Nat) : len (longName n) = n + 1 := by
  have h : ∀ k, len (String.ofList (List.replicate k 'a')) = k := by
    intro k
    induction k with
    | zero => rfl
    | succ k ih =>
      have hsize : 'a'.utf8Size = 1 := by decide
      rw [List.replicate_succ, len_ofList_cons, ih, hsize, Nat.add_comm]
  exact h (n + 1)

theorem trim_longName (n : Nat) : trim (longName n) ≠ "" := by
  have hkept : (List.replicate (n + 1) 'a').rdropWhile isWhitespace = List.replicate (n + 1) 'a' :=
    List.rdropWhile_eq_self_iff.mpr fun hne => by
      rw [List.getLast_replicate]
      decide
  rw [trim, longName, String.toList_ofList, hkept, List.replicate_succ,
    List.dropWhile_cons_of_neg (by decide)]
  intro h
  have := congrArg String.toList h
  rw [String.toList_ofList] at this
  cases this

/-- The manifest bounds no length; a plan binds at most 256 bytes. -/
def longCurator (n : Nat) : ProjectManifest := { plainManifest with curatorId := longName n }

theorem longCurator_valid (n : Nat) : ValidManifest (longCurator n) :=
  { plainManifest_valid with
    curatorId := trim_longName n
    curatorSafe := fun c hc => by
      have hmem : c ∈ (longName n).toList := hc
      rw [longName, String.toList_ofList] at hmem
      rw [(List.mem_replicate.mp hmem).2]
      decide }

/-- The revision that this curator approves. -/
def longRevision (X : Externals) (n : Nat) : ApprovedClusterRevision where
  proposal := (Lowered.output X).proposal
  critic := (Lowered.output X).critic
  approval := .approve X (Lowered.output X).proposal (Lowered.output X).critic
    (longCurator n).curatorId (longCurator n).policyVersion [] []

theorem longRevision_reviewed (X : Externals) (n : Nat) :
    reviewedRevision X (longCurator n) (Lowered.output X) ⟨[], []⟩ = .ok (longRevision X n) := by
  have homitted : (Lowered.output X).proposal.omitted = [] := rfl
  have hminor : (Lowered.output X).critic.minorFindings = [] := rfl
  have hfindings : (Lowered.output X).critic.findings = [] := rfl
  unfold reviewedRevision
  rw [homitted, hminor, hfindings]
  rfl

/-- With it the approvals are complete, and the plan they make is refused. -/
theorem longRevision_unsealable (X : Externals) {n : Nat} (hn : 256 ≤ n) :
    ¬ ((Lowered.reviewed X).recorded (Lowered.run X) "all" (longRevision X n)).Sealable X := by
  intro h
  have happrovals : ((Lowered.reviewed X).recorded (Lowered.run X) "all"
      (longRevision X n)).approvals = [Lowered.taxonomyRow X, ⟨(Lowered.run X).runId, "cluster",
        "all", (longRevision X n).critic.criticHash.hex, .approvedRevision (longRevision X n)⟩] := rfl
  obtain ⟨plan, hplan⟩ := h.plan (Lowered.run X)
    ⟨bulkCorpus X 1, bulkTaxonomy X 1, bulkApproval X 1⟩ [longRevision X n] {
      latest := rfl
      taxonomy := by
        simp [Journal.CarriesTaxonomy, Journal.latestApproval, Lowered.kind_taxonomy,
          Lowered.target_taxonomy, Journal.approvalRow, happrovals, Lowered.taxonomyRow, latest,
          Object.asApprovedTaxonomy, bind, Except.bind]
      clusters := by
        refine .cons ⟨⟨?_, rfl⟩, rfl⟩ .nil
        show Journal.latestApproval Object.asApprovedRevision _ (Lowered.run X).runId "cluster"
          "all" = _
        simp [Journal.latestApproval, Lowered.kind_cluster, Lowered.target_all, Journal.approvalRow,
          happrovals, Lowered.taxonomyRow, latest, Object.asApprovedRevision, bind, Except.bind] }
  have hsealed := sealed_spec hplan
  obtain ⟨cluster, -, hrevision⟩ :=
    hsealed.valid.revision _ (hsealed.mem_clusters.mpr (List.mem_singleton_self _))
  have hbound : len (longName n) ≤ 256 := hrevision.approval.curatorBounded.2.1
  rw [len_longName] at hbound
  omega

/-- **The review is accepted, the rows are recorded, and the call fails.** -/
theorem approval_recorded_unsealable : ∃ s : Session,
    (longCurator 256).validate = .ok () ∧
    Reaches (Session.step (plainExternals prefixHash) noFaults) (fun _ _ => True)
      (.create (longCurator 256)) s ∧
    ¬ ∀ e t, approveCluster (plainExternals prefixHash) noFaults "all" ⟨[], []⟩ s.project =
        (.error e, t) → t.journal.approvals = s.project.journal.approvals ∧
          t.journal.revisions = s.project.journal.revisions := by
  generalize hX : plainExternals prefixHash = X
  obtain ⟨s, hs, hstored⟩ := Lowered.visits_reviewed (X := X) (m := longCurator 256)
    (P := fun _ _ => True) fun _ _ _ => trivial
  obtain ⟨hjournal, hdisk⟩ := Prod.mk.inj hstored
  have hvalid := validate_eq_ok.mpr (longCurator_valid 256)
  refine ⟨s, hvalid, hs, fun h => ?_⟩
  have hlatest : s.project.journal.latestRun = some (Lowered.run X) := by
    rw [hjournal]
    rfl
  have haccepts : Accepts X noFaults "all" ⟨[], []⟩ s.project (Lowered.run X)
      (longRevision X 256) :=
    ⟨fun _ _ => rfl, hdisk ▸ hvalid, hlatest, by decide, Lowered.output X,
      hjournal ▸ Lowered.completedCluster_reviewed, hdisk ▸ longRevision_reviewed X 256⟩
  have hrun : s.project.reviewed.journal.HasRun (Lowered.run X).runId := hasRun_of_latestRun hlatest
  rw [approveCluster_of_accepts haccepts] at h
  rcases (recordCluster_atomic_iff hrun).mp h with ⟨fault, hfault, -⟩ | hreturns
  · cases hfault
  · have hsealable := ((recordCluster_returns hrun haccepts.identifier).mp hreturns).sealable
    have hsame : s.project.reviewed.journal = Lowered.reviewed X := hjournal
    rw [hsame] at hsealable
    exact longRevision_unsealable X (le_refl 256) hsealable

end Okc.App
