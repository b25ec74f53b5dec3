import Okc.Core.Bulk

/-!
# The plan identity commits to the whole plan

`integration_plan_id` hashes the plan's own fields and, of its corpus and taxonomy, only their
hashes. The validator rebinds those: the corpus hash to the documents and the taxonomy hash to the
clusters and the organizer's recording.

* `plan_eq_of_integrationPlanId`: two valid plans with one identity are one plan, as long as
  SHA-256 separates the six messages their three hashes are computed from (`committed`).
-/

namespace Okc.Core

open Okc.Lib

/-- The messages behind a plan's own hash, its corpus hash and its taxonomy hash. -/
def committed (p : ApprovedIntegrationPlan) : Set Bytes :=
  {hashInput "okc:integration-plan:v3\x00" p.identity,
    hashInput "okc:integration-corpus:v3\x00" (documentsValue p.corpus.documents),
    hashInput "okc:taxonomy:v3\x00" (taxonomyIdentity p.taxonomy.corpusHash p.taxonomy.clusters
      p.taxonomy.organizerRecordingHash)}

section

variable {X : Externals} {p q : ApprovedIntegrationPlan}

theorem identity_of_integrationPlanId (hp : ValidPlan X p) (hq : ValidPlan X q)
    (hX : X.NoCollisions (committed p ∪ committed q))
    (hid : p.integrationPlanId = q.integrationPlanId) : p.identity = q.identity := by
  rw [hp.planId, hq.planId, expectedPlanId, expectedPlanId] at hid
  have hhash : X.canonicalHash "okc:integration-plan:v3\x00" p.identity =
      X.canonicalHash "okc:integration-plan:v3\x00" q.identity :=
    ContentHash.hex_injective (by simpa using hid)
  exact eq_of_canonicalHash hX (Or.inl (Or.inl rfl)) (Or.inr (Or.inl rfl)) hhash

/-- The corpus hash commits to the documents. -/
theorem corpus_eq_of_corpusHash (hp : ValidPlan X p) (hq : ValidPlan X q)
    (hX : X.NoCollisions (committed p ∪ committed q))
    (hcorpus : p.corpus.corpusHash = q.corpus.corpusHash)
    (hpolicy : p.corpus.policyHash = q.corpus.policyHash) : p.corpus = q.corpus := by
  have hhash := hcorpus
  rw [hp.corpus.corpusHash, hq.corpus.corpusHash] at hhash
  have hdocs := documentsValue_inj.mp
    (eq_of_canonicalHash hX (Or.inl (Or.inr (Or.inl rfl))) (Or.inr (Or.inr (Or.inl rfl))) hhash)
  have hschema := hp.corpus.schemaVersion.trans hq.corpus.schemaVersion.symm
  rcases hpc : p.corpus with ⟨_, _, _, _⟩
  rcases hqc : q.corpus with ⟨_, _, _, _⟩
  simp_all

/-- The taxonomy hash commits to the clusters and the organizer's recording. -/
theorem taxonomy_eq_of_taxonomyHash (hp : ValidPlan X p) (hq : ValidPlan X q)
    (hX : X.NoCollisions (committed p ∪ committed q))
    (htaxonomy : p.taxonomy.taxonomyHash = q.taxonomy.taxonomyHash) : p.taxonomy = q.taxonomy := by
  have hhash := htaxonomy
  rw [hp.taxonomy.taxonomyHash, hq.taxonomy.taxonomyHash] at hhash
  obtain ⟨hcorpus, hclusters, horganizer⟩ := taxonomyIdentity_inj.mp
    (eq_of_canonicalHash hX (Or.inl (Or.inr (Or.inr rfl))) (Or.inr (Or.inr (Or.inr rfl))) hhash)
  have hschema := hp.taxonomy.schemaVersion.trans hq.taxonomy.schemaVersion.symm
  rcases hpt : p.taxonomy with ⟨_, _, _, _, _⟩
  rcases hqt : q.taxonomy with ⟨_, _, _, _, _⟩
  simp_all

/-- **The plan identity commits to the whole plan.** -/
theorem plan_eq_of_integrationPlanId (hp : validatePlan X p = .ok ())
    (hq : validatePlan X q = .ok ()) (hX : X.NoCollisions (committed p ∪ committed q))
    (hid : p.integrationPlanId = q.integrationPlanId) : p = q := by
  have hp := validatePlan_eq_ok.mp hp
  have hq := validatePlan_eq_ok.mp hq
  obtain ⟨hcorpus, hpolicy, htaxonomy, happroval, hclusters, hrecordings⟩ :=
    planIdentity_inj.mp (identity_of_integrationPlanId hp hq hX hid)
  have hc := corpus_eq_of_corpusHash hp hq hX hcorpus hpolicy
  have ht := taxonomy_eq_of_taxonomyHash hp hq hX htaxonomy
  have hfamily := hp.formatFamily.trans hq.formatFamily.symm
  have hschema := hp.schemaVersion.trans hq.schemaVersion.symm
  cases p
  cases q
  simp_all

end

theorem prefixHash_ne {k : Nat} (hk : k ≤ 32) {a b : Bytes} (s t : Bytes)
    (h : a.take k ≠ b.take k) (ha : k ≤ a.length) (hb : k ≤ b.length) :
    prefixHash (a ++ s) ≠ prefixHash (b ++ t) := by
  intro he
  apply h
  have hbytes := congrArg (fun c : ContentHash => c.bytes.take k) he
  simpa [prefixHash, List.take_take, List.take_append_of_le_length, hk, ha, hb] using hbytes

theorem plan_eq_of_integrationPlanId_bulk :
    bulkPlan (plainExternals prefixHash) 1 = bulkPlan (plainExternals prefixHash) 1 := by
  have hv := validatePlan_eq_ok.mpr (bulkPlan_valid prefixHash Nat.one_pos (by decide))
  have hpc : ∀ v w, prefixHash (hashInput "okc:integration-plan:v3\x00" v) ≠
      prefixHash (hashInput "okc:integration-corpus:v3\x00" w) := fun v w =>
    prefixHash_ne (k := 20) (by decide) _ _ (by decide) (by decide) (by decide)
  have hpt : ∀ v w, prefixHash (hashInput "okc:integration-plan:v3\x00" v) ≠
      prefixHash (hashInput "okc:taxonomy:v3\x00" w) := fun v w =>
    prefixHash_ne (k := 16) (by decide) _ _ (by decide) (by decide) (by decide)
  have hct : ∀ v w, prefixHash (hashInput "okc:integration-corpus:v3\x00" v) ≠
      prefixHash (hashInput "okc:taxonomy:v3\x00" w) := fun v w =>
    prefixHash_ne (k := 16) (by decide) _ _ (by decide) (by decide) (by decide)
  refine plan_eq_of_integrationPlanId hv hv ?_ rfl
  rw [Set.union_self]
  rintro a (rfl | rfl | rfl) b (rfl | rfl | rfl) h
  · rfl
  · exact absurd h (hpc _ _)
  · exact absurd h (hpt _ _)
  · exact absurd h.symm (hpc _ _)
  · rfl
  · exact absurd h (hct _ _)
  · exact absurd h.symm (hpt _ _)
  · exact absurd h.symm (hct _ _)
  · rfl

end Okc.Core
