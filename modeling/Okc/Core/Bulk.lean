import Okc.Core.Revision

/-!
# Valid plans of any size

`bulkPlan X n` is a plan over `n` documents of one block and one metadata value each, all in one
cluster that keeps them verbatim, whose hashes are the sealed ones. It passes validation for every
`0 < n ≤ 65536` and every hash function (`bulkPlan_valid`): nothing in the validator bounds the
number of documents. `bulkPlanAt X n revision recordings` is the same plan with its content proposed
as another revision and with other recordings.

`NoteContent` is what a provider may choose for the note of the one cluster: its path, sections,
links and contradictions. Content that passes the checks gives a valid plan (`notePlan_valid`).
-/

namespace Okc.Core

open Okc.Lib

/-- Normalisation and case folding on lowercase ASCII text, where both do nothing. -/
def plainExternals (sha256 : Bytes → ContentHash) : Externals := ⟨sha256, id, id⟩

/-- A hash that keeps the first 32 bytes of its input. -/
def prefixHash (bytes : Bytes) : ContentHash :=
  ⟨(bytes ++ List.replicate 32 0).take 32, by simp⟩

/-- The hash whose first two bytes spell `i`. -/
def indexHash (i : Nat) : ContentHash :=
  ⟨UInt8.ofNat (i / 256) :: UInt8.ofNat i :: List.replicate 30 0, rfl⟩

/-- The file name of document `i`. -/
def bulkName (i : Nat) : String := "note-" ++ hex [UInt8.ofNat (i / 256), UInt8.ofNat i] ++ ".md"

def bulkBlock (X : Externals) (i : Nat) : SourceBlock where
  blockId := ⟨indexHash i⟩
  contentHash := X.fromDomainBytes "okc:block-content:v3\x00" (utf8 "Kept as it is.")
  text := "Kept as it is."

def bulkMetadata (X : Externals) (i : Nat) : MetadataValue where
  metadataId := "metadata_" ++ (X.canonicalHash "okc:metadata-id:v3\x00"
    (metadataIdentity ⟨indexHash i⟩ "tag" 0 (.str "kept"))).hex
  key := "tag"
  valueIndex := 0
  contentHash := X.canonicalHash "okc:metadata-value:v3\x00"
    (metadataIdentity ⟨indexHash i⟩ "tag" 0 (.str "kept"))
  value := .str "kept"

def bulkDocument (X : Externals) (i : Nat) : IntegrationDocument where
  sourceId := ⟨"s"⟩
  documentId := ⟨indexHash i⟩
  originalPath := bulkName i
  documentHash := indexHash i
  blocks := [bulkBlock X i]
  metadata := [bulkMetadata X i]

def bulkCorpus (X : Externals) (n : Nat) : IntegrationCorpus where
  schemaVersion := integrationSchemaVersion
  corpusHash := X.canonicalHash "okc:integration-corpus:v3\x00"
    (documentsValue ((List.range n).map (bulkDocument X)))
  policyHash := indexHash 0
  documents := (List.range n).map (bulkDocument X)

def bulkCluster (n : Nat) : TaxonomyCluster where
  clusterId := "all"
  title := "All notes"
  canonicalPath := "all.md"
  documentIds := (List.range n).map fun i => ⟨indexHash i⟩

def bulkTaxonomy (X : Externals) (n : Nat) : TaxonomyProposal where
  schemaVersion := integrationSchemaVersion
  corpusHash := (bulkCorpus X n).corpusHash
  taxonomyHash := X.canonicalHash "okc:taxonomy:v3\x00"
    (taxonomyIdentity (bulkCorpus X n).corpusHash [bulkCluster n] (indexHash 0))
  clusters := [bulkCluster n]
  organizerRecordingHash := indexHash 0

def bulkTargets (X : Externals) (i : Nat) : List DispositionTarget :=
  [.ofBlock ⟨indexHash i⟩ (bulkBlock X i), .ofMetadata ⟨indexHash i⟩ (bulkMetadata X i)]

def bulkDispositions (X : Externals) (n : Nat) : List SourceDisposition :=
  ((List.range n).flatMap (bulkTargets X)).map fun t => ⟨t, .preservedVerbatim, none⟩

def bulkProposal (X : Externals) (n : Nat) : SynthesisProposal :=
  .seal X "all" (bulkTaxonomy X n).taxonomyHash 1 [] [] (bulkDispositions X n) [] (indexHash 0)

def bulkCritic (X : Externals) (n : Nat) : CriticReport :=
  .seal X "all" (bulkProposal X n).proposalHash [] (indexHash 0)

def bulkRevision (X : Externals) (n : Nat) : ApprovedClusterRevision where
  proposal := bulkProposal X n
  critic := bulkCritic X n
  approval := .approve X (bulkProposal X n) (bulkCritic X n) "curator" "1" [] []

def bulkApproval (X : Externals) (n : Nat) : ApprovalBinding where
  targetHash := (bulkTaxonomy X n).taxonomyHash
  approved := true
  curatorId := "curator"
  policyVersion := "1"
  rationale := none

def bulkPlan (X : Externals) (n : Nat) : ApprovedIntegrationPlan where
  formatFamily := "okc"
  schemaVersion := integrationSchemaVersion
  integrationPlanId := expectedPlanId X (planIdentity (bulkCorpus X n).corpusHash (indexHash 0)
    (bulkTaxonomy X n).taxonomyHash (bulkApproval X n) [bulkRevision X n] [indexHash 0])
  corpus := bulkCorpus X n
  taxonomy := bulkTaxonomy X n
  taxonomyApproval := bulkApproval X n
  clusters := [bulkRevision X n]
  providerRecordingHashes := [indexHash 0]

/-- The same content, proposed as another revision. -/
def reproposed (X : Externals) (r : ApprovedClusterRevision) (revision : Nat) :
    ApprovedClusterRevision :=
  let p := SynthesisProposal.seal X r.proposal.clusterId r.proposal.taxonomyHash revision
    r.proposal.sections r.proposal.relatedLinks r.proposal.dispositions r.proposal.contradictions
    r.proposal.synthesisRecordingHash
  let c := CriticReport.seal X p.clusterId p.proposalHash r.critic.findings
    r.critic.criticRecordingHash
  ⟨p, c, .approve X p c r.approval.curatorId r.approval.policyVersion r.approval.omissionApprovals
    r.approval.minorWaivers⟩

def bulkPlanAt (X : Externals) (n revision : Nat) (recordings : List ContentHash) :
    ApprovedIntegrationPlan where
  formatFamily := "okc"
  schemaVersion := integrationSchemaVersion
  integrationPlanId := expectedPlanId X (planIdentity (bulkCorpus X n).corpusHash (indexHash 0)
    (bulkTaxonomy X n).taxonomyHash (bulkApproval X n) [reproposed X (bulkRevision X n) revision]
    recordings)
  corpus := bulkCorpus X n
  taxonomy := bulkTaxonomy X n
  taxonomyApproval := bulkApproval X n
  clusters := [reproposed X (bulkRevision X n) revision]
  providerRecordingHashes := recordings

/-! ## The documents and their paths -/

theorem indexHash_lt {i j : Nat} (h : i < j) (hj : j < 65536) : indexHash i < indexHash j := by
  show (indexHash i).bytes.map UInt8.toNat < (indexHash j).bytes.map UInt8.toNat
  simp only [indexHash, List.map_cons, UInt8.toNat_ofNat']
  rw [List.cons_lt_cons_iff, List.cons_lt_cons_iff]
  omega

theorem bulkName_inj {i j : Nat} (hi : i < 65536) (hj : j < 65536) (h : bulkName i = bulkName j) :
    i = j := by
  have hx : UInt8.ofNat (i / 256) = UInt8.ofNat (j / 256) ∧ UInt8.ofNat i = UInt8.ofNat j := by
    simpa [bulkName] using h
  have h₁ := congrArg UInt8.toNat hx.1
  have h₂ := congrArg UInt8.toNat hx.2
  simp only [UInt8.toNat_ofNat'] at h₁ h₂
  omega

theorem toList_bulkName (i : Nat) : ∃ cs : List Char, cs.length = 4 ∧
    (∀ c ∈ cs, ∃ n < 16, c = hexDigit n) ∧
    (bulkName i).toList = "note-".toList ++ cs ++ ".md".toList := by
  refine ⟨hexChars [UInt8.ofNat (i / 256), UInt8.ofNat i], rfl, fun c hc => ?_, ?_⟩
  · simp only [hexChars, List.mem_cons, List.not_mem_nil, or_false] at hc
    obtain ⟨ha, hb⟩ := byte_halves_lt (UInt8.ofNat (i / 256))
    obtain ⟨ha', hb'⟩ := byte_halves_lt (UInt8.ofNat i)
    rcases hc with rfl | rfl | rfl | rfl
    · exact ⟨_, ha, rfl⟩
    · exact ⟨_, hb, rfl⟩
    · exact ⟨_, ha', rfl⟩
    · exact ⟨_, hb', rfl⟩
  · simp [bulkName, hex, String.toList_append]

theorem hexDigit_plain : ∀ n < 16,
    forbiddenChar (hexDigit n) = false ∧ hexDigit n ≠ '.' ∧ hexDigit n ≠ '/' := by
  decide

theorem reservedStems_short : ∀ s ∈ reservedStems, s.toList.length ≤ 4 := by
  decide

theorem len_bulkName (i : Nat) : len (bulkName i) = 12 := by
  have hn : len "note-" = 5 := by decide
  have hm : len ".md" = 3 := by decide
  simp only [len] at hn hm
  simp only [bulkName, len, String.utf8ByteSize_append, hn, hm]
  have hh := len_hex [UInt8.ofNat (i / 256), UInt8.ofNat i]
  simp only [len, List.length_cons, List.length_nil] at hh
  omega

theorem validateComponent_bulkName (i : Nat) :
    validateComponent .default (bulkName i) = .ok () := by
  obtain ⟨cs, hlen, hcs, htext⟩ := toList_bulkName i
  have hnote : ∀ c ∈ "note-".toList, forbiddenChar c = false := forall_of_all (by decide)
  have hmd : ∀ c ∈ ".md".toList, forbiddenChar c = false := forall_of_all (by decide)
  have hchars : ∀ c ∈ (bulkName i).toList, forbiddenChar c = false := by
    rw [htext]
    intro c hc
    rcases List.mem_append.mp hc with hc | hc
    · rcases List.mem_append.mp hc with hc | hc
      · exact hnote c hc
      · obtain ⟨n, hn, rfl⟩ := hcs c hc
        exact (hexDigit_plain n hn).1
    · exact hmd c hc
  have hstem : (stem (bulkName i)).toList.length = 9 := by
    have htake : (bulkName i).toList.takeWhile (· != '.') = "note-".toList ++ cs := by
      rw [htext, List.append_assoc, List.takeWhile_append_of_pos (forall_of_all (by decide)),
        List.takeWhile_append_of_pos]
      · simp
      · intro c hc
        obtain ⟨n, hn, rfl⟩ := hcs c hc
        simpa using (hexDigit_plain n hn).2.1
    simp [stem, asciiUpper, htake, hlen]
  have hends : (bulkName i).toList.getLast? = some 'd' := by
    rw [htext, List.getLast?_append]
    rfl
  have hne : ∀ s : String, s.toList.length < 12 → bulkName i ≠ s := by
    rintro s hs rfl
    rw [htext] at hs
    simp [hlen] at hs
  simp only [validateComponent, bind_unit_eq_ok, reject_eq_ok, not_or, hends, not_lt,
    List.any_eq_true, not_exists, not_and, len_bulkName]
  refine ⟨⟨hne _ (by decide), hne _ (by decide), hne _ (by decide), by decide, by decide,
    fun c hc => by simp [hchars c hc]⟩, by decide, fun hr => ?_⟩
  have := reservedStems_short _ hr
  omega

theorem portable_plain {sha256 : Bytes → ContentHash} {path : String} (parts : List String)
    (hpath : path = joinSlash parts) (hne : parts ≠ [])
    (hparts : ∀ c ∈ parts, validateComponent .default c = .ok ()) (hlen : len path ≤ 1024) :
    Portable (plainExternals sha256) path ∧ splitSlash path = parts := by
  have hsplit : splitSlash path = parts := by
    rw [hpath]
    exact splitSlash_joinSlash hne fun c hc => (validateComponent_nameOk (hparts c hc)).2
  have hid : parts.map (plainExternals sha256).nfc = parts := List.map_id parts
  refine ⟨⟨fun c hc => ?_, hlen, ?_⟩, hsplit⟩
  · rw [hsplit] at hc
    exact ⟨hparts c hc, hparts c hc⟩
  · rw [hsplit, hid, ← hpath]
    exact hlen

theorem stubPath_bulkDocument (sha256 : Bytes → ContentHash) (i : Nat) :
    Portable (plainExternals sha256) (bulkDocument (plainExternals sha256) i).stubPath ∧
      splitSlash (bulkDocument (plainExternals sha256) i).stubPath =
        ["legacy", "s", bulkName i] := by
  refine portable_plain _ ?_ (by simp) ?_ ?_
  · apply String.toList_inj.mp
    simp [joinSlash_cons_cons, joinSlash_singleton, IntegrationDocument.stubPath, bulkDocument]
  · simp only [List.mem_cons, List.not_mem_nil, or_false, forall_eq_or_imp, forall_eq]
    exact ⟨by decide, by decide, validateComponent_bulkName i⟩
  · have hl : len "legacy/" = 7 := by decide
    have hs : len "s" = 1 := by decide
    have hsl : len "/" = 1 := by decide
    have hn := len_bulkName i
    simp only [len] at hl hs hsl hn
    simp only [IntegrationDocument.stubPath, bulkDocument, len, String.utf8ByteSize_append, hl, hs,
      hsl, hn]
    decide

/-! ## Validity -/

theorem bounded_curator : Bounded "curator" 1 256 :=
  ⟨by decide, by decide, forall_of_all (by decide)⟩

theorem bounded_policy : Bounded "1" 1 256 :=
  ⟨by decide, by decide, forall_of_all (by decide)⟩

section

variable (sha256 : Bytes → ContentHash) {n : Nat}

theorem bulkMetadata_valid (i : Nat) :
    ValidMetadata (plainExternals sha256) ⟨indexHash i⟩
      (bulkMetadata (plainExternals sha256) i) where
  idBounded := by
    have hlen : ∀ h : ContentHash, len ("metadata_" ++ h.hex) = 73 := fun h => by
      have hm : len "metadata_" = 9 := by decide
      have hh := h.len_hex
      simp only [len] at hm hh
      simp only [len, String.utf8ByteSize_append, hm, hh]
    refine ⟨by rw [bulkMetadata, hlen]; decide, by rw [bulkMetadata, hlen]; decide, ?_⟩
    intro c hc
    rw [bulkMetadata, String.toList_append, List.mem_append] at hc
    rcases hc with hc | hc
    · have hm : ∀ c ∈ "metadata_".toList, isControl c = false :=
        forall_of_all (by decide)
      exact hm c hc
    · exact isControl_hex _ c hc
  keyBounded := by
    have htag : Bounded "tag" 1 1024 := ⟨by decide, by decide, forall_of_all (by decide)⟩
    exact htag
  metadataId := rfl
  contentHash := rfl

theorem bulkDocument_valid (i : Nat) :
    ValidDocument (plainExternals sha256) (bulkDocument (plainExternals sha256) i) where
  originalPath := by
    refine (portable_plain _ (joinSlash_singleton _).symm (by simp) ?_ ?_).1
    · intro c hc
      rw [List.mem_singleton.mp hc]
      exact validateComponent_bulkName i
    · show len (bulkName i) ≤ 1024
      rw [len_bulkName]
      decide
  sourceId := by
    show SourceId.new "s" = .ok ⟨"s"⟩
    decide
  blocksSorted := List.pairwise_singleton _ _
  block := by
    intro b hb
    rw [List.mem_singleton.mp hb]
    rfl
  metadataSorted := List.pairwise_singleton _ _
  slots := List.nodup_singleton _
  metadata := by
    intro m hm
    rw [List.mem_singleton.mp hm]
    exact bulkMetadata_valid sha256 i

theorem pairwise_range {R : Nat → Nat → Prop} (h : ∀ i j, i < j → j < n → R i j) :
    (List.range n).Pairwise R :=
  List.pairwise_lt_range.imp_of_mem fun _ hj hlt => h _ _ hlt (List.mem_range.mp hj)

theorem bulkCorpus_valid (hn : 0 < n) (hn' : n ≤ 65536) :
    ValidCorpus (plainExternals sha256) (bulkCorpus (plainExternals sha256) n) where
  schemaVersion := rfl
  nonempty := by
    have : List.range n ≠ [] := by simp; omega
    simpa [bulkCorpus] using this
  corpusHash := rfl
  sorted := by
    simp only [bulkCorpus, List.map_map, List.pairwise_map]
    exact pairwise_range fun i j hij hj => indexHash_lt hij (by omega)
  document := by
    intro d hd
    obtain ⟨i, -, rfl⟩ := List.mem_map.mp hd
    exact bulkDocument_valid sha256 i
  outputPaths := by
    have hfold : Function.Injective (plainExternals sha256).fullCasefoldNfc := fun _ _ h => h
    refine insertable_of_apart hfold (fun p hp => ?_) ?_
    · simp only [bulkCorpus, List.map_map, List.mem_map] at hp
      obtain ⟨i, -, rfl⟩ := hp
      exact (stubPath_bulkDocument sha256 i).1
    · simp only [bulkCorpus, List.map_map, List.pairwise_map]
      refine pairwise_range fun i j hij hj => ?_
      have hne : bulkName i ≠ bulkName j := fun h => by
        have := bulkName_inj (by omega) (by omega) h
        omega
      simp only [Apart, Function.comp_apply, (stubPath_bulkDocument sha256 _).2,
        List.cons_prefix_cons, true_and, List.prefix_refl, and_true]
      exact ⟨hne, Ne.symm hne⟩
  sourcePaths := by
    simp only [bulkCorpus, List.map_map, List.Nodup, List.pairwise_map]
    refine pairwise_range fun i j hij hj h => ?_
    have := bulkName_inj (by omega) (by omega) (congrArg Prod.snd h)
    omega

theorem bulkCluster_valid (hn : 0 < n) (hn' : n ≤ 65536) :
    ValidCluster (plainExternals sha256)
      (knownDocuments (bulkCorpus (plainExternals sha256) n)) (bulkCluster n) where
  idBounded := by simp [Bounded, bulkCluster]; decide
  titleBounded := by simp [Bounded, bulkCluster]; decide
  canonicalPath := by
    have hname : validateComponent .default "all.md" = .ok () := by decide
    have hlen : len "all.md" ≤ 1024 := by decide
    exact (portable_plain _ (joinSlash_singleton "all.md").symm (by simp) (by simpa using hname)
      hlen).1
  markdown := by
    show ".md".toList <:+ (asciiLower "all.md").toList
    decide
  nonempty := by
    have : List.range n ≠ [] := by simp; omega
    simpa [bulkCluster] using this
  sorted := by
    simp only [bulkCluster, List.pairwise_map]
    exact pairwise_range fun i j hij hj => indexHash_lt hij (by omega)
  known := by
    intro d hd
    obtain ⟨i, hi, rfl⟩ := List.mem_map.mp hd
    simp only [knownDocuments, bulkCorpus, List.map_map]
    exact List.mem_map.mpr ⟨i, hi, rfl⟩

theorem bulkTaxonomy_valid (hn : 0 < n) (hn' : n ≤ 65536) :
    ValidTaxonomy (plainExternals sha256) (bulkCorpus (plainExternals sha256) n)
      (bulkTaxonomy (plainExternals sha256) n) where
  schemaVersion := rfl
  corpusHash := rfl
  taxonomyHash := rfl
  cluster := by
    intro c hc
    rw [List.mem_singleton.mp hc]
    exact bulkCluster_valid sha256 hn hn'
  sorted := List.pairwise_singleton _ _
  outputPaths := by
    have hfold : Function.Injective (plainExternals sha256).fullCasefoldNfc := fun _ _ h => h
    refine insertable_of_apart hfold (fun p hp => ?_) (List.pairwise_singleton _ _)
    have hp := List.mem_singleton.mp hp
    have hparts : ∀ c ∈ ["knowledge", "all.md"], validateComponent .default c = .ok () := by
      decide
    have hlen : len "knowledge/all.md" ≤ 1024 := by decide
    rw [hp]
    exact (portable_plain ["knowledge", "all.md"] (by decide) (by simp) hparts hlen).1
  disjoint := by
    simp only [bulkTaxonomy, List.flatMap_cons, List.flatMap_nil, List.append_nil]
    exact (bulkCluster_valid sha256 hn hn').sorted.imp ne_of_lt
  covers := by
    intro d hd
    obtain ⟨i, hi, rfl⟩ := List.mem_map.mp hd
    exact ⟨bulkCluster n, List.mem_singleton_self _, List.mem_map.mpr ⟨i, hi, rfl⟩⟩

theorem nodup_bulkTargets (hn' : n ≤ 65536) :
    ((List.range n).flatMap (bulkTargets (plainExternals sha256))).Nodup := by
  refine List.nodup_flatMap.mpr ⟨fun i _ => by simp [bulkTargets, DispositionTarget.ofBlock,
    DispositionTarget.ofMetadata], pairwise_range fun i j hij hj => ?_⟩
  intro t hi hj'
  have hdoc : ∀ {k}, t ∈ bulkTargets (plainExternals sha256) k → t.documentId = ⟨indexHash k⟩ := by
    intro k hk
    simp only [bulkTargets, List.mem_cons, List.not_mem_nil, or_false] at hk
    rcases hk with rfl | rfl <;> rfl
  have heq : indexHash i = indexHash j :=
    congrArg DocumentId.hash ((hdoc hi).symm.trans (hdoc hj'))
  exact absurd (heq ▸ indexHash_lt hij (by omega)) (lt_irrefl _)

theorem mem_bulkTargets (hn : 0 < n) (hn' : n ≤ 65536) {t : DispositionTarget} :
    t ∈ (List.range n).flatMap (bulkTargets (plainExternals sha256)) ↔
      t ∈ expectedTargets (clusterDocuments (bulkCorpus (plainExternals sha256) n)
        (bulkCluster n)) := by
  rw [mem_expectedTargets (bulkCorpus_valid sha256 hn hn'), List.mem_flatMap]
  constructor
  · rintro ⟨i, hi, ht⟩
    refine ⟨bulkDocument _ i, List.mem_map_of_mem hi, List.mem_map.mpr ⟨i, hi, rfl⟩, ?_⟩
    simp only [bulkTargets, List.mem_cons, List.not_mem_nil, or_false] at ht
    exact ht.imp (fun ht => ⟨_, List.mem_singleton_self _, ht.symm⟩)
      fun ht => ⟨_, List.mem_singleton_self _, ht.symm⟩
  · rintro ⟨d, hd, -, ht⟩
    obtain ⟨i, hi, rfl⟩ := List.mem_map.mp hd
    refine ⟨i, hi, ?_⟩
    simp only [bulkTargets, List.mem_cons, List.not_mem_nil, or_false]
    refine ht.imp ?_ ?_
    · rintro ⟨b, hb, rfl⟩
      rw [List.mem_singleton.mp hb]
      rfl
    · rintro ⟨m, hm, rfl⟩
      rw [List.mem_singleton.mp hm]
      rfl

theorem target_bulkDispositions :
    (bulkDispositions (plainExternals sha256) n).map SourceDisposition.target =
      (List.range n).flatMap (bulkTargets (plainExternals sha256)) := by
  rw [bulkDispositions, List.map_map]
  exact List.map_id _

theorem kept_of_mem {d : SourceDisposition}
    (hd : d ∈ bulkDispositions (plainExternals sha256) n) : d.disposition = .preservedVerbatim := by
  obtain ⟨t, -, rfl⟩ := List.mem_map.mp hd
  rfl

theorem bulkRevision_valid (hn : 0 < n) (hn' : n ≤ 65536) :
    ValidRevision (plainExternals sha256) (bulkCorpus (plainExternals sha256) n)
      (bulkTaxonomy (plainExternals sha256) n) (bulkCluster n) [indexHash 0]
      (bulkRevision (plainExternals sha256) n) where
  proposal :=
    { schemaVersion := rfl
      clusterId := rfl
      taxonomyHash := rfl
      proposalHash := rfl
      distinct := by
        show ((bulkDispositions (plainExternals sha256) n).map SourceDisposition.target).Nodup
        rw [target_bulkDispositions]
        exact nodup_bulkTargets sha256 hn'
      targets := fun t => by
        show t ∈ (bulkDispositions (plainExternals sha256) n).map SourceDisposition.target ↔ _
        rw [target_bulkDispositions]
        exact mem_bulkTargets sha256 hn hn'
      rationale := fun d hd homit => by
        rw [kept_of_mem sha256 hd] at homit
        cases homit
      sectionIds := List.nodup_nil
      sections := fun s hs => absurd hs List.not_mem_nil
      integrated := fun t ht => by
        obtain ⟨d, hd, -⟩ := List.mem_map.mp ht
        obtain ⟨hd, hkind⟩ := List.mem_filter.mp hd
        simp [kept_of_mem sha256 hd] at hkind
      links := fun l hl => absurd hl List.not_mem_nil
      contradictionIds := List.nodup_nil
      contradictions := fun c hc => absurd hc List.not_mem_nil }
  report :=
    { schemaVersion := rfl
      clusterId := rfl
      proposalHash := rfl
      criticHash := rfl
      findingIds := List.nodup_nil
      findings := fun f hf => absurd hf List.not_mem_nil }
  approval :=
    { omissionsDistinct := List.nodup_nil
      omissions := fun t => by
        refine ⟨fun ht => absurd ht List.not_mem_nil, fun ht => ?_⟩
        obtain ⟨d, hd, -⟩ := List.mem_map.mp ht
        obtain ⟨hd, hkind⟩ := List.mem_filter.mp hd
        simp [kept_of_mem sha256 hd] at hkind
      omissionBounds := fun o ho => absurd ho List.not_mem_nil
      resolved := fun f hf => absurd hf List.not_mem_nil
      waiversDistinct := List.nodup_nil
      waivers := fun _ => Iff.rfl
      waiverBounds := fun w hw => absurd hw List.not_mem_nil
      approved := rfl
      clusterId := rfl
      taxonomyHash := rfl
      proposalHash := rfl
      criticHash := rfl
      curatorBounded := bounded_curator
      policyBounded := bounded_policy
      revisionHash := rfl }
  synthesisRecording := List.mem_singleton_self _
  criticRecording := List.mem_singleton_self _

/-- **Plans of any number of documents are valid.** -/
theorem bulkPlan_valid (hn : 0 < n) (hn' : n ≤ 65536) :
    ValidPlan (plainExternals sha256) (bulkPlan (plainExternals sha256) n) where
  formatFamily := rfl
  schemaVersion := rfl
  corpus := bulkCorpus_valid sha256 hn hn'
  taxonomy := bulkTaxonomy_valid sha256 hn hn'
  approved := rfl
  targetHash := rfl
  curatorBounded := bounded_curator
  policyBounded := bounded_policy
  rationale := rfl
  recorded := by simp [bulkPlan]
  recordingsDistinct := List.nodup_singleton _
  organizer := List.mem_singleton_self _
  complete := rfl
  revisionsDistinct := List.nodup_singleton _
  revision := by
    intro r hr
    rw [List.mem_singleton.mp hr]
    exact ⟨bulkCluster n, List.mem_singleton_self _, bulkRevision_valid sha256 hn hn'⟩
  planId := rfl

/-- **The number of a revision is free.** -/
theorem ValidRevision.reproposed {X : Externals} {corpus : IntegrationCorpus}
    {taxonomy : TaxonomyProposal} {cluster : TaxonomyCluster} {recordings : List ContentHash}
    {r : ApprovedClusterRevision} (h : ValidRevision X corpus taxonomy cluster recordings r)
    (revision : Nat) :
    ValidRevision X corpus taxonomy cluster recordings (reproposed X r revision) where
  proposal :=
    { h.proposal with
      schemaVersion := rfl
      proposalHash := rfl }
  report :=
    { h.report with
      schemaVersion := rfl
      clusterId := rfl
      proposalHash := rfl
      criticHash := rfl }
  approval :=
    { h.approval with
      approved := rfl
      clusterId := rfl
      taxonomyHash := rfl
      proposalHash := rfl
      criticHash := rfl
      revisionHash := rfl }
  synthesisRecording := h.synthesisRecording
  criticRecording := h.criticRecording

theorem bulkPlanAt_valid (hn : 0 < n) (hn' : n ≤ 65536) (revision : Nat)
    {recordings : List ContentHash} (hrec : indexHash 0 ∈ recordings) (hnd : recordings.Nodup) :
    ValidPlan (plainExternals sha256)
      (bulkPlanAt (plainExternals sha256) n revision recordings) where
  formatFamily := rfl
  schemaVersion := rfl
  corpus := bulkCorpus_valid sha256 hn hn'
  taxonomy := bulkTaxonomy_valid sha256 hn hn'
  approved := rfl
  targetHash := rfl
  curatorBounded := bounded_curator
  policyBounded := bounded_policy
  rationale := rfl
  recorded := List.ne_nil_of_mem hrec
  recordingsDistinct := hnd
  organizer := hrec
  complete := rfl
  revisionsDistinct := List.nodup_singleton _
  revision := by
    intro r hr
    rw [List.mem_singleton.mp hr]
    have h := (bulkRevision_valid sha256 hn hn').reproposed revision
    exact ⟨bulkCluster n, List.mem_singleton_self _,
      h.proposal, h.report, h.approval, hrec, hrec⟩
  planId := rfl

end

/-! ## Any content of the note -/

/-- What a provider chooses for the note of the bulk plan's cluster. -/
structure NoteContent where
  path : String
  sections : List SynthesisSection
  links : List RelatedLink
  contradictions : List ContradictionSet

section

variable (X : Externals) (n : Nat) (note : NoteContent)

def noteCluster : TaxonomyCluster where
  clusterId := "all"
  title := "All notes"
  canonicalPath := note.path
  documentIds := (List.range n).map fun i => ⟨indexHash i⟩

def noteTaxonomy : TaxonomyProposal where
  schemaVersion := integrationSchemaVersion
  corpusHash := (bulkCorpus X n).corpusHash
  taxonomyHash := X.canonicalHash "okc:taxonomy:v3\x00"
    (taxonomyIdentity (bulkCorpus X n).corpusHash [noteCluster n note] (indexHash 0))
  clusters := [noteCluster n note]
  organizerRecordingHash := indexHash 0

def noteProposal : SynthesisProposal :=
  .seal X "all" (noteTaxonomy X n note).taxonomyHash 1 note.sections note.links
    (bulkDispositions X n) note.contradictions (indexHash 0)

def noteCritic : CriticReport :=
  .seal X "all" (noteProposal X n note).proposalHash [] (indexHash 0)

def noteRevision : ApprovedClusterRevision where
  proposal := noteProposal X n note
  critic := noteCritic X n note
  approval := .approve X (noteProposal X n note) (noteCritic X n note) "curator" "1" [] []

def noteApproval : ApprovalBinding where
  targetHash := (noteTaxonomy X n note).taxonomyHash
  approved := true
  curatorId := "curator"
  policyVersion := "1"
  rationale := none

def notePlan : ApprovedIntegrationPlan where
  formatFamily := "okc"
  schemaVersion := integrationSchemaVersion
  integrationPlanId := expectedPlanId X (planIdentity (bulkCorpus X n).corpusHash (indexHash 0)
    (noteTaxonomy X n note).taxonomyHash (noteApproval X n note) [noteRevision X n note]
    [indexHash 0])
  corpus := bulkCorpus X n
  taxonomy := noteTaxonomy X n note
  taxonomyApproval := noteApproval X n note
  clusters := [noteRevision X n note]
  providerRecordingHashes := [indexHash 0]

/-- The documents of the cluster, as the revision validator sees them. -/
def noteSources : List (DocumentId × IntegrationDocument) :=
  clusterDocuments (bulkCorpus X n) (bulkCluster n)

/-- The block of the first bulk document, cited. -/
def bulkCitation : SectionEvidence where
  documentId := ⟨indexHash 0⟩
  blockId := (bulkBlock X 0).blockId
  contentHash := (bulkBlock X 0).contentHash

theorem evidenceOk_bulkCitation : EvidenceOk (noteSources X 1) [bulkCitation X] := by
  refine ⟨List.nodup_singleton _, fun item hitem => ?_⟩
  rw [List.mem_singleton.mp hitem]
  exact ⟨bulkDocument X 0, rfl, bulkBlock X 0, List.mem_singleton_self _, rfl, rfl⟩

/-- Content that passes the validators. -/
structure NoteContent.Ok : Prop where
  path : Portable X note.path
  notePath : Portable X ("knowledge/" ++ note.path)
  markdown : ".md".toList <:+ (asciiLower note.path).toList
  sectionIds : (note.sections.map SynthesisSection.sectionId).Nodup
  sections : ∀ s ∈ note.sections, ValidSection (noteSources X n) s
  links : ∀ l ∈ note.links, l.targetClusterId = "all" ∧ EvidenceOk (noteSources X n) l.evidence
  contradictionIds : (note.contradictions.map ContradictionSet.contradictionId).Nodup
  contradictions : ∀ c ∈ note.contradictions, ValidContradiction (noteSources X n) c

end

section

variable {sha256 : Bytes → ContentHash} {n : Nat} {note : NoteContent}

/-- One name that the component rules accept is a path for the note. -/
theorem portable_note (name : String) (h : validateComponent .default name = .ok ())
    (hlen : len name ≤ 1014) :
    Portable (plainExternals sha256) name ∧
      Portable (plainExternals sha256) ("knowledge/" ++ name) := by
  have hroot : validateComponent .default "knowledge" = .ok () := by decide
  have hlong : len ("knowledge/" ++ name) ≤ 1024 := by
    have hstart : len "knowledge/" = 10 := by decide
    rw [len, String.utf8ByteSize_append, ← len, ← len, hstart]
    omega
  refine ⟨(portable_plain [name] (joinSlash_singleton name).symm (by simp) (by simpa using h)
    (by omega)).1, (portable_plain ["knowledge", name] ?_ (by simp) ?_ hlong).1⟩
  · rw [joinSlash_cons_cons, joinSlash_singleton]
    rfl
  · rintro c (_ | ⟨_, _ | ⟨_, ⟨⟩⟩⟩)
    · exact hroot
    · exact h

theorem noteTaxonomy_valid (hn : 0 < n) (hn' : n ≤ 65536)
    (h : note.Ok (plainExternals sha256) n) :
    ValidTaxonomy (plainExternals sha256) (bulkCorpus (plainExternals sha256) n)
      (noteTaxonomy (plainExternals sha256) n note) where
  schemaVersion := rfl
  corpusHash := rfl
  taxonomyHash := rfl
  cluster := by
    intro c hc
    rw [List.mem_singleton.mp hc]
    have hb := bulkCluster_valid sha256 hn hn'
    exact ⟨hb.idBounded, hb.titleBounded, h.path, h.markdown, hb.nonempty, hb.sorted, hb.known⟩
  sorted := List.pairwise_singleton _ _
  outputPaths := by
    have hfold : Function.Injective (plainExternals sha256).fullCasefoldNfc := fun _ _ h => h
    refine insertable_of_apart hfold (fun p hp => ?_) (List.pairwise_singleton _ _)
    rw [List.mem_singleton.mp hp]
    exact h.notePath
  disjoint := by
    simp only [noteTaxonomy, List.flatMap_cons, List.flatMap_nil, List.append_nil]
    exact (bulkCluster_valid sha256 hn hn').sorted.imp ne_of_lt
  covers := by
    intro d hd
    obtain ⟨i, hi, rfl⟩ := List.mem_map.mp hd
    exact ⟨noteCluster n note, List.mem_singleton_self _, List.mem_map.mpr ⟨i, hi, rfl⟩⟩

theorem noteRevision_valid (hn : 0 < n) (hn' : n ≤ 65536)
    (h : note.Ok (plainExternals sha256) n) :
    ValidRevision (plainExternals sha256) (bulkCorpus (plainExternals sha256) n)
      (noteTaxonomy (plainExternals sha256) n note) (noteCluster n note) [indexHash 0]
      (noteRevision (plainExternals sha256) n note) := by
  refine ⟨?_, ?_, ?_, List.mem_singleton_self _, List.mem_singleton_self _⟩
  · exact {
      schemaVersion := rfl
      clusterId := rfl
      taxonomyHash := rfl
      proposalHash := rfl
      distinct := by
        show ((bulkDispositions (plainExternals sha256) n).map SourceDisposition.target).Nodup
        rw [target_bulkDispositions]
        exact nodup_bulkTargets sha256 hn'
      targets := fun t => by
        show t ∈ (bulkDispositions (plainExternals sha256) n).map SourceDisposition.target ↔ _
        rw [target_bulkDispositions]
        exact mem_bulkTargets sha256 hn hn'
      rationale := fun d hd homit => by
        rw [kept_of_mem sha256 hd] at homit
        cases homit
      sectionIds := h.sectionIds
      sections := h.sections
      integrated := fun t ht => by
        obtain ⟨d, hd, -⟩ := List.mem_map.mp ht
        obtain ⟨hd, hkind⟩ := List.mem_filter.mp hd
        simp [kept_of_mem sha256 hd] at hkind
      links := fun l hl => ⟨by rw [(h.links l hl).1]; exact List.mem_singleton_self _,
        (h.links l hl).2⟩
      contradictionIds := h.contradictionIds
      contradictions := h.contradictions }
  · exact ⟨rfl, rfl, rfl, rfl, List.nodup_nil, fun f hf => absurd hf List.not_mem_nil⟩
  · exact {
      omissionsDistinct := List.nodup_nil
      omissions := fun t => by
        refine ⟨fun ht => absurd ht List.not_mem_nil, fun ht => ?_⟩
        obtain ⟨d, hd, -⟩ := List.mem_map.mp ht
        obtain ⟨hd, hkind⟩ := List.mem_filter.mp hd
        simp [kept_of_mem sha256 hd] at hkind
      omissionBounds := fun o ho => absurd ho List.not_mem_nil
      resolved := fun f hf => absurd hf List.not_mem_nil
      waiversDistinct := List.nodup_nil
      waivers := fun _ => Iff.rfl
      waiverBounds := fun w hw => absurd hw List.not_mem_nil
      approved := rfl
      clusterId := rfl
      taxonomyHash := rfl
      proposalHash := rfl
      criticHash := rfl
      curatorBounded := bounded_curator
      policyBounded := bounded_policy
      revisionHash := rfl }

/-- **Checked content gives a valid plan.** -/
theorem notePlan_valid (hn : 0 < n) (hn' : n ≤ 65536) (h : note.Ok (plainExternals sha256) n) :
    ValidPlan (plainExternals sha256) (notePlan (plainExternals sha256) n note) where
  formatFamily := rfl
  schemaVersion := rfl
  corpus := bulkCorpus_valid sha256 hn hn'
  taxonomy := noteTaxonomy_valid hn hn' h
  approved := rfl
  targetHash := rfl
  curatorBounded := bounded_curator
  policyBounded := bounded_policy
  rationale := rfl
  recorded := by simp [notePlan]
  recordingsDistinct := List.nodup_singleton _
  organizer := List.mem_singleton_self _
  complete := rfl
  revisionsDistinct := List.nodup_singleton _
  revision := by
    intro r hr
    rw [List.mem_singleton.mp hr]
    exact ⟨noteCluster n note, List.mem_singleton_self _, noteRevision_valid hn hn' h⟩
  planId := rfl

end

end Okc.Core
