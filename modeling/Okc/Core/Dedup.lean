import Okc.Core.Parse

/-!
# Duplicate documents (`dedup.rs`)

Documents with equal body and frontmatter hashes form an exact group, represented by its least
member; the representatives are compared by MinHash signatures. A similarity is a number of equal
components over 128, which an `f64` holds exactly, and is a rational here.

* `represents_representativeMap`: every document has a representative, which represents itself.
* `nearCandidates_pairs`: no pair is a candidate twice.
-/

namespace Okc.Core

open Okc.Lib

structure ExactDuplicateGroup where
  canonical : DocumentId
  members : List DocumentId
  bodyHash : ContentHash
  frontmatterHash : ContentHash

structure NearDuplicateCandidate where
  left : DocumentId
  right : DocumentId
  estimatedSimilarity : ℚ

structure DedupReport where
  exactGroups : List ExactDuplicateGroup
  nearCandidates : List NearDuplicateCandidate
  truncatedDocuments : List DocumentId

/-! ## Near duplicates -/

/-- `windows(5)`, each concatenated. -/
def shingles (graphemes : List String) : List String :=
  (List.range (graphemes.length - 4)).map fun i => concat ((graphemes.drop i).take 5)

/-- `minhash_signature`: for each component the least leading `u64` of the shingles' hashes. -/
def minhashSignature (X : Externals) (graphemes : List String) (components : Nat) : List Nat :=
  (List.range components).map fun component =>
    (shingles graphemes).foldl (fun minimum shingle =>
      let hash := X.fromParts "okc:minhash:v2\x00"
        [[24, 16, 8, 0].map fun shift => (component >>> shift).toUInt8, utf8 shingle]
      min minimum ((hash.bytes.take 8).foldl (fun n byte => n * 256 + byte.toNat) 0)) (2 ^ 64 - 1)

/-- What pairing has gathered: the pairs, how many each document is in, and the documents whose
pairs were cut off. -/
structure PairState where
  pairs : List (DocumentId × DocumentId)
  counts : List (DocumentId × Nat)
  truncated : List DocumentId

def orderedPair (left right : DocumentId) : DocumentId × DocumentId :=
  if left ≤ right then (left, right) else (right, left)

/-- `counts.get(&id).copied().unwrap_or_default()`. -/
def PairState.count (s : PairState) (id : DocumentId) : Nat := (get? id s.counts).getD 0

/-- A pair that both documents have room for. -/
def PairState.insertPair (s : PairState) (left right : DocumentId) : PairState :=
  let pair := orderedPair left right
  if pair ∈ s.pairs then s
  else
    let counts := insertKey left (s.count left + 1) s.counts
    { s with
      pairs := s.pairs ++ [pair]
      counts := insertKey right ((get? right counts).getD 0 + 1) counts }

/-- The inner loop of `add_bounded_pairs`. -/
def pairWith (pairLimit : Nat) (left : DocumentId) : List DocumentId → PairState → PairState
  | [], s => s
  | right :: rest, s =>
    if pairLimit ≤ s.count left then { s with truncated := s.truncated ++ [left] }
    else if pairLimit ≤ s.count right then
      pairWith pairLimit left rest { s with truncated := s.truncated ++ [right] }
    else pairWith pairLimit left rest (s.insertPair left right)

/-- `add_bounded_pairs`. -/
def addBoundedPairs (pairLimit : Nat) : List DocumentId → PairState → PairState
  | [], s => s
  | left :: rest, s => addBoundedPairs pairLimit rest (pairWith pairLimit left rest s)

/-- The similarity of a pair: signatures by equal components, short texts are equal. -/
def pairSimilarity (signatures : List (DocumentId × List Nat)) (components : Nat)
    (pair : DocumentId × DocumentId) : ℚ :=
  match get? pair.1 signatures, get? pair.2 signatures with
  | some left, some right =>
    (((left.zip right).filter fun c => c.1 = c.2).length : ℚ) / (components : ℚ)
  | _, _ => 1

/-- `scored.sort_by(..)`: by falling similarity, then by the pair. -/
def NearDuplicateCandidate.key (c : NearDuplicateCandidate) : ℚ ×ₗ DocumentId ×ₗ DocumentId :=
  toLex (-c.estimatedSimilarity, toLex (c.left, c.right))

/-- The accepting loop: the candidates kept, and the documents of those that were not. -/
def acceptCandidates (limit : Nat) : List (DocumentId × Nat) → List NearDuplicateCandidate →
    List NearDuplicateCandidate × List DocumentId
  | _, [] => ([], [])
  | accepted, c :: rest =>
    if limit ≤ (get? c.left accepted).getD 0 ∨ limit ≤ (get? c.right accepted).getD 0 then
      let (kept, truncated) := acceptCandidates limit accepted rest
      (kept, c.left :: c.right :: truncated)
    else
      let accepted := insertKey c.left ((get? c.left accepted).getD 0 + 1) accepted
      let accepted := insertKey c.right ((get? c.right accepted).getD 0 + 1) accepted
      let (kept, truncated) := acceptCandidates limit accepted rest
      (c :: kept, truncated)

section Near

variable (X : Crates) (policy : DedupPolicy) (documents : List Document)

/-- The signatures of the documents with five graphemes or more. -/
def signatures : List (DocumentId × List Nat) :=
  collect ((documents.filter fun d => 5 ≤ (X.graphemes d.comparisonText).length).map fun d =>
    (d.documentId, minhashSignature X.toExternals (X.graphemes d.comparisonText)
      policy.minhashComponents))

/-- The other documents, by text. -/
def shortTexts : List (String × List DocumentId) :=
  groups ((documents.filter fun d => (X.graphemes d.comparisonText).length < 5).map fun d =>
    (d.comparisonText, d.documentId))

/-- The members of each bucket: a band and its rows of a signature. -/
def uniqueBuckets : List (List DocumentId) :=
  sortedSet ((groups ((signatures X policy documents).flatMap fun entry =>
    (List.range policy.lshBands).map fun band =>
      (toLex (band, (entry.2.drop (band * policy.rowsPerBand)).take policy.rowsPerBand),
        entry.1))).map Prod.snd)

/-- The pairs of documents that share a bucket or a short text. -/
def candidatePairs : PairState :=
  let pairLimit := max (policy.maxCandidatesPerDocument * 4) 1
  let members := uniqueBuckets X policy documents ++ (shortTexts X documents).map Prod.snd
  members.foldl (fun s ids => addBoundedPairs pairLimit ids s) ⟨[], [], []⟩

/-- The pairs that reach the threshold, most similar first. -/
def scoredCandidates : List NearDuplicateCandidate :=
  let scored := (candidatePairs X policy documents).pairs.map fun pair =>
    NearDuplicateCandidate.mk pair.1 pair.2
      (pairSimilarity (signatures X policy documents) policy.minhashComponents pair)
  (scored.filter fun c => decide (policy.nearThreshold ≤ c.estimatedSimilarity)).mergeSort
    fun a b => decide (a.key ≤ b.key)

/-- `near_candidates`. -/
def nearCandidates : List NearDuplicateCandidate × List DocumentId :=
  let (kept, truncated) := acceptCandidates policy.maxCandidatesPerDocument []
    (scoredCandidates X policy documents)
  (kept, sortedSet ((candidatePairs X policy documents).truncated ++ truncated))

end Near

/-! ## Exact duplicates -/

/-- The hashes that exact duplicates share. -/
def Document.bodyKey (d : Document) : ContentHash ×ₗ ContentHash :=
  toLex (d.bodyHash, d.frontmatterHash)

/-- `canonical_tuple`. -/
def Document.canonicalTuple (d : Document) : String ×ₗ String ×ₗ SnapshotId ×ₗ DocumentId :=
  toLex (d.sourceFile.logicalPath, toLex (d.sourceFile.sourceId.value,
    toLex (d.sourceFile.snapshotId, d.documentId)))

/-- The documents of each pair of hashes, least first. -/
def exactMap (documents : List Document) : List ((ContentHash ×ₗ ContentHash) × List Document) :=
  (groups (documents.map fun d => (d.bodyKey, d))).map fun group =>
    (group.1, group.2.mergeSort fun a b => decide (a.canonicalTuple ≤ b.canonicalTuple))

/-- The exact group of the documents that share two hashes. -/
def exactGroup (group : (ContentHash ×ₗ ContentHash) × List Document) :
    Option ExactDuplicateGroup :=
  match group.2 with
  | first :: second :: rest => some {
      canonical := first.documentId
      members := (first :: second :: rest).map Document.documentId
      bodyHash := (ofLex group.1).1
      frontmatterHash := (ofLex group.1).2 }
  | _ => none

/-- The first document of each group stands for it. -/
def representatives (documents : List Document) : List Document :=
  documents.filter fun d => (exactMap documents).any fun group =>
    group.2.head?.any fun first => decide (first.documentId = d.documentId)

/-- `analyze`. -/
def analyze (X : Crates) (documents : List Document) (policy : DedupPolicy) :
    Except OkcError DedupReport := do
  reject (policy.minhashComponents = 0 ∨ policy.lshBands = 0 ∨ policy.rowsPerBand = 0 ∨
      policy.lshBands * policy.rowsPerBand ≠ policy.minhashComponents ∨
      2 ^ 32 ≤ policy.minhashComponents ∨
      ¬ (0 ≤ policy.nearThreshold ∧ policy.nearThreshold ≤ 1))
    (.invalidConfig "invalid MinHash/LSH deduplication policy")
  let exactGroups := ((exactMap documents).filterMap exactGroup).mergeSort fun a b =>
    decide (a.canonical ≤ b.canonical)
  let (nearCandidates, truncated) := nearCandidates X policy (representatives documents)
  .ok ⟨exactGroups, nearCandidates, truncated⟩

/-- `representative_map`: every document stands for itself, except the members of a group. -/
def representativeMap (w : CanonicalWorkspace) (exactGroups : List ExactDuplicateGroup) :
    List (DocumentId × DocumentId) :=
  collect (w.documents.map (fun e => (e.1, e.1)) ++
    exactGroups.flatMap fun group => group.members.map fun member => (member, group.canonical))

/-! ### Representatives -/

/-- The documents of a workspace are stored under their own identities. -/
structure DocumentsKeyed (w : CanonicalWorkspace) : Prop where
  sorted : Sorted w.documents
  key : ∀ e ∈ w.documents, e.2.documentId = e.1

/-- The members of an exact group are the documents with its hashes, its canonical the least. -/
structure GroupOf (documents : List Document) (group : ExactDuplicateGroup) : Prop where
  member : ∀ m, m ∈ group.members ↔ ∃ d ∈ documents, d.documentId = m ∧
    d.bodyKey = toLex (group.bodyHash, group.frontmatterHash)
  canonical : ∃ c ∈ documents, c.documentId = group.canonical ∧
    c.bodyKey = toLex (group.bodyHash, group.frontmatterHash) ∧
    ∀ d ∈ documents, d.bodyKey = toLex (group.bodyHash, group.frontmatterHash) →
      c.canonicalTuple ≤ d.canonicalTuple

theorem mem_exactMap {documents : List Document}
    {group : (ContentHash ×ₗ ContentHash) × List Document} (h : group ∈ exactMap documents)
    {d : Document} : d ∈ group.2 ↔ d ∈ documents ∧ d.bodyKey = group.1 := by
  obtain ⟨⟨key, ds⟩, hmem, rfl⟩ := List.mem_map.mp h
  obtain ⟨rfl, -⟩ := mem_groups.mp hmem
  rw [List.mem_mergeSort, mem_valuesOf, List.mem_map]
  constructor
  · rintro ⟨e, he, heq⟩
    cases heq
    exact ⟨he, rfl⟩
  · rintro ⟨hd, hkey⟩
    exact ⟨d, hd, by rw [hkey]⟩

theorem groupOf_exactGroup {documents : List Document}
    {entry : (ContentHash ×ₗ ContentHash) × List Document} (h : entry ∈ exactMap documents)
    {group : ExactDuplicateGroup} (hg : exactGroup entry = some group) :
    GroupOf documents group := by
  obtain ⟨key, ds⟩ := entry
  match ds, h, hg with
  | first :: second :: rest, h, hg =>
    cases hg
    have hsorted : (first :: second :: rest).Pairwise fun a b =>
        a.canonicalTuple ≤ b.canonicalTuple := by
      obtain ⟨⟨k, ds⟩, -, he⟩ := List.mem_map.mp h
      have hds : ds.mergeSort _ = first :: second :: rest := congrArg Prod.snd he
      rw [← hds]
      exact (List.pairwise_mergeSort (fun a b c => by simpa using le_trans) (fun a b => by
        simpa using le_total a.canonicalTuple b.canonicalTuple) ds).imp of_decide_eq_true
    refine ⟨fun m => ?_, first, ?_⟩
    · rw [List.mem_map]
      constructor
      · rintro ⟨d, hd, rfl⟩
        obtain ⟨hdoc, hb⟩ := (mem_exactMap h).mp hd
        exact ⟨d, hdoc, rfl, hb⟩
      · rintro ⟨d, hd, rfl, hb⟩
        exact ⟨d, (mem_exactMap h).mpr ⟨hd, hb⟩, rfl⟩
    · obtain ⟨hdoc, hb⟩ := (mem_exactMap h).mp List.mem_cons_self
      refine ⟨hdoc, rfl, hb, fun d hd hdb => ?_⟩
      rcases List.mem_cons.mp ((mem_exactMap h).mpr ⟨hd, hdb⟩) with rfl | hrest
      · exact le_refl _
      · exact List.rel_of_pairwise_cons hsorted hrest

theorem groupOf_analyze {X : Crates} {documents : List Document} {policy : DedupPolicy}
    {report : DedupReport} (h : analyze X documents policy = .ok report) :
    ∀ group ∈ report.exactGroups, GroupOf documents group := by
  simp only [analyze, bind_unit_eq_ok, Except.ok.injEq] at h
  obtain ⟨-, rfl⟩ := h
  intro group hg
  obtain ⟨entry, hentry, hsome⟩ := List.mem_filterMap.mp (List.mem_mergeSort.mp hg)
  exact groupOf_exactGroup hentry hsome

/-- What the representative map of a workspace is. -/
structure Represents (w : CanonicalWorkspace) (map : List (DocumentId × DocumentId)) : Prop where
  sorted : Sorted map
  keys : map.map Prod.fst = w.documents.map Prod.fst
  fixed : ∀ m r, (m, r) ∈ map → (r, r) ∈ map

theorem DocumentsKeyed.eq_of_id {w : CanonicalWorkspace} (h : DocumentsKeyed w) {d e : Document}
    (hd : d ∈ w.documents.map Prod.snd) (he : e ∈ w.documents.map Prod.snd)
    (hid : d.documentId = e.documentId) : d = e := by
  obtain ⟨⟨a, d⟩, ha, rfl⟩ := List.mem_map.mp hd
  obtain ⟨⟨b, e⟩, hb, rfl⟩ := List.mem_map.mp he
  have hab : a = b := (h.key _ ha).symm.trans (hid.trans (h.key _ hb))
  subst hab
  exact Option.some.inj ((get?_of_mem h.sorted.nodup ha).symm.trans (get?_of_mem h.sorted.nodup hb))

theorem GroupOf.canonical_mem {documents : List Document} {g : ExactDuplicateGroup}
    (h : GroupOf documents g) : g.canonical ∈ g.members := by
  obtain ⟨c, hc, hid, hb, -⟩ := h.canonical
  exact (h.member _).mpr ⟨c, hc, hid, hb⟩

/-- Groups that share a member have one canonical. -/
theorem canonical_unique {w : CanonicalWorkspace} (hw : DocumentsKeyed w)
    {g k : ExactDuplicateGroup} (hg : GroupOf (w.documents.map Prod.snd) g)
    (hk : GroupOf (w.documents.map Prod.snd) k) {m : DocumentId} (hmg : m ∈ g.members)
    (hmk : m ∈ k.members) : g.canonical = k.canonical := by
  obtain ⟨d, hd, hdm, hdkey⟩ := (hg.member m).mp hmg
  obtain ⟨e, he, hem, hekey⟩ := (hk.member m).mp hmk
  have hde : d = e := hw.eq_of_id hd he (hdm.trans hem.symm)
  have hkeys := hdkey.symm.trans ((congrArg Document.bodyKey hde).trans hekey)
  obtain ⟨a, ha, haid, hakey, hamin⟩ := hg.canonical
  obtain ⟨b, hb, hbid, hbkey, hbmin⟩ := hk.canonical
  have htuple : a.canonicalTuple = b.canonicalTuple :=
    le_antisymm (hamin b hb (hbkey.trans hkeys.symm)) (hbmin a ha (hakey.trans hkeys))
  simp only [Document.canonicalTuple, toLex_inj, Prod.mk.injEq] at htuple
  rw [← haid, ← hbid, htuple.2.2.2]

/-- The representative of a document: the canonical of a group it is in, or itself. -/
theorem mem_representativeMap {w : CanonicalWorkspace} {groups : List ExactDuplicateGroup}
    {m r : DocumentId} (h : (m, r) ∈ representativeMap w groups) :
    (∃ g ∈ groups, m ∈ g.members ∧ r = g.canonical) ∨
      (∀ g ∈ groups, m ∉ g.members) ∧ r = m ∧ m ∈ w.documents.map Prod.fst := by
  have hget := get?_of_mem (sorted_collect _).nodup h
  rw [get?_collect, List.reverse_append, get?_append] at hget
  cases hgroup : get? m (groups.flatMap fun group =>
      group.members.map fun member => (member, group.canonical)).reverse with
  | some c =>
    rw [hgroup] at hget
    obtain ⟨g, hg, hmem⟩ := List.mem_flatMap.mp (List.mem_reverse.mp (mem_of_get? hgroup))
    obtain ⟨x, hx, hxe⟩ := List.mem_map.mp hmem
    simp only [Prod.mk.injEq] at hxe
    exact Or.inl ⟨g, hg, hxe.1 ▸ hx, (Option.some.inj hget).symm.trans hxe.2.symm⟩
  | none =>
    rw [hgroup] at hget
    have hself := List.mem_reverse.mp (mem_of_get? hget)
    obtain ⟨e, he, heq⟩ := List.mem_map.mp hself
    simp only [Prod.mk.injEq] at heq
    refine Or.inr ⟨fun g hg hm => ?_, heq.2.symm.trans heq.1, heq.1 ▸ List.mem_map_of_mem he⟩
    refine (get?_eq_none.mp hgroup) ?_
    rw [List.map_reverse, List.mem_reverse, List.mem_map]
    exact ⟨(m, g.canonical), List.mem_flatMap.mpr ⟨g, hg, List.mem_map_of_mem hm⟩, rfl⟩

/-- **Every document has a representative, which represents itself.** -/
theorem represents_representativeMap {w : CanonicalWorkspace} {groups : List ExactDuplicateGroup}
    (hw : DocumentsKeyed w) (hgroups : ∀ g ∈ groups, GroupOf (w.documents.map Prod.snd) g) :
    Represents w (representativeMap w groups) := by
  have hdoc : ∀ g ∈ groups, ∀ m ∈ g.members, m ∈ w.documents.map Prod.fst := by
    intro g hg m hm
    obtain ⟨d, hd, rfl, -⟩ := ((hgroups g hg).member m).mp hm
    obtain ⟨e, he, rfl⟩ := List.mem_map.mp hd
    exact hw.key e he ▸ List.mem_map_of_mem he
  have hkeys : ∀ m, m ∈ (representativeMap w groups).map Prod.fst ↔
      m ∈ w.documents.map Prod.fst := by
    intro m
    rw [← not_iff_not, ← get?_eq_none, representativeMap, get?_collect_eq_none, not_iff_not]
    simp only [List.map_append, List.mem_append, List.map_map]
    refine or_iff_left_of_imp fun h => ?_
    obtain ⟨e, he, rfl⟩ := List.mem_map.mp h
    obtain ⟨g, hg, hmem⟩ := List.mem_flatMap.mp he
    obtain ⟨x, hx, rfl⟩ := List.mem_map.mp hmem
    exact hdoc g hg x hx
  have hsorted : Sorted (representativeMap w groups) := sorted_collect _
  refine ⟨hsorted, ?_, fun m r h => ?_⟩
  · exact ((List.perm_ext_iff_of_nodup hsorted.nodup hw.sorted.nodup).mpr hkeys).eq_of_pairwise
      (fun a b _ _ hab hba => absurd hab hba.asymm) hsorted hw.sorted
  · rcases mem_representativeMap h with ⟨g, hg, hm, rfl⟩ | ⟨-, rfl, -⟩
    · -- whatever stands for the canonical is the canonical of a group with it
      have hcmem := (hgroups g hg).canonical_mem
      obtain ⟨⟨c, r⟩, hr, rfl⟩ := List.mem_map.mp ((hkeys _).mpr (hdoc g hg _ hcmem))
      rcases mem_representativeMap hr with ⟨k, hk, hck, rfl⟩ | ⟨hno, -, -⟩
      · rwa [canonical_unique hw (hgroups g hg) (hgroups k hk) hcmem hck] at hr ⊢
      · exact absurd hcmem (hno g hg)
    · exact h

/-! ### Candidates -/

/-- The pairs gathered so far: distinct, and each in order. -/
structure PairsOk (pairs : List (DocumentId × DocumentId)) : Prop where
  nodup : pairs.Nodup
  ordered : ∀ p ∈ pairs, p.1 ≤ p.2

theorem pairsOk_insertPair {s : PairState} (h : PairsOk s.pairs) (left right : DocumentId) :
    PairsOk (s.insertPair left right).pairs := by
  unfold PairState.insertPair
  simp only
  split
  · exact h
  · next hnew =>
    refine ⟨List.concat_eq_append ▸ h.nodup.concat hnew, fun p hp => ?_⟩
    rcases List.mem_append.mp hp with hp | hp
    · exact h.ordered p hp
    · rw [List.mem_singleton] at hp
      subst hp
      unfold orderedPair
      split
      · assumption
      · next hle => exact le_of_lt (lt_of_not_ge hle)

theorem pairsOk_pairWith (limit : Nat) (left : DocumentId) :
    ∀ (ids : List DocumentId) {s : PairState}, PairsOk s.pairs →
      PairsOk (pairWith limit left ids s).pairs
  | [], _, h => h
  | right :: rest, s, h => by
    unfold pairWith
    split
    · exact h
    · split
      · exact pairsOk_pairWith limit left rest h
      · exact pairsOk_pairWith limit left rest (pairsOk_insertPair h left right)

theorem pairsOk_addBoundedPairs (limit : Nat) :
    ∀ (ids : List DocumentId) {s : PairState}, PairsOk s.pairs →
      PairsOk (addBoundedPairs limit ids s).pairs
  | [], _, h => h
  | left :: rest, _, h =>
    pairsOk_addBoundedPairs limit rest (pairsOk_pairWith limit left rest h)

theorem acceptCandidates_sublist (limit : Nat) :
    ∀ (cs : List NearDuplicateCandidate) (accepted : List (DocumentId × Nat)),
      (acceptCandidates limit accepted cs).1.Sublist cs
  | [], _ => List.Sublist.refl _
  | c :: rest, accepted => by
    unfold acceptCandidates
    split
    · exact (acceptCandidates_sublist limit rest _).cons c
    · exact (acceptCandidates_sublist limit rest _).cons_cons c

/-- **No pair is a candidate twice.** -/
theorem nearCandidates_pairs (X : Crates) (policy : DedupPolicy) (documents : List Document) :
    PairsOk ((nearCandidates X policy documents).1.map fun c => (c.left, c.right)) := by
  have hpairs : PairsOk (candidatePairs X policy documents).pairs := by
    have hstart : PairsOk (PairState.mk [] [] []).pairs :=
      ⟨List.nodup_nil, fun p hp => absurd hp List.not_mem_nil⟩
    unfold candidatePairs
    refine List.foldlRecOn (motive := fun s : PairState => PairsOk s.pairs) _ _ hstart ?_
    exact fun s hs ids _ => pairsOk_addBoundedPairs _ ids hs
  have hscored : ∀ c ∈ scoredCandidates X policy documents,
      (c.left, c.right) ∈ (candidatePairs X policy documents).pairs := by
    intro c hc
    obtain ⟨hc, -⟩ := List.mem_filter.mp (List.mem_mergeSort.mp hc)
    obtain ⟨p, hp, rfl⟩ := List.mem_map.mp hc
    exact hp
  have hnodup : ((scoredCandidates X policy documents).map fun c => (c.left, c.right)).Nodup := by
    refine ((List.mergeSort_perm _ _).map _).nodup_iff.mpr ?_
    refine List.Nodup.sublist (List.filter_sublist.map _) ?_
    rw [List.map_map]
    exact (List.map_id _).symm ▸ hpairs.nodup
  have hsub := acceptCandidates_sublist policy.maxCandidatesPerDocument
    (scoredCandidates X policy documents) []
  refine ⟨(hsub.map _).nodup hnodup, fun p hp => ?_⟩
  obtain ⟨c, hc, rfl⟩ := List.mem_map.mp hp
  exact hpairs.ordered _ (hscored c (hsub.subset hc))

end Okc.Core
