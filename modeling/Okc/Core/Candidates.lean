import Okc.Core.Dedup

/-!
# Near duplicates are listed or flagged (`dedup.rs`)

The pairs are cut in three places: a document with too many pairs ends its row of a bucket, a
partner with too many is passed over, and the acceptance drops what has reached the limit. Each
names a document of what it drops.

* `covered_addBoundedPairs`: of two members of a bucket, the pair is gathered or one is flagged.
* `acceptCandidates_dropped`, `acceptCandidates_count`: what the acceptance drops it flags, and what
  it keeps stays within the limit.
* `analyze_complete`: the analysis is complete or flagged.
-/

namespace Okc.Core

open Okc.Lib

/-- What a valid policy says about deduplication. -/
theorem dedup_of_validate {X : Crates} {policy : CompilerPolicy}
    (h : policy.validate X = .ok ()) :
    (0 ≤ policy.dedup.nearThreshold ∧ policy.dedup.nearThreshold ≤ 1) ∧
      policy.dedup.minhashComponents = 128 ∧ policy.dedup.lshBands = 32 ∧
      policy.dedup.rowsPerBand = 4 := by
  simp only [CompilerPolicy.validate, bind_unit_eq_ok, reject_eq_ok] at h
  obtain ⟨-, -, -, -, -, -, -, -, h⟩ := h
  split at h
  · cases h
  · simp only [bind_unit_eq_ok, reject_eq_ok, not_or, not_not] at h
    obtain ⟨-, hthreshold, hshape, -⟩ := h
    exact ⟨hthreshold, hshape⟩

/-! ## What two documents have in common -/

section Common

variable (X : Crates) (policy : DedupPolicy)

/-- A text with no shingle. -/
def Document.IsShort (d : Document) : Prop := (X.graphemes d.comparisonText).length < 5

instance (d : Document) : Decidable (d.IsShort X) := inferInstanceAs (Decidable (_ < _))

def Document.signature (d : Document) : List Nat :=
  minhashSignature X.toExternals (X.graphemes d.comparisonText) policy.minhashComponents

/-- The rows of a band of a document's signature. -/
def Document.bandRows (d : Document) (band : Nat) : List Nat :=
  ((d.signature X policy).drop (band * policy.rowsPerBand)).take policy.rowsPerBand

/-- Two documents share an LSH band, or a short text. -/
inductive SharesBucket (d e : Document) : Prop
  | band (hd : ¬ d.IsShort X) (he : ¬ e.IsShort X) {band : Nat} (hband : band < policy.lshBands)
      (hrows : d.bandRows X policy band = e.bandRows X policy band)
  | text (hd : d.IsShort X) (he : e.IsShort X) (htext : d.comparisonText = e.comparisonText)

/-- The part of the signatures that agrees; short texts are compared only when equal. -/
def similarity (d e : Document) : ℚ :=
  if d.IsShort X ∨ e.IsShort X then 1
  else ((((d.signature X policy).zip (e.signature X policy)).filter fun c => c.1 = c.2).length : ℚ) /
    (policy.minhashComponents : ℚ)

end Common

/-! ## Pairing -/

theorem orderedPair_comm (a b : DocumentId) : orderedPair a b = orderedPair b a := by
  unfold orderedPair
  rcases lt_trichotomy a b with h | rfl | h
  · rw [if_pos h.le, if_neg h.not_ge]
  · rfl
  · rw [if_neg h.not_ge, if_pos h.le]

theorem orderedPair_of_lt {a b : DocumentId} (h : a < b) : orderedPair a b = (a, b) :=
  if_pos h.le

/-- The pair was gathered, or one of the two is flagged. -/
def Covered (s : PairState) (a b : DocumentId) : Prop :=
  orderedPair a b ∈ s.pairs ∨ a ∈ s.truncated ∨ b ∈ s.truncated

theorem Covered.symm {s : PairState} {a b : DocumentId} (h : Covered s a b) : Covered s b a := by
  rcases h with h | h | h
  · exact Or.inl (orderedPair_comm a b ▸ h)
  · exact Or.inr (Or.inr h)
  · exact Or.inr (Or.inl h)

/-- Nothing gathered and nobody flagged is lost. -/
structure Grows (s t : PairState) : Prop where
  pairs : s.pairs ⊆ t.pairs
  truncated : s.truncated ⊆ t.truncated

theorem Grows.refl (s : PairState) : Grows s s := ⟨fun _ h => h, fun _ h => h⟩

theorem Grows.trans {s t u : PairState} (h : Grows s t) (k : Grows t u) : Grows s u :=
  ⟨fun _ hp => k.pairs (h.pairs hp), fun _ hp => k.truncated (h.truncated hp)⟩

theorem Covered.mono {s t : PairState} {a b : DocumentId} (h : Covered s a b) (hst : Grows s t) :
    Covered t a b :=
  h.imp (fun h => hst.pairs h) fun h => h.imp (fun h => hst.truncated h) fun h => hst.truncated h

theorem grows_flag (s : PairState) (a : DocumentId) :
    Grows s { s with truncated := s.truncated ++ [a] } :=
  ⟨fun _ h => h, fun _ h => List.mem_append_left _ h⟩

theorem mem_insertPair {s : PairState} {a b : DocumentId} {p : DocumentId × DocumentId} :
    p ∈ (s.insertPair a b).pairs ↔ p ∈ s.pairs ∨ p = orderedPair a b := by
  unfold PairState.insertPair
  simp only
  split
  · next h => exact ⟨Or.inl, fun hp => hp.elim id fun he => he ▸ h⟩
  · simp

theorem truncated_insertPair (s : PairState) (a b : DocumentId) :
    (s.insertPair a b).truncated = s.truncated := by
  unfold PairState.insertPair
  simp only
  split <;> rfl

theorem grows_insertPair (s : PairState) (a b : DocumentId) : Grows s (s.insertPair a b) :=
  ⟨fun _ h => mem_insertPair.mpr (Or.inl h), fun _ h => truncated_insertPair s a b ▸ h⟩

theorem grows_pairWith (limit : Nat) (left : DocumentId) :
    ∀ (ids : List DocumentId) (s : PairState), Grows s (pairWith limit left ids s)
  | [], s => Grows.refl s
  | right :: rest, s => by
    unfold pairWith
    split
    · exact grows_flag s left
    · split
      · exact (grows_flag s right).trans (grows_pairWith limit left rest _)
      · exact (grows_insertPair s left right).trans (grows_pairWith limit left rest _)

/-- One row of a bucket: a cut flags `left`, which covers all that is left of the row. -/
theorem covered_pairWith (limit : Nat) (left : DocumentId) :
    ∀ (ids : List DocumentId) (s : PairState),
      ∀ right ∈ ids, Covered (pairWith limit left ids s) left right
  | [], _ => fun _ h => absurd h List.not_mem_nil
  | right :: rest, s => by
    intro other hother
    unfold pairWith
    split
    · exact Or.inr (Or.inl (List.mem_append_right _ (List.mem_singleton.mpr rfl)))
    · split
      · rcases List.mem_cons.mp hother with rfl | hrest
        · refine Or.inr (Or.inr ((grows_pairWith limit left rest _).truncated ?_))
          exact List.mem_append_right _ (List.mem_singleton.mpr rfl)
        · exact covered_pairWith limit left rest _ other hrest
      · rcases List.mem_cons.mp hother with rfl | hrest
        · refine Or.inl ((grows_pairWith limit left rest _).pairs ?_)
          exact mem_insertPair.mpr (Or.inr rfl)
        · exact covered_pairWith limit left rest _ other hrest

theorem grows_addBoundedPairs (limit : Nat) :
    ∀ (ids : List DocumentId) (s : PairState), Grows s (addBoundedPairs limit ids s)
  | [], s => Grows.refl s
  | left :: rest, s =>
    (grows_pairWith limit left rest s).trans (grows_addBoundedPairs limit rest _)

/-- **Of two members of a bucket, the pair is gathered or one is flagged.** -/
theorem covered_addBoundedPairs (limit : Nat) :
    ∀ (ids : List DocumentId) (s : PairState),
      ids.Pairwise (Covered (addBoundedPairs limit ids s))
  | [], _ => List.Pairwise.nil
  | left :: rest, s => by
    refine List.Pairwise.cons (fun right hright => ?_) (covered_addBoundedPairs limit rest _)
    exact (covered_pairWith limit left rest s right hright).mono (grows_addBoundedPairs limit rest _)

theorem mem_pairWith (limit : Nat) (left : DocumentId) {p : DocumentId × DocumentId} :
    ∀ (ids : List DocumentId) (s : PairState), p ∈ (pairWith limit left ids s).pairs →
      p ∈ s.pairs ∨ ∃ right ∈ ids, p = orderedPair left right
  | [], _ => Or.inl
  | right :: rest, s => by
    unfold pairWith
    intro h
    have later : (∃ r ∈ rest, p = orderedPair left r) →
        p ∈ s.pairs ∨ ∃ r ∈ right :: rest, p = orderedPair left r := by
      rintro ⟨r, hr, he⟩
      exact Or.inr ⟨r, List.mem_cons_of_mem _ hr, he⟩
    split at h
    · exact Or.inl h
    · split at h
      · exact (mem_pairWith limit left rest _ h).elim Or.inl later
      · rcases mem_pairWith limit left rest _ h with h | h
        · rcases mem_insertPair.mp h with h | h
          · exact Or.inl h
          · exact Or.inr ⟨right, List.mem_cons_self, h⟩
        · exact later h

/-- What a bucket adds: pairs of two of its members. -/
theorem mem_addBoundedPairs (limit : Nat) {p : DocumentId × DocumentId} :
    ∀ (ids : List DocumentId) (s : PairState), p ∈ (addBoundedPairs limit ids s).pairs →
      p ∈ s.pairs ∨ ∃ a b, [a, b].Sublist ids ∧ p = orderedPair a b
  | [], _ => Or.inl
  | left :: rest, s => by
    intro h
    rcases mem_addBoundedPairs limit rest _ h with h | ⟨a, b, hab, he⟩
    · rcases mem_pairWith limit left rest s h with h | ⟨b, hb, he⟩
      · exact Or.inl h
      · exact Or.inr ⟨left, b, (List.singleton_sublist.mpr hb).cons_cons left, he⟩
    · exact Or.inr ⟨a, b, hab.cons left, he⟩

/-! ## Accepting -/

/-- The candidate is about the document. -/
def NearDuplicateCandidate.mentions (id : DocumentId) (c : NearDuplicateCandidate) : Bool :=
  decide (c.left = id ∨ c.right = id)

/-- What the acceptance drops, it flags. -/
theorem acceptCandidates_dropped (limit : Nat) {c : NearDuplicateCandidate} :
    ∀ (cs : List NearDuplicateCandidate) (accepted : List (DocumentId × Nat)), c ∈ cs →
      c ∈ (acceptCandidates limit accepted cs).1 ∨
        c.left ∈ (acceptCandidates limit accepted cs).2 ∧
        c.right ∈ (acceptCandidates limit accepted cs).2
  | [], _ => fun h => absurd h List.not_mem_nil
  | first :: rest, accepted => by
    intro h
    unfold acceptCandidates
    split
    · rcases List.mem_cons.mp h with rfl | h
      · exact Or.inr ⟨List.mem_cons_self, List.mem_cons_of_mem _ List.mem_cons_self⟩
      · refine (acceptCandidates_dropped limit rest accepted h).imp id fun hflags => ?_
        exact ⟨List.mem_cons_of_mem _ (List.mem_cons_of_mem _ hflags.1),
          List.mem_cons_of_mem _ (List.mem_cons_of_mem _ hflags.2)⟩
    · rcases List.mem_cons.mp h with rfl | h
      · exact Or.inl List.mem_cons_self
      · exact (acceptCandidates_dropped limit rest _ h).imp (List.mem_cons_of_mem _) id

/-- The count of a document after one more candidate with it. -/
theorem getD_insertKey (id k : DocumentId) (n : Nat) (m : List (DocumentId × Nat)) :
    (get? id (insertKey k n m)).getD 0 = if k = id then n else (get? id m).getD 0 := by
  split
  · next h => rw [h, get?_insertKey_self, Option.getD_some]
  · next h => rw [get?_insertKey_ne _ _ h]

/-- What it keeps about a document, over what was accepted before, stays within the limit. -/
theorem acceptCandidates_count (limit : Nat) (id : DocumentId) :
    ∀ (cs : List NearDuplicateCandidate) (accepted : List (DocumentId × Nat)),
      (∀ c ∈ cs, c.left ≠ c.right) → (get? id accepted).getD 0 ≤ limit →
      (get? id accepted).getD 0 +
        (acceptCandidates limit accepted cs).1.countP (NearDuplicateCandidate.mentions id) ≤ limit
  | [], _ => fun _ h => h
  | c :: rest, accepted => by
    intro hne hle
    have hrest : ∀ c ∈ rest, c.left ≠ c.right := fun c hc => hne c (List.mem_cons_of_mem _ hc)
    unfold acceptCandidates
    split
    · exact acceptCandidates_count limit id rest accepted hrest hle
    · next hroom =>
      rw [not_or, not_le, not_le] at hroom
      have hlr := hne c List.mem_cons_self
      simp only [List.countP_cons, NearDuplicateCandidate.mentions, decide_eq_true_eq]
      have ih := acceptCandidates_count limit id rest
        (insertKey c.right ((get? c.right (insertKey c.left ((get? c.left accepted).getD 0 + 1)
          accepted)).getD 0 + 1) (insertKey c.left ((get? c.left accepted).getD 0 + 1) accepted))
        hrest
      simp only [getD_insertKey, if_neg hlr] at ih ⊢
      by_cases hright : c.right = id
      · simp only [hright, if_true, or_true] at ih ⊢
        rw [hright] at hroom
        have := ih (by omega)
        omega
      · by_cases hleft : c.left = id
        · simp only [hleft, if_true, if_neg hright, true_or] at ih ⊢
          rw [hleft] at hroom
          have := ih (by omega)
          omega
        · simp only [hleft, hright, or_self, if_false] at ih ⊢
          exact ih hle

/-! ## Buckets -/

section Buckets

variable {X : Crates} {policy : DedupPolicy} {documents : List Document}

/-- The documents' identities are distinct. -/
theorem mem_signatures (hids : (documents.map Document.documentId).Nodup) {id : DocumentId}
    {signature : List Nat} : (id, signature) ∈ signatures X policy documents ↔
      ∃ d ∈ documents, ¬ d.IsShort X ∧ d.documentId = id ∧ d.signature X policy = signature := by
  have hnodup : (((documents.filter fun d => 5 ≤ (X.graphemes d.comparisonText).length).map fun d =>
      (d.documentId, minhashSignature X.toExternals (X.graphemes d.comparisonText)
        policy.minhashComponents)).map Prod.fst).Nodup := by
    rw [List.map_map]
    exact hids.sublist (List.filter_sublist.map _)
  rw [signatures, (collect_perm hnodup).mem_iff, List.mem_map]
  simp only [List.mem_filter, decide_eq_true_eq, Prod.mk.injEq, Document.IsShort, not_lt]
  exact exists_congr fun d => and_assoc

theorem get?_signatures (hids : (documents.map Document.documentId).Nodup) {d : Document}
    (hd : d ∈ documents) : get? d.documentId (signatures X policy documents) =
      if d.IsShort X then none else some (d.signature X policy) := by
  split
  · next hshort =>
    rw [get?_eq_none, List.mem_map]
    rintro ⟨⟨id, signature⟩, hmem, hid⟩
    obtain ⟨e, he, hlong, heid, -⟩ := (mem_signatures hids).mp hmem
    have hed : e = d := List.inj_on_of_nodup_map hids he hd (heid.trans hid)
    exact hlong (hed ▸ hshort)
  · next hlong =>
    refine get?_of_mem (sorted_collect _).nodup ?_
    exact (mem_signatures hids).mpr ⟨d, hd, hlong, rfl, rfl⟩

theorem pairSimilarity_eq (hids : (documents.map Document.documentId).Nodup) {d e : Document}
    (hd : d ∈ documents) (he : e ∈ documents) :
    pairSimilarity (signatures X policy documents) policy.minhashComponents
      (d.documentId, e.documentId) = similarity X policy d e := by
  rw [pairSimilarity, get?_signatures hids hd, get?_signatures hids he, similarity]
  by_cases hdshort : d.IsShort X
  · rw [if_pos hdshort, if_pos (Or.inl hdshort)]
  · by_cases heshort : e.IsShort X
    · rw [if_neg hdshort, if_pos heshort, if_pos (Or.inr heshort)]
    · rw [if_neg hdshort, if_neg heshort, if_neg (not_or.mpr ⟨hdshort, heshort⟩)]

/-- What the buckets are made of: the band, its rows, and the document. -/
def bandEntries (X : Crates) (policy : DedupPolicy) (documents : List Document) :
    List ((Nat ×ₗ List Nat) × DocumentId) :=
  (signatures X policy documents).flatMap fun entry =>
    (List.range policy.lshBands).map fun band =>
      (toLex (band, (entry.2.drop (band * policy.rowsPerBand)).take policy.rowsPerBand), entry.1)

theorem mem_uniqueBuckets {ids : List DocumentId} : ids ∈ uniqueBuckets X policy documents ↔
    ids ≠ [] ∧ ∃ key, ids = valuesOf key (bandEntries X policy documents) := by
  rw [uniqueBuckets, mem_sortedSet, List.mem_map]
  constructor
  · rintro ⟨⟨key, values⟩, hmem, rfl⟩
    obtain ⟨hvalues, hne⟩ := mem_groups.mp hmem
    exact ⟨hne, key, hvalues⟩
  · rintro ⟨hne, key, rfl⟩
    exact ⟨(key, _), mem_groups.mpr ⟨rfl, hne⟩, rfl⟩

theorem mem_bandEntries (hids : (documents.map Document.documentId).Nodup) {key : Nat ×ₗ List Nat}
    {id : DocumentId} : (key, id) ∈ bandEntries X policy documents ↔
      ∃ d ∈ documents, ¬ d.IsShort X ∧ d.documentId = id ∧
        ∃ band < policy.lshBands, key = toLex (band, d.bandRows X policy band) := by
  rw [bandEntries, List.mem_flatMap]
  constructor
  · rintro ⟨⟨id, signature⟩, hmem, hband⟩
    obtain ⟨d, hd, hlong, rfl, rfl⟩ := (mem_signatures hids).mp hmem
    obtain ⟨band, hlt, heq⟩ := List.mem_map.mp hband
    cases heq
    exact ⟨d, hd, hlong, rfl, band, List.mem_range.mp hlt, rfl⟩
  · rintro ⟨d, hd, hlong, rfl, band, hlt, rfl⟩
    exact ⟨(d.documentId, d.signature X policy), (mem_signatures hids).mpr ⟨d, hd, hlong, rfl, rfl⟩,
      List.mem_map.mpr ⟨band, List.mem_range.mpr hlt, rfl⟩⟩

/-- A document is in a band once, so a bucket has each member once. -/
theorem nodup_bandEntries : (bandEntries X policy documents).Nodup := by
  have hkeys : (signatures X policy documents).Pairwise fun a b => a.1 ≠ b.1 :=
    List.pairwise_map.mp (sorted_collect _).nodup
  refine List.nodup_flatMap.mpr ⟨fun entry _ => ?_, hkeys.imp fun {a b} hab => ?_⟩
  · refine List.nodup_range.map fun band other h => ?_
    exact (Prod.mk.inj (toLex_inj.mp (Prod.mk.inj h).1)).1
  · intro x hx hy
    obtain ⟨_, -, rfl⟩ := List.mem_map.mp hx
    obtain ⟨_, -, hy⟩ := List.mem_map.mp hy
    exact hab (Prod.mk.inj hy).2.symm

/-- The values of one key are distinct when the entries are. -/
theorem nodup_valuesOf {κ β : Type} [LinearOrder κ] {entries : List (κ × β)} (h : entries.Nodup)
    (k : κ) : (valuesOf k entries).Nodup := by
  refine (h.filter _).map_on fun a ha b hb hab => ?_
  have hak := of_decide_eq_true (List.mem_filter.mp ha).2
  have hbk := of_decide_eq_true (List.mem_filter.mp hb).2
  exact Prod.ext (hak.trans hbk.symm) hab

/-- The lists of documents that are paired. -/
def pairedLists (X : Crates) (policy : DedupPolicy) (documents : List Document) :
    List (List DocumentId) :=
  uniqueBuckets X policy documents ++ (shortTexts X documents).map Prod.snd

/-- The texts under five graphemes and their documents. -/
def textEntries (X : Crates) (documents : List Document) : List (String × DocumentId) :=
  (documents.filter fun d => (X.graphemes d.comparisonText).length < 5).map fun d =>
    (d.comparisonText, d.documentId)

theorem mem_textEntries {text : String} {id : DocumentId} : (text, id) ∈ textEntries X documents ↔
    ∃ d ∈ documents, d.IsShort X ∧ d.comparisonText = text ∧ d.documentId = id := by
  simp only [textEntries, List.mem_map, List.mem_filter, decide_eq_true_eq, Prod.mk.injEq,
    Document.IsShort, and_assoc]

theorem mem_pairedLists {ids : List DocumentId} : ids ∈ pairedLists X policy documents ↔
    ids ≠ [] ∧ ((∃ key, ids = valuesOf key (bandEntries X policy documents)) ∨
      ∃ text, ids = valuesOf text (textEntries X documents)) := by
  have hshort : ids ∈ (shortTexts X documents).map Prod.snd ↔
      ids ≠ [] ∧ ∃ text, ids = valuesOf text (textEntries X documents) := by
    rw [List.mem_map]
    constructor
    · rintro ⟨⟨text, values⟩, hmem, rfl⟩
      obtain ⟨hvalues, hne⟩ := mem_groups.mp hmem
      exact ⟨hne, text, hvalues⟩
    · rintro ⟨hne, text, rfl⟩
      exact ⟨(text, _), mem_groups.mpr ⟨rfl, hne⟩, rfl⟩
  rw [pairedLists, List.mem_append, mem_uniqueBuckets, hshort, and_or_left]

/-- A list that is paired has distinct members, each a document. -/
theorem nodup_pairedLists (hids : (documents.map Document.documentId).Nodup)
    {ids : List DocumentId} (h : ids ∈ pairedLists X policy documents) :
    ids.Nodup ∧ ∀ id ∈ ids, ∃ d ∈ documents, d.documentId = id := by
  obtain ⟨-, ⟨key, rfl⟩ | ⟨text, rfl⟩⟩ := mem_pairedLists.mp h
  · refine ⟨nodup_valuesOf nodup_bandEntries key, fun id hid => ?_⟩
    obtain ⟨d, hd, -, hdid, -⟩ := (mem_bandEntries hids).mp (mem_valuesOf.mp hid)
    exact ⟨d, hd, hdid⟩
  · have hentries : (textEntries X documents).Nodup := by
      refine List.Nodup.of_map Prod.snd ?_
      rw [textEntries, List.map_map]
      exact hids.sublist (List.filter_sublist.map _)
    refine ⟨nodup_valuesOf hentries text, fun id hid => ?_⟩
    obtain ⟨d, hd, -, -, hdid⟩ := mem_textEntries.mp (mem_valuesOf.mp hid)
    exact ⟨d, hd, hdid⟩

/-- Documents that share a bucket are in one list that is paired. -/
theorem SharesBucket.paired (hids : (documents.map Document.documentId).Nodup) {d e : Document}
    (hd : d ∈ documents) (he : e ∈ documents) (h : SharesBucket X policy d e) :
    ∃ ids ∈ pairedLists X policy documents, d.documentId ∈ ids ∧ e.documentId ∈ ids := by
  cases h with
  | @band hdlong helong band hband hrows =>
    have hdmem : d.documentId ∈ valuesOf (toLex (band, d.bandRows X policy band))
        (bandEntries X policy documents) :=
      mem_valuesOf.mpr ((mem_bandEntries hids).mpr ⟨d, hd, hdlong, rfl, band, hband, rfl⟩)
    have hemem : e.documentId ∈ valuesOf (toLex (band, d.bandRows X policy band))
        (bandEntries X policy documents) :=
      mem_valuesOf.mpr ((mem_bandEntries hids).mpr ⟨e, he, helong, rfl, band, hband, by rw [hrows]⟩)
    exact ⟨_, mem_pairedLists.mpr ⟨List.ne_nil_of_mem hdmem, Or.inl ⟨_, rfl⟩⟩, hdmem, hemem⟩
  | text hdshort heshort htext =>
    have hdmem : d.documentId ∈ valuesOf d.comparisonText (textEntries X documents) :=
      mem_valuesOf.mpr (mem_textEntries.mpr ⟨d, hd, hdshort, rfl, rfl⟩)
    have hemem : e.documentId ∈ valuesOf d.comparisonText (textEntries X documents) :=
      mem_valuesOf.mpr (mem_textEntries.mpr ⟨e, he, heshort, htext.symm, rfl⟩)
    exact ⟨_, mem_pairedLists.mpr ⟨List.ne_nil_of_mem hdmem, Or.inr ⟨_, rfl⟩⟩, hdmem, hemem⟩

end Buckets

/-! ## All buckets -/

/-- The buckets, one after another. -/
def pairAll (limit : Nat) (lists : List (List DocumentId)) (s : PairState) : PairState :=
  lists.foldl (fun s ids => addBoundedPairs limit ids s) s

theorem grows_pairAll (limit : Nat) :
    ∀ (lists : List (List DocumentId)) (s : PairState), Grows s (pairAll limit lists s)
  | [], s => Grows.refl s
  | ids :: rest, s => (grows_addBoundedPairs limit ids s).trans (grows_pairAll limit rest _)

theorem covered_pairAll (limit : Nat) :
    ∀ (lists : List (List DocumentId)) (s : PairState),
      ∀ ids ∈ lists, ids.Pairwise (Covered (pairAll limit lists s))
  | [], _ => fun _ h => absurd h List.not_mem_nil
  | first :: rest, s => by
    intro ids hids
    rcases List.mem_cons.mp hids with rfl | hrest
    · exact (covered_addBoundedPairs limit ids s).imp fun h => h.mono (grows_pairAll limit rest _)
    · exact covered_pairAll limit rest _ ids hrest

theorem mem_pairAll (limit : Nat) {p : DocumentId × DocumentId} :
    ∀ (lists : List (List DocumentId)) (s : PairState), p ∈ (pairAll limit lists s).pairs →
      p ∈ s.pairs ∨ ∃ ids ∈ lists, ∃ a b, [a, b].Sublist ids ∧ p = orderedPair a b
  | [], _ => Or.inl
  | ids :: rest, s => by
    intro h
    rcases mem_pairAll limit rest _ h with h | ⟨later, hlater, hp⟩
    · rcases mem_addBoundedPairs limit ids s h with h | hp
      · exact Or.inl h
      · exact Or.inr ⟨ids, List.mem_cons_self, hp⟩
    · exact Or.inr ⟨later, List.mem_cons_of_mem _ hlater, hp⟩

section Analysis

variable {X : Crates} {policy : DedupPolicy} {documents : List Document}

theorem candidatePairs_eq : candidatePairs X policy documents =
    pairAll (max (policy.maxCandidatesPerDocument * 4) 1) (pairedLists X policy documents)
      ⟨[], [], []⟩ := rfl

/-- Documents that share a bucket are paired, or one of them is flagged. -/
theorem SharesBucket.covered (hids : (documents.map Document.documentId).Nodup) {d e : Document}
    (hd : d ∈ documents) (he : e ∈ documents) (hne : d.documentId ≠ e.documentId)
    (h : SharesBucket X policy d e) :
    Covered (candidatePairs X policy documents) d.documentId e.documentId := by
  obtain ⟨ids, hmem, hdmem, hemem⟩ := h.paired hids hd he
  rw [candidatePairs_eq]
  have hsymm : Std.Symm (Covered (candidatePairs X policy documents)) := ⟨fun _ _ h => h.symm⟩
  rw [candidatePairs_eq] at hsymm
  exact (covered_pairAll _ _ _ ids hmem).forall hdmem hemem hne

/-- A pair is of two documents, in order. -/
theorem candidatePairs_documents (hids : (documents.map Document.documentId).Nodup)
    {p : DocumentId × DocumentId} (h : p ∈ (candidatePairs X policy documents).pairs) :
    p.1 < p.2 ∧ ∃ d ∈ documents, ∃ e ∈ documents, p = (d.documentId, e.documentId) := by
  rw [candidatePairs_eq] at h
  obtain h | ⟨ids, hmem, a, b, hab, rfl⟩ := mem_pairAll _ _ _ h
  · exact absurd h List.not_mem_nil
  · obtain ⟨hnodup, hdocs⟩ := nodup_pairedLists hids hmem
    obtain ⟨d, hd, rfl⟩ := hdocs a (hab.subset List.mem_cons_self)
    obtain ⟨e, he, rfl⟩ := hdocs b (hab.subset (List.mem_cons_of_mem _ List.mem_cons_self))
    have hne : d.documentId ≠ e.documentId := by
      have := hab.nodup hnodup
      simp_all
    rcases lt_or_gt_of_ne hne with hlt | hgt
    · rw [orderedPair_of_lt hlt]
      exact ⟨hlt, d, hd, e, he, rfl⟩
    · rw [orderedPair_comm, orderedPair_of_lt hgt]
      exact ⟨hgt, e, he, d, hd, rfl⟩

theorem mem_scoredCandidates {c : NearDuplicateCandidate} :
    c ∈ scoredCandidates X policy documents ↔
      (c.left, c.right) ∈ (candidatePairs X policy documents).pairs ∧
      c.estimatedSimilarity = pairSimilarity (signatures X policy documents)
        policy.minhashComponents (c.left, c.right) ∧
      policy.nearThreshold ≤ c.estimatedSimilarity := by
  rw [scoredCandidates, List.mem_mergeSort, List.mem_filter, List.mem_map, decide_eq_true_eq]
  constructor
  · rintro ⟨⟨p, hp, rfl⟩, hthreshold⟩
    exact ⟨hp, rfl, hthreshold⟩
  · rintro ⟨hp, hsim, hthreshold⟩
    exact ⟨⟨_, hp, by rw [← hsim]⟩, hthreshold⟩

/-- The report of `near_candidates`: complete or flagged, within the limit, pairs in order. -/
structure NearReport (X : Crates) (policy : DedupPolicy) (documents : List Document)
    (candidates : List NearDuplicateCandidate) (truncated : List DocumentId) : Prop where
  complete : ∀ d ∈ documents, ∀ e ∈ documents, d.documentId ≠ e.documentId →
    SharesBucket X policy d e → policy.nearThreshold ≤ similarity X policy d e →
    (∃ c ∈ candidates, (c.left, c.right) = orderedPair d.documentId e.documentId) ∨
      d.documentId ∈ truncated ∨ e.documentId ∈ truncated
  bounded : ∀ id, candidates.countP (NearDuplicateCandidate.mentions id) ≤
    policy.maxCandidatesPerDocument
  ordered : ∀ c ∈ candidates, c.left < c.right ∧
    ∃ d ∈ documents, ∃ e ∈ documents, d.documentId = c.left ∧ e.documentId = c.right
  once : (candidates.map fun c => (c.left, c.right)).Nodup

theorem similarity_comm (d e : Document) : similarity X policy d e = similarity X policy e d := by
  have hagree : (((d.signature X policy).zip (e.signature X policy)).filter
      fun c => c.1 = c.2).length =
      (((e.signature X policy).zip (d.signature X policy)).filter fun c => c.1 = c.2).length := by
    rw [← List.zip_swap, List.filter_map, List.length_map]
    exact congrArg List.length (List.filter_congr fun c _ => by simp [eq_comm])
  by_cases hd : d.IsShort X
  · rw [similarity, similarity, if_pos (Or.inl hd), if_pos (Or.inr hd)]
  · by_cases he : e.IsShort X
    · rw [similarity, similarity, if_pos (Or.inr he), if_pos (Or.inl he)]
    · rw [similarity, similarity, if_neg (not_or.mpr ⟨hd, he⟩), if_neg (not_or.mpr ⟨he, hd⟩),
        hagree]

theorem nearReport (hids : (documents.map Document.documentId).Nodup) :
    NearReport X policy documents (nearCandidates X policy documents).1
      (nearCandidates X policy documents).2 := by
  have hkept : ∀ c ∈ (nearCandidates X policy documents).1,
      c ∈ scoredCandidates X policy documents := fun c hc =>
    (acceptCandidates_sublist policy.maxCandidatesPerDocument
      (scoredCandidates X policy documents) []).subset hc
  have hordered : ∀ c ∈ scoredCandidates X policy documents, c.left < c.right ∧
      ∃ d ∈ documents, ∃ e ∈ documents, d.documentId = c.left ∧ e.documentId = c.right := by
    intro c hc
    obtain ⟨hlt, d, hd, e, he, hp⟩ := candidatePairs_documents hids (mem_scoredCandidates.mp hc).1
    exact ⟨hlt, d, hd, e, he, (Prod.mk.inj hp).1.symm, (Prod.mk.inj hp).2.symm⟩
  refine ⟨fun d hd e he hne hshares hthreshold => ?_, fun id => ?_,
    fun c hc => hordered c (hkept c hc), (nearCandidates_pairs X policy documents).nodup⟩
  · have flagged : ∀ id, id ∈ (candidatePairs X policy documents).truncated →
        id ∈ (nearCandidates X policy documents).2 := fun id h =>
      mem_sortedSet.mpr (List.mem_append_left _ h)
    rcases hshares.covered hids hd he hne with hpair | hflag | hflag
    · -- a pair gathered is scored, and then kept or flagged
      have hscore : pairSimilarity (signatures X policy documents) policy.minhashComponents
          (orderedPair d.documentId e.documentId) = similarity X policy d e := by
        unfold orderedPair
        split
        · exact pairSimilarity_eq hids hd he
        · rw [pairSimilarity_eq hids he hd, similarity_comm]
      obtain ⟨l, r, hlr⟩ : ∃ l r, orderedPair d.documentId e.documentId = (l, r) := ⟨_, _, rfl⟩
      rw [hlr] at hpair hscore ⊢
      have hscored := mem_scoredCandidates.mpr (show ((⟨l, r, similarity X policy d e⟩ :
        NearDuplicateCandidate).left, _) ∈ _ ∧ _ ∧ _ from ⟨hpair, hscore.symm, hthreshold⟩)
      rcases acceptCandidates_dropped policy.maxCandidatesPerDocument _ [] hscored with h | ⟨h, -⟩
      · exact Or.inl ⟨_, h, rfl⟩
      · have hl : l ∈ (nearCandidates X policy documents).2 :=
          mem_sortedSet.mpr (List.mem_append_right _ h)
        unfold orderedPair at hlr
        split at hlr
        · exact Or.inr (Or.inl ((Prod.mk.inj hlr).1 ▸ hl))
        · exact Or.inr (Or.inr ((Prod.mk.inj hlr).1 ▸ hl))
    · exact Or.inr (Or.inl (flagged _ hflag))
    · exact Or.inr (Or.inr (flagged _ hflag))
  · have := acceptCandidates_count policy.maxCandidatesPerDocument id
      (scoredCandidates X policy documents) [] (fun c hc => (hordered c hc).1.ne) (Nat.zero_le _)
    rwa [get?, Option.getD_none, Nat.zero_add] at this

end Analysis

/-- **The analysis is complete or flagged**, for every set of documents under a valid policy. -/
theorem analyze_complete (X : Crates) (policy : CompilerPolicy) (hp : policy.validate X = .ok ())
    (documents : List Document) (hids : (documents.map Document.documentId).Nodup) :
    ∃ report, analyze X documents policy.dedup = .ok report ∧
      NearReport X policy.dedup (representatives documents) report.nearCandidates
        report.truncatedDocuments := by
  obtain ⟨hthreshold, hshape⟩ := dedup_of_validate hp
  have haccepted : ¬ (policy.dedup.minhashComponents = 0 ∨ policy.dedup.lshBands = 0 ∨
      policy.dedup.rowsPerBand = 0 ∨
      policy.dedup.lshBands * policy.dedup.rowsPerBand ≠ policy.dedup.minhashComponents ∨
      2 ^ 32 ≤ policy.dedup.minhashComponents ∨
      ¬ (0 ≤ policy.dedup.nearThreshold ∧ policy.dedup.nearThreshold ≤ 1)) := by
    obtain ⟨hcomponents, hbands, hrows⟩ := hshape
    rw [hcomponents, hbands, hrows]
    simpa using hthreshold
  have hreps : ((representatives documents).map Document.documentId).Nodup :=
    hids.sublist (List.filter_sublist.map _)
  refine ⟨⟨((exactMap documents).filterMap exactGroup).mergeSort fun a b =>
    decide (a.canonical ≤ b.canonical), _, _⟩, ?_, nearReport hreps⟩
  rw [analyze, reject_eq_ok.mpr haccepted]
  rfl

/-- Two notes of one vault with one short text. -/
def twinNote (i : Nat) : Document := plainNote "vault" (bulkName i) i

theorem analyze_complete_twins :
    CompilerPolicy.validate (plainCrates (plainExternals prefixHash)) .default = .ok () ∧
      ([twinNote 1, twinNote 2].map Document.documentId).Nodup ∧
      SharesBucket (plainCrates (plainExternals prefixHash)) CompilerPolicy.default.dedup
        (twinNote 1) (twinNote 2) ∧
      ∃ report, analyze (plainCrates (plainExternals prefixHash)) [twinNote 1, twinNote 2]
          CompilerPolicy.default.dedup = .ok report ∧
        NearReport (plainCrates (plainExternals prefixHash)) CompilerPolicy.default.dedup
          (representatives [twinNote 1, twinNote 2]) report.nearCandidates
          report.truncatedDocuments := by
  have hvalid : CompilerPolicy.validate (plainCrates (plainExternals prefixHash)) .default =
      .ok () := validate_default (fun _ => rfl) fun _ => rfl
  have hids : ([twinNote 1, twinNote 2].map Document.documentId).Nodup := by decide
  refine ⟨hvalid, hids, ?_, analyze_complete _ _ hvalid _ hids⟩
  exact .text (by decide) (by decide) rfl

end Okc.Core
