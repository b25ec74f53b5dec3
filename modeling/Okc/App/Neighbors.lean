import Okc.App.Execution
import Okc.Core.Bulk
import Okc.Lib.Rank

/-!
# Semantic neighbours (`integration_execution.rs:449-501`)

Every document takes its eight best neighbours, and a candidate is a pair of documents of which one
takes the other. The loop offers a document the later documents only. So a pair is lost when the
later document takes the earlier one, but the earlier one has eight better among the later ones.

Results:
* `mem_candidatesFrom`: the candidates are the neighbours among the later documents.
* **`semanticCandidates_complete_iff`**: when the candidates are complete for both ends.
-/

namespace Okc.App

open Okc.Lib Okc.Core

section

variable {S : Similarity}

/-- A document with the unit vector of its embedding. -/
abbrev Point (S : Similarity) := DocumentId × S.Vector

/-- The documents of the corpus with the unit vectors of the response. -/
def embedded (S : Similarity) (corpus : IntegrationCorpus) (embeddings : Value) : List (Point S) :=
  (corpus.documents.map IntegrationDocument.documentId).zip
    ((S.vectors embeddings).filterMap S.normalized)

/-- The place of `a` among the neighbours of `d`: the best score first, then the least ID. -/
def nearness (d a : Point S) : Lex (S.Scoreᵒᵈ × DocumentId) :=
  toLex (OrderDual.toDual (S.cosine d.2 a.2), a.1)

/-- How many of the points reach the minimum and are nearer to `d` than `a` is. -/
def closer (points : List (Point S)) (d a : Point S) : Nat :=
  below (nearness d) (points.filter fun b => decide (S.minimum ≤ S.cosine d.2 b.2)) (nearness d a)

/-- `a` is one of the eight best neighbours of `d` among the points. -/
def IsNeighbor (points : List (Point S)) (d a : Point S) : Prop :=
  a ∈ points ∧ S.minimum ≤ S.cosine d.2 a.2 ∧ closer points d a < 8

/-- The points of the other documents. -/
def others (points : List (Point S)) (d : Point S) : List (Point S) :=
  points.filter fun b => decide (b.1 ≠ d.1)

/-- The points of the later documents. -/
def later (points : List (Point S)) (d : Point S) : List (Point S) :=
  points.filter fun b => decide (d.1 < b.1)

/-- The two documents of a candidate. -/
def SemanticCandidate.pair (c : SemanticCandidate S) : Lex (DocumentId × DocumentId) :=
  toLex (c.leftDocumentId, c.rightDocumentId)

/-- What the candidates of the points should be. -/
structure Complete (points : List (Point S)) (candidates : List (SemanticCandidate S)) : Prop where
  /-- The eight best neighbours of a document form a pair with it. -/
  bothEnds : ∀ d ∈ points, ∀ a, IsNeighbor (others points d) d a →
    ∃ c ∈ candidates, c.pair = toLex (min d.1 a.1, max d.1 a.1)
  /-- A pair is an ordered pair of distinct documents. -/
  ordered : ∀ c ∈ candidates, c.leftDocumentId < c.rightDocumentId ∧
    c.leftDocumentId ∈ points.map Prod.fst ∧ c.rightDocumentId ∈ points.map Prod.fst
  /-- Every pair is there once, and the pairs are sorted. -/
  sorted : (candidates.map SemanticCandidate.pair).Pairwise (· < ·)

/-! ## The loop -/

/-- The candidate of two points. -/
def candidate (l r : Point S) : SemanticCandidate S := ⟨l.1, r.1, S.cosine l.2 r.2⟩

theorem bestNeighbors_eq (d : Point S) (points : List (Point S)) :
    bestNeighbors S d.1 d.2 points =
      ((sortBy (fun a : Point S => OrderDual.toDual (S.cosine d.2 a.2))
        (points.filter fun a => decide (S.minimum ≤ S.cosine d.2 a.2))).take 8).map
          (candidate d) := by
  have hsort := map_sortBy (fun a : Point S => OrderDual.toDual (S.cosine d.2 a.2))
    (fun c : SemanticCandidate S => OrderDual.toDual c.cosineSimilarity) (f := candidate d)
    (fun _ => rfl) (points.filter fun a => decide (S.minimum ≤ S.cosine d.2 a.2))
  rw [List.map_take, hsort]
  unfold bestNeighbors
  rw [List.filter_map]
  rfl

/-- The sorted later documents are ranked by their nearness. -/
theorem mem_bestNeighbors {d : Point S} {points : List (Point S)}
    (h : points.Pairwise fun a b => a.1 < b.1) {c : SemanticCandidate S} :
    c ∈ bestNeighbors S d.1 d.2 points ↔ ∃ a, IsNeighbor points d a ∧ candidate d a = c := by
  rw [bestNeighbors_eq, List.mem_map]
  refine exists_congr fun a => and_congr_left fun _ => ?_
  rw [mem_take_sortBy (fun a : Point S => OrderDual.toDual (S.cosine d.2 a.2)) (h.filter _),
    List.mem_filter, decide_eq_true_eq, and_assoc]
  rfl

theorem later_cons_self {d : Point S} {points : List (Point S)}
    (h : ∀ a ∈ points, d.1 < a.1) : later (d :: points) d = points := by
  unfold later
  rw [List.filter_cons_of_neg (by simp)]
  exact List.filter_eq_self.mpr fun a ha => decide_eq_true (h a ha)

theorem later_cons_of_lt {p d : Point S} {points : List (Point S)} (h : p.1 < d.1) :
    later (p :: points) d = later points d :=
  List.filter_cons_of_neg (by simpa using h.le)

/-- **The candidates are the eight best neighbours among the later documents**, of each document. -/
theorem mem_candidatesFrom {points : List (Point S)} (h : points.Pairwise fun a b => a.1 < b.1)
    {c : SemanticCandidate S} :
    c ∈ candidatesFrom S points ↔
      ∃ l ∈ points, ∃ r, IsNeighbor (later points l) l r ∧ candidate l r = c := by
  induction points with
  | nil => simp [candidatesFrom]
  | cons p points ih =>
    obtain ⟨hp, hpoints⟩ := List.pairwise_cons.mp h
    have hlater : ∀ l ∈ points, later (p :: points) l = later points l := fun l hl =>
      later_cons_of_lt (hp l hl)
    rw [candidatesFrom, List.mem_append, mem_bestNeighbors hpoints, ih hpoints]
    simp only [List.mem_cons, or_and_right, exists_or, exists_eq_left, later_cons_self hp]
    refine or_congr_right (exists_congr fun l => and_congr_right fun hl => ?_)
    rw [hlater l hl]

/-! ## What the loop may leave out -/

theorem mem_others {points : List (Point S)} {d a : Point S} :
    a ∈ others points d ↔ a ∈ points ∧ a.1 ≠ d.1 := by
  rw [others, List.mem_filter, decide_eq_true_eq]

theorem mem_later {points : List (Point S)} {d a : Point S} :
    a ∈ later points d ↔ a ∈ points ∧ d.1 < a.1 := by
  rw [later, List.mem_filter, decide_eq_true_eq]

/-- A document has no more rivals among the later ones than among all others. -/
theorem closer_later_le (points : List (Point S)) (d a : Point S) :
    closer (later points d) d a ≤ closer (others points d) d a := by
  refine below_le_of_sublist (List.Sublist.filter _ ?_) _
  exact List.monotone_filter_right points fun b hb => decide_eq_true (of_decide_eq_true hb).ne'

/-- The point of a document is determined by its ID. -/
theorem point_unique {points : List (Point S)} (h : points.Pairwise fun a b => a.1 < b.1)
    {a b : Point S} (ha : a ∈ points) (hb : b ∈ points) (hab : a.1 = b.1) : a = b :=
  List.inj_on_of_nodup_map (List.pairwise_map.mpr (h.imp ne_of_lt)) ha hb hab

/-- A pair of documents is a candidate iff the earlier one takes the later one. -/
theorem mem_pairs {points : List (Point S)} (h : points.Pairwise fun a b => a.1 < b.1)
    {l r : Point S} (hl : l ∈ points) (hr : r ∈ points) :
    (∃ c ∈ candidatesFrom S points, c.pair = toLex (l.1, r.1)) ↔
      IsNeighbor (later points l) l r := by
  constructor
  · rintro ⟨c, hc, hpair⟩
    obtain ⟨l', hl', r', hnear, rfl⟩ := (mem_candidatesFrom h).mp hc
    obtain ⟨hleft, hright⟩ := Prod.mk.inj (toLex_inj.mp hpair)
    obtain rfl := point_unique h hl' hl hleft
    obtain rfl := point_unique h (mem_later.mp hnear.1).1 hr hright
    exact hnear
  · intro hnear
    exact ⟨candidate l r, (mem_candidatesFrom h).mpr ⟨l, hl, r, hnear, rfl⟩, rfl⟩

theorem nodup_pairs {points : List (Point S)} (h : points.Pairwise fun a b => a.1 < b.1) :
    ((candidatesFrom S points).map SemanticCandidate.pair).Nodup := by
  induction points with
  | nil => exact List.nodup_nil
  | cons p points ih =>
    obtain ⟨hp, hpoints⟩ := List.pairwise_cons.mp h
    rw [candidatesFrom, List.map_append]
    refine List.Nodup.append ?_ (ih hpoints) ?_
    · have hrights : (points.map fun a => (candidate p a).pair).Nodup := by
        refine List.pairwise_map.mpr (hpoints.imp fun hlt heq => hlt.ne ?_)
        exact (Prod.mk.inj (toLex_inj.mp heq)).2
      rw [bestNeighbors_eq, List.map_map]
      refine List.Nodup.sublist ((List.take_sublist _ _).map _) ?_
      refine ((sortBy_perm _ _).map _).nodup_iff.mpr ?_
      exact hrights.sublist (List.filter_sublist.map _)
    · -- the pairs of the others start with a later document
      intro pair hpair hlater
      obtain ⟨c, hc, rfl⟩ := List.mem_map.mp hpair
      obtain ⟨a, -, rfl⟩ := (mem_bestNeighbors hpoints).mp hc
      obtain ⟨c, hc, heq⟩ := List.mem_map.mp hlater
      obtain ⟨l, hl, r, -, rfl⟩ := (mem_candidatesFrom hpoints).mp hc
      exact (hp l hl).ne' (Prod.mk.inj (toLex_inj.mp heq)).1

theorem candidatesFrom_sorted {points : List (Point S)}
    (h : points.Pairwise fun a b => a.1 < b.1) :
    ((sortBy SemanticCandidate.pair (candidatesFrom S points)).map
      SemanticCandidate.pair).Pairwise (· < ·) :=
  pairwise_lt_of_sortBy (nodup_pairs h)

/-- **The candidates are complete for both ends iff no earlier document leaves out a later one that
takes it**. -/
theorem complete_iff {points : List (Point S)} (h : points.Pairwise fun a b => a.1 < b.1)
    (hsymm : ∀ v w, S.cosine v w = S.cosine w v) :
    Complete points (sortBy SemanticCandidate.pair (candidatesFrom S points)) ↔
      ∀ l ∈ points, ∀ r ∈ points, l.1 < r.1 → IsNeighbor (others points r) r l →
        closer (later points l) l r < 8 := by
  constructor
  · intro hcomplete l hl r hr hlt hnear
    obtain ⟨c, hc, hpair⟩ := hcomplete.bothEnds r hr l hnear
    rw [min_eq_right hlt.le, max_eq_left hlt.le] at hpair
    exact ((mem_pairs h hl hr).mp ⟨c, mem_sortBy.mp hc, hpair⟩).2.2
  · intro hroom
    refine ⟨fun d hd a hnear => ?_, fun c hc => ?_, candidatesFrom_sorted h⟩
    · obtain ⟨ha, hne⟩ := mem_others.mp hnear.1
      simp only [mem_sortBy]
      rcases lt_or_gt_of_ne hne with hlt | hlt
      · -- the document takes an earlier one
        rw [min_eq_right hlt.le, max_eq_left hlt.le]
        refine (mem_pairs h ha hd).mpr ⟨mem_later.mpr ⟨hd, hlt⟩, ?_, hroom a ha d hd hlt hnear⟩
        rw [hsymm]
        exact hnear.2.1
      · rw [min_eq_left hlt.le, max_eq_right hlt.le]
        exact (mem_pairs h hd ha).mpr ⟨mem_later.mpr ⟨ha, hlt⟩, hnear.2.1,
          (closer_later_le points d a).trans_lt hnear.2.2⟩
    · obtain ⟨l, hl, r, hnear, rfl⟩ := (mem_candidatesFrom h).mp (mem_sortBy.mp hc)
      obtain ⟨hr, hlt⟩ := mem_later.mp hnear.1
      exact ⟨hlt, List.mem_map_of_mem hl, List.mem_map_of_mem hr⟩

/-! ## The task -/

variable {corpus : IntegrationCorpus} {embeddings : Value} {candidates : List (SemanticCandidate S)}

theorem normalized_of_mapM {vectors units : List S.Vector}
    (h : (vectors.mapM fun vector => match S.normalized vector with
      | some unit => Except.ok unit
      | none => .error (AppError.invalidProject "embedding vector has a zero or non-finite norm")) =
        .ok units) :
    vectors.filterMap S.normalized = units ∧ units.length = vectors.length := by
  rw [mapM_eq_ok] at h
  induction h with
  | nil => exact ⟨rfl, rfl⟩
  | @cons v unit vectors units hv _ ih =>
    obtain ⟨hunits, hlength⟩ := ih
    cases hunit : S.normalized v with
    | none =>
      rw [hunit] at hv
      cases hv
    | some found =>
      rw [hunit] at hv
      obtain rfl := Except.ok.inj hv
      exact ⟨by rw [List.filterMap_cons_some hunit, hunits], congrArg Nat.succ hlength⟩

/-- What a task that succeeds has computed. -/
theorem semanticCandidates_ok (h : semanticCandidates S corpus embeddings = .ok candidates) :
    (embedded S corpus embeddings).map Prod.fst =
        corpus.documents.map IntegrationDocument.documentId ∧
      candidates =
        sortBy SemanticCandidate.pair (candidatesFrom S (embedded S corpus embeddings)) := by
  rw [semanticCandidates, bind_unit_eq_ok, reject_eq_ok, not_not, bind_eq_ok] at h
  obtain ⟨hlength, units, hunits, hcandidates⟩ := h
  obtain rfl := Except.ok.inj hcandidates
  obtain ⟨hnormal, hcount⟩ := normalized_of_mapM hunits
  unfold embedded
  rw [hnormal]
  refine ⟨List.map_fst_zip ?_, rfl⟩
  rw [List.length_map, hcount, hlength]

/-- **The semantic candidates are complete for both ends iff no document leaves out a later one
that takes it**: the loop looks for the neighbours of a document among the later ones only. -/
theorem semanticCandidates_complete_iff
    (hsorted : (corpus.documents.map IntegrationDocument.documentId).Pairwise (· < ·))
    (hsymm : ∀ v w, S.cosine v w = S.cosine w v)
    (h : semanticCandidates S corpus embeddings = .ok candidates) :
    Complete (embedded S corpus embeddings) candidates ↔
      ∀ l ∈ embedded S corpus embeddings, ∀ r ∈ embedded S corpus embeddings, l.1 < r.1 →
        IsNeighbor (others (embedded S corpus embeddings) r) r l →
          closer (later (embedded S corpus embeddings) l) l r < 8 := by
  obtain ⟨hids, rfl⟩ := semanticCandidates_ok h
  exact complete_iff (List.pairwise_map.mp (hids ▸ hsorted)) hsymm

end

/-! ## Ten notes with one text -/

/-- Vectors of one dimension: a unit vector is a sign. -/
def signSimilarity (n : Nat) : Similarity where
  Vector := Int
  Score := Int
  order := inferInstance
  vectors _ := List.replicate n 3
  normalized v := if v = 0 then none else some v.sign
  cosine v w := v * w
  minimum := 1
  toValue _ := .nat 1

def flatCorpus : IntegrationCorpus := bulkCorpus (plainExternals prefixHash) 10

/-- The point of note `i`. -/
def flatPoint (i : Nat) : Point (signSimilarity 10) := (⟨indexHash i⟩, (1 : Int))

theorem embedded_flat :
    embedded (signSimilarity 10) flatCorpus .null = (List.range 10).map flatPoint := by
  rfl

theorem semanticCandidates_flat : semanticCandidates (signSimilarity 10) flatCorpus .null =
    .ok (sortBy SemanticCandidate.pair
      (candidatesFrom (signSimilarity 10) ((List.range 10).map flatPoint))) := by
  rfl

theorem sorted_flat :
    (flatCorpus.documents.map IntegrationDocument.documentId).Pairwise (· < ·) :=
  (bulkCorpus_valid prefixHash (by decide) (by decide)).sorted

/-- The last note takes the first, which has eight others before it. -/
theorem neighbor_flat :
    IsNeighbor (others ((List.range 10).map flatPoint) (flatPoint 9)) (flatPoint 9) (flatPoint 0) ∧
      closer (later ((List.range 10).map flatPoint) (flatPoint 0)) (flatPoint 0) (flatPoint 9) =
        8 := by
  have hmem : flatPoint 0 ∈ (List.range 10).map flatPoint := List.mem_map_of_mem (by decide)
  refine ⟨⟨mem_others.mpr ⟨hmem, by decide +kernel⟩, le_refl (1 : Int), by decide +kernel⟩, ?_⟩
  decide +kernel

/-- Of ten notes with one text, the first and the last are not a pair. -/
theorem semanticCandidates_flat_incomplete : ∃ candidates,
    semanticCandidates (signSimilarity 10) flatCorpus .null = .ok candidates ∧
      (∀ v w, (signSimilarity 10).cosine v w = (signSimilarity 10).cosine w v) ∧
      ValidCorpus (plainExternals prefixHash) flatCorpus ∧
      ¬ Complete (embedded (signSimilarity 10) flatCorpus .null) candidates := by
  refine ⟨_, semanticCandidates_flat, Int.mul_comm, bulkCorpus_valid prefixHash (by decide)
    (by decide), fun hcomplete => ?_⟩
  rw [embedded_flat] at hcomplete
  have hroom := (complete_iff (List.pairwise_map.mp (by decide +kernel)) Int.mul_comm).mp hcomplete
  have hfirst : flatPoint 0 ∈ (List.range 10).map flatPoint := List.mem_map_of_mem (by decide)
  have hlast : flatPoint 9 ∈ (List.range 10).map flatPoint := List.mem_map_of_mem (by decide)
  have hlt := hroom _ hfirst _ hlast (by decide +kernel) neighbor_flat.1
  rw [neighbor_flat.2] at hlt
  exact absurd hlt (by decide)

/-- Ten notes with one text are more than the loop has room for. -/
theorem semanticCandidates_complete_iff_flat : ∃ candidates,
    semanticCandidates (signSimilarity 10) flatCorpus .null = .ok candidates ∧
      (Complete (embedded (signSimilarity 10) flatCorpus .null) candidates ↔
        ∀ l ∈ embedded (signSimilarity 10) flatCorpus .null,
          ∀ r ∈ embedded (signSimilarity 10) flatCorpus .null, l.1 < r.1 →
            IsNeighbor (others (embedded (signSimilarity 10) flatCorpus .null) r) r l →
              closer (later (embedded (signSimilarity 10) flatCorpus .null) l) l r < 8) :=
  ⟨_, semanticCandidates_flat,
    semanticCandidates_complete_iff sorted_flat Int.mul_comm semanticCandidates_flat⟩

end Okc.App
