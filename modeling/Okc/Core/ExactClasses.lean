import Okc.Core.Candidates

/-!
# Exact duplicates as a partition (`dedup.rs:50-101`, `plan.rs:1646-1662`)

`exactClass` is the class of a pair of hashes, in canonical order. Documents with distinct
identities have distinct canonical tuples, so a class does not depend on the order in which its
documents are met, and neither does the map of classes that `analyze` builds.

* `mem_exactMap_iff`: the map holds the nonempty classes.
* `exactMap_perm`: it does not depend on the order of the documents.
* `get?_representativeMap`: a document is represented by the least of its class.
* `analyze_exactPartition`: representatives and reported groups are the partition into classes.
-/

namespace Okc.Core

open Okc.Lib

/-- The documents with given hashes, the canonical one first. -/
def exactClass (documents : List Document) (key : ContentHash ×ₗ ContentHash) : List Document :=
  (documents.filter fun d => d.bodyKey = key).mergeSort fun a b =>
    decide (a.canonicalTuple ≤ b.canonicalTuple)

theorem mem_exactClass {documents : List Document} {key : ContentHash ×ₗ ContentHash}
    {d : Document} : d ∈ exactClass documents key ↔ d ∈ documents ∧ d.bodyKey = key := by
  simp [exactClass]

theorem sorted_exactClass (documents : List Document) (key : ContentHash ×ₗ ContentHash) :
    (exactClass documents key).Pairwise fun a b => a.canonicalTuple ≤ b.canonicalTuple :=
  (List.pairwise_mergeSort (fun a b c => by simpa using le_trans) (fun a b => by
    simpa using le_total a.canonicalTuple b.canonicalTuple) _).imp of_decide_eq_true

theorem valuesOf_bodyKey (documents : List Document) (key : ContentHash ×ₗ ContentHash) :
    valuesOf key (documents.map fun d => (d.bodyKey, d)) =
      documents.filter fun d => d.bodyKey = key := by
  simp [valuesOf, List.filter_map, Function.comp_def]

/-- **The map holds the nonempty classes.** -/
theorem mem_exactMap_iff {documents : List Document} {key : ContentHash ×ₗ ContentHash}
    {members : List Document} :
    (key, members) ∈ exactMap documents ↔ members = exactClass documents key ∧ members ≠ [] := by
  have hempty : ∀ ds : List Document,
      (ds.mergeSort fun a b => decide (a.canonicalTuple ≤ b.canonicalTuple)) = [] ↔ ds = [] :=
    fun ds => by rw [← List.length_eq_zero_iff, List.length_mergeSort, List.length_eq_zero_iff]
  rw [exactMap, List.mem_map]
  constructor
  · rintro ⟨⟨k, ds⟩, hmem, heq⟩
    obtain ⟨rfl, hne⟩ := mem_groups.mp hmem
    obtain ⟨rfl, rfl⟩ := Prod.mk.inj heq
    rw [valuesOf_bodyKey] at hne
    rw [valuesOf_bodyKey]
    exact ⟨rfl, fun h => hne ((hempty _).mp h)⟩
  · rintro ⟨rfl, hne⟩
    refine ⟨(key, documents.filter fun d => d.bodyKey = key), mem_groups.mpr ⟨?_, ?_⟩, rfl⟩
    · rw [valuesOf_bodyKey]
    · exact fun h => hne ((hempty _).mpr h)

/-- Two documents of a set with one canonical tuple are one document. -/
theorem eq_of_canonicalTuple {documents : List Document}
    (hids : (documents.map Document.documentId).Nodup) {a b : Document} (ha : a ∈ documents)
    (hb : b ∈ documents) (h : a.canonicalTuple = b.canonicalTuple) : a = b := by
  simp only [Document.canonicalTuple, toLex_inj, Prod.mk.injEq] at h
  exact List.inj_on_of_nodup_map hids ha hb h.2.2.2

theorem exactClass_perm {documents others : List Document}
    (hids : (documents.map Document.documentId).Nodup) (hp : others.Perm documents)
    (key : ContentHash ×ₗ ContentHash) : exactClass others key = exactClass documents key := by
  have hperm : (exactClass others key).Perm (exactClass documents key) :=
    (List.mergeSort_perm _ _).trans ((hp.filter _).trans (List.mergeSort_perm _ _).symm)
  refine hperm.eq_of_pairwise (fun a b ha hb hab hba => ?_) (sorted_exactClass _ _)
    (sorted_exactClass _ _)
  exact eq_of_canonicalTuple hids (hp.subset (mem_exactClass.mp ha).1) (mem_exactClass.mp hb).1
    (le_antisymm hab hba)

theorem sorted_exactMap (documents : List Document) : Sorted (exactMap documents) := by
  have hkeys : (exactMap documents).map Prod.fst =
      (groups (documents.map fun d => (d.bodyKey, d))).map Prod.fst := by
    rw [exactMap, List.map_map]
    rfl
  unfold Sorted
  rw [hkeys]
  exact sorted_groups _

/-- **The classes do not depend on the order of the documents.** -/
theorem exactMap_perm {documents others : List Document}
    (hids : (documents.map Document.documentId).Nodup) (hp : others.Perm documents) :
    exactMap others = exactMap documents := by
  refine (sorted_exactMap others).eq_of_perm (sorted_exactMap documents) ?_
  refine (List.perm_ext_iff_of_nodup (sorted_exactMap others).nodup.of_map
    (sorted_exactMap documents).nodup.of_map).mpr fun ⟨key, members⟩ => ?_
  rw [mem_exactMap_iff, mem_exactMap_iff, exactClass_perm hids hp]

/-! ## Groups -/

/-- The hashes of a group. -/
def ExactDuplicateGroup.key (g : ExactDuplicateGroup) : ContentHash ×ₗ ContentHash :=
  toLex (g.bodyHash, g.frontmatterHash)

/-- A group that lists a class of two documents or more, under its first. -/
structure ReportedClass (documents : List Document) (g : ExactDuplicateGroup) : Prop where
  several : 1 < (exactClass documents g.key).length
  members : g.members = (exactClass documents g.key).map Document.documentId
  canonical : g.members.head? = some g.canonical

theorem exactGroup_eq_some {key : ContentHash ×ₗ ContentHash} {members : List Document}
    {g : ExactDuplicateGroup} :
    exactGroup (key, members) = some g ↔ g.key = key ∧ 1 < members.length ∧
      g.members = members.map Document.documentId ∧ g.members.head? = some g.canonical := by
  obtain ⟨body, frontmatter⟩ := key
  obtain ⟨canonical, ids, bodyHash, frontmatterHash⟩ := g
  match members with
  | [] => simp [exactGroup]
  | [_] => simp [exactGroup]
  | first :: second :: rest =>
    simp only [exactGroup, Option.some.injEq, ExactDuplicateGroup.mk.injEq,
      ExactDuplicateGroup.key]
    constructor
    · rintro ⟨rfl, rfl, rfl, rfl⟩
      exact ⟨rfl, by simp, rfl, rfl⟩
    · rintro ⟨hkey, -, rfl, hhead⟩
      cases hkey
      exact ⟨Option.some.inj hhead, rfl, rfl, rfl⟩

/-- The groups that the analysis reports of a set of documents. -/
def exactGroups (documents : List Document) : List ExactDuplicateGroup :=
  ((exactMap documents).filterMap exactGroup).mergeSort fun a b =>
    decide (a.canonical ≤ b.canonical)

theorem exactGroups_analyze {X : Crates} {documents : List Document} {policy : DedupPolicy}
    {report : DedupReport} (h : analyze X documents policy = .ok report) :
    report.exactGroups = exactGroups documents := by
  simp only [analyze, bind_unit_eq_ok, Except.ok.injEq] at h
  rw [← h.2, exactGroups]

/-- Whether the analysis runs is decided by its policy. -/
theorem analyze_isOk {X : Crates} {documents : List Document} {policy : DedupPolicy}
    {report : DedupReport} (h : analyze X documents policy = .ok report)
    (others : List Document) : ∃ again, analyze X others policy = .ok again := by
  simp only [analyze, bind_unit_eq_ok, Except.ok.injEq] at h ⊢
  exact ⟨_, h.1, rfl⟩

theorem mem_exactGroups {documents : List Document} {g : ExactDuplicateGroup} :
    g ∈ exactGroups documents ↔ ReportedClass documents g := by
  rw [exactGroups, List.mem_mergeSort, List.mem_filterMap]
  constructor
  · rintro ⟨⟨key, members⟩, hmem, hg⟩
    obtain ⟨rfl, -⟩ := mem_exactMap_iff.mp hmem
    obtain ⟨rfl, hlen, hmembers, hhead⟩ := exactGroup_eq_some.mp hg
    exact ⟨hlen, hmembers, hhead⟩
  · intro h
    refine ⟨(g.key, exactClass documents g.key), mem_exactMap_iff.mpr ⟨rfl, ?_⟩,
      exactGroup_eq_some.mpr ⟨rfl, h.several, h.members, h.canonical⟩⟩
    exact List.ne_nil_of_length_pos (Nat.zero_lt_of_lt h.several)

/-- No class is reported twice. -/
theorem keys_exactGroups (documents : List Document) :
    ((exactGroups documents).map ExactDuplicateGroup.key).Nodup := by
  refine ((List.mergeSort_perm _ _).map _).nodup_iff.mpr ?_
  have hnodup : ((exactMap documents).map Prod.fst).Nodup := (sorted_exactMap documents).nodup
  generalize exactMap documents = m at hnodup
  induction m with
  | nil => exact List.nodup_nil
  | cons entry m ih =>
    obtain ⟨hnew, hrest⟩ := List.nodup_cons.mp hnodup
    cases hg : exactGroup entry with
    | none => simpa [List.filterMap_cons, hg] using ih hrest
    | some g =>
      rw [List.filterMap_cons, hg]
      refine List.nodup_cons.mpr ⟨fun hin => hnew ?_, ih hrest⟩
      obtain ⟨k, hk, hkey⟩ := List.mem_map.mp hin
      obtain ⟨other, hother, hsome⟩ := List.mem_filterMap.mp hk
      have hfst := (exactGroup_eq_some.mp hg).1.symm.trans
        (hkey.symm.trans (exactGroup_eq_some.mp hsome).1)
      exact hfst ▸ List.mem_map_of_mem hother

/-! ## Representatives -/

theorem GroupOf.congr {documents others : List Document} (h : ∀ d, d ∈ others ↔ d ∈ documents)
    {g : ExactDuplicateGroup} (hg : GroupOf documents g) : GroupOf others g := by
  obtain ⟨hmember, c, hc, hid, hkey, hleast⟩ := hg
  refine ⟨fun m => ?_, c, (h c).mpr hc, hid, hkey, fun d hd => hleast d ((h d).mp hd)⟩
  simp only [hmember, h]

theorem groupOf_exactGroups {documents : List Document} {g : ExactDuplicateGroup}
    (hg : g ∈ exactGroups documents) : GroupOf documents g := by
  obtain ⟨entry, hentry, hsome⟩ := List.mem_filterMap.mp (List.mem_mergeSort.mp hg)
  exact groupOf_exactGroup hentry hsome

theorem DocumentsKeyed.nodup {w : CanonicalWorkspace} (hw : DocumentsKeyed w)
    {documents : List Document} (hp : documents.Perm (w.documents.map Prod.snd)) :
    (documents.map Document.documentId).Nodup := by
  have hkeys : w.documents.map (Document.documentId ∘ Prod.snd) = w.documents.map Prod.fst :=
    List.map_congr_left hw.key
  rw [(hp.map _).nodup_iff, List.map_map, hkeys]
  exact hw.sorted.nodup

/-- **A document is represented by the least of its class.** -/
theorem get?_representativeMap {w : CanonicalWorkspace} (hw : DocumentsKeyed w)
    {documents : List Document} (hp : documents.Perm (w.documents.map Prod.snd)) {d : Document}
    (hd : d ∈ documents) :
    get? d.documentId (representativeMap w (exactGroups documents)) =
      (exactClass documents d.bodyKey).head?.map Document.documentId := by
  have hids := hw.nodup hp
  have hclass : d ∈ exactClass documents d.bodyKey := mem_exactClass.mpr ⟨hd, rfl⟩
  have hgroups : ∀ g ∈ exactGroups documents, GroupOf (w.documents.map Prod.snd) g :=
    fun g hg => (groupOf_exactGroups hg).congr fun _ => hp.mem_iff.symm
  have hrep := represents_representativeMap hw hgroups
  have hkey : d.documentId ∈ (representativeMap w (exactGroups documents)).map Prod.fst := by
    obtain ⟨e, he, rfl⟩ := List.mem_map.mp (hp.subset hd)
    rw [hrep.keys, hw.key e he]
    exact List.mem_map_of_mem he
  obtain ⟨⟨m, r⟩, hmem, rfl⟩ := List.mem_map.mp hkey
  rw [get?_of_mem hrep.sorted.nodup hmem]
  rcases mem_representativeMap hmem with ⟨g, hg, hm, rfl⟩ | ⟨hno, rfl, -⟩
  · -- the group is the one of the document's hashes
    obtain ⟨e, he, hid, hekey⟩ := ((groupOf_exactGroups hg).member _).mp hm
    obtain rfl : e = d := List.inj_on_of_nodup_map hids he hd hid
    have hg := mem_exactGroups.mp hg
    rw [hekey, ← List.head?_map]
    exact (hg.members ▸ hg.canonical).symm
  · -- a class that is not reported has one document
    have hshort : (exactClass documents d.bodyKey).length ≤ 1 := by
      by_contra hlong
      match hlist : exactClass documents d.bodyKey with
      | [] => simp [hlist] at hlong
      | first :: rest =>
        let g : ExactDuplicateGroup := ⟨first.documentId, (first :: rest).map Document.documentId,
          d.bodyHash, d.frontmatterHash⟩
        have hreported : ReportedClass documents g := by
          refine ⟨?_, ?_, rfl⟩
          · exact Nat.lt_of_not_le hlong
          · exact (congrArg (List.map Document.documentId) hlist).symm
        refine hno g (mem_exactGroups.mpr hreported) ?_
        exact List.mem_map_of_mem (hlist ▸ hclass)
    obtain ⟨only, honly⟩ := List.length_eq_one_iff.mp
      (Nat.le_antisymm hshort (List.length_pos_of_mem hclass))
    rw [honly, List.mem_singleton] at hclass
    rw [honly, hclass]
    rfl

/-- What the groups and the representatives of a set of documents say. -/
structure ExactPartition (documents : List Document) (groups : List ExactDuplicateGroup)
    (map : List (DocumentId × DocumentId)) : Prop where
  /-- Representatives coincide where the hashes do. -/
  same : ∀ d ∈ documents, ∀ e ∈ documents, get? d.documentId map = get? e.documentId map ↔
    d.bodyHash = e.bodyHash ∧ d.frontmatterHash = e.frontmatterHash
  /-- The representative is the canonical minimum of the class. -/
  least : ∀ d ∈ documents, ∃ c ∈ documents, get? d.documentId map = some c.documentId ∧
    c.bodyKey = d.bodyKey ∧
    ∀ e ∈ documents, e.bodyKey = d.bodyKey → c.canonicalTuple ≤ e.canonicalTuple
  /-- It represents itself. -/
  fixed : ∀ d ∈ documents, ∀ r, get? d.documentId map = some r → get? r map = some r
  /-- The groups are the classes of two documents or more, each once. -/
  reported : ∀ g, g ∈ groups ↔ ReportedClass documents g
  once : (groups.map ExactDuplicateGroup.key).Nodup

/-- The least of a class. -/
theorem head?_exactClass {documents : List Document} {d : Document} (hd : d ∈ documents) :
    ∃ c ∈ documents, (exactClass documents d.bodyKey).head? = some c ∧ c.bodyKey = d.bodyKey ∧
      ∀ e ∈ documents, e.bodyKey = d.bodyKey → c.canonicalTuple ≤ e.canonicalTuple := by
  have hclass : d ∈ exactClass documents d.bodyKey := mem_exactClass.mpr ⟨hd, rfl⟩
  have hsorted := sorted_exactClass documents d.bodyKey
  match hlist : exactClass documents d.bodyKey with
  | [] => simp [hlist] at hclass
  | c :: rest =>
    obtain ⟨hc, hkey⟩ := mem_exactClass.mp (hlist ▸ List.mem_cons_self)
    refine ⟨c, hc, rfl, hkey, fun e he hekey => ?_⟩
    rw [hlist] at hsorted
    rcases List.mem_cons.mp (hlist ▸ mem_exactClass.mpr ⟨he, hekey⟩) with rfl | hrest
    · exact le_refl _
    · exact List.rel_of_pairwise_cons hsorted hrest

theorem exactPartition {w : CanonicalWorkspace} (hw : DocumentsKeyed w)
    {documents : List Document} (hp : documents.Perm (w.documents.map Prod.snd)) :
    ExactPartition documents (exactGroups documents)
      (representativeMap w (exactGroups documents)) := by
  have hids := hw.nodup hp
  refine ⟨fun d hd e he => ?_, fun d hd => ?_, fun d hd r hr => ?_, fun _ => mem_exactGroups,
    keys_exactGroups _⟩
  · rw [get?_representativeMap hw hp hd, get?_representativeMap hw hp he]
    obtain ⟨c, hc, hhead, hckey, -⟩ := head?_exactClass hd
    obtain ⟨b, hb, hbhead, hbkey, -⟩ := head?_exactClass he
    rw [hhead, hbhead, Option.map_some, Option.map_some, Option.some.injEq]
    constructor
    · intro hid
      obtain rfl := List.inj_on_of_nodup_map hids hc hb hid
      exact Prod.mk.inj (toLex.injective (hckey.symm.trans hbkey))
    · rintro ⟨hbody, hfrontmatter⟩
      have hkey : d.bodyKey = e.bodyKey := by
        rw [Document.bodyKey, Document.bodyKey, hbody, hfrontmatter]
      rw [hkey, hbhead, Option.some.injEq] at hhead
      rw [hhead]
  · rw [get?_representativeMap hw hp hd]
    obtain ⟨c, hc, hhead, hkey, hleast⟩ := head?_exactClass hd
    exact ⟨c, hc, by rw [hhead]; rfl, hkey, hleast⟩
  · rw [get?_representativeMap hw hp hd] at hr
    obtain ⟨c, hc, hhead, hkey, -⟩ := head?_exactClass hd
    rw [hhead] at hr
    obtain rfl := Option.some.inj hr
    rw [get?_representativeMap hw hp hc, hkey, hhead]
    rfl

/-- **Representatives and reported groups are the partition into exact duplicates**, whatever the
order in which the documents of a workspace are analyzed. -/
theorem analyze_exactPartition {X : Crates} {policy : DedupPolicy} {w : CanonicalWorkspace}
    (hw : DocumentsKeyed w) {documents : List Document}
    (hp : documents.Perm (w.documents.map Prod.snd)) {report : DedupReport}
    (h : analyze X documents policy = .ok report) :
    ExactPartition documents report.exactGroups (representativeMap w report.exactGroups) ∧
      ∀ others : List Document, others.Perm documents →
        ∃ again, analyze X others policy = .ok again ∧ again.exactGroups = report.exactGroups ∧
          representativeMap w again.exactGroups = representativeMap w report.exactGroups := by
  have hgroups := exactGroups_analyze h
  refine ⟨hgroups ▸ exactPartition hw hp, fun others hothers => ?_⟩
  obtain ⟨again, hagain⟩ := analyze_isOk h others
  have heq : again.exactGroups = report.exactGroups := by
    rw [exactGroups_analyze hagain, hgroups, exactGroups, exactGroups,
      exactMap_perm (hw.nodup hp) hothers]
  exact ⟨again, hagain, heq, by rw [heq]⟩

/-- Two notes with one text, under two names. -/
def copiedNote (i : Nat) : Document :=
  { plainNote "vault" (bulkName i) i with bodyHash := indexHash 0 }

def copiedWorkspace : CanonicalWorkspace where
  documents := [1, 2].map fun i => (⟨indexHash i⟩, copiedNote i)
  canvases := []
  assets := []
  bases := []

theorem analyze_exactPartition_copies :
    DocumentsKeyed copiedWorkspace ∧
      [copiedNote 2, copiedNote 1].Perm (copiedWorkspace.documents.map Prod.snd) ∧
      ∃ report, analyze (plainCrates (plainExternals prefixHash)) [copiedNote 2, copiedNote 1]
          CompilerPolicy.default.dedup = .ok report ∧
        ExactPartition [copiedNote 2, copiedNote 1] report.exactGroups
          (representativeMap copiedWorkspace report.exactGroups) := by
  have hkeyed : DocumentsKeyed copiedWorkspace :=
    ⟨by unfold Sorted; decide, fun e he => by
      obtain ⟨i, -, rfl⟩ := List.mem_map.mp he
      rfl⟩
  have hperm : [copiedNote 2, copiedNote 1].Perm (copiedWorkspace.documents.map Prod.snd) :=
    List.Perm.swap _ _ _
  obtain ⟨report, hreport, -⟩ := analyze_complete (plainCrates (plainExternals prefixHash))
    .default (validate_default (fun _ => rfl) fun _ => rfl) [copiedNote 2, copiedNote 1] (by decide)
  exact ⟨hkeyed, hperm, report, hreport, (analyze_exactPartition hkeyed hperm hreport).1⟩

end Okc.Core
