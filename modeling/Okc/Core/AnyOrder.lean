import Okc.Core.Bulk

/-!
# Collecting output paths in any order (`integration.rs:1222-1251`, `parse.rs:1207-1210`)

`PortableOutputPaths::insert` keeps every prefix of every path in one map under its folded
spelling, and refuses a path when one of its prefixes meets an entry. A prefix meets another
prefix of the same path never: folding keeps the separators, so the two keys have different
depths.

* `DirectoriesOf`: the proper prefixes of a path.
* `KeptApart`: what has to hold between two paths of a collection.
* `meetsAll_iff`: it is what the entries of the two need.
* `insertPaths_iff`: the paths can be collected iff it holds pairwise, and the collection is the
  same in every order.
-/

namespace Okc.Core

open Okc.Lib

/-- Neither normalising nor case folding makes or removes a separator. -/
structure KeepsSlashes (X : Externals) : Prop where
  nfc : ∀ s, (X.nfc s).toList.count '/' = s.toList.count '/'
  caseFold : ∀ s, (X.caseFold s).toList.count '/' = s.toList.count '/'

theorem KeepsSlashes.fold {X : Externals} (h : KeepsSlashes X) (s : String) :
    (X.fullCasefoldNfc s).toList.count '/' = s.toList.count '/' :=
  (h.caseFold _).trans (h.nfc s)

/-! ## Two paths -/

/-- The directories on the way to a path, the outermost first. -/
def directoriesOf (path : String) : List String :=
  ((splitSlash path).inits.filter fun q => q ≠ [] ∧ q ≠ splitSlash path).map joinSlash

/-- Two paths are told apart by their folded spellings, neither lies below the other, and the
directories that they share are spelled alike. -/
structure KeptApart (X : Externals) (p q : String) : Prop where
  path : X.fullCasefoldNfc p ≠ X.fullCasefoldNfc q
  above : ∀ d ∈ directoriesOf q, X.fullCasefoldNfc p ≠ X.fullCasefoldNfc d
  under : ∀ d ∈ directoriesOf p, X.fullCasefoldNfc d ≠ X.fullCasefoldNfc q
  spelling : ∀ d ∈ directoriesOf p, ∀ e ∈ directoriesOf q,
    X.fullCasefoldNfc d = X.fullCasefoldNfc e → d = e

theorem KeptApart.symm {X : Externals} {p q : String} (h : KeptApart X p q) : KeptApart X q p where
  path he := h.path he.symm
  above d hd he := h.under d hd he.symm
  under d hd he := h.above d hd he.symm
  spelling d hd e he heq := (h.spelling e he d hd heq.symm).symm

theorem mem_directoriesOf {path d : String} :
    d ∈ directoriesOf path ↔
      ∃ q, q ≠ [] ∧ q <+: splitSlash path ∧ q ≠ splitSlash path ∧ d = joinSlash q := by
  simp only [directoriesOf, List.mem_map, List.mem_filter, List.mem_inits, decide_eq_true_eq]
  constructor
  · rintro ⟨q, ⟨hpre, hne, hpath⟩, rfl⟩
    exact ⟨q, hne, hpre, hpath, rfl⟩
  · rintro ⟨q, hne, hpre, hpath, rfl⟩
    exact ⟨q, ⟨hpre, hne, hpath⟩, rfl⟩

/-- The prefixes that are collected are the path as a file, and its directories. -/
theorem mem_entries_iff {X : Externals} {path : String} (h : Portable X path) {e : String × Bool} :
    e ∈ prefixEntries "" (splitSlash path) ↔
      e = (path, true) ∨ ∃ d ∈ directoriesOf path, e = (d, false) := by
  rw [mem_entries h.ne_empty]
  constructor
  · rintro ⟨q, hne, hpre, rfl⟩
    by_cases hq : q = splitSlash path
    · exact Or.inl (by rw [hq, joinSlash_splitSlash]; simp)
    · exact Or.inr ⟨joinSlash q, mem_directoriesOf.mpr ⟨q, hne, hpre, hq, rfl⟩, by simp [hq]⟩
  · rintro (rfl | ⟨d, hd, rfl⟩)
    · exact ⟨_, splitSlash_ne_nil path, List.prefix_refl _, by simp [joinSlash_splitSlash]⟩
    · obtain ⟨q, hne, hpre, hq, rfl⟩ := mem_directoriesOf.mp hd
      exact ⟨q, hne, hpre, by simp [hq]⟩

/-- What the entries of a path need of those of an earlier one. -/
def MeetsAll (X : Externals) (p q : String) : Prop :=
  ∀ d ∈ prefixEntries "" (splitSlash p), ∀ e ∈ prefixEntries "" (splitSlash q),
    X.fullCasefoldNfc d.1 = X.fullCasefoldNfc e.1 → d = e ∧ e.2 = false

theorem meetsAll_iff {X : Externals} {p q : String} (hp : Portable X p) (hq : Portable X q) :
    MeetsAll X p q ↔ KeptApart X p q := by
  have hself : ∀ {r : String}, Portable X r → (r, true) ∈ prefixEntries "" (splitSlash r) :=
    fun hr => (mem_entries_iff hr).mpr (Or.inl rfl)
  have hdir : ∀ {r d : String}, Portable X r → d ∈ directoriesOf r →
      (d, false) ∈ prefixEntries "" (splitSlash r) := fun hr hd =>
    (mem_entries_iff hr).mpr (Or.inr ⟨_, hd, rfl⟩)
  constructor
  · intro h
    refine ⟨fun heq => ?_, fun d hd heq => ?_, fun d hd heq => ?_, fun d hd e he heq => ?_⟩
    · cases (h _ (hself hp) _ (hself hq) heq).2
    · cases (h _ (hself hp) _ (hdir hq hd) heq).1
    · cases (h _ (hdir hp hd) _ (hself hq) heq).2
    · exact congrArg Prod.fst (h _ (hdir hp hd) _ (hdir hq he) heq).1
  · intro h d hd e he heq
    rcases (mem_entries_iff hp).mp hd with rfl | ⟨d, hd', rfl⟩ <;>
      rcases (mem_entries_iff hq).mp he with rfl | ⟨e, he', rfl⟩
    · exact absurd heq h.path
    · exact absurd heq (h.above e he')
    · exact absurd heq (h.under d hd')
    · exact ⟨Prod.ext (h.spelling d hd' e he' heq) rfl, rfl⟩

/-! ## One path -/

theorem count_joinSlash {q : List String} (hne : q ≠ []) (h : ∀ c ∈ q, '/' ∉ c.toList) :
    (joinSlash q).toList.count '/' + 1 = q.length := by
  induction q using List.reverseRecOn with
  | nil => exact absurd rfl hne
  | append_singleton q c ih =>
    have hc : c.toList.count '/' = 0 := List.count_eq_zero.mpr (h c (by simp))
    by_cases hq : q = []
    · rw [hq, List.nil_append, joinSlash_singleton, hc]
      rfl
    · have hlength := ih hq fun d hd => h d (List.mem_append_left _ hd)
      rw [joinSlash_append_singleton hq, List.length_append, ← hlength]
      simp [List.count_append, hc]

/-- The prefixes of one path have different folded spellings. -/
theorem pairwise_fold_entries {X : Externals} (hX : KeepsSlashes X) {path : String}
    (h : Portable X path) :
    (prefixEntries "" (splitSlash path)).Pairwise fun d e =>
      X.fullCasefoldNfc d.1 ≠ X.fullCasefoldNfc e.1 := by
  have hdistinct := @pairwise_prefixEntries [] (splitSlash path) (by simpa using h.nameOk)
  refine hdistinct.imp_of_mem fun hd he hne heq => hne ?_
  obtain ⟨a, ha, hap, rfl⟩ := (mem_entries h.ne_empty).mp hd
  obtain ⟨b, hb, hbp, rfl⟩ := (mem_entries h.ne_empty).mp he
  have hslash : ∀ {q}, q <+: splitSlash path → ∀ c ∈ q, '/' ∉ c.toList := fun hq c hc =>
    (h.nameOk c (hq.subset hc)).2
  have hcount : (joinSlash a).toList.count '/' = (joinSlash b).toList.count '/' := by
    rw [← hX.fold, ← hX.fold (joinSlash b)]
    exact congrArg (fun s => s.toList.count '/') heq
  have hlength : a.length = b.length := by
    rw [← count_joinSlash ha (hslash hap), ← count_joinSlash hb (hslash hbp), hcount]
  rw [List.prefix_iff_eq_take.mp hap, List.prefix_iff_eq_take.mp hbp, hlength]

/-! ## All paths -/

theorem insertPaths_isOk {X : Externals} {paths : List String} :
    (∃ t, paths.foldlM (insertPath X) [] = .ok t) ↔ ScannedFrom (Insertable X) [] paths :=
  foldlM_isOk (insertPath X) (Insertable X) (fun t before => Records X t (recorded before))
    (fun _ _ _ => insertPath_isOk) (fun _ _ _ _ => insertPath_records) paths
    (records_nil X)

theorem insertable_iff {X : Externals} (hX : KeepsSlashes X) {before : List String} {path : String}
    (h : Portable X path) :
    Insertable X before path ↔ ∀ p ∈ before, MeetsAll X p path := by
  have hown : (prefixEntries "" (splitSlash path)).Pairwise fun d e =>
      X.fullCasefoldNfc d.1 = X.fullCasefoldNfc e.1 → d = e ∧ e.2 = false :=
    (pairwise_fold_entries hX h).imp fun hne heq => absurd heq hne
  have hscan : ScannedFrom (Meets X) (recorded before) (prefixEntries "" (splitSlash path)) ↔
      ∀ d ∈ recorded before, ∀ e ∈ prefixEntries "" (splitSlash path),
        X.fullCasefoldNfc d.1 = X.fullCasefoldNfc e.1 → d = e ∧ e.2 = false :=
    scannedFrom_pairwise.trans (and_iff_right hown)
  rw [Insertable, and_iff_right h, hscan]
  constructor
  · intro hall p hp d hd
    exact hall d (List.mem_flatMap.mpr ⟨p, hp, List.mem_reverse.mpr hd⟩)
  · intro hall d hd
    obtain ⟨p, hp, hd⟩ := List.mem_flatMap.mp hd
    exact hall p hp d (List.mem_reverse.mp hd)

/-- Portable paths can be collected iff they are kept apart. -/
theorem scanned_iff {X : Externals} (hX : KeepsSlashes X) {paths : List String}
    (hport : ∀ p ∈ paths, Portable X p) :
    ScannedFrom (Insertable X) [] paths ↔ paths.Pairwise (KeptApart X) := by
  have hall : ScannedFrom (fun _ q => Portable X q) [] paths := scannedFrom_const.mpr hport
  have hpairs : ScannedFrom (fun b q => ∀ p ∈ b, MeetsAll X p q) [] paths ↔
      paths.Pairwise (MeetsAll X) :=
    scannedFrom_pairwise.trans (and_iff_left fun _ hy => by cases hy)
  have hmeets : ScannedFrom (Insertable X) [] paths ↔ paths.Pairwise (MeetsAll X) := by
    rw [← hpairs]
    constructor
    · intro h
      exact (scannedFrom_and.mpr ⟨h, hall⟩).imp fun _ _ hi => (insertable_iff hX hi.2).mp hi.1
    · intro h
      exact (scannedFrom_and.mpr ⟨h, hall⟩).imp fun _ _ hi => (insertable_iff hX hi.2).mpr hi.1
  rw [hmeets]
  constructor
  · exact fun h => h.imp_of_mem fun hp hq hm => (meetsAll_iff (hport _ hp) (hport _ hq)).mp hm
  · exact fun h => h.imp_of_mem fun hp hq hk => (meetsAll_iff (hport _ hp) (hport _ hq)).mpr hk

theorem sorted_insertEntry {X : Externals} {path : String} {paths t : PortableOutputPaths}
    {e : String × Bool} (hs : Sorted paths) (h : insertEntry X path paths e = .ok t) :
    Sorted t := by
  unfold insertEntry at h
  split at h
  · split_ifs at h
    exact Except.ok.inj h ▸ hs
  · exact Except.ok.inj h ▸ sorted_insertKey _ _ hs

theorem sorted_insertPath {X : Externals} {path : String} {paths t : PortableOutputPaths}
    {entries : List (String × Bool)} (hs : Sorted paths) (hrec : Records X paths entries)
    (h : insertPath X paths path = .ok t) : Sorted t := by
  simp only [insertPath, bind_unit_eq_ok] at h
  have hboth := foldlM_represents (fun u before => Sorted u ∧ Records X u before)
    (fun _ _ _ _ hu hstep => ⟨sorted_insertEntry hu.1 hstep, insertEntry_records hu.2 hstep⟩)
    _ ⟨hs, hrec⟩ h.2
  exact hboth.1

/-- The collection is a map of the prefixes of the paths. -/
theorem insertPaths_records {X : Externals} {paths : List String} {t : PortableOutputPaths}
    (h : paths.foldlM (insertPath X) [] = .ok t) :
    Sorted t ∧ Records X t (recorded paths.reverse) := by
  have hnil : Sorted ([] : PortableOutputPaths) ∧ Records X [] (recorded []) :=
    ⟨List.Pairwise.nil, records_nil X⟩
  have hrec := foldlM_represents (fun u before => Sorted u ∧ Records X u (recorded before))
    (fun _ _ _ _ hu hstep => ⟨sorted_insertPath hu.1 hu.2 hstep, insertPath_records hu.2 hstep⟩)
    paths hnil h
  rwa [List.append_nil] at hrec

/-- Two orders collect the same. -/
theorem insertPaths_perm {X : Externals} {paths others : List String}
    {t u : PortableOutputPaths} (hperm : others.Perm paths)
    (ht : paths.foldlM (insertPath X) [] = .ok t)
    (hu : others.foldlM (insertPath X) [] = .ok u) : u = t := by
  have hmem : ∀ e, e ∈ recorded others.reverse ↔ e ∈ recorded paths.reverse := fun e => by
    simp only [recorded, List.mem_flatMap, List.mem_reverse, hperm.mem_iff]
  obtain ⟨hsorted, hrec⟩ := insertPaths_records hu
  obtain ⟨hsorted', hrec'⟩ := insertPaths_records ht
  refine hsorted.eq_of_get? hsorted' fun key => Option.ext fun e => ?_
  rw [hrec key e, hrec' key e, hmem]

/-- **Paths can be collected iff they are kept apart pairwise**, in any order, with the same
collection for each. -/
theorem insertPaths_iff {X : Externals} (hX : KeepsSlashes X) {paths : List String}
    (hvalid : ∀ p ∈ paths, validateRelativePath X p = .ok ()) :
    ((∃ t, paths.foldlM (insertPath X) [] = .ok t) ↔ paths.Pairwise (KeptApart X)) ∧
      ∀ others : List String, others.Perm paths →
        (others.foldlM (insertPath X) []).toOption = (paths.foldlM (insertPath X) []).toOption := by
  have hport : ∀ p ∈ paths, Portable X p := fun p hp => validateRelativePath_eq_ok.mp (hvalid p hp)
  have hiff : ∀ {others : List String}, others.Perm paths →
      ((∃ t, others.foldlM (insertPath X) [] = .ok t) ↔ paths.Pairwise (KeptApart X)) := by
    intro others hperm
    rw [insertPaths_isOk, scanned_iff hX fun p hp => hport p (hperm.mem_iff.mp hp)]
    exact hperm.pairwise_iff KeptApart.symm
  refine ⟨hiff (List.Perm.refl _), fun others hperm => ?_⟩
  have hboth := (hiff hperm).trans (hiff (List.Perm.refl _)).symm
  cases hu : others.foldlM (insertPath X) [] with
  | ok u =>
    obtain ⟨t, ht⟩ := hboth.mp ⟨u, hu⟩
    rw [ht, insertPaths_perm hperm ht hu]
  | error e =>
    cases ht : paths.foldlM (insertPath X) [] with
    | ok t =>
      obtain ⟨u, hu'⟩ := hboth.mpr ⟨t, ht⟩
      cases hu.symm.trans hu'
    | error e' => rfl

/-- A directory that two notes share. -/
theorem insertPaths_iff_notes :
    ((∃ t, ["rust/a.md", "rust/b.md"].foldlM (insertPath (plainExternals prefixHash)) [] = .ok t) ↔
      ["rust/a.md", "rust/b.md"].Pairwise (KeptApart (plainExternals prefixHash))) ∧
    ∀ others : List String, others.Perm ["rust/a.md", "rust/b.md"] →
      (others.foldlM (insertPath (plainExternals prefixHash)) []).toOption =
        (["rust/a.md", "rust/b.md"].foldlM (insertPath (plainExternals prefixHash)) []).toOption :=
  insertPaths_iff ⟨fun _ => rfl, fun _ => rfl⟩ (by decide +kernel)

end Okc.Core
