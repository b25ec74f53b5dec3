import Okc.Core.Bulk
import Okc.Core.Materialize

/-!
# The outputs of a valid plan (`integration.rs:1593-1633`, `1805-1929`)

Notes and stubs are checked in two separate path maps, one for each top-level directory. Together
they still form one set of portable outputs: no two of them fold to the same path, and none is
above another.

* `fold_ne_of_insertable`: paths collected by one map have distinct folded spellings.
* `outputs_of_valid`: a valid plan has exactly its notes and stubs as outputs.
-/

namespace Okc.Core

open Okc.Lib

/-- What Unicode folding does to path texts: a slash neither composes nor folds, and lowercase
ASCII letters stand for themselves. -/
structure Externals.FoldsPaths (X : Externals) : Prop where
  slash : ∀ a b, X.fullCasefoldNfc (a ++ "/" ++ b) =
    X.fullCasefoldNfc a ++ "/" ++ X.fullCasefoldNfc b
  lower : ∀ s : String, (∀ c ∈ s.toList, 'a' ≤ c ∧ c ≤ 'z') → X.fullCasefoldNfc s = s

/-- Paths that differ as portable outputs: in their folded spelling, and neither above the other. -/
def Distinct (X : Externals) (p q : String) : Prop :=
  X.fullCasefoldNfc p ≠ X.fullCasefoldNfc q ∧ Apart p q

section

variable {X : Externals}

theorem Distinct.symm {p q : String} (h : Distinct X p q) : Distinct X q p :=
  ⟨h.1.symm, h.2.symm⟩

/-- Collected paths have distinct folded spellings. -/
theorem fold_ne_of_insertable {paths : List String} (h : ScannedFrom (Insertable X) [] paths) :
    paths.Pairwise fun p q => X.fullCasefoldNfc p ≠ X.fullCasefoldNfc q := by
  have hport := (insertable_apart h).1
  have hmeets : ScannedFrom (fun b q => ∀ p ∈ b,
      ∀ d ∈ prefixEntries "" (splitSlash p), ∀ e ∈ prefixEntries "" (splitSlash q),
      X.fullCasefoldNfc d.1 = X.fullCasefoldNfc e.1 → e.2 = false) [] paths := by
    refine h.imp fun b q hi p hp d hd e he hkey => ?_
    exact ((scannedFrom_pairwise.mp hi.2).2 d
      (List.mem_flatMap.mpr ⟨p, hp, List.mem_reverse.mpr hd⟩) e he hkey).2
  refine (scannedFrom_pairwise.mp hmeets).1.imp_of_mem fun {p q} hp hq hR hkey => ?_
  have hself : ∀ {r : String}, Portable X r → (r, true) ∈ prefixEntries "" (splitSlash r) :=
    fun {r} hr => (mem_entries hr.ne_empty).mpr
      ⟨splitSlash r, splitSlash_ne_nil r, List.prefix_refl _, by rw [joinSlash_splitSlash]; simp⟩
  cases hR _ (hself (hport p hp)) _ (hself (hport q hq)) hkey

theorem distinct_of_insertable {paths : List String} (h : ScannedFrom (Insertable X) [] paths) :
    paths.Pairwise (Distinct X) :=
  (fold_ne_of_insertable h).and (insertable_apart h).2

/-- The folded spelling of a path below a lowercase directory starts with it. -/
theorem fold_below (hX : X.FoldsPaths) {top : String} (htop : ∀ c ∈ top.toList, 'a' ≤ c ∧ c ≤ 'z')
    (rest : String) : X.fullCasefoldNfc (top ++ "/" ++ rest) =
      top ++ "/" ++ X.fullCasefoldNfc rest := by
  rw [hX.slash, hX.lower top htop]

/-- Notes and stubs stand below different directories. -/
theorem distinct_note_stub (hX : X.FoldsPaths) (c : TaxonomyCluster) (d : IntegrationDocument) :
    Distinct X c.notePath d.stubPath := by
  have hnote : ∀ c ∈ "knowledge".toList, 'a' ≤ c ∧ c ≤ 'z' :=
    forall_of_all (by decide)
  have hstub : ∀ c ∈ "legacy".toList, 'a' ≤ c ∧ c ≤ 'z' :=
    forall_of_all (by decide)
  constructor
  · intro h
    have hpath : d.stubPath = "legacy" ++ "/" ++ (d.sourceId.value ++ "/" ++ d.originalPath) := by
      apply String.toList_inj.mp
      simp [IntegrationDocument.stubPath]
    have hnotePath : c.notePath = "knowledge" ++ "/" ++ c.canonicalPath := rfl
    rw [hpath, hnotePath, fold_below hX hnote, fold_below hX hstub] at h
    have hhead := congrArg (fun s : String => s.toList.head?) h
    simp only [String.toList_append, List.head?_append] at hhead
    revert hhead
    simp
  · obtain ⟨rest, hrest⟩ := splitSlash_stubPath d
    simp [Apart, splitSlash_notePath, hrest, List.cons_prefix_cons]

end

/-- **The outputs of a valid plan are its notes and its stubs.** -/
theorem outputs_of_valid {X : Externals} {p : ApprovedIntegrationPlan} (hX : X.FoldsPaths)
    (hv : validatePlan X p = .ok ()) : ∃ files provenance,
      materializedFiles X p = .ok files ∧ provenanceJsonl X p files = .ok provenance ∧
      (files.map Prod.fst).Perm (p.taxonomy.clusters.map (fun c => "knowledge/" ++ c.canonicalPath) ++
        p.corpus.documents.map fun d => "legacy/" ++ d.sourceId.value ++ "/" ++ d.originalPath) ∧
      files.Pairwise fun f g => Distinct X f.1 g.1 := by
  have h := validatePlan_eq_ok.mp hv
  obtain ⟨files, hf⟩ := materializedFiles_isOk h
  obtain ⟨provenance, hprov⟩ := provenanceJsonl_isOk h hf
  have hpaths := materializedFiles_paths h hf
  have hdistinct : (outputPaths p).Pairwise (Distinct X) := by
    refine List.pairwise_append.mpr ⟨distinct_of_insertable h.taxonomy.outputPaths,
      distinct_of_insertable h.corpus.outputPaths, fun a ha b hb => ?_⟩
    obtain ⟨c, -, rfl⟩ := List.mem_map.mp ha
    obtain ⟨d, -, rfl⟩ := List.mem_map.mp hb
    exact distinct_note_stub hX c d
  refine ⟨files, provenance, hf, hprov, hpaths, ?_⟩
  exact List.pairwise_map.mp ((hpaths.pairwise_iff Distinct.symm).mpr hdistinct)

theorem plainExternals_foldsPaths (sha256 : Bytes → ContentHash) :
    (plainExternals sha256).FoldsPaths := ⟨fun _ _ => rfl, fun _ _ => rfl⟩

theorem outputs_of_valid_bulk :
    let p := bulkPlan (plainExternals prefixHash) 3
    ∃ files provenance, materializedFiles (plainExternals prefixHash) p = .ok files ∧
      provenanceJsonl (plainExternals prefixHash) p files = .ok provenance ∧
      (files.map Prod.fst).Perm (p.taxonomy.clusters.map (fun c => "knowledge/" ++ c.canonicalPath) ++
        p.corpus.documents.map fun d => "legacy/" ++ d.sourceId.value ++ "/" ++ d.originalPath) ∧
      files.Pairwise fun f g => Distinct (plainExternals prefixHash) f.1 g.1 :=
  outputs_of_valid (plainExternals_foldsPaths prefixHash)
    (validatePlan_eq_ok.mpr (bulkPlan_valid prefixHash (by decide) (by decide)))

end Okc.Core
