import Okc.Core.Limits

/-!
# A verified tree is the staged tree

Compilation and verification build the envelope of a plan by different means. Both describe the
same tree: what verification accepts is what compilation would write for the plan the tree itself
carries, and what compilation writes is accepted unless a size limit is in the way.

* `staged_of_verify`: an accepted tree is the staged tree of its own plan, as long as SHA-256
  separates the files the two hold at one path.
* `verify_envelope`: the tree that holds the envelope of a valid plan is accepted iff its manifest
  and its plan keep the verifier's limits.
-/

namespace Okc.Core

open Okc.Lib

/-- SHA-256 separates what two trees hold at the same path. -/
def Externals.Separates (X : Externals) (t u : Tree) : Prop :=
  ∀ path b c, t.read path = some b → u.read path = some c → X.sha256 b = X.sha256 c → b = c

/-! ## Planned paths -/

theorem plannedBelow_iff {paths : List (String × Nat)} (hs : Sorted paths) {dirPrefix : String} :
    plannedBelow paths dirPrefix = true ↔
      ∃ e ∈ paths, dirPrefix.toList <+: e.1.toList := by
  unfold plannedBelow
  constructor
  · intro h
    cases hr : rangeFrom dirPrefix paths with
    | none => simp [hr] at h
    | some e => exact ⟨e, List.mem_of_find?_eq_some hr, by simpa [hr] using h⟩
  · rintro ⟨e, he, hp⟩
    have hle : dirPrefix ≤ e.1 := String.le_iff_toList_le.mpr (le_of_initial hp)
    obtain ⟨f, -, hr, hkf, hfe⟩ := exists_rangeFrom hs he hle
    have hpf := initial_of_between (String.le_iff_toList_le.mp hkf)
      (String.le_iff_toList_le.mp hfe) hp
    simpa [hr] using hpf

section Planned

variable {X : Externals} {files : List OutputFile}

theorem mem_inventoryFromBytes {f : ManifestFile} :
    f ∈ inventoryFromBytes X files ↔ ∃ e ∈ files, manifestFile X e.1 e.2 = f := by
  rw [inventoryFromBytes, mem_sortByPath, List.mem_map]

theorem get?_allowedPaths (hn : (files.map Prod.fst).Nodup) {path : String} {size : Nat} :
    get? path (allowedPaths (inventoryFromBytes X files)) = some size ↔
      ∃ e ∈ files, e.1 = path ∧ e.2.length = size := by
  have hkeys : (((inventoryFromBytes X files).map fun f => (f.path, f.byteLen)).map
      Prod.fst).Nodup := by
    have hpaths : ((files.map fun f => manifestFile X f.1 f.2).map ManifestFile.path).Nodup := by
      rw [List.map_map]
      exact hn
    rw [List.map_map]
    exact ((sortByPath_perm ManifestFile.path _).map _).nodup_iff.mpr hpaths
  rw [allowedPaths, get?_collect_eq_some hkeys, List.mem_map]
  simp only [mem_inventoryFromBytes]
  constructor
  · rintro ⟨f, ⟨e, he, rfl⟩, heq⟩
    exact ⟨e, he, congrArg Prod.fst heq, congrArg Prod.snd heq⟩
  · rintro ⟨e, he, rfl, rfl⟩
    exact ⟨_, ⟨e, he, rfl⟩, rfl⟩

/-- A directory is planned iff a planned file lies below it. -/
theorem planned_iff (hn : (files.map Prod.fst).Nodup) {q : List String} (hq : q ≠ [])
    (hslash : ∀ c ∈ q, '/' ∉ c.toList) :
    plannedBelow (allowedPaths (inventoryFromBytes X files)) (joinSlash q ++ "/") = true ↔
      ∃ e ∈ files, Above q (splitSlash e.1) := by
  have hmem : ∀ e, e ∈ allowedPaths (inventoryFromBytes X files) ↔
      ∃ f ∈ files, f.1 = e.1 ∧ f.2.length = e.2 := fun e => by
    rw [← get?_allowedPaths hn]
    exact ⟨get?_of_mem (sorted_collect _).nodup, mem_of_get?⟩
  have hsorted : Sorted (allowedPaths (inventoryFromBytes X files)) := sorted_collect _
  rw [plannedBelow_iff hsorted]
  simp only [hmem]
  constructor
  · rintro ⟨⟨path, size⟩, ⟨f, hf, rfl, rfl⟩, rest, hrest⟩
    have hpath : f.1 = joinSlash q ++ "/" ++ String.ofList rest :=
      String.toList_inj.mp (by simp [← hrest])
    refine ⟨f, hf, ?_⟩
    rw [hpath, splitSlash_joinSlash_append hq hslash]
    exact ⟨List.prefix_append _ _, by simp [splitSlash_ne_nil]⟩
  · rintro ⟨f, hf, ⟨rest, hrest⟩, hne⟩
    refine ⟨(f.1, f.2.length), ⟨f, hf, rfl, rfl⟩, ?_⟩
    have hrest' : rest ≠ [] := fun h => hne (by rw [← hrest, h, List.append_nil])
    have hpath : f.1 = joinSlash q ++ "/" ++ joinSlash rest := by
      rw [← joinSlash_splitSlash f.1, ← hrest, joinSlash_append hq hrest']
    exact ⟨(joinSlash rest).toList, by rw [hpath, String.toList_append (t := joinSlash rest)]⟩

end Planned

/-! ## Accepted trees -/

section Verified

variable {X : Externals} {K : Codec} {t : Tree} {p : ApprovedIntegrationPlan}
  {files : List OutputFile}

/-- A walk that finds exactly the planned inventory finds the planned files, up to their hashes,
and no directory that does not lead to one. -/
structure Reproduces (X : Externals) (t : Tree) (files : List OutputFile) : Prop where
  portable : ∀ f ∈ files, Portable X f.1
  found : ∀ f ∈ files, ∃ bytes, kindAt t.entries (splitSlash f.1) = some (.file bytes) ∧
    X.sha256 bytes = X.sha256 f.2
  file : ∀ q bytes, kindAt t.entries q = some (.file bytes) → ∃ f ∈ files, splitSlash f.1 = q
  dir : ∀ q, q ≠ [] → kindAt t.entries q = some .dir → ∃ f ∈ files, Above q (splitSlash f.1)

theorem reproduces_of_inventory (hn : (files.map Prod.fst).Nodup)
    (h : inventoryChecked X t [] (some (allowedPaths (inventoryFromBytes X files))) =
      .ok (inventoryFromBytes X files)) : Reproduces X t files := by
  obtain ⟨hadmitted, hsame⟩ := inventoryChecked_eq_ok.mp h
  have hlisted : ∀ f, f ∈ inventoryFromBytes X files ↔ ∃ q bytes,
      kindAt t.entries q = some (.file bytes) ∧ f = manifestFile X (joinSlash q) bytes := fun f => by
    rw [hsame, mem_sortByPath, mem_listed]
    simp
  have hfound : ∀ f ∈ files, ∃ q bytes, q ≠ [] ∧ kindAt t.entries q = some (.file bytes) ∧
      splitSlash f.1 = q ∧ X.sha256 bytes = X.sha256 f.2 := by
    intro f hf
    obtain ⟨q, bytes, hk, heq⟩ := (hlisted _).mp (mem_inventoryFromBytes.mpr ⟨f, hf, rfl⟩)
    have hq : q ≠ [] := by
      rintro rfl
      simp at hk
    have hpath : f.1 = joinSlash q := congrArg ManifestFile.path heq
    refine ⟨q, bytes, hq, hk, ?_, ContentHash.hex_injective ?_⟩
    · rw [hpath, splitSlash_joinSlash_of_kindAt hq hk]
    · exact (congrArg ManifestFile.rawSha256 heq).symm
  refine ⟨fun f hf => ?_, fun f hf => ?_, fun q bytes hk => ?_, fun q hq hk => ?_⟩
  · obtain ⟨q, bytes, hq, hk, rfl, -⟩ := hfound f hf
    have hportable := (hadmitted _ (mem_walk.mpr ⟨hq, hk⟩)).1
    rwa [joinSlash_splitSlash] at hportable
  · obtain ⟨q, bytes, -, hk, rfl, hsha⟩ := hfound f hf
    exact ⟨bytes, hk, hsha⟩
  · obtain ⟨f, hf, heq⟩ := mem_inventoryFromBytes.mp ((hlisted _).mpr ⟨q, bytes, hk, rfl⟩)
    have hq : q ≠ [] := by
      rintro rfl
      simp at hk
    have hpath : f.1 = joinSlash q := congrArg ManifestFile.path heq
    exact ⟨f, hf, by rw [hpath, splitSlash_joinSlash_of_kindAt hq hk]⟩
  · have hslash : ∀ c ∈ q, '/' ∉ c.toList := fun c hc =>
      (nameOk_of_kindAt t.wellFormed hk c hc).2
    have hplanned := (hadmitted _ (mem_walk.mpr ⟨hq, hk⟩)).2 _ rfl
    exact (planned_iff hn hq hslash).mp hplanned

/-- A tree that reproduces the files is the tree that holds them. -/
theorem eq_of_reproduces {u : Tree} (h : Reproduces X t files) (hu : u.Holds (byComponents files))
    (hX : X.Separates t u) : t = u := by
  have hfile : ∀ f ∈ files, kindAt t.entries (splitSlash f.1) = some (.file f.2) := by
    intro f hf
    obtain ⟨bytes, hk, hsha⟩ := h.found f hf
    rw [hk, hX _ _ _ (Tree.read_eq_some.mpr hk) (Tree.read_eq_some.mpr (kindAt_of_mem hu hf)) hsha]
  refine Tree.ext fun q => Option.ext fun k => ?_
  by_cases hq : q = []
  · rw [hq, kindAt_nil, kindAt_nil]
  constructor
  · intro hk
    cases k with
    | file bytes =>
      obtain ⟨f, hf, rfl⟩ := h.file q bytes hk
      rw [hfile f hf] at hk
      rw [← hk, kindAt_of_mem hu hf]
    | dir =>
      obtain ⟨f, hf, habove⟩ := h.dir q hq hk
      exact kindAt_of_above (kindAt_of_mem hu hf) habove
  · intro hk
    cases k with
    | file bytes =>
      obtain ⟨f, hf, rfl, rfl⟩ := mem_of_kindAt hu hk
      exact hfile f hf
    | dir =>
      obtain ⟨f, hf, habove⟩ := above_of_kindAt hu hq hk
      exact kindAt_of_above (hfile f hf) habove

end Verified

/-! ## Staged trees -/

/-- `serde_json` reads back what it writes for the plan and its manifest. -/
structure Codec.ReadsBack (K : Codec) (X : Externals) (p : ApprovedIntegrationPlan) : Prop where
  plan : K.decodePlan p.toValue.canonicalJsonPretty = .ok p
  manifest : ∀ files provenance, materializedFiles X p = .ok files →
    provenanceJsonl X p files = .ok provenance →
    K.decodeManifest (expectedManifest X p files provenance).toValue.canonicalJsonPretty =
      .ok (expectedManifest X p files provenance)

section Staged

variable {X : Externals} {K : Codec} {p : ApprovedIntegrationPlan} {u : Tree}
  {files : List OutputFile} {provenance : Bytes}

/-- The walk of verification admits the tree of the planned files. -/
theorem inventoryChecked_of_holds (hu : u.Holds (byComponents files))
    (hp : ∀ f ∈ files, Portable X f.1) (hn : (files.map Prod.fst).Nodup) :
    inventoryChecked X u [] (some (allowedPaths (inventoryFromBytes X files))) =
      .ok (inventoryFromBytes X files) := by
  have hall : files.filter (fun f => decide (f.1 ∉ ([] : List String))) = files := by simp
  have hlisted := @sortByPath_listed X u files hu hn []
  rw [hall] at hlisted
  refine inventoryChecked_eq_ok.mpr ⟨?_, hlisted.symm⟩
  rintro ⟨q, k⟩ he
  obtain ⟨hq, hk⟩ := mem_walk.mp he
  refine ⟨portable_of_walk hu hp hq hk, ?_⟩
  cases k with
  | file bytes =>
    obtain ⟨f, hf, rfl, rfl⟩ := mem_of_kindAt hu hk
    rintro paths ⟨⟩
    rw [joinSlash_splitSlash]
    exact ⟨_, (get?_allowedPaths hn).mpr ⟨f, hf, rfl, rfl⟩, fun _ => le_refl _⟩
  | dir =>
    rintro paths ⟨⟩
    have hslash : ∀ c ∈ q, '/' ∉ c.toList := fun c hc =>
      (nameOk_of_kindAt u.wellFormed hk c hc).2
    exact (planned_iff hn hq hslash).mpr (above_of_kindAt hu hq hk)

theorem mem_envelope_plan : (planPath, p.toValue.canonicalJsonPretty) ∈
    envelope X p files provenance := by
  simp [envelope, withManifest, payload]

theorem mem_envelope_manifest :
    (manifestPath, (expectedManifest X p files provenance).toValue.canonicalJsonPretty) ∈
      envelope X p files provenance := by
  simp [envelope, withManifest]

/-- **The tree of a valid plan's envelope is accepted iff the limits are kept.** -/
theorem verify_envelope (hK : K.ReadsBack X p) (h : ValidPlan X p)
    (hf : materializedFiles X p = .ok files) (hprov : provenanceJsonl X p files = .ok provenance)
    (hcontrol : ∀ q ∈ controlPaths, Portable X q)
    (hu : u.Holds (byComponents (envelope X p files provenance))) :
    (∃ m, verify X K u = .ok m) ↔ KeepsLimits X p := by
  have hplan := kindAt_of_mem hu (@mem_envelope_plan X p files provenance)
  have hmanifest := kindAt_of_mem hu (@mem_envelope_manifest X p files provenance)
  have hreadPlan : ∀ b, decodedPlan K u = .ok b ↔
      p.toValue.canonicalJsonPretty.length ≤ maxApprovedPlanBytes ∧ b = p := fun b => by
    simp only [decodedPlan, hplan, bind_eq_ok, readRegularFile_eq_ok, Option.some.injEq,
      Kind.file.injEq, Option.mem_def, forall_eq']
    constructor
    · rintro ⟨_, ⟨rfl, hl⟩, hb⟩
      exact ⟨hl, Except.ok.inj (hb.symm.trans hK.plan)⟩
    · rintro ⟨hl, rfl⟩
      exact ⟨_, ⟨rfl, hl⟩, hK.plan⟩
  constructor
  · rintro ⟨m, hm⟩
    obtain ⟨q, files', provenance', -, hread, -, hq, -, hf', hprov', rfl, -⟩ := verify_eq_ok.mp hm
    obtain ⟨hlimit, rfl⟩ := (hreadPlan q).mp hq
    refine ⟨hlimit, fun files'' provenance'' hf'' hprov'' => ?_⟩
    obtain rfl : files' = files'' := Except.ok.inj (hf'.symm.trans hf'')
    obtain rfl : provenance' = provenance'' := Except.ok.inj (hprov'.symm.trans hprov'')
    exact (readRegularFile_eq_ok.mp hread).2 _ rfl
  · rintro ⟨hlimit, hlimit'⟩
    have hokc : requireRegularDirectory u ".okc" = .ok () := by
      have habove : Above (splitSlash ".okc") (splitSlash planPath) := by decide
      simp only [requireRegularDirectory, kindAt_of_above hplan habove]
    refine ⟨_, verify_eq_ok.mpr ⟨p, files, provenance, hokc, ?_, hK.manifest _ _ hf hprov,
      (hreadPlan p).mpr ⟨hlimit, rfl⟩, h, hf, hprov, rfl,
      inventoryChecked_of_holds hu (envelope_portable h hf hcontrol) (envelope_nodup h hf)⟩⟩
    exact readRegularFile_eq_ok.mpr ⟨hmanifest, by simpa using hlimit' _ _ hf hprov⟩

end Staged

/-! ## Accepted trees are staged trees -/

/-- Where a tree is accepted, the control paths are admitted by the path rules. -/
theorem portable_of_verify {X : Externals} {K : Codec} {t : Tree} {m : CompiledVaultManifest}
    (hv : verify X K t = .ok m) : ∀ q ∈ controlPaths, Portable X q := by
  obtain ⟨p, files, provenance, -, -, -, -, h, hf, -, -, hinventory⟩ := verify_eq_ok.mp hv
  intro q hq
  have hpath := (@envelope_paths X p files provenance h hf).mem_iff.mpr
    (List.mem_append_right _ hq)
  obtain ⟨f, hmem, rfl⟩ := List.mem_map.mp hpath
  exact (reproduces_of_inventory (envelope_nodup h hf) hinventory).portable f hmem

/-- **An accepted tree is the staged tree of its own plan.** -/
theorem staged_of_verify {X : Externals} {K : Codec} {t : Tree} {m : CompiledVaultManifest}
    (hv : verify X K t = .ok m)
    (hX : ∀ p u n, decodedPlan K t = .ok p → stageTree X p = .ok (u, n) → X.Separates t u) :
    ∃ p n, decodedPlan K t = .ok p ∧ validatePlan X p = .ok () ∧ stageTree X p = .ok (t, n) := by
  obtain ⟨p, files, provenance, -, -, -, hp, h, hf, hprov, -, hinventory⟩ := verify_eq_ok.mp hv
  have hrep := reproduces_of_inventory (envelope_nodup h hf) hinventory
  obtain ⟨u, hu, hholds⟩ := stageTree_isOk h hf hprov (portable_of_verify hv)
  obtain rfl := eq_of_reproduces hrep hholds (hX p u _ hp hu)
  exact ⟨p, _, hp, validatePlan_eq_ok.mpr h, hu⟩

section Small

variable (sha256 : Bytes → ContentHash)

theorem controlPaths_portable : ∀ q ∈ controlPaths, Portable (plainExternals sha256) q := by
  have hsplit : ∀ q ∈ controlPaths, splitSlash q ≠ [] ∧
      (∀ c ∈ splitSlash q, validateComponent .default c = .ok ()) ∧ len q ≤ 1024 := by decide
  intro q hq
  obtain ⟨hne, hparts, hlen⟩ := hsplit q hq
  exact (portable_plain (splitSlash q) (joinSlash_splitSlash q).symm hne hparts hlen).1

/-- A decoder that knows the texts of one plan. -/
def codecOf (X : Externals) (p : ApprovedIntegrationPlan) (files : List OutputFile)
    (provenance : Bytes) : Codec where
  decodeManifest bytes :=
    if bytes = (expectedManifest X p files provenance).toValue.canonicalJsonPretty then
      .ok (expectedManifest X p files provenance)
    else .error (.verificationFailed "expected value")
  decodePlan bytes :=
    if bytes = p.toValue.canonicalJsonPretty then .ok p
    else .error (.verificationFailed "expected value")

theorem codecOf_readsBack {X : Externals} {p : ApprovedIntegrationPlan} {files : List OutputFile}
    {provenance : Bytes} (hf : materializedFiles X p = .ok files)
    (hprov : provenanceJsonl X p files = .ok provenance) :
    (codecOf X p files provenance).ReadsBack X p where
  plan := by simp only [codecOf, if_true]
  manifest files' provenance' hf' hprov' := by
    obtain rfl : files = files' := Except.ok.inj (hf.symm.trans hf')
    obtain rfl : provenance = provenance' := Except.ok.inj (hprov.symm.trans hprov')
    simp only [codecOf, if_true]

/-- An accepted artifact: the one-document plan's. -/
theorem exists_verified : ∃ K t n m,
    decodedPlan K t = .ok (bulkPlan (plainExternals sha256) 1) ∧
    stageTree (plainExternals sha256) (bulkPlan (plainExternals sha256) 1) = .ok (t, n) ∧
    verify (plainExternals sha256) K t = .ok m := by
  have h := bulkPlan_valid sha256 Nat.one_pos (by decide)
  obtain ⟨files, hf⟩ := materializedFiles_isOk h
  obtain ⟨provenance, hprov⟩ := provenanceJsonl_isOk h hf
  have hK := codecOf_readsBack hf hprov
  obtain ⟨t, ht, hholds⟩ := stageTree_isOk h hf hprov (controlPaths_portable sha256)
  obtain ⟨m, hm⟩ := (verify_envelope hK h hf hprov (controlPaths_portable sha256) hholds).mpr
    (@bulkPlan_keepsLimits sha256)
  refine ⟨_, t, _, m, ?_, ht, hm⟩
  have hplan := kindAt_of_mem hholds mem_envelope_plan
  have hlimit := (@bulkPlan_keepsLimits sha256).1
  simp only [decodedPlan, hplan, bind_eq_ok, readRegularFile_eq_ok]
  exact ⟨_, ⟨rfl, by simpa using hlimit⟩, hK.plan⟩

end Small

theorem staged_of_verify_bulk : ∃ K t m p n, verify (plainExternals prefixHash) K t = .ok m ∧
    decodedPlan K t = .ok p ∧ validatePlan (plainExternals prefixHash) p = .ok () ∧
      stageTree (plainExternals prefixHash) p = .ok (t, n) := by
  obtain ⟨K, t, n, m, hplan, ht, hm⟩ := exists_verified prefixHash
  have hX : ∀ p u n, decodedPlan K t = .ok p → stageTree (plainExternals prefixHash) p = .ok (u, n) →
      (plainExternals prefixHash).Separates t u := by
    intro p u n' hp hu path b c hb hc _
    obtain rfl : bulkPlan (plainExternals prefixHash) 1 = p := Except.ok.inj (hplan.symm.trans hp)
    obtain rfl : t = u := congrArg Prod.fst (Except.ok.inj (ht.symm.trans hu))
    exact Option.some.inj (hb.symm.trans hc)
  obtain ⟨p, n', hp⟩ := staged_of_verify hm hX
  exact ⟨K, t, m, p, n', hm, hp⟩

end Okc.Core
