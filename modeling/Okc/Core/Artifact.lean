import Okc.Core.Materialize

/-!
# Compiled artifacts (`integration.rs:1342-1379`, `1436-1591`, `1935-2025`)

An artifact is a directory tree: the materialized files, the plan and its provenance, a manifest
that lists them, and checksums that cover the manifest too. `stageTree` is how compilation writes
it, taking each inventory from what is on disk; `verify` is how it is checked, deriving every
inventory from bytes in memory and comparing it with a walk that admits only planned paths.

Decoding JSON is third-party code, the fields of `Codec`. Symbolic links, special files and names
that are not UTF-8, which the walk refuses, do not occur in a `Tree`.

* `inventoryChecked_eq_ok`: what a walk admits and lists.
* `stageTree_isOk`: a valid plan is staged, and the tree holds its `envelope`.
* `verify_eq_ok`: what verification accepts.
-/

namespace Okc.Core

open Okc.Lib

/-! ## Manifests -/

structure ManifestFile where
  path : String
  byteLen : Nat
  rawSha256 : String
  contentHash : ContentHash
deriving DecidableEq

structure CompiledVaultManifest where
  formatFamily : String
  schemaVersion : Nat
  productVersion : String
  integrationPlanId : String
  corpusHash : ContentHash
  taxonomyHash : ContentHash
  packProfile : String
  files : List ManifestFile
deriving DecidableEq

def ManifestFile.toValue (f : ManifestFile) : Value :=
  .object [("path", .str f.path), ("byte_len", .nat f.byteLen), ("raw_sha256", .str f.rawSha256),
    ("content_hash", f.contentHash.toValue)]

def CompiledVaultManifest.toValue (m : CompiledVaultManifest) : Value :=
  .object [("format_family", .str m.formatFamily), ("schema_version", .nat m.schemaVersion),
    ("product_version", .str m.productVersion),
    ("integration_plan_id", .str m.integrationPlanId), ("corpus_hash", m.corpusHash.toValue),
    ("taxonomy_hash", m.taxonomyHash.toValue), ("pack_profile", .str m.packProfile),
    ("files", .arr (m.files.map ManifestFile.toValue))]

def manifestFile (X : Externals) (path : String) (bytes : Bytes) : ManifestFile where
  path := path
  byteLen := bytes.length
  rawSha256 := (X.sha256 bytes).hex
  contentHash := X.fromDomainBytes "okc:content:v3\x00" bytes

def inventoryFromBytes (X : Externals) (files : List OutputFile) : List ManifestFile :=
  sortByPath ManifestFile.path (files.map fun f => manifestFile X f.1 f.2)

def checksumText (files : List ManifestFile) : String :=
  concat (files.map fun f => f.rawSha256 ++ "  " ++ f.path ++ "\n")

/-- The manifest of a plan over an inventory. -/
def manifestOf (plan : ApprovedIntegrationPlan) (files : List ManifestFile) :
    CompiledVaultManifest where
  formatFamily := "okc"
  schemaVersion := integrationSchemaVersion
  productVersion := productVersion
  integrationPlanId := plan.integrationPlanId
  corpusHash := plan.corpus.corpusHash
  taxonomyHash := plan.taxonomy.taxonomyHash
  packProfile := packProfile
  files := files

def manifestPath : String := ".okc/manifest.json"

def planPath : String := ".okc/integration-plan.json"

def provenancePath : String := ".okc/provenance.jsonl"

def checksumsPath : String := ".okc/checksums.txt"

def maxManifestBytes : Nat := 1024 * 1024

def maxApprovedPlanBytes : Nat := 512 * 1024 * 1024

/-! ## Walking an artifact -/

/-- `read_regular_file` of what stands at a path; no limit is `u64::MAX`. -/
def readRegularFile (path : String) (limit : Option Nat) : Option Kind → Except OkcError Bytes
  | none => .error (.io path .other)
  | some .dir =>
    .error (.verificationFailed "artifact entries must be regular non-symlink files")
  | some (.file bytes) => do
    reject (∃ l ∈ limit, l < bytes.length)
      (.verificationFailed "artifact file exceeds its expected byte limit")
    .ok bytes

/-- Some planned path lies in the directory: `range(prefix..).next()` starts with `prefix`. -/
def plannedBelow (paths : List (String × Nat)) (dirPrefix : String) : Bool :=
  match rangeFrom dirPrefix paths with
  | none => false
  | some e => dirPrefix.toList <+: e.1.toList

/-- What `walk` does at an entry. -/
def visit (X : Externals) (excluded : List String) (allowed : Option (List (String × Nat)))
    (entry : List String × Kind) : Except OkcError (List ManifestFile) := do
  let path := joinSlash entry.1
  validateRelativePath X path
  match entry.2 with
  | .dir => do
    reject (∃ paths ∈ allowed, ¬ plannedBelow paths (path ++ "/"))
      (.verificationFailed "artifact contains an unplanned directory")
    .ok []
  | .file bytes => do
    reject (∃ paths ∈ allowed, get? path paths = none)
      (.verificationFailed "artifact contains an unplanned file")
    if path ∈ excluded then .ok []
    else do
      let bytes ← readRegularFile path (allowed.bind (get? path)) (some (.file bytes))
      .ok [manifestFile X path bytes]

/-- `inventory_checked`: the recursion visits the entries in the order `flatten` lists them. -/
def inventoryChecked (X : Externals) (t : Tree) (excluded : List String)
    (allowed : Option (List (String × Nat))) : Except OkcError (List ManifestFile) := do
  let files ← (flatten [] t.entries).mapM (visit X excluded allowed)
  .ok (sortByPath ManifestFile.path files.flatten)

def inventory (X : Externals) (t : Tree) (excluded : List String) :
    Except OkcError (List ManifestFile) :=
  inventoryChecked X t excluded none

/-! ## Staging -/

def writeNewFile (X : Externals) (t : Tree) (path : String) (bytes : Bytes) :
    Except OkcError Tree := do
  validateRelativePath X path
  match t.write (splitSlash path) bytes with
  | .ok u => .ok u
  | .error e => .error (.io path e)

/-- What `compile_with_hook` writes into an undisturbed staging directory, and the file count it
reports. -/
def stageTree (X : Externals) (plan : ApprovedIntegrationPlan) : Except OkcError (Tree × Nat) := do
  let files ← materializedFiles X plan
  let t ← files.foldlM (fun t f => writeNewFile X t f.1 f.2) Tree.empty
  let t ← writeNewFile X t planPath plan.toValue.canonicalJsonPretty
  let provenance ← provenanceJsonl X plan files
  let t ← writeNewFile X t provenancePath provenance
  let inventoryFiles ← inventory X t [manifestPath, checksumsPath]
  let t ← writeNewFile X t manifestPath (manifestOf plan inventoryFiles).toValue.canonicalJsonPretty
  let inventoryFiles ← inventory X t [checksumsPath]
  let t ← writeNewFile X t checksumsPath (utf8 (checksumText inventoryFiles))
  .ok (t, inventoryFiles.length + 1)

/-! ## Verification -/

/-- What the code takes from `serde_json`: decoding. -/
structure Codec where
  /-- `serde_json::from_slice::<CompiledVaultManifest>`. -/
  decodeManifest : Bytes → Except OkcError CompiledVaultManifest
  /-- `serde_json::from_value::<ApprovedIntegrationPlan>` after `parse_json_strict`. -/
  decodePlan : Bytes → Except OkcError ApprovedIntegrationPlan

/-- `require_regular_directory`. -/
def requireRegularDirectory (t : Tree) (path : String) : Except OkcError Unit :=
  match kindAt t.entries (splitSlash path) with
  | none => .error (.io path .other)
  | some (.file _) => .error
    (.verificationFailed "artifact directories must be regular non-symlink directories")
  | some .dir => .ok ()

/-- The plan an artifact carries. -/
def decodedPlan (K : Codec) (t : Tree) : Except OkcError ApprovedIntegrationPlan := do
  let bytes ← readRegularFile planPath (some maxApprovedPlanBytes)
    (kindAt t.entries (splitSlash planPath))
  K.decodePlan bytes

/-- The materialized files with the plan and the provenance. -/
def payload (plan : ApprovedIntegrationPlan) (files : List OutputFile) (provenance : Bytes) :
    List OutputFile :=
  files ++ [(planPath, plan.toValue.canonicalJsonPretty), (provenancePath, provenance)]

/-- The inventory that `verify` expects on disk: the manifest and the checksums pushed onto the
payload's. -/
def sealedInventory (X : Externals) (expectedInventory : List ManifestFile)
    (manifestBytes : Bytes) : List ManifestFile :=
  let expectedInventory := sortByPath ManifestFile.path
    (expectedInventory ++ [manifestFile X manifestPath manifestBytes])
  let checksums := checksumText expectedInventory
  sortByPath ManifestFile.path
    (expectedInventory ++ [manifestFile X checksumsPath (utf8 checksums)])

/-- The paths a verification admits, with their lengths. -/
def allowedPaths (inventory : List ManifestFile) : List (String × Nat) :=
  collect (inventory.map fun f => (f.path, f.byteLen))

def verify (X : Externals) (K : Codec) (t : Tree) : Except OkcError CompiledVaultManifest := do
  requireRegularDirectory t ".okc"
  let manifestBytes ← readRegularFile manifestPath (some maxManifestBytes)
    (kindAt t.entries (splitSlash manifestPath))
  let manifest ← K.decodeManifest manifestBytes
  reject (manifest.formatFamily ≠ "okc" ∨ manifest.schemaVersion ≠ integrationSchemaVersion)
    (.verificationFailed "artifact is not an OKC Schema 3 Compiled Vault")
  let plan ← decodedPlan K t
  validatePlan X plan
  let files ← materializedFiles X plan
  let provenance ← provenanceJsonl X plan files
  let expectedInventory := inventoryFromBytes X (payload plan files provenance)
  let expectedManifest := manifestOf plan expectedInventory
  reject (manifest ≠ expectedManifest ∨
      manifestBytes ≠ expectedManifest.toValue.canonicalJsonPretty)
    (.verificationFailed
      "Schema 3 manifest is not the canonical inventory derived from its approved plan")
  let expectedInventory := sealedInventory X expectedInventory manifestBytes
  let actual ← inventoryChecked X t [] (some (allowedPaths expectedInventory))
  reject (actual ≠ expectedInventory) (.verificationFailed
    "Schema 3 artifact bytes do not reproduce its approved plan and audit envelope")
  .ok manifest

/-! ## Sorting by path -/

theorem sortByPath_sorted {α : Type} (path : α → String) (l : List α) :
    (sortByPath path l).Pairwise fun a b => path a ≤ path b := by
  have : Std.Total fun a b : α => path a ≤ path b := ⟨fun a b => le_total _ _⟩
  have : IsTrans α fun a b => path a ≤ path b := ⟨fun _ _ _ => le_trans⟩
  exact List.pairwise_insertionSort _ l

/-- Files with distinct paths sort alike in any order. -/
theorem sortByPath_congr {α : Type} {path : α → String} {l m : List α} (hn : (l.map path).Nodup)
    (h : l.Perm m) : sortByPath path l = sortByPath path m := by
  have hperm := ((sortByPath_perm path l).trans h).trans (sortByPath_perm path m).symm
  refine hperm.eq_of_pairwise (fun a b ha hb hab hba => ?_) (sortByPath_sorted path l)
    (sortByPath_sorted path m)
  have hb : b ∈ l := h.mem_iff.mpr (mem_sortByPath.mp hb)
  exact List.inj_on_of_nodup_map hn (mem_sortByPath.mp ha) hb (le_antisymm hab hba)

/-! ## What a walk admits and lists -/

/-- What a walk admits at a path. -/
def Admitted (X : Externals) (excluded : List String) (allowed : Option (List (String × Nat)))
    (entry : List String × Kind) : Prop :=
  Portable X (joinSlash entry.1) ∧
    match entry.2 with
    | .dir => ∀ paths ∈ allowed, plannedBelow paths (joinSlash entry.1 ++ "/") = true
    | .file bytes => ∀ paths ∈ allowed, ∃ limit, get? (joinSlash entry.1) paths = some limit ∧
        (joinSlash entry.1 ∉ excluded → bytes.length ≤ limit)

/-- What a walk lists for an entry. -/
def listed (X : Externals) (excluded : List String) (entry : List String × Kind) :
    List ManifestFile :=
  match entry.2 with
  | .dir => []
  | .file bytes =>
    if joinSlash entry.1 ∈ excluded then [] else [manifestFile X (joinSlash entry.1) bytes]

theorem readRegularFile_eq_ok {path : String} {limit : Option Nat} {kind : Option Kind}
    {bytes : Bytes} :
    readRegularFile path limit kind = .ok bytes ↔
      kind = some (.file bytes) ∧ ∀ l ∈ limit, bytes.length ≤ l := by
  unfold readRegularFile
  split
  · simp
  · simp
  · simp only [bind_unit_eq_ok, reject_eq_ok, Except.ok.injEq, Option.some.injEq, Kind.file.injEq,
      not_exists, not_and, not_lt]
    constructor
    · rintro ⟨hl, rfl⟩
      exact ⟨rfl, hl⟩
    · rintro ⟨rfl, hl⟩
      exact ⟨hl, rfl⟩

theorem visit_eq_ok {X : Externals} {excluded : List String}
    {allowed : Option (List (String × Nat))} {entry : List String × Kind}
    {l : List ManifestFile} :
    visit X excluded allowed entry = .ok l ↔
      Admitted X excluded allowed entry ∧ l = listed X excluded entry := by
  obtain ⟨p, kind⟩ := entry
  have hok : ∀ m : List ManifestFile, (.ok m : Except OkcError _) = .ok l ↔ l = m := fun m => by
    rw [Except.ok.injEq]
    exact eq_comm
  simp only [visit, Admitted, listed, bind_unit_eq_ok, validateRelativePath_eq_ok, and_assoc]
  refine and_congr_right fun _ => ?_
  cases kind with
  | dir =>
    simp only [bind_unit_eq_ok, reject_eq_ok, not_exists, not_and, not_not, hok]
  | file bytes =>
    simp only [bind_unit_eq_ok, reject_eq_ok, not_exists, not_and]
    cases allowed with
    | none =>
      by_cases hex : joinSlash p ∈ excluded
      · simp [hex, hok]
      · simp [hex, hok, readRegularFile]
    | some paths =>
      simp only [Option.mem_def, Option.some.injEq, forall_eq', Option.bind_some]
      cases hg : get? (joinSlash p) paths with
      | none => simp
      | some limit =>
        by_cases hex : joinSlash p ∈ excluded
        · simp [hex, hok]
        · have hread : ∀ b, readRegularFile (joinSlash p) (some limit) (some (.file bytes)) = .ok b ↔
              bytes.length ≤ limit ∧ bytes = b := fun b => by
            simp only [readRegularFile_eq_ok, Option.some.injEq, Kind.file.injEq, Option.mem_def,
              forall_eq']
            constructor
            · rintro ⟨rfl, hl⟩
              exact ⟨hl, rfl⟩
            · rintro ⟨hl, rfl⟩
              exact ⟨rfl, hl⟩
          simp only [hex, if_false, bind_eq_ok, hread, hok, reduceCtorEq, not_false_eq_true,
            true_and, Option.some.injEq, exists_eq_left', forall_const, and_assoc,
            exists_and_left]

/-- **What a walk accepts.** -/
theorem inventoryChecked_eq_ok {X : Externals} {t : Tree} {excluded : List String}
    {allowed : Option (List (String × Nat))} {files : List ManifestFile} :
    inventoryChecked X t excluded allowed = .ok files ↔
      (∀ entry ∈ flatten [] t.entries, Admitted X excluded allowed entry) ∧
      files = sortByPath ManifestFile.path ((flatten [] t.entries).flatMap (listed X excluded)) := by
  simp only [inventoryChecked, bind_eq_ok, Except.ok.injEq,
    mapM_eq_ok_map fun entry _ l => @visit_eq_ok X excluded allowed entry l]
  constructor
  · rintro ⟨_, ⟨hall, rfl⟩, rfl⟩
    exact ⟨hall, by rw [List.flatMap]⟩
  · rintro ⟨hall, rfl⟩
    exact ⟨_, ⟨hall, rfl⟩, by rw [List.flatMap]⟩

section Walk

variable {X : Externals} {t : Tree} {excluded : List String}

theorem mem_walk {p : List String} {k : Kind} :
    (p, k) ∈ flatten [] t.entries ↔ p ≠ [] ∧ kindAt t.entries p = some k := by
  rw [mem_flatten _ _ _ _ t.wellFormed]
  simp only [List.nil_append]
  exact ⟨fun ⟨q, hq, hp, hk⟩ => hp ▸ ⟨hq, hk⟩, fun ⟨hp, hk⟩ => ⟨p, hp, rfl, hk⟩⟩

theorem splitSlash_joinSlash_of_kindAt {p : List String} {k : Kind} (hp : p ≠ [])
    (hk : kindAt t.entries p = some k) : splitSlash (joinSlash p) = p :=
  splitSlash_joinSlash hp fun c hc => (nameOk_of_kindAt t.wellFormed hk c hc).2

theorem mem_listed {f : ManifestFile} :
    f ∈ (flatten [] t.entries).flatMap (listed X excluded) ↔
      ∃ p bytes, kindAt t.entries p = some (.file bytes) ∧ joinSlash p ∉ excluded ∧
        f = manifestFile X (joinSlash p) bytes := by
  rw [List.mem_flatMap]
  constructor
  · rintro ⟨⟨p, k⟩, hmem, hf⟩
    cases k with
    | dir => exact absurd hf List.not_mem_nil
    | file bytes =>
      rw [listed] at hf
      split_ifs at hf with hex
      · exact absurd hf List.not_mem_nil
      · exact ⟨p, bytes, (mem_walk.mp hmem).2, hex, List.mem_singleton.mp hf⟩
  · rintro ⟨p, bytes, hk, hex, rfl⟩
    have hp : p ≠ [] := by
      rintro rfl
      simp at hk
    exact ⟨(p, .file bytes), mem_walk.mpr ⟨hp, hk⟩, by simp [listed, hex]⟩

/-- A walk lists no path twice. -/
theorem nodup_listed :
    (((flatten [] t.entries).flatMap (listed X excluded)).map ManifestFile.path).Nodup := by
  have hpaths : ((flatten [] t.entries).map fun e => joinSlash e.1).Nodup := by
    have hnodup := nodup_flatten t.entries [] t.wellFormed
    rw [List.Nodup, List.pairwise_map] at hnodup ⊢
    refine hnodup.imp_of_mem fun {a b} ha hb hne heq => hne ?_
    obtain ⟨hane, hak⟩ := mem_walk.mp ha
    obtain ⟨hbne, hbk⟩ := mem_walk.mp hb
    rw [← splitSlash_joinSlash_of_kindAt hane hak, heq, splitSlash_joinSlash_of_kindAt hbne hbk]
  refine hpaths.sublist ?_
  clear hpaths
  induction flatten [] t.entries with
  | nil => exact List.Sublist.refl _
  | cons e es ih =>
    rw [List.flatMap_cons, List.map_append, List.map_cons]
    obtain ⟨p, k⟩ := e
    cases k with
    | dir => exact ih.cons _
    | file bytes =>
      by_cases hex : joinSlash p ∈ excluded
      · simpa [listed, hex] using ih.cons _
      · simpa [listed, hex, manifestFile] using ih

end Walk

/-! ## Trees of output files -/

/-- Output files by the components of their paths. -/
def byComponents (files : List OutputFile) : List (List String × Bytes) :=
  files.map fun f => (splitSlash f.1, f.2)

theorem holds_byComponents_congr {t : Tree} {fs gs : List OutputFile}
    (h : t.Holds (byComponents fs)) (hmem : ∀ f, f ∈ fs ↔ f ∈ gs) : t.Holds (byComponents gs) := by
  intro q k
  rw [h q k]
  simp only [byComponents, List.mem_map, hmem]

section Files

variable {X : Externals} {t : Tree} {files : List OutputFile}

theorem kindAt_of_mem (h : t.Holds (byComponents files)) {f : OutputFile} (hf : f ∈ files) :
    kindAt t.entries (splitSlash f.1) = some (.file f.2) :=
  (h _ _).mpr (Or.inl ⟨_, List.mem_map_of_mem hf, rfl, rfl⟩)

theorem mem_of_kindAt (h : t.Holds (byComponents files)) {q : List String} {bytes : Bytes}
    (hk : kindAt t.entries q = some (.file bytes)) :
    ∃ f ∈ files, splitSlash f.1 = q ∧ f.2 = bytes := by
  rcases (h q _).mp hk with ⟨f, hf, rfl, hb⟩ | ⟨hdir, -⟩
  · obtain ⟨g, hg, rfl⟩ := List.mem_map.mp hf
    exact ⟨g, hg, rfl, Kind.file.inj hb⟩
  · cases hdir

theorem above_of_kindAt (h : t.Holds (byComponents files)) {q : List String} (hq : q ≠ [])
    (hk : kindAt t.entries q = some .dir) : ∃ f ∈ files, Above q (splitSlash f.1) := by
  rcases (h q _).mp hk with ⟨f, -, -, hb⟩ | ⟨-, hnil | ⟨f, hf, habove⟩⟩
  · cases hb
  · exact absurd hnil hq
  · obtain ⟨g, hg, rfl⟩ := List.mem_map.mp hf
    exact ⟨g, hg, habove⟩

theorem writeNewFile_isOk (h : t.Holds (byComponents files)) {path : String} (bytes : Bytes)
    (hp : Portable X path) (hapart : ∀ f ∈ files, Apart f.1 path) :
    ∃ u, writeNewFile X t path bytes = .ok u ∧ u.Holds (byComponents ((path, bytes) :: files)) := by
  have hpaths : ∀ f ∈ byComponents files,
      ¬ f.1 <+: splitSlash path ∧ ¬ splitSlash path <+: f.1 := by
    intro f hf
    obtain ⟨g, hg, rfl⟩ := List.mem_map.mp hf
    exact hapart g hg
  obtain ⟨u, hu, hholds⟩ := h.write bytes (splitSlash_ne_nil path) hp.nameOk hpaths
  refine ⟨u, ?_, hholds⟩
  simp only [writeNewFile, validateRelativePath_eq_ok.mpr hp, hu]
  rfl

theorem writeFiles_isOk {more : List OutputFile} (h : t.Holds (byComponents files))
    (hp : ∀ f ∈ more, Portable X f.1) (hapart : more.Pairwise fun f g => Apart f.1 g.1)
    (hfiles : ∀ f ∈ files, ∀ g ∈ more, Apart f.1 g.1) :
    ∃ u, more.foldlM (fun t f => writeNewFile X t f.1 f.2) t = .ok u ∧
      u.Holds (byComponents (files ++ more)) := by
  induction more generalizing t files with
  | nil => exact ⟨t, rfl, by rwa [List.append_nil]⟩
  | cons f more ih =>
    obtain ⟨hf, hmore⟩ := List.pairwise_cons.mp hapart
    obtain ⟨u, hu, hholds⟩ := writeNewFile_isOk h f.2 (hp f List.mem_cons_self)
      fun g hg => hfiles g hg f List.mem_cons_self
    have hall : ∀ g ∈ f :: files, ∀ e ∈ more, Apart g.1 e.1 := by
      intro g hg e he
      rcases List.mem_cons.mp hg with rfl | hg
      · exact hf e he
      · exact hfiles g hg e (List.mem_cons_of_mem _ he)
    obtain ⟨v, hv, hvholds⟩ := ih hholds (fun g hg => hp g (List.mem_cons_of_mem _ hg)) hmore hall
    refine ⟨v, ?_, holds_byComponents_congr hvholds fun g => ?_⟩
    · rw [List.foldlM_cons, hu]
      exact hv
    · simp only [List.cons_append, List.mem_cons, List.mem_append]
      tauto

/-- **A walk of a tree lists the files it holds.** -/
theorem sortByPath_listed (h : t.Holds (byComponents files)) (hn : (files.map Prod.fst).Nodup)
    (excluded : List String) :
    sortByPath ManifestFile.path ((flatten [] t.entries).flatMap (listed X excluded)) =
      inventoryFromBytes X (files.filter fun f => f.1 ∉ excluded) := by
  have hfiltered : ((files.filter fun f => f.1 ∉ excluded).map Prod.fst).Nodup :=
    hn.sublist (List.filter_sublist.map _)
  have hpaths : (((files.filter fun f => f.1 ∉ excluded).map fun f =>
      manifestFile X f.1 f.2).map ManifestFile.path).Nodup := by
    rw [List.map_map]
    exact hfiltered
  refine (sortByPath_congr hpaths ?_).symm
  refine (List.perm_ext_iff_of_nodup hpaths.of_map nodup_listed.of_map).mpr fun f => ?_
  rw [mem_listed, List.mem_map]
  constructor
  · rintro ⟨g, hg, rfl⟩
    obtain ⟨hg, hex⟩ := List.mem_filter.mp hg
    exact ⟨splitSlash g.1, g.2, kindAt_of_mem h hg,
      by simpa [joinSlash_splitSlash] using hex, by rw [joinSlash_splitSlash]⟩
  · rintro ⟨p, bytes, hk, hex, rfl⟩
    obtain ⟨g, hg, rfl, rfl⟩ := mem_of_kindAt h hk
    rw [joinSlash_splitSlash] at hex ⊢
    exact ⟨g, List.mem_filter.mpr ⟨hg, by simpa using hex⟩, rfl⟩

/-- Everything a walk of such a tree meets has a portable path. -/
theorem portable_of_walk (h : t.Holds (byComponents files)) (hp : ∀ f ∈ files, Portable X f.1)
    {q : List String} {k : Kind} (hq : q ≠ []) (hk : kindAt t.entries q = some k) :
    Portable X (joinSlash q) := by
  cases k with
  | file bytes =>
    obtain ⟨f, hf, rfl, -⟩ := mem_of_kindAt h hk
    rw [joinSlash_splitSlash]
    exact hp f hf
  | dir =>
    obtain ⟨f, hf, habove⟩ := above_of_kindAt h hq hk
    exact (hp f hf).ancestor hq habove.1

theorem inventory_of_holds (h : t.Holds (byComponents files)) (hp : ∀ f ∈ files, Portable X f.1)
    (hn : (files.map Prod.fst).Nodup) (excluded : List String) :
    inventory X t excluded =
      .ok (inventoryFromBytes X (files.filter fun f => f.1 ∉ excluded)) := by
  refine inventoryChecked_eq_ok.mpr ⟨?_, (sortByPath_listed h hn excluded).symm⟩
  rintro ⟨q, k⟩ he
  obtain ⟨hq, hk⟩ := mem_walk.mp he
  exact ⟨portable_of_walk h hp hq hk, by cases k <;> simp⟩

end Files

/-! ## The envelope of a plan -/

/-- The manifest derived from a plan. -/
def expectedManifest (X : Externals) (plan : ApprovedIntegrationPlan) (files : List OutputFile)
    (provenance : Bytes) : CompiledVaultManifest :=
  manifestOf plan (inventoryFromBytes X (payload plan files provenance))

/-- The payload with its manifest. -/
def withManifest (X : Externals) (plan : ApprovedIntegrationPlan) (files : List OutputFile)
    (provenance : Bytes) : List OutputFile :=
  payload plan files provenance ++
    [(manifestPath, (expectedManifest X plan files provenance).toValue.canonicalJsonPretty)]

/-- Every file of the artifact. -/
def envelope (X : Externals) (plan : ApprovedIntegrationPlan) (files : List OutputFile)
    (provenance : Bytes) : List OutputFile :=
  withManifest X plan files provenance ++
    [(checksumsPath,
      utf8 (checksumText (inventoryFromBytes X (withManifest X plan files provenance))))]

/-- The paths below `.okc`. -/
def controlPaths : List String := [planPath, provenancePath, manifestPath, checksumsPath]

theorem controlPaths_okc : ∀ q ∈ controlPaths, (splitSlash q).head? = some ".okc" := by
  decide

theorem controlPaths_apart : controlPaths.Pairwise Apart := by
  decide

section Envelope

variable {X : Externals} {p : ApprovedIntegrationPlan} {files : List OutputFile}
  {provenance : Bytes}

theorem envelope_paths (h : ValidPlan X p) (hf : materializedFiles X p = .ok files) :
    ((envelope X p files provenance).map Prod.fst).Perm (outputPaths p ++ controlPaths) := by
  simp only [envelope, withManifest, payload, List.map_append, List.append_assoc]
  exact (materializedFiles_paths h hf).append_right _

/-- The outputs start with `knowledge` or `legacy`, the control files with `.okc`. -/
theorem ValidPlan.apart_envelope (h : ValidPlan X p) :
    (outputPaths p ++ controlPaths).Pairwise Apart := by
  refine List.pairwise_append.mpr ⟨h.apart_outputPaths, controlPaths_apart, fun a ha b hb => ?_⟩
  have hhead : (splitSlash a).head? ≠ some ".okc" := by
    rcases List.mem_append.mp ha with hn | hs
    · obtain ⟨c, -, rfl⟩ := List.mem_map.mp hn
      simp [splitSlash_notePath]
    · obtain ⟨d, -, rfl⟩ := List.mem_map.mp hs
      obtain ⟨rest, hrest⟩ := splitSlash_stubPath d
      simp [hrest]
  have hokc := controlPaths_okc b hb
  cases hsa : splitSlash a with
  | nil => exact absurd hsa (splitSlash_ne_nil a)
  | cons c cs =>
    cases hsb : splitSlash b with
    | nil => exact absurd hsb (splitSlash_ne_nil b)
    | cons d ds =>
      rw [hsa] at hhead
      rw [hsb] at hokc
      have hcd : c ≠ d := by
        rintro rfl
        exact hhead hokc
      simp [Apart, hsa, hsb, List.cons_prefix_cons, hcd, Ne.symm hcd]

/-- **The files of the envelope are apart.** -/
theorem envelope_apart (h : ValidPlan X p) (hf : materializedFiles X p = .ok files) :
    (envelope X p files provenance).Pairwise fun f g => Apart f.1 g.1 :=
  List.pairwise_map.mp (((envelope_paths h hf).pairwise_iff Apart.symm).mpr h.apart_envelope)

theorem envelope_nodup (h : ValidPlan X p) (hf : materializedFiles X p = .ok files) :
    ((envelope X p files provenance).map Prod.fst).Nodup :=
  List.pairwise_map.mpr ((envelope_apart h hf).imp Apart.ne)

theorem envelope_portable (h : ValidPlan X p) (hf : materializedFiles X p = .ok files)
    (hcontrol : ∀ q ∈ controlPaths, Portable X q) :
    ∀ f ∈ envelope X p files provenance, Portable X f.1 := by
  intro f hmem
  have hpath := (envelope_paths h hf).mem_iff.mp (List.mem_map_of_mem hmem)
  rcases List.mem_append.mp hpath with ho | hc
  · exact h.portable_outputPaths _ ho
  · exact hcontrol _ hc

/-- The inventory of a tree that holds files none of which is excluded. -/
theorem inventory_of_holds_all {t : Tree} (ht : t.Holds (byComponents files))
    (hp : ∀ f ∈ files, Portable X f.1) (hn : (files.map Prod.fst).Nodup) (excluded : List String)
    (hex : ∀ f ∈ files, f.1 ∉ excluded) :
    inventory X t excluded = .ok (inventoryFromBytes X files) := by
  have hall : files.filter (fun f => decide (f.1 ∉ excluded)) = files :=
    List.filter_eq_self.mpr fun f hf => decide_eq_true (hex f hf)
  rw [inventory_of_holds ht hp hn, hall]

/-- **A valid plan is staged, and the tree holds its envelope.** -/
theorem stageTree_isOk (h : ValidPlan X p) (hf : materializedFiles X p = .ok files)
    (hprov : provenanceJsonl X p files = .ok provenance)
    (hcontrol : ∀ q ∈ controlPaths, Portable X q) :
    ∃ u, stageTree X p = .ok (u, (envelope X p files provenance).length) ∧
      u.Holds (byComponents (envelope X p files provenance)) := by
  have hport := @envelope_portable X p files provenance h hf hcontrol
  have hapart := @envelope_apart X p files provenance h hf
  have hnodup := @envelope_nodup X p files provenance h hf
  -- The control files, each apart from the files written before it.
  rw [envelope, List.pairwise_append] at hapart
  obtain ⟨hwith, -, hchecksums⟩ := hapart
  have hmanifest := hwith
  rw [withManifest, List.pairwise_append] at hmanifest
  obtain ⟨hpayload, -, hmanifest⟩ := hmanifest
  have hplan := hpayload
  rw [payload, List.pairwise_append, List.pairwise_pair] at hplan
  obtain ⟨hfiles, hpp, hplan⟩ := hplan
  simp only [List.mem_cons, List.not_mem_nil, or_false, forall_eq_or_imp, forall_eq] at hplan
  simp only [List.mem_singleton, forall_eq] at hmanifest hchecksums
  have hsub : ∀ f, f ∈ files ∨ f ∈ payload p files provenance ∨
      f ∈ withManifest X p files provenance → f ∈ envelope X p files provenance := by
    intro f hmem
    simp only [envelope, withManifest, payload, List.mem_append] at hmem ⊢
    tauto
  have hdistinct : ∀ l : List OutputFile, l <+: envelope X p files provenance →
      (l.map Prod.fst).Nodup := fun l hl => hnodup.sublist (hl.sublist.map _)
  obtain ⟨t₁, h₁, ht₁⟩ := @writeFiles_isOk X Tree.empty [] files Tree.holds_empty
    (fun f hf => hport f (hsub f (Or.inl hf))) hfiles (by simp)
  obtain ⟨t₂, h₂, ht₂⟩ := writeNewFile_isOk ht₁ p.toValue.canonicalJsonPretty
    (hcontrol planPath (by simp [controlPaths])) (by simpa using fun f hf => (hplan f hf).1)
  obtain ⟨t₃, h₃, ht₃⟩ := writeNewFile_isOk ht₂ provenance
    (hcontrol provenancePath (by simp [controlPaths])) (by
      simp only [List.nil_append, List.mem_cons, forall_eq_or_imp]
      exact ⟨hpp, fun f hf => (hplan f hf).2⟩)
  have ht₃ : t₃.Holds (byComponents (payload p files provenance)) :=
    holds_byComponents_congr ht₃ fun f => by
      simp only [payload, List.mem_append, List.mem_cons, List.nil_append]
      tauto
  have hinv₃ := inventory_of_holds_all ht₃ (fun f hf => hport f (hsub f (Or.inr (Or.inl hf))))
    (hdistinct _ ⟨_, (List.append_assoc _ _ _).symm⟩)
    [manifestPath, checksumsPath] (by
      intro f hf
      simp only [List.mem_cons, List.not_mem_nil, or_false, not_or]
      exact ⟨(hmanifest f hf).ne, (hchecksums f (List.mem_append_left _ hf)).ne⟩)
  obtain ⟨t₄, h₄, ht₄⟩ := writeNewFile_isOk ht₃
    (expectedManifest X p files provenance).toValue.canonicalJsonPretty
    (hcontrol manifestPath (by simp [controlPaths])) hmanifest
  have ht₄ : t₄.Holds (byComponents (withManifest X p files provenance)) :=
    holds_byComponents_congr ht₄ fun f => by
      simp only [withManifest, List.mem_append, List.mem_cons, List.not_mem_nil, or_false]
      tauto
  have hinv₄ := inventory_of_holds_all ht₄ (fun f hf => hport f (hsub f (Or.inr (Or.inr hf))))
    (hdistinct _ ⟨_, rfl⟩) [checksumsPath] (by
      intro f hf
      simpa using (hchecksums f hf).ne)
  obtain ⟨t₅, h₅, ht₅⟩ := writeNewFile_isOk ht₄
    (utf8 (checksumText (inventoryFromBytes X (withManifest X p files provenance))))
    (hcontrol checksumsPath (by simp [controlPaths])) hchecksums
  have ht₅ : t₅.Holds (byComponents (envelope X p files provenance)) :=
    holds_byComponents_congr ht₅ fun f => by
      simp only [envelope, List.mem_append, List.mem_cons, List.not_mem_nil, or_false]
      tauto
  refine ⟨t₅, ?_, ht₅⟩
  simp only [stageTree, bind_eq_ok, Except.ok.injEq, Prod.mk.injEq]
  refine ⟨files, hf, t₁, h₁, t₂, h₂, provenance, hprov, t₃, h₃, _, hinv₃, t₄, h₄, _, hinv₄, t₅, h₅,
    rfl, ?_⟩
  simp [envelope, inventoryFromBytes, sortByPath, List.length_insertionSort]

/-! ## What verification accepts -/

/-- Pushing a file onto an inventory and sorting again. -/
theorem inventoryFromBytes_push {files : List OutputFile} {path : String} {bytes : Bytes}
    (hn : ((files ++ [(path, bytes)]).map Prod.fst).Nodup) :
    sortByPath ManifestFile.path (inventoryFromBytes X files ++ [manifestFile X path bytes]) =
      inventoryFromBytes X (files ++ [(path, bytes)]) := by
  have hperm : (inventoryFromBytes X files ++ [manifestFile X path bytes]).Perm
      ((files ++ [(path, bytes)]).map fun f => manifestFile X f.1 f.2) := by
    rw [List.map_append]
    exact (sortByPath_perm _ _).append_right _
  refine sortByPath_congr ?_ hperm
  refine (hperm.map ManifestFile.path).nodup_iff.mpr ?_
  rw [List.map_map]
  exact hn

/-- The inventory verification expects is that of the envelope. -/
theorem sealedInventory_eq (h : ValidPlan X p) (hf : materializedFiles X p = .ok files) :
    sealedInventory X (inventoryFromBytes X (payload p files provenance))
        (expectedManifest X p files provenance).toValue.canonicalJsonPretty =
      inventoryFromBytes X (envelope X p files provenance) := by
  have hnodup := @envelope_nodup X p files provenance h hf
  have hwith : ((withManifest X p files provenance).map Prod.fst).Nodup :=
    hnodup.sublist ((List.sublist_append_left _ _).map _)
  rw [sealedInventory, inventoryFromBytes_push hwith]
  exact inventoryFromBytes_push hnodup

/-- **What verification accepts.** -/
theorem verify_eq_ok {K : Codec} {t : Tree} {m : CompiledVaultManifest} :
    verify X K t = .ok m ↔ ∃ p files provenance,
      requireRegularDirectory t ".okc" = .ok () ∧
      readRegularFile manifestPath (some maxManifestBytes)
        (kindAt t.entries (splitSlash manifestPath)) = .ok m.toValue.canonicalJsonPretty ∧
      K.decodeManifest m.toValue.canonicalJsonPretty = .ok m ∧
      decodedPlan K t = .ok p ∧ ValidPlan X p ∧ materializedFiles X p = .ok files ∧
      provenanceJsonl X p files = .ok provenance ∧ m = expectedManifest X p files provenance ∧
      inventoryChecked X t []
          (some (allowedPaths (inventoryFromBytes X (envelope X p files provenance)))) =
        .ok (inventoryFromBytes X (envelope X p files provenance)) := by
  simp only [verify, bind_eq_ok, exists_unit, reject_eq_ok, validatePlan_eq_ok, not_or, ne_eq,
    not_not, Except.ok.injEq]
  constructor
  · intro hverify
    obtain ⟨hdir, bytes, hbytes, m', hm, -, p, hp, h, files, hf, provenance, hprov, hexp, actual,
      hactual, hsame, hresult⟩ := hverify
    have hmanifest : m' = expectedManifest X p files provenance := hexp.1
    have hjson := hexp.2
    subst hresult
    rw [← hexp.1] at hjson
    rw [hjson] at hbytes hm
    refine ⟨p, files, provenance, hdir, hbytes, hm, hp, h, hf, hprov, hmanifest, ?_⟩
    rw [← @sealedInventory_eq X p files provenance h hf, ← hmanifest, ← hjson]
    exact hsame ▸ hactual
  · intro hspec
    obtain ⟨p, files, provenance, hdir, hbytes, hm, hp, h, hf, hprov, hexp, hactual⟩ := hspec
    have hmanifest : m = manifestOf p (inventoryFromBytes X (payload p files provenance)) := hexp
    rw [← @sealedInventory_eq X p files provenance h hf, ← hexp] at hactual
    refine ⟨hdir, _, hbytes, m, hm, ⟨?_, ?_⟩, p, hp, h, files, hf, provenance, hprov,
      ⟨hmanifest, by rw [← hmanifest]⟩, _, hactual, ?_, ?_⟩
    · rw [hmanifest]
      rfl
    · rw [hmanifest]
      rfl
    · rfl
    · rfl

end Envelope

end Okc.Core
