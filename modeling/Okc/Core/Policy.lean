import Okc.Core.Workspace

/-!
# The compiler policy (`config.rs`) and source paths (`snapshot.rs:1081-1165`)

The policy that inspection and planning are bound to, what `CompilerPolicy::validate` asks of it,
and the path checks that read its limits.

* `validate_default`: the default policy is valid.
* `validateOutputLogicalPath_eq_ok`: an output path is accepted when its components are valid, it
  is short enough and it is its own NFC spelling.
-/

namespace Okc.Core

open Okc.Lib

def policySchemaVersion : Nat := 2

structure SafetyLimits where
  maxSources : Nat
  maxFiles : Nat
  maxTotalBytes : Nat
  maxFileBytes : Nat
  maxStructuredTextBytes : Nat
  maxArchiveExpansionRatio : Nat
  maxPathBytes : Nat
  maxComponentBytes : Nat

inductive NonstandardFilePolicy
  | preserveOpaque
  | exclude
deriving DecidableEq

structure PathPolicy where
  followSymlinks : Bool
  exclude : List String
  nonstandardFiles : NonstandardFilePolicy
  nonstandardExtensions : List String

/-- `DedupPolicy`. A threshold that is not a number fails `validate`, so the rationals do. -/
structure DedupPolicy where
  nearThreshold : ℚ
  minhashComponents : Nat
  lshBands : Nat
  rowsPerBand : Nat
  maxCandidatesPerDocument : Nat

structure OutputPolicy where
  rejectExistingDestination : Bool
  denyWarnings : Bool
  retainFailedStaging : Bool
  zstdLevel : Int

structure AugmentationPolicy where
  allowRemoteProviders : Bool
  maxProposals : Nat
  maxGeneratedBytes : Nat

structure CompilerPolicy where
  schemaVersion : Nat
  limits : SafetyLimits
  paths : PathPolicy
  dedup : DedupPolicy
  output : OutputPolicy
  augmentation : AugmentationPolicy

/-- `SafetyLimits::default()`. -/
def SafetyLimits.default : SafetyLimits where
  maxSources := 10
  maxFiles := 100000
  maxTotalBytes := 20 * 1024 * 1024 * 1024
  maxFileBytes := 2 * 1024 * 1024 * 1024
  maxStructuredTextBytes := 16 * 1024 * 1024
  maxArchiveExpansionRatio := 100
  maxPathBytes := 1024
  maxComponentBytes := 240

/-- `CompilerPolicy::default()`. -/
def CompilerPolicy.default : CompilerPolicy where
  schemaVersion := policySchemaVersion
  limits := .default
  paths := ⟨false, [".obsidian/**", ".git/**", "**/.DS_Store"], .preserveOpaque, []⟩
  dedup := ⟨17 / 20, 128, 32, 4, 100⟩
  output := ⟨true, false, false, 10⟩
  augmentation := ⟨false, 1000, 16 * 1024 * 1024⟩

/-- What inspection and planning take from other crates: `ignore`, `serde_yaml_ng`, `comrak`,
`serde_json`, `unicode-segmentation`, and the standard library's formatting of an `f64`. -/
structure Crates extends Externals where
  /-- The error of `GitignoreBuilder::add_line`. -/
  excludeLineError : String → Option String
  /-- The error of `GitignoreBuilder::build`. -/
  excludeSetError : List String → Option String
  /-- `serde_yaml_ng::from_str`, then `serde_json::to_value`: the two ways they fail, by message. -/
  yaml : String → Except String (Except String Value)
  /-- `Display` of the `Utf8Error` of bytes that are not UTF-8. -/
  utf8Error : Bytes → String
  /-- `markdown_to_html` with the default options. -/
  markdownToHtml : String → String
  /-- `parse_json_strict`, on `serde_json::from_slice`. -/
  parseJsonStrict : Bytes → Except String Value
  /-- `UnicodeSegmentation::graphemes`. -/
  graphemes : String → List String
  /-- What `serde_json` serializes a finite `f64` to. -/
  floatValue : ℚ → Value
  /-- `format!("{:.6}")`. -/
  formatSix : ℚ → String

/-- The crates on plain input: ASCII text without markup, whole numbers, and no YAML or JSON. -/
def plainCrates (X : Externals) : Crates :=
  { X with
    excludeLineError := fun _ => none
    excludeSetError := fun _ => none
    yaml := fun _ => .error "did not find expected node content"
    utf8Error := fun _ => "invalid utf-8 sequence"
    markdownToHtml := fun text => "<p>" ++ text ++ "</p>\n"
    parseJsonStrict := fun _ => .error "expected value"
    graphemes := fun text => text.toList.map fun c => String.ofList [c]
    floatValue := fun x => .nat x.num.toNat
    formatSix := fun x => Nat.repr x.num.toNat ++ ".000000" }

/-- A signed integer. -/
def intValue : Int → Value
  | .ofNat n => .nat n
  | .negSucc n => ⟨.num ⟨"-" ++ Nat.repr (n + 1), by
      refine ⟨by simp, fun c hc => ?_⟩
      rw [String.toList_append, List.mem_append] at hc
      rcases hc with hminus | hdigits
      · simp_all [isNumeric]
      · exact (Value.toList_repr_numeric _).2 c hdigits⟩, trivial⟩

namespace CompilerPolicy

variable (X : Crates)

/-- `CompilerPolicy::validate`. -/
def validate (p : CompilerPolicy) : Except OkcError Unit := do
  reject (p.schemaVersion ≠ policySchemaVersion)
    (.invalidConfig ("unsupported policy schema version " ++ Nat.repr p.schemaVersion))
  reject (p.limits.maxSources = 0 ∨ p.limits.maxFiles = 0 ∨ p.limits.maxTotalBytes = 0 ∨
      p.limits.maxFileBytes = 0 ∨ p.limits.maxStructuredTextBytes = 0 ∨
      p.limits.maxArchiveExpansionRatio = 0 ∨ p.limits.maxPathBytes = 0 ∨
      p.limits.maxComponentBytes = 0)
    (.invalidConfig "all safety limits must be positive")
  reject (p.limits.maxTotalBytes < p.limits.maxFileBytes)
    (.invalidConfig "per-file byte limit cannot exceed the total byte limit")
  reject (p.limits.maxFileBytes < p.limits.maxStructuredTextBytes)
    (.invalidConfig "structured-text byte limit cannot exceed the per-file byte limit")
  reject (p.limits.maxComponentBytes < 80 ∨ p.limits.maxPathBytes < p.limits.maxComponentBytes)
    (.invalidConfig
      "path limit must cover a component and component limit must be at least 80 bytes")
  reject p.paths.followSymlinks
    (.invalidConfig "following source symlinks is not supported by the snapshot safety policy")
  reject (¬ p.output.rejectExistingDestination)
    (.invalidConfig ("the compiler always rejects an existing destination; an update workflow " ++
      "requires a new ADR"))
  forM p.paths.exclude fun pattern => do
    reject (pattern.toList.head? = some '!')
      (.invalidConfig "exclude patterns cannot contain gitignore negations")
    match X.excludeLineError pattern with
    | some error =>
      .error (.invalidConfig ("invalid exclude pattern \x60" ++ pattern ++ "\x60: " ++ error))
    | none => .ok ()
  match X.excludeSetError p.paths.exclude with
  | some error => .error (.invalidConfig ("invalid exclude pattern set: " ++ error))
  | none => do
    reject (p.paths.nonstandardExtensions.any fun extension =>
        extension = "" ∨ 32 < len extension ∨
          ¬ extension.toList.all fun c => c.isAlphanum || c == '-' || c == '_')
      (.invalidConfig "nonstandard extensions must be bounded ASCII names without a leading dot")
    reject (¬ (0 ≤ p.dedup.nearThreshold ∧ p.dedup.nearThreshold ≤ 1))
      (.invalidConfig "near duplicate threshold must be between 0 and 1")
    reject (p.dedup.minhashComponents ≠ 128 ∨ p.dedup.lshBands ≠ 32 ∨ p.dedup.rowsPerBand ≠ 4)
      (.invalidConfig "the identity policy requires 128 MinHash components in 32x4 bands")
    reject (p.dedup.maxCandidatesPerDocument = 0)
      (.invalidConfig "near-duplicate candidate limit must be positive")
    reject (p.augmentation.maxProposals = 0 ∨ p.augmentation.maxGeneratedBytes = 0)
      (.invalidConfig "augmentation limits must be positive")

def NonstandardFilePolicy.toValue : NonstandardFilePolicy → Value
  | .preserveOpaque => .str "preserve_opaque"
  | .exclude => .str "exclude"

def toValue (p : CompilerPolicy) : Value :=
  .object [("schema_version", .nat p.schemaVersion),
    ("limits", .object [("max_sources", .nat p.limits.maxSources),
      ("max_files", .nat p.limits.maxFiles), ("max_total_bytes", .nat p.limits.maxTotalBytes),
      ("max_file_bytes", .nat p.limits.maxFileBytes),
      ("max_structured_text_bytes", .nat p.limits.maxStructuredTextBytes),
      ("max_archive_expansion_ratio", .nat p.limits.maxArchiveExpansionRatio),
      ("max_path_bytes", .nat p.limits.maxPathBytes),
      ("max_component_bytes", .nat p.limits.maxComponentBytes)]),
    ("paths", .object [("follow_symlinks", .bool p.paths.followSymlinks),
      ("exclude", .arr (p.paths.exclude.map .str)),
      ("nonstandard_files", NonstandardFilePolicy.toValue p.paths.nonstandardFiles),
      ("nonstandard_extensions", .arr (p.paths.nonstandardExtensions.map .str))]),
    ("dedup", .object [("near_threshold", X.floatValue p.dedup.nearThreshold),
      ("minhash_components", .nat p.dedup.minhashComponents),
      ("lsh_bands", .nat p.dedup.lshBands), ("rows_per_band", .nat p.dedup.rowsPerBand),
      ("max_candidates_per_document", .nat p.dedup.maxCandidatesPerDocument)]),
    ("output", .object [("reject_existing_destination", .bool p.output.rejectExistingDestination),
      ("deny_warnings", .bool p.output.denyWarnings),
      ("retain_failed_staging", .bool p.output.retainFailedStaging),
      ("zstd_level", intValue p.output.zstdLevel)]),
    ("augmentation", .object [
      ("allow_remote_providers", .bool p.augmentation.allowRemoteProviders),
      ("max_proposals", .nat p.augmentation.maxProposals),
      ("max_generated_bytes", .nat p.augmentation.maxGeneratedBytes)])]

/-- `CompilerPolicy::semantic_hash`. -/
def semanticHash (p : CompilerPolicy) : ContentHash :=
  X.canonicalHash "okc:policy:v2\x00" (p.toValue X)

/-- The two limits the path checks read. -/
def pathLimits (p : CompilerPolicy) : PathLimits :=
  ⟨p.limits.maxPathBytes, p.limits.maxComponentBytes⟩

end CompilerPolicy

/-- Where the crate `ignore` takes the default patterns, the default policy is valid. -/
theorem validate_default {X : Crates} (hline : ∀ p, X.excludeLineError p = none)
    (hset : ∀ ps, X.excludeSetError ps = none) :
    CompilerPolicy.validate X .default = .ok () := by
  have hpatterns : ∀ p ∈ [".obsidian/**", ".git/**", "**/.DS_Store"], p.toList.head? ≠ some '!' :=
    by decide
  have hthreshold : ¬ ¬ ((0 : ℚ) ≤ 17 / 20 ∧ (17 / 20 : ℚ) ≤ 1) := by norm_num
  simp only [CompilerPolicy.validate, CompilerPolicy.default, SafetyLimits.default, hline, hset,
    bind_unit_eq_ok, reject_eq_ok, forM_eq_ok, and_true]
  refine ⟨by decide, by decide, by decide, by decide, by decide, by decide, by decide,
    hpatterns, by decide, reject_eq_ok.mpr hthreshold, by decide, by decide, by decide⟩

/-! ## Source and output paths -/

/-- `validate_source_path_pair`. -/
def validateSourcePathPair (X : Externals) (limits : PathLimits)
    (originalPath logicalPath : String) : Except OkcError Unit := do
  let decoded ← decodeArchivePath X limits originalPath false
  reject (decoded.originalPath ≠ originalPath ∨ decoded.logicalPath ≠ logicalPath)
    (.identityMismatch ("source path pair is inconsistent: \x60" ++ originalPath ++ "\x60 / \x60" ++
      logicalPath ++ "\x60"))

def validateOutputLogicalPath (X : Externals) (limits : PathLimits) (path : String) :
    Except OkcError Unit := do
  let decoded ← decodeArchivePath X limits path false
  reject (decoded.originalPath ≠ path ∨ decoded.logicalPath ≠ path)
    (.unsafePath path "output path is not in canonical NFC form")

theorem validateSourcePathPair_eq_ok {X : Externals} {limits : PathLimits}
    {originalPath logicalPath : String} :
    validateSourcePathPair X limits originalPath logicalPath = .ok () ↔
      PortableWithin X limits originalPath ∧
        logicalPath = joinSlash ((splitSlash originalPath).map X.nfc) := by
  simp only [validateSourcePathPair, bind_eq_ok, reject_eq_ok, not_or, ne_eq, not_not]
  constructor
  · rintro ⟨pair, h, hself, hlogical⟩
    obtain ⟨hwithin, rfl⟩ := decodeArchivePath_eq_self.mp ⟨h, hself⟩
    exact ⟨hwithin, hlogical.symm⟩
  · rintro ⟨hwithin, rfl⟩
    exact ⟨_, (decodeArchivePath_eq_self.mpr ⟨hwithin, rfl⟩).1, rfl, rfl⟩

/-- **An output path is accepted when it is portable and its own NFC spelling.** -/
theorem validateOutputLogicalPath_eq_ok {X : Externals} {limits : PathLimits} {path : String} :
    validateOutputLogicalPath X limits path = .ok () ↔
      PortableWithin X limits path ∧ joinSlash ((splitSlash path).map X.nfc) = path := by
  simp only [validateOutputLogicalPath, bind_eq_ok, reject_eq_ok, not_or, ne_eq, not_not]
  constructor
  · rintro ⟨pair, h, hself, hlogical⟩
    obtain ⟨hwithin, rfl⟩ := decodeArchivePath_eq_self.mp ⟨h, hself⟩
    exact ⟨hwithin, hlogical⟩
  · rintro ⟨hwithin, hlogical⟩
    exact ⟨_, (decodeArchivePath_eq_self.mpr ⟨hwithin, rfl⟩).1, rfl, hlogical⟩

theorem PortableWithin.nameOk {X : Externals} {limits : PathLimits} {path : String}
    (h : PortableWithin X limits path) : ∀ c ∈ splitSlash path, NameOk c := fun c hc =>
  validateComponent_nameOk (h.component c hc).1

end Okc.Core
