import Okc.Core.OutputNames
import Okc.Core.Plan
import Okc.Core.SourcePaths

/-!
# What an inspection seals (`snapshot.rs:95-306`, `plan.rs:507-606`)

An inspection seals the files of every source; a plan carries the snapshots and checks them again,
file by file, whenever it is read.

* `entryOk_of_collect`: what the collectors let through.
* `snapshotOk_of_seal`: a snapshot is bound to its files.
* `validateSnapshotSet_isOk`: snapshots that are bound to their files are accepted together.
* **`validateSnapshotSet_inspectSources`**: what an inspection seals is accepted.
-/

namespace Okc.Core

open Okc.Lib

/-- The limits of a policy fit their type, `u64`. -/
structure WordLimits (policy : CompilerPolicy) : Prop where
  files : policy.limits.maxFiles < 2 ^ 64
  bytes : policy.limits.maxTotalBytes < 2 ^ 64

/-- What the collectors let through. -/
structure EntryOk (X : Externals) (policy : CompilerPolicy) (entry : RawEntry) : Prop where
  path : validateSourcePathPair X policy.pathLimits entry.originalPath entry.logicalPath = .ok ()
  kind : entry.kind = FileKind.classify entry.logicalPath
  size : entry.bytes.length ≤ policy.limits.maxFileBytes
  text : entry.kind ≠ .asset → entry.bytes.length ≤ policy.limits.maxStructuredTextBytes

/-- What a plan checks of a file by itself. -/
structure FileOk (X : Externals) (policy : CompilerPolicy) (file : SourceFile) : Prop where
  path : validateSourcePathPair X policy.pathLimits file.originalPath file.logicalPath = .ok ()
  output : validateOutputLogicalPath X policy.pathLimits file.logicalPath = .ok ()
  kind : FileKind.classify file.logicalPath = file.kind
  size : file.byteLen ≤ policy.limits.maxFileBytes
  text : file.kind ≠ .asset → file.byteLen ≤ policy.limits.maxStructuredTextBytes
  fileId : file.fileId = X.fileId file.logicalPath file.kind file.contentHash

/-- A snapshot is bound to its files. -/
structure SnapshotOk (X : Externals) (policy : CompilerPolicy) (snapshot : VaultSnapshot) :
    Prop where
  source : snapshot.source.sourceId = snapshot.sourceId
  policyId : snapshot.policyId = sourcePolicyId
  content : snapshot.vaultContentId =
    X.canonicalHash "okc:vault-content:v2\x00" (manifestValue snapshot.manifest)
  id : snapshot.snapshotId =
    X.snapshotId snapshot.sourceId.value snapshot.policyId snapshot.manifest
  bound : ∀ file ∈ snapshot.files, file.sourceId = snapshot.sourceId ∧
    file.snapshotId = snapshot.snapshotId
  ascending : (snapshot.files.map SourceFile.logicalPath).Pairwise (· < ·)
  file : ∀ file ∈ snapshot.files, FileOk X policy file

/-- The number of files and of bytes. -/
def fileTotal (snapshots : List VaultSnapshot) : Nat :=
  (snapshots.map fun snapshot => snapshot.files.length).sum

def byteTotal (snapshots : List VaultSnapshot) : Nat :=
  (snapshots.map fun snapshot => (snapshot.files.map SourceFile.byteLen).sum).sum

/-! ## Collecting -/

section

variable {X : Externals} {policy : CompilerPolicy} {source : SourceSpec}

theorem pair_of_build {limits : PathLimits} {components : List String} {display : String}
    {pair : SourcePathPair} (h : buildSourcePathPair X limits components display = .ok pair) :
    validateSourcePathPair X limits pair.originalPath pair.logicalPath = .ok () := by
  obtain ⟨hne, hvalid, hlen, hlogical, rfl⟩ := buildSourcePathPair_eq_ok.mp h
  have hsplit : splitSlash (joinSlash components) = components :=
    splitSlash_joinSlash hne fun c hc => (validateComponent_nameOk (hvalid c hc).1).2
  refine validateSourcePathPair_eq_ok.mpr ⟨⟨?_, hlen, ?_⟩, ?_⟩
  · rwa [hsplit]
  · rwa [hsplit]
  · rw [hsplit]

theorem pair_of_decode {path : String} {pair : SourcePathPair}
    (h : decodeItemPath X policy source path = .ok pair) :
    validateSourcePathPair X policy.pathLimits pair.originalPath pair.logicalPath = .ok () := by
  have harchive : ∀ {raw : String}, decodeArchivePath X policy.pathLimits raw false = .ok pair →
      validateSourcePathPair X policy.pathLimits pair.originalPath pair.logicalPath = .ok () := by
    intro raw hdecoded
    unfold decodeArchivePath at hdecoded
    obtain ⟨-, hdecoded⟩ := bind_unit_eq_ok.mp hdecoded
    obtain ⟨components, -, hbuilt⟩ := bind_eq_ok.mp hdecoded
    exact pair_of_build hbuilt
  unfold decodeItemPath at h
  cases hformat : source.format with
  | directory =>
    rw [hformat] at h
    exact pair_of_build h
  | zip =>
    rw [hformat] at h
    exact harchive h
  | tarZst =>
    rw [hformat] at h
    exact harchive h

/-- The entries of a source: each let through, at a path of its own. -/
structure EntriesOk (X : Externals) (policy : CompilerPolicy) (entries : List RawEntry) : Prop where
  entry : ∀ entry ∈ entries, EntryOk X policy entry
  distinct : (entries.map RawEntry.logicalPath).Nodup

theorem entriesOk_step {entries entries' : List RawEntry} {item : SourceItem}
    (h : EntriesOk X policy entries)
    (hstep : collectItem X policy source entries item = .ok entries') :
    EntriesOk X policy entries' := by
  simp only [collectItem, validateStructuredSize, bind_eq_ok, exists_unit, reject_eq_ok, not_and,
    not_lt, Except.ok.injEq] at hstep
  obtain ⟨pair, hpair, hnew, hsize, htext, -, rfl⟩ := hstep
  constructor
  · intro entry hentry
    rcases List.mem_append.mp hentry with hold | hlast
    · exact h.entry entry hold
    · rw [List.mem_singleton.mp hlast]
      exact ⟨pair_of_decode hpair, rfl, hsize, htext⟩
  · rw [List.map_append, List.nodup_append]
    refine ⟨h.distinct, List.nodup_singleton _, fun a ha b hb hab => hnew ?_⟩
    have hlast : b = pair.logicalPath := List.mem_singleton.mp hb
    rw [← hlast, ← hab]
    exact ha

/-- **What is collected.** -/
theorem entriesOk_of_collect {items : List SourceItem} {entries : List RawEntry}
    (h : collectEntries X policy source items = .ok entries) : EntriesOk X policy entries :=
  foldlM_keeps (fun _ _ _ hs hstep => entriesOk_step hs hstep) items
    ⟨fun _ he => absurd he List.not_mem_nil, List.nodup_nil⟩ h

theorem EntriesOk.sublist {entries entries' : List RawEntry} (h : EntriesOk X policy entries)
    (hsub : entries'.Sublist entries) : EntriesOk X policy entries' :=
  ⟨fun entry hentry => h.entry entry (hsub.subset hentry),
    h.distinct.sublist (hsub.map RawEntry.logicalPath)⟩

theorem excludeNonstandard_sublist (policy : CompilerPolicy) (entries : List RawEntry) :
    (excludeNonstandard policy entries).1.Sublist entries := by
  unfold excludeNonstandard
  split
  · exact List.filter_sublist
  · exact List.Sublist.refl entries

end

/-! ## Sealing -/

section

variable {X : Crates} {policy : CompilerPolicy} {source : SourceSpec} {entries : List RawEntry}

/-- The entries in the order of their files. -/
def sortEntries (entries : List RawEntry) : List RawEntry :=
  entries.mergeSort fun a b => decide (a.logicalPath ≤ b.logicalPath)

theorem sortEntries_perm (entries : List RawEntry) : (sortEntries entries).Perm entries :=
  List.mergeSort_perm _ _

theorem sortEntries_ascending (h : (entries.map RawEntry.logicalPath).Nodup) :
    ((sortEntries entries).map RawEntry.logicalPath).Pairwise (· < ·) :=
  pairwise_lt_of_sortBy h

/-- The identity of the snapshot of the entries. -/
def entriesId (X : Externals) (source : SourceSpec) (entries : List RawEntry) : SnapshotId :=
  X.snapshotId source.sourceId.value sourcePolicyId ((sortEntries entries).map (manifestEntry X))

/-- The snapshot of the entries. -/
def entriesSnapshot (X : Externals) (source : SourceSpec) (entries : List RawEntry) :
    VaultSnapshot where
  snapshotId := entriesId X source entries
  vaultContentId := X.canonicalHash "okc:vault-content:v2\x00"
    (manifestValue ((sortEntries entries).map (manifestEntry X)))
  sourceId := source.sourceId
  source := source
  policyId := sourcePolicyId
  files := (sortEntries entries).map (sourceFile X source.sourceId (entriesId X source entries))

theorem manifest_entriesSnapshot (X : Externals) (source : SourceSpec) (entries : List RawEntry) :
    (entriesSnapshot X source entries).manifest = (sortEntries entries).map (manifestEntry X) := by
  unfold VaultSnapshot.manifest entriesSnapshot
  rw [List.map_map]
  rfl

theorem sealAndParse_eq_ok {diagnostics : List Diagnostic} {snapshot : VaultSnapshot}
    {parsed : Parsed} :
    sealAndParse X policy source entries diagnostics = .ok (snapshot, parsed) ↔
      (sortEntries entries).foldlM (fun p entry => parseFile X policy.pathLimits p
        (sourceFile X.toExternals source.sourceId (entriesId X.toExternals source entries) entry)
        entry.bytes) ⟨.empty, diagnostics⟩ = .ok parsed ∧
      snapshot = entriesSnapshot X.toExternals source entries := by
  unfold sealAndParse
  simp only [bind_eq_ok, Except.ok.injEq, Prod.mk.injEq]
  constructor
  · rintro ⟨parsed, hparsed, rfl, rfl⟩
    exact ⟨hparsed, rfl⟩
  · rintro ⟨hparsed, rfl⟩
    exact ⟨parsed, hparsed, rfl, rfl⟩

theorem fileOk_of_entry (hX : NfcLaws X.toExternals) {sourceId : SourceId} {snapshotId : SnapshotId}
    {entry : RawEntry} (h : EntryOk X.toExternals policy entry) :
    FileOk X.toExternals policy (sourceFile X.toExternals sourceId snapshotId entry) := by
  obtain ⟨hwithin, hlogical⟩ := validateSourcePathPair_eq_ok.mp h.path
  refine ⟨h.path, ?_, h.kind.symm, h.size, h.text, rfl⟩
  show validateOutputLogicalPath X.toExternals policy.pathLimits entry.logicalPath = .ok ()
  rw [hlogical]
  refine validateOutputLogicalPath_eq_ok.mpr
    ⟨portableWithin_logical hX.idempotent hwithin, ?_⟩
  rw [splitSlash_logical hwithin, map_nfc_map_nfc hX.idempotent]

/-- **A snapshot is bound to its files.** -/
theorem snapshotOk_of_seal (hX : NfcLaws X.toExternals) (h : EntriesOk X.toExternals policy entries)
    {diagnostics : List Diagnostic} {snapshot : VaultSnapshot} {parsed : Parsed}
    (hseal : sealAndParse X policy source entries diagnostics = .ok (snapshot, parsed)) :
    SnapshotOk X.toExternals policy snapshot := by
  obtain ⟨-, rfl⟩ := sealAndParse_eq_ok.mp hseal
  refine ⟨rfl, rfl, ?_, ?_, fun file hfile => ?_, ?_, fun file hfile => ?_⟩
  · rw [manifest_entriesSnapshot]
    rfl
  · rw [manifest_entriesSnapshot]
    rfl
  · obtain ⟨entry, -, rfl⟩ := List.mem_map.mp hfile
    exact ⟨rfl, rfl⟩
  · rw [entriesSnapshot, List.map_map]
    exact sortEntries_ascending h.distinct
  · obtain ⟨entry, hentry, rfl⟩ := List.mem_map.mp hfile
    exact fileOk_of_entry hX (h.entry entry ((sortEntries_perm entries).subset hentry))

theorem totals_of_seal {diagnostics : List Diagnostic} {snapshot : VaultSnapshot} {parsed : Parsed}
    (hseal : sealAndParse X policy source entries diagnostics = .ok (snapshot, parsed)) :
    snapshot.files.length = entries.length ∧ (snapshot.files.map SourceFile.byteLen).sum =
      (entries.map fun entry => entry.bytes.length).sum := by
  obtain ⟨-, rfl⟩ := sealAndParse_eq_ok.mp hseal
  constructor
  · rw [entriesSnapshot, List.length_map, (sortEntries_perm entries).length_eq]
  · rw [entriesSnapshot, List.map_map]
    exact ((sortEntries_perm entries).map fun entry => entry.bytes.length).sum_eq

/-! ## Checking again -/

theorem checkedTotal_eq_ok {message : String} {total n : Nat} (h : total + n < 2 ^ 64) :
    checkedTotal message total n = .ok (total + n) :=
  bind_unit_eq_ok.mpr ⟨reject_eq_ok.mpr (not_le.mpr h), rfl⟩

theorem validateSealedFile_eq_ok {snapshot : VaultSnapshot} {before : List SourceFile}
    {file : SourceFile} (h : FileOk X.toExternals policy file)
    (hbound : file.sourceId = snapshot.sourceId ∧ file.snapshotId = snapshot.snapshotId)
    (hafter : ¬ NotAfter SourceFile.logicalPath before file) :
    validateSealedFile X policy snapshot before file = .ok () := by
  simp only [validateSealedFile, bind_unit_eq_ok, reject_eq_ok]
  refine ⟨hafter, h.path, h.output, ?_, ?_, ?_, ?_, ?_⟩
  · rw [not_or, not_not, not_not]
    exact hbound
  · exact not_not.mpr h.kind
  · exact not_lt.mpr h.size
  · rintro ⟨hkind, hlong⟩
    exact absurd hlong (not_lt.mpr (h.text hkind))
  · exact not_not.mpr h.fileId

theorem validateSealedFiles_eq_ok {snapshot : VaultSnapshot} {before files : List SourceFile}
    {totals : SealedTotals} (h : ∀ file ∈ files, FileOk X.toExternals policy file ∧
      file.sourceId = snapshot.sourceId ∧ file.snapshotId = snapshot.snapshotId)
    (hafter : ScannedFrom (fun before file => ¬ NotAfter SourceFile.logicalPath before file)
      before files)
    (hfiles : totals.files + files.length < 2 ^ 64)
    (hbytes : totals.bytes + (files.map SourceFile.byteLen).sum < 2 ^ 64) :
    validateSealedFiles X policy snapshot before totals files = .ok
      ⟨totals.files + files.length, totals.bytes + (files.map SourceFile.byteLen).sum⟩ := by
  induction files generalizing before totals with
  | nil => rfl
  | cons file files ih =>
    rw [List.length_cons] at hfiles
    rw [List.map_cons, List.sum_cons] at hbytes
    obtain ⟨hok, hbound⟩ := h file List.mem_cons_self
    have hrest := @ih (file :: before) ⟨totals.files + 1, totals.bytes + file.byteLen⟩
      (fun f hf => h f (List.mem_cons_of_mem _ hf)) hafter.2
      (show totals.files + 1 + files.length < 2 ^ 64 by omega)
      (show totals.bytes + file.byteLen + (files.map SourceFile.byteLen).sum < 2 ^ 64 by omega)
    rw [validateSealedFiles, validateSealedFile_eq_ok hok hbound hafter.1,
      checkedTotal_eq_ok (by omega), checkedTotal_eq_ok (by omega)]
    refine hrest.trans (congrArg Except.ok ?_)
    rw [List.length_cons, List.map_cons, List.sum_cons, SealedTotals.mk.injEq]
    dsimp only
    omega

/-- Each snapshot is bound to its files and has a valid name, and comes after those before it, with
other contents. -/
structure SnapshotsOk (X : Externals) (policy : CompilerPolicy) (snapshots : List VaultSnapshot) :
    Prop where
  snapshot : ∀ snapshot ∈ snapshots, SnapshotOk X policy snapshot ∧
    ∃ id, SourceId.new snapshot.sourceId.value = .ok id
  ascending : (snapshots.map fun snapshot => snapshot.sourceId.value).Pairwise (· < ·)
  contents : (snapshots.map VaultSnapshot.vaultContentId).Nodup

theorem validateSnapshot_eq_ok {before : List VaultSnapshot} {totals : SealedTotals}
    {snapshot : VaultSnapshot} (h : SnapshotOk X.toExternals policy snapshot)
    (hid : ∃ id, SourceId.new snapshot.sourceId.value = .ok id)
    (hafter : ¬ NotAfter (fun s : VaultSnapshot => s.sourceId.value) before snapshot)
    (hcontent : snapshot.vaultContentId ∉ before.map VaultSnapshot.vaultContentId)
    (hfiles : totals.files + snapshot.files.length < 2 ^ 64)
    (hbytes : totals.bytes + (snapshot.files.map SourceFile.byteLen).sum < 2 ^ 64) :
    validateSnapshot X policy before totals snapshot = .ok ⟨totals.files + snapshot.files.length,
      totals.bytes + (snapshot.files.map SourceFile.byteLen).sum⟩ := by
  obtain ⟨id, hid⟩ := hid
  have hscanned : ScannedFrom (fun before file => ¬ NotAfter SourceFile.logicalPath before file)
      [] snapshot.files :=
    (scanned_ascending.mpr h.ascending).imp fun _ _ hb => not_notAfter.mpr hb
  have hsealed := validateSealedFiles_eq_ok
    (fun file hfile => ⟨h.file file hfile, h.bound file hfile⟩) hscanned hfiles hbytes
  unfold validateSnapshot
  rw [hid, hsealed]
  simp only [bind_eq_ok, exists_unit, reject_eq_ok, Except.ok.injEq]
  refine ⟨id, rfl, hafter, not_not.mpr h.source, not_not.mpr h.policyId, ?_, _, rfl,
    not_not.mpr h.id, rfl⟩
  rw [not_or, not_not]
  exact ⟨h.content, hcontent⟩

theorem validateSnapshots_eq_ok {before snapshots : List VaultSnapshot} {totals : SealedTotals}
    (h : ∀ snapshot ∈ snapshots, SnapshotOk X.toExternals policy snapshot ∧
      ∃ id, SourceId.new snapshot.sourceId.value = .ok id)
    (hafter : ScannedFrom (fun before snapshot =>
      ¬ NotAfter (fun s : VaultSnapshot => s.sourceId.value) before snapshot ∧
      snapshot.vaultContentId ∉ before.map VaultSnapshot.vaultContentId) before snapshots)
    (hfiles : totals.files + fileTotal snapshots < 2 ^ 64)
    (hbytes : totals.bytes + byteTotal snapshots < 2 ^ 64) :
    validateSnapshots X policy before totals snapshots =
      .ok ⟨totals.files + fileTotal snapshots, totals.bytes + byteTotal snapshots⟩ := by
  induction snapshots generalizing before totals with
  | nil => rfl
  | cons snapshot snapshots ih =>
    have hcount : fileTotal (snapshot :: snapshots) = snapshot.files.length + fileTotal snapshots :=
      rfl
    have hsize : byteTotal (snapshot :: snapshots) =
        (snapshot.files.map SourceFile.byteLen).sum + byteTotal snapshots := rfl
    rw [hcount] at hfiles ⊢
    rw [hsize] at hbytes ⊢
    obtain ⟨hok, hid⟩ := h snapshot List.mem_cons_self
    have hrest := @ih (snapshot :: before) ⟨totals.files + snapshot.files.length,
        totals.bytes + (snapshot.files.map SourceFile.byteLen).sum⟩
      (fun s hs => h s (List.mem_cons_of_mem _ hs)) hafter.2
      (show totals.files + snapshot.files.length + fileTotal snapshots < 2 ^ 64 by omega)
      (show totals.bytes + (snapshot.files.map SourceFile.byteLen).sum + byteTotal snapshots <
        2 ^ 64 by omega)
    rw [validateSnapshots,
      validateSnapshot_eq_ok hok hid hafter.1.1 hafter.1.2 (by omega) (by omega)]
    refine hrest.trans (congrArg Except.ok ?_)
    rw [SealedTotals.mk.injEq, ← hcount, ← hsize]
    dsimp only
    omega

/-- **Snapshots that are bound to their files are accepted together.** -/
theorem validateSnapshotSet_isOk {snapshots : List VaultSnapshot}
    (h : SnapshotsOk X.toExternals policy snapshots) (hwords : WordLimits policy)
    (hne : snapshots ≠ []) (hsources : snapshots.length ≤ policy.limits.maxSources)
    (hfiles : fileTotal snapshots ≤ policy.limits.maxFiles)
    (hbytes : byteTotal snapshots ≤ policy.limits.maxTotalBytes) :
    validateSnapshotSet X policy snapshots = .ok () := by
  have hscanned : ScannedFrom (fun before snapshot =>
      ¬ NotAfter (fun s : VaultSnapshot => s.sourceId.value) before snapshot ∧
      snapshot.vaultContentId ∉ before.map VaultSnapshot.vaultContentId) [] snapshots :=
    scannedFrom_and.mpr ⟨(scanned_ascending.mpr h.ascending).imp fun _ _ hb => not_notAfter.mpr hb,
      scanned_fresh.mpr h.contents⟩
  have hfilesFit : 0 + fileTotal snapshots < 2 ^ 64 := by
    have := hwords.files
    omega
  have hbytesFit : 0 + byteTotal snapshots < 2 ^ 64 := by
    have := hwords.bytes
    omega
  have htotals := @validateSnapshots_eq_ok X policy [] snapshots ⟨0, 0⟩ h.snapshot hscanned
    hfilesFit hbytesFit
  simp only [Nat.zero_add] at htotals
  unfold validateSnapshotSet
  rw [htotals]
  simp only [bind_eq_ok, exists_unit, reject_eq_ok, Except.ok.injEq, exists_eq_left', not_lt]
  exact ⟨hne, hsources, hfiles, hbytes⟩

/-! ## Inspecting -/

/-- What the loop of `inspect_sources` has sealed of the sources before it, the latest first. -/
structure LoopOk (X : Externals) (policy : CompilerPolicy) (s : InspectLoop)
    (before : List (SourceSpec × List SourceItem)) : Prop where
  snapshot : ∀ snapshot ∈ s.snapshots, SnapshotOk X policy snapshot
  sources : s.snapshots.map VaultSnapshot.sourceId =
    before.reverse.map fun input => input.1.sourceId
  files : s.totalFiles = fileTotal s.snapshots
  bytes : s.totalBytes = byteTotal s.snapshots
  filesFit : s.totalFiles ≤ policy.limits.maxFiles
  bytesFit : s.totalBytes ≤ policy.limits.maxTotalBytes

theorem inspectSource_eq_ok {s t : InspectLoop} {input : SourceSpec × List SourceItem} :
    inspectSource X policy s input = .ok t ↔ ∃ collected snapshot parsed,
      collectEntries X.toExternals policy input.1 input.2 = .ok collected ∧
      sealAndParse X policy input.1 (excludeNonstandard policy collected).1
        (s.parsed.diagnostics ++ (excludeNonstandard policy collected).2) =
          .ok (snapshot, parsed) ∧
      s.totalFiles + (excludeNonstandard policy collected).1.length ≤ policy.limits.maxFiles ∧
      s.totalBytes + ((excludeNonstandard policy collected).1.map fun entry =>
        entry.bytes.length).sum ≤ policy.limits.maxTotalBytes ∧
      t = ⟨s.snapshots ++ [snapshot],
        ⟨s.parsed.workspace.extend parsed.workspace, parsed.diagnostics⟩,
        s.totalFiles + (excludeNonstandard policy collected).1.length,
        s.totalBytes + ((excludeNonstandard policy collected).1.map fun entry =>
          entry.bytes.length).sum⟩ := by
  simp only [inspectSource, bind_eq_ok, exists_unit, reject_eq_ok, not_lt, Prod.exists,
    Except.ok.injEq]
  constructor
  · rintro ⟨collected, hcollected, hfiles, hbytes, snapshot, parsed, hseal, rfl⟩
    exact ⟨collected, snapshot, parsed, hcollected, hseal, hfiles, hbytes, rfl⟩
  · rintro ⟨collected, snapshot, parsed, hcollected, hseal, hfiles, hbytes, rfl⟩
    exact ⟨collected, hcollected, hfiles, hbytes, snapshot, parsed, hseal, rfl⟩

theorem fileTotal_append (snapshots : List VaultSnapshot) (snapshot : VaultSnapshot) :
    fileTotal (snapshots ++ [snapshot]) = fileTotal snapshots + snapshot.files.length := by
  simp [fileTotal]

theorem byteTotal_append (snapshots : List VaultSnapshot) (snapshot : VaultSnapshot) :
    byteTotal (snapshots ++ [snapshot]) =
      byteTotal snapshots + (snapshot.files.map SourceFile.byteLen).sum := by
  simp [byteTotal]

theorem loopOk_step (hX : NfcLaws X.toExternals) {s t : InspectLoop}
    {before : List (SourceSpec × List SourceItem)} {input : SourceSpec × List SourceItem}
    (h : LoopOk X.toExternals policy s before) (hstep : inspectSource X policy s input = .ok t) :
    LoopOk X.toExternals policy t (input :: before) := by
  obtain ⟨collected, snapshot, parsed, hcollected, hseal, hfiles, hbytes, rfl⟩ :=
    inspectSource_eq_ok.mp hstep
  have hentries := (entriesOk_of_collect hcollected).sublist
    (excludeNonstandard_sublist policy collected)
  have hsealed : snapshot = entriesSnapshot X.toExternals input.1
    (excludeNonstandard policy collected).1 := (sealAndParse_eq_ok.mp hseal).2
  obtain ⟨hlength, hsum⟩ := totals_of_seal hseal
  refine ⟨fun snapshot' hmem => ?_, ?_, ?_, ?_, hfiles, hbytes⟩
  · rcases List.mem_append.mp hmem with hold | hlast
    · exact h.snapshot snapshot' hold
    · rw [List.mem_singleton.mp hlast]
      exact snapshotOk_of_seal hX hentries hseal
  · rw [List.map_append, h.sources, List.reverse_cons, List.map_append, hsealed]
    rfl
  · rw [fileTotal_append, hlength, ← h.files]
  · rw [byteTotal_append, hsum, ← h.bytes]

/-- The steps of `inspect_sources`. -/
structure InspectedSet (X : Crates) (policy : CompilerPolicy)
    (sources : List (SourceSpec × List SourceItem)) (inspection : Inspection) (s : InspectLoop) :
    Prop where
  valid : policy.validate X = .ok ()
  nonempty : sources ≠ []
  sourcesFit : sources.length ≤ policy.limits.maxSources
  distinct : (sources.map fun input => input.1.sourceId).Nodup
  loop : sources.foldlM (inspectSource X policy) ⟨[], ⟨.empty, []⟩, 0, 0⟩ = .ok s
  snapshots : inspection.snapshots =
    sortBy (fun snapshot : VaultSnapshot => snapshot.sourceId.value) s.snapshots
  contents : (inspection.snapshots.map VaultSnapshot.vaultContentId).Nodup
  workspace : inspection.workspace = s.parsed.workspace
  policyHash : inspection.policyHash = policy.semanticHash X
  inspectionHash : inspection.inspectionHash = X.inspectionHash inspectionSchemaVersion
    productVersion (policy.semanticHash X) inspection.snapshots

theorem inspected_of_ok {sources : List (SourceSpec × List SourceItem)} {inspection : Inspection}
    (h : inspectSources X policy sources = .ok inspection) :
    ∃ s, InspectedSet X policy sources inspection s := by
  simp only [inspectSources, bind_eq_ok, exists_unit, reject_eq_ok, not_lt, not_not,
    Except.ok.injEq] at h
  obtain ⟨hpolicy, hne, hfit, hdistinct, s, hloop, hscan, rfl⟩ := h
  exact ⟨s, hpolicy, hne, hfit, hdistinct, hloop, rfl,
    scanned_fresh.mp ((scan_eq_ok.mp hscan).imp fun _ _ hok => reject_eq_ok.mp hok), rfl, rfl, rfl⟩

/-- What the loop sealed of all the sources. -/
theorem InspectedSet.loopOk (hX : NfcLaws X.toExternals)
    {sources : List (SourceSpec × List SourceItem)} {inspection : Inspection} {s : InspectLoop}
    (h : InspectedSet X policy sources inspection s) :
    LoopOk X.toExternals policy s sources.reverse := by
  have hstart : LoopOk X.toExternals policy ⟨[], ⟨.empty, []⟩, 0, 0⟩ [] :=
    ⟨fun _ hmem => absurd hmem List.not_mem_nil, rfl, rfl, rfl, Nat.zero_le _, Nat.zero_le _⟩
  have hrun := foldlM_represents (fun s before => LoopOk X.toExternals policy s before)
    (fun s b input t hs hstep => loopOk_step hX hs hstep) sources hstart h.loop
  rwa [List.append_nil] at hrun

section

variable {sources : List (SourceSpec × List SourceItem)} {inspection : Inspection} {s : InspectLoop}

theorem InspectedSet.mem_snapshots (h : InspectedSet X policy sources inspection s)
    {snapshot : VaultSnapshot} : snapshot ∈ inspection.snapshots ↔ snapshot ∈ s.snapshots := by
  rw [h.snapshots, mem_sortBy]

/-- The names of the sources are told apart. -/
theorem InspectedSet.names (hX : NfcLaws X.toExternals)
    (h : InspectedSet X policy sources inspection s) :
    (s.snapshots.map fun snapshot => snapshot.sourceId.value).Nodup := by
  have hids : s.snapshots.map VaultSnapshot.sourceId =
      sources.map fun input => input.1.sourceId := by
    rw [(h.loopOk hX).sources, List.reverse_reverse]
  have hinjective : Function.Injective SourceId.value := fun _ _ hvalue =>
    congrArg SourceId.mk hvalue
  have hnodup := h.distinct.map hinjective
  rwa [← hids, List.map_map] at hnodup

theorem InspectedSet.snapshotsOk (hX : NfcLaws X.toExternals)
    (hnames : ∀ input ∈ sources, ∃ id, SourceId.new input.1.sourceId.value = .ok id)
    (h : InspectedSet X policy sources inspection s) :
    SnapshotsOk X.toExternals policy inspection.snapshots := by
  have hloop := h.loopOk hX
  refine ⟨fun snapshot hmem => ⟨hloop.snapshot snapshot (h.mem_snapshots.mp hmem), ?_⟩, ?_,
    h.contents⟩
  · have hid : snapshot.sourceId ∈ s.snapshots.map VaultSnapshot.sourceId :=
      List.mem_map_of_mem (h.mem_snapshots.mp hmem)
    rw [hloop.sources, List.reverse_reverse] at hid
    obtain ⟨input, hinput, heq⟩ := List.mem_map.mp hid
    rw [← heq]
    exact hnames input hinput
  · rw [h.snapshots]
    exact pairwise_lt_of_sortBy (h.names hX)

theorem InspectedSet.snapshotSet (hX : NfcLaws X.toExternals) (hwords : WordLimits policy)
    (hnames : ∀ input ∈ sources, ∃ id, SourceId.new input.1.sourceId.value = .ok id)
    (h : InspectedSet X policy sources inspection s) :
    validateSnapshotSet X policy inspection.snapshots = .ok () := by
  have hloop := h.loopOk hX
  have hperm : inspection.snapshots.Perm s.snapshots := by
    rw [h.snapshots]
    exact sortBy_perm _ _
  have hlength : s.snapshots.length = sources.length := by
    have hsources := congrArg List.length hloop.sources
    simpa using hsources
  have hfiles : fileTotal inspection.snapshots = s.totalFiles := by
    rw [hloop.files]
    exact (hperm.map _).sum_eq
  have hbytes : byteTotal inspection.snapshots = s.totalBytes := by
    rw [hloop.bytes]
    exact (hperm.map _).sum_eq
  refine validateSnapshotSet_isOk (h.snapshotsOk hX hnames) hwords ?_ ?_ ?_ ?_
  · intro hnil
    have hzero := hperm.length_eq
    rw [hnil, List.length_nil, hlength] at hzero
    exact h.nonempty (List.eq_nil_of_length_eq_zero hzero.symm)
  · rw [hperm.length_eq, hlength]
    exact h.sourcesFit
  · rw [hfiles]
    exact hloop.filesFit
  · rw [hbytes]
    exact hloop.bytesFit

end

/-- **What an inspection seals is accepted whenever a plan is read.** -/
theorem validateSnapshotSet_inspectSources (hX : NfcLaws X.toExternals) (hwords : WordLimits policy)
    {sources : List (SourceSpec × List SourceItem)} {inspection : Inspection}
    (hnames : ∀ input ∈ sources, ∃ id, SourceId.new input.1.sourceId.value = .ok id)
    (h : inspectSources X policy sources = .ok inspection) :
    validateSnapshotSet X policy inspection.snapshots = .ok () := by
  obtain ⟨s, hinspected⟩ := inspected_of_ok h
  exact hinspected.snapshotSet hX hwords hnames

end

/-! ## A vault -/

def baseSource : SourceSpec := ⟨.directory, ⟨"vault"⟩, "/vault", none⟩

/-- A vault of one Base, which is empty. -/
def baseVault : List (SourceSpec × List SourceItem) := [(baseSource, [⟨"all.base", []⟩])]

theorem pair_of_map {x : Except OkcError SourcePathPair} {a b : String}
    (h : x.map (fun p => (p.originalPath, p.logicalPath)) = .ok (a, b)) : x = .ok ⟨a, b⟩ := by
  cases x with
  | error e => cases h
  | ok p =>
    obtain ⟨rfl, rfl⟩ := Prod.mk.inj (Except.ok.inj h)
    rfl

theorem collect_baseVault : collectEntries (plainExternals prefixHash) .default baseSource
    [⟨"all.base", []⟩] = .ok [⟨"all.base", "all.base", .base, []⟩] := by
  have hpair : decodeItemPath (plainExternals prefixHash) .default baseSource "all.base" =
      .ok ⟨"all.base", "all.base"⟩ := pair_of_map (by decide +kernel)
  have hkind : FileKind.classify "all.base" = .base := by decide +kernel
  unfold collectEntries
  rw [List.foldlM_cons, bind_eq_ok]
  refine ⟨_, ?_, rfl⟩
  unfold collectItem
  rw [hpair]
  refine bind_eq_ok.mpr ⟨_, rfl, ?_⟩
  rw [bind_unit_eq_ok, bind_unit_eq_ok, bind_unit_eq_ok, bind_unit_eq_ok, hkind]
  exact ⟨reject_eq_ok.mpr List.not_mem_nil, reject_eq_ok.mpr (by decide),
    reject_eq_ok.mpr (by decide), by decide, rfl⟩

theorem inspect_baseVault : ∃ inspection, inspectSources (plainCrates (plainExternals prefixHash))
    .default baseVault = .ok inspection := by
  have hpath : validateSourcePathPair (plainExternals prefixHash)
      CompilerPolicy.default.pathLimits "all.base" "all.base" = .ok () := by decide +kernel
  obtain ⟨parsed, hparsed⟩ : ∃ parsed, sealAndParse (plainCrates (plainExternals prefixHash))
      .default baseSource [⟨"all.base", "all.base", .base, []⟩] [] = .ok (entriesSnapshot
        (plainExternals prefixHash) baseSource [⟨"all.base", "all.base", .base, []⟩], parsed) := by
    refine Exists.imp (fun parsed hrun => sealAndParse_eq_ok.mpr ⟨hrun, rfl⟩) ?_
    rw [show sortEntries _ = [RawEntry.mk "all.base" "all.base" .base []] from
      List.mergeSort_singleton _]
    unfold parseFile
    exact ⟨_, bind_eq_ok.mpr ⟨_, bind_unit_eq_ok.mpr ⟨hpath, rfl⟩, rfl⟩⟩
  have hsource : ∃ t, inspectSource (plainCrates (plainExternals prefixHash)) .default
      ⟨[], ⟨.empty, []⟩, 0, 0⟩ (baseSource, [⟨"all.base", []⟩]) = .ok t ∧
        t.snapshots = [entriesSnapshot (plainExternals prefixHash) baseSource
          [⟨"all.base", "all.base", .base, []⟩]] :=
    ⟨_, inspectSource_eq_ok.mpr ⟨_, _, parsed, collect_baseVault, hparsed, by decide, by decide,
      rfl⟩, rfl⟩
  obtain ⟨t, ht, hsnapshots⟩ := hsource
  unfold inspectSources
  simp only [bind_eq_ok, exists_unit, reject_eq_ok]
  refine ⟨_, validate_default (fun _ => rfl) fun _ => rfl, List.cons_ne_nil _ _, by decide,
    not_not.mpr (by decide), t, ?_, ?_, rfl⟩
  · rw [baseVault, List.foldlM_cons, ht]
    rfl
  · rw [hsnapshots, List.mergeSort_singleton]
    rfl

theorem wordLimits_default : WordLimits .default := ⟨by decide, by decide⟩

theorem name_baseVault : ∀ input ∈ baseVault, ∃ id,
    SourceId.new input.1.sourceId.value = .ok id := by
  intro input hinput
  rw [List.mem_singleton.mp hinput]
  exact ⟨⟨"vault"⟩, by decide +kernel⟩

theorem validateSnapshotSet_inspectSources_base : ∃ inspection,
    inspectSources (plainCrates (plainExternals prefixHash)) .default baseVault = .ok inspection ∧
      validateSnapshotSet (plainCrates (plainExternals prefixHash)) .default inspection.snapshots =
        .ok () := by
  obtain ⟨inspection, hinspection⟩ := inspect_baseVault
  exact ⟨inspection, hinspection, validateSnapshotSet_inspectSources (nfcLaws_plain prefixHash)
    wordLimits_default name_baseVault hinspection⟩

end Okc.Core
