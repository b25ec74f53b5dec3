import Okc.Lib.SortBy
import Okc.App.Manifest
import Okc.App.SourceNames

/-!
# Selecting sources (`workspace_bootstrap.rs:252-322`, `workspace_bootstrap.rs:422-526`)

`validate_source_bindings` resolves each path, sorts the bindings by their IDs and then goes over
the pairs. A pair is looked at from its first element, and only when that is a directory. Of an
archive and a directory around it the pair is seen when the directory has the smaller ID.

The file system is a parameter: what the calls of the source answer for a path.

* `validateSourceBindings_eq_ok`: what is accepted.
* `separate_iff`: what has to hold of two paths is what is asked of directories and what is asked of
  archives.
* `selection_iff`: under every assignment of IDs what is accepted is separate, and all or none are
  accepted, iff directories overlap or nothing else does.
-/

namespace Okc.App

open Okc.Lib Okc.Core

/-! ## Paths -/

/-- `Path::is_absolute`. -/
def isAbsolute (path : String) : Bool := path.toList.head? == some '/'

/-- `Path::join`. -/
def joinPath (base path : String) : String :=
  if isAbsolute path then path
  else if base = "" ∨ base.toList.getLast? = some '/' then base ++ path
  else base ++ "/" ++ path

/-- `Path::starts_with`. -/
def startsWith (path base : String) : Bool :=
  isAbsolute path == isAbsolute base && (pathParts base).isPrefixOf (pathParts path)

/-- Two spellings of one path, as `Path` compares them. -/
def SamePath (a b : String) : Prop := isAbsolute a = isAbsolute b ∧ pathParts a = pathParts b

instance (a b : String) : Decidable (SamePath a b) := inferInstanceAs (Decidable (_ ∧ _))

/-! ## The file system -/

/-- `FileType`. -/
inductive FileType
  | file
  | directory
  | symlink
  | other
deriving DecidableEq

/-- What the calls of `std::fs` answer. -/
structure Disk where
  /-- `fs::symlink_metadata`. -/
  symlinkMetadata : String → Except AppError FileType
  /-- `fs::canonicalize`. -/
  canonicalize : String → Except AppError String
  /-- `Path::is_file`. -/
  isFile : String → Bool
  /-- `Path::is_dir`. -/
  isDir : String → Bool
  /-- `fs::read_dir`, with `DirEntry::file_type` of each name. -/
  readDir : String → Except AppError (List (String × Except AppError FileType))

variable (disk : Disk)

def discoveryEntryLimit : Nat := 100000

def isProjectPath (path : String) : Bool :=
  (extension path).any fun value => eqIgnoreAsciiCase value "okc-project"

def isManagedDirectory (path : String) : Bool :=
  let name := (fileName path).getD ""
  eqIgnoreAsciiCase name ".okc-work" || "IntegratedVault".toList.isPrefixOf name.toList ||
    disk.isFile (joinPath path ".okc/manifest.json")

/-- `sorted_entries`. -/
def sortedEntries (path : String) : Except AppError (List (String × Except AppError FileType)) := do
  let entries ← disk.readDir path
  .ok (sortBy Prod.fst entries)

/-- The entry loop of `contains_markdown`: the directories to visit and the entries seen, or nothing
when a note is found. -/
def scanEntries (directory : String) : List (String × Except AppError FileType) →
    List String × Nat → Except AppError (Option (List String × Nat))
  | [], state => .ok (some state)
  | (name, fileType) :: rest, (pending, seen) => do
    reject (discoveryEntryLimit < seen + 1)
      (.invalidProject "Vault discovery exceeded its entry limit")
    let path := joinPath directory name
    let fileType ← fileType
    if fileType = .symlink ∨ isManagedDirectory disk path ∨ isProjectPath path then
      scanEntries directory rest (pending, seen + 1)
    else if fileType = .file ∧ (extension path).any fun value => eqIgnoreAsciiCase value "md" then
      .ok none
    else if fileType = .directory ∧ fileName path ≠ some ".obsidian" then
      scanEntries directory rest (path :: pending, seen + 1)
    else scanEntries directory rest (pending, seen + 1)

/-- A directory that is pushed was counted as an entry. -/
theorem scanEntries_bound {directory : String}
    {entries : List (String × Except AppError FileType)} {pending pending' : List String}
    {seen seen' : Nat}
    (h : scanEntries disk directory entries (pending, seen) = .ok (some (pending', seen')))
    (hseen : seen ≤ discoveryEntryLimit) :
    seen' ≤ discoveryEntryLimit ∧ pending'.length + seen ≤ pending.length + seen' := by
  induction entries generalizing pending seen with
  | nil =>
    cases h
    exact ⟨hseen, le_rfl⟩
  | cons entry rest ih =>
    obtain ⟨name, fileType⟩ := entry
    rw [scanEntries, bind_unit_eq_ok, reject_eq_ok, not_lt, bind_eq_ok] at h
    obtain ⟨hlimit, kind, -, h⟩ := h
    split_ifs at h
    · obtain ⟨hle, hlength⟩ := ih h hlimit
      exact ⟨hle, by omega⟩
    · cases h
    · obtain ⟨hle, hlength⟩ := ih h hlimit
      rw [List.length_cons] at hlength
      exact ⟨hle, by omega⟩
    · obtain ⟨hle, hlength⟩ := ih h hlimit
      exact ⟨hle, by omega⟩

/-- The directory loop of `contains_markdown`. -/
def containsMarkdownFrom : List String → (seen : Nat) → seen ≤ discoveryEntryLimit →
    Except AppError Bool
  | [], _, _ => .ok false
  | directory :: pending, seen, hseen =>
    match sortedEntries disk directory with
    | .error e => .error e
    | .ok entries =>
      match h : scanEntries disk directory entries (pending, seen) with
      | .error e => .error e
      | .ok none => .ok true
      | .ok (some (pending', seen')) =>
        have hbound := scanEntries_bound disk h hseen
        containsMarkdownFrom pending' seen' hbound.1
termination_by pending seen => pending.length + (discoveryEntryLimit - seen)
decreasing_by
  rw [List.length_cons]
  omega

def containsMarkdown (root : String) : Except AppError Bool :=
  containsMarkdownFrom disk [root] 0 (Nat.zero_le _)

def isVaultDirectory (path : String) : Except AppError Bool := do
  let metadata ← disk.symlinkMetadata path
  if metadata ≠ .directory ∨ isManagedDirectory disk path then .ok false
  else
    match disk.symlinkMetadata (joinPath path ".obsidian") with
    | .ok .directory => .ok true
    | _ => containsMarkdown disk path

def canonicalNonSymlink (path : String) (requireDirectory : Bool) : Except AppError String := do
  let metadata ← disk.symlinkMetadata path
  reject (metadata = .symlink ∨ (requireDirectory ∧ metadata ≠ .directory))
    (.invalidProject ("path must be a non-symlink" ++
      (if requireDirectory then " directory" else " entry") ++ ": " ++ path))
  disk.canonicalize path

def absoluteExisting (cwd path : String) : Except AppError String :=
  canonicalNonSymlink disk (joinPath cwd path) false

/-! ## Bindings -/

/-- What the binding loop makes of a path: where it is, when something supported is there. -/
def sourcePath (cwd : Option String) (path : String) : Except AppError String := do
  let path ← match cwd with
    | some cwd => absoluteExisting disk cwd path
    | none => do
      reject (¬ isAbsolute path) (.invalidProject "explicit source path must be absolute")
      canonicalNonSymlink disk path false
  let metadata ← disk.symlinkMetadata path
  reject (metadata = .symlink ∨ isManagedDirectory disk path)
    (.invalidProject ("unsafe source \x60" ++ path ++ "\x60"))
  let vault ← if metadata = .directory then isVaultDirectory disk path else .ok false
  reject (¬ (vault ∨ (metadata = .file ∧ (isZip path ∨ isTarZst path))))
    (.invalidProject ("unsupported or empty Vault source \x60" ++ path ++ "\x60"))
  .ok path

/-- The binding loop, with the IDs seen. -/
def normalizeBindings (cwd : Option String) : List SourceId → List SourceBinding →
    Except AppError (List SourceBinding)
  | _, [] => .ok []
  | ids, binding :: rest => do
    reject (binding.sourceId ∈ ids)
      (.invalidProject ("duplicate source ID \x60" ++ binding.sourceId.value ++ "\x60"))
    let path ← sourcePath disk cwd binding.path
    let normalized ← normalizeBindings cwd (binding.sourceId :: ids) rest
    .ok ({ binding with path := path } :: normalized)

/-- The order of `sort_by`. -/
def SourceBinding.order (b : SourceBinding) : String ×ₗ List String :=
  toLex (b.sourceId.value, pathParts b.path)

/-- The pair loop. -/
def checkNesting : List SourceBinding → Except AppError Unit
  | [] => .ok ()
  | left :: rest => do
    reject (disk.isDir left.path ∧ ∃ right ∈ rest, startsWith right.path left.path ∨
        (disk.isDir right.path ∧ startsWith left.path right.path))
      (.invalidProject "a source selection cannot contain both an ancestor and descendant")
    checkNesting rest

def validateSourceBindings (cwd : Option String) (bindings : List SourceBinding) :
    Except AppError (List SourceBinding) := do
  reject (bindings = [] ∨ 10 < bindings.length)
    (.invalidProject "select between one and ten Vault sources")
  let normalized ← normalizeBindings disk cwd [] bindings
  let normalized := sortBy SourceBinding.order normalized
  checkNesting disk normalized
  .ok normalized

/-! ## What is accepted -/

/-- What the pair loop asks of a pair in its order. -/
def Passes (left right : SourceBinding) : Prop :=
  disk.isDir left.path → ¬ startsWith right.path left.path ∧
    ¬ (disk.isDir right.path ∧ startsWith left.path right.path)

theorem checkNesting_eq_ok {bindings : List SourceBinding} :
    checkNesting disk bindings = .ok () ↔ bindings.Pairwise (Passes disk) := by
  induction bindings with
  | nil => simp [checkNesting]
  | cons left rest ih =>
    rw [checkNesting, bind_unit_eq_ok, reject_eq_ok, ih, List.pairwise_cons]
    refine and_congr_left fun _ => ?_
    simp only [Passes, not_and, not_exists, not_or]
    exact ⟨fun h right hr hdir => ⟨fun hs => (h hdir right hr).1 hs, (h hdir right hr).2⟩,
      fun h hdir right hr => h right hr hdir⟩

theorem normalizeBindings_eq_ok {cwd : Option String} {ids : List SourceId}
    {bindings result : List SourceBinding} {paths : List String}
    (hpaths : List.Forall₂ (fun b path => sourcePath disk cwd b.path = .ok path) bindings paths) :
    normalizeBindings disk cwd ids bindings = .ok result ↔
      ((∀ b ∈ bindings, b.sourceId ∉ ids) ∧ (bindings.map SourceBinding.sourceId).Nodup) ∧
        result = List.zipWith (fun b path => { b with path := path }) bindings paths := by
  induction hpaths generalizing ids result with
  | nil => simp [normalizeBindings, eq_comm]
  | @cons b path bindings paths hpath hrest ih =>
    simp only [normalizeBindings, bind_eq_ok, exists_unit, reject_eq_ok, hpath, Except.ok.injEq,
      exists_eq_left', ih]
    constructor
    · rintro ⟨hfresh, _, ⟨⟨hout, hnodup⟩, rfl⟩, rfl⟩
      refine ⟨⟨fun d hd => ?_, List.nodup_cons.mpr ⟨fun hmem => ?_, hnodup⟩⟩, rfl⟩
      · rcases List.mem_cons.mp hd with rfl | hd
        · exact hfresh
        · exact fun hmem => hout d hd (List.mem_cons_of_mem _ hmem)
      · obtain ⟨d, hd, heq⟩ := List.mem_map.mp hmem
        exact hout d hd (heq ▸ List.mem_cons_self)
    · rintro ⟨⟨hout, hnodup⟩, rfl⟩
      obtain ⟨hnew, hnodup⟩ := List.nodup_cons.mp hnodup
      refine ⟨hout b List.mem_cons_self, _, ⟨⟨fun d hd hmem => ?_, hnodup⟩, rfl⟩, rfl⟩
      rcases List.mem_cons.mp hmem with heq | hmem
      · exact hnew (List.mem_map.mpr ⟨d, hd, heq⟩)
      · exact hout d (List.mem_cons_of_mem _ hd) hmem

/-- **What is accepted.** -/
theorem validateSourceBindings_eq_ok {cwd : Option String} {bindings result : List SourceBinding}
    {paths : List String}
    (hpaths : List.Forall₂ (fun b path => sourcePath disk cwd b.path = .ok path) bindings paths) :
    validateSourceBindings disk cwd bindings = .ok result ↔
      (bindings ≠ [] ∧ bindings.length ≤ 10) ∧ (bindings.map SourceBinding.sourceId).Nodup ∧
        result.Pairwise (Passes disk) ∧ result = sortBy SourceBinding.order
          (List.zipWith (fun b path => { b with path := path }) bindings paths) := by
  have hfresh : ∀ b ∈ bindings, b.sourceId ∉ ([] : List SourceId) := fun _ _ => List.not_mem_nil
  simp only [validateSourceBindings, bind_eq_ok, exists_unit, reject_eq_ok, not_or, not_lt,
    normalizeBindings_eq_ok disk hpaths, checkNesting_eq_ok, Except.ok.injEq, and_iff_right hfresh]
  refine and_congr_right fun _ => ?_
  constructor
  · rintro ⟨_, ⟨hnodup, rfl⟩, hpass, rfl⟩
    exact ⟨hnodup, hpass, rfl⟩
  · rintro ⟨hnodup, hpass, rfl⟩
    exact ⟨_, ⟨hnodup, rfl⟩, hpass, rfl⟩

/-! ## Pairs of paths -/

/-- The paths differ, and neither lies inside the other when that is a directory. -/
structure Separate (a b : String) : Prop where
  differ : ¬ SamePath a b
  left : disk.isDir a → ¬ startsWith b a
  right : disk.isDir b → ¬ startsWith a b

/-- If both are directories, neither is the other or lies inside it. -/
def DirectoriesApart (a b : String) : Prop :=
  disk.isDir a → disk.isDir b → ¬ startsWith a b ∧ ¬ startsWith b a

/-- Two archives differ, and an archive does not lie inside a directory. -/
structure ArchivesApart (a b : String) : Prop where
  archives : ¬ disk.isDir a → ¬ disk.isDir b → ¬ SamePath a b
  left : disk.isDir a → ¬ disk.isDir b → ¬ startsWith b a
  right : ¬ disk.isDir a → disk.isDir b → ¬ startsWith a b

variable {disk}

theorem startsWith_of_same {a b : String} (h : SamePath a b) : startsWith a b := by
  obtain ⟨habsolute, hparts⟩ := h
  simp [startsWith, habsolute, hparts]

theorem SamePath.symm {a b : String} (h : SamePath a b) : SamePath b a := ⟨h.1.symm, h.2.symm⟩

theorem Separate.symm {a b : String} (h : Separate disk a b) : Separate disk b a :=
  ⟨fun hsame => h.differ hsame.symm, h.right, h.left⟩

theorem DirectoriesApart.symm {a b : String} (h : DirectoriesApart disk a b) :
    DirectoriesApart disk b a := fun hb ha => (h ha hb).symm

/-- **What has to hold of two paths is asked of directories or of archives.** -/
theorem separate_iff {a b : String} :
    Separate disk a b ↔ DirectoriesApart disk a b ∧ ArchivesApart disk a b := by
  constructor
  · intro h
    exact ⟨fun ha hb => ⟨h.right hb, h.left ha⟩,
      ⟨fun _ _ => h.differ, fun ha _ => h.left ha, fun _ hb => h.right hb⟩⟩
  · rintro ⟨hdirs, harchives⟩
    refine ⟨fun hsame => ?_, fun ha => ?_, fun hb => ?_⟩
    · by_cases ha : disk.isDir a <;> by_cases hb : disk.isDir b
      · exact (hdirs ha hb).1 (startsWith_of_same hsame)
      · exact harchives.left ha hb (startsWith_of_same hsame.symm)
      · exact harchives.right ha hb (startsWith_of_same hsame)
      · exact harchives.archives ha hb hsame
    · by_cases hb : disk.isDir b
      · exact (hdirs ha hb).2
      · exact harchives.left ha hb
    · by_cases ha : disk.isDir a
      · exact (hdirs ha hb).1
      · exact harchives.right ha hb

theorem passes_of_separate {l r : SourceBinding} (h : Separate disk l.path r.path) :
    Passes disk l r := fun hdir => ⟨h.left hdir, fun hr => h.right hr.1 hr.2⟩

theorem apart_of_passes {l r : SourceBinding} (h : Passes disk l r) :
    DirectoriesApart disk l.path r.path := fun hl hr =>
  ⟨fun hs => (h hl).2 ⟨hr, hs⟩, (h hl).1⟩

/-- With the archives first, only directories follow a directory. -/
theorem passes_of_apart {l r : SourceBinding} (h : DirectoriesApart disk l.path r.path)
    (horder : disk.isDir l.path → disk.isDir r.path) : Passes disk l r := fun hl =>
  ⟨(h hl (horder hl)).2, fun hr => (h hl hr.1).1 hr.2⟩

/-! ## Every assignment -/

/-- The bindings with other IDs. -/
def relabel (ids : List SourceId) (bindings : List SourceBinding) : List SourceBinding :=
  List.zipWith (fun b id => { b with sourceId := id }) bindings ids

/-- One valid ID for each binding, all different. -/
structure Assigns (ids : List SourceId) (bindings : List SourceBinding) : Prop where
  length : ids.length = bindings.length
  nodup : ids.Nodup
  valid : ∀ id ∈ ids, SourceId.new id.value = .ok id

/-- The bindings as the binding loop leaves them. -/
def located (ids : List SourceId) (bindings : List SourceBinding) (paths : List String) :
    List SourceBinding :=
  List.zipWith (fun b path => { b with path := path }) (relabel ids bindings) paths

theorem forall₂_relabel {cwd : Option String} {ids : List SourceId}
    {bindings : List SourceBinding} {paths : List String} (hlength : ids.length = bindings.length)
    (hpaths : List.Forall₂ (fun b path => sourcePath disk cwd b.path = .ok path) bindings paths) :
    List.Forall₂ (fun b path => sourcePath disk cwd b.path = .ok path) (relabel ids bindings)
      paths := by
  induction hpaths generalizing ids with
  | nil => exact .nil
  | @cons b path bindings paths hpath hrest ih =>
    cases ids with
    | nil => cases hlength
    | cons id ids => exact .cons hpath (ih (Nat.succ.inj hlength))

theorem zipWith_right {α β : Type} {l : List α} {m : List β} (h : m.length ≤ l.length) :
    List.zipWith (fun _ y => y) l m = m :=
  (List.map_zip_eq_zipWith (f := Prod.snd)).symm.trans (List.map_snd_zip h)

theorem length_relabel {ids : List SourceId} {bindings : List SourceBinding}
    (h : ids.length = bindings.length) : (relabel ids bindings).length = bindings.length := by
  rw [relabel, List.length_zipWith, h, Nat.min_self]

theorem sourceId_relabel {ids : List SourceId} {bindings : List SourceBinding}
    (h : ids.length = bindings.length) :
    (relabel ids bindings).map SourceBinding.sourceId = ids := by
  rw [relabel, List.map_zipWith]
  exact zipWith_right h.le

theorem path_located {ids : List SourceId} {bindings : List SourceBinding} {paths : List String}
    (h : paths.length = (relabel ids bindings).length) :
    (located ids bindings paths).map SourceBinding.path = paths := by
  rw [located, List.map_zipWith]
  exact zipWith_right h.le

/-- What is asked of pairs of paths is asked of the bindings in any order. -/
theorem pairwise_sorted {ids : List SourceId} {bindings : List SourceBinding}
    {paths : List String} (hlength : paths.length = (relabel ids bindings).length)
    {R : String → String → Prop} (hR : ∀ {a b}, R a b → R b a) :
    ((sortBy SourceBinding.order (located ids bindings paths)).Pairwise
      fun l r => R l.path r.path) ↔ paths.Pairwise R := by
  have hsymm : ∀ {l r : SourceBinding}, R l.path r.path → R r.path l.path := hR
  rw [(sortBy_perm SourceBinding.order _).pairwise_iff hsymm, ← List.pairwise_map,
    path_located hlength]

/-- The IDs that put the archives first. -/
def archivesFirst (disk : Disk) (paths : List String) : List SourceId :=
  paths.mapIdx fun i path =>
    ⟨String.ofList [if disk.isDir path then 'd' else 'a', Char.ofNat ('0'.toNat + i)]⟩

theorem digit_kept : ∀ i < 10, isKept (Char.ofNat ('0'.toNat + i)) = true := by decide

theorem digit_injective : ∀ i < 10, ∀ j < 10,
    Char.ofNat ('0'.toNat + i) = Char.ofNat ('0'.toNat + j) → i = j := by decide

theorem valid_archivesFirst {c : Char} (hc : c = 'd' ∨ c = 'a') {i : Nat} (hi : i < 10) :
    SourceId.new (String.ofList [c, Char.ofNat ('0'.toNat + i)]) =
      .ok ⟨String.ofList [c, Char.ofNat ('0'.toNat + i)]⟩ := by
  have hkept : isKept c = true := by rcases hc with rfl | rfl <;> decide
  have hplain : IdText 128 (String.ofList [c, Char.ofNat ('0'.toNat + i)]) := by
    refine ⟨fun h => ?_, ?_, fun d hd => Or.inl ?_⟩
    · cases String.ofList_eq_empty_iff.mp h
    · rw [String.toList_ofList]
      exact Nat.le_of_ble_eq_true rfl
    · rw [String.toList_ofList, List.mem_cons, List.mem_singleton] at hd
      rcases hd with rfl | rfl
      · exact hkept
      · exact digit_kept i hi
  have hdots : ∀ dots : List Char, dots.head? = some '.' →
      String.ofList [c, Char.ofNat ('0'.toNat + i)] ≠ String.ofList dots := fun dots hhead heq => by
    rw [← String.ofList_injective heq, List.head?_cons, Option.some.injEq] at hhead
    rcases hc with rfl | rfl <;> exact absurd hhead (by decide)
  obtain ⟨id, hid⟩ := (sourceIdNew_isOk hplain).mpr ⟨hdots ['.'] rfl, hdots ['.', '.'] rfl⟩
  rw [hid, sourceIdNew_eq_ok hid]

theorem assigns_archivesFirst {bindings : List SourceBinding} {paths : List String}
    (hlength : paths.length = bindings.length) (hten : bindings.length ≤ 10) :
    Assigns (archivesFirst disk paths) bindings := by
  refine ⟨?_, ?_, fun id hid => ?_⟩
  · rw [archivesFirst, List.length_mapIdx, hlength]
  · have hlt : (archivesFirst disk paths).length ≤ 10 := by
      rw [archivesFirst, List.length_mapIdx, hlength]
      exact hten
    refine List.nodup_iff_injective_getElem.mpr fun i j heq => Fin.ext ?_
    have hi : i.val < 10 := i.isLt.trans_le hlt
    have hj : j.val < 10 := j.isLt.trans_le hlt
    simp only [archivesFirst, List.getElem_mapIdx, SourceId.mk.injEq, String.ofList_inj,
      List.cons.injEq, and_true] at heq
    exact digit_injective i hi j hj heq.2
  · obtain ⟨i, hi, rfl⟩ := List.mem_mapIdx.mp hid
    refine valid_archivesFirst ?_ (by omega)
    split_ifs
    · exact Or.inl rfl
    · exact Or.inr rfl

/-- Where the archives come first, what follows a directory is one. -/
theorem isDir_of_order {bindings : List SourceBinding} {paths : List String}
    {l r : SourceBinding} (hl : l ∈ located (archivesFirst disk paths) bindings paths)
    (hr : r ∈ located (archivesFirst disk paths) bindings paths) (horder : l.order ≤ r.order)
    (hdir : disk.isDir l.path) : disk.isDir r.path := by
  have hid : ∀ b ∈ located (archivesFirst disk paths) bindings paths, ∃ c,
      b.sourceId.value = String.ofList [if disk.isDir b.path then 'd' else 'a', c] := fun b hb => by
    obtain ⟨i, hi, rfl⟩ := List.getElem_of_mem hb
    refine ⟨Char.ofNat ('0'.toNat + i), ?_⟩
    simp only [located, relabel, archivesFirst, List.getElem_zipWith, List.getElem_mapIdx]
  by_contra hfile
  obtain ⟨c, hc⟩ := hid l hl
  obtain ⟨d, hd⟩ := hid r hr
  rw [if_pos hdir] at hc
  rw [if_neg hfile] at hd
  have hlt : r.order < l.order := by
    refine Prod.Lex.toLex_lt_toLex.mpr (Or.inl ?_)
    rw [hc, hd, String.lt_iff_toList_lt, String.toList_ofList, String.toList_ofList,
      List.cons_lt_cons_iff]
    exact Or.inl (by decide)
  exact absurd horder (not_le.mpr hlt)

/-- What the claim asks of a selection: what is accepted is separate, under every assignment or
under none. -/
def SelectionRight (disk : Disk) (cwd : Option String) (bindings : List SourceBinding) : Prop :=
  ∀ ids, Assigns ids bindings →
    (∀ result, validateSourceBindings disk cwd (relabel ids bindings) = .ok result →
      result.Pairwise fun a b => Separate disk a.path b.path) ∧
    ∀ others, Assigns others bindings →
      ((∃ result, validateSourceBindings disk cwd (relabel ids bindings) = .ok result) ↔
        ∃ result, validateSourceBindings disk cwd (relabel others bindings) = .ok result)

section

variable {cwd : Option String} {bindings : List SourceBinding} {paths : List String}

/-- Acceptance of an assignment. -/
theorem accepted_relabel {ids : List SourceId} (hids : Assigns ids bindings)
    (hpaths : List.Forall₂ (fun b path => sourcePath disk cwd b.path = .ok path) bindings paths)
    {result : List SourceBinding} :
    validateSourceBindings disk cwd (relabel ids bindings) = .ok result ↔
      (bindings ≠ [] ∧ bindings.length ≤ 10) ∧ result.Pairwise (Passes disk) ∧
        result = sortBy SourceBinding.order (located ids bindings paths) := by
  have hlength := length_relabel hids.length
  have hne : relabel ids bindings ≠ [] ↔ bindings ≠ [] := by
    rw [← List.length_pos_iff, hlength, List.length_pos_iff]
  rw [validateSourceBindings_eq_ok disk (forall₂_relabel hids.length hpaths), hne, hlength,
    sourceId_relabel hids.length, and_iff_right hids.nodup]
  rfl

theorem length_paths {ids : List SourceId} (hids : Assigns ids bindings)
    (hpaths : List.Forall₂ (fun b path => sourcePath disk cwd b.path = .ok path) bindings paths) :
    paths.length = (relabel ids bindings).length := by
  rw [length_relabel hids.length, hpaths.length_eq]

/-- When only directories overlap, no assignment is accepted. -/
theorem rejected_of_directories {ids : List SourceId} (hids : Assigns ids bindings)
    (hpaths : List.Forall₂ (fun b path => sourcePath disk cwd b.path = .ok path) bindings paths)
    (h : ¬ paths.Pairwise (DirectoriesApart disk)) (result : List SourceBinding) :
    validateSourceBindings disk cwd (relabel ids bindings) ≠ .ok result := by
  intro hok
  obtain ⟨-, hpass, rfl⟩ := (accepted_relabel hids hpaths).mp hok
  exact h ((pairwise_sorted (length_paths hids hpaths) DirectoriesApart.symm).mp
    (hpass.imp apart_of_passes))

/-- When nothing overlaps, every assignment is accepted. -/
theorem accepted_of_separate {ids : List SourceId} (hids : Assigns ids bindings)
    (hpaths : List.Forall₂ (fun b path => sourcePath disk cwd b.path = .ok path) bindings paths)
    (h : paths.Pairwise (Separate disk)) :
    (∃ result, validateSourceBindings disk cwd (relabel ids bindings) = .ok result) ↔
      bindings ≠ [] ∧ bindings.length ≤ 10 := by
  have hsorted := (pairwise_sorted (length_paths hids hpaths) Separate.symm).mpr h
  constructor
  · rintro ⟨result, hok⟩
    exact ((accepted_relabel hids hpaths).mp hok).1
  · intro hcount
    exact ⟨_, (accepted_relabel hids hpaths).mpr ⟨hcount, hsorted.imp passes_of_separate, rfl⟩⟩

/-- With the archives first, a selection whose directories are apart is accepted. -/
theorem accepted_archivesFirst (hten : bindings ≠ [] ∧ bindings.length ≤ 10)
    (hpaths : List.Forall₂ (fun b path => sourcePath disk cwd b.path = .ok path) bindings paths)
    (h : paths.Pairwise (DirectoriesApart disk)) :
    validateSourceBindings disk cwd (relabel (archivesFirst disk paths) bindings) =
      .ok (sortBy SourceBinding.order (located (archivesFirst disk paths) bindings paths)) := by
  have hids : Assigns (archivesFirst disk paths) bindings :=
    assigns_archivesFirst hpaths.length_eq.symm hten.2
  have hsorted := (pairwise_sorted (length_paths hids hpaths) DirectoriesApart.symm).mpr h
  have horder := pairwise_sortBy SourceBinding.order
    (located (archivesFirst disk paths) bindings paths)
  refine (accepted_relabel hids hpaths).mpr ⟨hten, ?_, rfl⟩
  refine (hsorted.and horder).imp_of_mem fun hl hr hboth => ?_
  exact passes_of_apart hboth.1
    (isDir_of_order (mem_sortBy.mp hl) (mem_sortBy.mp hr) hboth.2)

/-- **The selection of sources is right** iff there are too many of them, two directories overlap
(and every assignment is rejected), or no archive is selected twice or inside a directory. -/
theorem selection_iff
    (hpaths : bindings.mapM (fun b => sourcePath disk cwd b.path) = .ok paths) :
    SelectionRight disk cwd bindings ↔
      10 < bindings.length ∨ ¬ paths.Pairwise (DirectoriesApart disk) ∨
        paths.Pairwise (ArchivesApart disk) := by
  have hpaths := mapM_eq_ok.mp hpaths
  constructor
  · intro h
    by_contra hcondition
    simp only [not_or, not_lt, not_not] at hcondition
    obtain ⟨hten, hdirs, harchives⟩ := hcondition
    have hne : bindings ≠ [] := by
      rintro rfl
      cases hpaths
      exact harchives List.Pairwise.nil
    have hids : Assigns (archivesFirst disk paths) bindings :=
      assigns_archivesFirst hpaths.length_eq.symm hten
    have hseparate := (h _ hids).1 _ (accepted_archivesFirst ⟨hne, hten⟩ hpaths hdirs)
    have hall := (pairwise_sorted (R := Separate disk) (length_paths hids hpaths)
      Separate.symm).mp hseparate
    exact harchives (hall.imp fun hpair => (separate_iff.mp hpair).2)
  · intro hcondition ids hids
    by_cases hdirs : paths.Pairwise (DirectoriesApart disk)
    · by_cases hten : bindings.length ≤ 10
      · have harchives : paths.Pairwise (ArchivesApart disk) :=
          (hcondition.resolve_left (not_lt.mpr hten)).resolve_left (not_not.mpr hdirs)
        have hseparate : paths.Pairwise (Separate disk) :=
          (hdirs.and harchives).imp separate_iff.mpr
        refine ⟨fun result hok => ?_, fun others hothers => ?_⟩
        · obtain ⟨-, -, rfl⟩ := (accepted_relabel hids hpaths).mp hok
          exact (pairwise_sorted (length_paths hids hpaths) Separate.symm).mpr hseparate
        · rw [accepted_of_separate hids hpaths hseparate,
            accepted_of_separate hothers hpaths hseparate]
      · have hnone : ∀ {others}, Assigns others bindings → ∀ result,
            validateSourceBindings disk cwd (relabel others bindings) ≠ .ok result :=
          fun hothers _ hok => hten ((accepted_relabel hothers hpaths).mp hok).1.2
        exact ⟨fun result hok => absurd hok (hnone hids result), fun others hothers =>
          ⟨fun ⟨r, hr⟩ => absurd hr (hnone hids r), fun ⟨r, hr⟩ => absurd hr (hnone hothers r)⟩⟩
    · have hnone : ∀ {others}, Assigns others bindings → ∀ result,
          validateSourceBindings disk cwd (relabel others bindings) ≠ .ok result :=
        fun hothers => rejected_of_directories hothers hpaths hdirs
      exact ⟨fun result hok => absurd hok (hnone hids result), fun others hothers =>
        ⟨fun ⟨r, hr⟩ => absurd hr (hnone hids r), fun ⟨r, hr⟩ => absurd hr (hnone hothers r)⟩⟩

end

/-- A disk with a Vault that has an archive in it, and an archive elsewhere. -/
def vaultDisk : Disk where
  symlinkMetadata path :=
    if path ∈ ["/v", "/v/.obsidian"] then .ok .directory
    else if path ∈ ["/v/old.zip", "/w/new.zip"] then .ok .file
    else .error (.io "No such file or directory")
  canonicalize path := .ok path
  isFile path := path ∈ ["/v/old.zip", "/w/new.zip"]
  isDir path := path ∈ ["/v", "/v/.obsidian"]
  readDir _ := .ok []

def vaultBindings (archive : String) : List SourceBinding :=
  [⟨⟨"vault"⟩, none, "/v", none⟩, ⟨⟨"archive"⟩, none, archive, none⟩]

/-- An archive outside the Vault. -/
theorem selection_iff_outside :
    SelectionRight vaultDisk none (vaultBindings "/w/new.zip") ↔
      10 < (vaultBindings "/w/new.zip").length ∨
        ¬ ["/v", "/w/new.zip"].Pairwise (DirectoriesApart vaultDisk) ∨
        ["/v", "/w/new.zip"].Pairwise (ArchivesApart vaultDisk) :=
  selection_iff (by decide +kernel)

/-- An archive in the Vault that is selected, under a smaller ID. -/
theorem inside_accepted :
    ¬ ∀ disk cwd bindings paths,
      bindings.mapM (fun b : SourceBinding => sourcePath disk cwd b.path) = .ok paths →
        SelectionRight disk cwd bindings := by
  intro h
  have hmap : (vaultBindings "/v/old.zip").mapM
      (fun b : SourceBinding => sourcePath vaultDisk none b.path) = .ok ["/v", "/v/old.zip"] := by
    decide +kernel
  have hright := h vaultDisk none (vaultBindings "/v/old.zip") _ hmap
  have hpaths := mapM_eq_ok.mp hmap
  have hdirs : ["/v", "/v/old.zip"].Pairwise (DirectoriesApart vaultDisk) := by
    refine List.pairwise_pair.mpr fun _ hfile => absurd hfile (by decide)
  have hids : Assigns (archivesFirst vaultDisk ["/v", "/v/old.zip"]) (vaultBindings "/v/old.zip") :=
    assigns_archivesFirst rfl (by decide)
  have hseparate := (hright _ hids).1 _ (accepted_archivesFirst ⟨by decide, by decide⟩ hpaths hdirs)
  have hall := (pairwise_sorted (R := Separate vaultDisk) (length_paths hids hpaths)
    Separate.symm).mp hseparate
  exact (List.pairwise_pair.mp hall).left (by decide) (by decide)

end Okc.App
