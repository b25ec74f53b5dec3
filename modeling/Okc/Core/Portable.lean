import Okc.Lib.Check
import Okc.Core.Identity

/-!
# Portable output paths (`snapshot.rs`, `integration.rs:1217-1257`)

`validateRelativePath` accepts a slash path whose components are all valid on every platform and
that is spelled canonically. `PortableOutputPaths` collects the paths of an output tree under
their case-folded spelling, so that no two outputs meet on a file system that ignores case or
normalises names.

* `validateRelativePath_eq_ok`: acceptance is `Portable`, a condition on the components.
* `Portable.ancestor`: the directories on the way to a portable path are portable.
* `insertPath_isOk`: a path can be inserted iff it is portable and none of its prefixes meets an
  earlier one except as the same directory.
* `insertable_apart`: collected paths are pairwise apart, none above another; under an injective
  folding that is also enough (`insertable_of_apart`).
-/

namespace Okc.Core

open Okc.Lib

/-- `CompilerPolicy::limits`, as far as paths are concerned. -/
structure PathLimits where
  maxPathBytes : Nat
  maxComponentBytes : Nat

/-- `CompilerPolicy::default()`. -/
def PathLimits.default : PathLimits := ⟨1024, 240⟩

/-! ## Components -/

/-- The characters no component may contain. -/
def forbiddenChar (c : Char) : Bool :=
  c == '\x00' || isControl c || c ∈ ['<', '>', ':', '"', '/', '\\', '|', '?', '*']

/-- The device names Windows reserves. -/
def reservedStems : List String :=
  ["CON", "PRN", "AUX", "NUL", "COM1", "COM2", "COM3", "COM4", "COM5", "COM6", "COM7", "COM8",
    "COM9", "LPT1", "LPT2", "LPT3", "LPT4", "LPT5", "LPT6", "LPT7", "LPT8", "LPT9"]

/-- `component.split('.').next()` in upper case. -/
def stem (component : String) : String :=
  asciiUpper (String.ofList (component.toList.takeWhile (· != '.')))

def validateComponent (limits : PathLimits) (component : String) : Except OkcError Unit := do
  reject (component = "" ∨ component = "." ∨ component = ".." ∨
      component.toList.getLast? = some ' ' ∨ component.toList.getLast? = some '.' ∨
      component.toList.any forbiddenChar)
    (.unsafePath component "invalid portable path component")
  reject (limits.maxComponentBytes < len component)
    (.unsafePath component
      ("component exceeds " ++ Nat.repr limits.maxComponentBytes ++ " UTF-8 bytes"))
  reject (stem component ∈ reservedStems)
    (.unsafePath component "Windows-reserved component")

def validatePathLength (limits : PathLimits) (path : String) : Except OkcError Unit :=
  reject (limits.maxPathBytes < len path)
    (.unsafePath path ("path exceeds " ++ Nat.repr limits.maxPathBytes ++ " bytes"))

theorem validateComponent_nonempty {limits : PathLimits} {c : String}
    (h : validateComponent limits c = .ok ()) : c ≠ "" ∧ c ≠ "." ∧ c ≠ ".." := by
  simp only [validateComponent, bind_unit_eq_ok, reject_eq_ok, not_or] at h
  exact ⟨h.1.1, h.1.2.1, h.1.2.2.1⟩

theorem validateComponent_chars {limits : PathLimits} {component : String}
    (h : validateComponent limits component = .ok ()) :
    ∀ c ∈ component.toList, c ≠ '/' ∧ c ≠ '\\' ∧ c ≠ '\x00' := by
  simp only [validateComponent, bind_unit_eq_ok, reject_eq_ok, not_or, List.any_eq_true,
    not_exists, not_and] at h
  intro c hc
  have hf := h.1.2.2.2.2.2 c hc
  refine ⟨?_, ?_, ?_⟩ <;> rintro rfl <;> exact hf (by decide)

theorem validateComponent_nameOk {limits : PathLimits} {c : String}
    (h : validateComponent limits c = .ok ()) : NameOk c :=
  ⟨(validateComponent_nonempty h).1, fun hs => (validateComponent_chars h _ hs).1 rfl⟩

/-! ## Relative paths -/

/-- `SourcePathPair`. -/
structure SourcePathPair where
  originalPath : String
  logicalPath : String

/-- The component loop of `decode_archive_path`. -/
def pathComponents (rawPath : String) : List String → Except OkcError (List String)
  | [] => .ok []
  | component :: rest =>
    if component = "." then pathComponents rawPath rest
    else if component = "" then
      .error (.unsafePath rawPath "archive path contains an empty component")
    else if component = ".." then
      .error (.unsafePath rawPath "archive path traverses a parent")
    else do
      let components ← pathComponents rawPath rest
      .ok (component :: components)

def buildSourcePathPair (X : Externals) (limits : PathLimits) (components : List String)
    (displayPath : String) : Except OkcError SourcePathPair := do
  reject (components = []) (.unsafePath displayPath "empty source path")
  forM components fun component => do
    validateComponent limits component
    validateComponent limits (X.nfc component)
  let originalPath := joinSlash components
  let logicalPath := joinSlash (components.map X.nfc)
  validatePathLength limits originalPath
  validatePathLength limits logicalPath
  .ok ⟨originalPath, logicalPath⟩

def decodeArchivePath (X : Externals) (limits : PathLimits) (rawPath : String)
    (isDirectory : Bool) : Except OkcError SourcePathPair := do
  reject (rawPath.toList.head? = some '/' ∨ '\\' ∈ rawPath.toList ∨ '\x00' ∈ rawPath.toList)
    (.unsafePath rawPath "archive path must be a relative slash path")
  let withoutDirectoryMarker :=
    if isDirectory ∧ rawPath.toList.getLast? = some '/' then
      String.ofList rawPath.toList.dropLast
    else rawPath
  let components ← pathComponents rawPath (splitSlash withoutDirectoryMarker)
  buildSourcePathPair X limits components rawPath

def validatePortableRelativePath (X : Externals) (limits : PathLimits) (path : String) :
    Except OkcError Unit := do
  let decoded ← decodeArchivePath X limits path false
  reject (decoded.originalPath ≠ path)
    (.unsafePath path "path contains a non-canonical relative component")

def validateRelativePath (X : Externals) (path : String) : Except OkcError Unit :=
  validatePortableRelativePath X .default path

/-- What `validateRelativePath` accepts. -/
structure Portable (X : Externals) (path : String) : Prop where
  component : ∀ c ∈ splitSlash path, validateComponent .default c = .ok () ∧
    validateComponent .default (X.nfc c) = .ok ()
  length : len path ≤ PathLimits.default.maxPathBytes
  logicalLength : len (joinSlash ((splitSlash path).map X.nfc)) ≤ PathLimits.default.maxPathBytes

theorem pathComponents_eq_self {rawPath : String} {l : List String}
    (h : ∀ c ∈ l, c ≠ "" ∧ c ≠ "." ∧ c ≠ "..") : pathComponents rawPath l = .ok l := by
  induction l with
  | nil => rfl
  | cons c cs ih =>
    obtain ⟨he, hd, hp⟩ := h c List.mem_cons_self
    rw [pathComponents, if_neg hd, if_neg he, if_neg hp,
      ih fun d hd => h d (List.mem_cons_of_mem _ hd)]
    rfl

theorem buildSourcePathPair_eq_ok {X : Externals} {limits : PathLimits} {components : List String}
    {path : String} {pair : SourcePathPair} :
    buildSourcePathPair X limits components path = .ok pair ↔
      components ≠ [] ∧ (∀ c ∈ components, validateComponent limits c = .ok () ∧
        validateComponent limits (X.nfc c) = .ok ()) ∧
      len (joinSlash components) ≤ limits.maxPathBytes ∧
      len (joinSlash (components.map X.nfc)) ≤ limits.maxPathBytes ∧
      pair = ⟨joinSlash components, joinSlash (components.map X.nfc)⟩ := by
  simp only [buildSourcePathPair, validatePathLength, bind_unit_eq_ok, reject_eq_ok, forM_eq_ok,
    not_lt, Except.ok.injEq, @eq_comm _ pair]

theorem head?_of_splitSlash {path : String} (h : ∀ c ∈ splitSlash path, NameOk c) :
    path.toList.head? ≠ some '/' := by
  intro hh
  rw [← joinSlash_splitSlash path, joinSlash, String.toList_ofList] at hh
  cases hp : splitSlash path with
  | nil => exact splitSlash_ne_nil path hp
  | cons c cs =>
    obtain ⟨hne, hs⟩ := h c (hp ▸ List.mem_cons_self)
    rw [hp] at hh
    cases hc : c.toList with
    | nil => exact hne (String.toList_eq_nil_iff.mp hc)
    | cons x xs =>
      have hx : x = '/' := by
        cases cs <;> simpa [List.intercalate, hc] using hh
      exact hs (hc ▸ hx ▸ List.mem_cons_self)

/-- What a decoder under the given limits accepts without respelling it. -/
structure PortableWithin (X : Externals) (limits : PathLimits) (path : String) : Prop where
  component : ∀ c ∈ splitSlash path, validateComponent limits c = .ok () ∧
    validateComponent limits (X.nfc c) = .ok ()
  length : len path ≤ limits.maxPathBytes
  logicalLength : len (joinSlash ((splitSlash path).map X.nfc)) ≤ limits.maxPathBytes

/-- **Acceptance is a condition on the components.** -/
theorem decodeArchivePath_eq_self {X : Externals} {limits : PathLimits} {path : String}
    {pair : SourcePathPair} :
    decodeArchivePath X limits path false = .ok pair ∧ pair.originalPath = path ↔
      PortableWithin X limits path ∧
        pair = ⟨path, joinSlash ((splitSlash path).map X.nfc)⟩ := by
  unfold decodeArchivePath
  simp only [Bool.false_eq_true, false_and, if_false, bind_eq_ok, exists_unit, reject_eq_ok,
    buildSourcePathPair_eq_ok, not_or]
  constructor
  · rintro ⟨⟨-, components, -, hne, hvalid, hlen, hlog, rfl⟩, hpath⟩
    have hsplit : splitSlash path = components := by
      rw [← hpath]
      exact splitSlash_joinSlash hne fun c hc => (validateComponent_nameOk (hvalid c hc).1).2
    exact ⟨⟨by rwa [hsplit], hpath ▸ hlen, by rwa [hsplit]⟩, by rw [hsplit, ← hpath]⟩
  · rintro ⟨h, rfl⟩
    have hname : ∀ c ∈ splitSlash path, NameOk c := fun c hc =>
      validateComponent_nameOk (h.component c hc).1
    have hchars : ∀ {x : Char}, x ∈ path.toList → x ≠ '/' → x ≠ '\\' ∧ x ≠ '\x00' := by
      intro x hx hs
      obtain ⟨c, hc, hxc⟩ := mem_splitSlash_of_mem hx hs
      exact (validateComponent_chars (h.component c hc).1 x hxc).2
    refine ⟨⟨⟨head?_of_splitSlash hname, fun hb => ?_, fun h0 => ?_⟩, splitSlash path,
      pathComponents_eq_self fun c hc => validateComponent_nonempty (h.component c hc).1,
      splitSlash_ne_nil path, h.component, ?_, h.logicalLength, by rw [joinSlash_splitSlash]⟩, rfl⟩
    · exact (hchars hb (by decide)).1 rfl
    · exact (hchars h0 (by decide)).2 rfl
    · rw [joinSlash_splitSlash]
      exact h.length

theorem validateRelativePath_eq_ok {X : Externals} {path : String} :
    validateRelativePath X path = .ok () ↔ Portable X path := by
  unfold validateRelativePath validatePortableRelativePath
  simp only [bind_eq_ok, reject_eq_ok, ne_eq, not_not, decodeArchivePath_eq_self]
  constructor
  · rintro ⟨pair, h, -⟩
    exact ⟨h.component, h.length, h.logicalLength⟩
  · intro h
    exact ⟨_, ⟨h.component, h.length, h.logicalLength⟩, rfl⟩

theorem Portable.nameOk {X : Externals} {path : String} (h : Portable X path) :
    ∀ c ∈ splitSlash path, NameOk c := fun c hc => validateComponent_nameOk (h.component c hc).1

theorem len_joinSlash_le {q p : List String} (h : q <+: p) :
    len (joinSlash q) ≤ len (joinSlash p) := by
  obtain ⟨r, rfl⟩ := h
  induction r using List.reverseRecOn with
  | nil => simp
  | append_singleton r c ih =>
    refine ih.trans ?_
    rw [← List.append_assoc]
    by_cases hq : q ++ r = []
    · simp [hq, joinSlash, List.intercalate]
    · rw [joinSlash_append_singleton hq]
      simp only [len, String.utf8ByteSize_append]
      omega

/-- **The directories on the way to a portable path are portable.** -/
theorem Portable.ancestor {X : Externals} {path : String} (h : Portable X path)
    {q : List String} (hq : q ≠ []) (hp : q <+: splitSlash path) : Portable X (joinSlash q) := by
  have hsplit : splitSlash (joinSlash q) = q :=
    splitSlash_joinSlash hq fun c hc => (h.nameOk c (hp.subset hc)).2
  refine ⟨fun c hc => ?_, ?_, ?_⟩
  · rw [hsplit] at hc
    exact h.component c (hp.subset hc)
  · have := len_joinSlash_le hp
    rw [joinSlash_splitSlash] at this
    exact this.trans h.length
  · rw [hsplit]
    exact (len_joinSlash_le (hp.map X.nfc)).trans h.logicalLength

/-! ## Output paths -/

/-- `PortableOutputPaths(BTreeMap<String, (String, bool)>)`: under its folded spelling, each
prefix of a path with its exact spelling and whether it is a file. -/
abbrev PortableOutputPaths := List (String × String × Bool)

/-- The prefixes of a path in the order of the component loop, the last one a file. -/
def prefixEntries (spelled : String) : List String → List (String × Bool)
  | [] => []
  | component :: rest =>
    let spelled := if spelled = "" then component else spelled ++ "/" ++ component
    (spelled, rest.isEmpty) :: prefixEntries spelled rest

/-- The body of the component loop of `PortableOutputPaths::insert`. -/
def insertEntry (X : Externals) (path : String) (paths : PortableOutputPaths)
    (entry : String × Bool) : Except OkcError PortableOutputPaths :=
  match get? (X.fullCasefoldNfc entry.1) paths with
  | some (spelling, existingIsFile) =>
    if spelling ≠ entry.1 ∨ existingIsFile ∨ entry.2 then
      .error (.unsafePath path
        "output paths have a portable spelling or file/directory collision")
    else .ok paths
  | none => .ok (insertKey (X.fullCasefoldNfc entry.1) entry paths)

/-- `PortableOutputPaths::insert`. -/
def insertPath (X : Externals) (paths : PortableOutputPaths) (path : String) :
    Except OkcError PortableOutputPaths := do
  validateRelativePath X path
  (prefixEntries "" (splitSlash path)).foldlM (insertEntry X path) paths

/-- The entries recorded so far, under their folded spellings. -/
def Records (X : Externals) (paths : PortableOutputPaths) (entries : List (String × Bool)) : Prop :=
  ∀ key e, get? key paths = some e ↔ e ∈ entries ∧ X.fullCasefoldNfc e.1 = key

/-- A new prefix meets a recorded one only as the same directory. -/
def Meets (X : Externals) (entries : List (String × Bool)) (e : String × Bool) : Prop :=
  ∀ d ∈ entries, X.fullCasefoldNfc d.1 = X.fullCasefoldNfc e.1 → d = e ∧ e.2 = false

theorem records_nil (X : Externals) : Records X [] [] := by
  simp [Records, get?]

theorem insertEntry_isOk {X : Externals} {path : String} {paths : PortableOutputPaths}
    {entries : List (String × Bool)} {e : String × Bool} (h : Records X paths entries) :
    (∃ t, insertEntry X path paths e = .ok t) ↔ Meets X entries e := by
  unfold insertEntry
  cases hg : get? (X.fullCasefoldNfc e.1) paths with
  | none =>
    simp only [Except.ok.injEq, exists_eq', true_iff]
    intro d hd hkey
    rw [(h _ d).mpr ⟨hd, hkey⟩] at hg
    cases hg
  | some d =>
    obtain ⟨hd, hkey⟩ := (h _ d).mp hg
    have hmeets : Meets X entries e ↔ d = e ∧ e.2 = false := by
      refine ⟨fun hm => hm d hd hkey, fun he c hc hck => ?_⟩
      have hcd : c = d := Option.some.inj (((h _ c).mpr ⟨hc, hck⟩).symm.trans hg)
      exact hcd ▸ he
    rw [hmeets]
    obtain ⟨spelling, isFile⟩ := d
    obtain ⟨spelled, file⟩ := e
    by_cases hs : spelling = spelled <;> cases isFile <;> cases file <;> simp [hs]

theorem insertEntry_records {X : Externals} {path : String} {paths t : PortableOutputPaths}
    {entries : List (String × Bool)} {e : String × Bool} (h : Records X paths entries)
    (ht : insertEntry X path paths e = .ok t) : Records X t (e :: entries) := by
  have hmeets : Meets X entries e := (insertEntry_isOk h).mp ⟨t, ht⟩
  unfold insertEntry at ht
  intro key d
  cases hg : get? (X.fullCasefoldNfc e.1) paths with
  | some c =>
    obtain ⟨hc, hkey⟩ := (h _ c).mp hg
    obtain ⟨rfl, -⟩ := hmeets c hc hkey
    have hpaths : paths = t := by
      simp only [hg] at ht
      split_ifs at ht
      exact Except.ok.inj ht
    rw [← hpaths, h key d, List.mem_cons]
    exact ⟨fun hd => ⟨Or.inr hd.1, hd.2⟩, fun hd => ⟨hd.1.elim (fun he => he ▸ hc) id, hd.2⟩⟩
  | none =>
    simp only [hg, Except.ok.injEq] at ht
    subst ht
    by_cases hkey : X.fullCasefoldNfc e.1 = key
    · subst hkey
      rw [get?_insertKey_self, Option.some.injEq, List.mem_cons]
      constructor
      · rintro rfl
        exact ⟨Or.inl rfl, rfl⟩
      · rintro ⟨rfl | hd, hk⟩
        · rfl
        · rw [(h _ d).mpr ⟨hd, hk⟩] at hg
          cases hg
    · rw [get?_insertKey_ne _ _ hkey, h key d, List.mem_cons]
      refine ⟨fun hd => ⟨Or.inr hd.1, hd.2⟩, fun hd => ⟨hd.1.resolve_left ?_, hd.2⟩⟩
      rintro rfl
      exact hkey hd.2

/-- The prefixes of the paths visited so far, the latest path first. -/
def recorded (before : List String) : List (String × Bool) :=
  before.flatMap fun path => (prefixEntries "" (splitSlash path)).reverse

/-- What inserting a path after others requires. -/
def Insertable (X : Externals) (before : List String) (path : String) : Prop :=
  Portable X path ∧ ScannedFrom (Meets X) (recorded before) (prefixEntries "" (splitSlash path))

theorem insertPath_isOk {X : Externals} {path : String} {paths : PortableOutputPaths}
    {before : List String} (h : Records X paths (recorded before)) :
    (∃ t, insertPath X paths path = .ok t) ↔ Insertable X before path := by
  simp only [insertPath, bind_unit_eq_ok, validateRelativePath_eq_ok, exists_and_left, Insertable]
  exact and_congr_right fun _ =>
    foldlM_isOk (insertEntry X path) (Meets X) (Records X) (fun _ _ _ => insertEntry_isOk)
      (fun _ _ _ _ => insertEntry_records) _ h

theorem insertPath_records {X : Externals} {path : String} {paths t : PortableOutputPaths}
    {before : List String} (h : Records X paths (recorded before))
    (ht : insertPath X paths path = .ok t) : Records X t (recorded (path :: before)) := by
  simp only [insertPath, bind_unit_eq_ok] at ht
  exact foldlM_represents (Records X) (fun _ _ _ _ => insertEntry_records) _ h ht.2

/-! ## What collected paths look like -/

/-- The `prefix` buffer of the component loop holds the components visited so far. -/
theorem joinSlash_push {spelled : List String} (hne : ∀ c ∈ spelled, c ≠ "") (c : String) :
    (if joinSlash spelled = "" then c else joinSlash spelled ++ "/" ++ c) =
      joinSlash (spelled ++ [c]) := by
  by_cases hs : spelled = []
  · simp [hs, joinSlash, List.intercalate]
  · rw [joinSlash_append_singleton hs, if_neg]
    intro hj
    cases spelled with
    | nil => exact hs rfl
    | cons d ds =>
      apply hne d List.mem_cons_self
      cases ds with
      | nil => rwa [joinSlash_singleton] at hj
      | cons e es =>
        rw [joinSlash_cons_cons] at hj
        exact (String.append_eq_empty_iff.mp (String.append_eq_empty_iff.mp hj).1).1

theorem mem_prefixEntries {spelled : List String} {parts : List String} {e : String × Bool}
    (hne : ∀ c ∈ spelled ++ parts, c ≠ "") :
    e ∈ prefixEntries (joinSlash spelled) parts ↔
      ∃ q, q ≠ [] ∧ q <+: parts ∧ e = (joinSlash (spelled ++ q), decide (q = parts)) := by
  induction parts generalizing spelled with
  | nil =>
    simp only [prefixEntries, List.not_mem_nil, List.prefix_nil, false_iff, not_exists, not_and]
    intro q hq h
    exact absurd h hq
  | cons c rest ih =>
    have hjoin := joinSlash_push (fun d hd => hne d (List.mem_append_left _ hd)) c
    have ih := @ih (spelled ++ [c]) (by simpa using hne)
    rw [prefixEntries, hjoin, List.mem_cons, ih]
    constructor
    · rintro (rfl | ⟨q, hq, hp, rfl⟩)
      · exact ⟨[c], by simp, by simp, by cases rest <;> simp⟩
      · exact ⟨c :: q, by simp, by simpa using hp, by simp⟩
    · rintro ⟨q, hq, hp, rfl⟩
      cases q with
      | nil => exact absurd rfl hq
      | cons d q =>
        obtain ⟨rfl, hrest⟩ := List.cons_prefix_cons.mp hp
        by_cases hn : q = []
        · left
          cases rest <;> simp [hn]
        · exact Or.inr ⟨q, hn, hrest, by simp⟩

theorem mem_entries {path : String} (hne : ∀ c ∈ splitSlash path, c ≠ "") {e : String × Bool} :
    e ∈ prefixEntries "" (splitSlash path) ↔
      ∃ q, q ≠ [] ∧ q <+: splitSlash path ∧ e = (joinSlash q, decide (q = splitSlash path)) := by
  have h := @mem_prefixEntries [] (splitSlash path) e (by simpa using hne)
  simpa [joinSlash, List.intercalate] using h

/-- Neither path is above or equal to the other. -/
def Apart (p q : String) : Prop :=
  ¬ splitSlash p <+: splitSlash q ∧ ¬ splitSlash q <+: splitSlash p

instance (p q : String) : Decidable (Apart p q) :=
  inferInstanceAs (Decidable (¬ splitSlash p <+: splitSlash q ∧ ¬ splitSlash q <+: splitSlash p))

theorem Apart.symm {p q : String} (h : Apart p q) : Apart q p := ⟨h.2, h.1⟩

theorem Apart.ne {p q : String} (h : Apart p q) : p ≠ q := fun he =>
  h.1 (he ▸ List.prefix_refl _)

theorem Portable.ne_empty {X : Externals} {path : String} (h : Portable X path) :
    ∀ c ∈ splitSlash path, c ≠ "" := fun c hc => (h.nameOk c hc).1

theorem apart_of_meets {X : Externals} {p q : String} (hp : Portable X p) (hq : Portable X q)
    (h : ∀ d ∈ prefixEntries "" (splitSlash p), ∀ e ∈ prefixEntries "" (splitSlash q),
      X.fullCasefoldNfc d.1 = X.fullCasefoldNfc e.1 → d = e ∧ e.2 = false) : Apart p q := by
  have hself : ∀ {r : String}, Portable X r →
      (joinSlash (splitSlash r), true) ∈ prefixEntries "" (splitSlash r) := fun hr =>
    (mem_entries hr.ne_empty).mpr ⟨_, splitSlash_ne_nil _, List.prefix_refl _, by simp⟩
  constructor
  · intro hpre
    have he := (mem_entries hq.ne_empty).mpr ⟨_, splitSlash_ne_nil p, hpre, rfl⟩
    obtain ⟨heq, hfalse⟩ := h _ (hself hp) _ he rfl
    rw [← heq] at hfalse
    cases hfalse
  · intro hpre
    have hd := (mem_entries hp.ne_empty).mpr ⟨_, splitSlash_ne_nil q, hpre, rfl⟩
    cases (h _ hd _ (hself hq) rfl).2

/-- **Collected paths are portable, and none is above another.** -/
theorem insertable_apart {X : Externals} {paths : List String}
    (h : ScannedFrom (Insertable X) [] paths) :
    (∀ p ∈ paths, Portable X p) ∧ paths.Pairwise Apart := by
  have hport : ∀ p ∈ paths, Portable X p :=
    scannedFrom_const.mp (h.imp fun _ _ hi => hi.1)
  refine ⟨hport, ?_⟩
  have hmeets : ScannedFrom (fun b q => ∀ p ∈ b,
      ∀ d ∈ prefixEntries "" (splitSlash p), ∀ e ∈ prefixEntries "" (splitSlash q),
      X.fullCasefoldNfc d.1 = X.fullCasefoldNfc e.1 → d = e ∧ e.2 = false) [] paths := by
    refine h.imp fun b q hi p hp d hd e he => ?_
    exact (scannedFrom_pairwise.mp hi.2).2 d
      (List.mem_flatMap.mpr ⟨p, hp, List.mem_reverse.mpr hd⟩) e he
  refine (scannedFrom_pairwise.mp hmeets).1.imp_of_mem fun hp hq hR => ?_
  exact apart_of_meets (hport _ hp) (hport _ hq) hR

theorem pairwise_prefixEntries {spelled parts : List String}
    (hname : ∀ c ∈ spelled ++ parts, NameOk c) :
    (prefixEntries (joinSlash spelled) parts).Pairwise fun d e => d.1 ≠ e.1 := by
  induction parts generalizing spelled with
  | nil => exact List.Pairwise.nil
  | cons c rest ih =>
    have hspelled : ∀ d ∈ spelled, d ≠ "" := fun d hd => (hname d (List.mem_append_left _ hd)).1
    have hname : ∀ d ∈ (spelled ++ [c]) ++ rest, NameOk d := by simpa using hname
    rw [prefixEntries, joinSlash_push hspelled, List.pairwise_cons]
    refine ⟨fun e he heq => ?_, ih hname⟩
    obtain ⟨q, hq, hpre, rfl⟩ := (mem_prefixEntries fun d hd => (hname d hd).1).mp he
    have hslash : ∀ d ∈ (spelled ++ [c]) ++ q, '/' ∉ d.toList := fun d hd =>
      (hname d ((List.prefix_append_right_inj _).mpr hpre |>.subset hd)).2
    have hsplit := congrArg splitSlash heq
    rw [splitSlash_joinSlash (by simp) fun d hd => hslash d (List.mem_append_left _ hd),
      splitSlash_joinSlash (by simp) hslash] at hsplit
    exact hq (List.append_cancel_left (hsplit.symm.trans (List.append_nil _).symm))

theorem meets_of_apart {X : Externals} (hX : Function.Injective X.fullCasefoldNfc) {p q : String}
    (hp : Portable X p) (hq : Portable X q) (hapart : Apart p q) :
    ∀ d ∈ prefixEntries "" (splitSlash p), ∀ e ∈ prefixEntries "" (splitSlash q),
      X.fullCasefoldNfc d.1 = X.fullCasefoldNfc e.1 → d = e ∧ e.2 = false := by
  intro d hd e he hkey
  obtain ⟨a, ha, hap, rfl⟩ := (mem_entries hp.ne_empty).mp hd
  obtain ⟨b, hb, hbq, rfl⟩ := (mem_entries hq.ne_empty).mp he
  have hjoin : joinSlash a = joinSlash b := hX hkey
  have hab : a = b := by
    rw [← splitSlash_joinSlash ha fun c hc => (hp.nameOk c (hap.subset hc)).2, hjoin,
      splitSlash_joinSlash hb fun c hc => (hq.nameOk c (hbq.subset hc)).2]
  subst hab
  have hap' : a ≠ splitSlash p := fun he => hapart.1 (he ▸ hbq)
  have haq' : a ≠ splitSlash q := fun he => hapart.2 (he ▸ hap)
  simp [hap', haq']

/-- Under an injective folding, portable paths of which none is above another can be collected. -/
theorem insertable_of_apart {X : Externals} (hX : Function.Injective X.fullCasefoldNfc)
    {paths : List String} (hport : ∀ p ∈ paths, Portable X p) (hapart : paths.Pairwise Apart) :
    ScannedFrom (Insertable X) [] paths := by
  have hpairs : paths.Pairwise fun p q => Portable X p ∧ Portable X q ∧ Apart p q :=
    hapart.imp_of_mem fun hp hq h => ⟨hport _ hp, hport _ hq, h⟩
  have hall : ScannedFrom (fun _ q => Portable X q) [] paths := scannedFrom_const.mpr hport
  have hscan := scannedFrom_and.mpr ⟨scannedFrom_pairwise.mpr ⟨hpairs, by simp⟩, hall⟩
  refine hscan.imp fun b q ⟨hb, hq⟩ => ⟨hq, scannedFrom_pairwise.mpr ⟨?_, ?_⟩⟩
  · have hdistinct := @pairwise_prefixEntries [] (splitSlash q) (by simpa using hq.nameOk)
    exact hdistinct.imp fun hne hkey => absurd (hX hkey) hne
  · intro d hd e he
    obtain ⟨p, hp, hd⟩ := List.mem_flatMap.mp hd
    exact meets_of_apart hX (hb p hp).1 hq (hb p hp).2.2 d (List.mem_reverse.mp hd) e he

end Okc.Core
