import Okc.Core.Base32
import Okc.Core.OutputNames

/-!
# Allocating document paths (`plan.rs:1664-1726`, `plan.rs:3279-3296`)

A document goes to `knowledge/` followed by its path. The ten bytes of the directory may be more
than the path limit leaves; and where the name is taken, the names with a suffix may be taken too,
or be too long, which is not checked.

* `validate_knowledgePath`, `validate_suffixed`: what is left to check of the two kinds of names.
* `allocateDocumentPaths_iff`: the allocation gives every representative a valid path exactly when
  every document, as its turn comes, fits.
-/

namespace Okc.Core

open Okc.Lib

/-! ## Suffixes -/

/-- A character that a suffix is made of. -/
def SuffixChar (c : Char) : Prop :=
  forbiddenChar c = false ∧ c ≠ ' ' ∧ c ≠ '.' ∧ c.toNat < 128

theorem suffixChar_alphabet : ∀ c ∈ crockfordAlphabet, SuffixChar c :=
  forall_of_all (p := fun c => forbiddenChar c = false ∧ c ≠ ' ' ∧ c ≠ '.' ∧ c.toNat < 128)
    (by decide +kernel)

/-- The suffix of a length: a tilde and characters of the identity. -/
def identitySuffix (hash : ContentHash) (length : Nat) : String := "~" ++ hash.suffixBase32 length

theorem identitySuffix_chars (hash : ContentHash) (length : Nat) :
    ∀ c ∈ (identitySuffix hash length).toList, SuffixChar c := by
  intro c hc
  rw [identitySuffix, String.toList_append, List.mem_append] at hc
  rcases hc with hc | hc
  · obtain rfl : c = '~' := by simpa using hc
    exact ⟨by decide, by decide, by decide, by decide⟩
  · rw [ContentHash.suffixBase32, String.toList_ofList] at hc
    exact suffixChar_alphabet c (crockfordBase32_mem _ c (List.mem_of_mem_take hc))

/-! ## A name with a suffix -/

section Suffixed

variable {X : Externals} {limits : PathLimits} {name : String}

/-- The name after `insert_suffix`. -/
def suffixedName (name suffix : String) (maxComponentBytes : Nat) : String :=
  String.ofList (truncateUtf8 (nameStem name).toList
    (maxComponentBytes - (len suffix + len (dotExtension name)))) ++ suffix ++ dotExtension name

/-- What is kept of the stem begins the name. -/
theorem truncated_initial (hname : SingleName name) (budget : Nat) :
    truncateUtf8 (nameStem name).toList budget <+: name.toList := by
  have hlongest := (longestWithin_truncateUtf8 (nameStem name).toList budget).initial
  rw [String.toList_ofList, String.toList_ofList] at hlongest
  conv_rhs => rw [← hname.append, String.toList_append]
  exact hlongest.trans (List.prefix_append _ _)

theorem tilde_not_reserved : ∀ s ∈ reservedStems, '~' ∉ s.toList := by
  decide +kernel

/-- A suffix makes no device name. -/
theorem suffixedName_stem (hname : ComponentOk limits name) (hash : ContentHash)
    (length maximum : Nat) :
    stem (suffixedName name (identitySuffix hash length) maximum) ∉ reservedStems := by
  obtain ⟨budget, hbudget⟩ : ∃ n, maximum - (len (identitySuffix hash length) +
    len (dotExtension name)) = n := ⟨_, rfl⟩
  have hinitial := truncated_initial hname.singleName budget
  obtain ⟨kept, hkept⟩ : ∃ cs, truncateUtf8 (nameStem name).toList budget = cs := ⟨_, rfl⟩
  have hchars : (suffixedName name (identitySuffix hash length) maximum).toList =
      kept ++ ('~' :: (hash.suffixBase32 length).toList ++ (dotExtension name).toList) := by
    rw [suffixedName, hbudget, hkept, identitySuffix]
    simp
  rw [hkept] at hinitial
  intro hres
  by_cases hdot : '.' ∈ kept
  · -- the stem ends where that of the name does
    refine hname.stem ?_
    obtain ⟨more, hmore⟩ := hinitial
    have hcut : ∀ rest : List Char,
        (kept ++ rest).takeWhile (· != '.') = kept.takeWhile (· != '.') := by
      intro rest
      rw [List.takeWhile_append, if_neg]
      intro hall
      have := List.takeWhile_eq_self_iff.mp
        ((List.takeWhile_prefix _).eq_of_length hall) '.' hdot
      simp at this
    rw [stem, hchars, hcut, ← hcut more, hmore] at hres
    exact hres
  · refine tilde_not_reserved _ hres ?_
    have hplain : ∀ c ∈ kept, (c != '.') = true := by
      intro c hc
      rw [bne_iff_ne]
      rintro rfl
      exact hdot hc
    rw [stem, hchars, List.takeWhile_append_of_pos hplain, asciiUpper, String.toList_ofList,
      String.toList_ofList, List.mem_map]
    exact ⟨'~', List.mem_append_right _ List.mem_cons_self, by decide⟩

theorem nfc_suffixedName (hX : NfcLaws X) (hname : ComponentOk limits name)
    (hnfc : X.nfc name = name) (hash : ContentHash) (length maximum : Nat) :
    X.nfc (suffixedName name (identitySuffix hash length) maximum) =
      suffixedName name (identitySuffix hash length) maximum := by
  obtain ⟨budget, hbudget⟩ : ∃ n, maximum - (len (identitySuffix hash length) +
    len (dotExtension name)) = n := ⟨_, rfl⟩
  have hinitial := truncated_initial hname.singleName budget
  have hkept : X.nfc (String.ofList (truncateUtf8 (nameStem name).toList budget)) =
      String.ofList (truncateUtf8 (nameStem name).toList budget) :=
    hX.initial name _ hnfc (by rwa [String.toList_ofList])
  have hbase : X.nfc (hash.suffixBase32 length) = hash.suffixBase32 length := by
    refine hX.ascii _ fun c hc => (identitySuffix_chars hash length c ?_).2.2.2
    rw [identitySuffix, String.toList_append]
    exact List.mem_append_right _ hc
  have htail := nfc_dotExtension hX hname.singleName hnfc hbase
  have hmark := hX.mark (String.ofList (truncateUtf8 (nameStem name).toList budget))
    (hash.suffixBase32 length ++ dotExtension name) '~' (by decide)
  rw [hkept, htail] at hmark
  have hassoc : suffixedName name (identitySuffix hash length) maximum =
      String.ofList (truncateUtf8 (nameStem name).toList budget) ++ String.ofList ['~'] ++
        (hash.suffixBase32 length ++ dotExtension name) := by
    rw [suffixedName, hbudget, identitySuffix, ← String.append_assoc, ← String.append_assoc]
  rw [hassoc, hmark]

theorem suffixedName_chars (hname : ComponentOk limits name) (hash : ContentHash)
    (length maximum : Nat) :
    ∀ c ∈ (suffixedName name (identitySuffix hash length) maximum).toList,
      forbiddenChar c = false := by
  intro c hc
  rw [suffixedName, String.toList_append, String.toList_append, String.toList_ofList,
    List.mem_append, List.mem_append] at hc
  rcases hc with (hc | hc) | hc
  · exact hname.chars c ((truncated_initial hname.singleName _).subset hc)
  · exact (identitySuffix_chars hash length c hc).1
  · refine hname.chars c ?_
    rw [← hname.singleName.append, String.toList_append]
    exact List.mem_append_right _ hc

/-- A valid name with a suffix is valid when suffix and extension fit. -/
theorem componentOk_suffixedName (hname : ComponentOk limits name) (hash : ContentHash)
    (length : Nat) :
    ComponentOk limits (suffixedName name (identitySuffix hash length) limits.maxComponentBytes) ↔
      len (identitySuffix hash length) + len (dotExtension name) ≤ limits.maxComponentBytes := by
  obtain ⟨budget, hbudget⟩ : ∃ n, limits.maxComponentBytes - (len (identitySuffix hash length) +
    len (dotExtension name)) = n := ⟨_, rfl⟩
  have hfits := (longestWithin_truncateUtf8 (nameStem name).toList budget).fits
  have happend := hname.singleName.append
  obtain ⟨c, cs, hsuffix⟩ : ∃ c cs, (identitySuffix hash length).toList = c :: cs :=
    ⟨'~', (hash.suffixBase32 length).toList, by rw [identitySuffix, String.toList_append]; rfl⟩
  have hlen : len (suffixedName name (identitySuffix hash length) limits.maxComponentBytes) =
      len (String.ofList (truncateUtf8 (nameStem name).toList budget)) +
        (len (identitySuffix hash length) + len (dotExtension name)) := by
    rw [suffixedName, hbudget, len_append, len_append, Nat.add_assoc]
  have hchars := suffixedName_chars hname hash length limits.maxComponentBytes
  have htilde : '~' ∈ (suffixedName name (identitySuffix hash length)
      limits.maxComponentBytes).toList := by
    rw [suffixedName, String.toList_append, String.toList_append]
    refine List.mem_append_left _ (List.mem_append_right _ ?_)
    rw [identitySuffix, String.toList_append]
    exact List.mem_append_left _ (by decide)
  have hnamed : ∀ s : String, '~' ∉ s.toList →
      suffixedName name (identitySuffix hash length) limits.maxComponentBytes ≠ s := by
    rintro s hs rfl
    exact hs htilde
  constructor
  · intro h
    have := h.length
    omega
  · intro hroom
    refine ⟨⟨hnamed "" (by decide), hnamed "." (by decide), hnamed ".." (by decide)⟩, ?_,
      fun x hx => ?_, by omega, suffixedName_stem hname hash length _⟩
    · -- the name ends as it did, or in a character of the suffix
      by_cases hext : dotExtension name = ""
      · have hlast : (suffixedName name (identitySuffix hash length)
            limits.maxComponentBytes).toList.getLast? =
            (identitySuffix hash length).toList.getLast? := by
          rw [suffixedName, hext, String.append_empty, String.toList_append, hsuffix,
            List.getLast?_append_of_ne_nil _ (List.cons_ne_nil _ _)]
        rw [hlast]
        constructor <;> intro he
        · exact (identitySuffix_chars hash length _ (List.mem_of_getLast? he)).2.1 rfl
        · exact (identitySuffix_chars hash length _ (List.mem_of_getLast? he)).2.2.1 rfl
      · have hnil : (dotExtension name).toList ≠ [] := fun hnil =>
          hext (String.toList_eq_nil_iff.mp hnil)
        have hlast : (suffixedName name (identitySuffix hash length)
            limits.maxComponentBytes).toList.getLast? = name.toList.getLast? := by
          conv_rhs => rw [← happend]
          rw [suffixedName, String.toList_append, List.getLast?_append_of_ne_nil _ hnil,
            String.toList_append, List.getLast?_append_of_ne_nil _ hnil]
        rw [hlast]
        exact hname.last
    · exact hchars x hx

end Suffixed

/-! ## Paths of valid components -/

section

variable {limits : PathLimits} {directory : List String} {name : String}

theorem pathParts_joinSlash {parts : List String} (hne : parts ≠ [])
    (h : ∀ c ∈ parts, ComponentOk limits c) : pathParts (joinSlash parts) = parts := by
  have hsplit := splitSlash_joinSlash hne fun c hc => (h c hc).slash
  rw [pathParts_eq_self fun c hc => ?_, hsplit]
  rw [hsplit] at hc
  exact ⟨(h c hc).name.1, (h c hc).name.2.1⟩

theorem fileName_joinSlash (h : ∀ c ∈ directory ++ [name], ComponentOk limits c) :
    fileName (joinSlash (directory ++ [name])) = some name := by
  have hname := h name (List.mem_append_right _ List.mem_cons_self)
  rw [fileName, pathParts_joinSlash (by simp) h,
    List.getLast?_append_of_ne_nil _ (List.cons_ne_nil _ _)]
  exact Option.filter_some_pos (decide_eq_true hname.name.2.2)

theorem parent_joinSlash (h : ∀ c ∈ directory ++ [name], ComponentOk limits c) :
    parent (joinSlash (directory ++ [name])) = joinSlash directory := by
  rw [parent, pathParts_joinSlash (by simp) h, List.dropLast_concat]

theorem joinSlash_eq_empty (h : ∀ c ∈ directory, ComponentOk limits c) :
    joinSlash directory = "" ↔ directory = [] := by
  constructor
  · intro hempty
    by_contra hne
    have hsplit := splitSlash_joinSlash hne fun c hc => (h c hc).slash
    rw [hempty] at hsplit
    have hmem : "" ∈ directory := by
      rw [← hsplit]
      decide
    exact (h "" hmem).name.1 rfl
  · rintro rfl
    rfl

theorem dotExtension_joinSlash (h : ∀ c ∈ directory ++ [name], ComponentOk limits c) :
    dotExtension (joinSlash (directory ++ [name])) = dotExtension name := by
  have hname := (h name (List.mem_append_right _ List.mem_cons_self)).singleName
  rw [dotExtension, dotExtension, extension, extension, fileName_joinSlash h, hname.fileName]

/-- **`insert_suffix` changes the last component only.** -/
theorem insertSuffix_joinSlash (h : ∀ c ∈ directory ++ [name], ComponentOk limits c)
    (suffix : String) (maximum : Nat) :
    insertSuffix (joinSlash (directory ++ [name])) suffix maximum =
      joinSlash (directory ++ [suffixedName name suffix maximum]) := by
  have hstem : fileStem (joinSlash (directory ++ [name])) = some (nameStem name) := by
    rw [fileStem, fileName_joinSlash h]
    rfl
  have hempty := joinSlash_eq_empty fun c hc => h c (List.mem_append_left _ hc)
  unfold insertSuffix
  simp only [hstem, Option.getD_some, dotExtension_joinSlash h, parent_joinSlash h, hempty]
  by_cases hdirectory : directory = []
  · rw [if_pos hdirectory, hdirectory, List.nil_append, joinSlash_singleton]
    rfl
  · rw [if_neg hdirectory, joinSlash_append_singleton hdirectory]
    rfl

end

/-! ## The two kinds of paths -/

/-- The directory and the name of a document's path. -/
structure KnowledgeParts (X : Externals) (limits : PathLimits) (preferred : String)
    (directory : List String) (name : String) : Prop where
  path : preferred = joinSlash (directory ++ [name])
  nonempty : directory ≠ []
  component : ∀ c ∈ directory ++ [name], ComponentOk limits c ∧ X.nfc c = c

theorem knowledgeParts {X : Externals} (hX : NfcLaws X) {limits : PathLimits}
    (hlimit : 80 ≤ limits.maxComponentBytes) {originalPath logicalPath : String}
    (h : validateSourcePathPair X limits originalPath logicalPath = .ok ()) :
    ∃ directory name, KnowledgeParts X limits ("knowledge/" ++ logicalPath) directory name := by
  obtain ⟨hwithin, hlogical⟩ := validateSourcePathPair_eq_ok.mp h
  have hne : (splitSlash originalPath).map X.nfc ≠ [] := by
    simpa using splitSlash_ne_nil originalPath
  obtain ⟨parts, hparts⟩ : ∃ parts, (splitSlash originalPath).map X.nfc = parts := ⟨_, rfl⟩
  rw [hparts] at hne hlogical
  have hok : ∀ c ∈ parts, ComponentOk limits c ∧ X.nfc c = c := by
    intro c hc
    rw [← hparts] at hc
    obtain ⟨d, hd, rfl⟩ := List.mem_map.mp hc
    exact ⟨validateComponent_eq_ok.mp (hwithin.component d hd).2, hX.idempotent d⟩
  have hknowledge : ComponentOk limits "knowledge" ∧ X.nfc "knowledge" = "knowledge" :=
    ⟨⟨by decide, by decide, forall_of_all (by decide +kernel), le_trans (by decide) hlimit,
      by decide +kernel⟩, hX.ascii _ (forall_of_all (by decide))⟩
  have hcons : "knowledge" :: parts = "knowledge" :: parts.dropLast ++ [parts.getLast hne] := by
    rw [List.cons_append, List.dropLast_append_getLast]
  refine ⟨"knowledge" :: parts.dropLast, parts.getLast hne, ?_, List.cons_ne_nil _ _, ?_⟩
  · rw [← hcons, hlogical]
    obtain ⟨p, ps, rfl⟩ := List.exists_cons_of_ne_nil hne
    rw [joinSlash_cons_cons]
    apply String.toList_inj.mp
    simp
  · rw [← hcons]
    intro c hc
    rcases List.mem_cons.mp hc with rfl | hc
    · exact hknowledge
    · exact hok c hc

section Parts

variable {X : Externals} {limits : PathLimits} {preferred name : String} {directory : List String}

theorem KnowledgeParts.slash (h : KnowledgeParts X limits preferred directory name) :
    ∀ c ∈ directory ++ [name], '/' ∉ c.toList := fun c hc => (h.component c hc).1.slash

/-- **Of the preferred path only the length is left to check.** -/
theorem validate_knowledgePath (h : KnowledgeParts X limits preferred directory name) :
    validateOutputLogicalPath X limits preferred = .ok () ↔
      len preferred ≤ limits.maxPathBytes := by
  rw [h.path, validateOutput_joinSlash (List.append_ne_nil_of_right_ne_nil _ (List.cons_ne_nil _ _))
    h.slash]
  exact ⟨fun hok => hok.2, fun hlen => ⟨h.component, hlen⟩⟩

theorem KnowledgeParts.nameOk (h : KnowledgeParts X limits preferred directory name) :
    ComponentOk limits name ∧ X.nfc name = name :=
  h.component name (List.mem_append_right _ (List.mem_singleton.mpr rfl))

theorem KnowledgeParts.componentOk (h : KnowledgeParts X limits preferred directory name) :
    ∀ c ∈ directory ++ [name], ComponentOk limits c := fun c hc => (h.component c hc).1

theorem KnowledgeParts.dotExtension (h : KnowledgeParts X limits preferred directory name) :
    Core.dotExtension preferred = Core.dotExtension name := by
  rw [h.path]
  exact dotExtension_joinSlash h.componentOk

theorem KnowledgeParts.insertSuffix (h : KnowledgeParts X limits preferred directory name)
    (suffix : String) (maximum : Nat) :
    Core.insertSuffix preferred suffix maximum =
      joinSlash (directory ++ [suffixedName name suffix maximum]) := by
  rw [h.path]
  exact insertSuffix_joinSlash h.componentOk suffix maximum

/-- **Of a path with a suffix the two lengths are left to check.** -/
theorem validate_suffixed (hX : NfcLaws X) (h : KnowledgeParts X limits preferred directory name)
    (hash : ContentHash) (length : Nat) :
    validateOutputLogicalPath X limits
        (Core.insertSuffix preferred (identitySuffix hash length) limits.maxComponentBytes) =
          .ok () ↔
      len (identitySuffix hash length) + len (Core.dotExtension preferred) ≤
          limits.maxComponentBytes ∧
        len (Core.insertSuffix preferred (identitySuffix hash length) limits.maxComponentBytes) ≤
          limits.maxPathBytes := by
  obtain ⟨hname, hnfc⟩ := h.nameOk
  have hnfcSuffixed := nfc_suffixedName hX hname hnfc hash length limits.maxComponentBytes
  have hslash : '/' ∉ (suffixedName name (identitySuffix hash length)
      limits.maxComponentBytes).toList := fun hmem =>
    absurd (suffixedName_chars hname hash length _ '/' hmem) (by decide)
  rw [h.insertSuffix, h.dotExtension, ← componentOk_suffixedName hname,
    validateOutput_joinSlash (List.append_ne_nil_of_right_ne_nil _ (List.cons_ne_nil _ _))]
  · refine and_congr_left fun _ => ⟨fun hall => (hall _ (List.mem_append_right _
      (List.mem_singleton.mpr rfl))).1, fun hok c hc => ?_⟩
    rcases List.mem_append.mp hc with hc | hc
    · exact h.component c (List.mem_append_left _ hc)
    · rw [List.mem_singleton.mp hc]
      exact ⟨hok, hnfcSuffixed⟩
  · intro c hc
    rcases List.mem_append.mp hc with hc | hc
    · exact h.slash c (List.mem_append_left _ hc)
    · rw [List.mem_singleton.mp hc]
      exact hslash

end Parts

/-! ## The loop -/

/-- The path a document asks for. -/
def preferredPath (d : Document) : String := "knowledge/" ++ d.sourceFile.logicalPath

/-- The path with a suffix of the document's identity. -/
def suffixedPath (policy : CompilerPolicy) (d : Document) (length : Nat) : String :=
  suffixed policy (preferredPath d) d.documentId.hash length

section Rule

variable (X : Externals) (policy : CompilerPolicy) (held : Set String) (d : Document)

/-- The shortest suffix of the document whose path nobody holds in any spelling. -/
structure FirstFree (length : Nat) : Prop where
  mem : length ∈ suffixLengths
  free : portableKey X (suffixedPath policy d length) ∉ held
  shorter : ∀ shorter ∈ suffixLengths, shorter < length →
    portableKey X (suffixedPath policy d shorter) ∈ held

/-- Where a document goes when these keys are held. -/
inductive Goes : String → Prop
  | preferred : portableKey X (preferredPath d) ∉ held → Goes (preferredPath d)
  | suffixed {length : Nat} : portableKey X (preferredPath d) ∈ held →
      FirstFree X policy held d length → Goes (suffixedPath policy d length)

/-- The document fits: the path it asks for is not too long, and where it is held, some path with a
suffix is free, of which the first is not too long. -/
structure DocumentFits : Prop where
  preferred : len (preferredPath d) ≤ policy.limits.maxPathBytes
  suffixed : portableKey X (preferredPath d) ∈ held → ∃ length, FirstFree X policy held d length ∧
    len (identitySuffix d.documentId.hash length) + len (dotExtension (preferredPath d)) ≤
      policy.limits.maxComponentBytes ∧
    len (suffixedPath policy d length) ≤ policy.limits.maxPathBytes

end Rule

/-- Every document fits when its turn comes, those before it having gone where they go. -/
def AllFit (X : Externals) (policy : CompilerPolicy) : Set String → List Document → Prop
  | _, [] => True
  | held, d :: documents => DocumentFits X policy held d ∧
      ∀ path, Goes X policy held d path →
        AllFit X policy (insert (portableKey X path) held) documents

theorem FirstFree.unique {X : Externals} {policy : CompilerPolicy} {held : Set String}
    {d : Document} {m n : Nat} (hm : FirstFree X policy held d m)
    (hn : FirstFree X policy held d n) : m = n := by
  rcases Nat.lt_trichotomy m n with hlt | heq | hgt
  · exact absurd (hn.shorter m hm.mem hlt) hm.free
  · exact heq
  · exact absurd (hm.shorter n hn.mem hgt) hn.free

theorem Goes.unique {X : Externals} {policy : CompilerPolicy} {held : Set String} {d : Document}
    {a b : String} (ha : Goes X policy held d a) (hb : Goes X policy held d b) : a = b := by
  cases ha with
  | preferred hfree =>
    cases hb with
    | preferred _ => rfl
    | suffixed hheld _ => exact absurd hheld hfree
  | suffixed hheld hfirst =>
    cases hb with
    | preferred hfree => exact absurd hheld hfree
    | suffixed _ hfirst' => rw [hfirst.unique hfirst']

section Loop

variable {X : Crates} {policy : CompilerPolicy}

/-- The portable keys that are held. -/
def DocumentAllocation.held (s : DocumentAllocation) : Set String :=
  {key | key ∈ s.allocated.map Prod.fst}

theorem get?_isNone_iff {s : DocumentAllocation} {path : String} :
    (get? (portableKey X.toExternals path) s.allocated).isNone = true ↔
      portableKey X.toExternals path ∉ s.held := by
  rw [Option.isNone_iff_eq_none, get?_eq_none]
  exact Iff.rfl

theorem held_of_get? {s : DocumentAllocation} {key : String} {e : DocumentId × String}
    (h : get? key s.allocated = some e) : key ∈ s.held :=
  List.mem_map.mpr ⟨(key, e), mem_of_get? h, rfl⟩

theorem freeCandidate_eq_some {s : DocumentAllocation} {d : Document} {candidate : String} :
    freeCandidate X policy s.allocated (preferredPath d) d.documentId.hash = some candidate ↔
      ∃ length, FirstFree X.toExternals policy s.held d length ∧
        suffixedPath policy d length = candidate := by
  have hsorted : suffixLengths.Pairwise (· < ·) := List.pairwise_lt_range'
  have hpath : ∀ length, suffixed policy (preferredPath d) d.documentId.hash length =
      suffixedPath policy d length := fun length => rfl
  have hfirst : ∀ length, List.find? ((fun candidate =>
        (get? (portableKey X.toExternals candidate) s.allocated).isNone) ∘
          suffixed policy (preferredPath d) d.documentId.hash) suffixLengths = some length ↔
      FirstFree X.toExternals policy s.held d length := by
    intro length
    rw [find?_eq_some_of_ascending hsorted]
    simp only [Function.comp_apply, hpath, Bool.eq_false_iff, ne_eq, get?_isNone_iff, not_not]
    exact ⟨fun ⟨hmem, hfree, hshorter⟩ => ⟨hmem, hfree, hshorter⟩,
      fun h => ⟨h.mem, h.free, h.shorter⟩⟩
  rw [freeCandidate, List.find?_map, Option.map_eq_some_iff]
  simp only [hfirst, hpath]

theorem documentDestination_eq_ok {s : DocumentAllocation} {d : Document} {request : String}
    {r : String × Option Conflict}
    (h : documentDestination X policy s d (preferredPath d) request = .ok r) :
    Goes X.toExternals policy s.held d r.1 := by
  unfold documentDestination at h
  cases hget : get? (portableKey X.toExternals (preferredPath d)) s.allocated with
  | none =>
    rw [hget] at h
    cases h
    exact .preferred (get?_eq_none.mp hget)
  | some existing =>
    rw [hget] at h
    have hheld := held_of_get? hget
    cases hfree : freeCandidate X policy s.allocated (preferredPath d) d.documentId.hash with
    | none =>
      simp only [hfree] at h
      cases h
    | some candidate =>
      obtain ⟨length, hfirst, hpath⟩ := freeCandidate_eq_some.mp hfree
      have hgoes : Goes X.toExternals policy s.held d (suffixedPath policy d length) :=
        .suffixed hheld hfirst
      rw [hpath] at hgoes
      simp only [hfree] at h
      rw [← Except.ok.inj h]
      exact hgoes

theorem documentDestination_isOk {s : DocumentAllocation} {d : Document} {path : String}
    (h : Goes X.toExternals policy s.held d path) (request : String) :
    ∃ r, documentDestination X policy s d (preferredPath d) request = .ok r := by
  have hcandidate : portableKey X.toExternals (preferredPath d) ∈ s.held → ∃ candidate,
      freeCandidate X policy s.allocated (preferredPath d) d.documentId.hash = some candidate := by
    intro hheld
    cases h with
    | preferred hfree => exact absurd hheld hfree
    | @suffixed length _ hfirst =>
      exact ⟨suffixedPath policy d length, freeCandidate_eq_some.mpr ⟨length, hfirst, rfl⟩⟩
  unfold documentDestination
  cases hget : get? (portableKey X.toExternals (preferredPath d)) s.allocated with
  | none => exact ⟨_, rfl⟩
  | some existing =>
    obtain ⟨candidate, hfree⟩ := hcandidate (held_of_get? hget)
    simp only [hfree]
    exact ⟨_, rfl⟩

/-- One turn: the path it asks for is checked, and it goes where it goes. -/
theorem allocateDocument_eq_ok {s t : DocumentAllocation} {d : Document}
    (h : allocateDocument X policy s d = .ok t) :
    validateOutputLogicalPath X.toExternals policy.pathLimits (preferredPath d) = .ok () ∧
      ∃ destination, Goes X.toExternals policy s.held d destination ∧
        t.held = insert (portableKey X.toExternals destination) s.held ∧
        t.output = insertKey d.documentId destination s.output := by
  unfold allocateDocument at h
  rw [bind_unit_eq_ok, bind_eq_ok] at h
  obtain ⟨hvalid, ⟨destination, conflict⟩, hdestination, h⟩ := h
  refine ⟨hvalid, destination, documentDestination_eq_ok hdestination, ?_, ?_⟩
  · rw [← Except.ok.inj h]
    exact Set.ext fun key => mem_keys_insertKey
  · rw [← Except.ok.inj h]

theorem allocateDocument_isOk {s : DocumentAllocation} {d : Document} {path : String}
    (hvalid : validateOutputLogicalPath X.toExternals policy.pathLimits (preferredPath d) = .ok ())
    (hgoes : Goes X.toExternals policy s.held d path) :
    ∃ t, allocateDocument X policy s d = .ok t := by
  obtain ⟨⟨destination, conflict⟩, hdestination⟩ :=
    documentDestination_isOk hgoes ("knowledge/" ++ d.sourceFile.originalPath)
  refine ⟨⟨insertKey (portableKey X.toExternals destination)
      (d.documentId, if destination = preferredPath d then
        "knowledge/" ++ d.sourceFile.originalPath else destination) s.allocated,
    insertKey d.documentId destination s.output, s.conflicts ++ conflict.toList⟩, ?_⟩
  unfold allocateDocument
  rw [bind_unit_eq_ok, bind_eq_ok]
  exact ⟨hvalid, ⟨(destination, conflict), hdestination, rfl⟩⟩

/-- **To fit is to get a valid path.** -/
theorem documentFits_iff (hX : NfcLaws X.toExternals)
    (hlimit : 80 ≤ policy.limits.maxComponentBytes) {held : Set String} {d : Document}
    (hd : validateSourcePathPair X.toExternals policy.pathLimits d.sourceFile.originalPath
      d.sourceFile.logicalPath = .ok ()) :
    DocumentFits X.toExternals policy held d ↔
      validateOutputLogicalPath X.toExternals policy.pathLimits (preferredPath d) = .ok () ∧
      ∃ destination, Goes X.toExternals policy held d destination ∧
        validateOutputLogicalPath X.toExternals policy.pathLimits destination = .ok () := by
  obtain ⟨directory, name, hparts⟩ := knowledgeParts hX hlimit hd
  have hpreferred : validateOutputLogicalPath X.toExternals policy.pathLimits (preferredPath d) =
      .ok () ↔ len (preferredPath d) ≤ policy.limits.maxPathBytes := validate_knowledgePath hparts
  have hsuffixed : ∀ length, validateOutputLogicalPath X.toExternals policy.pathLimits
      (suffixedPath policy d length) = .ok () ↔
      len (identitySuffix d.documentId.hash length) + len (dotExtension (preferredPath d)) ≤
          policy.limits.maxComponentBytes ∧
        len (suffixedPath policy d length) ≤ policy.limits.maxPathBytes :=
    fun length => validate_suffixed hX hparts d.documentId.hash length
  rw [hpreferred]
  constructor
  · intro hfits
    refine ⟨hfits.preferred, ?_⟩
    by_cases hheld : portableKey X.toExternals (preferredPath d) ∈ held
    · obtain ⟨length, hfirst, hlens⟩ := hfits.suffixed hheld
      exact ⟨_, .suffixed hheld hfirst, (hsuffixed length).mpr hlens⟩
    · exact ⟨_, .preferred hheld, hpreferred.mpr hfits.preferred⟩
  · rintro ⟨hlen, destination, hgoes, hvalid⟩
    refine ⟨hlen, fun hheld => ?_⟩
    cases hgoes with
    | preferred hfree => exact absurd hheld hfree
    | suffixed _ hfirst => exact ⟨_, hfirst, (hsuffixed _).mp hvalid⟩

/-- A path that was given stays. -/
theorem get?_allocateDocuments {documents : List Document} {id : DocumentId}
    (hid : id ∉ documents.map Document.documentId) {s t : DocumentAllocation}
    (h : documents.foldlM (allocateDocument X policy) s = .ok t) :
    get? id t.output = get? id s.output := by
  induction documents generalizing s with
  | nil =>
    cases h
    rfl
  | cons d documents ih =>
    rw [List.map_cons, List.mem_cons, not_or] at hid
    rw [List.foldlM_cons, bind_eq_ok] at h
    obtain ⟨s', hstep, hrest⟩ := h
    obtain ⟨-, destination, -, -, houtput⟩ := allocateDocument_eq_ok hstep
    rw [ih hid.2 hrest, houtput, get?_insertKey_ne _ _ (Ne.symm hid.1)]

/-- The whole loop, from any state: every document gets a valid path exactly when all fit. -/
theorem allocateDocuments_iff (hX : NfcLaws X.toExternals)
    (hlimit : 80 ≤ policy.limits.maxComponentBytes) {documents : List Document}
    (hids : (documents.map Document.documentId).Nodup)
    (hpaths : ∀ d ∈ documents, validateSourcePathPair X.toExternals policy.pathLimits
      d.sourceFile.originalPath d.sourceFile.logicalPath = .ok ()) (s : DocumentAllocation) :
    (∃ t, documents.foldlM (allocateDocument X policy) s = .ok t ∧
      ∀ d ∈ documents, ∃ destination, get? d.documentId t.output = some destination ∧
        validateOutputLogicalPath X.toExternals policy.pathLimits destination = .ok ()) ↔
      AllFit X.toExternals policy s.held documents := by
  induction documents generalizing s with
  | nil => exact ⟨fun _ => trivial, fun _ => ⟨s, rfl, fun d hd => absurd hd List.not_mem_nil⟩⟩
  | cons d documents ih =>
    obtain ⟨hnew, hids⟩ := List.nodup_cons.mp hids
    have hfits := @documentFits_iff _ _ hX hlimit s.held _ (hpaths d List.mem_cons_self)
    have ih := ih hids fun e he => hpaths e (List.mem_cons_of_mem _ he)
    rw [AllFit, hfits]
    constructor
    · rintro ⟨t, hrun, hvalid⟩
      rw [List.foldlM_cons, bind_eq_ok] at hrun
      obtain ⟨s', hstep, hrest⟩ := hrun
      obtain ⟨hpreferred, destination, hgoes, hheld, houtput⟩ := allocateDocument_eq_ok hstep
      obtain ⟨given, hget, hok⟩ := hvalid d List.mem_cons_self
      rw [get?_allocateDocuments hnew hrest, houtput, get?_insertKey_self] at hget
      obtain rfl := Option.some.inj hget
      refine ⟨⟨hpreferred, destination, hgoes, hok⟩, fun path hpath => ?_⟩
      rw [hpath.unique hgoes, ← hheld]
      exact (ih s').mp ⟨t, hrest, fun e he => hvalid e (List.mem_cons_of_mem _ he)⟩
    · rintro ⟨⟨hpreferred, destination, hgoes, hok⟩, hrest⟩
      obtain ⟨s', hstep⟩ := allocateDocument_isOk hpreferred hgoes
      obtain ⟨-, given, hgiven, hheld, houtput⟩ := allocateDocument_eq_ok hstep
      obtain rfl := hgoes.unique hgiven
      obtain ⟨t, hrun, hvalid⟩ := (ih s').mpr (hheld ▸ hrest _ hgoes)
      refine ⟨t, by rw [List.foldlM_cons, bind_eq_ok]; exact ⟨s', hstep, hrun⟩, fun e he => ?_⟩
      rcases List.mem_cons.mp he with rfl | he
      · refine ⟨_, ?_, hok⟩
        rw [get?_allocateDocuments hnew hrun, houtput, get?_insertKey_self]
      · exact hvalid e he

/-! ## The representatives -/

theorem mem_allocationOrder {w : CanonicalWorkspace} {map : List (DocumentId × DocumentId)}
    {d : Document} : d ∈ allocationOrder X.toExternals w map ↔
      ∃ id ∈ map.map Prod.snd, get? id w.documents = some d := by
  rw [allocationOrder, List.mem_mergeSort, List.mem_filterMap]
  simp only [mem_sortedSet]

theorem nodup_allocationOrder {w : CanonicalWorkspace} (hw : DocumentsKeyed w)
    (map : List (DocumentId × DocumentId)) :
    ((allocationOrder X.toExternals w map).map Document.documentId).Nodup := by
  have hkey : ∀ ids : List DocumentId, (ids.filterMap fun id => get? id w.documents).map
      Document.documentId = ids.filter fun id => (get? id w.documents).isSome := by
    intro ids
    induction ids with
    | nil => rfl
    | cons id ids ih =>
      cases h : get? id w.documents with
      | none => simp [h, ih]
      | some d =>
        have hid : d.documentId = id := hw.key _ (mem_of_get? h)
        simp [h, ih, hid]
  refine ((List.mergeSort_perm _ _).map Document.documentId).nodup_iff.mpr ?_
  rw [hkey]
  exact (sortedSet_nodup _).filter _

/-- A representative is a document of its own. -/
theorem Represents.document {w : CanonicalWorkspace} (hw : DocumentsKeyed w)
    {map : List (DocumentId × DocumentId)} (hmap : Represents w map) {r : DocumentId}
    (hr : r ∈ map.map Prod.snd) : ∃ d, get? r w.documents = some d ∧ d.documentId = r := by
  obtain ⟨⟨m, r⟩, hmem, rfl⟩ := List.mem_map.mp hr
  have hself : r ∈ map.map Prod.fst := List.mem_map_of_mem (hmap.fixed m r hmem)
  rw [hmap.keys] at hself
  obtain ⟨⟨r, d⟩, hd, rfl⟩ := List.mem_map.mp hself
  exact ⟨d, get?_of_mem hw.sorted.nodup hd, hw.key _ hd⟩

/-- **The allocation gives every representative a valid path exactly when all fit.** -/
theorem allocateDocumentPaths_iff (hX : NfcLaws X.toExternals) (hp : policy.validate X = .ok ())
    {w : CanonicalWorkspace} (hw : DocumentsKeyed w) {map : List (DocumentId × DocumentId)}
    (hmap : Represents w map)
    (hpaths : ∀ e ∈ w.documents, validateSourcePathPair X.toExternals policy.pathLimits
      e.2.sourceFile.originalPath e.2.sourceFile.logicalPath = .ok ()) :
    (∃ paths conflicts, allocateDocumentPaths X policy w map = .ok (paths, conflicts) ∧
      ∀ r ∈ map.map Prod.snd, ∃ destination, get? r paths = some destination ∧
        validateOutputLogicalPath X.toExternals policy.pathLimits destination = .ok ()) ↔
      AllFit X.toExternals policy ∅ (allocationOrder X.toExternals w map) := by
  have hlimit := maxComponentBytes_of_validate hp
  have hheld : (⟨[], [], []⟩ : DocumentAllocation).held = ∅ := by
    ext key
    simp [DocumentAllocation.held]
  have hsource : ∀ d ∈ allocationOrder X.toExternals w map, validateSourcePathPair X.toExternals
      policy.pathLimits d.sourceFile.originalPath d.sourceFile.logicalPath = .ok () := by
    intro d hd
    obtain ⟨id, -, hget⟩ := mem_allocationOrder.mp hd
    exact hpaths (id, d) (mem_of_get? hget)
  rw [← hheld, ← allocateDocuments_iff hX hlimit (nodup_allocationOrder hw map) hsource]
  constructor
  · rintro ⟨paths, conflicts, h, hvalid⟩
    obtain ⟨t, hrun, ht⟩ := bind_eq_ok.mp h
    obtain ⟨rfl, -⟩ := Prod.mk.inj (Except.ok.inj ht)
    refine ⟨t, hrun, fun d hd => ?_⟩
    obtain ⟨id, hid, hget⟩ := mem_allocationOrder.mp hd
    have hkey : d.documentId = id := hw.key _ (mem_of_get? hget)
    rw [hkey]
    exact hvalid id hid
  · rintro ⟨t, hrun, hvalid⟩
    refine ⟨t.output, t.conflicts, bind_eq_ok.mpr ⟨t, hrun, rfl⟩, fun r hr => ?_⟩
    obtain ⟨d, hget, rfl⟩ := hmap.document hw hr
    exact hvalid d (mem_allocationOrder.mpr ⟨_, hr, hget⟩)

end Loop

/-! ## A path that is too long with its directory -/

/-- One note, which is its own representative. -/
def noteWorkspace (path : String) : CanonicalWorkspace where
  documents := [(⟨indexHash 1⟩, plainNote "vault" path 1)]
  canvases := []
  assets := []
  bases := []

def noteMap : List (DocumentId × DocumentId) := [(⟨indexHash 1⟩, ⟨indexHash 1⟩)]

theorem keyed_noteWorkspace (path : String) : DocumentsKeyed (noteWorkspace path) :=
  ⟨List.pairwise_singleton _ _, fun e he => by rw [List.mem_singleton.mp he]; rfl⟩

theorem represents_noteMap (path : String) : Represents (noteWorkspace path) noteMap where
  sorted := List.pairwise_singleton _ _
  keys := rfl
  fixed m r h := by
    obtain ⟨-, rfl⟩ := Prod.mk.inj (List.mem_singleton.mp h)
    exact List.mem_cons_self

theorem allocateDocumentPaths_iff_note :
    (∃ paths conflicts,
      allocateDocumentPaths (plainCrates (plainExternals prefixHash)) .default
        (noteWorkspace "note.md") noteMap = .ok (paths, conflicts) ∧
      ∀ r ∈ noteMap.map Prod.snd, ∃ destination, get? r paths = some destination ∧
        validateOutputLogicalPath (plainExternals prefixHash) CompilerPolicy.default.pathLimits
          destination = .ok ()) ↔
      AllFit (plainExternals prefixHash) .default ∅
        (allocationOrder (plainExternals prefixHash) (noteWorkspace "note.md") noteMap) :=
  @allocateDocumentPaths_iff (plainCrates (plainExternals prefixHash)) _ (nfcLaws_plain prefixHash)
    (validate_default (fun _ => rfl) fun _ => rfl) _ (keyed_noteWorkspace _) _
    (represents_noteMap _) fun e he => by
      rw [List.mem_singleton.mp he]
      exact (by decide +kernel : validateSourcePathPair (plainExternals prefixHash)
        CompilerPolicy.default.pathLimits "note.md" "note.md" = .ok ())

/-- The least limits that are accepted. -/
def tightPolicy : CompilerPolicy :=
  { CompilerPolicy.default with
    limits := { SafetyLimits.default with maxPathBytes := 80, maxComponentBytes := 80 } }

theorem validate_tightPolicy :
    tightPolicy.validate (plainCrates (plainExternals prefixHash)) = .ok () := by
  have hpatterns : ∀ p ∈ [".obsidian/**", ".git/**", "**/.DS_Store"], p.toList.head? ≠ some '!' :=
    by decide
  have hthreshold : ¬ ¬ ((0 : ℚ) ≤ 17 / 20 ∧ (17 / 20 : ℚ) ≤ 1) := by norm_num
  have hline : ∀ p, (plainCrates (plainExternals prefixHash)).excludeLineError p = none :=
    fun _ => rfl
  have hset : ∀ ps, (plainCrates (plainExternals prefixHash)).excludeSetError ps = none :=
    fun _ => rfl
  simp only [CompilerPolicy.validate, tightPolicy, CompilerPolicy.default, SafetyLimits.default,
    hline, hset, bind_unit_eq_ok, reject_eq_ok, forM_eq_ok, and_true]
  refine ⟨by decide, by decide, by decide, by decide, by decide, by decide, by decide,
    hpatterns, by decide, reject_eq_ok.mpr hthreshold, by decide, by decide, by decide⟩

section LongNote

variable (n : Nat)

/-- A note with a long name. -/
def longNote : String := String.ofList (List.replicate n 'a' ++ ".md".toList)

theorem len_longNote : len (longNote n) = n + 3 := by
  have hchars : ∀ c ∈ (longNote n).toList, c.toNat < 128 := by
    intro c hc
    rw [longNote, String.toList_ofList, List.mem_append] at hc
    rcases hc with hc | hc
    · rw [(List.mem_replicate.mp hc).2]
      decide
    · exact (forall_of_all (by decide +kernel) : ∀ c ∈ ".md".toList, c.toNat < 128) c hc
  rw [← String.ofList_toList (s := longNote n), len_ascii hchars, longNote, String.toList_ofList,
    List.length_append, List.length_replicate]
  rfl

theorem componentOk_longNote {limits : PathLimits} (hn : 5 ≤ n)
    (h : n + 3 ≤ limits.maxComponentBytes) : ComponentOk limits (longNote n) := by
  have hlist : (longNote n).toList = List.replicate n 'a' ++ ".md".toList := by
    rw [longNote, String.toList_ofList]
  have hlength : (longNote n).toList.length = n + 3 := by
    rw [hlist, List.length_append, List.length_replicate]
    rfl
  have hname : ∀ s : String, s.toList.length < 8 → longNote n ≠ s := by
    rintro s hs rfl
    omega
  have hlast : (longNote n).toList.getLast? = some 'd' := by
    rw [hlist, List.getLast?_append_of_ne_nil _ (by decide)]
    rfl
  refine ⟨⟨hname "" (by decide), hname "." (by decide), hname ".." (by decide)⟩, ?_,
    fun c hc => ?_, (len_longNote n).trans_le h, fun hres => ?_⟩
  · rw [hlast]
    decide
  · rw [hlist, List.mem_append] at hc
    rcases hc with hc | hc
    · rw [(List.mem_replicate.mp hc).2]
      decide
    · exact (forall_of_all (by decide +kernel) :
        ∀ c ∈ ".md".toList, forbiddenChar c = false) c hc
  · have hstem := (reservedStems_length _ hres).2
    have htake : (longNote n).toList.takeWhile (· != '.') = List.replicate n 'a' := by
      rw [hlist, List.takeWhile_append_of_pos fun c hc => by
        rw [(List.mem_replicate.mp hc).2]
        decide]
      exact List.append_nil _
    rw [length_stem, htake, List.length_replicate] at hstem
    omega

/-- Where the path limit leaves less than the directory takes, the note gets no path. -/
theorem allocateDocumentPaths_longNote {policy : CompilerPolicy}
    (h : policy.limits.maxPathBytes < n + 13) :
    ¬ ∃ paths conflicts, allocateDocumentPaths (plainCrates (plainExternals prefixHash)) policy
      (noteWorkspace (longNote n)) noteMap = .ok (paths, conflicts) := by
  rintro ⟨paths, conflicts, hok⟩
  obtain ⟨t, hrun, -⟩ := bind_eq_ok.mp hok
  have horder : allocationOrder (plainCrates (plainExternals prefixHash)).toExternals
      (noteWorkspace (longNote n)) noteMap = [plainNote "vault" (longNote n) 1] := by
    simp [allocationOrder, noteMap, noteWorkspace, sortedSet, get?]
  unfold allocateDocuments at hrun
  rw [horder, List.foldlM_cons, bind_eq_ok] at hrun
  obtain ⟨s, hstep, -⟩ := hrun
  obtain ⟨hvalid, -⟩ := allocateDocument_eq_ok hstep
  have hlen := (validateOutputLogicalPath_eq_ok.mp hvalid).1.length
  have hpreferred : len (preferredPath (plainNote "vault" (longNote n) 1)) = n + 13 := by
    rw [preferredPath, plainNote, len_append, len_longNote]
    show 10 + (n + 3) = n + 13
    omega
  rw [hpreferred] at hlen
  exact absurd (lt_of_lt_of_le h hlen) (lt_irrefl _)

end LongNote

/-- A note whose path is valid, and whose path below the directory is too long. -/
theorem prefixed_path_refused :
    tightPolicy.validate (plainCrates (plainExternals prefixHash)) = .ok () ∧
    validateSourcePathPair (plainExternals prefixHash) tightPolicy.pathLimits (longNote 70)
      (longNote 70) = .ok () ∧
    ¬ ∃ paths conflicts, allocateDocumentPaths (plainCrates (plainExternals prefixHash)) tightPolicy
      (noteWorkspace (longNote 70)) noteMap = .ok (paths, conflicts) :=
  ⟨validate_tightPolicy, validate_component (componentOk_longNote 70 (by decide) (by decide))
    ((len_longNote 70).trans_le (by decide)), allocateDocumentPaths_longNote 70 (by decide)⟩

end Okc.Core
