import Okc.Core.Allocation

/-!
# Names of the output (`snapshot.rs:1142-1233`, `plan.rs:1728-1764`, `plan.rs:3298-3331`)

An output path is accepted when its components are valid, each its own NFC spelling, and it is
short enough. An attachment is named by its content hash and its basename, cut to what the limit of
a component leaves. The cut may drop the extension, and then nothing keeps the rest from ending in
a space or a dot.

* `validateOutput_joinSlash`: acceptance is a condition on the components.
* `longestWithin_truncateUtf8`: what `truncate_utf8` keeps.
* `allocateAssetPaths_iff`: the attachments get valid paths exactly when every cut name ends well and
  the paths fit.
-/

namespace Okc.Core

open Okc.Lib

/-- What is relied on of NFC: it is idempotent, leaves ASCII text and initial parts of normalised
text alone, and no character composes with a hyphen, a dot or a tilde. -/
structure NfcLaws (X : Externals) : Prop where
  idempotent : ∀ s, X.nfc (X.nfc s) = X.nfc s
  ascii : ∀ s : String, (∀ c ∈ s.toList, c.toNat < 128) → X.nfc s = s
  initial : ∀ s p : String, X.nfc s = s → p.toList <+: s.toList → X.nfc p = p
  mark : ∀ (a b : String) (c : Char), c ∈ ['-', '.', '~'] →
    X.nfc (a ++ String.ofList [c] ++ b) = X.nfc a ++ String.ofList [c] ++ X.nfc b

/-! ## Components -/

/-- What `validate_component` accepts. -/
structure ComponentOk (limits : PathLimits) (component : String) : Prop where
  name : component ≠ "" ∧ component ≠ "." ∧ component ≠ ".."
  last : component.toList.getLast? ≠ some ' ' ∧ component.toList.getLast? ≠ some '.'
  chars : ∀ c ∈ component.toList, forbiddenChar c = false
  length : len component ≤ limits.maxComponentBytes
  stem : stem component ∉ reservedStems

theorem validateComponent_eq_ok {limits : PathLimits} {component : String} :
    validateComponent limits component = .ok () ↔ ComponentOk limits component := by
  simp only [validateComponent, bind_unit_eq_ok, reject_eq_ok, not_or, List.any_eq_true,
    not_exists, not_and, Bool.not_eq_true, not_lt]
  exact ⟨fun h => ⟨⟨h.1.1, h.1.2.1, h.1.2.2.1⟩, ⟨h.1.2.2.2.1, h.1.2.2.2.2.1⟩, h.1.2.2.2.2.2,
    h.2.1, h.2.2⟩, fun h => ⟨⟨h.name.1, h.name.2.1, h.name.2.2, h.last.1, h.last.2, h.chars⟩,
    h.length, h.stem⟩⟩

theorem ComponentOk.slash {limits : PathLimits} {component : String}
    (h : ComponentOk limits component) : '/' ∉ component.toList := fun hmem =>
  absurd (h.chars '/' hmem) (by decide)

/-- **An output path is accepted when its components are valid and normalised and it fits.** -/
theorem validateOutput_joinSlash {X : Externals} {limits : PathLimits} {parts : List String}
    (hne : parts ≠ []) (hslash : ∀ c ∈ parts, '/' ∉ c.toList) :
    validateOutputLogicalPath X limits (joinSlash parts) = .ok () ↔
      (∀ c ∈ parts, ComponentOk limits c ∧ X.nfc c = c) ∧
        len (joinSlash parts) ≤ limits.maxPathBytes := by
  have hsplit := splitSlash_joinSlash hne hslash
  rw [validateOutputLogicalPath_eq_ok]
  constructor
  · rintro ⟨hwithin, hself⟩
    have hcomponent := hwithin.component
    rw [hsplit] at hcomponent hself
    have hnfcSlash : ∀ c ∈ parts.map X.nfc, '/' ∉ c.toList := by
      intro c hc
      obtain ⟨d, hd, rfl⟩ := List.mem_map.mp hc
      exact (validateComponent_eq_ok.mp (hcomponent d hd).2).slash
    have hnfc : parts.map X.nfc = parts := by
      calc parts.map X.nfc = splitSlash (joinSlash (parts.map X.nfc)) :=
            (splitSlash_joinSlash (by simpa using hne) hnfcSlash).symm
        _ = splitSlash (joinSlash parts) := by rw [hself]
        _ = parts := hsplit
    refine ⟨fun c hc => ⟨validateComponent_eq_ok.mp (hcomponent c hc).1, ?_⟩, hwithin.length⟩
    exact List.map_inj_left.mp (hnfc.trans (List.map_id _).symm) c hc
  · rintro ⟨hparts, hlen⟩
    have hnfc : parts.map X.nfc = parts :=
      (List.map_congr_left fun c hc => (hparts c hc).2).trans (List.map_id _)
    refine ⟨⟨fun c hc => ?_, hlen, ?_⟩, ?_⟩
    · rw [hsplit] at hc
      have hvalid := validateComponent_eq_ok.mpr (hparts c hc).1
      exact ⟨hvalid, by rw [(hparts c hc).2]; exact hvalid⟩
    · rw [hsplit, hnfc]
      exact hlen
    · rw [hsplit, hnfc]

/-! ## Cutting a name -/

/-- The longest initial part of a text within a number of bytes. -/
structure LongestWithin (budget : Nat) (text kept : String) : Prop where
  initial : kept.toList <+: text.toList
  fits : len kept ≤ budget
  longest : ∀ more : String, more.toList <+: text.toList → len more ≤ budget →
    more.toList <+: kept.toList

theorem LongestWithin.unique {budget : Nat} {text p q : String} (hp : LongestWithin budget text p)
    (hq : LongestWithin budget text q) : p = q := by
  have hpq := hq.longest p hp.initial hp.fits
  have hqp := hp.longest q hq.initial hq.fits
  exact String.toList_inj.mp (hpq.eq_of_length (hpq.length_le.antisymm hqp.length_le))

/-- **What `truncate_utf8` keeps.** -/
theorem longestWithin_truncateUtf8 (cs : List Char) (budget : Nat) :
    LongestWithin budget (String.ofList cs) (String.ofList (truncateUtf8 cs budget)) := by
  induction cs generalizing budget with
  | nil => exact ⟨by simp [truncateUtf8], by simp [truncateUtf8], fun _ h _ => by
      simpa [truncateUtf8] using h⟩
  | cons c cs ih =>
    unfold truncateUtf8
    split
    · next hfits =>
      have h := ih (budget - c.utf8Size)
      refine ⟨?_, ?_, fun more hmore hlen => ?_⟩
      · rw [String.toList_ofList, String.toList_ofList]
        exact List.cons_prefix_cons.mpr ⟨rfl, by simpa using h.initial⟩
      · have := h.fits
        rw [len_ofList_cons]
        omega
      · rw [String.toList_ofList] at hmore ⊢
        cases hm : more.toList with
        | nil => exact List.nil_prefix
        | cons x xs =>
          rw [hm] at hmore
          obtain ⟨rfl, hxs⟩ := List.cons_prefix_cons.mp hmore
          have hmoreLen : len more = x.utf8Size + len (String.ofList xs) := by
            rw [← len_ofList_cons, ← hm, String.ofList_toList]
          have := h.longest (String.ofList xs) (by simpa using hxs) (by omega)
          exact List.cons_prefix_cons.mpr ⟨rfl, by simpa using this⟩
    · next hfits =>
      refine ⟨by simp, by simp, fun more hmore hlen => ?_⟩
      rw [String.toList_ofList] at hmore ⊢
      cases hm : more.toList with
      | nil => exact List.nil_prefix
      | cons x xs =>
        rw [hm] at hmore
        obtain ⟨rfl, -⟩ := List.cons_prefix_cons.mp hmore
        have hmoreLen : len more = x.utf8Size + len (String.ofList xs) := by
          rw [← len_ofList_cons, ← hm, String.ofList_toList]
        omega

/-- The stem of a name, and the extension that a budget leaves it. -/
def nameStem (name : String) : String := (splitDot name).1

def keptExtension (budget : Nat) (name : String) : String :=
  if len (dotExtension name) < budget then dotExtension name else ""

/-- The parts of a name that is one component. -/
structure SingleName (name : String) : Prop where
  fileName : Lib.fileName name = some name
  ne_empty : name ≠ ""

theorem ComponentOk.singleName {limits : PathLimits} {name : String} (h : ComponentOk limits name) :
    SingleName name :=
  ⟨fileName_of_name h.slash h.name, h.name.1⟩

theorem SingleName.fileStem {name : String} (h : SingleName name) :
    Lib.fileStem name = some (nameStem name) := by
  rw [Lib.fileStem, h.fileName]
  rfl

theorem SingleName.append {name : String} (h : SingleName name) :
    nameStem name ++ dotExtension name = name := by
  rw [dotExtension, extension, h.fileName]
  exact splitDot_append name

theorem truncateFilename_long {name : String} {budget : Nat} (h : SingleName name)
    (hlong : budget < len name) :
    truncateFilename name budget = String.ofList
      (if truncateUtf8 (nameStem name).toList (budget - len (keptExtension budget name)) = [] then
        truncateUtf8 "asset".toList (budget - len (keptExtension budget name))
      else truncateUtf8 (nameStem name).toList (budget - len (keptExtension budget name))) ++
        keptExtension budget name := by
  unfold truncateFilename
  rw [if_neg (Nat.not_le.mpr hlong), h.fileStem, Option.getD_some]
  unfold keptExtension
  rfl

/-- **The name that is left.** -/
theorem truncateFilename_cut {name kept : String} {budget : Nat} (h : SingleName name)
    (hlong : budget < len name)
    (hkept : LongestWithin (budget - len (keptExtension budget name)) (nameStem name) kept) :
    truncateFilename name budget =
      (if kept = "" then
          String.ofList (truncateUtf8 "asset".toList (budget - len (keptExtension budget name)))
        else kept) ++ keptExtension budget name := by
  have htruncated : String.ofList (truncateUtf8 (nameStem name).toList
      (budget - len (keptExtension budget name))) = kept := by
    have hlongest := longestWithin_truncateUtf8 (nameStem name).toList
      (budget - len (keptExtension budget name))
    rw [String.ofList_toList] at hlongest
    exact hlongest.unique hkept
  rw [truncateFilename_long h hlong]
  generalize truncateUtf8 (nameStem name).toList
    (budget - len (keptExtension budget name)) = cut at htruncated ⊢
  generalize truncateUtf8 "asset".toList (budget - len (keptExtension budget name)) = other
  subst htruncated
  by_cases hnil : cut = []
  · rw [if_pos hnil, if_pos (String.ofList_eq_empty_iff.mpr hnil)]
  · rw [if_neg hnil, if_neg fun he => hnil (String.ofList_eq_empty_iff.mp he)]

/-! ## Attachments -/

/-- The bytes of `attachments/`, the directory, the hash and the hyphen. -/
def attachmentPrefixLength : Nat := 80

/-- The cut name ends well and its path fits. -/
structure AttachmentOk (limits : PathLimits) (name : String) : Prop where
  whole : len name ≤ limits.maxComponentBytes - 65 →
    attachmentPrefixLength + len name ≤ limits.maxPathBytes
  cut : ∀ kept, limits.maxComponentBytes - 65 < len name →
    LongestWithin (limits.maxComponentBytes - 65 -
      len (keptExtension (limits.maxComponentBytes - 65) name)) (nameStem name) kept →
    (keptExtension (limits.maxComponentBytes - 65) name = "" →
      kept.toList.getLast? ≠ some ' ' ∧ kept.toList.getLast? ≠ some '.') ∧
    attachmentPrefixLength +
      (if kept = "" then min 5 (limits.maxComponentBytes - 65 -
          len (keptExtension (limits.maxComponentBytes - 65) name)) else len kept) +
        len (keptExtension (limits.maxComponentBytes - 65) name) ≤ limits.maxPathBytes

theorem attachmentPath_eq (hash : ContentHash) (basename : String) :
    attachmentPath hash basename = joinSlash ["attachments",
      String.ofList (hash.hex.toList.take 2), hash.hex ++ "-" ++ basename] := by
  rw [joinSlash_cons_cons, joinSlash_cons_cons, joinSlash_singleton, attachmentPath]
  apply String.toList_inj.mp
  simp

theorem hexChar_ok : ∀ c ∈ "0123456789abcdef".toList,
    forbiddenChar c = false ∧ c ≠ '.' ∧ c ≠ ' ' ∧ c.toNat < 128 :=
  forall_of_all (by decide +kernel)

theorem utf8Size_ascii {c : Char} (h : c.toNat < 128) : c.utf8Size = 1 :=
  Char.utf8Size_eq_one_iff.mpr (by
    rw [UInt32.le_iff_toNat_le]
    exact Nat.le_of_lt_succ h)

theorem len_ascii {cs : List Char} (h : ∀ c ∈ cs, c.toNat < 128) :
    len (String.ofList cs) = cs.length := by
  induction cs with
  | nil => rfl
  | cons c cs ih =>
    rw [len_ofList_cons, ih fun d hd => h d (List.mem_cons_of_mem _ hd), List.length_cons,
      utf8Size_ascii (h c List.mem_cons_self)]
    omega

theorem length_asciiUpper (s : String) : (asciiUpper s).toList.length = s.toList.length := by
  rw [asciiUpper, String.toList_ofList, List.length_map]

theorem reservedStems_length : ∀ s ∈ reservedStems, 3 ≤ s.toList.length ∧ s.toList.length ≤ 4 := by
  decide +kernel

theorem length_stem (component : String) :
    (stem component).toList.length = (component.toList.takeWhile (· != '.')).length := by
  rw [stem, length_asciiUpper, String.toList_ofList]

section Attachment

variable {limits : PathLimits} (hash : ContentHash)

theorem hex_chars : ∀ c ∈ hash.hex.toList,
    forbiddenChar c = false ∧ c ≠ '.' ∧ c ≠ ' ' ∧ c.toNat < 128 := fun c hc =>
  hexChar_ok c (mem_hex hc)

theorem componentOk_attachments (h : 80 ≤ limits.maxComponentBytes) :
    ComponentOk limits "attachments" :=
  ⟨by decide, by decide, forall_of_all (by decide +kernel), le_trans (by decide) h,
    by decide +kernel⟩

theorem componentOk_hexDirectory (h : 80 ≤ limits.maxComponentBytes) :
    ComponentOk limits (String.ofList (hash.hex.toList.take 2)) := by
  have hlen : (hash.hex.toList.take 2).length = 2 := by
    rw [List.length_take, ContentHash.hex, length_hex, hash.length_bytes]
    rfl
  have hchars : ∀ c ∈ (String.ofList (hash.hex.toList.take 2)).toList, c ∈ hash.hex.toList := by
    intro c hc
    rw [String.toList_ofList] at hc
    exact List.mem_of_mem_take hc
  have hlast : ∀ c, (String.ofList (hash.hex.toList.take 2)).toList.getLast? = some c →
      c ≠ '.' ∧ c ≠ ' ' := fun c hc =>
    ⟨(hex_chars hash c (hchars c (List.mem_of_getLast? hc))).2.1,
      (hex_chars hash c (hchars c (List.mem_of_getLast? hc))).2.2.1⟩
  have hname : ∀ s : String, s.toList.length ≠ 2 ∨ s = ".." →
      String.ofList (hash.hex.toList.take 2) ≠ s := by
    rintro s hs rfl
    rw [String.toList_ofList, hlen] at hs
    rcases hs with hs | hs
    · exact hs rfl
    · have hdot : '.' ∈ (String.ofList (hash.hex.toList.take 2)).toList := by
        rw [hs]
        decide
      exact (hex_chars hash '.' (hchars '.' hdot)).2.1 rfl
  refine ⟨⟨hname "" (by decide), hname "." (by decide), hname ".." (by decide)⟩,
    ⟨fun hc => (hlast _ hc).2 rfl, fun hc => (hlast _ hc).1 rfl⟩,
    fun c hc => (hex_chars hash c (hchars c hc)).1, ?_, fun hres => ?_⟩
  · rw [len_ascii fun c hc => (hex_chars hash c (List.mem_of_mem_take hc)).2.2.2, hlen]
    exact le_trans (by decide) h
  · have := (reservedStems_length _ hres).1
    rw [length_stem] at this
    have := (List.takeWhile_prefix (· != '.')
      (l := (String.ofList (hash.hex.toList.take 2)).toList)).length_le
    rw [String.toList_ofList, hlen] at this
    rw [String.toList_ofList] at *
    omega

/-- The last component of an attachment's path is valid when the name ends well and fits. -/
theorem componentOk_attachment {name : String} (hne : name ≠ "")
    (hchars : ∀ c ∈ name.toList, forbiddenChar c = false)
    (hlen : 65 + len name ≤ limits.maxComponentBytes) :
    ComponentOk limits (hash.hex ++ "-" ++ name) ↔
      name.toList.getLast? ≠ some ' ' ∧ name.toList.getLast? ≠ some '.' := by
  have hlong : 65 ≤ (hash.hex ++ "-" ++ name).toList.length := by
    have hhex : hash.hex.toList.length = 64 := by
      rw [ContentHash.hex, length_hex, hash.length_bytes]
    have hmark : "-".toList.length = 1 := rfl
    rw [String.toList_append, String.toList_append, List.length_append, List.length_append, hhex,
      hmark]
    omega
  have hlast : (hash.hex ++ "-" ++ name).toList.getLast? = name.toList.getLast? := by
    rw [String.toList_append, List.getLast?_append_of_ne_nil]
    exact fun hnil => hne (String.toList_eq_nil_iff.mp hnil)
  have hstem : 65 ≤ (stem (hash.hex ++ "-" ++ name)).toList.length := by
    have hplain : ∀ c ∈ (hash.hex ++ "-").toList, (c != '.') = true := by
      intro c hc
      rw [String.toList_append, List.mem_append] at hc
      rcases hc with hc | hc
      · simpa using (hex_chars hash c hc).2.1
      · obtain rfl : c = '-' := by simpa using hc
        decide
    have hhex : (hash.hex ++ "-").toList.length = 65 := by
      rw [String.toList_append, List.length_append, ContentHash.hex, length_hex, hash.length_bytes]
      rfl
    rw [length_stem, String.toList_append, List.takeWhile_append_of_pos hplain, List.length_append,
      hhex]
    omega
  constructor
  · intro h
    rw [← hlast]
    exact h.last
  · intro hends
    have hname : ∀ s : String, s.toList.length < 65 → hash.hex ++ "-" ++ name ≠ s := by
      rintro s hs rfl
      omega
    refine ⟨⟨hname "" (by decide), hname "." (by decide), hname ".." (by decide)⟩, ?_, ?_, ?_, ?_⟩
    · rwa [hlast]
    · intro c hc
      rw [String.toList_append, String.toList_append, List.mem_append, List.mem_append] at hc
      rcases hc with (hc | hc) | hc
      · exact (hex_chars hash c hc).1
      · obtain rfl : c = '-' := by simpa using hc
        decide
      · exact hchars c hc
    · have hmark : len "-" = 1 := rfl
      rw [len_append, len_append, hash.len_hex, hmark]
      exact hlen
    · intro hres
      have := (reservedStems_length _ hres).2
      omega

theorem nfc_attachment {X : Externals} (hX : NfcLaws X) {name : String} (hname : X.nfc name = name) :
    X.nfc (hash.hex ++ "-" ++ name) = hash.hex ++ "-" ++ name := by
  have h := hX.mark hash.hex name '-' (by decide)
  rw [hX.ascii hash.hex fun c hc => (hex_chars hash c hc).2.2.2, hname] at h
  exact h

theorem len_attachmentPath (name : String) :
    len (attachmentPath hash name) = attachmentPrefixLength + len name := by
  have htake : len (String.ofList (hash.hex.toList.take 2)) = 2 := by
    rw [len_ascii fun c hc => (hex_chars hash c (List.mem_of_mem_take hc)).2.2.2,
      List.length_take, ContentHash.hex, length_hex, hash.length_bytes]
    rfl
  have hdir : len "attachments/" = 12 := by decide
  have hslash : len "/" = 1 := by decide
  have hmark : len "-" = 1 := by decide
  rw [attachmentPath, len_append, len_append, len_append, len_append, len_append, htake,
    hash.len_hex, hdir, hslash, hmark, attachmentPrefixLength]

/-- **The path of an attachment is accepted when its name ends well and it fits.** -/
theorem validate_attachmentPath {X : Externals} (hX : NfcLaws X)
    (hlimit : 80 ≤ limits.maxComponentBytes) {name : String} (hne : name ≠ "")
    (hchars : ∀ c ∈ name.toList, forbiddenChar c = false) (hname : X.nfc name = name)
    (hlen : 65 + len name ≤ limits.maxComponentBytes) :
    validateOutputLogicalPath X limits (attachmentPath hash name) = .ok () ↔
      (name.toList.getLast? ≠ some ' ' ∧ name.toList.getLast? ≠ some '.') ∧
        attachmentPrefixLength + len name ≤ limits.maxPathBytes := by
  have hdirectory := componentOk_hexDirectory hash hlimit
  have hslash : ∀ c ∈ ["attachments", String.ofList (hash.hex.toList.take 2),
      hash.hex ++ "-" ++ name], '/' ∉ c.toList := by
    intro c hc
    rcases List.mem_cons.mp hc with rfl | hc
    · decide
    · rcases List.mem_cons.mp hc with rfl | hc
      · exact hdirectory.slash
      · rw [List.mem_singleton.mp hc, String.toList_append, String.toList_append, List.mem_append,
          List.mem_append, not_or, not_or]
        refine ⟨⟨fun h => ?_, by decide⟩, fun h => ?_⟩
        · exact absurd (hex_chars hash '/' h).1 (by decide)
        · exact absurd (hchars '/' h) (by decide)
  have hhex : ∀ c ∈ (String.ofList (hash.hex.toList.take 2)).toList, c.toNat < 128 := by
    intro c hc
    rw [String.toList_ofList] at hc
    exact (hex_chars hash c (List.mem_of_mem_take hc)).2.2.2
  rw [← len_attachmentPath hash, attachmentPath_eq,
    validateOutput_joinSlash (List.cons_ne_nil _ _) hslash]
  refine and_congr_left fun _ => ?_
  rw [← componentOk_attachment hash hne hchars hlen]
  simp only [List.forall_mem_cons, List.not_mem_nil, false_implies, implies_true, and_true]
  constructor
  · exact fun h => h.2.2.1
  · intro h
    exact ⟨⟨componentOk_attachments hlimit, hX.ascii _ (forall_of_all (by decide))⟩,
      ⟨hdirectory, hX.ascii _ hhex⟩, h, nfc_attachment hash hX hname⟩

end Attachment

/-! ### The cut name -/

theorem truncateUtf8_ascii {cs : List Char} (h : ∀ c ∈ cs, c.toNat < 128) (budget : Nat) :
    truncateUtf8 cs budget = cs.take budget := by
  induction cs generalizing budget with
  | nil => simp [truncateUtf8]
  | cons c cs ih =>
    have hone := utf8Size_ascii (h c List.mem_cons_self)
    cases budget with
    | zero => simp [truncateUtf8, hone]
    | succ budget =>
      rw [truncateUtf8, hone, if_pos (by omega), ih fun d hd => h d (List.mem_cons_of_mem _ hd)]
      rfl

/-- What stands for a stem of which nothing fits. -/
def assetStem (budget : Nat) : String := String.ofList (truncateUtf8 "asset".toList budget)

theorem assetStem_eq (budget : Nat) : assetStem budget = String.ofList ("asset".toList.take budget) :=
  congrArg String.ofList (truncateUtf8_ascii (forall_of_all (by decide)) budget)

theorem len_assetStem (budget : Nat) : len (assetStem budget) = min 5 budget := by
  have hascii : ∀ c ∈ "asset".toList.take budget, c.toNat < 128 := fun c hc =>
    (forall_of_all (by decide) : ∀ c ∈ "asset".toList, c.toNat < 128) c (List.mem_of_mem_take hc)
  rw [assetStem_eq, len_ascii hascii, List.length_take, min_comm]
  rfl

/-- The characters of `asset`. -/
theorem assetStem_chars (budget : Nat) : ∀ c ∈ (assetStem budget).toList,
    forbiddenChar c = false ∧ c ≠ ' ' ∧ c ≠ '.' ∧ c.toNat < 128 := by
  intro c hc
  rw [assetStem_eq, String.toList_ofList] at hc
  exact (forall_of_all (by decide +kernel) : ∀ c ∈ "asset".toList,
    forbiddenChar c = false ∧ c ≠ ' ' ∧ c ≠ '.' ∧ c.toNat < 128) c (List.mem_of_mem_take hc)

/-- The extension that is kept: none, or all of it, which the name then ends in. -/
theorem keptExtension_cases (budget : Nat) (name : String) :
    keptExtension budget name = "" ∨ keptExtension budget name = dotExtension name ∧
      dotExtension name ≠ "" ∧ len (dotExtension name) < budget := by
  by_cases hempty : dotExtension name = ""
  · refine Or.inl ?_
    rw [keptExtension, hempty, ite_self]
  · unfold keptExtension
    split
    · next h => exact Or.inr ⟨rfl, hempty, h⟩
    · exact Or.inl rfl

/-- What a cut name is like. -/
structure CutName (X : Externals) (budget : Nat) (name : String) : Prop where
  ne_empty : name ≠ ""
  chars : ∀ c ∈ name.toList, forbiddenChar c = false
  nfc : X.nfc name = name
  length : len name ≤ budget

section Cut

variable {X : Externals} {limits : PathLimits} {name : String} {budget : Nat}

theorem nfc_dotExtension (hX : NfcLaws X) (h : SingleName name) (hnfc : X.nfc name = name)
    {stem : String} (hstem : X.nfc stem = stem) :
    X.nfc (stem ++ dotExtension name) = stem ++ dotExtension name := by
  have happend := h.append
  have hnameStem : X.nfc (nameStem name) = nameStem name :=
    hX.initial name _ hnfc ⟨(dotExtension name).toList, by rw [← String.toList_append, happend]⟩
  unfold dotExtension at happend ⊢
  cases hext : extension name with
  | none => rw [Option.map_none, Option.getD_none, String.append_empty, hstem]
  | some e =>
    rw [hext] at happend
    simp only [Option.map_some, Option.getD_some] at happend ⊢
    have hdot : "." = String.ofList ['.'] := rfl
    rw [hdot, ← String.append_assoc] at happend ⊢
    have hmark := hX.mark (nameStem name) e '.' (by decide)
    rw [happend, hnfc, hnameStem] at hmark
    have he : X.nfc e = e := ((String.append_right_inj _).mp (happend.trans hmark)).symm
    rw [hX.mark stem e '.' (by decide), hstem, he]

/-- The stem that is written. -/
def writtenStem (budget : Nat) (kept : String) : String :=
  if kept = "" then assetStem budget else kept

theorem cutName_cut (hX : NfcLaws X) (hname : ComponentOk limits name)
    (hnfc : X.nfc name = name) {kept : String} (hbudget : 4 ≤ budget)
    (hkept : LongestWithin (budget - len (keptExtension budget name)) (nameStem name) kept) :
    CutName X budget (writtenStem (budget - len (keptExtension budget name)) kept ++
      keptExtension budget name) := by
  have hsingle := hname.singleName
  have happend := hsingle.append
  have hlonger : len (keptExtension budget name) < budget := by
    rcases keptExtension_cases budget name with h | ⟨h, -, hlt⟩
    · rw [h]
      exact lt_of_lt_of_le (by decide) hbudget
    · rwa [h]
  have hstemChars : ∀ c ∈ kept.toList, c ∈ name.toList := by
    intro c hc
    rw [← happend, String.toList_append]
    exact List.mem_append_left _ (hkept.initial.subset hc)
  have hextChars : ∀ c ∈ (keptExtension budget name).toList, c ∈ name.toList := by
    intro c hc
    rcases keptExtension_cases budget name with h | ⟨h, -⟩
    · rw [h] at hc
      exact absurd hc List.not_mem_nil
    · rw [h] at hc
      rw [← happend, String.toList_append]
      exact List.mem_append_right _ hc
  have hwritten : writtenStem (budget - len (keptExtension budget name)) kept ≠ "" ∧
      (∀ c ∈ (writtenStem (budget - len (keptExtension budget name)) kept).toList,
        forbiddenChar c = false) ∧
      X.nfc (writtenStem (budget - len (keptExtension budget name)) kept) =
        writtenStem (budget - len (keptExtension budget name)) kept ∧
      len (writtenStem (budget - len (keptExtension budget name)) kept) ≤
        budget - len (keptExtension budget name) := by
    unfold writtenStem
    split
    · refine ⟨fun he => ?_, fun c hc => (assetStem_chars _ c hc).1,
        hX.ascii _ fun c hc => (assetStem_chars _ c hc).2.2.2, ?_⟩
      · have hlen := len_assetStem (budget - len (keptExtension budget name))
        rw [he] at hlen
        have hzero : len "" = 0 := rfl
        omega
      · rw [len_assetStem]
        exact min_le_right _ _
    · next hne =>
      have hinitial : kept.toList <+: name.toList := by
        rw [← happend, String.toList_append]
        exact hkept.initial.trans (List.prefix_append _ _)
      exact ⟨hne, fun c hc => hname.chars c (hstemChars c hc), hX.initial name kept hnfc hinitial,
        hkept.fits⟩
  obtain ⟨hne, hchars, hstemNfc, hlen⟩ := hwritten
  refine ⟨fun he => ?_, fun c hc => ?_, ?_, ?_⟩
  · rw [← String.toList_inj, String.toList_append] at he
    exact hne (String.toList_eq_nil_iff.mp (List.append_eq_nil_iff.mp he).1)
  · rw [String.toList_append, List.mem_append] at hc
    exact hc.elim (hchars c) fun hc => hname.chars c (hextChars c hc)
  · rcases keptExtension_cases budget name with h | ⟨h, -⟩
    · rw [h] at hstemNfc ⊢
      rw [String.append_empty, hstemNfc]
    · rw [h] at hstemNfc ⊢
      exact nfc_dotExtension hX hsingle hnfc hstemNfc
  · rw [len_append]
    omega

/-- How a cut name ends. -/
theorem cut_last (hname : ComponentOk limits name) {kept : String} (hbudget : 4 ≤ budget)
    (hkept : LongestWithin (budget - len (keptExtension budget name)) (nameStem name) kept) :
    ((writtenStem (budget - len (keptExtension budget name)) kept ++
        keptExtension budget name).toList.getLast? ≠ some ' ' ∧
      (writtenStem (budget - len (keptExtension budget name)) kept ++
        keptExtension budget name).toList.getLast? ≠ some '.') ↔
    (keptExtension budget name = "" →
      kept.toList.getLast? ≠ some ' ' ∧ kept.toList.getLast? ≠ some '.') := by
  rcases keptExtension_cases budget name with h | ⟨h, hempty, -⟩
  · rw [h, String.append_empty]
    simp only [true_imp_iff]
    -- within four bytes there is room for a first character
    have hne : kept ≠ "" := by
      rintro rfl
      obtain ⟨c, cs, hc⟩ := List.exists_cons_of_ne_nil
        (fun hnil => splitDot_ne_empty hname.name.1 (String.toList_eq_nil_iff.mp hnil) :
          (nameStem name).toList ≠ [])
      have hfits : len (String.ofList [c]) ≤ budget - len (keptExtension budget name) := by
        rw [h, len_ofList]
        have := c.utf8Size_le_four
        simpa using this.trans hbudget
      have := hkept.longest (String.ofList [c]) (by simp [hc]) hfits
      simp at this
    rw [writtenStem, if_neg hne]
  · have hlast : (writtenStem (budget - len (keptExtension budget name)) kept ++
        keptExtension budget name).toList.getLast? = name.toList.getLast? := by
      have hnil : (dotExtension name).toList ≠ [] := fun hnil =>
        hempty (String.toList_eq_nil_iff.mp hnil)
      conv_rhs => rw [← hname.singleName.append]
      rw [h, String.toList_append, String.toList_append, List.getLast?_append_of_ne_nil _ hnil,
        List.getLast?_append_of_ne_nil _ hnil]
    rw [hlast, h]
    exact iff_of_true hname.last fun he => absurd he hempty

end Cut

/-! ### All attachments -/

/-- The asset is named by its first occurrence, whose paths are accepted. -/
structure AssetAccepted (X : Externals) (limits : PathLimits) (asset : Asset)
    (source : SourceFile) : Prop where
  first : asset.canonicalSource = some source
  basename : asset.basename = sourceBasename source
  path : validateSourcePathPair X limits source.originalPath source.logicalPath = .ok ()

/-- The basename of an accepted path is a valid component in NFC. -/
theorem sourceBasename_ok {X : Externals} (hX : NfcLaws X) {limits : PathLimits}
    {source : SourceFile}
    (h : validateSourcePathPair X limits source.originalPath source.logicalPath = .ok ()) :
    ComponentOk limits (sourceBasename source) ∧
      X.nfc (sourceBasename source) = sourceBasename source := by
  obtain ⟨hwithin, hlogical⟩ := validateSourcePathPair_eq_ok.mp h
  have hparts : ∀ c ∈ (splitSlash source.originalPath).map X.nfc, ComponentOk limits c := by
    intro c hc
    obtain ⟨d, hd, rfl⟩ := List.mem_map.mp hc
    exact validateComponent_eq_ok.mp (hwithin.component d hd).2
  have hne : (splitSlash source.originalPath).map X.nfc ≠ [] := by
    simpa using splitSlash_ne_nil source.originalPath
  have hsplit : splitSlash source.logicalPath = (splitSlash source.originalPath).map X.nfc := by
    rw [hlogical]
    exact splitSlash_joinSlash hne fun c hc => (hparts c hc).slash
  have hlast : sourceBasename source =
      ((splitSlash source.originalPath).map X.nfc).getLast hne := by
    have hmem := List.getLast_mem hne
    rw [sourceBasename, fileName, pathParts_eq_self, hsplit,
      List.getLast?_eq_getLast_of_ne_nil hne, Option.filter_some_pos, Option.getD_some]
    · simpa using (hparts _ hmem).name.2.2
    · intro c hc
      rw [hsplit] at hc
      exact ⟨(hparts c hc).name.1, (hparts c hc).name.2.1⟩
  have hmem := List.getLast_mem hne
  rw [hlast]
  refine ⟨hparts _ hmem, ?_⟩
  obtain ⟨d, -, hd⟩ := List.mem_map.mp hmem
  rw [← hd, hX.idempotent]

/-- What a valid policy says about the limit of a component. -/
theorem maxComponentBytes_of_validate {X : Crates} {policy : CompilerPolicy}
    (h : policy.validate X = .ok ()) : 80 ≤ policy.limits.maxComponentBytes := by
  simp only [CompilerPolicy.validate, bind_unit_eq_ok, reject_eq_ok, not_or, not_lt] at h
  exact h.2.2.2.2.1.1

theorem attachment_of_cut {X : Externals} (hX : NfcLaws X) {limits : PathLimits}
    (hlimit : 80 ≤ limits.maxComponentBytes) {name : String} (hname : ComponentOk limits name)
    (hnfc : X.nfc name = name) (hash : ContentHash) :
    validateOutputLogicalPath X limits (attachmentPath hash
      (truncateFilename name (limits.maxComponentBytes - 65))) = .ok () ↔
        AttachmentOk limits name := by
  obtain ⟨budget, hbudget⟩ : ∃ n, limits.maxComponentBytes - 65 = n := ⟨_, rfl⟩
  have hroom : 4 ≤ budget := by omega
  by_cases hshort : len name ≤ budget
  · rw [hbudget, truncateFilename, if_pos hshort,
      validate_attachmentPath hash hX hlimit hname.name.1 hname.chars hnfc (by omega)]
    constructor
    · rintro ⟨-, hfits⟩
      exact ⟨fun _ => hfits, fun _ hlong => absurd hshort (by omega)⟩
    · intro h
      exact ⟨hname.last, h.whole (by omega)⟩
  · have hlong : budget < len name := by omega
    have hkept := longestWithin_truncateUtf8 (nameStem name).toList
      (budget - len (keptExtension budget name))
    rw [String.ofList_toList] at hkept
    generalize String.ofList (truncateUtf8 (nameStem name).toList
      (budget - len (keptExtension budget name))) = kept at hkept
    have hcut := cutName_cut hX hname hnfc hroom hkept
    have hwritten : truncateFilename name budget =
        writtenStem (budget - len (keptExtension budget name)) kept ++ keptExtension budget name :=
      truncateFilename_cut hname.singleName hlong hkept
    have hlen : len (writtenStem (budget - len (keptExtension budget name)) kept) =
        if kept = "" then min 5 (budget - len (keptExtension budget name)) else len kept := by
      unfold writtenStem
      split
      · exact len_assetStem _
      · rfl
    have hfits := hcut.length
    rw [hbudget, hwritten, validate_attachmentPath hash hX hlimit hcut.ne_empty hcut.chars hcut.nfc
      (by omega), cut_last hname hroom hkept, len_append, hlen, ← Nat.add_assoc]
    constructor
    · rintro ⟨hlast, hpath⟩
      refine ⟨fun h => absurd h (by omega), fun other _ hother => ?_⟩
      rw [hbudget] at hother ⊢
      rw [hother.unique hkept]
      exact ⟨hlast, hpath⟩
    · intro h
      have := h.cut kept (by omega)
      rw [hbudget] at this
      exact this hkept

/-- What one attachment is given, if its path is accepted. -/
theorem allocateAsset_eq_ok {X : Crates} {policy : CompilerPolicy}
    (hp : policy.validate X = .ok ()) {entry : AssetId × Asset} {source : SourceFile}
    (hsource : entry.2.canonicalSource = some source) {r : (AssetId × String) × List Diagnostic} :
    allocateAsset X policy entry = .ok r ↔
      validateOutputLogicalPath X.toExternals policy.pathLimits
        (attachmentPath source.contentHash (truncateFilename entry.2.basename
          (policy.limits.maxComponentBytes - 65))) = .ok () ∧
      r = ((entry.1, attachmentPath source.contentHash (truncateFilename entry.2.basename
          (policy.limits.maxComponentBytes - 65))),
        truncationDiagnostics (truncateFilename entry.2.basename
          (policy.limits.maxComponentBytes - 65)) entry.2.basename source.logicalPath) := by
  have hlimit := maxComponentBytes_of_validate hp
  have hroom : ¬ policy.limits.maxComponentBytes ≤ 64 + 1 := by omega
  unfold allocateAsset
  rw [hsource]
  simp only [ContentHash.len_hex, bind_unit_eq_ok, reject_eq_ok, hroom, not_false_eq_true,
    true_and, Except.ok.injEq, @eq_comm _ r]

/-- **The attachments get valid paths exactly when every cut name ends well and the paths fit.** -/
theorem allocateAssetPaths_iff {X : Crates} (hX : NfcLaws X.toExternals) {policy : CompilerPolicy}
    (hp : policy.validate X = .ok ()) {w : CanonicalWorkspace}
    (hkeys : (w.assets.map Prod.fst).Nodup)
    (hassets : ∀ e ∈ w.assets, ∃ source,
      AssetAccepted X.toExternals policy.pathLimits e.2 source) :
    (∃ paths diagnostics, allocateAssetPaths X policy w = .ok (paths, diagnostics) ∧
      ∀ e ∈ w.assets, ∃ destination, get? e.1 paths = some destination ∧
        validateOutputLogicalPath X.toExternals policy.pathLimits destination = .ok ()) ↔
      ∀ e ∈ w.assets, AttachmentOk policy.pathLimits e.2.basename := by
  have hone : ∀ e ∈ w.assets, (∃ r, allocateAsset X policy e = .ok r) ↔
      AttachmentOk policy.pathLimits e.2.basename := by
    intro e he
    obtain ⟨source, hasset⟩ := hassets e he
    obtain ⟨hname, hnfc⟩ := sourceBasename_ok hX hasset.path
    rw [← hasset.basename] at hname hnfc
    simp only [allocateAsset_eq_ok hp hasset.first, exists_and_left, exists_eq, and_true]
    exact attachment_of_cut hX (maxComponentBytes_of_validate hp) hname hnfc source.contentHash
  constructor
  · rintro ⟨paths, diagnostics, h, -⟩ e he
    obtain ⟨allocated, hmap, -⟩ := bind_eq_ok.mp h
    obtain ⟨r, -, hr⟩ := mem_of_mapM_left hmap he
    exact (hone e he).mp ⟨r, hr⟩
  · intro h
    obtain ⟨allocated, hmap⟩ := mapM_isOk fun e he => (hone e he).mpr (h e he)
    have hids : (allocated.map Prod.fst).map Prod.fst = w.assets.map Prod.fst := by
      rw [List.map_map]
      refine map_of_mapM hmap fun e he r hr => ?_
      obtain ⟨source, hasset⟩ := hassets e he
      rw [((allocateAsset_eq_ok hp hasset.first).mp hr).2]
      rfl
    refine ⟨_, _, by rw [allocateAssetPaths, hmap]; rfl, fun e he => ?_⟩
    obtain ⟨source, hasset⟩ := hassets e he
    obtain ⟨r, hmem, hr⟩ := mem_of_mapM_left hmap he
    obtain ⟨hvalid, rfl⟩ := (allocateAsset_eq_ok hp hasset.first).mp hr
    refine ⟨_, get?_of_mem (sorted_collect _).nodup ?_, hvalid⟩
    rw [(collect_perm (hids ▸ hkeys)).mem_iff]
    exact List.mem_map.mpr ⟨_, hmem, rfl⟩

/-- The laws hold of text that is its own NFC spelling. -/
theorem nfcLaws_plain (sha256 : Bytes → ContentHash) : NfcLaws (plainExternals sha256) :=
  ⟨fun _ => rfl, fun _ _ => rfl, fun _ _ _ _ => rfl, fun _ _ _ _ => rfl⟩

/-- A file of the vault. -/
def plainFile (path : String) (kind : FileKind) : SourceFile where
  sourceId := ⟨"vault"⟩
  snapshotId := ⟨indexHash 0⟩
  fileId := ⟨indexHash 1⟩
  originalPath := path
  logicalPath := path
  kind := kind
  byteLen := 2
  rawSha256 := (indexHash 1).hex
  contentHash := indexHash 1

/-- A workspace of one attachment. -/
def attachmentWorkspace (path : String) : CanonicalWorkspace where
  documents := []
  canvases := []
  assets := [(⟨indexHash 1⟩, .fromSource ⟨indexHash 1⟩ (plainFile path .asset))]
  bases := []

theorem allocateAssetPaths_iff_photo :
    (∃ paths diagnostics,
      allocateAssetPaths (plainCrates (plainExternals prefixHash)) .default
        (attachmentWorkspace "photo.png") = .ok (paths, diagnostics) ∧
      ∀ e ∈ (attachmentWorkspace "photo.png").assets, ∃ destination,
        get? e.1 paths = some destination ∧
        validateOutputLogicalPath (plainExternals prefixHash) CompilerPolicy.default.pathLimits
          destination = .ok ()) ↔
      ∀ e ∈ (attachmentWorkspace "photo.png").assets,
        AttachmentOk CompilerPolicy.default.pathLimits e.2.basename :=
  allocateAssetPaths_iff (X := plainCrates (plainExternals prefixHash)) (nfcLaws_plain prefixHash)
    (validate_default (fun _ => rfl) fun _ => rfl) (by decide) fun e he => by
      rw [List.mem_singleton.mp he]
      exact ⟨plainFile "photo.png" .asset, rfl, rfl, by decide +kernel⟩

/-! ### A name whose cut ends in a space -/

/-- A path of one component. -/
theorem validate_component {limits : PathLimits} {name : String} (h : ComponentOk limits name)
    (hpath : len name ≤ limits.maxPathBytes) :
    validateSourcePathPair (plainExternals prefixHash) limits name name = .ok () := by
  have hok := validateComponent_eq_ok.mpr h
  have hsplit : splitSlash name = [name] := by
    conv_lhs => rw [← joinSlash_singleton name]
    exact splitSlash_joinSlash (List.cons_ne_nil _ _) fun c hc => by
      rw [List.mem_singleton.mp hc]
      exact h.slash
  have hjoin : joinSlash ([name].map (plainExternals prefixHash).nfc) = name :=
    joinSlash_singleton name
  refine validateSourcePathPair_eq_ok.mpr ⟨⟨fun c hc => ?_, hpath, ?_⟩, ?_⟩
  · rw [hsplit] at hc
    rw [List.mem_singleton.mp hc]
    exact ⟨hok, hok⟩
  · rwa [hsplit, hjoin]
  · rw [hsplit, hjoin]

/-- Letters, a space and a word. -/
def longBasename (n : Nat) : String := String.ofList (List.replicate n 'a' ++ " final".toList)

section LongBasename

variable (n : Nat)

theorem longBasename_chars : ∀ c ∈ (longBasename n).toList,
    forbiddenChar c = false ∧ c ≠ '.' ∧ c.toNat < 128 := by
  intro c hc
  have hmem : c ∈ "a final".toList := by
    rw [longBasename, String.toList_ofList, List.mem_append] at hc
    rcases hc with hc | hc
    · rw [(List.mem_replicate.mp hc).2]
      decide
    · exact List.mem_cons_of_mem _ hc
  exact (forall_of_all (by decide +kernel) : ∀ c ∈ "a final".toList,
    forbiddenChar c = false ∧ c ≠ '.' ∧ c.toNat < 128) c hmem

theorem length_longBasename : (longBasename n).toList.length = n + 6 := by
  rw [longBasename, String.toList_ofList, List.length_append, List.length_replicate]
  rfl

theorem len_longBasename : len (longBasename n) = n + 6 := by
  rw [← length_longBasename n, ← len_ascii fun c hc => (longBasename_chars n c hc).2.2,
    String.ofList_toList]

theorem splitDot_longBasename : splitDot (longBasename n) = (longBasename n, none) := by
  unfold splitDot
  exact if_pos (Or.inr (Or.inl fun hdot => (longBasename_chars n '.' hdot).2.1 rfl))

theorem componentOk_longBasename {limits : PathLimits} (h : n + 6 ≤ limits.maxComponentBytes) :
    ComponentOk limits (longBasename n) := by
  have hname : ∀ s : String, s.toList.length < 6 → longBasename n ≠ s := by
    rintro s hs rfl
    rw [length_longBasename] at hs
    omega
  have hlast : (longBasename n).toList.getLast? = some 'l' := by
    rw [longBasename, String.toList_ofList, List.getLast?_append_of_ne_nil _ (by decide)]
    rfl
  refine ⟨⟨hname "" (by decide), hname "." (by decide), hname ".." (by decide)⟩, ?_,
    fun c hc => (longBasename_chars n c hc).1, ?_, fun hres => ?_⟩
  · rw [hlast]
    decide
  · rwa [len_longBasename]
  · have hstem := (reservedStems_length _ hres).2
    have hall : (longBasename n).toList.takeWhile (· != '.') = (longBasename n).toList :=
      List.takeWhile_eq_self_iff.mpr fun c hc => by simpa using (longBasename_chars n c hc).2.1
    rw [length_stem, hall, length_longBasename] at hstem
    omega

theorem validate_longBasename {limits : PathLimits} (hcomponent : n + 6 ≤ limits.maxComponentBytes)
    (hpath : n + 6 ≤ limits.maxPathBytes) : validateSourcePathPair (plainExternals prefixHash)
      limits (longBasename n) (longBasename n) = .ok () :=
  validate_component (componentOk_longBasename n hcomponent) (by rwa [len_longBasename])

theorem keptExtension_longBasename (budget : Nat) : keptExtension budget (longBasename n) = "" := by
  have hok : ComponentOk ⟨0, n + 6⟩ (longBasename n) :=
    componentOk_longBasename n (le_refl (n + 6))
  have hdot : dotExtension (longBasename n) = "" := by
    rw [dotExtension, extension, fileName_of_name hok.slash hok.name, Option.bind_some,
      splitDot_longBasename]
    rfl
  rw [keptExtension, hdot, ite_self]

/-- Where the budget ends at the space, the cut name does not end well. -/
theorem longBasename_cut {limits : PathLimits} (h : limits.maxComponentBytes = n + 66) :
    ¬ AttachmentOk limits (longBasename n) := by
  have hbudget : limits.maxComponentBytes - 65 = n + 1 := by omega
  have hext := keptExtension_longBasename n (n + 1)
  have hstem : nameStem (longBasename n) = longBasename n := by
    rw [nameStem, splitDot_longBasename]
  have hkept : LongestWithin (n + 1) (longBasename n)
      (String.ofList (List.replicate n 'a' ++ [' '])) := by
    have hlongest := longestWithin_truncateUtf8 (longBasename n).toList (n + 1)
    rw [truncateUtf8_ascii (fun c hc => (longBasename_chars n c hc).2.2),
      String.ofList_toList] at hlongest
    have htake : (longBasename n).toList.take (n + 1) = List.replicate n 'a' ++ [' '] := by
      rw [longBasename, String.toList_ofList, List.take_append, List.length_replicate,
        List.take_of_length_le (by rw [List.length_replicate]; omega), Nat.add_sub_cancel_left]
      rfl
    rwa [htake] at hlongest
  intro hok
  have hcut := (hok.cut (String.ofList (List.replicate n 'a' ++ [' ']))
    (by rw [hbudget, len_longBasename]; omega)
    (by rw [hbudget, hext, hstem]; exact hkept)).1
  rw [hbudget] at hcut
  refine (hcut hext).1 ?_
  rw [String.toList_ofList, List.getLast?_append_of_ne_nil _ (by decide)]
  rfl

/-- An attachment whose cut name does not end well gets no path. -/
theorem allocateAssetPaths_longBasename {policy : CompilerPolicy}
    (hp : policy.validate (plainCrates (plainExternals prefixHash)) = .ok ())
    (h : policy.limits.maxComponentBytes = n + 66) :
    ¬ ∃ paths diagnostics, allocateAssetPaths (plainCrates (plainExternals prefixHash)) policy
      (attachmentWorkspace (longBasename n)) = .ok (paths, diagnostics) := by
  rintro ⟨paths, diagnostics, hok⟩
  have hroom : n + 6 ≤ policy.pathLimits.maxComponentBytes := le_trans (by omega) h.ge
  have hcomponent := componentOk_longBasename n hroom
  have hbasename : sourceBasename (plainFile (longBasename n) .asset) = longBasename n := by
    have hfile := fileName_of_name hcomponent.slash hcomponent.name
    rw [sourceBasename, plainFile, hfile, Option.getD_some]
  obtain ⟨allocated, hmap, -⟩ := bind_eq_ok.mp hok
  obtain ⟨r, -, hr⟩ := mem_of_mapM_left hmap List.mem_cons_self
  have hvalid := ((allocateAsset_eq_ok hp rfl).mp hr).1
  have hcut : ¬ AttachmentOk policy.pathLimits (longBasename n) := longBasename_cut n h
  refine hcut ((attachment_of_cut (nfcLaws_plain prefixHash) (maxComponentBytes_of_validate hp)
    hcomponent rfl (indexHash 1)).mp ?_)
  rw [← hbasename]
  exact hvalid

end LongBasename

/-- The cut leaves the space at the end, and no attachment gets a path. -/
theorem attachment_refused :
    CompilerPolicy.validate (plainCrates (plainExternals prefixHash)) .default = .ok () ∧
    validateSourcePathPair (plainExternals prefixHash) CompilerPolicy.default.pathLimits
      (longBasename 174) (longBasename 174) = .ok () ∧
    ¬ ∃ paths diagnostics, allocateAssetPaths (plainCrates (plainExternals prefixHash)) .default
      (attachmentWorkspace (longBasename 174)) = .ok (paths, diagnostics) := by
  have hp : CompilerPolicy.validate (plainCrates (plainExternals prefixHash)) .default = .ok () :=
    validate_default (fun _ => rfl) fun _ => rfl
  exact ⟨hp, validate_longBasename 174 (by decide) (by decide),
    allocateAssetPaths_longBasename 174 hp (by decide)⟩

end Okc.Core
