import Okc.Core.DocumentPaths

/-!
# Paths with a suffix (`plan.rs:3279-3331`, `snapshot.rs:1167-1233`)

`insert_suffix` cuts the stem of a name to what a suffix and the extension leave, and puts the
suffix between them. The extensions of documents, canvases and Bases are short, so there is always
room.

* `outputParts`: the components of a valid path.
* `insertSuffix_valid`: directory and extension stay, and the name stays a valid one in NFC.
-/

namespace Okc.Core

open Okc.Lib

/-! ## The components of a path -/

/-- The components of a valid output path. -/
theorem outputParts {X : Externals} {limits : PathLimits} {path : String}
    (h : validateOutputLogicalPath X limits path = .ok ()) :
    ∃ directory name, path = joinSlash (directory ++ [name]) ∧
      ∀ c ∈ directory ++ [name], ComponentOk limits c ∧ X.nfc c = c := by
  have hne := splitSlash_ne_nil path
  have hslash : ∀ c ∈ splitSlash path, '/' ∉ c.toList := fun c hc =>
    slash_not_mem_of_mem_splitSlash hc
  rw [← joinSlash_splitSlash path, validateOutput_joinSlash hne hslash] at h
  refine ⟨(splitSlash path).dropLast, (splitSlash path).getLast hne, ?_, ?_⟩
  · rw [List.dropLast_append_getLast, joinSlash_splitSlash]
  · rw [List.dropLast_append_getLast]
    exact h.1

/-! ## Suffixes of identities -/

theorem length_take_le_52 (hash : ContentHash) (length : Nat) :
    (hash.suffixBase32 length).toList.length ≤ 52 := by
  rw [ContentHash.suffixBase32, String.toList_ofList, List.length_take]
  omega

theorem len_identitySuffix_le (hash : ContentHash) (length : Nat) :
    len (identitySuffix hash length) ≤ 53 := by
  have hascii := fun c hc => (identitySuffix_chars hash length c hc).2.2.2
  have hlen := len_ascii hascii
  have hle := length_take_le_52 hash length
  rw [String.ofList_toList, identitySuffix, String.toList_append, List.length_append] at hlen
  rw [identitySuffix, hlen]
  have htilde : "~".toList.length = 1 := rfl
  omega

theorem utf8Size_toLower (c : Char) : c.toLower.utf8Size = c.utf8Size := by
  unfold Char.toLower
  split_ifs with h
  · have hlow : 65 ≤ c.toNat := h.1
    have hhigh : c.toNat ≤ 90 := h.2
    rw [utf8Size_ascii (c := c) (by omega), utf8Size_ascii]
    show (c.val + ('a'.val - 'A'.val)).toNat < 128
    have hval : c.val.toNat = c.toNat := rfl
    have hshift : ('a'.val - 'A'.val).toNat = 32 := rfl
    rw [UInt32.toNat_add, hval, hshift]
    omega
  · rfl

theorem len_asciiLower (s : String) : len (asciiLower s) = len s := by
  conv_rhs => rw [← String.ofList_toList (s := s)]
  rw [asciiLower, len_ofList, len_ofList, List.map_map]
  exact congrArg List.sum (List.map_congr_left fun c _ => utf8Size_toLower c)

/-- Documents, canvases and Bases have an extension of at most six bytes. -/
theorem exists_extension {path : String} (h : FileKind.classify path ≠ .asset) :
    ∃ ext, extension path = some ext ∧ len ext ≤ 6 := by
  have hword : ∀ word : String, len word ≤ 6 →
      ((extension path).any fun value => decide (asciiLower value = word)) = true →
        ∃ ext, extension path = some ext ∧ len ext ≤ 6 := by
    intro word hlen hany
    cases hext : extension path with
    | none => simp [hext] at hany
    | some ext =>
      rw [hext, Option.any_some, decide_eq_true_eq] at hany
      exact ⟨ext, rfl, by rw [← len_asciiLower, hany]; exact hlen⟩
  unfold FileKind.classify at h
  dsimp only at h
  split_ifs at h with hmd hcanvas hbase
  · exact hword "md" (by decide) hmd
  · exact hword "canvas" (by decide) hcanvas
  · exact hword "base" (by decide) hbase
  · exact absurd rfl h

/-! ## The name with its suffix -/

/-- The extension of a name with a suffix is that of the name. -/
theorem extension_suffixedName {limits : PathLimits} {name ext : String}
    (h : ComponentOk limits name) (hext : (splitDot name).2 = some ext) (hash : ContentHash)
    (length maximum : Nat) :
    splitDot (suffixedName name (identitySuffix hash length) maximum) =
      (String.ofList (truncateUtf8 (nameStem name).toList
        (maximum - (len (identitySuffix hash length) + len (dotExtension name)))) ++
          identitySuffix hash length, some ext) := by
  have hdot : dotExtension name = "." ++ ext := by
    rw [dotExtension, extension, h.singleName.fileName, Option.bind_some, hext, Option.map_some,
      Option.getD_some]
  -- the tilde is in the name, which so is neither empty nor two dots
  have htilde : ∀ kept rest s : String, '~' ∉ s.toList →
      kept ++ identitySuffix hash length ++ rest ≠ s := by
    rintro kept rest s hs rfl
    refine hs ?_
    rw [identitySuffix]
    simp
  rw [suffixedName, hdot, ← String.append_assoc]
  refine splitDot_extension ?_ (dot_not_mem_extension hext) ?_
  · have hbase := htilde (String.ofList (truncateUtf8 (nameStem name).toList
      (maximum - (len (identitySuffix hash length) + len ("." ++ ext))))) "" "" (by decide)
    rwa [String.append_empty] at hbase
  · rw [String.append_assoc]
    exact htilde _ _ _ (by decide)

/-- **`insert_suffix` keeps directory and extension, and the name stays a valid one in NFC**, for a
suffix of any length; the callers ask for 8 to 52 characters. -/
theorem insertSuffix_valid {X : Externals} (hX : NfcLaws X) {limits : PathLimits}
    (hlimit : 80 ≤ limits.maxComponentBytes) {path : String}
    (hvalid : validateOutputLogicalPath X limits path = .ok ())
    (hkind : FileKind.classify path ≠ .asset) (hash : ContentHash) (length : Nat) :
    let candidate := insertSuffix path (identitySuffix hash length) limits.maxComponentBytes
    parent candidate = parent path ∧ extension candidate = extension path ∧
      ∃ name, fileName candidate = some name ∧ len name ≤ limits.maxComponentBytes ∧
        validateComponent limits name = .ok () ∧ X.nfc name = name := by
  intro candidate
  obtain ⟨directory, name, rfl, hparts⟩ := outputParts hvalid
  have hcomponents : ∀ c ∈ directory ++ [name], ComponentOk limits c := fun c hc =>
    (hparts c hc).1
  obtain ⟨hname, hnfc⟩ := hparts name (List.mem_append_right _ List.mem_cons_self)
  obtain ⟨ext, hext, hlen⟩ := exists_extension hkind
  have hsplit : (splitDot name).2 = some ext := by
    rwa [extension, fileName_joinSlash hcomponents, Option.bind_some] at hext
  have hsuffix := len_identitySuffix_le hash length
  have hdot : len (dotExtension name) = len ext + 1 := by
    rw [dotExtension, extension, hname.singleName.fileName, Option.bind_some, hsplit,
      Option.map_some, Option.getD_some, len_append, Nat.add_comm]
    rfl
  have hok : ComponentOk limits
      (suffixedName name (identitySuffix hash length) limits.maxComponentBytes) :=
    (componentOk_suffixedName hname hash length).mpr (by omega)
  have hcandidate : candidate = joinSlash (directory ++
      [suffixedName name (identitySuffix hash length) limits.maxComponentBytes]) :=
    insertSuffix_joinSlash hcomponents _ _
  have hall : ∀ c ∈ directory ++
      [suffixedName name (identitySuffix hash length) limits.maxComponentBytes],
      ComponentOk limits c := by
    intro c hc
    rcases List.mem_append.mp hc with hc | hc
    · exact hcomponents c (List.mem_append_left _ hc)
    · exact List.mem_singleton.mp hc ▸ hok
  rw [hcandidate]
  refine ⟨?_, ?_, _, fileName_joinSlash hall, hok.length, validateComponent_eq_ok.mpr hok,
    nfc_suffixedName hX hname hnfc hash length _⟩
  · rw [parent_joinSlash hall, parent_joinSlash hcomponents]
  · rw [extension, fileName_joinSlash hall, Option.bind_some,
      extension_suffixedName hname hsplit, hext]

/-- The theorem at work on a note with two dots in its name. -/
theorem insertSuffix_valid_note :
    parent (insertSuffix "knowledge/notes/v1.2.md" (identitySuffix (indexHash 1) 8) 240) =
        parent "knowledge/notes/v1.2.md" ∧
      extension (insertSuffix "knowledge/notes/v1.2.md" (identitySuffix (indexHash 1) 8) 240) =
        extension "knowledge/notes/v1.2.md" ∧
      ∃ name, fileName (insertSuffix "knowledge/notes/v1.2.md"
          (identitySuffix (indexHash 1) 8) 240) = some name ∧ len name ≤ 240 ∧
        validateComponent CompilerPolicy.default.pathLimits name = .ok () ∧
        (plainExternals prefixHash).nfc name = name :=
  @insertSuffix_valid (plainExternals prefixHash) (nfcLaws_plain prefixHash)
    CompilerPolicy.default.pathLimits (by decide) _ (by decide +kernel) (by decide +kernel)
    (indexHash 1) 8

end Okc.Core
