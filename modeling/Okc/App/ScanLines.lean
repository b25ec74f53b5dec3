import Okc.Lib.SearchSeparated
import Okc.App.Scanner

/-!
# The scanner goes line by line (`project_state.rs:1111-1222`)

What the scanner finds in a text that a newline divides: what it finds in the part before it, and
what it finds in the part after it, that much further on. No detector looks across a newline.

* A marker's token ends at the newline, if not before (`tokenEnd_eq`).
* The pieces in which e-mail addresses are looked for end at it: the last piece before it keeps its
  token, and a piece that is the newline alone has none (`emailsFrom_newline`).
* It stands in no telephone number.

Results:
* `scanMarker_newline`, `scanEmailLike_newline`, `scanPhoneLike_newline`: one for each detector.
* `Exact`: what a range spans. `exact_of_mem_scan…`: every range a detector reports is exact.
* **`scanSensitiveRanges_lines`**: the scan of a text, from the scans of its parts.
-/

namespace Okc.App

open Okc.Lib Okc.Core

/-- The finding, so many bytes further on. -/
def shift (k : Nat) (r : SensitiveCategory × Nat × Nat) : SensitiveCategory × Nat × Nat :=
  (r.1, r.2.1 + k, r.2.2 + k)

/-- The range spans a text that is not empty, from one character boundary to another. -/
def Exact (text : String) (r : SensitiveCategory × Nat × Nat) : Prop :=
  ∃ before span after, text = before ++ span ++ after ∧ span ≠ "" ∧ r.2.1 = len before ∧
    r.2.2 = len (before ++ span)

theorem Exact.of_toList {text : String} {category : SensitiveCategory}
    {before span after : List Char} (h : text.toList = before ++ span ++ after)
    (hspan : span ≠ []) :
    Exact text (category, extent Char.utf8Size before, extent Char.utf8Size (before ++ span)) := by
  refine ⟨String.ofList before, String.ofList span, String.ofList after, ?_, ?_, ?_, ?_⟩
  · rw [← String.ofList_append, ← String.ofList_append, ← h, String.ofList_toList]
  · exact fun he => hspan (by simpa using congrArg String.toList he)
  · exact extent_utf8 before
  · rw [← String.ofList_append]
    exact extent_utf8 _

theorem toList_newline (a b : String) :
    (a ++ "\n" ++ b).toList = a.toList ++ '\n' :: b.toList := by
  simp

theorem extent_newline (a : String) :
    0 + extent Char.utf8Size a.toList + Char.utf8Size '\n' = 0 + (len a + 1) := by
  rw [extent_toList]
  rfl

/-! ## Markers -/

/-- The token after a marker. -/
def tokenOf (category : SensitiveCategory) (after : List Char) : List Char :=
  if category = .privateKey then [] else after.takeWhile fun c => !endsToken c

/-- A token ends where the characters that make it up do. -/
theorem tokenEnd_eq {text : String} {category : SensitiveCategory} {before marker after : List Char}
    (ht : text.toList = before ++ marker ++ after) :
    tokenEnd text (extent Char.utf8Size before) (extent Char.utf8Size marker) category after =
      extent Char.utf8Size before + extent Char.utf8Size marker +
        extent Char.utf8Size (tokenOf category after) := by
  have hlen : len text = extent Char.utf8Size before + extent Char.utf8Size marker +
      extent Char.utf8Size after := by
    rw [← extent_toList, ht, extent_append, extent_append]
  unfold tokenEnd tokenOf
  by_cases hp : category = .privateKey
  · rw [if_pos hp, if_pos hp, extent_nil]
    omega
  rw [if_neg hp, if_neg hp]
  by_cases hany : after.any endsToken = true
  · rw [if_pos hany]
  · have hall : after.takeWhile (fun c => !endsToken c) = after :=
      List.takeWhile_eq_self_iff.mpr fun c hc => by
        by_contra hend
        exact hany (List.any_eq_true.mpr ⟨c, hc, by simpa using hend⟩)
    rw [if_neg hany, hall, hlen]

/-- What the marker loop makes of an occurrence. -/
def markerHit (category : SensitiveCategory) (width : Nat) (m : Nat × List Char) :
    Option (SensitiveCategory × Nat × Nat) :=
  if tokenOf category m.2 ≠ [] ∨ category = .privateKey then
    some (category, m.1, m.1 + width + extent Char.utf8Size (tokenOf category m.2))
  else none

theorem extent_pos {cs : List Char} : 0 < extent Char.utf8Size cs ↔ cs ≠ [] := by
  cases cs with
  | nil => simp
  | cons c cs =>
    rw [extent_cons]
    exact iff_of_true (Nat.add_pos_left (Char.utf8Size_pos c) _) (List.cons_ne_nil c cs)

theorem scanMarker_eq (category : SensitiveCategory) (marker text : String) :
    scanMarker category marker text =
      (matchesFrom Char.utf8Size marker.toList 0 0 text.toList).filterMap
        (markerHit category (len marker)) := by
  unfold scanMarker
  refine List.filterMap_congr fun m hm => ?_
  obtain ⟨before, ht, ho⟩ := mem_matches hm
  have hend : tokenEnd text m.1 (len marker) category m.2 =
      m.1 + len marker + extent Char.utf8Size (tokenOf category m.2) := by
    rw [ho, Nat.zero_add, ← extent_toList marker]
    exact tokenEnd_eq ht
  have hcond : (m.1 + len marker < tokenEnd text m.1 (len marker) category m.2 ∨
      category = .privateKey) ↔ (tokenOf category m.2 ≠ [] ∨ category = .privateKey) := by
    rw [hend, ← extent_pos]
    exact or_congr ⟨fun h => by omega, fun h => by omega⟩ Iff.rfl
  unfold markerHit
  dsimp only
  rw [if_congr hcond rfl rfl, hend]

theorem markerHit_shift (category : SensitiveCategory) (width k : Nat) (m : Nat × List Char) :
    markerHit category width (m.1 + k, m.2) = (markerHit category width m).map (shift k) := by
  unfold markerHit
  dsimp only
  split
  · rw [Option.map_some, shift]
    dsimp only
    congr 3
    omega
  · rfl

theorem endsToken_newline : endsToken '\n' = true := by decide

/-- A token does not go on after a newline. -/
theorem tokenOf_newline (category : SensitiveCategory) (after rest : List Char) :
    tokenOf category (after ++ '\n' :: rest) = tokenOf category after := by
  unfold tokenOf
  rw [takeWhile_append_sep (by rw [endsToken_newline]; rfl)]

theorem newline_not_mem_marker : ∀ m ∈ markers, '\n' ∉ m.2.toList := by decide

/-- **Markers are found line by line.** -/
theorem scanMarker_newline {category : SensitiveCategory} {marker : String}
    (hm : (category, marker) ∈ markers) (a b : String) :
    scanMarker category marker (a ++ "\n" ++ b) =
      scanMarker category marker a ++ (scanMarker category marker b).map (shift (len a + 1)) := by
  have hstart : matchesFrom Char.utf8Size marker.toList 0 0 (a.toList ++ '\n' :: b.toList) = _ :=
    matchesFrom_append (newline_not_mem_marker _ hm) (marker_ne_nil _ hm)
      (Nat.zero_le a.toList.length) b.toList
  rw [extent_newline, matchesFrom_add] at hstart
  rw [scanMarker_eq, scanMarker_eq, scanMarker_eq, toList_newline, hstart, List.filterMap_append,
    List.filterMap_map, List.filterMap_map, List.map_filterMap]
  refine congrArg₂ _ (List.filterMap_congr fun m _ => ?_) (List.filterMap_congr fun m _ => ?_)
  · unfold markerHit
    simp only [Function.comp_apply, tokenOf_newline]
  · exact markerHit_shift category (len marker) (len a + 1) m

theorem exact_of_mem_scanMarker {category : SensitiveCategory} {marker text : String}
    {r : SensitiveCategory × Nat × Nat} (hm : (category, marker) ∈ markers)
    (h : r ∈ scanMarker category marker text) : Exact text r := by
  rw [scanMarker_eq] at h
  obtain ⟨m, hmem, hhit⟩ := List.mem_filterMap.mp h
  obtain ⟨before, ht, ho⟩ := mem_matches hmem
  unfold markerHit at hhit
  split at hhit
  · obtain rfl := Option.some.inj hhit
    obtain ⟨rest, hrest⟩ : tokenOf category m.2 <+: m.2 := by
      unfold tokenOf
      split
      · exact List.nil_prefix
      · exact List.takeWhile_prefix _
    have hspan : marker.toList ++ tokenOf category m.2 ≠ [] := fun he =>
      marker_ne_nil _ hm (List.append_eq_nil_iff.mp he).1
    have htext : text.toList = before ++ (marker.toList ++ tokenOf category m.2) ++ rest := by
      rw [ht]
      simp [hrest]
    have hx : Exact text (category, _, _) := Exact.of_toList htext hspan
    rw [extent_append, extent_append, extent_toList, ← Nat.add_assoc] at hx
    rw [ho, Nat.zero_add]
    exact hx
  · cases hhit

/-! ## E-mail addresses -/

theorem isWhitespace_newline : isWhitespace '\n' = true := by decide

/-- The newline that ends a piece is no part of its token. -/
theorem emailIn_newline (offset : Nat) (piece : List Char) :
    emailIn offset (piece ++ ['\n']) = emailIn offset piece := by
  unfold emailIn
  rw [List.rdropWhile_concat_pos _ _ _ isWhitespace_newline]

theorem emailIn_shift (k offset : Nat) (piece : List Char) :
    emailIn (offset + k) piece = (emailIn offset piece).map (shift k) := by
  unfold emailIn
  dsimp only
  rw [findSub_add]
  cases findSub Char.utf8Size ['@'] 0 _ with
  | none => rfl
  | some ate =>
    cases findSub Char.utf8Size _ offset _ with
    | none => rfl
    | some start =>
      dsimp only [Option.map_some]
      split
      · rw [Option.map_some, shift]
        dsimp only
        congr 3
        omega
      · rfl

theorem emailsFrom_shift (k offset : Nat) (pieces : List (List Char)) :
    emailsFrom (offset + k) pieces = (emailsFrom offset pieces).map (shift k) := by
  induction pieces generalizing offset with
  | nil => rfl
  | cons piece pieces ih =>
    have hnext : offset + k + extent Char.utf8Size piece =
        offset + extent Char.utf8Size piece + k := by omega
    rw [emailsFrom, emailsFrom, emailIn_shift, List.map_append, ← ih, hnext]
    cases emailIn offset piece <;> rfl

theorem emailsFrom_append (offset : Nat) (front back : List (List Char)) :
    emailsFrom offset (front ++ back) =
      emailsFrom offset front ++ emailsFrom (offset + extent Char.utf8Size front.flatten) back := by
  induction front generalizing offset with
  | nil => rfl
  | cons piece front ih =>
    rw [List.cons_append, emailsFrom, emailsFrom, ih, List.flatten_cons, extent_append,
      List.append_assoc, Nat.add_assoc]

/-- A newline after a text adds no token to it. -/
theorem emailsFrom_newline (offset : Nat) (cs : List Char) :
    emailsFrom offset (splitInclusive isWhitespace (cs ++ ['\n'])) =
      emailsFrom offset (splitInclusive isWhitespace cs) := by
  induction cs using pieces_induction (p := isWhitespace) generalizing offset with
  | nil => rfl
  | body body hbody hne =>
    rw [splitInclusive_cons hbody isWhitespace_newline, splitInclusive_body hbody hne, emailsFrom,
      emailsFrom, emailIn_newline]
    rfl
  | piece body c rest hbody hc ih =>
    rw [List.append_assoc, List.cons_append, splitInclusive_cons hbody hc,
      splitInclusive_cons hbody hc, emailsFrom, emailsFrom, ih]

/-- **E-mail addresses are found line by line.** -/
theorem scanEmailLike_newline (a b : String) :
    scanEmailLike (a ++ "\n" ++ b) =
      scanEmailLike a ++ (scanEmailLike b).map (shift (len a + 1)) := by
  have hextent : 0 + extent Char.utf8Size (a.toList ++ ['\n']) = 0 + (len a + 1) := by
    rw [extent_append, extent_toList]
    rfl
  unfold scanEmailLike
  rw [toList_newline, splitInclusive_append isWhitespace_newline, emailsFrom_append,
    emailsFrom_newline, flatten_splitInclusive, hextent, emailsFrom_shift]

theorem emailIn_of_mem_emailsFrom {offset : Nat} {pieces : List (List Char)}
    {r : SensitiveCategory × Nat × Nat} (h : r ∈ emailsFrom offset pieces) :
    ∃ front piece back, pieces = front ++ piece :: back ∧
      emailIn (offset + extent Char.utf8Size front.flatten) piece = some r := by
  induction pieces generalizing offset with
  | nil => cases h
  | cons piece pieces ih =>
    rcases List.mem_append.mp h with h | h
    · exact ⟨[], piece, pieces, rfl, by simpa using h⟩
    · obtain ⟨front, found, back, rfl, hin⟩ := ih h
      refine ⟨piece :: front, found, back, rfl, ?_⟩
      rw [List.flatten_cons, extent_append, ← Nat.add_assoc]
      exact hin

theorem dropWhile_of_forall {body : List Char} (h : ∀ c ∈ body, isWhitespace c = false) :
    body.dropWhile isWhitespace = body := by
  cases body with
  | nil => rfl
  | cons c cs => rw [List.dropWhile_cons_of_neg (by simp [h c List.mem_cons_self])]

/-- The token of a piece begins with it: what is trimmed stands at its end. -/
theorem token_prefix {piece cs : List Char} (h : piece ∈ splitInclusive isWhitespace cs) :
    (piece.rdropWhile isWhitespace).dropWhile isWhitespace <+: piece := by
  obtain ⟨body, tail, rfl, hbody, htail⟩ := piece_spec h
  have hlast : body.rdropWhile isWhitespace = body := by
    rw [List.rdropWhile_eq_self_iff]
    intro hne
    simp [hbody _ (List.getLast_mem hne)]
  rcases htail with rfl | ⟨c, rfl, hc⟩
  · rw [List.append_nil, hlast, dropWhile_of_forall hbody]
  · rw [List.rdropWhile_concat_pos _ _ _ hc, hlast, dropWhile_of_forall hbody]
    exact List.prefix_append body [c]

/-- An e-mail address stands in its token, at the place reported. -/
theorem emailIn_eq_some {offset : Nat} {piece cs : List Char} {r : SensitiveCategory × Nat × Nat}
    (hpiece : piece ∈ splitInclusive isWhitespace cs) (h : emailIn offset piece = some r) :
    ∃ before span after, piece = before ++ span ++ after ∧ span ≠ [] ∧
      r = (.emailAddress, offset + extent Char.utf8Size before,
        offset + extent Char.utf8Size before + extent Char.utf8Size span) := by
  obtain ⟨rest, htoken⟩ := token_prefix hpiece
  unfold emailIn at h
  dsimp only at h
  generalize (piece.rdropWhile isWhitespace).dropWhile isWhitespace = token at h htoken
  generalize (token.rdropWhile trimsToken).dropWhile trimsToken = clean at h
  split at h
  · rename_i ate start hat hstart
    split at h
    · obtain rfl := Option.some.inj h
      obtain ⟨before, after, rfl, rfl⟩ := findSub_eq_some hstart
      obtain ⟨user, domain, rfl, -⟩ := findSub_eq_some hat
      refine ⟨before, _, after ++ rest, ?_, ?_, rfl⟩
      · rw [← htoken]
        simp
      · simp
    · cases h
  · cases h

theorem exact_of_mem_scanEmailLike {text : String} {r : SensitiveCategory × Nat × Nat}
    (h : r ∈ scanEmailLike text) : Exact text r := by
  obtain ⟨front, piece, back, hpieces, hin⟩ := emailIn_of_mem_emailsFrom h
  have hpiece : piece ∈ splitInclusive isWhitespace text.toList := by
    rw [hpieces]
    simp
  obtain ⟨before, span, after, rfl, hspan, rfl⟩ := emailIn_eq_some hpiece hin
  have htext : text.toList =
      (front.flatten ++ before) ++ span ++ (after ++ back.flatten) := by
    rw [← flatten_splitInclusive (p := isWhitespace) text.toList, hpieces]
    simp
  have hx : Exact text (.emailAddress, _, _) := Exact.of_toList htext hspan
  rw [extent_append, extent_append, extent_append] at hx
  rw [Nat.zero_add]
  exact hx

/-! ## Telephone numbers -/

/-- What the telephone loop makes of a run. -/
def phoneHit (r : Nat × List Char) : Option (SensitiveCategory × Nat × Nat) :=
  if 10 ≤ (r.2.filter Char.isDigit).length then
    some (.phoneNumber, r.1, r.1 + extent Char.utf8Size r.2)
  else none

theorem phoneHit_shift (k : Nat) (r : Nat × List Char) :
    phoneHit (r.1 + k, r.2) = (phoneHit r).map (shift k) := by
  unfold phoneHit
  dsimp only
  split
  · rw [Option.map_some, shift]
    dsimp only
    congr 3
    omega
  · rfl

/-- **Telephone numbers are found line by line.** -/
theorem scanPhoneLike_newline (a b : String) :
    scanPhoneLike (a ++ "\n" ++ b) =
      scanPhoneLike a ++ (scanPhoneLike b).map (shift (len a + 1)) := by
  have hruns : runsFrom Char.utf8Size opensPhone inPhone 0 0 (a.toList ++ '\n' :: b.toList) = _ :=
    runsFrom_append (by decide) (by decide) (Nat.zero_le a.toList.length) b.toList
  rw [extent_newline, runsFrom_add] at hruns
  unfold scanPhoneLike
  rw [toList_newline, hruns, List.filterMap_append, List.filterMap_map, List.map_filterMap]
  exact congrArg _ (List.filterMap_congr fun r _ => phoneHit_shift (len a + 1) r)

theorem exact_of_mem_scanPhoneLike {text : String} {r : SensitiveCategory × Nat × Nat}
    (h : r ∈ scanPhoneLike text) : Exact text r := by
  obtain ⟨run, hrun, hhit⟩ := List.mem_filterMap.mp h
  obtain ⟨-, before, after, ht, ho⟩ := mem_runs hrun
  split at hhit
  · rename_i hten
    obtain rfl := Option.some.inj hhit
    have hspan : run.2 ≠ [] := by
      intro hnil
      rw [hnil] at hten
      simp at hten
    have hx : Exact text (.phoneNumber, _, _) := Exact.of_toList ht hspan
    rw [extent_append] at hx
    rw [ho, Nat.zero_add]
    exact hx
  · cases hhit

/-! ## The scan -/

theorem mem_scanSensitiveRanges_newline (a b : String) (r : SensitiveCategory × Nat × Nat) :
    r ∈ scanSensitiveRanges (a ++ "\n" ++ b) ↔
      r ∈ scanSensitiveRanges a ∨ ∃ s ∈ scanSensitiveRanges b, r = shift (len a + 1) s := by
  have hmarkers : (∃ m ∈ markers, r ∈ scanMarker m.1 m.2 (a ++ "\n" ++ b)) ↔
      (∃ m ∈ markers, r ∈ scanMarker m.1 m.2 a) ∨
        ∃ s, (∃ m ∈ markers, s ∈ scanMarker m.1 m.2 b) ∧ shift (len a + 1) s = r := by
    constructor
    · rintro ⟨m, hm, hr⟩
      rw [scanMarker_newline hm, List.mem_append, List.mem_map] at hr
      rcases hr with hr | ⟨s, hs, he⟩
      · exact Or.inl ⟨m, hm, hr⟩
      · exact Or.inr ⟨s, ⟨m, hm, hs⟩, he⟩
    · rintro (⟨m, hm, hr⟩ | ⟨s, ⟨m, hm, hs⟩, he⟩)
      · refine ⟨m, hm, ?_⟩
        rw [scanMarker_newline hm]
        exact List.mem_append_left _ hr
      · refine ⟨m, hm, ?_⟩
        rw [scanMarker_newline hm]
        exact List.mem_append_right _ (List.mem_map.mpr ⟨s, hs, he⟩)
  rw [mem_scanSensitiveRanges, hmarkers, scanEmailLike_newline, scanPhoneLike_newline,
    mem_scanSensitiveRanges]
  simp only [List.mem_append, List.mem_map, mem_scanSensitiveRanges]
  constructor
  · rintro ((h | ⟨s, hs, rfl⟩) | (h | ⟨s, hs, rfl⟩) | (h | ⟨s, hs, rfl⟩))
    · exact Or.inl (Or.inl h)
    · exact Or.inr ⟨s, Or.inl hs, rfl⟩
    · exact Or.inl (Or.inr (Or.inl h))
    · exact Or.inr ⟨s, Or.inr (Or.inl hs), rfl⟩
    · exact Or.inl (Or.inr (Or.inr h))
    · exact Or.inr ⟨s, Or.inr (Or.inr hs), rfl⟩
  · rintro ((h | h | h) | ⟨s, h | h | h, rfl⟩)
    · exact Or.inl (Or.inl h)
    · exact Or.inr (Or.inl (Or.inl h))
    · exact Or.inr (Or.inr (Or.inl h))
    · exact Or.inl (Or.inr ⟨s, h, rfl⟩)
    · exact Or.inr (Or.inl (Or.inr ⟨s, h, rfl⟩))
    · exact Or.inr (Or.inr (Or.inr ⟨s, h, rfl⟩))

theorem exact_of_mem_scanSensitiveRanges {text : String} {r : SensitiveCategory × Nat × Nat}
    (h : r ∈ scanSensitiveRanges text) : Exact text r := by
  rcases mem_scanSensitiveRanges.mp h with ⟨m, hm, h⟩ | h | h
  · exact exact_of_mem_scanMarker hm h
  · exact exact_of_mem_scanEmailLike h
  · exact exact_of_mem_scanPhoneLike h

/-- The document whose blocks these are, each on lines of its own. -/
def joinBlocks : List String → String
  | [] => ""
  | [block] => block
  | block :: blocks => block ++ "\n" ++ joinBlocks blocks

/-- What a scan of the blocks one by one finds, each finding where it stands in the document. -/
def blockRanges : List String → List (SensitiveCategory × Nat × Nat)
  | [] => []
  | block :: blocks =>
    scanSensitiveRanges block ++ (blockRanges blocks).map (shift (len block + 1))

theorem scanSensitiveRanges_nil : scanSensitiveRanges "" = [] := by decide +kernel

theorem mem_blockRanges (blocks : List String) (r : SensitiveCategory × Nat × Nat) :
    r ∈ scanSensitiveRanges (joinBlocks blocks) ↔ r ∈ blockRanges blocks := by
  induction blocks generalizing r with
  | nil => rw [joinBlocks, scanSensitiveRanges_nil, blockRanges]
  | cons block blocks ih =>
    cases blocks with
    | nil => rw [joinBlocks, blockRanges, blockRanges, List.map_nil, List.append_nil]
    | cons next blocks =>
      rw [joinBlocks, mem_scanSensitiveRanges_newline, blockRanges, List.mem_append, List.mem_map]
      · simp only [ih, eq_comm]
      · exact List.cons_ne_nil next blocks

/-- **The scanner goes line by line, and its ranges are exact.** What it finds in two texts with a
newline between them is what it finds in the first and, that much further on, in the second; every
range spans a text that is not empty, from one character boundary of the text to another; and what
it finds in a document it finds block by block. -/
theorem scanSensitiveRanges_lines :
    (∀ a b r, r ∈ scanSensitiveRanges (a ++ "\n" ++ b) ↔
      r ∈ scanSensitiveRanges a ∨ ∃ s ∈ scanSensitiveRanges b, r = shift (len a + 1) s) ∧
    (∀ text, ∀ r ∈ scanSensitiveRanges text, Exact text r) ∧
    ∀ blocks r, r ∈ scanSensitiveRanges (joinBlocks blocks) ↔ r ∈ blockRanges blocks :=
  ⟨mem_scanSensitiveRanges_newline, fun _ _ h => exact_of_mem_scanSensitiveRanges h,
    mem_blockRanges⟩

end Okc.App
