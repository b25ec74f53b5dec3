import Okc.Lib.Path
import Okc.Core.LinkTarget
import Okc.Core.Bulk

/-!
# Suggested source IDs (`workspace_bootstrap.rs:324-393`, `source.rs:18-35`)

A discovered Vault is named after its file: the ASCII letters and digits of the stem in lower case,
with `-` for what is between them. A name that two candidates share is told apart by a hash of the
path, and so is one of which nothing is left. A dot counts as a letter here, so that a name of which
one or two dots are left becomes `.` or `..`, which are no source IDs.

* `asciiComponent_eq`: what is left of a name, with its separators collapsed.
* `sourceIdNew_isOk`: a suggested ID is accepted unless it is `.` or `..`.
* `nodup_suggested`: the suggested IDs are distinct.
* `assignSourceIds_iff`: all are accepted iff no candidate is alone with such a name.
-/

namespace Okc.App

open Okc.Lib Okc.Core

/-! ## File names -/

/-- `str::eq_ignore_ascii_case`. -/
def eqIgnoreAsciiCase (s t : String) : Bool := asciiLower s == asciiLower t

def isZip (path : String) : Bool := (extension path).any fun value => eqIgnoreAsciiCase value "zip"

def isTarZst (path : String) : Bool :=
  ((extension path).any fun value => eqIgnoreAsciiCase value "tzst") ||
    (((extension path).any fun value => eqIgnoreAsciiCase value "zst") &&
      ((fileStem path).bind extension).any fun value => eqIgnoreAsciiCase value "tar")

/-- A character that `ascii_component` keeps. -/
def isKept (c : Char) : Bool := c.isAlphanum || c == '_' || c == '.'

/-- The loop of `ascii_component`. The bytes of a character that is not ASCII do nothing. -/
def componentLoop : Bool → List Char → List Char → List Char
  | _, output, [] => output
  | separator, output, c :: cs =>
    if isKept c then componentLoop false (output ++ [c.toLower]) cs
    else if c.toNat < 128 ∧ separator = false ∧ output ≠ [] then
      componentLoop true (output ++ ['-']) cs
    else componentLoop separator output cs

def asciiComponent (value : String) : String :=
  let output := (componentLoop false [] value.toList).rdropWhile (· == '-')
  if output = [] then "source" else String.ofList (output.take 96)

/-- `short_path_hash`. -/
def shortPathHash (X : Externals) (path : String) : String :=
  String.ofList ((X.fromDomainBytes "okc:workspace-path:v3\x00" (utf8 path)).hex.toList.take 10)

/-- The name that `proposed_source_id` starts from. -/
def sourceName (path : String) : String :=
  ((if isTarZst path then (fileStem path).bind fileStem else fileStem path).or
    (fileName path)).getD "source"

def proposedSourceId (X : Externals) (path : String) : String :=
  let name := sourceName path
  let ascii := asciiComponent name
  if ascii = "source" ∧ ¬ eqIgnoreAsciiCase name "source" then
    "source-" ++ shortPathHash X path
  else ascii

/-! ## Candidates -/

inductive VaultCandidateKind
  | directory
  | zip
  | tarZst
deriving DecidableEq

structure VaultCandidate where
  path : String
  kind : VaultCandidateKind
  suggestedSourceId : String
deriving DecidableEq

/-- `base_counts`. -/
def baseCounts (bases : List String) : List (String × Nat) :=
  bases.foldl (fun counts base => insertKey base ((get? base counts).getD 0 + 1) counts) []

def assignSourceIds (X : Externals) (candidates : List (String × VaultCandidateKind)) :
    List VaultCandidate :=
  let counts := baseCounts (candidates.map fun c => proposedSourceId X c.1)
  candidates.map fun (path, kind) =>
    let base := proposedSourceId X path
    { path := path
      kind := kind
      suggestedSourceId :=
        if 1 < (get? base counts).getD 0 then base ++ "-" ++ shortPathHash X path else base }

theorem get?_baseCounts (bases : List String) (base : String) :
    (get? base (baseCounts bases)).getD 0 = bases.count base := by
  induction bases using List.reverseRecOn with
  | nil => rfl
  | append_singleton bases last ih =>
    rw [baseCounts, List.foldl_append, List.foldl_cons, List.foldl_nil, List.count_append,
      List.count_singleton]
    by_cases h : last = base
    · rw [h, get?_insertKey_self, if_pos (beq_self_eq_true base), Option.getD_some, ← baseCounts, ih]
    · rw [get?_insertKey_ne _ _ h, if_neg (by simpa using h), Nat.add_zero, ← baseCounts, ih]

/-! ## What is left of a name -/

def isAscii (c : Char) : Bool := c.toNat < 128

/-- The ASCII characters of a name in lower case. -/
def loweredAscii (name : String) : List Char := (name.toList.filter isAscii).map Char.toLower

/-- The ASCII characters of a name, from the first that is kept to the last. -/
def remainder (name : String) : List Char :=
  ((name.toList.filter isAscii).dropWhile fun c => !isKept c).rdropWhile fun c => !isKept c

/-- Characters in lower case, with `-` for those that are not kept, one for each run of them. -/
def dashed : Bool → List Char → List Char
  | _, [] => []
  | separator, c :: cs =>
    if isKept c then c.toLower :: dashed false cs
    else if separator then dashed true cs
    else '-' :: dashed true cs

theorem isAscii_of_isKept {c : Char} (h : isKept c = true) : isAscii c = true := by
  have hle : ∀ {d : Char}, c ≤ d → d.toNat < 128 → isAscii c = true := fun hcd hd =>
    decide_eq_true ((Char.le_def.mp hcd : c.toNat ≤ _).trans_lt hd)
  simp only [isKept, Bool.or_eq_true, beq_iff_eq, Char.isAlphanum, Char.isAlpha, Char.isUpper,
    Char.isLower, Char.isDigit, Bool.and_eq_true, decide_eq_true_eq] at h
  rcases h with (((⟨-, h⟩ | ⟨-, h⟩) | ⟨-, h⟩) | rfl) | rfl
  · exact hle (d := 'Z') h (by decide)
  · exact hle (d := 'z') h (by decide)
  · exact hle (d := '9') h (by decide)
  · decide
  · decide

theorem isKept_toLower {c : Char} (h : isKept c = true) : isKept c.toLower = true := by
  simp only [isKept, Bool.or_eq_true, beq_iff_eq] at h ⊢
  rcases h with (h | rfl) | rfl
  · refine Or.inl (Or.inl ?_)
    by_cases halpha : c.isAlpha
    · rw [Char.isAlphanum, Char.isAlpha_toLower_eq_isAlpha, halpha, Bool.true_or]
    · rwa [toLower_eq_self (by rwa [Char.isAlpha_toLower_eq_isAlpha])]
  · decide
  · decide

theorem toLower_eq_dot {c : Char} (h : c.toLower = '.') : c = '.' :=
  (toLower_eq_self (by rw [h]; decide)).symm.trans h

theorem componentLoop_filter (separator : Bool) (output cs : List Char) :
    componentLoop separator output cs = componentLoop separator output (cs.filter isAscii) := by
  induction cs generalizing separator output with
  | nil => rfl
  | cons c cs ih =>
    by_cases hascii : isAscii c
    · rw [List.filter_cons_of_pos hascii, componentLoop, componentLoop]
      simp only [← ih]
    · have hkept : ¬ isKept c := fun h => hascii (isAscii_of_isKept h)
      have hhigh : ¬ c.toNat < 128 := by simpa [isAscii] using hascii
      rw [List.filter_cons_of_neg hascii, componentLoop, if_neg hkept,
        if_neg fun h => hhigh h.1, ih]

theorem componentLoop_started {cs : List Char} (hcs : ∀ c ∈ cs, isAscii c = true)
    {output : List Char} (h : output ≠ []) (separator : Bool) :
    componentLoop separator output cs = output ++ dashed separator cs := by
  induction cs generalizing separator output with
  | nil => rw [componentLoop, dashed, List.append_nil]
  | cons c cs ih =>
    have hrest : ∀ d ∈ cs, isAscii d = true := fun d hd => hcs d (List.mem_cons_of_mem _ hd)
    have hc : c.toNat < 128 := of_decide_eq_true (hcs c List.mem_cons_self)
    rw [componentLoop, dashed]
    by_cases hkept : isKept c
    · rw [if_pos hkept, if_pos hkept, ih hrest (List.append_ne_nil_of_left_ne_nil h _),
        List.append_assoc, List.singleton_append]
    · rw [if_neg hkept, if_neg hkept]
      cases separator with
      | false =>
        rw [if_pos ⟨hc, rfl, h⟩, ih hrest (List.append_ne_nil_of_left_ne_nil h _),
          List.append_assoc, List.singleton_append]
        rfl
      | true => rw [if_neg (by simp), ih hrest h, if_pos rfl]

theorem componentLoop_eq {cs : List Char} (hcs : ∀ c ∈ cs, isAscii c = true) :
    componentLoop false [] cs = dashed false (cs.dropWhile fun c => !isKept c) := by
  induction cs with
  | nil => rfl
  | cons c cs ih =>
    have hrest : ∀ d ∈ cs, isAscii d = true := fun d hd => hcs d (List.mem_cons_of_mem _ hd)
    rw [componentLoop]
    by_cases hkept : isKept c
    · rw [if_pos hkept, List.dropWhile_cons_of_neg (by simp [hkept]), List.nil_append,
        componentLoop_started hrest (List.cons_ne_nil _ _), dashed, if_pos hkept]
      rfl
    · rw [if_neg hkept, if_neg (by simp), List.dropWhile_cons_of_pos (by simp [hkept]), ih hrest]

theorem dashed_concat {c : Char} (separator : Bool) (cs : List Char) :
    ∃ last, dashed separator (cs ++ [c]) = dashed separator cs ++ last ∧
      (isKept c = true → last = [c.toLower]) ∧
      (¬ isKept c = true → last = [] ∨ last = ['-']) := by
  induction cs generalizing separator with
  | nil =>
    refine ⟨dashed separator [c], rfl, fun h => ?_, fun h => ?_⟩
    · rw [dashed, if_pos h]
      rfl
    · rw [dashed, if_neg h]
      cases separator with
      | false => exact Or.inr rfl
      | true => exact Or.inl rfl
  | cons d cs ih =>
    rw [List.cons_append, dashed, dashed]
    split
    · obtain ⟨last, heq, hlast⟩ := ih false
      exact ⟨last, by rw [heq, List.cons_append], hlast⟩
    · split
      · exact ih true
      · obtain ⟨last, heq, hlast⟩ := ih true
        exact ⟨last, by rw [heq, List.cons_append], hlast⟩

theorem rdropWhile_dashed (separator : Bool) (cs : List Char) :
    (dashed separator cs).rdropWhile (· == '-') =
      dashed separator (cs.rdropWhile fun c => !isKept c) := by
  induction cs using List.reverseRecOn with
  | nil => rfl
  | append_singleton cs c ih =>
    obtain ⟨last, heq, hletter, hother⟩ := dashed_concat (c := c) separator cs
    by_cases hkept : isKept c
    · have hdash : ¬ (c.toLower == '-') = true := fun h => by
        have hlower := isKept_toLower hkept
        rw [beq_iff_eq.mp h] at hlower
        exact absurd hlower (by decide)
      rw [List.rdropWhile_concat_neg _ _ _ (by simp [hkept]), heq, hletter hkept]
      exact List.rdropWhile_concat_neg _ _ _ hdash
    · rw [List.rdropWhile_concat_pos _ _ _ (by simp [hkept]), ← ih, heq]
      rcases hother hkept with rfl | rfl
      · rw [List.append_nil]
      · rw [List.rdropWhile_concat_pos _ _ _ (by simp)]

/-- **`ascii_component` collapses what is left of a name.** -/
theorem asciiComponent_eq (name : String) :
    asciiComponent name =
      if dashed false (remainder name) = [] then "source"
      else String.ofList ((dashed false (remainder name)).take 96) := by
  have hloop : (componentLoop false [] name.toList).rdropWhile (· == '-') =
      dashed false (remainder name) := by
    rw [componentLoop_filter, componentLoop_eq fun c hc => (List.mem_filter.mp hc).2,
      rdropWhile_dashed]
    rfl
  rw [asciiComponent, hloop]

/-! ## Acceptance -/

theorem mem_dashed {separator : Bool} {cs : List Char} {c : Char} (h : c ∈ dashed separator cs) :
    isKept c = true ∨ c = '-' := by
  induction cs generalizing separator with
  | nil => cases h
  | cons d cs ih =>
    rw [dashed] at h
    split_ifs at h with hd hs
    · rcases List.mem_cons.mp h with rfl | h
      · exact Or.inl (isKept_toLower hd)
      · exact ih h
    · exact ih h
    · rcases List.mem_cons.mp h with rfl | h
      · exact Or.inr rfl
      · exact ih h

/-- A text that stands for a source ID, up to its length and the two names of directories. -/
structure IdText (limit : Nat) (text : String) : Prop where
  nonempty : text ≠ ""
  short : text.toList.length ≤ limit
  chars : ∀ c ∈ text.toList, isKept c = true ∨ c = '-'

theorem IdText.append {m n : Nat} {s t : String} (hs : IdText m s) (ht : IdText n t) :
    IdText (m + n) (s ++ t) := by
  refine ⟨fun h => hs.nonempty (String.append_eq_empty_iff.mp h).1, ?_, fun c hc => ?_⟩
  · rw [String.toList_append, List.length_append]
    exact Nat.add_le_add hs.short ht.short
  · rw [String.toList_append, List.mem_append] at hc
    exact hc.elim (hs.chars c) (ht.chars c)

theorem IdText.mono {m n : Nat} {s : String} (h : IdText m s) (hmn : m ≤ n) : IdText n s :=
  ⟨h.nonempty, h.short.trans hmn, h.chars⟩

theorem idText_asciiComponent (name : String) : IdText 96 (asciiComponent name) := by
  rw [asciiComponent_eq]
  split_ifs with h
  · exact ⟨by decide, by decide, forall_of_all (by decide)⟩
  · refine ⟨fun hnil => ?_, ?_, fun c hc => ?_⟩
    · rw [String.ofList_eq_empty_iff, List.take_eq_nil_iff] at hnil
      exact hnil.elim (by decide) h
    · rw [String.toList_ofList]
      exact List.length_take_le _ _
    · rw [String.toList_ofList] at hc
      exact mem_dashed (List.mem_of_mem_take hc)

theorem length_shortPathHash (X : Externals) (path : String) :
    (shortPathHash X path).toList.length = 10 := by
  rw [shortPathHash, String.toList_ofList, List.length_take, ContentHash.hex, length_hex,
    ContentHash.length_bytes]
  rfl

theorem hexDigit_kept : ∀ c ∈ "0123456789abcdef".toList, isKept c = true :=
  forall_of_all (by decide +kernel)

theorem idText_shortPathHash (X : Externals) (path : String) : IdText 10 (shortPathHash X path) := by
  have hlength := length_shortPathHash X path
  refine ⟨fun h => (by rw [h] at hlength; cases hlength), hlength.le, fun c hc => Or.inl ?_⟩
  rw [shortPathHash, String.toList_ofList] at hc
  exact hexDigit_kept c (mem_hex (List.mem_of_mem_take hc))

theorem idText_proposedSourceId (X : Externals) (path : String) :
    IdText 96 (proposedSourceId X path) := by
  have hsource : IdText 7 "source-" := ⟨by decide, by decide, forall_of_all (by decide)⟩
  unfold proposedSourceId
  dsimp only
  split_ifs
  · exact (hsource.append (idText_shortPathHash X path)).mono (by decide)
  · exact idText_asciiComponent _

theorem utf8Size_of_idText {c : Char} (h : isKept c = true ∨ c = '-') : c.utf8Size = 1 := by
  have hascii : isAscii c = true := by
    rcases h with h | rfl
    · exact isAscii_of_isKept h
    · decide
  have hlt : c.toNat < 128 := of_decide_eq_true hascii
  exact Char.utf8Size_eq_one_iff.mpr (UInt32.le_iff_toNat_le.mpr (Nat.lt_succ_iff.mp hlt))

theorem IdText.len_le {limit : Nat} {text : String} (h : IdText limit text) : len text ≤ limit := by
  rw [← String.ofList_toList (s := text), len_ofList]
  have hsizes : text.toList.map Char.utf8Size = text.toList.map fun _ => 1 :=
    List.map_congr_left fun c hc => utf8Size_of_idText (h.chars c hc)
  rw [hsizes, List.map_const', List.sum_replicate, smul_eq_mul, Nat.mul_one]
  exact h.short

/-- **Such a text is a source ID unless it names a directory on its own.** -/
theorem sourceIdNew_isOk {text : String} (h : IdText 128 text) :
    (∃ id, SourceId.new text = .ok id) ↔ text ≠ "." ∧ text ≠ ".." := by
  have hchars : text.toList.all fun c => c.isAlphanum || c == '-' || c == '_' || c == '.' := by
    refine List.all_eq_true.mpr fun c hc => ?_
    rcases h.chars c hc with hkept | rfl
    · simp only [isKept, Bool.or_eq_true] at hkept ⊢
      tauto
    · decide
  simp only [SourceId.new, bind_unit_eq_ok, reject_eq_ok, not_or, not_lt, hchars, not_true_eq_false,
    not_false_eq_true, true_and, exists_and_left, Except.ok.injEq, exists_eq', and_true]
  exact ⟨fun hall => hall.2.2, fun hdots => ⟨h.nonempty, h.len_le, hdots⟩⟩

/-! ## Dots -/

theorem dashed_plain {cs l : List Char} (h : dashed false cs = l) (hl : '-' ∉ l) :
    cs.map Char.toLower = l := by
  induction cs generalizing l with
  | nil => exact h
  | cons c cs ih =>
    subst h
    rw [dashed] at hl ⊢
    by_cases hkept : isKept c
    · rw [if_pos hkept] at hl ⊢
      rw [List.map_cons, ih rfl fun hmem => hl (List.mem_cons_of_mem _ hmem)]
    · rw [if_neg hkept] at hl
      exact absurd List.mem_cons_self hl

/-- The two names of directories. -/
def Dots (dots : List Char) : Prop := dots = ['.'] ∨ dots = ['.', '.']

theorem asciiComponent_eq_dots {dots : List Char} (hdots : Dots dots) (name : String) :
    asciiComponent name = String.ofList dots ↔ remainder name = dots := by
  rw [asciiComponent_eq]
  constructor
  · intro h
    split_ifs at h with hnil
    · rcases hdots with rfl | rfl
      · exact absurd h (by decide)
      · exact absurd h (by decide)
    · have htake := String.ofList_injective h
      have hshort : dots.length < 96 := by rcases hdots with rfl | rfl <;> decide
      have hlength := congrArg List.length htake
      rw [List.length_take] at hlength
      rw [List.take_of_length_le (by omega)] at htake
      have hlower := dashed_plain htake (by rcases hdots with rfl | rfl <;> decide)
      have hself : (remainder name).map Char.toLower = (remainder name).map id := by
        refine List.map_congr_left fun c hc => ?_
        have hdot : c.toLower = '.' := by
          have hmem := List.mem_map_of_mem (f := Char.toLower) hc
          rw [hlower] at hmem
          rcases hdots with rfl | rfl <;> simpa using hmem
        rw [hdot, id, toLower_eq_dot hdot]
      rw [← hlower, hself, List.map_id]
  · intro h
    rw [h]
    rcases hdots with rfl | rfl <;> decide

theorem proposedSourceId_eq_dots {X : Externals} {path : String} {dots : List Char}
    (hdots : Dots dots) :
    proposedSourceId X path = String.ofList dots ↔ remainder (sourceName path) = dots := by
  unfold proposedSourceId
  dsimp only
  rw [← asciiComponent_eq_dots hdots]
  split_ifs with hsource
  · have hne : ∀ s : String, "source-" ++ s ≠ String.ofList dots := fun s h => by
      have hhead := congrArg (fun t => t.toList.head?) h
      rw [String.toList_append, String.toList_ofList] at hhead
      rcases hdots with rfl | rfl <;> exact absurd hhead (by simp)
    rw [hsource.1]
    refine iff_of_false (hne _) fun h => ?_
    rcases hdots with rfl | rfl <;> exact absurd h (by decide)
  · exact Iff.rfl

/-! ## All candidates -/

theorem suggestedSourceId_eq (X : Externals) (candidates : List (String × VaultCandidateKind)) :
    assignSourceIds X candidates = candidates.map fun c =>
      { path := c.1
        kind := c.2
        suggestedSourceId :=
          if 1 < (candidates.map fun c => proposedSourceId X c.1).count (proposedSourceId X c.1) then
            proposedSourceId X c.1 ++ "-" ++ shortPathHash X c.1
          else proposedSourceId X c.1 } := by
  simp only [assignSourceIds, get?_baseCounts]

/-- The ID of a candidate among others. -/
def suggestedId (X : Externals) (candidates : List (String × VaultCandidateKind))
    (c : String × VaultCandidateKind) : String :=
  if 1 < (candidates.map fun c => proposedSourceId X c.1).count (proposedSourceId X c.1) then
    proposedSourceId X c.1 ++ "-" ++ shortPathHash X c.1
  else proposedSourceId X c.1

theorem map_suggestedSourceId (X : Externals) (candidates : List (String × VaultCandidateKind)) :
    (assignSourceIds X candidates).map VaultCandidate.suggestedSourceId =
      candidates.map (suggestedId X candidates) := by
  rw [suggestedSourceId_eq, List.map_map]
  rfl

theorem idText_suggestedId (X : Externals) (candidates : List (String × VaultCandidateKind))
    (c : String × VaultCandidateKind) : IdText 128 (suggestedId X candidates c) := by
  have hdash : IdText 1 "-" := ⟨by decide, by decide, forall_of_all (by decide)⟩
  have hbase := idText_proposedSourceId X c.1
  unfold suggestedId
  split_ifs
  · exact ((hbase.append hdash).append (idText_shortPathHash X c.1)).mono (by decide)
  · exact hbase.mono (by decide)

/-- How many candidates have a name of which the given text is left. -/
def leaving (dots : List Char) (candidates : List (String × VaultCandidateKind)) : Nat :=
  (candidates.filter fun c => remainder (sourceName c.1) = dots).length

theorem count_dots {X : Externals} {dots : List Char} (hdots : Dots dots)
    (candidates : List (String × VaultCandidateKind)) :
    (candidates.map fun c => proposedSourceId X c.1).count (String.ofList dots) =
      leaving dots candidates := by
  have hsame : ∀ c ∈ candidates,
      ((· == String.ofList dots) ∘ fun c => proposedSourceId X c.1) c =
        decide (remainder (sourceName c.1) = dots) := fun c _ => by
    rw [Function.comp_apply, beq_eq_decide]
    exact decide_eq_decide.mpr (proposedSourceId_eq_dots hdots)
  rw [leaving, List.count, List.countP_map, List.countP_eq_length_filter,
    List.filter_congr hsame]

/-- A suggested ID is `.` or `..` when one candidate alone has such a name. -/
theorem suggestedId_eq_dots {X : Externals} {candidates : List (String × VaultCandidateKind)}
    {c : String × VaultCandidateKind} {dots : List Char} (hdots : Dots dots) :
    suggestedId X candidates c = String.ofList dots ↔
      remainder (sourceName c.1) = dots ∧ leaving dots candidates ≤ 1 := by
  rw [← proposedSourceId_eq_dots (X := X) hdots, ← count_dots (X := X) hdots, suggestedId]
  split_ifs with hcount
  · refine iff_of_false (fun h => ?_) fun ⟨hbase, hle⟩ => ?_
    · have hlength := congrArg (fun t => t.toList.length) h
      simp only [String.toList_append, List.length_append, length_shortPathHash,
        String.toList_ofList] at hlength
      have hshort : dots.length ≤ 2 := by rcases hdots with rfl | rfl <;> decide
      omega
    · rw [hbase] at hcount
      omega
  · constructor
    · intro hbase
      rw [hbase] at hcount
      exact ⟨hbase, not_lt.mp hcount⟩
    · exact And.left

theorem leaving_pos {dots : List Char} {candidates : List (String × VaultCandidateKind)} :
    leaving dots candidates ≠ 0 ↔ ∃ c ∈ candidates, remainder (sourceName c.1) = dots := by
  rw [leaving, ne_eq, List.length_eq_zero_iff, List.filter_eq_nil_iff]
  simp

theorem accepted_iff (X : Externals) (candidates : List (String × VaultCandidateKind)) :
    (∀ c ∈ assignSourceIds X candidates, ∃ id, SourceId.new c.suggestedSourceId = .ok id) ↔
      leaving ['.'] candidates ≠ 1 ∧ leaving ['.', '.'] candidates ≠ 1 := by
  have hnone : ∀ {dots}, Dots dots →
      ((∀ c ∈ candidates, suggestedId X candidates c ≠ String.ofList dots) ↔
        leaving dots candidates ≠ 1) := fun {dots} hdots => by
    simp only [ne_eq, suggestedId_eq_dots hdots, not_and, not_le]
    constructor
    · intro h hone
      obtain ⟨c, hc, hleft⟩ := leaving_pos.mp (by omega : leaving dots candidates ≠ 0)
      have := h c hc hleft
      omega
    · intro h c hc hleft
      have := leaving_pos.mpr ⟨c, hc, hleft⟩
      omega
  rw [← hnone (Or.inl rfl), ← hnone (Or.inr rfl), ← forall₂_and, suggestedSourceId_eq]
  simp only [List.mem_map, forall_exists_index, and_imp, forall_apply_eq_imp_iff₂]
  exact forall₂_congr fun c _ => sourceIdNew_isOk (idText_suggestedId X candidates c)

/-! ## Distinctness -/

theorem prefix_of_dashed {cs l : List Char} (h : l <+: dashed false cs) (hl : '-' ∉ l) :
    l <+: cs.map Char.toLower := by
  induction cs generalizing l with
  | nil => exact h
  | cons c cs ih =>
    cases l with
    | nil => exact List.nil_prefix
    | cons d l =>
      rw [dashed] at h
      by_cases hkept : isKept c
      · rw [if_pos hkept] at h
        obtain ⟨rfl, hrest⟩ := List.cons_prefix_cons.mp h
        exact List.cons_prefix_cons.mpr ⟨rfl, ih hrest fun hmem => hl (List.mem_cons_of_mem _ hmem)⟩
      · rw [if_neg hkept] at h
        obtain ⟨rfl, -⟩ := List.cons_prefix_cons.mp h
        exact absurd List.mem_cons_self hl

/-- What is found between two separators is found in the name. -/
theorem infix_of_dashed {separator : Bool} {cs l : List Char} (h : l <:+: dashed separator cs)
    (hl : '-' ∉ l) : l <:+: cs.map Char.toLower := by
  induction cs generalizing separator with
  | nil => exact h
  | cons c cs ih =>
    by_cases hkept : isKept c
    · have heq : dashed separator (c :: cs) = dashed false (c :: cs) := by
        rw [dashed, dashed, if_pos hkept, if_pos hkept]
      rw [heq, dashed, if_pos hkept] at h
      rcases List.infix_cons_iff.mp h with h | h
      · exact (prefix_of_dashed (by rwa [dashed, if_pos hkept]) hl).isInfix
      · exact (ih h).trans (List.suffix_cons _ _).isInfix
    · rw [dashed, if_neg hkept] at h
      have hrest : l <:+: dashed true cs := by
        cases separator with
        | true => exact h
        | false =>
          rcases List.infix_cons_iff.mp h with h | h
          · cases l with
            | nil => exact List.nil_infix
            | cons d l =>
              obtain ⟨rfl, -⟩ := List.cons_prefix_cons.mp h
              exact absurd List.mem_cons_self hl
          · exact h
      exact (ih hrest).trans (List.suffix_cons _ _).isInfix

theorem infix_of_asciiComponent {name : String} {l : List Char} (hlength : 6 < l.length)
    (hl : '-' ∉ l) (h : l <:+: (asciiComponent name).toList) : l <:+: loweredAscii name := by
  rw [asciiComponent_eq] at h
  split_ifs at h with hnil
  · exact absurd h.length_le (not_le.mpr hlength)
  · rw [String.toList_ofList] at h
    have hdashed := h.trans (List.take_prefix _ _).isInfix
    have hremainder : remainder name <:+: name.toList.filter isAscii :=
      (List.rdropWhile_prefix _ _).isInfix.trans (List.dropWhile_suffix _).isInfix
    exact (infix_of_dashed hdashed hl).trans (hremainder.map Char.toLower)

/-- The short hashes tell the paths apart and are found in none of the names. -/
structure HashApart (X : Externals) (candidates : List (String × VaultCandidateKind)) : Prop where
  injective : ∀ a ∈ candidates, ∀ b ∈ candidates,
    shortPathHash X a.1 = shortPathHash X b.1 → a.1 = b.1
  absent : ∀ a ∈ candidates, ∀ b ∈ candidates,
    ¬ (shortPathHash X b.1).toList <:+: loweredAscii (sourceName a.1)

theorem dash_shortPathHash (X : Externals) (path : String) :
    '-' ∉ (shortPathHash X path).toList := fun h => by
  rw [shortPathHash, String.toList_ofList] at h
  exact absurd (hexDigit_kept _ (mem_hex (List.mem_of_mem_take h))) (by decide)

/-- Texts that end in hashes and are equal end in the same hash. -/
theorem hash_of_append {X : Externals} {p q s t : String}
    (h : s ++ shortPathHash X p = t ++ shortPathHash X q) :
    shortPathHash X p = shortPathHash X q := by
  have hlist := congrArg String.toList h
  rw [String.toList_append, String.toList_append] at hlist
  have hlength : (shortPathHash X p).toList.length = (shortPathHash X q).toList.length := by
    rw [length_shortPathHash, length_shortPathHash]
  exact String.toList_inj.mp (List.append_inj' hlist hlength).2

/-- A proposed ID ends in the hash of another path only when it is made of that hash. -/
theorem eq_of_hashed {X : Externals} {candidates : List (String × VaultCandidateKind)}
    (h : HashApart X candidates) {a b : String × VaultCandidateKind} (ha : a ∈ candidates)
    (hb : b ∈ candidates) {base : String}
    (heq : proposedSourceId X a.1 = base ++ shortPathHash X b.1) : a.1 = b.1 := by
  unfold proposedSourceId at heq
  dsimp only at heq
  split_ifs at heq
  · exact h.injective a ha b hb (hash_of_append heq)
  · refine absurd (infix_of_asciiComponent ?_ (dash_shortPathHash X b.1) ?_) (h.absent a ha b hb)
    · rw [length_shortPathHash]
      decide
    · rw [heq, String.toList_append]
      exact (List.suffix_append _ _).isInfix

/-- What fewer than two elements of a list have in common. -/
theorem eq_of_count_le_one {α β : Type} [DecidableEq β] {f : α → β} {l : List α} {a b : α}
    (ha : a ∈ l) (hb : b ∈ l) (hab : f b = f a) (hcount : (l.map f).count (f a) ≤ 1) : a = b := by
  rw [List.count, List.countP_map, List.countP_eq_length_filter] at hcount
  have hmem : ∀ {c}, c ∈ l → f c = f a → c ∈ l.filter ((· == f a) ∘ f) := fun hc heq =>
    List.mem_filter.mpr ⟨hc, by simp [heq]⟩
  have hfa := hmem ha rfl
  have hfb := hmem hb hab
  generalize l.filter ((· == f a) ∘ f) = found at *
  match found, hcount with
  | [c], _ => exact (List.mem_singleton.mp hfa).trans (List.mem_singleton.mp hfb).symm
  | [], _ => cases hfa

/-- **The suggested IDs are distinct.** -/
theorem nodup_suggested {X : Externals} {candidates : List (String × VaultCandidateKind)}
    (hpaths : (candidates.map Prod.fst).Nodup) (h : HashApart X candidates) :
    ((assignSourceIds X candidates).map VaultCandidate.suggestedSourceId).Nodup := by
  have hpath : ∀ {a b}, a ∈ candidates → b ∈ candidates → a.1 = b.1 → a = b := fun ha hb heq =>
    List.inj_on_of_nodup_map hpaths ha hb heq
  rw [map_suggestedSourceId]
  refine List.Nodup.map_on (fun a ha b hb heq => ?_) hpaths.of_map
  by_cases hca : 1 < (candidates.map fun c => proposedSourceId X c.1).count
      (proposedSourceId X a.1)
  · rw [suggestedId, if_pos hca] at heq
    by_cases hcb : 1 < (candidates.map fun c => proposedSourceId X c.1).count
        (proposedSourceId X b.1)
    · rw [suggestedId, if_pos hcb] at heq
      exact hpath ha hb (h.injective a ha b hb (hash_of_append heq))
    · rw [suggestedId, if_neg hcb] at heq
      exact hpath ha hb (eq_of_hashed h hb ha heq.symm).symm
  · rw [suggestedId, if_neg hca] at heq
    by_cases hcb : 1 < (candidates.map fun c => proposedSourceId X c.1).count
        (proposedSourceId X b.1)
    · rw [suggestedId, if_pos hcb] at heq
      exact hpath ha hb (eq_of_hashed h ha hb heq)
    · rw [suggestedId, if_neg hcb] at heq
      have hle := not_lt.mp hca
      generalize hf : (fun c : String × VaultCandidateKind => proposedSourceId X c.1) = f at hle
      have hfa : f a = proposedSourceId X a.1 := by rw [← hf]
      have hfb : f b = proposedSourceId X b.1 := by rw [← hf]
      rw [← hfa] at heq hle
      rw [← hfb] at heq
      exact eq_of_count_le_one ha hb heq.symm hle

/-- **The suggested IDs are distinct source IDs** iff no candidate is alone with a name of which one
dot is left, and none with a name of which two are. -/
theorem assignSourceIds_iff {X : Externals} {candidates : List (String × VaultCandidateKind)}
    (hpaths : (candidates.map Prod.fst).Nodup) (h : HashApart X candidates) :
    (∀ c ∈ assignSourceIds X candidates, ∃ id, SourceId.new c.suggestedSourceId = .ok id) ∧
        ((assignSourceIds X candidates).map VaultCandidate.suggestedSourceId).Nodup ↔
      leaving ['.'] candidates ≠ 1 ∧ leaving ['.', '.'] candidates ≠ 1 :=
  (and_iff_left (nodup_suggested hpaths h)).trans (accepted_iff X candidates)

/-- A hash that keeps the last 32 bytes of its input. -/
def suffixHash (bytes : Bytes) : ContentHash :=
  ⟨(bytes.reverse ++ List.replicate 32 0).take 32, by simp⟩

/-- Three Vaults, two of one name. -/
def threeVaults : List (String × VaultCandidateKind) :=
  [("/w/notes", .directory), ("/w/notes.zip", .zip), ("/w/daily", .directory)]

theorem assignSourceIds_iff_threeVaults :
    (∀ c ∈ assignSourceIds (plainExternals suffixHash) threeVaults,
        ∃ id, SourceId.new c.suggestedSourceId = .ok id) ∧
        ((assignSourceIds (plainExternals suffixHash) threeVaults).map
          VaultCandidate.suggestedSourceId).Nodup ↔
      leaving ['.'] threeVaults ≠ 1 ∧ leaving ['.', '.'] threeVaults ≠ 1 :=
  assignSourceIds_iff (by decide +kernel) ⟨by decide +kernel, by decide +kernel⟩

/-- A Vault whose name is not ASCII but for its dots. -/
theorem dot_suggested :
    ¬ ∀ X candidates, (candidates.map Prod.fst).Nodup → HashApart X candidates →
      (∀ c ∈ assignSourceIds X candidates, ∃ id, SourceId.new c.suggestedSourceId = .ok id) ∧
        ((assignSourceIds X candidates).map VaultCandidate.suggestedSourceId).Nodup := by
  intro h
  have hall := (h (plainExternals suffixHash) [("/w/한.글.노트", .directory)] (by decide)
    ⟨by decide +kernel, by decide +kernel⟩).1
  have hdot := hall ⟨"/w/한.글.노트", .directory, "."⟩ (by decide +kernel)
  obtain ⟨id, hid⟩ := hdot
  cases hid

end Okc.App
