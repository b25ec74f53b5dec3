import Okc.Lib.Text

/-!
# Slash paths (`std::path::Path` on Unix)

The parts of a path that `Path` names: its directory, its file name, and the stem and extension of
that name. A path is its components; `Path` skips empty components and `.`.

* `splitDot_append`: the stem and the extension make up the name.
* `splitDot_extension`: the extension is the text after the last dot.
-/

namespace Okc.Lib

/-- The components `Path::components` yields, without the root and a leading `.`. -/
def pathParts (path : String) : List String :=
  (splitSlash path).filter fun component => component ≠ "" ∧ component ≠ "."

/-- `Path::file_name`. -/
def fileName (path : String) : Option String :=
  (pathParts path).getLast?.filter fun component => component ≠ ".."

/-- The text before and after the last dot of a name: an initial dot and `..` do not count. -/
def splitDot (name : String) : String × Option String :=
  let after := name.toList.reverse.takeWhile (· != '.')
  let before := name.toList.reverse.drop (after.length + 1)
  if name = ".." ∨ '.' ∉ name.toList ∨ before = [] then (name, none)
  else (String.ofList before.reverse, some (String.ofList after.reverse))

/-- `Path::file_stem`. -/
def fileStem (path : String) : Option String := (fileName path).map fun name => (splitDot name).1

/-- `Path::extension`. -/
def extension (path : String) : Option String := (fileName path).bind fun name => (splitDot name).2

/-- `Path::parent`, as text; empty for a path of one component. -/
def parent (path : String) : String := joinSlash (pathParts path).dropLast

/-! ## Names -/

/-- **The stem and the extension make up the name.** -/
theorem splitDot_append (name : String) :
    (splitDot name).1 ++ ((splitDot name).2.map ("." ++ ·)).getD "" = name := by
  unfold splitDot
  simp only
  split
  · rw [Option.map_none, Option.getD_none, String.append_empty]
  · next h =>
    rw [not_or, not_or, not_not] at h
    obtain ⟨-, hdot, -⟩ := h
    -- the reversed name is the extension, the dot and the stem, each reversed
    have hsplit := List.takeWhile_append_dropWhile (p := (· != '.')) (l := name.toList.reverse)
    obtain ⟨x, rest, hrest⟩ : ∃ x rest, name.toList.reverse.dropWhile (· != '.') = x :: rest := by
      refine List.exists_cons_of_ne_nil fun hnil => ?_
      rw [List.dropWhile_eq_nil_iff] at hnil
      simpa using hnil '.' (List.mem_reverse.mpr hdot)
    have hx : x = '.' := by
      have := List.head?_dropWhile_not (· != '.') name.toList.reverse
      rw [hrest] at this
      simpa using this
    subst hx
    rw [hrest] at hsplit
    obtain ⟨after, hafter⟩ : ∃ after, name.toList.reverse.takeWhile (· != '.') = after := ⟨_, rfl⟩
    rw [hafter] at hsplit ⊢
    have hdrop : name.toList.reverse.drop (after.length + 1) = rest := by
      rw [← hsplit, List.drop_append, List.drop_of_length_le (Nat.le_succ _),
        Nat.add_sub_cancel_left]
      rfl
    rw [hdrop, Option.map_some, Option.getD_some]
    apply String.toList_inj.mp
    have hreverse := congrArg List.reverse hsplit
    rw [List.reverse_append, List.reverse_cons, List.reverse_reverse] at hreverse
    simpa using hreverse

/-- A name has a stem. -/
theorem splitDot_ne_empty {name : String} (h : name ≠ "") : (splitDot name).1 ≠ "" := by
  unfold splitDot
  simp only
  split
  · exact h
  · next hsplit =>
    rw [not_or, not_or] at hsplit
    simpa using hsplit.2.2

/-- **The extension is the text after the last dot.** -/
theorem splitDot_extension {base ext : String} (hbase : base ≠ "") (hext : '.' ∉ ext.toList)
    (hname : base ++ "." ++ ext ≠ "..") : splitDot (base ++ "." ++ ext) = (base, some ext) := by
  have hchars : (base ++ "." ++ ext).toList.reverse =
      ext.toList.reverse ++ '.' :: base.toList.reverse := by
    simp
  have hplain : ∀ c ∈ ext.toList.reverse, (c != '.') = true := by
    intro c hc
    rw [bne_iff_ne]
    rintro rfl
    exact hext (List.mem_reverse.mp hc)
  have hafter : (ext.toList.reverse ++ '.' :: base.toList.reverse).takeWhile (· != '.') =
      ext.toList.reverse := by
    rw [List.takeWhile_append_of_pos hplain]
    simp
  have hbefore : (ext.toList.reverse ++ '.' :: base.toList.reverse).drop
      (ext.toList.reverse.length + 1) = base.toList.reverse := by
    rw [List.drop_append, List.drop_of_length_le (Nat.le_succ _), Nat.add_sub_cancel_left]
    rfl
  unfold splitDot
  simp only [hchars, hafter, hbefore]
  rw [if_neg]
  · simp
  · rintro (hdots | hdot | hempty)
    · exact hname hdots
    · exact hdot (by simp)
    · exact hbase (String.toList_eq_nil_iff.mp (List.reverse_eq_nil_iff.mp hempty))

/-- An extension has no dot. -/
theorem dot_not_mem_extension {name ext : String} (h : (splitDot name).2 = some ext) :
    '.' ∉ ext.toList := by
  unfold splitDot at h
  dsimp only at h
  split_ifs at h
  obtain rfl := Option.some.inj h
  intro hmem
  rw [String.toList_ofList, List.mem_reverse] at hmem
  simpa using List.mem_takeWhile_imp hmem

theorem fileName_of_name {name : String} (hslash : '/' ∉ name.toList)
    (h : name ≠ "" ∧ name ≠ "." ∧ name ≠ "..") : fileName name = some name := by
  have hsplit : splitSlash name = [name] := by
    conv_lhs => rw [← joinSlash_singleton name]
    exact splitSlash_joinSlash (List.cons_ne_nil _ _) (by simpa using hslash)
  rw [fileName, pathParts, hsplit]
  simp [h]

/-! ## Components hold no slash -/

theorem not_mem_of_mem_splitOn {α : Type} [DecidableEq α] {a : α} {xs l : List α}
    (h : l ∈ xs.splitOn a) : a ∉ l := by
  induction xs generalizing l with
  | nil =>
    rw [List.splitOn_nil, List.mem_singleton] at h
    exact h ▸ List.not_mem_nil
  | cons x xs ih =>
    rw [List.splitOn_cons_eq_if_modifyHead] at h
    by_cases hx : (x == a) = true
    · rw [if_pos hx, List.mem_cons] at h
      rcases h with rfl | h
      · exact List.not_mem_nil
      · exact ih h
    · rw [if_neg hx] at h
      cases hsplit : xs.splitOn a with
      | nil => exact absurd hsplit (List.splitOn_ne_nil a xs)
      | cons first rest =>
        rw [hsplit, List.modifyHead_cons, List.mem_cons] at h
        rcases h with rfl | h
        · rw [List.mem_cons, not_or]
          exact ⟨fun hax => hx (beq_iff_eq.mpr hax.symm), ih (hsplit ▸ List.mem_cons_self)⟩
        · exact ih (hsplit ▸ List.mem_cons_of_mem _ h)

theorem slash_not_mem_of_mem_splitSlash {path c : String} (h : c ∈ splitSlash path) :
    '/' ∉ c.toList := by
  obtain ⟨chars, hchars, rfl⟩ := List.mem_map.mp h
  rw [String.toList_ofList]
  exact not_mem_of_mem_splitOn hchars

/-! ## Paths without empty components -/

theorem pathParts_eq_self {path : String} (h : ∀ c ∈ splitSlash path, c ≠ "" ∧ c ≠ ".") :
    pathParts path = splitSlash path := by
  rw [pathParts, List.filter_eq_self]
  intro c hc
  simpa using h c hc

end Okc.Lib
