import Okc.Lib.Search

/-!
# Searches in a text of two parts

What the searches of `Search` find in `xs ++ sep :: ys`, where `sep` stands in no word that is
looked for and in no run: what they find in `xs`, and what they find in `ys` that much further on.

* `prefix_append_sep`, `infix_append_sep`: where a word occurs.
* `matchesFrom_append`, `runsFrom_append`, `splitInclusive_append`: one lemma for each search.
* `matchesFrom_add`, `runsFrom_add`, `findSub_add`: a search begun at a later offset.
* `findSub_eq_some`: what a word's place is.
* `pieces_induction`, `piece_spec`: the pieces of a text, and what each of them is.
-/

namespace Okc.Lib

variable {α : Type} {width : α → Nat} {sep : α}

/-! ## Occurrences -/

section Matches

variable {needle : List α}

/-- A word without the separator begins before it only where it ends before it. -/
theorem prefix_append_sep (hsep : sep ∉ needle) (xs ys : List α) :
    needle <+: xs ++ sep :: ys ↔ needle <+: xs := by
  induction needle generalizing xs with
  | nil => simp
  | cons c needle ih =>
    obtain ⟨hc, hneedle⟩ : sep ≠ c ∧ sep ∉ needle := by simpa using hsep
    cases xs with
    | nil =>
      refine iff_of_false (fun h => ?_) (by simp)
      rw [List.nil_append, List.cons_prefix_cons] at h
      exact hc h.1.symm
    | cons x xs => rw [List.cons_append, List.cons_prefix_cons, List.cons_prefix_cons, ih hneedle]

/-- A word without the separator occurs on one side of it. -/
theorem infix_append_sep (hsep : sep ∉ needle) (xs ys : List α) :
    needle <:+: xs ++ sep :: ys ↔ needle <:+: xs ∨ needle <:+: ys := by
  induction xs with
  | nil =>
    have hprefix : needle <+: sep :: ys ↔ needle <+: [] := prefix_append_sep hsep [] ys
    rw [List.nil_append, List.infix_cons_iff, hprefix, List.prefix_nil, List.infix_nil]
  | cons x xs ih =>
    have hprefix : needle <+: x :: (xs ++ sep :: ys) ↔ needle <+: x :: xs :=
      prefix_append_sep hsep (x :: xs) ys
    rw [List.cons_append, List.infix_cons_iff, hprefix, ih, List.infix_cons_iff, or_assoc]

variable [DecidableEq α]

theorem matchesFrom_add (k offset skip : Nat) (xs : List α) :
    matchesFrom width needle (offset + k) skip xs =
      (matchesFrom width needle offset skip xs).map fun m => (m.1 + k, m.2) := by
  induction xs generalizing offset skip with
  | nil => cases skip <;> rfl
  | cons x xs ih =>
    have hnext : offset + k + width x = offset + width x + k := by omega
    cases skip with
    | succ skip => rw [matchesFrom, matchesFrom, hnext, ih]
    | zero =>
      rw [matchesFrom, matchesFrom, hnext]
      split
      · rw [ih, List.map_cons]
      · rw [ih]

theorem matchesFrom_append (hsep : sep ∉ needle) (hne : needle ≠ []) {offset skip : Nat}
    {xs : List α} (hskip : skip ≤ xs.length) (ys : List α) :
    matchesFrom width needle offset skip (xs ++ sep :: ys) =
      (matchesFrom width needle offset skip xs).map (fun m => (m.1, m.2 ++ sep :: ys)) ++
        matchesFrom width needle (offset + extent width xs + width sep) 0 ys := by
  induction xs generalizing offset skip with
  | nil =>
    obtain rfl : skip = 0 := by simpa using hskip
    have hprefix : ¬ needle <+: sep :: ys := fun h =>
      hne (List.prefix_nil.mp ((prefix_append_sep hsep [] ys).mp h))
    have hstep : matchesFrom width needle offset 0 (sep :: ys) =
        matchesFrom width needle (offset + width sep) 0 ys := by
      rw [matchesFrom, if_neg hprefix]
    rw [List.nil_append, hstep, extent_nil, Nat.add_zero]
    rfl
  | cons x xs ih =>
    have hoffset : offset + width x + extent width xs + width sep =
        offset + extent width (x :: xs) + width sep := by
      rw [extent_cons]
      omega
    cases skip with
    | succ skip =>
      rw [List.cons_append, matchesFrom, matchesFrom, ih (by simpa using hskip), hoffset]
    | zero =>
      rw [List.cons_append, matchesFrom, matchesFrom]
      by_cases hp : needle <+: x :: xs
      · have hp' : needle <+: x :: (xs ++ sep :: ys) := (prefix_append_sep hsep (x :: xs) ys).mpr hp
        have hlen := hp.length_le
        have hdrop : (x :: (xs ++ sep :: ys)).drop needle.length =
            (x :: xs).drop needle.length ++ sep :: ys := by
          rw [← List.cons_append, List.drop_append_of_le_length hlen]
        rw [if_pos hp, if_pos hp', ih (by simp at hlen; omega), hoffset, hdrop]
        rfl
      · have hp' : ¬ needle <+: x :: (xs ++ sep :: ys) := fun h =>
          hp ((prefix_append_sep hsep (x :: xs) ys).mp h)
        rw [if_neg hp, if_neg hp', ih (Nat.zero_le _), hoffset]

theorem findSub_add (k offset : Nat) (xs : List α) :
    findSub width needle (offset + k) xs = (findSub width needle offset xs).map (· + k) := by
  induction xs generalizing offset with
  | nil =>
    rw [findSub, findSub]
    split <;> rfl
  | cons x xs ih =>
    rw [findSub, findSub]
    split
    · rfl
    · rw [show offset + k + width x = offset + width x + k by omega, ih]

/-- A word is found where it occurs. -/
theorem findSub_eq_some {offset start : Nat} {xs : List α}
    (h : findSub width needle offset xs = some start) :
    ∃ before after, xs = before ++ needle ++ after ∧ start = offset + extent width before := by
  induction xs generalizing offset with
  | nil =>
    rw [findSub] at h
    split_ifs at h with hn
    obtain rfl := Option.some.inj h
    exact ⟨[], [], by simp [hn], by simp⟩
  | cons x xs ih =>
    rw [findSub] at h
    split_ifs at h with hp
    · obtain rfl := Option.some.inj h
      obtain ⟨after, hafter⟩ := hp
      exact ⟨[], after, by simp [hafter], by simp⟩
    · obtain ⟨before, after, rfl, rfl⟩ := ih h
      refine ⟨x :: before, after, rfl, ?_⟩
      rw [extent_cons]
      omega

end Matches

/-! ## Runs -/

section Runs

variable {opens inside : α → Bool}

theorem runsFrom_add (k offset skip : Nat) (xs : List α) :
    runsFrom width opens inside (offset + k) skip xs =
      (runsFrom width opens inside offset skip xs).map fun r => (r.1 + k, r.2) := by
  induction xs generalizing offset skip with
  | nil => cases skip <;> rfl
  | cons x xs ih =>
    have hnext : offset + k + width x = offset + width x + k := by omega
    cases skip with
    | succ skip => rw [runsFrom, runsFrom, hnext, ih]
    | zero =>
      rw [runsFrom, runsFrom, hnext]
      split
      · rw [ih, List.map_cons]
      · rw [ih]

theorem takeWhile_append_sep (hinside : inside sep = false) (xs ys : List α) :
    (xs ++ sep :: ys).takeWhile inside = xs.takeWhile inside := by
  induction xs with
  | nil => rw [List.nil_append, List.takeWhile_cons_of_neg (by simp [hinside]), List.takeWhile_nil]
  | cons x xs ih =>
    rw [List.cons_append, List.takeWhile_cons, List.takeWhile_cons]
    split
    · rw [ih]
    · rfl

theorem runsFrom_append (hopens : opens sep = false) (hinside : inside sep = false)
    {offset skip : Nat} {xs : List α} (hskip : skip ≤ xs.length) (ys : List α) :
    runsFrom width opens inside offset skip (xs ++ sep :: ys) =
      runsFrom width opens inside offset skip xs ++
        runsFrom width opens inside (offset + extent width xs + width sep) 0 ys := by
  induction xs generalizing offset skip with
  | nil =>
    obtain rfl : skip = 0 := by simpa using hskip
    have hstep : runsFrom width opens inside offset 0 (sep :: ys) =
        runsFrom width opens inside (offset + width sep) 0 ys := by
      rw [runsFrom, if_neg (by simp [hopens])]
    rw [List.nil_append, hstep, extent_nil, Nat.add_zero]
    rfl
  | cons x xs ih =>
    have hoffset : offset + width x + extent width xs + width sep =
        offset + extent width (x :: xs) + width sep := by
      rw [extent_cons]
      omega
    cases skip with
    | succ skip => rw [List.cons_append, runsFrom, runsFrom, ih (by simpa using hskip), hoffset]
    | zero =>
      rw [List.cons_append, runsFrom, runsFrom]
      have htake : (x :: (xs ++ sep :: ys)).takeWhile inside = (x :: xs).takeWhile inside :=
        takeWhile_append_sep hinside (x :: xs) ys
      have hlen := (List.takeWhile_prefix inside (l := x :: xs)).length_le
      rw [htake]
      split
      · rw [ih (by simp at hlen; omega), hoffset]
        rfl
      · rw [ih (Nat.zero_le _), hoffset]

end Runs

/-! ## Pieces -/

section Pieces

variable {p : α → Bool}

theorem splitInclusive_body {body : List α} (hbody : ∀ x ∈ body, p x = false) (hne : body ≠ []) :
    splitInclusive p body = [body] := by
  induction body with
  | nil => exact absurd rfl hne
  | cons x xs ih =>
    obtain ⟨hx, hxs⟩ := List.forall_mem_cons.mp hbody
    rw [splitInclusive, if_neg (by simp [hx])]
    by_cases hnil : xs = []
    · rw [hnil]
      rfl
    · rw [ih hxs hnil]

theorem splitInclusive_cons {body : List α} (hbody : ∀ x ∈ body, p x = false) {c : α}
    (hc : p c = true) (rest : List α) :
    splitInclusive p (body ++ c :: rest) = (body ++ [c]) :: splitInclusive p rest := by
  induction body with
  | nil => rw [List.nil_append, splitInclusive, if_pos hc, List.nil_append]
  | cons x xs ih =>
    obtain ⟨hx, hxs⟩ := List.forall_mem_cons.mp hbody
    rw [List.cons_append, splitInclusive, if_neg (by simp [hx]), ih hxs]
    rfl

/-- Induction over the pieces of a text: it is empty, one piece that no mark ends, or a piece and
its mark before the rest. -/
theorem pieces_induction {motive : List α → Prop} (nil : motive [])
    (body : ∀ body, (∀ x ∈ body, p x = false) → body ≠ [] → motive body)
    (piece : ∀ body c rest, (∀ x ∈ body, p x = false) → p c = true → motive rest →
      motive (body ++ c :: rest)) (xs : List α) : motive xs := by
  induction hn : xs.length using Nat.strong_induction_on generalizing xs with
  | _ n ih =>
    have hsplit := List.takeWhile_append_dropWhile (p := fun x => !p x) (l := xs)
    have hbody : ∀ x ∈ xs.takeWhile fun x => !p x, p x = false := fun x hx => by
      simpa using List.mem_takeWhile_imp hx
    cases hrest : xs.dropWhile fun x => !p x with
    | nil =>
      rw [hrest, List.append_nil] at hsplit
      by_cases hnil : xs = []
      · exact hnil ▸ nil
      · exact body xs (hsplit ▸ hbody) hnil
    | cons c rest =>
      have hc : p c = true := by
        have := List.head_dropWhile_not (fun x => !p x) (l := xs) (by simp [hrest])
        simpa [hrest] using this
      rw [hrest] at hsplit
      rw [← hsplit]
      refine piece _ c rest hbody hc (ih rest.length ?_ rest rfl)
      rw [← hn, ← hsplit, List.length_append, List.length_cons]
      omega

/-- The pieces make up the text. -/
theorem flatten_splitInclusive (xs : List α) : (splitInclusive p xs).flatten = xs := by
  induction xs using pieces_induction (p := p) with
  | nil => rfl
  | body body hbody hne => rw [splitInclusive_body hbody hne, List.flatten_singleton]
  | piece body c rest hbody hc ih =>
    rw [splitInclusive_cons hbody hc, List.flatten_cons, ih, List.append_assoc,
      List.singleton_append]

/-- A piece has no mark but perhaps its last element. -/
theorem piece_spec {xs piece : List α} (h : piece ∈ splitInclusive p xs) :
    ∃ body tail, piece = body ++ tail ∧ (∀ x ∈ body, p x = false) ∧
      (tail = [] ∨ ∃ c, tail = [c] ∧ p c = true) := by
  induction xs using pieces_induction (p := p) with
  | nil => cases h
  | body body hbody hne =>
    rw [splitInclusive_body hbody hne, List.mem_singleton] at h
    exact ⟨body, [], by rw [h, List.append_nil], hbody, Or.inl rfl⟩
  | piece body c rest hbody hc ih =>
    rw [splitInclusive_cons hbody hc] at h
    rcases List.mem_cons.mp h with rfl | h
    · exact ⟨body, [c], rfl, hbody, Or.inr ⟨c, rfl, hc⟩⟩
    · exact ih h

theorem splitInclusive_append (hsep : p sep = true) (xs ys : List α) :
    splitInclusive p (xs ++ sep :: ys) =
      splitInclusive p (xs ++ [sep]) ++ splitInclusive p ys := by
  induction xs using pieces_induction (p := p) with
  | nil =>
    have hnone : ∀ x ∈ ([] : List α), p x = false := by simp
    rw [splitInclusive_cons hnone hsep, splitInclusive_cons hnone hsep]
    rfl
  | body body hbody hne =>
    rw [splitInclusive_cons hbody hsep, splitInclusive_cons hbody hsep]
    rfl
  | piece body c rest hbody hc ih =>
    rw [List.append_assoc, List.append_assoc, List.cons_append, List.cons_append,
      splitInclusive_cons hbody hc, splitInclusive_cons hbody hc, ih, List.cons_append]

end Pieces

end Okc.Lib
