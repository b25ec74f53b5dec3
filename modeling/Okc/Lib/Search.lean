import Mathlib

/-!
# Occurrences and runs in a list

Left-to-right searches with the offsets they report. The width of an element is a parameter, so
that the offsets may count bytes of characters.

* `matchesFrom`: where a word begins, without overlaps (`str::match_indices`). `mem_matches`: each
  match is an occurrence. `exists_match`: an occurrence is matched, or the match it overlaps ends
  inside it.
* `runsFrom`: the maximal runs of a class of elements, each begun at an element that opens one.
  `exists_run`: a run covers every segment of the class that begins with an opener.
* `splitInclusive`, `findSub`: `str::split_inclusive` and `str::find`.
* `cutAt`, `splitOnce`: the texts around the first occurrence of a word or of a character.
  `cutAt_eq_some`: no occurrence begins before the cut.
-/

namespace Okc.Lib

variable {α : Type} (width : α → Nat)

/-- The width of a segment. -/
def extent (xs : List α) : Nat := (xs.map width).sum

@[simp] theorem extent_nil : extent width ([] : List α) = 0 := rfl

@[simp] theorem extent_cons (x : α) (xs : List α) :
    extent width (x :: xs) = width x + extent width xs := by
  simp [extent]

@[simp] theorem extent_append (xs ys : List α) :
    extent width (xs ++ ys) = extent width xs + extent width ys := by
  simp [extent]

/-! ## Occurrences -/

section Matches

variable [DecidableEq α] (needle : List α)

/-- The offsets at which `needle` begins, each with what follows the occurrence. The second
argument counts the elements of the last match still to be passed over. -/
def matchesFrom : Nat → Nat → List α → List (Nat × List α)
  | _, _, [] => []
  | offset, skip + 1, x :: xs => matchesFrom (offset + width x) skip xs
  | offset, 0, x :: xs =>
    if needle <+: x :: xs then
      (offset, (x :: xs).drop needle.length) ::
        matchesFrom (offset + width x) (needle.length - 1) xs
    else matchesFrom (offset + width x) 0 xs

variable {width needle}

/-- **A match is an occurrence**, at the offset it reports. -/
theorem mem_matches {offset skip : Nat} {xs : List α} {m : Nat × List α}
    (h : m ∈ matchesFrom width needle offset skip xs) :
    ∃ before, xs = before ++ needle ++ m.2 ∧ m.1 = offset + extent width before := by
  induction xs generalizing offset skip with
  | nil => cases skip <;> simp [matchesFrom] at h
  | cons x xs ih =>
    have later : ∀ {skip}, m ∈ matchesFrom width needle (offset + width x) skip xs →
        ∃ before, x :: xs = before ++ needle ++ m.2 ∧ m.1 = offset + extent width before := by
      intro skip hm
      obtain ⟨before, hx, ho⟩ := ih hm
      refine ⟨x :: before, by simp [hx], ?_⟩
      rw [ho, extent_cons]
      omega
    cases skip with
    | succ skip => exact later h
    | zero =>
      unfold matchesFrom at h
      split at h
      · rename_i hp
        rcases List.mem_cons.mp h with rfl | h
        · exact ⟨[], by simp [List.prefix_iff_eq_append.mp hp], by simp⟩
        · exact later h
      · exact later h

/-- **An occurrence is not missed**: some match ends where it ends, or inside it. -/
theorem exists_match {offset skip : Nat} {before after : List α} (hskip : skip ≤ before.length)
    (hne : needle ≠ []) :
    ∃ m ∈ matchesFrom width needle offset skip (before ++ needle ++ after),
      ∃ inner, inner <:+ needle ∧ m.2 = inner ++ after := by
  induction before generalizing offset skip with
  | nil =>
    obtain rfl : skip = 0 := by simpa using hskip
    obtain ⟨x, xs, rfl⟩ := List.exists_cons_of_ne_nil hne
    refine ⟨(offset, after), ?_, [], List.nil_suffix, rfl⟩
    simp only [List.nil_append, List.cons_append]
    unfold matchesFrom
    rw [if_pos ⟨after, by simp⟩]
    exact List.mem_cons.mpr (Or.inl (by simp))
  | cons x before ih =>
    simp only [List.cons_append]
    cases skip with
    | succ skip => exact ih (by simpa using hskip)
    | zero =>
      unfold matchesFrom
      split
      · by_cases hlen : needle.length ≤ before.length + 1
        · have hskip : needle.length - 1 ≤ before.length := by omega
          obtain ⟨m, hm, h⟩ := @ih (offset + width x) _ hskip
          exact ⟨m, List.mem_cons_of_mem _ hm, h⟩
        · -- The match at `x` reaches into the occurrence.
          refine ⟨_, List.mem_cons_self, needle.drop (needle.length - (before.length + 1)),
            List.drop_suffix _ _, ?_⟩
          have hd : (x :: before ++ (needle ++ after)).drop needle.length =
              (needle ++ after).drop (needle.length - (before.length + 1)) := by
            rw [List.drop_append, List.drop_eq_nil_of_le (by simp; omega)]
            simp
          rw [← List.drop_append_of_le_length (by omega), ← hd]
          simp
      · exact ih (Nat.zero_le _)

end Matches

/-! ## Runs -/

section Runs

variable (opens inside : α → Bool)

/-- The maximal runs of elements `inside` the class, each from an element that `opens` one, with
their offsets. The second argument counts the elements of the last run still to be passed over. -/
def runsFrom : Nat → Nat → List α → List (Nat × List α)
  | _, _, [] => []
  | offset, skip + 1, x :: xs => runsFrom (offset + width x) skip xs
  | offset, 0, x :: xs =>
    if opens x then
      (offset, (x :: xs).takeWhile inside) ::
        runsFrom (offset + width x) (((x :: xs).takeWhile inside).length - 1) xs
    else runsFrom (offset + width x) 0 xs

variable {width opens inside}

/-- A run is a segment of the list, all of it in the class, at the offset it reports. -/
theorem mem_runs {offset skip : Nat} {xs : List α} {r : Nat × List α}
    (h : r ∈ runsFrom width opens inside offset skip xs) :
    (∀ x ∈ r.2, inside x = true) ∧
      ∃ before after, xs = before ++ r.2 ++ after ∧ r.1 = offset + extent width before := by
  induction xs generalizing offset skip with
  | nil => cases skip <;> simp [runsFrom] at h
  | cons x xs ih =>
    have later : ∀ {skip}, r ∈ runsFrom width opens inside (offset + width x) skip xs →
        (∀ x ∈ r.2, inside x = true) ∧ ∃ before after,
          x :: xs = before ++ r.2 ++ after ∧ r.1 = offset + extent width before := by
      intro skip hr
      obtain ⟨hin, before, after, hx, ho⟩ := ih hr
      refine ⟨hin, x :: before, after, by simp [hx], ?_⟩
      rw [ho, extent_cons]
      omega
    cases skip with
    | succ skip => exact later h
    | zero =>
      unfold runsFrom at h
      split at h
      · rcases List.mem_cons.mp h with rfl | h
        · refine ⟨fun y hy => List.mem_takeWhile_imp hy, [], (x :: xs).dropWhile inside, ?_, ?_⟩
          · exact (List.takeWhile_append_dropWhile).symm
          · simp
        · exact later h
      · exact later h

/-- **A segment of the class is covered by one run** when its first element opens one. -/
theorem exists_run {offset skip : Nat} {before segment after : List α} (hskip : skip ≤ before.length)
    (hin : ∀ x ∈ segment, inside x = true) (hhead : ∃ x ∈ segment.head?, opens x = true) :
    ∃ r ∈ runsFrom width opens inside offset skip (before ++ segment ++ after),
      segment <:+: r.2 := by
  have htake : ∀ {tail : List α}, (segment ++ tail).takeWhile inside =
      segment ++ tail.takeWhile inside := fun {tail} =>
    List.takeWhile_append_of_pos fun x hx => hin x hx
  induction before generalizing offset skip with
  | nil =>
    obtain rfl : skip = 0 := by simpa using hskip
    obtain ⟨x, hx, hopens⟩ := hhead
    obtain ⟨tail, rfl⟩ := List.head?_eq_some_iff.mp (Option.mem_def.mp hx)
    refine ⟨(offset, (x :: tail ++ after).takeWhile inside), ?_, ?_⟩
    · simp only [List.nil_append, List.cons_append]
      unfold runsFrom
      rw [if_pos hopens]
      exact List.mem_cons_self
    · exact ⟨[], after.takeWhile inside, by rw [htake, List.nil_append]⟩
  | cons x before ih =>
    simp only [List.cons_append]
    cases skip with
    | succ skip => exact ih (by simpa using hskip)
    | zero =>
      unfold runsFrom
      split
      · by_cases hall : ∀ y ∈ x :: before, inside y = true
        · -- The run from `x` goes on through the whole segment.
          refine ⟨_, List.mem_cons_self, x :: before, after.takeWhile inside, ?_⟩
          have h := @List.takeWhile_append_of_pos _ inside _ (segment ++ after) hall
          rw [htake] at h
          simpa [List.append_assoc] using h.symm
        · have hlen : ((x :: (before ++ segment ++ after)).takeWhile inside).length - 1 ≤
              before.length := by
            have h := @List.takeWhile_append _ inside (x :: before) (segment ++ after)
            have hshort : ((x :: before).takeWhile inside).length ≠ (x :: before).length := by
              intro heq
              refine hall fun y hy => ?_
              have := (List.takeWhile_prefix inside (l := x :: before)).eq_of_length heq
              exact List.mem_takeWhile_imp (this.symm ▸ hy)
            rw [if_neg hshort] at h
            have hle := (List.takeWhile_prefix inside (l := x :: before)).length_le
            simp only [List.cons_append, List.append_assoc] at h ⊢
            rw [h]
            simp only [List.length_cons] at hle
            omega
          obtain ⟨r, hr, h⟩ := @ih (offset + width x) _ hlen
          exact ⟨r, List.mem_cons_of_mem _ hr, h⟩
      · exact ih (Nat.zero_le _)

end Runs

/-! ## Pieces -/

/-- `str::split_inclusive`: each piece but the last ends with an element `p` accepts. -/
def splitInclusive (p : α → Bool) : List α → List (List α)
  | [] => []
  | x :: xs =>
    if p x then [x] :: splitInclusive p xs
    else
      match splitInclusive p xs with
      | [] => [[x]]
      | piece :: pieces => (x :: piece) :: pieces

/-- `str::find` of a word. -/
def findSub [DecidableEq α] (needle : List α) : Nat → List α → Option Nat
  | offset, [] => if needle = [] then some offset else none
  | offset, x :: xs =>
    if needle <+: x :: xs then some offset else findSub needle (offset + width x) xs

/-! ## Cutting at a word -/

section Cut

variable [DecidableEq α]

/-- What stands before the first occurrence of a word, and what after it. -/
def cutAt (needle : List α) : List α → Option (List α × List α)
  | [] => if needle = [] then some ([], []) else none
  | x :: xs =>
    if needle <+: x :: xs then some ([], (x :: xs).drop needle.length)
    else (cutAt needle xs).map fun cut => (x :: cut.1, cut.2)

/-- The cut is at an occurrence, and no occurrence begins before it. -/
theorem cutAt_eq_some {needle : List α} : ∀ {xs before after : List α},
    cutAt needle xs = some (before, after) ↔ xs = before ++ needle ++ after ∧
      ∀ pre post, xs = pre ++ needle ++ post → before.length ≤ pre.length
  | [], before, after => by
    rw [cutAt]
    by_cases hn : needle = []
    · rw [if_pos hn, hn]
      simp only [Option.some.injEq, Prod.mk.injEq, List.append_nil, List.nil_eq_append_iff]
      constructor
      · rintro ⟨rfl, rfl⟩
        exact ⟨⟨rfl, rfl⟩, fun _ _ _ => Nat.zero_le _⟩
      · rintro ⟨⟨rfl, rfl⟩, -⟩
        exact ⟨rfl, rfl⟩
    · rw [if_neg hn]
      simp [hn]
  | x :: xs, before, after => by
    rw [cutAt]
    by_cases hp : needle <+: x :: xs
    · rw [if_pos hp]
      obtain ⟨post, hpost⟩ := hp
      simp only [Option.some.injEq, Prod.mk.injEq]
      constructor
      · rintro ⟨rfl, rfl⟩
        exact ⟨by simp [← hpost], fun _ _ _ => Nat.zero_le _⟩
      · rintro ⟨hxs, hmin⟩
        have hbefore : before = [] := List.length_eq_zero_iff.mp
          (Nat.le_zero.mp (hmin [] post (by simpa using hpost.symm)))
        refine ⟨hbefore.symm, ?_⟩
        rw [hxs, hbefore]
        simp
    · rw [if_neg hp, Option.map_eq_some_iff]
      constructor
      · rintro ⟨⟨b, a⟩, hcut, he⟩
        obtain ⟨rfl, rfl⟩ := Prod.mk.inj he
        obtain ⟨hxs, hmin⟩ := cutAt_eq_some.mp hcut
        refine ⟨by rw [hxs]; rfl, fun pre post hpre => ?_⟩
        cases pre with
        | nil => exact absurd ⟨post, by simpa using hpre.symm⟩ hp
        | cons y pre =>
          obtain ⟨rfl, htail⟩ := List.cons.inj hpre
          exact Nat.succ_le_succ (hmin pre post htail)
      · rintro ⟨hxs, hmin⟩
        cases before with
        | nil => exact absurd ⟨after, by simpa using hxs.symm⟩ hp
        | cons y before =>
          obtain ⟨rfl, htail⟩ := List.cons.inj hxs
          refine ⟨(before, after), cutAt_eq_some.mpr ⟨htail, fun pre post hpre => ?_⟩, rfl⟩
          exact Nat.succ_le_succ_iff.mp (hmin (x :: pre) post (by rw [hpre]; rfl))

theorem cutAt_isSome {needle xs : List α} (h : needle <:+: xs) :
    ∃ cut, cutAt needle xs = some cut := by
  induction xs with
  | nil => exact ⟨_, by rw [cutAt, if_pos (List.infix_nil.mp h)]⟩
  | cons x xs ih =>
    rw [cutAt]
    by_cases hp : needle <+: x :: xs
    · exact ⟨_, if_pos hp⟩
    · obtain ⟨cut, hcut⟩ := ih ((List.infix_cons_iff.mp h).resolve_left hp)
      exact ⟨_, by rw [if_neg hp, hcut]; rfl⟩

/-- `str::split_once` of one character: what stands before it, and, where it occurs, what after. -/
def splitOnce (sep : α) : List α → List α × Option (List α)
  | [] => ([], none)
  | x :: xs =>
    if x = sep then ([], some xs)
    else
      let rest := splitOnce sep xs
      (x :: rest.1, rest.2)

theorem splitOnce_of_not_mem {sep : α} {xs : List α} (h : sep ∉ xs) :
    splitOnce sep xs = (xs, none) := by
  induction xs with
  | nil => rfl
  | cons x xs ih =>
    obtain ⟨hx, hxs⟩ : sep ≠ x ∧ sep ∉ xs := by simpa using h
    rw [splitOnce, if_neg (Ne.symm hx), ih hxs]

theorem splitOnce_append {sep : α} {xs : List α} (h : sep ∉ xs) (ys : List α) :
    splitOnce sep (xs ++ sep :: ys) = (xs, some ys) := by
  induction xs with
  | nil => simp [splitOnce]
  | cons x xs ih =>
    obtain ⟨hx, hxs⟩ : sep ≠ x ∧ sep ∉ xs := by simpa using h
    rw [List.cons_append, splitOnce, if_neg (Ne.symm hx), ih hxs]

theorem splitOnce_snd_eq_none {sep : α} {xs : List α} : (splitOnce sep xs).2 = none ↔ sep ∉ xs := by
  induction xs with
  | nil => simp [splitOnce]
  | cons x xs ih =>
    rw [splitOnce]
    by_cases hx : x = sep
    · simp [hx]
    · simp [hx, ih, Ne.symm hx]

/-- **A text that ends in a marked part splits at the mark.** -/
theorem splitOnce_tail {sep : α} {xs : List α} (h : sep ∉ xs) (tail : Option (List α)) :
    splitOnce sep (xs ++ (tail.map (sep :: ·)).getD []) = (xs, tail) := by
  cases tail with
  | none => rw [Option.map_none, Option.getD_none, List.append_nil, splitOnce_of_not_mem h]
  | some ys => exact splitOnce_append h ys

/-- What a split gives is the text, cut at its first mark. -/
theorem splitOnce_eq {sep : α} {xs ys : List α} {tail : Option (List α)}
    (h : splitOnce sep xs = (ys, tail)) :
    sep ∉ ys ∧ xs = ys ++ (tail.map (sep :: ·)).getD [] := by
  induction xs generalizing ys with
  | nil =>
    cases h
    exact ⟨List.not_mem_nil, rfl⟩
  | cons x xs ih =>
    rw [splitOnce] at h
    split at h
    · next hx =>
      cases h
      exact ⟨List.not_mem_nil, by rw [hx]; rfl⟩
    · next hx =>
      cases h
      obtain ⟨hsep, heq⟩ := ih rfl
      refine ⟨?_, ?_⟩
      · rw [List.mem_cons, not_or]
        exact ⟨Ne.symm hx, hsep⟩
      · rw [List.cons_append, ← heq]

end Cut

/-- In ascending order the first find is the least. -/
theorem find?_eq_some_of_ascending {α : Type} [LinearOrder α] {p : α → Bool} {l : List α}
    (hl : l.Pairwise (· < ·)) {x : α} :
    l.find? p = some x ↔ x ∈ l ∧ p x = true ∧ ∀ y ∈ l, y < x → p y = false := by
  induction l with
  | nil => simp
  | cons a l ih =>
    obtain ⟨hfirst, hrest⟩ := List.pairwise_cons.mp hl
    rw [List.find?_cons]
    cases ha : p a with
    | true =>
      constructor
      · intro h
        obtain rfl := Option.some.inj h
        refine ⟨List.mem_cons_self, ha, fun y hy hlt => ?_⟩
        rcases List.mem_cons.mp hy with rfl | hy
        · exact absurd hlt (lt_irrefl _)
        · exact absurd hlt (hfirst y hy).not_gt
      · rintro ⟨hx, -, hmin⟩
        rcases List.mem_cons.mp hx with rfl | hx
        · rfl
        · exact absurd (hmin a List.mem_cons_self (hfirst x hx)) (by simp [ha])
    | false =>
      rw [ih hrest]
      constructor
      · rintro ⟨hx, hpx, hmin⟩
        refine ⟨List.mem_cons_of_mem _ hx, hpx, fun y hy hlt => ?_⟩
        rcases List.mem_cons.mp hy with rfl | hy
        · exact ha
        · exact hmin y hy hlt
      · rintro ⟨hx, hpx, hmin⟩
        rcases List.mem_cons.mp hx with rfl | hx
        · exact absurd hpx (by simp [ha])
        · exact ⟨hx, hpx, fun y hy => hmin y (List.mem_cons_of_mem _ hy)⟩

end Okc.Lib
