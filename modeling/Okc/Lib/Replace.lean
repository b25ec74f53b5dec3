import Mathlib

/-!
# Replacing a word, and templates

`replaceFrom` is `str::replace`: every occurrence of a word, from left to right and without
overlaps, gives way to another. A template is a text with holes, `none`, which `fill` puts a word
in.

* `replaceFrom_fill`: where a word occurs in a filled template at the holes only, to replace it
  there is to fill the holes with the other.
* `not_infix_fill`: and then the word is gone, if what replaced it cannot be part of it.
* `take_fill`, `OnlyAtHoles.cut`: the front of a filled template is a filled template too, with the
  front of one word where the cut goes through a hole.
-/

namespace Okc.Lib

variable {α : Type}

section Replace

variable [DecidableEq α]

/-- `str::replace`. The third argument counts the elements of the last occurrence still to be passed
over. -/
def replaceFrom (needle new : List α) : Nat → List α → List α
  | _, [] => []
  | skip + 1, _ :: xs => replaceFrom needle new skip xs
  | 0, x :: xs =>
    if needle <+: x :: xs then new ++ replaceFrom needle new (needle.length - 1) xs
    else x :: replaceFrom needle new 0 xs

variable {needle new : List α}

theorem replaceFrom_skip (xs ys : List α) :
    replaceFrom needle new xs.length (xs ++ ys) = replaceFrom needle new 0 ys := by
  induction xs with
  | nil => rfl
  | cons x xs ih => exact ih

theorem replaceFrom_word (hne : needle ≠ []) (ys : List α) :
    replaceFrom needle new 0 (needle ++ ys) = new ++ replaceFrom needle new 0 ys := by
  obtain ⟨x, xs, rfl⟩ := List.exists_cons_of_ne_nil hne
  rw [List.cons_append, replaceFrom, if_pos ⟨ys, rfl⟩, List.length_cons, Nat.add_sub_cancel,
    replaceFrom_skip]

theorem replaceFrom_of_not_infix {xs : List α} (h : ¬ needle <:+: xs) :
    replaceFrom needle new 0 xs = xs := by
  induction xs with
  | nil => rfl
  | cons x xs ih =>
    rw [List.infix_cons_iff, not_or] at h
    rw [replaceFrom, if_neg h.1, ih h.2]

end Replace

/-! ## Templates -/

/-- A template with a word in its holes. -/
def fill (word : List α) (t : List (Option α)) : List α :=
  t.flatMap fun c => c.elim word fun x => [x]

/-- The word occurs in the filled template where a hole is, and nowhere else. -/
def OnlyAtHoles (word : List α) (t : List (Option α)) : Prop :=
  ∀ before after, fill word t = before ++ word ++ after →
    ∃ front back, t = front ++ none :: back ∧ fill word front = before

variable {word new : List α} {t : List (Option α)}

@[simp] theorem fill_nil : fill word [] = [] := rfl

@[simp] theorem fill_some (x : α) : fill word (some x :: t) = x :: fill word t := rfl

@[simp] theorem fill_none : fill word (none :: t) = word ++ fill word t := rfl

@[simp] theorem fill_append (s t : List (Option α)) :
    fill word (s ++ t) = fill word s ++ fill word t :=
  List.flatMap_append

@[simp] theorem fill_text (xs : List α) : fill word (xs.map some) = xs := by
  induction xs with
  | nil => rfl
  | cons x xs ih => rw [List.map_cons, fill_some, ih]

theorem OnlyAtHoles.tail_some {x : α} (h : OnlyAtHoles word (some x :: t)) :
    OnlyAtHoles word t ∧ ¬ word <+: x :: fill word t := by
  constructor
  · intro before after hfill
    obtain ⟨front, back, ht, hfront⟩ := h (x :: before) after (by rw [fill_some, hfill]; rfl)
    cases front with
    | nil => cases ht
    | cons c front =>
      obtain ⟨rfl, rfl⟩ := List.cons.inj ht
      exact ⟨front, back, rfl, (List.cons.inj hfront).2⟩
  · rintro ⟨after, hafter⟩
    obtain ⟨front, back, ht, hfront⟩ := h [] after hafter.symm
    cases front with
    | nil => cases ht
    | cons c front =>
      obtain ⟨rfl, rfl⟩ := List.cons.inj ht
      cases hfront

theorem OnlyAtHoles.tail_none (hne : word ≠ []) (h : OnlyAtHoles word (none :: t)) :
    OnlyAtHoles word t := by
  intro before after hfill
  obtain ⟨front, back, ht, hfront⟩ := h (word ++ before) after (by rw [fill_none, hfill]; simp)
  cases front with
  | nil => exact absurd (List.append_eq_nil_iff.mp hfront.symm).1 hne
  | cons c front =>
    obtain ⟨rfl, rfl⟩ := List.cons.inj ht
    exact ⟨front, back, rfl, List.append_cancel_left hfront⟩

/-- **Replacing a word that occurs at the holes only fills them with the other.** -/
theorem replaceFrom_fill [DecidableEq α] (hne : word ≠ []) (h : OnlyAtHoles word t) :
    replaceFrom word new 0 (fill word t) = fill new t := by
  induction t with
  | nil => rfl
  | cons c t ih =>
    cases c with
    | some x =>
      obtain ⟨htail, hstart⟩ := h.tail_some
      rw [fill_some, replaceFrom, if_neg hstart, ih htail, fill_some]
    | none => rw [fill_none, replaceFrom_word hne, ih (h.tail_none hne), fill_none]

/-- A word that occurs before a template occurs at no hole of it. -/
theorem OnlyAtHoles.not_infix_text {xs : List α} (hne : word ≠ [])
    (h : OnlyAtHoles word (xs.map some ++ t)) : ¬ word <:+: xs := by
  induction xs with
  | nil => exact fun hin => hne (List.infix_nil.mp hin)
  | cons x xs ih =>
    obtain ⟨htail, hstart⟩ := h.tail_some
    rw [List.infix_cons_iff, not_or]
    refine ⟨fun hp => hstart (hp.trans ⟨fill word t, ?_⟩), ih htail⟩
    show x :: xs ++ fill word t = x :: fill word (xs.map some ++ t)
    rw [fill_append, fill_text, List.cons_append]

theorem OnlyAtHoles.drop_text {xs : List α} (h : OnlyAtHoles word (xs.map some ++ t)) :
    OnlyAtHoles word t := by
  induction xs with
  | nil => exact h
  | cons x xs ih => exact ih h.tail_some.1

/-- **The word is gone**, if what replaced it takes no part in an occurrence. -/
theorem not_infix_fill (hne : word ≠ [])
    (hnew : ∀ xs ys, word <:+: xs ++ new ++ ys → word <:+: xs ∨ word <:+: ys)
    (h : OnlyAtHoles word t) : ¬ word <:+: fill new t := by
  suffices hall : ∀ xs, OnlyAtHoles word (xs.map some ++ t) → ¬ word <:+: xs ++ fill new t from
    hall [] h
  clear h
  induction t with
  | nil =>
    intro xs hxs
    rw [fill_nil, List.append_nil]
    exact hxs.not_infix_text hne
  | cons c t ih =>
    intro xs hxs hin
    cases c with
    | some x =>
      refine ih (xs ++ [x]) (by simpa using hxs) ?_
      rw [List.append_assoc]
      exact hin
    | none =>
      rw [fill_none, ← List.append_assoc] at hin
      rcases hnew _ _ hin with hin | hin
      · exact hxs.not_infix_text hne hin
      · exact ih [] (hxs.drop_text.tail_none hne) hin

/-! ## The front of a filled template -/

/-- What is left of a template when its filled text is cut, and how much of the word in the hole
that the cut goes through. -/
def cut (width : Nat) : Nat → List (Option α) → List (Option α) × Nat
  | _, [] => ([], 0)
  | 0, _ :: _ => ([], 0)
  | n + 1, some x :: t => (some x :: (cut width n t).1, (cut width n t).2)
  | n + 1, none :: t =>
    if width ≤ n + 1 then (none :: (cut width (n + 1 - width) t).1, (cut width (n + 1 - width) t).2)
    else ([], n + 1)

/-- A text is kept, and what follows it is cut. -/
theorem cut_text (width n : Nat) (xs : List α) (t : List (Option α)) :
    cut width (xs.length + n) (xs.map some ++ t) =
      (xs.map some ++ (cut width n t).1, (cut width n t).2) := by
  induction xs with
  | nil => rw [List.length_nil, Nat.zero_add]; rfl
  | cons x xs ih =>
    rw [List.length_cons, Nat.add_right_comm, List.map_cons, List.cons_append, cut, ih,
      List.cons_append]

theorem take_fill (n : Nat) (t : List (Option α)) :
    (fill word t).take n =
      fill word (cut word.length n t).1 ++ word.take (cut word.length n t).2 := by
  induction t generalizing n with
  | nil => simp [cut]
  | cons c t ih =>
    cases n with
    | zero => simp [cut]
    | succ n =>
      cases c with
      | some x => rw [cut, fill_some, List.take_succ_cons, ih, fill_some, List.cons_append]
      | none =>
        rw [cut, fill_none]
        split
        · rename_i hle
          rw [List.take_append, List.take_of_length_le hle, ih, fill_none, List.append_assoc]
        · rename_i hgt
          rw [List.take_append_of_le_length (by omega)]
          rfl

theorem cut_prefix (width n : Nat) (t : List (Option α)) : (cut width n t).1 <+: t := by
  induction t generalizing n with
  | nil => exact List.nil_prefix
  | cons c t ih =>
    cases n with
    | zero => exact List.nil_prefix
    | succ n =>
      cases c with
      | some x =>
        rw [cut, List.cons_prefix_cons]
        exact ⟨rfl, ih n⟩
      | none =>
        rw [cut]
        split
        · rw [List.cons_prefix_cons]
          exact ⟨rfl, ih _⟩
        · exact List.nil_prefix

theorem cut_lt {width : Nat} (hpos : 0 < width) (n : Nat) (t : List (Option α)) :
    (cut width n t).2 < width := by
  induction t generalizing n with
  | nil => exact hpos
  | cons c t ih =>
    cases n with
    | zero => exact hpos
    | succ n =>
      cases c with
      | some x => exact ih n
      | none =>
        rw [cut]
        split
        · exact ih _
        · rename_i hgt
          exact Nat.lt_of_not_le hgt

/-- The front of a filled template, as a template. -/
theorem OnlyAtHoles.cut (hne : word ≠ []) (n : Nat) (h : OnlyAtHoles word t) :
    OnlyAtHoles word ((Okc.Lib.cut word.length n t).1 ++
      (word.take (Okc.Lib.cut word.length n t).2).map some) := by
  intro before after hfill
  obtain ⟨rest, hrest⟩ := cut_prefix word.length n t
  have hlt := cut_lt (List.length_pos_iff.mpr hne) n t
  rw [fill_append, fill_text, ← take_fill] at hfill
  have hwhole : fill word t = before ++ word ++ (after ++ (fill word t).drop n) := by
    rw [← List.append_assoc, ← hfill, List.take_append_drop]
  obtain ⟨front, back, ht, hfront⟩ := h before _ hwhole
  have hhole : front ++ [none] <+: t := ⟨back, by rw [ht]; simp⟩
  rcases List.prefix_or_prefix_of_prefix hhole ⟨rest, hrest⟩ with ⟨more, hmore⟩ | ⟨more, hmore⟩
  · rw [← hmore]
    exact ⟨front, more ++ (word.take (Okc.Lib.cut word.length n t).2).map some, by simp, hfront⟩
  · -- The occurrence would end beyond the cut.
    rw [take_fill] at hfill
    have hlen := congrArg List.length hfill
    have hfilled := congrArg (fun s => (fill word s).length) hmore
    rcases List.eq_nil_or_concat more with rfl | ⟨more, c, rfl⟩
    · rw [List.append_nil] at hmore
      rw [hmore]
      exact ⟨front, _, by rw [List.append_assoc]; rfl, hfront⟩
    · rw [List.concat_eq_append, ← List.append_assoc] at hmore
      obtain ⟨-, hc⟩ := List.append_inj' hmore rfl
      obtain rfl : c = none := by simpa using hc
      simp only [List.length_append, List.length_take, fill_append, hfront, fill_none, fill_nil,
        List.concat_eq_append, List.append_nil] at hlen hfilled
      omega

end Okc.Lib
