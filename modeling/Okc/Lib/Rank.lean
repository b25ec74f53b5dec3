import Okc.Lib.SortBy

/-!
# The first few of a sorted list

Whether an element is among the first few of a sorted list is a matter of how many others come
before it, whatever the order in which the list was given.

* `mem_take_iff_below`: the first `n` of a sorted list have fewer than `n` below them.
* `pairwise_sortBy_lex`: a sort by one key keeps the order that the list had by another.
* `mem_take_sortBy`: the two together.
-/

namespace Okc.Lib

variable {κ ι α : Type} [LinearOrder κ] [LinearOrder ι]

/-- How many elements of the list have a key below `k`. -/
def below (key : α → κ) (l : List α) (k : κ) : Nat := l.countP fun a => decide (key a < k)

theorem below_perm {key : α → κ} {l m : List α} (h : m.Perm l) (k : κ) :
    below key m k = below key l k := h.countP_eq _

theorem below_le_of_sublist {key : α → κ} {l m : List α} (h : m.Sublist l) (k : κ) :
    below key m k ≤ below key l k := h.countP_le

theorem below_cons_of_lt {key : α → κ} {a : α} {k : κ} (h : key a < k) (l : List α) :
    below key (a :: l) k = below key l k + 1 :=
  List.countP_cons_of_pos (decide_eq_true h)

/-- **The first `n` of a sorted list are those with fewer than `n` below them.** -/
theorem mem_take_iff_below {key : α → κ} {l : List α} (h : l.Pairwise fun a b => key a < key b)
    {n : Nat} {a : α} : a ∈ l.take n ↔ a ∈ l ∧ below key l (key a) < n := by
  induction l generalizing n with
  | nil => simp
  | cons b l ih =>
    obtain ⟨hb, hl⟩ := List.pairwise_cons.mp h
    cases n with
    | zero => simp
    | succ n =>
      rw [List.take_succ_cons, List.mem_cons, List.mem_cons, ih hl]
      constructor
      · rintro (rfl | ⟨ha, hbelow⟩)
        · have hnone : below key (a :: l) (key a) = 0 := by
            refine List.countP_eq_zero.mpr fun c hc => ?_
            rw [decide_eq_true_eq, not_lt]
            rcases List.mem_cons.mp hc with rfl | hc
            · exact le_rfl
            · exact (hb c hc).le
          exact ⟨.inl rfl, hnone ▸ Nat.succ_pos n⟩
        · refine ⟨.inr ha, ?_⟩
          rw [below_cons_of_lt (hb a ha)]
          exact Nat.succ_lt_succ hbelow
      · rintro ⟨rfl | ha, hbelow⟩
        · exact .inl rfl
        · refine .inr ⟨ha, ?_⟩
          rw [below_cons_of_lt (hb a ha)] at hbelow
          exact Nat.lt_of_succ_lt_succ hbelow

/-- **A sort by a key keeps the order by another** among the elements of one key. -/
theorem pairwise_sortBy_lex (key : α → κ) {other : α → ι} {l : List α}
    (h : l.Pairwise fun a b => other a < other b) :
    (sortBy key l).Pairwise fun a b => toLex (key a, other a) < toLex (key b, other b) := by
  have hsorted := pairwise_sortBy key l
  rw [List.pairwise_iff_forall_sublist] at hsorted ⊢
  intro a b hab
  rw [Prod.Lex.toLex_lt_toLex]
  rcases (hsorted hab).lt_or_eq with hlt | heq
  · exact .inl hlt
  · refine .inr ⟨heq, ?_⟩
    have hkept := hab.filter fun c => decide (key c = key b)
    rw [filter_sortBy, List.filter_eq_self.mpr (by simp [heq])] at hkept
    exact List.pairwise_iff_forall_sublist.mp (h.filter _) hkept

/-- The first `n` of the sort, by the key and by the order that the list came in. -/
theorem mem_take_sortBy (key : α → κ) {other : α → ι} {l : List α}
    (h : l.Pairwise fun a b => other a < other b) {n : Nat} {a : α} :
    a ∈ (sortBy key l).take n ↔ a ∈ l ∧
      below (fun b => toLex (key b, other b)) l (toLex (key a, other a)) < n := by
  rw [mem_take_iff_below (pairwise_sortBy_lex key h), mem_sortBy,
    below_perm (sortBy_perm key l)]

end Okc.Lib
