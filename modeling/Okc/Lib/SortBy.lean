import Mathlib

/-!
# Sorting by a key

`sort_by_key` is stable: elements with one key stay in the order they came in. Without such ties the
result depends on the elements only.

* `pairwise_sortBy`, `pairwise_lt_of_sortBy`: the result is sorted, strictly where no key repeats.
* `sortBy_congr`: two orders of elements that their keys tell apart are sorted alike.
* `sortBy_eq_self`: a sorted list stays as it is.
-/

namespace Okc.Lib

variable {κ α β : Type} [LinearOrder κ]

/-- `sort_by_key`. -/
def sortBy (key : α → κ) (l : List α) : List α := l.mergeSort fun a b => decide (key a ≤ key b)

theorem sortBy_perm (key : α → κ) (l : List α) : (sortBy key l).Perm l := List.mergeSort_perm _ _

@[simp] theorem mem_sortBy {key : α → κ} {l : List α} {a : α} : a ∈ sortBy key l ↔ a ∈ l :=
  (sortBy_perm key l).mem_iff

theorem decide_le_trans (key : α → κ) (a b c : α) (hab : decide (key a ≤ key b) = true)
    (hbc : decide (key b ≤ key c) = true) : decide (key a ≤ key c) = true :=
  decide_eq_true ((of_decide_eq_true hab).trans (of_decide_eq_true hbc))

theorem decide_le_total (key : α → κ) (a b : α) :
    (decide (key a ≤ key b) || decide (key b ≤ key a)) = true := by
  simpa using le_total (key a) (key b)

theorem pairwise_sortBy (key : α → κ) (l : List α) :
    (sortBy key l).Pairwise fun a b => key a ≤ key b :=
  (List.pairwise_mergeSort (decide_le_trans key) (decide_le_total key) l).imp of_decide_eq_true

/-- The sort is stable: the elements of one key stay in their order. -/
theorem filter_sortBy (key : α → κ) (l : List α) (k : κ) :
    (sortBy key l).filter (fun a => decide (key a = k)) =
      l.filter fun a => decide (key a = k) := by
  have hsame : (l.filter fun a => decide (key a = k)).Pairwise fun a b =>
      decide (key a ≤ key b) = true := by
    refine List.pairwise_of_forall_mem_list fun a ha b hb => decide_eq_true ?_
    rw [of_decide_eq_true (List.mem_filter.mp ha).2, of_decide_eq_true (List.mem_filter.mp hb).2]
  have hsub : (l.filter fun a => decide (key a = k)).Sublist (sortBy key l) :=
    List.sublist_mergeSort (decide_le_trans key) (decide_le_total key) hsame List.filter_sublist
  have hkept := hsub.filter fun a => decide (key a = k)
  simp only [List.filter_filter, Bool.and_self] at hkept
  exact (hkept.eq_of_length (((sortBy_perm key l).filter _).length_eq.symm)).symm

theorem pairwise_lt_of_sortBy {key : α → κ} {l : List α} (h : (l.map key).Nodup) :
    ((sortBy key l).map key).Pairwise (· < ·) := by
  have hnodup : ((sortBy key l).map key).Nodup := ((sortBy_perm key l).map key).nodup_iff.mpr h
  exact List.pairwise_map.mpr (((pairwise_sortBy key l).and (List.pairwise_map.mp hnodup)).imp
    fun ⟨hle, hne⟩ => lt_of_le_of_ne hle hne)

/-- Elements that their keys tell apart are sorted alike in every order. -/
theorem sortBy_congr {key : α → κ} {l m : List α} (hp : m.Perm l)
    (h : ∀ a ∈ l, ∀ b ∈ l, key a = key b → a = b) : sortBy key m = sortBy key l := by
  have hperm : (sortBy key m).Perm (sortBy key l) :=
    (sortBy_perm key m).trans (hp.trans (sortBy_perm key l).symm)
  refine hperm.eq_of_pairwise (fun a b ha hb hab hba => ?_) (pairwise_sortBy key m)
    (pairwise_sortBy key l)
  exact h a (hp.subset (mem_sortBy.mp ha)) b (mem_sortBy.mp hb) (le_antisymm hab hba)

theorem sortBy_congr_of_nodup {key : α → κ} {l m : List α} (hp : m.Perm l)
    (h : (l.map key).Nodup) : sortBy key m = sortBy key l :=
  sortBy_congr hp fun _ ha _ hb => List.inj_on_of_nodup_map h ha hb

theorem sortBy_eq_self {key : α → κ} {l : List α} (h : l.Pairwise fun a b => key a ≤ key b) :
    sortBy key l = l :=
  List.mergeSort_of_pairwise (h.imp decide_eq_true)

@[simp] theorem sortBy_sortBy (key : α → κ) (l : List α) :
    sortBy key (sortBy key l) = sortBy key l :=
  sortBy_eq_self (pairwise_sortBy key l)

/-- What keeps the keys can be done before or after sorting. -/
theorem map_sortBy (key : α → κ) (other : β → κ) {f : α → β} (h : ∀ a, other (f a) = key a)
    (l : List α) : (sortBy key l).map f = sortBy other (l.map f) :=
  List.map_mergeSort fun a _ b _ => by rw [h, h]

/-- A sorted list without repetitions is determined by its elements, when the key tells them
apart. -/
theorem dedup_sortBy_congr [DecidableEq α] {key : α → κ} (hkey : Function.Injective key)
    {l m : List α} (h : ∀ a, a ∈ m ↔ a ∈ l) : (sortBy key m).dedup = (sortBy key l).dedup := by
  have hperm : (sortBy key m).dedup.Perm (sortBy key l).dedup :=
    (List.perm_ext_iff_of_nodup (List.nodup_dedup _) (List.nodup_dedup _)).mpr fun a => by
      rw [List.mem_dedup, List.mem_dedup, mem_sortBy, mem_sortBy, h]
  exact hperm.eq_of_pairwise (fun a b _ _ hab hba => hkey (le_antisymm hab hba))
    ((pairwise_sortBy key m).sublist (List.dedup_sublist _))
    ((pairwise_sortBy key l).sublist (List.dedup_sublist _))

end Okc.Lib
