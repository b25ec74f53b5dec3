import Okc.Lib.OrdMap

/-!
# Grouping by key, and sorted sets

`sortedSet` is a list collected into a `BTreeSet`, or sorted and deduplicated. `groups` is the loop
`map.entry(key).or_default().push(value)` over a list of entries: an ordered map from each key to its
values, in the order of the entries.

* `mem_sortedSet`, `sortedSet_sorted`: the same elements, strictly increasing.
* `get?_groups`: the group of a key is what the entries with that key hold.
* `mem_groups`: a group is nonempty and holds exactly the values of its key.
-/

namespace Okc.Lib

variable {κ β : Type} [LinearOrder κ]

/-! ## Sorted sets -/

/-- `collect::<BTreeSet<_>>()`, and `sort()` followed by `dedup()`. -/
def sortedSet (xs : List κ) : List κ := xs.dedup.mergeSort fun a b => decide (a ≤ b)

theorem mem_sortedSet {x : κ} {xs : List κ} : x ∈ sortedSet xs ↔ x ∈ xs := by
  rw [sortedSet, List.mem_mergeSort, List.mem_dedup]

theorem sortedSet_nodup (xs : List κ) : (sortedSet xs).Nodup :=
  (List.mergeSort_perm _ _).nodup_iff.mpr (List.nodup_dedup xs)

theorem sortedSet_sorted (xs : List κ) : (sortedSet xs).Pairwise (· < ·) := by
  have hle : (sortedSet xs).Pairwise fun a b => decide (a ≤ b) = true :=
    List.pairwise_mergeSort (fun a b c => by simpa using le_trans) (fun a b => by
      simpa using le_total a b) _
  exact (hle.and (sortedSet_nodup xs)).imp fun ⟨hab, hne⟩ =>
    lt_of_le_of_ne (of_decide_eq_true hab) hne

/-- A sorted set is determined by its elements. -/
theorem sortedSet_congr {xs ys : List κ} (h : ∀ x, x ∈ xs ↔ x ∈ ys) :
    sortedSet xs = sortedSet ys := by
  have hp : (sortedSet xs).Perm (sortedSet ys) :=
    (List.perm_ext_iff_of_nodup (sortedSet_nodup xs) (sortedSet_nodup ys)).mpr fun x => by
      rw [mem_sortedSet, mem_sortedSet, h]
  exact hp.eq_of_pairwise (fun a b _ _ hab hba => absurd hab hba.asymm) (sortedSet_sorted xs)
    (sortedSet_sorted ys)

theorem sortedSet_eq_iff {xs ys : List κ} :
    sortedSet xs = sortedSet ys ↔ ∀ x, x ∈ xs ↔ x ∈ ys := by
  refine ⟨fun h x => ?_, sortedSet_congr⟩
  rw [← mem_sortedSet, h, mem_sortedSet]

theorem sortedSet_eq_self {xs : List κ} (h : xs.Pairwise (· < ·)) : sortedSet xs = xs := by
  have hp : (sortedSet xs).Perm xs :=
    (List.perm_ext_iff_of_nodup (sortedSet_nodup xs) (h.imp fun hlt => ne_of_lt hlt)).mpr fun x =>
      mem_sortedSet
  exact hp.eq_of_pairwise (fun a b _ _ hab hba => absurd hab hba.asymm) (sortedSet_sorted xs) h

theorem sortedSet_eq_singleton {x : κ} {xs : List κ} :
    sortedSet xs = [x] ↔ ∀ y, y ∈ xs ↔ y = x := by
  constructor
  · intro h y
    rw [← mem_sortedSet, h, List.mem_singleton]
  · intro h
    have hset := sortedSet_congr (fun y => (h y).trans List.mem_singleton.symm)
    rw [hset, sortedSet_eq_self (List.pairwise_singleton _ _)]

theorem sortedSet_eq_nil {xs : List κ} : sortedSet xs = [] ↔ xs = [] := by
  simp only [List.eq_nil_iff_forall_not_mem, mem_sortedSet]

/-! ## Groups -/

/-- One turn of the loop. -/
def pushGroup (m : List (κ × List β)) (e : κ × β) : List (κ × List β) :=
  insertKey e.1 ((get? e.1 m).getD [] ++ [e.2]) m

/-- The values of each key. -/
def groups (entries : List (κ × β)) : List (κ × List β) := entries.foldl pushGroup []

/-- The values that the entries hold for a key. -/
def valuesOf (k : κ) (entries : List (κ × β)) : List β :=
  (entries.filter fun e => e.1 = k).map Prod.snd

theorem mem_valuesOf {k : κ} {b : β} {entries : List (κ × β)} :
    b ∈ valuesOf k entries ↔ (k, b) ∈ entries := by
  simp [valuesOf]

theorem valuesOf_append (k : κ) (xs ys : List (κ × β)) :
    valuesOf k (xs ++ ys) = valuesOf k xs ++ valuesOf k ys := by
  simp [valuesOf]

/-- The map after the entries `es` were pushed. -/
structure Grouped (es : List (κ × β)) (m : List (κ × List β)) : Prop where
  sorted : Sorted m
  get? : ∀ k, Lib.get? k m = if valuesOf k es = [] then none else some (valuesOf k es)

theorem grouped_push {es : List (κ × β)} {m : List (κ × List β)} (h : Grouped es m) (e : κ × β) :
    Grouped (es ++ [e]) (pushGroup m e) := by
  refine ⟨sorted_insertKey _ _ h.sorted, fun k => ?_⟩
  have hvalues : (get? e.1 m).getD [] = valuesOf e.1 es := by
    rw [h.get?]
    split <;> simp_all
  rw [pushGroup, hvalues, valuesOf_append]
  by_cases hk : e.1 = k
  · subst hk
    rw [get?_insertKey_self, if_neg (by simp [valuesOf])]
    simp [valuesOf]
  · rw [get?_insertKey_ne _ _ hk, h.get?]
    have hnone : valuesOf k [e] = [] := by simp [valuesOf, hk]
    rw [hnone, List.append_nil]

theorem grouped_groups (entries : List (κ × β)) : Grouped entries (groups entries) := by
  induction entries using List.reverseRecOn with
  | nil => exact ⟨List.Pairwise.nil, fun k => by simp [groups, valuesOf, get?]⟩
  | append_singleton es e ih =>
    rw [groups, List.foldl_append]
    exact grouped_push ih e

theorem sorted_groups (entries : List (κ × β)) : Sorted (groups entries) :=
  (grouped_groups entries).sorted

/-- **The group of a key holds the values of its entries.** -/
theorem get?_groups (k : κ) (entries : List (κ × β)) :
    get? k (groups entries) =
      if valuesOf k entries = [] then none else some (valuesOf k entries) :=
  (grouped_groups entries).get? k

theorem getD_groups (k : κ) (entries : List (κ × β)) :
    (get? k (groups entries)).getD [] = valuesOf k entries := by
  rw [get?_groups]
  split <;> simp_all

/-- A group after a change to every group. -/
theorem getD_map_groups {γ : Type} {f : List β → List γ} (hf : f [] = []) (k : κ)
    (entries : List (κ × β)) :
    (get? k ((groups entries).map fun e => (e.1, f e.2))).getD [] = f (valuesOf k entries) := by
  have hmap : ∀ m : List (κ × List β),
      get? k (m.map fun e => (e.1, f e.2)) = (get? k m).map f := fun m => by
    induction m with
    | nil => rfl
    | cons e m ih =>
      rw [List.map_cons, get?, get?, ih]
      split <;> rfl
  rw [hmap, ← getD_groups]
  cases get? k (groups entries) with
  | none => exact hf.symm
  | some _ => rfl

theorem mem_groups {k : κ} {vs : List β} {entries : List (κ × β)} :
    (k, vs) ∈ groups entries ↔ vs = valuesOf k entries ∧ vs ≠ [] := by
  constructor
  · intro h
    have hget := get?_of_mem (sorted_groups entries).nodup h
    rw [get?_groups] at hget
    split at hget
    · cases hget
    · next hne => exact ⟨(Option.some.inj hget).symm, Option.some.inj hget ▸ hne⟩
  · rintro ⟨rfl, hne⟩
    exact mem_of_get? (by rw [get?_groups, if_neg hne])

end Okc.Lib
