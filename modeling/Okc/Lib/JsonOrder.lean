import Mathlib
import Okc.Lib.Json

/-!
# JSON up to the order of keys

A map that keeps its entries as they were inserted holds one value in several orders. `DistinctKeys`
says that no object of a tree has a key twice, `EqUpToOrder` that two trees are equal but for the
order of their keys, at every depth.

* `canonical_sortJson`: a sorted tree is `Canonical`, so sorting again changes nothing
  (`sortJson_sortJson`).
* `sortJson_eq_iff`: two trees sort to one tree exactly when they are equal up to the order of
  their keys.
-/

namespace Okc.Lib

mutual
/-- No object of the tree has a key twice. -/
def DistinctKeys : Json → Prop
  | .arr items => DistinctItems items
  | .obj entries => (entries.map Prod.fst).Nodup ∧ DistinctEntries entries
  | _ => True

def DistinctItems : List Json → Prop
  | [] => True
  | x :: xs => DistinctKeys x ∧ DistinctItems xs

def DistinctEntries : List (String × Json) → Prop
  | [] => True
  | (_, v) :: es => DistinctKeys v ∧ DistinctEntries es
end

theorem distinctItems_iff {items : List Json} :
    DistinctItems items ↔ ∀ x ∈ items, DistinctKeys x := by
  induction items with
  | nil => simp [DistinctItems]
  | cons x xs ih => simp [DistinctItems, ih]

theorem distinctEntries_iff {entries : List (String × Json)} :
    DistinctEntries entries ↔ ∀ e ∈ entries, DistinctKeys e.2 := by
  induction entries with
  | nil => simp [DistinctEntries]
  | cons e es ih => simp [DistinctEntries, ih]

/-- A JSON value whose objects are maps with their entries in any order. -/
structure UnsortedValue where
  json : Json
  distinct : DistinctKeys json

mutual
/-- Equal up to the order of keys, at every depth. -/
inductive EqUpToOrder : Json → Json → Prop
  | null : EqUpToOrder .null .null
  | bool (b : Bool) : EqUpToOrder (.bool b) (.bool b)
  | num (n : Number) : EqUpToOrder (.num n) (.num n)
  | str (s : String) : EqUpToOrder (.str s) (.str s)
  | arr {xs ys : List Json} : ItemsEqUpToOrder xs ys → EqUpToOrder (.arr xs) (.arr ys)
  | obj {es fs gs : List (String × Json)} :
      EntriesEqUpToOrder es fs → fs.Perm gs → EqUpToOrder (.obj es) (.obj gs)

inductive ItemsEqUpToOrder : List Json → List Json → Prop
  | nil : ItemsEqUpToOrder [] []
  | cons {x y : Json} {xs ys : List Json} :
      EqUpToOrder x y → ItemsEqUpToOrder xs ys → ItemsEqUpToOrder (x :: xs) (y :: ys)

/-- The same keys in the same order. -/
inductive EntriesEqUpToOrder : List (String × Json) → List (String × Json) → Prop
  | nil : EntriesEqUpToOrder [] []
  | cons {k : String} {v w : Json} {es fs : List (String × Json)} :
      EqUpToOrder v w → EntriesEqUpToOrder es fs →
        EntriesEqUpToOrder ((k, v) :: es) ((k, w) :: fs)
end

/-! ## Sorting -/

theorem sortItems_eq_map (items : List Json) : sortItems items = items.map sortJson := by
  induction items with
  | nil => rfl
  | cons x xs ih => rw [sortItems, ih, List.map_cons]

theorem sortEntries_eq_map (entries : List (String × Json)) :
    sortEntries entries = entries.map fun e => (e.1, sortJson e.2) := by
  induction entries with
  | nil => rfl
  | cons e es ih => rw [sortEntries, ih, List.map_cons]

theorem keys_sortEntries (entries : List (String × Json)) :
    (sortEntries entries).map Prod.fst = entries.map Prod.fst := by
  rw [sortEntries_eq_map, List.map_map]
  rfl

mutual
/-- Sorting gives a sorted tree. -/
theorem canonical_sortJson : ∀ j : Json, Canonical (sortJson j)
  | .null => trivial
  | .bool _ => trivial
  | .num _ => trivial
  | .str _ => trivial
  | .arr items => by
    rw [sortJson]
    exact canonical_sortItems items
  | .obj entries => by
    rw [sortJson]
    refine ⟨sorted_collect _, canonicalEntries_iff.mpr fun e he => ?_⟩
    exact canonicalEntries_iff.mp (canonical_sortEntries entries) e (mem_of_mem_collect he)

theorem canonical_sortItems : ∀ items : List Json, CanonicalItems (sortItems items)
  | [] => trivial
  | x :: xs => ⟨canonical_sortJson x, canonical_sortItems xs⟩

theorem canonical_sortEntries : ∀ entries : List (String × Json),
    CanonicalEntries (sortEntries entries)
  | [] => trivial
  | (_, v) :: es => ⟨canonical_sortJson v, canonical_sortEntries es⟩
end

/-- **Sorting twice is sorting once.** -/
@[simp] theorem sortJson_sortJson (j : Json) : sortJson (sortJson j) = sortJson j :=
  sortJson_eq _ (canonical_sortJson j)

mutual
theorem Canonical.distinct : ∀ {j : Json}, Canonical j → DistinctKeys j
  | .null, _ => trivial
  | .bool _, _ => trivial
  | .num _, _ => trivial
  | .str _, _ => trivial
  | .arr _, h => CanonicalItems.distinct h
  | .obj _, h => ⟨h.1.nodup, CanonicalEntries.distinct h.2⟩

theorem CanonicalItems.distinct : ∀ {items : List Json}, CanonicalItems items →
    DistinctItems items
  | [], _ => trivial
  | _ :: _, h => ⟨Canonical.distinct h.1, CanonicalItems.distinct h.2⟩

theorem CanonicalEntries.distinct : ∀ {entries : List (String × Json)},
    CanonicalEntries entries → DistinctEntries entries
  | [], _ => trivial
  | (_, _) :: _, h => ⟨Canonical.distinct h.1, CanonicalEntries.distinct h.2⟩
end

/-- What is collected from distinct keys does not depend on their order. -/
theorem collect_congr {κ β : Type} [LinearOrder κ] {m n : List (κ × β)} (hp : m.Perm n)
    (hn : (n.map Prod.fst).Nodup) : collect m = collect n := by
  have hm : (m.map Prod.fst).Nodup := (hp.map Prod.fst).nodup_iff.mpr hn
  exact (sorted_collect m).eq_of_perm (sorted_collect n)
    ((collect_perm hm).trans (hp.trans (collect_perm hn).symm))

/-- A reordering of images is the images of a reordering. -/
theorem exists_perm_of_perm_map {α β : Type} {f : α → β} {l : List β} {m : List α}
    (h : l.Perm (m.map f)) : ∃ m' : List α, m'.Perm m ∧ l = m'.map f := by
  obtain ⟨m', hl, hp⟩ := (congrFun (congrFun (List.eq_map_comp_perm f) l) m).mpr h
  exact ⟨m', hp, hl⟩

mutual
theorem sortJson_eq_of_eqUpToOrder : ∀ {j k : Json}, DistinctKeys j → DistinctKeys k →
    EqUpToOrder j k → sortJson j = sortJson k
  | .null, _, _, _, .null => rfl
  | .bool _, _, _, _, .bool _ => rfl
  | .num _, _, _, _, .num _ => rfl
  | .str _, _, _, _, .str _ => rfl
  | .arr _, _, hj, hk, .arr h => by
    rw [sortJson, sortJson, sortItems_eq_of_eqUpToOrder hj hk h]
  | .obj _, .obj gs, hj, hk, .obj h hp => by
    have hfs := distinctEntries_iff.mpr fun e he =>
      distinctEntries_iff.mp hk.2 e (hp.mem_iff.mp he)
    rw [sortJson, sortJson, sortEntries_eq_of_eqUpToOrder hj.2 hfs h, sortEntries_eq_map,
      sortEntries_eq_map]
    refine congrArg Json.obj (collect_congr (hp.map _) ?_)
    rw [← sortEntries_eq_map, keys_sortEntries]
    exact hk.1

theorem sortItems_eq_of_eqUpToOrder : ∀ {xs ys : List Json}, DistinctItems xs →
    DistinctItems ys → ItemsEqUpToOrder xs ys → sortItems xs = sortItems ys
  | [], _, _, _, .nil => rfl
  | _ :: _, _, hx, hy, .cons h hs => by
    rw [sortItems, sortItems, sortJson_eq_of_eqUpToOrder hx.1 hy.1 h,
      sortItems_eq_of_eqUpToOrder hx.2 hy.2 hs]

theorem sortEntries_eq_of_eqUpToOrder : ∀ {es fs : List (String × Json)}, DistinctEntries es →
    DistinctEntries fs → EntriesEqUpToOrder es fs → sortEntries es = sortEntries fs
  | [], _, _, _, .nil => rfl
  | (_, _) :: _, _, he, hf, .cons h hs => by
    rw [sortEntries, sortEntries, sortJson_eq_of_eqUpToOrder he.1 hf.1 h,
      sortEntries_eq_of_eqUpToOrder he.2 hf.2 hs]
end

mutual
theorem eqUpToOrder_of_sortJson_eq : ∀ (j k : Json), DistinctKeys j → DistinctKeys k →
    sortJson j = sortJson k → EqUpToOrder j k
  | .null, k, _, _, h => by
    cases k <;> simp only [sortJson, reduceCtorEq] at h
    exact .null
  | .bool b, k, _, _, h => by
    cases k <;> simp only [sortJson, reduceCtorEq, Json.bool.injEq] at h
    exact h ▸ .bool b
  | .num n, k, _, _, h => by
    cases k <;> simp only [sortJson, reduceCtorEq, Json.num.injEq] at h
    exact h ▸ .num n
  | .str s, k, _, _, h => by
    cases k <;> simp only [sortJson, reduceCtorEq, Json.str.injEq] at h
    exact h ▸ .str s
  | .arr xs, k, hj, hk, h => by
    cases k <;> simp only [sortJson, reduceCtorEq, Json.arr.injEq] at h
    exact .arr (itemsEqUpToOrder_of_sortItems_eq xs _ hj hk h)
  | .obj es, k, hj, hk, h => by
    cases k <;> simp only [sortJson, reduceCtorEq, Json.obj.injEq] at h
    rename_i gs
    -- the sorted entries are the same up to order, so a reordering of the second object has them
    -- in the order of the first
    have hes : (collect (sortEntries es)).Perm (sortEntries es) :=
      collect_perm (by rw [keys_sortEntries]; exact hj.1)
    have hgs : (collect (sortEntries gs)).Perm (sortEntries gs) :=
      collect_perm (by rw [keys_sortEntries]; exact hk.1)
    have hperm := hes.symm.trans (h ▸ hgs)
    rw [sortEntries_eq_map gs] at hperm
    obtain ⟨fs, hp, hfs⟩ := exists_perm_of_perm_map hperm
    have hdistinct := distinctEntries_iff.mpr fun e he =>
      distinctEntries_iff.mp hk.2 e (hp.mem_iff.mp he)
    refine .obj (entriesEqUpToOrder_of_sortEntries_eq es fs hj.2 hdistinct ?_) hp
    rw [hfs, sortEntries_eq_map]

theorem itemsEqUpToOrder_of_sortItems_eq : ∀ (xs ys : List Json), DistinctItems xs →
    DistinctItems ys → sortItems xs = sortItems ys → ItemsEqUpToOrder xs ys
  | [], [], _, _, _ => .nil
  | [], _ :: _, _, _, h => by simp [sortItems] at h
  | _ :: _, [], _, _, h => by simp [sortItems] at h
  | x :: xs, y :: ys, hx, hy, h => by
    rw [sortItems, sortItems, List.cons.injEq] at h
    exact .cons (eqUpToOrder_of_sortJson_eq x y hx.1 hy.1 h.1)
      (itemsEqUpToOrder_of_sortItems_eq xs ys hx.2 hy.2 h.2)

theorem entriesEqUpToOrder_of_sortEntries_eq : ∀ (es fs : List (String × Json)),
    DistinctEntries es → DistinctEntries fs → sortEntries es = sortEntries fs →
    EntriesEqUpToOrder es fs
  | [], [], _, _, _ => .nil
  | [], _ :: _, _, _, h => by simp [sortEntries] at h
  | (_, _) :: _, [], _, _, h => by simp [sortEntries] at h
  | (k, v) :: es, (l, w) :: fs, he, hf, h => by
    rw [sortEntries, sortEntries, List.cons.injEq, Prod.mk.injEq] at h
    obtain ⟨⟨rfl, hv⟩, hrest⟩ := h
    exact .cons (eqUpToOrder_of_sortJson_eq v w he.1 hf.1 hv)
      (entriesEqUpToOrder_of_sortEntries_eq es fs he.2 hf.2 hrest)
end

/-- **Two trees sort to one tree exactly when they are equal up to the order of keys.** -/
theorem sortJson_eq_iff {j k : Json} (hj : DistinctKeys j) (hk : DistinctKeys k) :
    sortJson j = sortJson k ↔ EqUpToOrder j k :=
  ⟨eqUpToOrder_of_sortJson_eq j k hj hk, sortJson_eq_of_eqUpToOrder hj hk⟩

end Okc.Lib
