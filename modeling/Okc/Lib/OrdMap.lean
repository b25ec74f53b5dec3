import Mathlib

/-!
# Ordered maps as key-sorted entry lists

`BTreeMap` by its entries in key order. `insertKey` inserts or overwrites, `collect` is
`into_iter().collect::<BTreeMap<_, _>>()`, and `get?` is the lookup.

* `exists_rangeFrom`: the first entry from a key on.
* `get?_collect`: a collected map answers with the **last** entry of a key.
* `get?_collect_eq_some`: with distinct keys it answers with the entry itself.
* `collect_perm`, `sorted_collect`, `collect_eq_self`: collecting entries with distinct keys only
  sorts them, and sorted entries collect to themselves.
-/

namespace Okc.Lib

variable {κ β α : Type} [LinearOrder κ]

/-- The first entry for `k`. -/
def get? (k : κ) : List (κ × β) → Option β
  | [] => none
  | (k', v) :: rest => if k' = k then some v else get? k rest

/-- `BTreeMap::insert`. -/
def insertKey (k : κ) (v : β) : List (κ × β) → List (κ × β)
  | [] => [(k, v)]
  | (k', v') :: rest =>
    if k < k' then (k, v) :: (k', v') :: rest
    else if k = k' then (k, v) :: rest
    else (k', v') :: insertKey k v rest

/-- `collect::<BTreeMap<_, _>>()`. -/
def collect (entries : List (κ × β)) : List (κ × β) :=
  entries.foldl (fun m e => insertKey e.1 e.2 m) []

/-- Strictly sorted by key. -/
def Sorted (m : List (κ × β)) : Prop := (m.map Prod.fst).Pairwise (· < ·)

/-! ## Lookup -/

theorem get?_eq_none {k : κ} {m : List (κ × β)} : get? k m = none ↔ k ∉ m.map Prod.fst := by
  induction m with
  | nil => simp [get?]
  | cons e rest ih =>
    obtain ⟨k', v⟩ := e
    rw [get?, List.map_cons, List.mem_cons, not_or]
    split_ifs with h
    · simp [h]
    · rw [ih]
      exact ⟨fun hr => ⟨fun he => h he.symm, hr⟩, fun hr => hr.2⟩

theorem mem_of_get? {k : κ} {v : β} {m : List (κ × β)} (h : get? k m = some v) : (k, v) ∈ m := by
  induction m with
  | nil => simp [get?] at h
  | cons e rest ih =>
    obtain ⟨k', v'⟩ := e
    rw [get?] at h
    split_ifs at h with hk
    · cases hk
      cases h
      exact List.mem_cons_self
    · exact List.mem_cons_of_mem _ (ih h)

/-- With distinct keys, an entry is found under its key. -/
theorem get?_of_mem {k : κ} {v : β} {m : List (κ × β)} (hm : (m.map Prod.fst).Nodup)
    (h : (k, v) ∈ m) : get? k m = some v := by
  induction m with
  | nil => simp at h
  | cons e rest ih =>
    obtain ⟨k', v'⟩ := e
    rw [List.map_cons, List.nodup_cons] at hm
    rcases List.mem_cons.mp h with he | hr
    · cases he
      rw [get?, if_pos rfl]
    · have hk : k ∈ rest.map Prod.fst := List.mem_map_of_mem hr
      have hne : k' ≠ k := fun he => hm.1 (he ▸ hk)
      rw [get?, if_neg hne, ih hm.2 hr]

theorem get?_append (k : κ) (m n : List (κ × β)) :
    get? k (m ++ n) = (get? k m).or (get? k n) := by
  induction m with
  | nil => simp [get?]
  | cons e rest ih =>
    obtain ⟨k', v⟩ := e
    rw [List.cons_append, get?, get?]
    split_ifs
    · rfl
    · exact ih

/-! ## Insertion -/

theorem get?_insertKey_self (k : κ) (v : β) (m : List (κ × β)) :
    get? k (insertKey k v m) = some v := by
  induction m with
  | nil => simp [insertKey, get?]
  | cons e rest ih =>
    obtain ⟨k', v'⟩ := e
    rw [insertKey]
    split_ifs with hlt heq
    · simp [get?]
    · simp [get?]
    · rw [get?, if_neg (Ne.symm heq), ih]

theorem get?_insertKey_ne {k q : κ} (v : β) (m : List (κ × β)) (h : k ≠ q) :
    get? q (insertKey k v m) = get? q m := by
  induction m with
  | nil => simp [insertKey, get?, h]
  | cons e rest ih =>
    obtain ⟨k', v'⟩ := e
    rw [insertKey]
    split_ifs with hlt heq
    · rw [get?, if_neg h]
    · rw [get?, if_neg h, get?, if_neg (heq ▸ h)]
    · rw [get?, get?, ih]

theorem mem_insertKey {k : κ} {v : β} {m : List (κ × β)} {e : κ × β}
    (h : e ∈ insertKey k v m) : e = (k, v) ∨ e ∈ m := by
  induction m with
  | nil => exact Or.inl (List.mem_singleton.mp h)
  | cons d rest ih =>
    obtain ⟨k', v'⟩ := d
    rw [insertKey] at h
    split_ifs at h with hlt heq
    · exact List.mem_cons.mp h
    · exact (List.mem_cons.mp h).imp_right (List.mem_cons_of_mem _)
    · rcases List.mem_cons.mp h with rfl | hr
      · exact Or.inr List.mem_cons_self
      · exact (ih hr).imp_right (List.mem_cons_of_mem _)

theorem mem_keys_insertKey {k q : κ} {v : β} {m : List (κ × β)} :
    q ∈ (insertKey k v m).map Prod.fst ↔ q = k ∨ q ∈ m.map Prod.fst := by
  induction m with
  | nil => simp [insertKey]
  | cons e rest ih =>
    obtain ⟨k', v'⟩ := e
    rw [insertKey]
    split_ifs with hlt heq
    · rw [List.map_cons, List.mem_cons]
    · rw [List.map_cons, List.mem_cons, List.map_cons, List.mem_cons, ← heq, or_self_left]
    · rw [List.map_cons, List.mem_cons, ih, List.map_cons, List.mem_cons, or_left_comm]

theorem sorted_cons {k : κ} {v : β} {m : List (κ × β)} :
    Sorted ((k, v) :: m) ↔ (∀ e ∈ m, k < e.1) ∧ Sorted m := by
  simp [Sorted]

theorem Sorted.nodup {m : List (κ × β)} (h : Sorted m) : (m.map Prod.fst).Nodup :=
  List.Pairwise.imp (fun hlt => ne_of_lt hlt) h

theorem sorted_insertKey (k : κ) (v : β) {m : List (κ × β)} (h : Sorted m) :
    Sorted (insertKey k v m) := by
  induction m with
  | nil => simp [insertKey, Sorted]
  | cons e rest ih =>
    obtain ⟨k', v'⟩ := e
    obtain ⟨hk, hs⟩ := sorted_cons.mp h
    rw [insertKey]
    split_ifs with hlt heq
    · refine sorted_cons.mpr ⟨fun e he => ?_, h⟩
      rcases List.mem_cons.mp he with rfl | he
      · exact hlt
      · exact hlt.trans (hk e he)
    · exact sorted_cons.mpr ⟨fun e he => heq ▸ hk e he, hs⟩
    · refine sorted_cons.mpr ⟨fun e he => ?_, ih hs⟩
      rcases mem_insertKey he with rfl | he
      · exact lt_of_le_of_ne (not_lt.mp hlt) (Ne.symm heq)
      · exact hk e he

theorem mem_iff_get? {m : List (κ × β)} (h : Sorted m) {e : κ × β} :
    e ∈ m ↔ get? e.1 m = some e.2 :=
  ⟨fun he => get?_of_mem h.nodup he, mem_of_get?⟩

/-- An insertion replaces the entry of the key and keeps the others. -/
theorem mem_insertKey_iff {k : κ} {v : β} {m : List (κ × β)} (h : Sorted m) {e : κ × β} :
    e ∈ insertKey k v m ↔ e = (k, v) ∨ e ∈ m ∧ e.1 ≠ k := by
  obtain ⟨q, w⟩ := e
  rw [mem_iff_get? (sorted_insertKey k v h), mem_iff_get? h]
  by_cases hq : q = k
  · subst hq
    rw [get?_insertKey_self, Option.some_inj, @eq_comm _ v w]
    simp
  · rw [get?_insertKey_ne v m (Ne.symm hq)]
    simp [hq]

theorem insertKey_perm {k : κ} (v : β) {m : List (κ × β)} (h : k ∉ m.map Prod.fst) :
    (insertKey k v m).Perm ((k, v) :: m) := by
  induction m with
  | nil => exact List.Perm.refl _
  | cons e rest ih =>
    obtain ⟨k', v'⟩ := e
    rw [List.map_cons, List.mem_cons, not_or] at h
    rw [insertKey]
    split_ifs with hlt heq
    · exact List.Perm.refl _
    · exact absurd heq h.1
    · exact ((ih h.2).cons _).trans (List.Perm.swap _ _ _)

/-! ## Ranges -/

/-- `range(k..).next()`: the first entry from `k` on. -/
def rangeFrom (k : κ) (m : List (κ × β)) : Option (κ × β) := m.find? fun e => k ≤ e.1

/-- An entry from `k` on gives a first one. -/
theorem exists_rangeFrom {k : κ} {m : List (κ × β)} (hm : Sorted m) {e : κ × β} (he : e ∈ m)
    (hk : k ≤ e.1) : ∃ f ∈ m, rangeFrom k m = some f ∧ k ≤ f.1 ∧ f.1 ≤ e.1 := by
  cases hf : rangeFrom k m with
  | none =>
    have hnone := List.find?_eq_none.mp hf e he
    simp [hk] at hnone
  | some f =>
    obtain ⟨hkf, before, after, rfl, hbefore⟩ := List.find?_eq_some_iff_append.mp hf
    refine ⟨f, by simp, rfl, by simpa using hkf, ?_⟩
    rcases List.mem_append.mp he with hb | ha
    · have hnot := hbefore e hb
      simp [hk] at hnot
    · rcases List.mem_cons.mp ha with rfl | ha
      · exact le_refl _
      · rw [Sorted, List.map_append, List.pairwise_append] at hm
        exact ((sorted_cons.mp hm.2.1).1 e ha).le

/-! ## Collecting -/

theorem collect_append_singleton (entries : List (κ × β)) (k : κ) (v : β) :
    collect (entries ++ [(k, v)]) = insertKey k v (collect entries) := by
  simp [collect]

theorem sorted_collect (entries : List (κ × β)) : Sorted (collect entries) := by
  induction entries using List.reverseRecOn with
  | nil => simp [collect, Sorted]
  | append_singleton entries e ih =>
    rw [collect_append_singleton]
    exact sorted_insertKey _ _ ih

/-- A collected map answers with the last entry of a key. -/
theorem get?_collect (k : κ) (entries : List (κ × β)) :
    get? k (collect entries) = get? k entries.reverse := by
  induction entries using List.reverseRecOn with
  | nil => rfl
  | append_singleton entries e ih =>
    obtain ⟨k', v⟩ := e
    rw [collect_append_singleton, List.reverse_append, List.reverse_singleton,
      List.singleton_append, get?]
    split_ifs with h
    · rw [h, get?_insertKey_self]
    · rw [get?_insertKey_ne _ _ h, ih]

/-- Where the values ascend, the greatest value of a key stays. -/
theorem get?_collect_ascending [PartialOrder β] {entries : List (κ × β)}
    (h : (entries.map Prod.snd).Pairwise (· ≤ ·)) {k : κ} {v : β} :
    get? k (collect entries) = some v ↔ IsGreatest {u | (k, u) ∈ entries} v := by
  induction entries using List.reverseRecOn generalizing v with
  | nil => simp [collect, get?, IsGreatest]
  | append_singleton entries e ih =>
    obtain ⟨k', u⟩ := e
    rw [List.map_append, List.pairwise_append] at h
    have hle : ∀ v, (k, v) ∈ entries → v ≤ u := fun v hv =>
      h.2.2 v (List.mem_map_of_mem hv) u List.mem_cons_self
    rw [collect_append_singleton]
    by_cases hk : k' = k
    · subst hk
      have hgreatest : IsGreatest {v | (k', v) ∈ entries ++ [(k', u)]} u :=
        ⟨by simp, fun v hv => by
          rcases List.mem_append.mp hv with hv | hv
          · exact hle v hv
          · rw [List.mem_singleton.mp hv |> Prod.mk.inj |>.2]⟩
      rw [get?_insertKey_self, Option.some_inj]
      exact ⟨fun he => he ▸ hgreatest, fun hv => hgreatest.unique hv⟩
    · have hset : {v | (k, v) ∈ entries ++ [(k', u)]} = {v | (k, v) ∈ entries} := by
        ext v
        simp [Ne.symm hk]
      rw [get?_insertKey_ne _ _ hk, ih h.1, hset]

/-- With distinct keys a collected map holds exactly the entries it was collected from. -/
theorem get?_collect_eq_some {k : κ} {v : β} {entries : List (κ × β)}
    (h : (entries.map Prod.fst).Nodup) :
    get? k (collect entries) = some v ↔ (k, v) ∈ entries := by
  rw [get?_collect]
  constructor
  · intro hg
    exact List.mem_reverse.mp (mem_of_get? hg)
  · intro hm
    refine get?_of_mem ?_ (List.mem_reverse.mpr hm)
    rw [List.map_reverse]
    exact List.nodup_reverse.mpr h

theorem mem_of_mem_collect {e : κ × β} {entries : List (κ × β)} (h : e ∈ collect entries) :
    e ∈ entries := by
  have hg : get? e.1 (collect entries) = some e.2 := get?_of_mem (sorted_collect entries).nodup h
  rw [get?_collect] at hg
  exact List.mem_reverse.mp (mem_of_get? hg)

theorem get?_collect_eq_none {k : κ} {entries : List (κ × β)} :
    get? k (collect entries) = none ↔ k ∉ entries.map Prod.fst := by
  rw [get?_collect, get?_eq_none, List.map_reverse, List.mem_reverse]

theorem collect_perm {entries : List (κ × β)} (h : (entries.map Prod.fst).Nodup) :
    (collect entries).Perm entries := by
  induction entries using List.reverseRecOn with
  | nil => exact List.Perm.refl _
  | append_singleton entries e ih =>
    obtain ⟨k, v⟩ := e
    rw [List.map_append, List.map_cons, List.map_nil, List.nodup_append] at h
    have hp := ih h.1
    rw [collect_append_singleton]
    have hk : k ∉ (collect entries).map Prod.fst := fun hm =>
      h.2.2 k ((hp.map Prod.fst).mem_iff.mp hm) k (List.mem_singleton_self k) rfl
    exact (insertKey_perm v hk).trans ((hp.cons _).trans (List.perm_append_singleton _ _).symm)

theorem Sorted.eq_of_perm {m n : List (κ × β)} (hm : Sorted m) (hn : Sorted n)
    (h : m.Perm n) : m = n := by
  have hm' : m.Pairwise (fun a b => a.1 < b.1) := List.pairwise_map.mp hm
  have hn' : n.Pairwise (fun a b => a.1 < b.1) := List.pairwise_map.mp hn
  exact h.eq_of_pairwise (fun a b _ _ hab hba => absurd hab hba.asymm) hm' hn'

/-- Sorted maps that answer alike are equal. -/
theorem Sorted.eq_of_get? {m n : List (κ × β)} (hm : Sorted m) (hn : Sorted n)
    (h : ∀ k, get? k m = get? k n) : m = n := by
  have hmem : ∀ e, e ∈ m ↔ e ∈ n := fun e =>
    ⟨fun he => mem_of_get? ((h e.1).symm.trans (get?_of_mem hm.nodup he)),
      fun he => mem_of_get? ((h e.1).trans (get?_of_mem hn.nodup he))⟩
  have hnodup : ∀ {l : List (κ × β)}, Sorted l → l.Nodup := fun hl => hl.nodup.of_map _
  exact hm.eq_of_perm hn ((List.perm_ext_iff_of_nodup (hnodup hm) (hnodup hn)).mpr hmem)

/-- Sorted entries collect to themselves. -/
theorem collect_eq_self {m : List (κ × β)} (h : Sorted m) : collect m = m :=
  (sorted_collect m).eq_of_perm h (collect_perm h.nodup)

theorem insertKey_map {γ : Type} (g : β → γ) (k : κ) (v : β) (m : List (κ × β)) :
    (insertKey k v m).map (fun e => (e.1, g e.2)) =
      insertKey k (g v) (m.map fun e => (e.1, g e.2)) := by
  induction m with
  | nil => rfl
  | cons e rest ih =>
    obtain ⟨k', v'⟩ := e
    rw [List.map_cons, insertKey, insertKey]
    split_ifs
    · rfl
    · rfl
    · rw [List.map_cons, ih]

/-- Collecting does not look at the values. -/
theorem collect_map {γ : Type} (g : β → γ) (entries : List (κ × β)) :
    (collect entries).map (fun e => (e.1, g e.2)) =
      collect (entries.map fun e => (e.1, g e.2)) := by
  induction entries using List.reverseRecOn with
  | nil => rfl
  | append_singleton entries e ih =>
    obtain ⟨k, v⟩ := e
    rw [collect_append_singleton, insertKey_map, ih, List.map_append, List.map_singleton,
      collect_append_singleton]

/-- Two entry lists with the same distinct keys in the same order and the same collected map are
equal. -/
theorem collect_injective {m n : List (κ × β)} (hm : (m.map Prod.fst).Nodup)
    (hk : m.map Prod.fst = n.map Prod.fst) (h : collect m = collect n) : m = n := by
  have hp : m.Perm n := (collect_perm hm).symm.trans (h ▸ collect_perm (hk ▸ hm))
  have hmem : ∀ e, e ∈ m → e ∈ n := fun e he => hp.mem_iff.mp he
  clear h hp
  induction m generalizing n with
  | nil =>
    cases n with
    | nil => rfl
    | cons e n => simp at hk
  | cons d m ih =>
    cases n with
    | nil => simp at hk
    | cons e n =>
      simp only [List.map_cons, List.cons.injEq] at hk
      rw [List.map_cons, List.nodup_cons] at hm
      have hde : d = e := by
        rcases List.mem_cons.mp (hmem d List.mem_cons_self) with he | hn
        · exact he
        · exact absurd (hk.2 ▸ List.mem_map_of_mem hn) hm.1
      subst hde
      have hrest : ∀ e ∈ m, e ∈ n := fun e he => by
        rcases List.mem_cons.mp (hmem e (List.mem_cons_of_mem _ he)) with rfl | hn
        · exact absurd (List.mem_map_of_mem he) hm.1
        · exact hn
      rw [ih hm.2 hk.2 hrest]

end Okc.Lib
