import Okc.Lib.Check
import Okc.Lib.OrdMap

/-!
# Allotments

A loop gives every request a value whose key is not held, and holds the key from then on. What was
given is kept by the name of the request, so that a later request of the same name replaces it.

* `Gives`: one turn. `GivesAll`: the turns in a row, and `givesAll_of_foldlM`: how a loop takes
  them.
* `GivesAll.mem_names`, `GivesAll.given`: who is given something, and what.
* **`GivesAll.apart`**: what different names are given has different keys.
-/

namespace Okc.Lib

variable {ρ ι α κ : Type} [LinearOrder ι]

/-- The keys that are held, and what was given to whom. -/
structure Allotment (ι α κ : Type) where
  held : Set κ
  given : List (ι × α)

section

variable (name : ρ → ι) (key : α → κ) (P : ρ → α → Prop)

/-- One turn. -/
def Gives (r : ρ) (s t : Allotment ι α κ) : Prop :=
  ∃ a, P r a ∧ key a ∉ s.held ∧ t.held = insert (key a) s.held ∧
    t.given = insertKey (name r) a s.given

/-- The turns of a loop. -/
inductive GivesAll : List ρ → Allotment ι α κ → Allotment ι α κ → Prop
  | nil {s : Allotment ι α κ} : GivesAll [] s s
  | cons {r : ρ} {rs : List ρ} {s t u : Allotment ι α κ} (turn : Gives name key P r s t)
      (rest : GivesAll rs t u) : GivesAll (r :: rs) s u

/-- What was given is told apart by its keys, which are held. -/
structure ToldApart (s : Allotment ι α κ) : Prop where
  sorted : Sorted s.given
  held : ∀ e ∈ s.given, key e.2 ∈ s.held
  distinct : ∀ e ∈ s.given, ∀ e' ∈ s.given, key e.2 = key e'.2 → e = e'

end

variable {name : ρ → ι} {key : α → κ} {P : ρ → α → Prop} {rs : List ρ} {s t : Allotment ι α κ}

theorem givesAll_of_foldlM {σ ε : Type} {step : σ → ρ → Except ε σ} (view : σ → Allotment ι α κ)
    (hstep : ∀ u r v, step u r = .ok v → Gives name key P r (view u) (view v)) {u v : σ}
    (h : rs.foldlM step u = .ok v) : GivesAll name key P rs (view u) (view v) := by
  induction rs generalizing u with
  | nil =>
    cases h
    exact .nil
  | cons r rs ih =>
    rw [List.foldlM_cons, bind_eq_ok] at h
    obtain ⟨u', hturn, hrest⟩ := h
    exact .cons (hstep u r u' hturn) (ih hrest)

theorem GivesAll.mem_names (h : GivesAll name key P rs s t) (i : ι) :
    i ∈ t.given.map Prod.fst ↔ i ∈ rs.map name ∨ i ∈ s.given.map Prod.fst := by
  induction h with
  | nil => simp
  | cons turn _ ih =>
    obtain ⟨a, -, -, -, hgiven⟩ := turn
    rw [ih, hgiven, mem_keys_insertKey, List.map_cons, List.mem_cons, ← or_assoc,
      or_comm (a := i ∈ _)]

/-- What is given was given before, or is new and of a request. -/
theorem GivesAll.given (h : GivesAll name key P rs s t) {e : ι × α} (he : e ∈ t.given) :
    e ∈ s.given ∨ (∃ r ∈ rs, name r = e.1 ∧ P r e.2) ∧ key e.2 ∉ s.held := by
  induction h with
  | nil => exact Or.inl he
  | cons turn _ ih =>
    obtain ⟨a, hP, hfree, hheld, hgiven⟩ := turn
    obtain hbefore | ⟨⟨r, hr, hname, hPr⟩, hnew⟩ := ih he
    · rw [hgiven] at hbefore
      obtain rfl | hold := mem_insertKey hbefore
      · exact Or.inr ⟨⟨_, List.mem_cons_self, rfl, hP⟩, hfree⟩
      · exact Or.inl hold
    · refine Or.inr ⟨⟨r, List.mem_cons_of_mem _ hr, hname, hPr⟩, fun hk => hnew ?_⟩
      exact hheld ▸ Set.mem_insert_of_mem _ hk

theorem Gives.apart {r : ρ} (h : Gives name key P r s t) (hs : ToldApart key s) :
    ToldApart key t := by
  obtain ⟨a, -, hfree, hheld, hgiven⟩ := h
  have hnew : ∀ e ∈ s.given, key e.2 ≠ key a := fun e he hk => hfree (hk ▸ hs.held e he)
  constructor
  · rw [hgiven]
    exact sorted_insertKey _ _ hs.sorted
  · intro e he
    rw [hgiven] at he
    rw [hheld]
    obtain rfl | hold := mem_insertKey he
    · exact Set.mem_insert _ _
    · exact Set.mem_insert_of_mem _ (hs.held e hold)
  · intro e he e' he' hk
    rw [hgiven] at he he'
    obtain rfl | hold := mem_insertKey he
    · obtain rfl | hold' := mem_insertKey he'
      · rfl
      · exact absurd hk.symm (hnew e' hold')
    · obtain rfl | hold' := mem_insertKey he'
      · exact absurd hk (hnew e hold)
      · exact hs.distinct e hold e' hold' hk

/-- **What different names are given has different keys.** -/
theorem GivesAll.apart (h : GivesAll name key P rs s t) (hs : ToldApart key s) :
    ToldApart key t := by
  induction h with
  | nil => exact hs
  | cons turn _ ih => exact ih (turn.apart hs)

theorem apart_empty (held : Set κ) : ToldApart key (⟨held, []⟩ : Allotment ι α κ) :=
  ⟨List.Pairwise.nil, fun _ he => absurd he List.not_mem_nil,
    fun _ he => absurd he List.not_mem_nil⟩

end Okc.Lib
