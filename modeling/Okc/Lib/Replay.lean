import Okc.Lib.Hoare

/-!
# Computations that are run again

A computation that left its work behind can be run again: what it did is found there, and it
returns what it returned. `Repeats view K S m a v` says that `m` returns `a` from every state that
`K` leads to from the view `v`, and that it moves the view by `S` only.

* `Advances.attempt_moves`: a failure that is caught and then dropped. `Advances.through`: a view of
  the view.
* `Repeats.later`: what is found stays there while the view moves on.
* `Replayed view M K S m n`: where `m` returned, however it failed before, `n` repeats its value.
  `Replayed.bind` runs one after the other: what the second part of `m` does may not undo what the
  first part of `n` finds.
-/

namespace Okc.Lib

variable {σ τ ε ε' α β : Type} {view : σ → τ} {M : τ → τ → Prop} {P : τ → Prop}

theorem Act.bind_eq_ok {m : Act σ ε α} {f : α → Act σ ε β} {s u : σ} {b : β} :
    (m >>= f) s = (.ok b, u) ↔ ∃ a t, m s = (.ok a, t) ∧ f a t = (.ok b, u) := by
  constructor
  · intro h
    obtain ⟨e, -, he⟩ | hok := Act.bind_cases h
    · cases he
    · exact hok
  · rintro ⟨a, t, hm, hf⟩
    rw [Act.bind_ok hm, hf]

theorem Advances.attempt_moves {m : Act σ ε α} {Q : α → τ → Prop} (h : Advances view M P m Q) :
    Advances view M P (Act.attempt m : Act σ ε' (Except ε α)) fun _ _ => True := by
  refine ⟨fun s hs => ?_⟩
  have hmoves := h.moves hs
  unfold Act.attempt
  cases hr : m s with
  | mk r t =>
    rw [hr] at hmoves
    exact ⟨hmoves, trivial⟩

/-- A view of the view. -/
theorem Advances.through {υ : Type} {N : υ → υ → Prop} {g : τ → υ} {m : Act σ ε α}
    {Q : α → τ → Prop} (h : Advances view M (fun _ => True) m Q)
    (hM : ∀ v w, M v w → N (g v) (g w)) :
    Advances (fun s => g (view s)) N (fun _ => True) m fun _ _ => True := by
  refine ⟨fun s _ => ?_⟩
  have hmoves := (h.moves (s := s) trivial).lift g hM
  cases hr : m s with
  | mk r t =>
    rw [hr] at hmoves
    cases r with
    | ok a => exact ⟨hmoves, trivial⟩
    | error e => exact hmoves

structure Repeats (view : σ → τ) (K S : τ → τ → Prop) (m : Act σ ε α) (a : α) (v : τ) : Prop where
  run : ∀ s, K v (view s) → ∃ t, m s = (.ok a, t) ∧ S (view s) (view t)

section

variable {K S : τ → τ → Prop} {m : Act σ ε α} {a : α} {v w : τ}

theorem Repeats.later (h : Repeats view (Relation.ReflTransGen M) S m a v)
    (hvw : Relation.ReflTransGen M v w) : Repeats view (Relation.ReflTransGen M) S m a w :=
  ⟨fun s hs => h.run s (hvw.trans hs)⟩

theorem Repeats.pure : Repeats view K Eq (Pure.pure a : Act σ ε α) a v := ⟨fun s _ => ⟨s, rfl, rfl⟩⟩

theorem Repeats.lift {x : Except ε α} (h : x = .ok a) : Repeats view K Eq (Act.lift x) a v :=
  ⟨fun s _ => ⟨s, by rw [h]; rfl, rfl⟩⟩

/-- The first part leaves the view, so the second starts where it may. -/
theorem Repeats.bind {f : α → Act σ ε β} {b : β} (hm : Repeats view K Eq m a v)
    (hf : Repeats view K S (f a) b v) : Repeats view K S (m >>= f) b v := by
  refine ⟨fun s hs => ?_⟩
  obtain ⟨t, ht, hview⟩ := hm.run s hs
  obtain ⟨u, hu, hS⟩ := hf.run t (hview ▸ hs)
  exact ⟨u, (Act.bind_ok ht).trans hu, hview ▸ hS⟩

theorem Repeats.mono {K' S' : τ → τ → Prop} (h : Repeats view K S m a v)
    (hK : ∀ w, K' v w → K v w) (hS : ∀ w x, S w x → S' w x) : Repeats view K' S' m a v := by
  refine ⟨fun s hs => ?_⟩
  obtain ⟨t, ht, hview⟩ := h.run s (hK _ hs)
  exact ⟨t, ht, hS _ _ hview⟩

end

/-- From anywhere, `m` moves by `M`, and where it returns, `n` repeats it. -/
abbrev Replayed (view : σ → τ) (M K S : τ → τ → Prop) (m n : Act σ ε α) : Prop :=
  Advances view M (fun _ => True) m fun a v => Repeats view K S n a v

namespace Replayed

variable {K S : τ → τ → Prop}

theorem lift {x : Except ε α} : Replayed view M K Eq (Act.lift x) (Act.lift x) :=
  Advances.lift fun _ _ h _ => Repeats.lift h

theorem pure {a : α} : Replayed view M K Eq (Pure.pure a : Act σ ε α) (Pure.pure a) :=
  Advances.pure fun _ _ => Repeats.pure

/-- **Sequencing.** -/
theorem bind {m n : Act σ ε α} {f g : α → Act σ ε β}
    (hm : Replayed view M (Relation.ReflTransGen M) Eq m n)
    (hf : ∀ a, Replayed view M K S (f a) (g a)) (hK : ∀ v w, K v w → Relation.ReflTransGen M v w) :
    Replayed view M K S (m >>= f) (n >>= g) := by
  refine ⟨fun s hs => ?_⟩
  have hrun := (Advances.bind (R := fun _ _ => True) (hm.mono (fun _ h => h) fun _ _ _ => trivial)
    fun a => (hf a).mono (fun _ h => h) fun _ _ _ => trivial).moves (s := s) hs
  cases hr : (m >>= f) s with
  | mk r w =>
    rw [hr] at hrun
    cases r with
    | error e => exact hrun
    | ok b =>
      refine ⟨hrun, ?_⟩
      obtain ⟨a, t, ht, hw⟩ := Act.bind_eq_ok.mp hr
      have hfirst := hm.ok hs ht
      have hlater := (hf a).moves (s := t) trivial
      rw [hw] at hlater
      exact ((hfirst.later hlater).mono (hK _) fun _ _ h => h).bind ((hf a).ok trivial hw)

/-- The last step reads no state. -/
theorem bind_lift {m n : Act σ ε α} {f : α → Act σ ε β} (hm : Replayed view M K S m n)
    (hf : ∀ a, ∃ x, f a = Act.lift x) : Replayed view M K S (m >>= f) (n >>= f) := by
  refine Advances.bind hm fun a => ?_
  obtain ⟨x, hx⟩ := hf a
  rw [hx]
  refine Advances.lift fun b v hb hv => ⟨fun s hs => ?_⟩
  obtain ⟨t, ht, hS⟩ := hv.run s hs
  refine ⟨t, ?_, hS⟩
  rw [Act.bind_ok ht, hx, hb]
  rfl

theorem mono {K' S' : τ → τ → Prop} {m n : Act σ ε α} (h : Replayed view M K S m n)
    (hK : ∀ v w, K' v w → K v w) (hS : ∀ v w, S v w → S' v w) : Replayed view M K' S' m n :=
  Advances.mono h (fun _ h => h) fun _ _ h => h.mono (hK _) hS

end Replayed

end Okc.Lib
