import Mathlib

/-!
# Stateful computations that may fail, and their triples

`Act σ ε α` runs from a state to a result, `.ok` or `.error`, and the state it leaves: a failure
does not undo what was done before it. A triple `Triple P m Q E` has one postcondition for each
outcome.

* `Triple.bind`, `Triple.attempt`, `Triple.mapError`, `Triple.forM`: one rule for each combinator.
* `Triple.exists`, `Triple.assuming`, `Triple.mono`: the structural rules.
* `Advances view M P m Q`: the part of the state that `view` shows only moves by `M`, whatever the
  outcome; a value comes with `Q`. `Advances.bind` runs one computation after the other,
  `Advances.frame` carries along what every move keeps.
* `Succeeds view P m Q`: the computation returns a value.
-/

namespace Okc.Lib

/-- A computation over a state, with an error or a value as its result. -/
def Act (σ ε α : Type) : Type := σ → Except ε α × σ

namespace Act

variable {σ ε ε' α β : Type}

instance : Monad (Act σ ε) where
  pure a := fun s => (.ok a, s)
  bind m f := fun s =>
    match m s with
    | (.ok a, t) => f a t
    | (.error e, t) => (.error e, t)

/-- Fails where it stands. -/
def fail (e : ε) : Act σ ε α := fun s => (.error e, s)

/-- A computation that neither reads nor writes the state. -/
def lift (x : Except ε α) : Act σ ε α := fun s => (x, s)

/-- The outcome as a value: a failure is caught. -/
def attempt (m : Act σ ε α) : Act σ ε' (Except ε α) := fun s =>
  match m s with
  | (r, t) => (.ok r, t)

/-- `Result::map_err`. -/
def mapError (f : ε → ε') (m : Act σ ε α) : Act σ ε' α := fun s =>
  match m s with
  | (.ok a, t) => (.ok a, t)
  | (.error e, t) => (.error (f e), t)

variable {m : Act σ ε α} {f : α → Act σ ε β} {s t : σ}

@[simp] theorem lift_ok_bind (a : α) : ((lift (.ok a) : Act σ ε α) >>= f) = f a := rfl

@[simp] theorem lift_error_bind (e : ε) : ((lift (.error e) : Act σ ε α) >>= f) = fail e := rfl

theorem bind_ok {a : α} (h : m s = (.ok a, t)) : (m >>= f) s = f a t := by
  show (match m s with
    | (.ok a, t) => f a t
    | (.error e, t) => (.error e, t)) = f a t
  rw [h]

theorem bind_error {e : ε} (h : m s = (.error e, t)) : (m >>= f) s = (.error e, t) := by
  show (match m s with
    | (.ok a, t) => f a t
    | (.error e, t) => (.error e, t)) = (.error e, t)
  rw [h]

/-- A sequence ends in its first part or goes on from where that ended. -/
theorem bind_cases {r : Except ε β} (h : (m >>= f) s = (r, t)) :
    (∃ e, m s = (.error e, t) ∧ r = .error e) ∨ ∃ a u, m s = (.ok a, u) ∧ f a u = (r, t) := by
  cases hm : m s with
  | mk x u =>
    cases x with
    | ok a =>
      rw [bind_ok hm] at h
      exact Or.inr ⟨a, u, rfl, h⟩
    | error e =>
      rw [bind_error hm] at h
      obtain ⟨rfl, rfl⟩ := Prod.mk.inj h
      exact Or.inl ⟨e, rfl, rfl⟩

theorem bind_assoc' {γ : Type} (m : Act σ ε α) (f : α → Act σ ε β) (g : β → Act σ ε γ) :
    m >>= f >>= g = m >>= fun a => f a >>= g := by
  funext s
  cases hm : m s with
  | mk x t =>
    cases x with
    | ok a =>
      rw [bind_ok hm]
      cases hf : f a t with
      | mk y u =>
        cases y with
        | ok b => rw [bind_ok ((bind_ok hm).trans hf), bind_ok hf]
        | error e => rw [bind_error ((bind_ok hm).trans hf), bind_error hf]
    | error e => rw [bind_error (bind_error hm), bind_error hm]

/-- The computation returns a value. -/
def Returns (m : Act σ ε α) (s : σ) : Prop := ∃ a t, m s = (.ok a, t)

theorem returns_bind : Returns (m >>= f) s ↔ ∃ a t, m s = (.ok a, t) ∧ Returns (f a) t := by
  constructor
  · rintro ⟨b, u, h⟩
    obtain ⟨e, -, he⟩ | ⟨a, t, hm, hf⟩ := bind_cases h
    · cases he
    · exact ⟨a, t, hm, b, u, hf⟩
  · rintro ⟨a, t, hm, b, u, hf⟩
    exact ⟨b, u, by rw [bind_ok hm, hf]⟩

theorem lift_eq_ok {x : Except ε α} {a : α} :
    lift x s = (.ok a, t) ↔ x = .ok a ∧ t = s := by
  rw [lift, Prod.mk.injEq, @eq_comm _ s]

end Act

variable {σ ε ε' α β : Type}

/-- From a state in `P`, a value comes with `Q` and an error with `E`. -/
structure Triple (P : σ → Prop) (m : Act σ ε α) (Q : α → σ → Prop) (E : ε → σ → Prop) : Prop where
  run : ∀ s, P s → match m s with
    | (.ok a, t) => Q a t
    | (.error e, t) => E e t

namespace Triple

variable {P P' : σ → Prop} {Q Q' : α → σ → Prop} {R : β → σ → Prop} {E E' : ε → σ → Prop}
  {m : Act σ ε α}

theorem ok (h : Triple P m Q E) {s t : σ} {a : α} (hs : P s) (hm : m s = (.ok a, t)) : Q a t := by
  have := h.run s hs
  rwa [hm] at this

theorem error (h : Triple P m Q E) {s t : σ} {e : ε} (hs : P s) (hm : m s = (.error e, t)) :
    E e t := by
  have := h.run s hs
  rwa [hm] at this

theorem mono (h : Triple P' m Q' E') (hP : ∀ s, P s → P' s) (hQ : ∀ a s, Q' a s → Q a s)
    (hE : ∀ e s, E' e s → E e s) : Triple P m Q E := by
  refine ⟨fun s hs => ?_⟩
  have hm := h.run s (hP s hs)
  cases hr : m s with
  | mk r t =>
    rw [hr] at hm
    cases r with
    | ok a => exact hQ a t hm
    | error e => exact hE e t hm

theorem pure {a : α} (h : ∀ s, P s → Q a s) : Triple P (Pure.pure a : Act σ ε α) Q E := ⟨h⟩

theorem fail {e : ε} (h : ∀ s, P s → E e s) : Triple P (Act.fail e : Act σ ε α) Q E := ⟨h⟩

theorem lift {x : Except ε α} (hQ : ∀ a s, x = .ok a → P s → Q a s)
    (hE : ∀ e s, x = .error e → P s → E e s) : Triple P (Act.lift x) Q E := by
  refine ⟨fun s hs => ?_⟩
  cases x with
  | ok a => exact hQ a s rfl hs
  | error e => exact hE e s rfl hs

/-- **Sequencing.** -/
theorem bind {f : α → Act σ ε β} (hm : Triple P m Q E) (hf : ∀ a, Triple (Q a) (f a) R E) :
    Triple P (m >>= f) R E := by
  refine ⟨fun s hs => ?_⟩
  have hq := hm.run s hs
  show match (match m s with
    | (.ok a, t) => f a t
    | (.error e, t) => (.error e, t)) with
    | (.ok b, t) => R b t
    | (.error e, t) => E e t
  cases hr : m s with
  | mk r t =>
    rw [hr] at hq
    cases r with
    | ok a => exact (hf a).run t hq
    | error e => exact hq

theorem attempt {E' : ε' → σ → Prop} (hm : Triple P m Q E) :
    Triple P (Act.attempt m) (fun r s => match r with
      | .ok a => Q a s
      | .error e => E e s) E' := by
  refine ⟨fun s hs => ?_⟩
  have hq := hm.run s hs
  unfold Act.attempt
  cases hr : m s with
  | mk r t =>
    rw [hr] at hq
    cases r with
    | ok a => exact hq
    | error e => exact hq

theorem mapError {f : ε → ε'} {E' : ε' → σ → Prop} (hm : Triple P m Q fun e => E' (f e)) :
    Triple P (Act.mapError f m) Q E' := by
  refine ⟨fun s hs => ?_⟩
  have hq := hm.run s hs
  unfold Act.mapError
  cases hr : m s with
  | mk r t =>
    rw [hr] at hq
    cases r with
    | ok a => exact hq
    | error e => exact hq

/-- A precondition that says something exists. -/
theorem «exists» {ι : Type} {P : ι → σ → Prop} (h : ∀ i, Triple (P i) m Q E) :
    Triple (fun s => ∃ i, P i s) m Q E := ⟨fun s ⟨i, hi⟩ => (h i).run s hi⟩

/-- A precondition with a part that is not about the state. -/
theorem assuming {φ : Prop} (h : φ → Triple P m Q E) : Triple (fun s => φ ∧ P s) m Q E :=
  ⟨fun s ⟨hφ, hs⟩ => (h hφ).run s hs⟩

/-- **A loop keeps what holds of the items it has done.** -/
theorem forM {I : List α → σ → Prop} {f : α → Act σ ε Unit} (l : List α)
    (h : ∀ done a, a ∈ l → Triple (I done) (f a) (fun _ => I (done ++ [a])) E) :
    Triple (I []) (l.forM f) (fun _ => I l) E := by
  suffices hgo : ∀ rest done, done ++ rest = l →
      Triple (I done) (rest.forM f) (fun _ => I l) E from hgo l [] rfl
  intro rest
  induction rest with
  | nil =>
    intro done hl
    rw [List.append_nil] at hl
    exact pure fun s hs => hl ▸ hs
  | cons a rest ih =>
    intro done hl
    have ha : a ∈ l := hl ▸ List.mem_append_right done List.mem_cons_self
    show Triple _ (f a >>= fun _ => rest.forM f) _ _
    exact bind (h done a ha) fun _ => ih (done ++ [a]) (by rw [← hl]; simp)

end Triple

/-! ## Computations that only move a state forward -/

/-- From a state whose view is in `P`, every outcome is reached by moves of `M`; a value comes with
`Q`. -/
structure Advances {τ : Type} (view : σ → τ) (M : τ → τ → Prop) (P : τ → Prop) (m : Act σ ε α)
    (Q : α → τ → Prop) : Prop where
  run : ∀ s, P (view s) → match m s with
    | (.ok a, t) => Relation.ReflTransGen M (view s) (view t) ∧ Q a (view t)
    | (.error _, t) => Relation.ReflTransGen M (view s) (view t)

namespace Advances

variable {τ : Type} {view : σ → τ} {M : τ → τ → Prop} {P P' : τ → Prop} {Q Q' : α → τ → Prop}
  {R : β → τ → Prop} {m : Act σ ε α}

theorem moves (h : Advances view M P m Q) {s : σ} (hs : P (view s)) :
    Relation.ReflTransGen M (view s) (view (m s).2) := by
  have hm := h.run s hs
  cases hr : m s with
  | mk r t =>
    rw [hr] at hm
    cases r with
    | ok a => exact hm.1
    | error e => exact hm

theorem ok (h : Advances view M P m Q) {s t : σ} {a : α} (hs : P (view s))
    (hm : m s = (.ok a, t)) : Q a (view t) := by
  have := h.run s hs
  rw [hm] at this
  exact this.2

theorem mono (h : Advances view M P' m Q') (hP : ∀ v, P v → P' v)
    (hQ : ∀ a v, Q' a v → Q a v) : Advances view M P m Q := by
  refine ⟨fun s hs => ?_⟩
  have hm := h.run s (hP _ hs)
  cases hr : m s with
  | mk r t =>
    rw [hr] at hm
    cases r with
    | ok a => exact ⟨hm.1, hQ a _ hm.2⟩
    | error e => exact hm

theorem pure {a : α} (h : ∀ v, P v → Q a v) : Advances view M P (Pure.pure a : Act σ ε α) Q :=
  ⟨fun _ hs => ⟨Relation.ReflTransGen.refl, h _ hs⟩⟩

theorem fail {e : ε} : Advances view M P (Act.fail e : Act σ ε α) Q :=
  ⟨fun _ _ => Relation.ReflTransGen.refl⟩

theorem lift {x : Except ε α} (h : ∀ a v, x = .ok a → P v → Q a v) :
    Advances view M P (Act.lift x) Q := by
  refine ⟨fun s hs => ?_⟩
  cases x with
  | ok a => exact ⟨Relation.ReflTransGen.refl, h a _ rfl hs⟩
  | error e => exact Relation.ReflTransGen.refl

/-- **Sequencing.** -/
theorem bind {f : α → Act σ ε β} (hm : Advances view M P m Q)
    (hf : ∀ a, Advances view M (Q a) (f a) R) : Advances view M P (m >>= f) R := by
  refine ⟨fun s hs => ?_⟩
  have hq := hm.run s hs
  show match (match m s with
    | (.ok a, t) => f a t
    | (.error e, t) => (.error e, t)) with
    | (.ok b, t) => Relation.ReflTransGen M (view s) (view t) ∧ R b (view t)
    | (.error _, t) => Relation.ReflTransGen M (view s) (view t)
  cases hr : m s with
  | mk r t =>
    rw [hr] at hq
    cases r with
    | error e => exact hq
    | ok a =>
      dsimp only
      have hb := (hf a).run t hq.2
      cases hfr : f a t with
      | mk r' u =>
        rw [hfr] at hb
        cases r' with
        | ok b => exact ⟨hq.1.trans hb.1, hb.2⟩
        | error e => exact hq.1.trans hb

theorem attempt (hm : Advances view M P m Q) (hP : ∀ v w, M v w → P v → P w) :
    Advances view M P (Act.attempt m : Act σ ε' (Except ε α)) fun _ => P := by
  refine ⟨fun s hs => ?_⟩
  have hmoves := hm.moves hs
  have hkeep : P (view (m s).2) := by
    have hlast : ∀ v, Relation.ReflTransGen M (view s) v → P v := fun v hv => by
      induction hv with
      | refl => exact hs
      | tail _ hstep ih => exact hP _ _ hstep ih
    exact hlast _ hmoves
  unfold Act.attempt
  cases hr : m s with
  | mk r t =>
    rw [hr] at hmoves hkeep
    exact ⟨hmoves, hkeep⟩

/-- **What every move keeps is carried along.** -/
theorem frame {φ : τ → Prop} (h : Advances view M P m Q) (hφ : ∀ v w, M v w → φ v → φ w) :
    Advances view M (fun v => P v ∧ φ v) m fun a v => Q a v ∧ φ v := by
  refine ⟨fun s hs => ?_⟩
  have hm := h.run s hs.1
  have hkeep : ∀ v, Relation.ReflTransGen M (view s) v → φ v := fun v hv => by
    induction hv with
    | refl => exact hs.2
    | tail _ hstep ih => exact hφ _ _ hstep ih
  cases hr : m s with
  | mk r t =>
    rw [hr] at hm
    cases r with
    | ok a => exact ⟨hm.1, hm.2, hkeep _ hm.1⟩
    | error e => exact hm

/-- A precondition with a part that is not about the state. -/
theorem assuming {φ : Prop} (h : φ → Advances view M P m Q) :
    Advances view M (fun v => φ ∧ P v) m Q := ⟨fun s ⟨hφ, hs⟩ => (h hφ).run s hs⟩

end Advances

/-! ## Computations that return -/

/-- From a state whose view is in `P` there is a value, and it comes with `Q`. -/
structure Succeeds {τ : Type} (view : σ → τ) (P : τ → Prop) (m : Act σ ε α)
    (Q : α → τ → Prop) : Prop where
  run : ∀ s, P (view s) → ∃ a t, m s = (.ok a, t) ∧ Q a (view t)

namespace Succeeds

variable {τ : Type} {view : σ → τ} {P P' : τ → Prop} {Q Q' : α → τ → Prop} {R : β → τ → Prop}
  {m : Act σ ε α}

theorem mono (h : Succeeds view P' m Q') (hP : ∀ v, P v → P' v) (hQ : ∀ a v, Q' a v → Q a v) :
    Succeeds view P m Q := by
  refine ⟨fun s hs => ?_⟩
  obtain ⟨a, t, hm, hq⟩ := h.run s (hP _ hs)
  exact ⟨a, t, hm, hQ a _ hq⟩

theorem pure {a : α} (h : ∀ v, P v → Q a v) : Succeeds view P (Pure.pure a : Act σ ε α) Q :=
  ⟨fun s hs => ⟨a, s, rfl, h _ hs⟩⟩

theorem lift {x : Except ε α} (h : ∀ v, P v → ∃ a, x = .ok a ∧ Q a v) :
    Succeeds view P (Act.lift x) Q := by
  refine ⟨fun s hs => ?_⟩
  obtain ⟨a, rfl, hq⟩ := h _ hs
  exact ⟨a, s, rfl, hq⟩

theorem bind {f : α → Act σ ε β} (hm : Succeeds view P m Q)
    (hf : ∀ a, Succeeds view (Q a) (f a) R) : Succeeds view P (m >>= f) R := by
  refine ⟨fun s hs => ?_⟩
  obtain ⟨a, t, ha, hq⟩ := hm.run s hs
  obtain ⟨b, u, hb, hr⟩ := (hf a).run t hq
  exact ⟨b, u, (Act.bind_ok ha).trans hb, hr⟩

end Succeeds

end Okc.Lib
