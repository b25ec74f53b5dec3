import Mathlib

/-!
# Runs of a system

A system is a function from a state and an action to the next state, `none` where the action is
not enabled. `Reaches step P s t` says that a run leads from `s` to `t` each of whose steps meets
`P`; `exec` follows a given sequence of actions.

* `Reaches.invariant`: what every step that meets `P` preserves holds at the end of a run.
* `Reaches.mono`, `reaches_of_exec`: weakening the condition on the steps, and the run that a
  sequence of actions takes.
-/

namespace Okc.Lib

variable {σ α : Type*} {step : σ → α → Option σ} {P Q : σ → α → Prop} {s t u : σ}

/-- One step, by an action that is enabled and meets `P`. -/
def Moves (step : σ → α → Option σ) (P : σ → α → Prop) (s t : σ) : Prop :=
  ∃ a, P s a ∧ step s a = some t

/-- A run whose steps all meet `P`. -/
def Reaches (step : σ → α → Option σ) (P : σ → α → Prop) : σ → σ → Prop :=
  Relation.ReflTransGen (Moves step P)

/-- **The invariant rule.** -/
theorem Reaches.invariant {I : σ → Prop} (h : Reaches step P s t)
    (hstep : ∀ s a t, I s → P s a → step s a = some t → I t) (hs : I s) : I t := by
  induction h with
  | refl => exact hs
  | tail _ hm ih =>
    rcases hm with ⟨a, hP, ha⟩
    exact hstep _ a _ ih hP ha

theorem Reaches.mono (h : Reaches step P s t) (hPQ : ∀ s a, P s a → Q s a) :
    Reaches step Q s t := by
  refine Relation.ReflTransGen.mono ?_ _ _ h
  rintro u v ⟨a, hP, ha⟩
  exact ⟨a, hPQ u a hP, ha⟩

/-- The state after a sequence of actions, each of which must be enabled. -/
def exec (step : σ → α → Option σ) (s : σ) : List α → Option σ
  | [] => some s
  | a :: as => (step s a).bind fun u => exec step u as

/-- A sequence of enabled actions that meet `P` wherever they are taken is a run. -/
theorem reaches_of_exec_mem {as : List α} (h : exec step s as = some t)
    (hP : ∀ u, ∀ a ∈ as, P u a) : Reaches step P s t := by
  induction as generalizing s with
  | nil =>
    obtain rfl : s = t := Option.some.inj h
    exact Relation.ReflTransGen.refl
  | cons a as ih =>
    obtain ⟨u, ha, hu⟩ := Option.bind_eq_some_iff.mp h
    have hrest : Reaches step P u t := ih hu fun v b hb => hP v b (List.mem_cons_of_mem a hb)
    exact Relation.ReflTransGen.head ⟨a, hP s a List.mem_cons_self, ha⟩ hrest

/-- A sequence of enabled actions is a run. -/
theorem reaches_of_exec {as : List α} (h : exec step s as = some t) (hP : ∀ u a, P u a) :
    Reaches step P s t :=
  reaches_of_exec_mem h fun u a _ => hP u a

end Okc.Lib
