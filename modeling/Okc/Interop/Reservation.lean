import Okc.Interop.Scheduler

/-!
# Project reservations (`okc-interop/src/lib.rs:684-761`, `:789-829`)

A reservation is taken in `submit`, under the mutex of the set, and removed by a worker or by the
error path of `submit`. `Wf` says that the set holds exactly the paths of the jobs that have not
come to their removal yet, each path for one job, and counts the removals.

* `wf_step`, `wf_reachable`: the invariant, over any number of schedulers.
* `reservations_exclusive`: exclusion, one release for each reservation, and release before the
  terminal state.
-/

namespace Okc.Interop

open Okc.Lib

variable {s s' : System} {a : Action}

/-! ## The invariant -/

/-- Job `i` has a reservation that is still to be removed. -/
def Holds (s : System) (i : Nat) (p : String) : Prop :=
  ∃ e, s.jobs i = some e ∧ e.reservation = some p ∧ e.stage.holding = true

structure Wf (s : System) : Prop where
  /-- The set lists the held paths. -/
  reserved : ∀ p, p ∈ s.reservations ↔ ∃ i, Holds s i p
  exclusive : ∀ {i j p}, Holds s i p → Holds s j p → i = j
  releases : ∀ {i e p}, s.jobs i = some e → e.reservation = some p →
    e.releases = if e.stage.holding then 0 else 1
  sound : ∀ {i e}, s.jobs i = some e → e.Sound

theorem wf_init (workers : Nat → Nat) : Wf (System.init workers) where
  reserved p := by simp [System.init, Holds]
  exclusive := by simp [System.init, Holds]
  releases := by simp [System.init]
  sound := by simp [System.init]

theorem holds_update {i j : Nat} {e : Entry} {p : String}
    (h : s'.jobs = Function.update s.jobs i (some e)) :
    Holds s' j p ↔ j = i ∧ e.reservation = some p ∧ e.stage.holding = true ∨
      j ≠ i ∧ Holds s j p := by
  unfold Holds
  rw [h]
  by_cases hji : j = i
  · subst hji
    simp
  · simp [hji]

theorem NewJob.holds {i : Nat} {e : Entry} (hi : s.jobs i = none) (he : NewJob s e)
    (hjobs : s'.jobs = Function.update s.jobs i (some e)) {j : Nat} {p : String} :
    Holds s' j p ↔ j = i ∧ e.reservation = some p ∨ Holds s j p := by
  rw [holds_update hjobs]
  have hnot : ¬ Holds s i p := by simp [Holds, hi]
  constructor
  · rintro (⟨rfl, hp, -⟩ | ⟨-, h⟩)
    · exact Or.inl ⟨rfl, hp⟩
    · exact Or.inr h
  · rintro (⟨rfl, hp⟩ | h)
    · exact Or.inl ⟨rfl, hp, he.holding (by simp [hp])⟩
    · exact Or.inr ⟨fun hji => hnot (hji ▸ h), h⟩

theorem MovesJob.holds_kept {i : Nat} {e e' : Entry} (h : MovesJob s s' i e e')
    (hk : e.Kept e') {j : Nat} {p : String} : Holds s' j p ↔ Holds s j p := by
  rw [holds_update h.jobs, hk.reservation, hk.holding]
  constructor
  · rintro (⟨rfl, hp, hh⟩ | ⟨-, hj⟩)
    · exact ⟨e, h.here, hp, hh⟩
    · exact hj
  · rintro ⟨f, hf, hp, hh⟩
    by_cases hji : j = i
    · subst hji
      obtain rfl : e = f := Option.some.inj (h.here.symm.trans hf)
      exact Or.inl ⟨rfl, hp, hh⟩
    · exact Or.inr ⟨hji, f, hf, hp, hh⟩

theorem MovesJob.holds_released {i : Nat} {e e' : Entry} (h : MovesJob s s' i e e')
    (hr : e.Released e') {j : Nat} {p : String} : Holds s' j p ↔ j ≠ i ∧ Holds s j p := by
  rw [holds_update h.jobs, hr.holding]
  simp

/-- What a job-wise statement needs to survive a step. -/
theorem forall_jobs_update {P : Entry → Prop} {i : Nat} {e : Entry}
    (hjobs : s'.jobs = Function.update s.jobs i (some e)) (he : P e)
    (h : ∀ {j f}, s.jobs j = some f → P f) {j : Nat} {f : Entry} (hf : s'.jobs j = some f) :
    P f := by
  rw [hjobs] at hf
  by_cases hji : j = i
  · subst hji
    rw [Function.update_self] at hf
    exact Option.some.inj hf ▸ he
  · rw [Function.update_of_ne hji] at hf
    exact h hf

/-- Removals are counted. -/
def Counted (e : Entry) : Prop :=
  ∀ p, e.reservation = some p → e.releases = if e.stage.holding then 0 else 1

/-- **The step lemma.** -/
theorem wf_step (hw : Wf s) (h : s.step a = some s') : Wf s' := by
  rcases System.step_cases h with ⟨i, e, hi, he, hjobs, hres⟩ | ⟨i, e, e', hm⟩
  · have hcount : Counted e := by
      intro p hp
      rw [he.releases, he.holding (by simp [hp]), if_pos rfl]
    refine ⟨fun p => ?_, fun {j k p} hj hk => ?_, fun hf hp => ?_,
      fun hf => forall_jobs_update hjobs he.sound hw.sound hf⟩
    · simp only [he.holds hi hjobs, hres, Finset.mem_union, hw.reserved, Option.mem_toFinset,
        Option.mem_def]
      constructor
      · rintro (⟨j, hj⟩ | hp)
        · exact ⟨j, Or.inr hj⟩
        · exact ⟨i, Or.inl ⟨rfl, hp⟩⟩
      · rintro ⟨j, ⟨-, hp⟩ | hj⟩
        · exact Or.inr hp
        · exact Or.inl ⟨j, hj⟩
    · -- nobody holds the path of the new job
      have hfree : ∀ l, e.reservation = some p → ¬ Holds s l p := fun l hp hl =>
        he.free p hp ((hw.reserved p).mpr ⟨l, hl⟩)
      rcases (he.holds hi hjobs).mp hj with ⟨rfl, hp⟩ | hj
      · rcases (he.holds hi hjobs).mp hk with ⟨rfl, -⟩ | hk
        · rfl
        · exact absurd hk (hfree k hp)
      · rcases (he.holds hi hjobs).mp hk with ⟨rfl, hp⟩ | hk
        · exact absurd hj (hfree j hp)
        · exact hw.exclusive hj hk
    · exact forall_jobs_update (P := Counted) hjobs hcount
        (fun hf p hp => hw.releases hf hp) hf _ hp
  · obtain ⟨m, hmove⟩ := hm.moves
    have hsound : e'.Sound := Entry.sound_move (hw.sound hm.here) hmove
    rcases hm.effect with ⟨hk, hres⟩ | ⟨hr, hres⟩
    · have hcount : Counted e' := by
        intro p hp
        rw [hk.releases, hk.holding, hw.releases hm.here (hk.reservation ▸ hp)]
      refine ⟨fun p => ?_, fun hj hk' => ?_, fun hf hp => ?_,
        fun hf => forall_jobs_update hm.jobs hsound hw.sound hf⟩
      · simp only [hres, hw.reserved, hm.holds_kept hk]
      · exact hw.exclusive ((hm.holds_kept hk).mp hj) ((hm.holds_kept hk).mp hk')
      · exact forall_jobs_update (P := Counted) hm.jobs hcount
          (fun hf p hp => hw.releases hf hp) hf _ hp
    · have hcount : Counted e' := by
        intro p hp
        have hpe : e.reservation = some p := hr.reservation ▸ hp
        rw [hr.releases, hr.holding, hw.releases hm.here hpe, hr.held, hpe]
        rfl
      refine ⟨fun p => ?_, fun hj hk' => ?_, fun hf hp => ?_,
        fun hf => forall_jobs_update hm.jobs hsound hw.sound hf⟩
      · simp only [hres, Finset.mem_sdiff, hw.reserved, hm.holds_released hr, Option.mem_toFinset,
          Option.mem_def]
        constructor
        · rintro ⟨⟨j, hj⟩, hp⟩
          refine ⟨j, fun hji => hp ?_, hj⟩
          obtain ⟨f, hf, hpf, -⟩ := hji ▸ hj
          rwa [Option.some.inj (hm.here.symm.trans hf)]
        · rintro ⟨j, hji, hj⟩
          exact ⟨⟨j, hj⟩, fun hp => hji (hw.exclusive hj ⟨e, hm.here, hp, hr.held⟩)⟩
      · exact hw.exclusive ((hm.holds_released hr).mp hj).2 ((hm.holds_released hr).mp hk').2
      · exact forall_jobs_update (P := Counted) hm.jobs hcount
          (fun hf p hp => hw.releases hf hp) hf _ hp

/-- The systems that any interleaving of submissions, workers and handles reaches. -/
def Reachable (workers : Nat → Nat) (s : System) : Prop :=
  Reaches System.step (fun _ _ => True) (System.init workers) s

theorem wf_reachable {workers : Nat → Nat} (h : Reachable workers s) : Wf s :=
  h.invariant (fun _ _ _ hw _ hs => wf_step hw hs) (wf_init workers)

/-- **Reservations are exclusive and leak-free.** In every interleaving: no two jobs with one
reservation run their work at a time; a reservation is removed at most once, and exactly once by
the time its job is terminal; and the set holds a path only for a job that has still to remove
it. -/
theorem reservations_exclusive {workers : Nat → Nat} (h : Reachable workers s) :
    (∀ i j e f p, s.jobs i = some e → s.jobs j = some f → e.reservation = some p →
      f.reservation = some p → e.stage.running = true → f.stage.running = true → i = j) ∧
    (∀ i e p, s.jobs i = some e → e.reservation = some p → e.releases ≤ 1 ∧
      (e.shared.record.state.terminal = true → e.releases = 1)) ∧
    ∀ p ∈ s.reservations, ∃ i e, s.jobs i = some e ∧ e.reservation = some p ∧ e.releases = 0 ∧
      e.shared.record.state.terminal = false := by
  have hw := wf_reachable h
  have hrunning : ∀ stage : Stage, stage.running = true → stage.holding = true := by
    intro stage hs
    cases stage <;> first | rfl | cases hs
  refine ⟨fun i j e f p he hf hp hq hre hrf => ?_, fun i e p he hp => ⟨?_, fun ht => ?_⟩,
    fun p hp => ?_⟩
  · exact hw.exclusive ⟨e, he, hp, hrunning _ hre⟩ ⟨f, hf, hq, hrunning _ hrf⟩
  · rw [hw.releases he hp]
    split <;> omega
  · rw [hw.releases he hp, (hw.sound he).terminal_iff.mp ht]
    rfl
  · obtain ⟨i, e, he, hpe, hh⟩ := (hw.reserved p).mp hp
    refine ⟨i, e, he, hpe, by rw [hw.releases he hpe, if_pos hh], ?_⟩
    by_contra ht
    rw [(hw.sound he).terminal_iff.mp (by simpa using ht)] at hh
    cases hh

/-- Two clients of one project: the second is refused while the first job is queued, and gets the
project when it is done. -/
def twoClients : List Action :=
  let job := fun k i => Action.submit k i "project.compile" (some "project") true
    (compileLatest .null)
  job 0 0 :: job 1 1 :: .advance 0 :: .receive 0 :: List.replicate 11 (.advance 0) ++
    [job 1 2, .advance 2, .receive 1, .advance 2]

def afterTwoClients : System :=
  (exec System.step (System.init fun _ => 1) twoClients).getD (System.init fun _ => 1)

theorem reservations_exclusive_twoClients :
    ∃ e, afterTwoClients.jobs 2 = some e ∧ e.stage.running = true ∧
      ∀ j f, afterTwoClients.jobs j = some f → f.reservation = some "project" →
        f.stage.running = true → 2 = j := by
  have hrun : exec System.step (System.init fun _ => 1) twoClients = some afterTwoClients := rfl
  refine ⟨_, rfl, rfl, fun j f hf hp hr => ?_⟩
  exact (reservations_exclusive (reaches_of_exec hrun fun _ _ => trivial)).1 2 j _ f "project" rfl
    hf rfl hp rfl hr

end Okc.Interop
