import Okc.Interop.Scheduler

/-!
# Cancellation (`okc-interop/src/lib.rs:458-566`, `:789-829`)

`cancel` answers `Requested` when it sets the token before the publication barrier. The worker
honours the token where it reads it: in `begin` and once after the work. Two windows stay open. The
work may report `Publishing` after its own last look at the token, which raises the barrier on a
cancelled job; and a request may land after the worker's look, when the result is already fixed.
`Orderly` is the condition that no move falls into a window.

* `Heeded`, `heeded_move`: the state a request leaves, which orderly moves keep.
* `cancelled_of_requested`: in an orderly run a job that took a request ends in the cancelled
  error.
* `requested_not_honoured`: a run through each window.
-/

namespace Okc.Interop

open Okc.Lib

/-- The result is a cancelled error. -/
def IsCancelled (r : RawResult) : Prop := ∃ e : OkcError, r = .error e ∧ e.code = .cancelled

theorem isCancelled_cancelledError : IsCancelled (.error cancelledError) := ⟨_, rfl, rfl⟩

/-- A job as `submit` makes it, before `try_send`. -/
def Entry.Submitted (e : Entry) : Prop :=
  ∃ operation k reservation work, e = ⟨.new operation, k, reservation, .sending work, 0⟩

/-- The move falls into no window: the work of a cancelled job does not report `Publishing`, and no
request is taken between the worker's look at the token and `finish`, unless the result is a
cancelled error anyway. -/
def Orderly (e : Entry) : Move → Prop
  | .advance _ => e.shared.cancelled = true → ∀ event next,
      e.stage = .working (.observe event next) → event.phase ≠ .publishing
  | .cancel => e.shared.cancel.1 = .requested → ∀ r,
      e.stage = .settled r ∨ e.stage = .finishing r → IsCancelled r
  | _ => True

/-- What a request leaves and orderly moves keep. -/
structure Heeded (e : Entry) : Prop where
  cancelled : e.shared.cancelled = true
  submitted : e.stage.submitted = true
  barrier : e.shared.record.publicationBarrier = false
  state : e.shared.record.state = .cancelling ∨ e.shared.record.state = .cancelled
  settled : ∀ r, e.stage = .settled r ∨ e.stage = .finishing r → IsCancelled r
  result : ∀ r, e.shared.record.result = some r → IsCancelled r

variable {e e' t : Entry} {m : Move}

/-- A job keeps its shared part on the way to another stage. -/
theorem Heeded.goto (h : Heeded e) {stage : Stage} (hs : stage.submitted = true)
    (hr : ∀ r, stage = .settled r ∨ stage = .finishing r → IsCancelled r) :
    Heeded { e with stage := stage } :=
  ⟨h.cancelled, hs, h.barrier, h.state, hr, h.result⟩

theorem Heeded.cancelling (h : Heeded e) (hu : e.shared.Unfinished) :
    e.shared.record.state = .cancelling := by
  rcases h.state with hs | hs
  · exact hs
  · have ht := hu.2
    rw [hs] at ht
    cases ht

/-- A heeded job ends in a cancelled error. -/
theorem Heeded.finish (h : Heeded e) (hu : e.shared.Unfinished) {r : RawResult}
    (hr : IsCancelled r) : Heeded (e.finish r) := by
  obtain ⟨hres, hstate⟩ := SharedJob.finish_result hu.1 r
  refine ⟨(SharedJob.finish_cancelled r).trans h.cancelled, rfl,
    (SharedJob.finish_barrier r).trans h.barrier, Or.inr ?_, fun r' hr' => ?_, fun r' hr' => ?_⟩
  · obtain ⟨err, rfl, hcode⟩ := hr
    rw [Entry.finish, hstate, SharedJob.terminalState, if_pos hcode]
  · rcases hr' with hf | hf <;> cases hf
  · rw [Entry.finish, hres] at hr'
    exact Option.some.inj hr' ▸ hr

/-- The step lemma: by cases on the stage. -/
theorem heeded_advance (hs : e.Sound) (h : Heeded e) {channel : TrySend} (ho : Orderly e (.advance channel))
    (hm : e.advance channel = some e') : Heeded e' := by
  have hu := hs.unfinished
  rcases e with ⟨shared, k, reservation, stage, releases⟩
  unfold Entry.advance at hm
  cases stage with
  | sending work => exact absurd h.submitted (by simp [Stage.submitted])
  | rejected error => exact absurd h.submitted (by simp [Stage.submitted])
  | dropping error => exact absurd h.submitted (by simp [Stage.submitted])
  | waiting work => cases hm
  | received work =>
    dsimp only at hm
    rw [SharedJob.begin_of_cancelled h.cancelled] at hm
    cases hm
    refine h.goto rfl ?_
    rintro r (hr | hr) <;> cases hr
    exact isCancelled_cancelledError
  | working work =>
    have hw : shared.Unfinished := hu (by simp)
    cases work with
    | done result =>
      cases hm
      exact h.goto rfl (by rintro r (hr | hr) <;> cases hr)
    | observe event next =>
      cases hm
      have hphase : event.phase ≠ .publishing := ho h.cancelled event next rfl
      obtain ⟨hstate, hbarrier⟩ := SharedJob.observe_of_cancelling hphase h.barrier
        (h.cancelling hw)
      refine ⟨(SharedJob.observe_cancelled event).trans h.cancelled, rfl, hbarrier, Or.inl hstate,
        fun r hr => ?_, fun r hr => ?_⟩
      · rcases hr with hr | hr <;> cases hr
      · exact h.result r ((SharedJob.observe_result event).symm.trans hr)
    | isCancelled yes no =>
      cases hm
      exact h.goto rfl (by rintro r (hr | hr) <;> cases hr)
  | returned result =>
    -- the worker sees the token
    have hc : shared.cancelled = true := h.cancelled
    cases hm
    rw [Entry.goto, if_pos hc]
    exact h.goto rfl (by rintro r (hr | hr) <;> cases hr)
  | heeding result =>
    have hb : shared.record.publicationBarrier = false := h.barrier
    cases hm
    rw [Entry.goto, if_neg (by simp [hb])]
    refine h.goto rfl ?_
    rintro r (hr | hr) <;> cases hr
    exact isCancelled_cancelledError
  | settled result =>
    cases hm
    have hr := h.settled result (Or.inl rfl)
    refine ⟨h.cancelled, rfl, h.barrier, h.state, ?_, h.result⟩
    rintro r (he | he) <;> cases he
    exact hr
  | finishing result =>
    cases hm
    exact h.finish (hu (by simp)) (h.settled result (Or.inr rfl))
  | finished => cases hm

/-- What a request leaves. -/
theorem heeded_cancel (hs : e.Sound) (hsub : e.stage.submitted = true)
    (ho : Orderly e .cancel) (hreq : e.shared.cancel.1 = .requested) :
    Heeded { e with shared := e.shared.cancel.2 } := by
  obtain ⟨ht, hc, hstate, hb, hres⟩ := SharedJob.cancel_requested hreq
  have hu : e.shared.Unfinished :=
    hs.unfinished fun hf => by simp [hs.terminal_iff.mpr hf] at ht
  refine ⟨hc, hsub, hb, Or.inl hstate, ho hreq, fun r hr => ?_⟩
  rw [hres, hu.1] at hr
  cases hr

theorem heeded_move (hs : e.Sound) (h : Heeded e) (ho : Orderly e m) (hm : e.move m = some e') :
    Heeded e' := by
  cases m with
  | advance channel => exact heeded_advance hs h ho hm
  | receive =>
    rcases e with ⟨shared, k, reservation, stage, releases⟩
    cases stage <;> cases hm
    refine h.goto rfl fun r hr => ?_
    rcases hr with hr | hr <;> cases hr
  | cancel =>
    rw [Entry.move, Option.ite_none_right_eq_some] at hm
    obtain ⟨hsub, he⟩ := hm
    cases he
    by_cases hreq : e.shared.cancel.1 = .requested
    · exact heeded_cancel hs hsub ho hreq
    · simpa only [SharedJob.cancel_refused hreq] using h
  | takeEvents =>
    rw [Entry.move, Option.ite_none_right_eq_some] at hm
    obtain ⟨hsub, he⟩ := hm
    cases he
    exact ⟨h.cancelled, hsub, h.barrier, h.state, h.settled, h.result⟩

theorem Entry.Submitted.sound (h : e.Submitted) : e.Sound := by
  obtain ⟨operation, k, reservation, work, rfl⟩ := h
  exact Or.inr ⟨by simp, SharedJob.unfinished_new operation⟩

/-- **A request that is taken is final.** In a run of orderly moves the job never publishes
afterwards, and its result is a cancelled error. -/
theorem cancelled_of_requested {e₀ : Entry} (h₀ : e₀.Submitted)
    (hrun : Reaches Entry.move Orderly e₀ e) (hreq : e.shared.cancel.1 = .requested)
    (ho : Orderly e .cancel) (hm : e.move .cancel = some e')
    (hrun' : Reaches Entry.move Orderly e' t) :
    t.shared.record.state ≠ .publishing ∧
      ∀ r, t.shared.record.result = some r → IsCancelled r := by
  have hs : e.Sound := hrun.invariant (fun _ _ _ hs _ hm => Entry.sound_move hs hm) h₀.sound
  have hs' : e'.Sound := Entry.sound_move hs hm
  have hheeded : Heeded e' := by
    rw [Entry.move, Option.ite_none_right_eq_some] at hm
    obtain ⟨hsub, he⟩ := hm
    cases he
    exact heeded_cancel hs hsub ho hreq
  have hkept : ∀ u m v, u.Sound ∧ Heeded u → Orderly u m → u.move m = some v →
      v.Sound ∧ Heeded v :=
    fun u m v h ho hm => ⟨Entry.sound_move h.1 hm, heeded_move h.1 h.2 ho hm⟩
  have ht : t.Sound ∧ Heeded t := hrun'.invariant hkept ⟨hs', hheeded⟩
  refine ⟨fun hp => ?_, ht.2.result⟩
  rcases ht.2.state with hstate | hstate <;> rw [hp] at hstate <;> cases hstate

/-! ## Runs of two jobs -/

/-- A job before `try_send`. -/
def jobOf (operation : String) (work : Work) : Entry :=
  ⟨.new operation, 0, some "project", .sending work, 0⟩

/-- A number of moves of the acting thread. -/
def goOn (n : Nat) : List Move := List.replicate n (.advance .sent)

theorem orderly_uncancelled (h : e.shared.cancelled = false) {channel : TrySend} :
    Orderly e (.advance channel) := by
  intro hc
  rw [h] at hc
  cases hc

/-- A job after a number of enabled moves. -/
def after (e : Entry) (moves : List Move) : Entry := (exec Entry.move e moves).getD e

/-- A compile job that a worker has begun. -/
def begun : Entry :=
  after (jobOf "project.compile" (compileLatest .null)) (goOn 1 ++ .receive :: goOn 2)

/-- A compile job cancelled while it stages ends in the cancelled error. -/
theorem cancelled_of_requested_compile :
    (after begun (.cancel :: goOn 7)).stage = .finished ∧
      (after begun (.cancel :: goOn 7)).shared.record.state ≠ .publishing ∧
      ∀ r, (after begun (.cancel :: goOn 7)).shared.record.result = some r → IsCancelled r := by
  have hpath : ∀ {u v : Entry} (m : Move), u.move m = some v → Orderly u m →
      Moves Entry.move Orderly u v := fun _ hm ho => ⟨_, ho, hm⟩
  have hbegun : Reaches Entry.move Orderly (jobOf "project.compile" (compileLatest .null)) begun :=
    .head (hpath (.advance .sent) rfl (orderly_uncancelled rfl)) <|
      .head (hpath .receive rfl trivial) <|
      .head (hpath (.advance .sent) rfl (orderly_uncancelled rfl)) <|
      .single (hpath (.advance .sent) rfl (orderly_uncancelled rfl))
  have hend : Reaches Entry.move Orderly (after begun [.cancel])
      (after begun (.cancel :: goOn 7)) := by
    have hgo : ∀ n, n < 7 → Moves Entry.move Orderly (after begun (.cancel :: goOn n))
        (after begun (.cancel :: goOn (n + 1))) := by
      intro n hn
      interval_cases n <;> refine hpath (.advance .sent) rfl fun _ event next hstage => ?_ <;>
        cases hstage
      decide
    exact .head (hgo 0 (by omega)) <| .head (hgo 1 (by omega)) <| .head (hgo 2 (by omega)) <|
      .head (hgo 3 (by omega)) <| .head (hgo 4 (by omega)) <| .head (hgo 5 (by omega)) <|
      .single (hgo 6 (by omega))
  refine ⟨rfl, cancelled_of_requested ⟨_, _, _, _, rfl⟩ hbegun rfl ?_ rfl hend⟩
  rintro - r (hr | hr) <;> cases hr

/-- **Both windows are real.** A compile job cancelled between its last look at the token and its
`Publishing` report publishes and completes, and a job cancelled after the worker's look at the
token completes. -/
theorem requested_not_honoured :
    (∃ e e' p t, exec Entry.move (jobOf "project.compile" (compileLatest .null))
        (goOn 1 ++ .receive :: goOn 4) = some e ∧
      e.shared.cancel.1 = .requested ∧ e.move .cancel = some e' ∧
      exec Entry.move e' (goOn 1) = some p ∧ p.shared.record.state = .publishing ∧
      exec Entry.move p (goOn 7) = some t ∧ t.shared.record.result = some (.ok .null)) ∧
    ∃ e e' t, exec Entry.move (jobOf "project.manifest" (.done (.ok .null)))
        (goOn 1 ++ .receive :: goOn 3) = some e ∧
      e.shared.cancel.1 = .requested ∧ e.move .cancel = some e' ∧
      exec Entry.move e' (goOn 2) = some t ∧ t.shared.record.result = some (.ok .null) :=
  ⟨⟨_, _, _, _, rfl, rfl, rfl, rfl, rfl, rfl, rfl⟩, _, _, _, rfl, rfl, rfl, rfl, rfl⟩

end Okc.Interop
