import Okc.Interop.Job
import Okc.Lib.Runs

/-!
# The job scheduler (`okc-interop/src/lib.rs:648-829`)

Any number of schedulers share one set of project reservations. `submit` reserves the project of a
mutating job and offers the job to a bounded queue; a worker takes it, runs its work and releases
the reservation. The acting thread of a job (its submitter up to the queue, its worker after) is a
program counter, `Stage`, that moves by one critical section, channel operation or read of the
token at a time; `step` interleaves those moves with submissions, receipts, cancellations and
readers of the events.

Two things of the source have no move of their own. Dropping a scheduler keeps its workers until
the queue is empty, so it is a run that submits no more jobs there. The result a handle waits for
is read off the record.

* `Entry.advance_cases`, `Entry.sound_move`: what one move does to the reservation and the state.
* `System.step_cases`: a step submits one job or moves one.
* `System.job_run`: a run of the system is, for each job, a run of its moves.
-/

namespace Okc.Interop

open Okc.Lib

def maxQueuedJobs : Nat := 64

/-! ## Work -/

/-- A work closure, by its interaction with `OperationControl`: it reports progress, reads the
cancellation token and returns. -/
inductive Work
  | done (result : RawResult)
  | observe (event : AppProgressEvent) (next : Work)
  | isCancelled (yes no : Work)

/-- `ensure_not_cancelled(control)?`, through `map_app_error`. -/
def ensureNotCancelled (next : Work) : Work :=
  .isCancelled (.done (.error cancelledError)) next

/-- `compile_latest` of `okc-app/src/integration_service.rs:465-502`, where nothing else fails. -/
def compileLatest (compiled : Value) : Work :=
  ensureNotCancelled <|
    .observe ⟨.staging, 0, some 1, none⟩ <|
      ensureNotCancelled <|
        .observe ⟨.publishing, 0, some 1, none⟩ <|
          .observe ⟨.verifying, 0, some 1, none⟩ <|
            .observe ⟨.complete, 1, some 1, none⟩ (.done (.ok compiled))

/-! ## One job -/

/-- Where the acting thread of a job stands. -/
inductive Stage
  /-- `submit` has the reservation, if any, and calls `try_send` next. -/
  | sending (work : Work)
  /-- `try_send` failed: `submit` releases the reservation next. -/
  | rejected (error : OkcError)
  /-- `submit` finishes the job next. -/
  | dropping (error : OkcError)
  /-- In the queue. -/
  | waiting (work : Work)
  /-- A worker has it and calls `begin` next. -/
  | received (work : Work)
  | working (work : Work)
  /-- The work has returned: the worker reads the token next. -/
  | returned (result : RawResult)
  /-- The token was cancelled: the worker reads the barrier next. -/
  | heeding (result : RawResult)
  /-- The result is fixed: the worker releases the reservation next. -/
  | settled (result : RawResult)
  /-- The worker finishes the job next. -/
  | finishing (result : RawResult)
  | finished

/-- Stages whose next move is `reservations.remove`. -/
def Stage.releasing : Stage → Bool
  | .rejected _ | .settled _ => true
  | _ => false

/-- Stages before the reservation is removed. -/
def Stage.holding : Stage → Bool
  | .dropping _ | .finishing _ | .finished => false
  | _ => true

/-- Stages of which the caller of `submit` has the handle. -/
def Stage.submitted : Stage → Bool
  | .sending _ | .rejected _ | .dropping _ => false
  | _ => true

def Stage.running : Stage → Bool
  | .working _ => true
  | _ => false

structure Entry where
  shared : SharedJob
  /-- The scheduler it was submitted to. -/
  scheduler : Nat
  /-- `project_reservation`. -/
  reservation : Option String
  stage : Stage
  /-- How often its reservation has been removed from the set. -/
  releases : Nat

/-- What `try_send` answers. -/
inductive TrySend
  | sent | full | disconnected

def queueFull : OkcError :=
  { OkcError.detail (.new .resourceLimit .argument
      "job queue is full; wait for an existing job before submitting more work")
      "max_queued_jobs" (.nat maxQueuedJobs) with retryable := true }

def schedulerUnavailable : OkcError :=
  .new .internal .internal "job scheduler is unavailable"

def projectBusy (project : String) : OkcError :=
  .detail (.new .projectBusy .project "another mutating job already owns this project")
    "project_path" (.str project)

/-- What can happen to a job. -/
inductive Move
  /-- Its acting thread goes on; `channel` is the answer of `try_send` where it is asked. -/
  | advance (channel : TrySend)
  /-- A worker receives it. -/
  | receive
  /-- A handle calls `cancel`. -/
  | cancel
  /-- A handle calls `events`. -/
  | takeEvents

namespace Entry

def goto (e : Entry) (stage : Stage) : Entry := { e with stage := stage }

/-- `reservations.remove(&project)`, as far as it concerns the job. -/
def release (e : Entry) (stage : Stage) : Entry :=
  { e with stage := stage, releases := e.releases + e.reservation.toList.length }

def finish (e : Entry) (result : RawResult) : Entry :=
  { e with shared := e.shared.finish result, stage := .finished }

/-- The next move of the acting thread: the end of `submit`, or `worker_loop`. -/
def advance (channel : TrySend) (e : Entry) : Option Entry :=
  match e.stage with
  | .sending work =>
    match channel with
    | .sent => some (e.goto (.waiting work))
    | .full => some (e.goto (.rejected queueFull))
    | .disconnected => some (e.goto (.rejected schedulerUnavailable))
  | .rejected error => some (e.release (.dropping error))
  | .dropping error => some (e.finish (.error error))
  | .waiting _ => none
  | .received work =>
    match e.shared.begin with
    | (true, shared) => some { e with shared := shared, stage := .working work }
    | (false, shared) => some { e with shared := shared, stage := .settled (.error cancelledError) }
  | .working (.observe event next) =>
    some { e with shared := e.shared.observe event, stage := .working next }
  | .working (.isCancelled yes no) =>
    some (e.goto (.working (if e.shared.cancelled then yes else no)))
  | .working (.done result) => some (e.goto (.returned result))
  | .returned result =>
    some (e.goto (if e.shared.cancelled then .heeding result else .settled result))
  | .heeding result =>
    some (e.goto (.settled (if e.shared.record.publicationBarrier then result
      else .error cancelledError)))
  | .settled result => some (e.release (.finishing result))
  | .finishing result => some (e.finish result)
  | .finished => none

/-- The moves of one job. Only a caller that has the handle cancels or reads. -/
def move (e : Entry) : Move → Option Entry
  | .advance channel => e.advance channel
  | .receive =>
    match e.stage with
    | .waiting work => some (e.goto (.received work))
    | _ => none
  | .cancel =>
    if e.stage.submitted then some { e with shared := e.shared.cancel.2 } else none
  | .takeEvents =>
    if e.stage.submitted then some { e with shared := e.shared.takeEvents.2 } else none

end Entry

/-! ## The system -/

structure Scheduler where
  /-- The bounded channel, front first. -/
  queue : List Nat
  workers : Nat
  /-- The workers that wait for an item. -/
  idle : Nat

/-- `SyncSender::try_send`: only workers hold the receiver. -/
def Scheduler.trySend (k : Scheduler) : TrySend :=
  if k.workers = 0 then .disconnected
  else if k.queue.length < maxQueuedJobs then .sent
  else .full

structure System where
  jobs : Nat → Option Entry
  schedulers : Nat → Scheduler
  /-- `PROJECT_RESERVATIONS`. -/
  reservations : Finset String

/-- The system before the first submission, with the workers each scheduler was made with. -/
def System.init (workers : Nat → Nat) : System :=
  ⟨fun _ => none, fun k => ⟨[], workers k, workers k⟩, ∅⟩

inductive Action
  /-- `submit` to a scheduler; `project` is the project's `reservation_path`. -/
  | submit (scheduler job : Nat) (operation : String) (project : Option String) (mutating : Bool)
      (work : Work)
  /-- A worker of a scheduler receives the front of its queue. -/
  | receive (scheduler : Nat)
  /-- The acting thread of a job moves. -/
  | advance (job : Nat)
  /-- A handle calls `cancel`. -/
  | cancel (job : Nat)
  /-- A handle calls `events`. -/
  | takeEvents (job : Nat)

namespace System

def setJob (s : System) (i : Nat) (e : Entry) : System :=
  { s with jobs := Function.update s.jobs i (some e) }

def setScheduler (s : System) (k : Nat) (c : Scheduler) : System :=
  { s with schedulers := Function.update s.schedulers k c }

/-- `Scheduler::submit`, up to `try_send`. -/
def submit (s : System) (k i : Nat) (operation : String) (project : Option String)
    (mutating : Bool) (work : Work) : Option System :=
  match s.jobs i with
  | some _ => none
  | none =>
    match if mutating then project else none with
    | none => some (s.setJob i ⟨.new operation, k, none, .sending work, 0⟩)
    | some path =>
      if path ∈ s.reservations then
        some (s.setJob i ⟨.failed operation (projectBusy path), k, none, .finished, 0⟩)
      else
        some { s.setJob i ⟨.new operation, k, some path, .sending work, 0⟩ with
          reservations := insert path s.reservations }

/-- `receiver.lock().recv()`, by a worker that waits. -/
def receive (s : System) (k : Nat) : Option System :=
  match (s.schedulers k).idle, (s.schedulers k).queue with
  | idle + 1, i :: queue =>
    (s.jobs i).bind fun e => (e.move .receive).map fun e' =>
      (s.setJob i e').setScheduler k { s.schedulers k with queue := queue, idle := idle }
  | _, _ => none

/-- The channel of a job after a move from a stage. -/
def channelAfter (c : Scheduler) (i : Nat) : Stage → Scheduler
  | .sending _ =>
    match c.trySend with
    | .sent => { c with queue := c.queue ++ [i] }
    | _ => c
  | .finishing _ => { c with idle := c.idle + 1 }
  | _ => c

/-- The reservations after a move of a job. -/
def reservationsAfter (s : System) (e : Entry) : Finset String :=
  if e.stage.releasing then s.reservations \ e.reservation.toFinset else s.reservations

def advance (s : System) (i : Nat) : Option System :=
  (s.jobs i).bind fun e =>
    (e.move (.advance (s.schedulers e.scheduler).trySend)).map fun e' =>
      { (s.setJob i e').setScheduler e.scheduler
          (channelAfter (s.schedulers e.scheduler) i e.stage) with
        reservations := s.reservationsAfter e }

/-- A handle's call. -/
def call (s : System) (i : Nat) (m : Move) : Option System :=
  (s.jobs i).bind fun e => (e.move m).map (s.setJob i)

def step (s : System) : Action → Option System
  | .submit k i operation project mutating work => s.submit k i operation project mutating work
  | .receive k => s.receive k
  | .advance i => s.advance i
  | .cancel i => s.call i .cancel
  | .takeEvents i => s.call i .takeEvents

end System

/-! ## What a move does -/

/-- No result yet, and no terminal state. -/
def SharedJob.Unfinished (job : SharedJob) : Prop :=
  job.record.result = none ∧ job.record.state.terminal = false

theorem SharedJob.unfinished_new (operation : String) : (SharedJob.new operation).Unfinished :=
  ⟨rfl, rfl⟩

theorem SharedJob.Unfinished.begin {job : SharedJob} (h : job.Unfinished) :
    job.begin.2.Unfinished := by
  by_cases hc : job.cancelled = true
  · rw [SharedJob.begin_of_cancelled hc]
    exact h
  · rw [SharedJob.begin_of_not_cancelled (Bool.eq_false_iff.mpr hc)]
    exact ⟨h.1, rfl⟩

theorem SharedJob.Unfinished.cancel {job : SharedJob} (h : job.Unfinished) :
    job.cancel.2.Unfinished := by
  by_cases hr : job.cancel.1 = .requested
  · obtain ⟨-, -, hs, -, hres⟩ := SharedJob.cancel_requested hr
    exact ⟨hres.trans h.1, by rw [hs]; rfl⟩
  · rw [SharedJob.cancel_refused hr]
    exact h

namespace Entry

variable {e e' : Entry} {m : Move} {channel : TrySend}

/-- A job is terminal when its acting thread is done with it. -/
def Sound (e : Entry) : Prop :=
  e.stage = .finished ∧ e.shared.record.state.terminal = true ∨
    e.stage ≠ .finished ∧ e.shared.Unfinished

theorem Sound.unfinished (h : e.Sound) (hs : e.stage ≠ .finished) : e.shared.Unfinished :=
  (h.resolve_left fun hf => hs hf.1).2

theorem Sound.terminal_iff (h : e.Sound) :
    e.shared.record.state.terminal = true ↔ e.stage = .finished := by
  rcases h with ⟨hs, ht⟩ | ⟨hs, -, ht⟩
  · simp [hs, ht]
  · simp [hs, ht]

theorem sound_finish (h : e.shared.Unfinished) (r : RawResult) : (e.finish r).Sound := by
  refine Or.inl ⟨rfl, ?_⟩
  rw [finish, (SharedJob.finish_result h.1 r).2]
  exact SharedJob.terminal_terminalState r

/-- A move that leaves the reservation alone. -/
structure Kept (e e' : Entry) : Prop where
  reservation : e'.reservation = e.reservation
  holding : e'.stage.holding = e.stage.holding
  releases : e'.releases = e.releases

/-- The move that removes the reservation. -/
structure Released (e e' : Entry) : Prop where
  reservation : e'.reservation = e.reservation
  held : e.stage.holding = true
  holding : e'.stage.holding = false
  releases : e'.releases = e.releases + e.reservation.toList.length

/-- **What the acting thread does to the reservation.** -/
theorem advance_cases (h : e.advance channel = some e') :
    e.stage.releasing = true ∧ e.Released e' ∨ e.stage.releasing = false ∧ e.Kept e' := by
  rcases e with ⟨shared, k, reservation, stage, releases⟩
  unfold advance at h
  cases stage with
  | sending work =>
    right
    cases channel <;> cases h <;> exact ⟨rfl, rfl, rfl, rfl⟩
  | rejected error =>
    cases h
    exact Or.inl ⟨rfl, rfl, rfl, rfl, rfl⟩
  | dropping error =>
    cases h
    exact Or.inr ⟨rfl, rfl, rfl, rfl⟩
  | waiting work => cases h
  | received work =>
    right
    dsimp only at h
    split at h <;> cases h <;> exact ⟨rfl, rfl, rfl, rfl⟩
  | working work =>
    right
    cases work <;> cases h <;> exact ⟨rfl, rfl, rfl, rfl⟩
  | returned result =>
    right
    cases h
    by_cases hc : shared.cancelled = true
    · exact ⟨rfl, rfl, by simp only [goto, hc]; rfl, rfl⟩
    · exact ⟨rfl, rfl, by simp only [goto, hc]; rfl, rfl⟩
  | heeding result =>
    cases h
    exact Or.inr ⟨rfl, rfl, rfl, rfl⟩
  | settled result =>
    cases h
    exact Or.inl ⟨rfl, rfl, rfl, rfl, rfl⟩
  | finishing result =>
    cases h
    exact Or.inr ⟨rfl, rfl, rfl, rfl⟩
  | finished => cases h

/-- No move of another thread touches the reservation. -/
theorem move_kept (h : e.move m = some e') (hm : ∀ channel, m ≠ .advance channel) :
    e.Kept e' := by
  cases m with
  | advance channel => exact absurd rfl (hm channel)
  | receive =>
    rcases e with ⟨shared, k, reservation, stage, releases⟩
    cases stage <;> cases h
    exact ⟨rfl, rfl, rfl⟩
  | cancel =>
    rw [move, Option.ite_none_right_eq_some] at h
    obtain ⟨-, he⟩ := h
    cases he
    exact ⟨rfl, rfl, rfl⟩
  | takeEvents =>
    rw [move, Option.ite_none_right_eq_some] at h
    obtain ⟨-, he⟩ := h
    cases he
    exact ⟨rfl, rfl, rfl⟩

/-- Only `finish` makes a job terminal. -/
theorem sound_move (hs : e.Sound) (h : e.move m = some e') : e'.Sound := by
  have hu := hs.unfinished
  rcases e with ⟨shared, k, reservation, stage, releases⟩
  cases m with
  | advance channel =>
    unfold move advance at h
    cases stage with
    | sending work => cases channel <;> cases h <;> exact Or.inr ⟨by simp [goto], hu (by simp)⟩
    | rejected error =>
      cases h
      exact Or.inr ⟨by simp [release], hu (by simp)⟩
    | dropping error =>
      cases h
      exact sound_finish (hu (by simp)) _
    | waiting work => cases h
    | received work =>
      have hb := SharedJob.Unfinished.begin (hu (by simp))
      dsimp only at h
      split at h <;> rename_i heq <;> cases h <;> rw [heq] at hb <;> exact Or.inr ⟨by simp, hb⟩
    | working work =>
      have hw : shared.Unfinished := hu (by simp)
      cases work with
      | done result =>
        cases h
        exact Or.inr ⟨by simp [goto], hw⟩
      | observe event next =>
        cases h
        exact Or.inr ⟨by simp, (SharedJob.observe_result event).trans hw.1,
          SharedJob.terminal_observe event hw.2⟩
      | isCancelled yes no =>
        cases h
        exact Or.inr ⟨by simp [goto], hw⟩
    | returned result =>
      cases h
      refine Or.inr ⟨?_, hu (by simp)⟩
      rw [goto]
      split <;> simp
    | heeding result =>
      cases h
      exact Or.inr ⟨by simp [goto], hu (by simp)⟩
    | settled result =>
      cases h
      exact Or.inr ⟨by simp [release], hu (by simp)⟩
    | finishing result =>
      cases h
      exact sound_finish (hu (by simp)) result
    | finished => cases h
  | receive =>
    cases stage <;> cases h
    exact Or.inr ⟨by simp [goto], hu (by simp)⟩
  | cancel =>
    rw [move, Option.ite_none_right_eq_some] at h
    obtain ⟨-, he⟩ := h
    cases he
    by_cases hr : shared.cancel.1 = .requested
    · have ht : shared.record.state.terminal = false := (SharedJob.cancel_requested hr).1
      have hne : stage ≠ .finished := fun hf => by simp [(hs.terminal_iff.mpr hf)] at ht
      exact Or.inr ⟨hne, (hu hne).cancel⟩
    · simpa only [SharedJob.cancel_refused hr] using hs
  | takeEvents =>
    rw [move, Option.ite_none_right_eq_some] at h
    obtain ⟨-, he⟩ := h
    cases he
    exact hs

end Entry

/-! ## What a step does -/

variable {s s' t : System} {a : Action}

/-- A job that `submit` has just made. -/
structure NewJob (s : System) (e : Entry) : Prop where
  free : ∀ p ∈ e.reservation, p ∉ s.reservations
  holding : e.reservation ≠ none → e.stage.holding = true
  releases : e.releases = 0
  sound : e.Sound
  idle : e.stage.running = false

theorem System.submit_cases {k i : Nat} {operation : String} {project : Option String}
    {mutating : Bool} {work : Work}
    (h : s.submit k i operation project mutating work = some s') :
    ∃ e, s.jobs i = none ∧ NewJob s e ∧ s'.jobs = Function.update s.jobs i (some e) ∧
      s'.reservations = s.reservations ∪ e.reservation.toFinset := by
  unfold System.submit at h
  cases hi : s.jobs i with
  | some e => simp [hi] at h
  | none =>
    rw [hi] at h
    dsimp only at h
    cases hp : (if mutating then project else none) with
    | none =>
      rw [hp] at h
      cases h
      refine ⟨_, rfl, ⟨by simp, by simp, rfl, Or.inr ⟨by simp, ?_⟩, rfl⟩, rfl, by simp [System.setJob]⟩
      exact SharedJob.unfinished_new operation
    | some path =>
      rw [hp] at h
      dsimp only at h
      by_cases hmem : path ∈ s.reservations
      · rw [if_pos hmem] at h
        cases h
        exact ⟨_, rfl, ⟨by simp, by simp, rfl, Or.inl ⟨rfl, rfl⟩, rfl⟩, rfl, by simp [System.setJob]⟩
      · rw [if_neg hmem] at h
        cases h
        refine ⟨_, rfl, ⟨by simpa using hmem, fun _ => rfl, rfl, Or.inr ⟨by simp, ?_⟩, rfl⟩, rfl, ?_⟩
        · exact SharedJob.unfinished_new operation
        · rw [Option.toFinset_some, Finset.union_comm, ← Finset.insert_eq]

/-- A move of job `i`. -/
structure MovesJob (s s' : System) (i : Nat) (e e' : Entry) : Prop where
  here : s.jobs i = some e
  moves : ∃ m, e.move m = some e'
  jobs : s'.jobs = Function.update s.jobs i (some e')
  effect : e.Kept e' ∧ s'.reservations = s.reservations ∨
    e.Released e' ∧ s'.reservations = s.reservations \ e.reservation.toFinset

/-- **What a step does.** It makes a job or moves one. -/
theorem System.step_cases (h : s.step a = some s') :
    (∃ i e, s.jobs i = none ∧ NewJob s e ∧ s'.jobs = Function.update s.jobs i (some e) ∧
      s'.reservations = s.reservations ∪ e.reservation.toFinset) ∨
    ∃ i e e', MovesJob s s' i e e' := by
  cases a with
  | submit k i operation project mutating work =>
    obtain ⟨e, he⟩ := System.submit_cases h
    exact Or.inl ⟨i, e, he⟩
  | receive k =>
    right
    have h : s.receive k = some s' := h
    unfold System.receive at h
    split at h
    · rename_i i queue _ _
      obtain ⟨e, he, h⟩ := Option.bind_eq_some_iff.mp h
      obtain ⟨e', hm, rfl⟩ := Option.map_eq_some_iff.mp h
      exact ⟨i, e, e', he, ⟨_, hm⟩, rfl, Or.inl ⟨Entry.move_kept hm (by simp), rfl⟩⟩
    · cases h
  | advance i =>
    right
    obtain ⟨e, he, h⟩ := Option.bind_eq_some_iff.mp h
    obtain ⟨e', hm, rfl⟩ := Option.map_eq_some_iff.mp h
    refine ⟨i, e, e', he, ⟨_, hm⟩, rfl, ?_⟩
    rcases Entry.advance_cases hm with ⟨hr, hrel⟩ | ⟨hr, hkept⟩
    · exact Or.inr ⟨hrel, by simp [System.reservationsAfter, hr]⟩
    · exact Or.inl ⟨hkept, by simp [System.reservationsAfter, hr]⟩
  | cancel i =>
    right
    obtain ⟨e, he, h⟩ := Option.bind_eq_some_iff.mp h
    obtain ⟨e', hm, rfl⟩ := Option.map_eq_some_iff.mp h
    exact ⟨i, e, e', he, ⟨_, hm⟩, rfl, Or.inl ⟨Entry.move_kept hm (by simp), rfl⟩⟩
  | takeEvents i =>
    right
    obtain ⟨e, he, h⟩ := Option.bind_eq_some_iff.mp h
    obtain ⟨e', hm, rfl⟩ := Option.map_eq_some_iff.mp h
    exact ⟨i, e, e', he, ⟨_, hm⟩, rfl, Or.inl ⟨Entry.move_kept hm (by simp), rfl⟩⟩

/-- **A run of the system is, for each job, a run of its moves.** -/
theorem System.job_run (h : Reaches System.step (fun _ _ => True) s t) {i : Nat} {e : Entry}
    (he : s.jobs i = some e) :
    ∃ e', t.jobs i = some e' ∧ Reaches Entry.move (fun _ _ => True) e e' := by
  induction h with
  | refl => exact ⟨e, he, Relation.ReflTransGen.refl⟩
  | tail _ hstep ih =>
    obtain ⟨f, hf, hrun⟩ := ih
    rcases hstep with ⟨a, -, ha⟩
    rcases System.step_cases ha with ⟨j, g, hj, -, hjobs, -⟩ | ⟨j, g, g', hm⟩
    · have hij : i ≠ j := by
        rintro rfl
        rw [hf] at hj
        cases hj
      exact ⟨f, by rw [hjobs, Function.update_of_ne hij, hf], hrun⟩
    · by_cases hij : i = j
      · subst hij
        obtain rfl : f = g := Option.some.inj (hf.symm.trans hm.here)
        obtain ⟨m, hmove⟩ := hm.moves
        exact ⟨g', by rw [hm.jobs, Function.update_self], hrun.tail ⟨m, trivial, hmove⟩⟩
      · exact ⟨f, by rw [hm.jobs, Function.update_of_ne hij, hf], hrun⟩

end Okc.Interop
