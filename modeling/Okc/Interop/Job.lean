import Okc.Lib.Json
import Okc.Lib.OrdMap

/-!
# Interop jobs (`okc-interop/src/lib.rs:120-596`)

A job is shared by the thread that submitted it, a worker and everybody who holds a handle to it.
Its record stands behind one mutex, so each function of this file is one critical section:
`begin`, `observe` and `finish` are the worker's, `cancel` and `takeEvents` a handle's. The
cancellation token is a flag outside the mutex.

* `SharedJob.cancel_requested`: a request that is taken sets the token, before the barrier only.
* `SharedJob.observe_cancelled`, `SharedJob.finish_cancelled`: nothing else touches the token.
* `SharedJob.observe_of_cancelling`: a cancelling job leaves that state by the barrier only.
* `length_pushBounded`: the event queue keeps its bound.
-/

namespace Okc.Interop

open Okc.Lib

/-! ## Errors -/

inductive ErrorCategory
  | argument | path | project | provider | consent | approval | output | verification
  | cancellation | internal
deriving DecidableEq

inductive ErrorCode
  | invalidArgument | pathNotAbsolute | pathNotFound | pathUnsafe | pathUnsupported
  | resourceLimit | projectInvalid | projectBusy | providerInvalid | providerAuthentication
  | providerAuthorization | providerEnvSecretMissing | providerRateLimited | providerTimeout
  | providerResponseInvalid | providerUnsupported | providerTransport | remoteConsentRequired
  | sensitiveRemoteForbidden | approvalRequired | approvalStale | outputExists | outputOverlap
  | outputDurabilityUncertain | artifactSchemaUnsupported | verificationFailed | cancelled
  | internal
deriving DecidableEq

structure OkcError where
  code : ErrorCode
  category : ErrorCategory
  message : String
  retryable : Bool
  details : List (String × Value)

/-- `OkcError::new`, on a message that `sanitize_message` leaves alone. -/
def OkcError.new (code : ErrorCode) (category : ErrorCategory) (message : String) : OkcError :=
  ⟨code, category, message, false, []⟩

def OkcError.detail (e : OkcError) (key : String) (value : Value) : OkcError :=
  { e with details := insertKey key value e.details }

def cancelledError : OkcError :=
  .new .cancelled .cancellation "operation was cancelled before publication"

/-- `Result<Value, OkcError>`. -/
abbrev RawResult := Except OkcError Value

/-! ## States and events -/

inductive JobState
  | queued | running | cancelling | publishing | completed | failed | cancelled
deriving DecidableEq

/-- `JobState::terminal`. -/
def JobState.terminal (s : JobState) : Bool :=
  s = .completed || s = .failed || s = .cancelled

inductive CancelOutcome
  | requested | tooLate | alreadyFinished
deriving DecidableEq

inductive OperationPhase
  | queued | reading | processing | staging | publishing | verifying | complete
deriving DecidableEq

/-- `rename_all = "snake_case"`. -/
def OperationPhase.name : OperationPhase → String
  | queued => "queued"
  | reading => "reading"
  | processing => "processing"
  | staging => "staging"
  | publishing => "publishing"
  | verifying => "verifying"
  | complete => "complete"

/-- What an operation reports (`okc_app::ProgressEvent`). -/
structure AppProgressEvent where
  phase : OperationPhase
  completed : Nat
  total : Option Nat
  currentItem : Option String

/-- What a handle reads (`ProgressEvent`). -/
structure ProgressEvent where
  interopSchemaVersion : Nat
  sequence : Nat
  operation : String
  state : JobState
  phase : String
  completed : Nat
  total : Option Nat
  currentItem : Option String

def interopSchemaVersion : Nat := 2

def maxEventQueue : Nat := 64

/-- `push_bounded`: a full queue drops its oldest event for the terminal one and overwrites its
newest with any other. -/
def pushBounded (queue : List ProgressEvent) (event : ProgressEvent) (terminal : Bool) :
    List ProgressEvent :=
  if queue.length = maxEventQueue then
    if terminal then queue.tail ++ [event]
    else if queue = [] then queue ++ [event]
    else queue.dropLast ++ [event]
  else queue ++ [event]

/-! ## The shared job -/

structure JobRecord where
  state : JobState
  publicationBarrier : Bool
  events : List ProgressEvent
  result : Option RawResult

structure SharedJob where
  operation : String
  record : JobRecord
  /-- The cancellation token. -/
  cancelled : Bool
  nextSequence : Nat

namespace SharedJob

/-- The event of `push_state_event`. -/
def stateEvent (job : SharedJob) (state : JobState) (phase : String) : ProgressEvent :=
  ⟨interopSchemaVersion, job.nextSequence, job.operation, state, phase, 0, none, none⟩

/-- Appending an event under the next sequence number. -/
def push (job : SharedJob) (event : ProgressEvent) (terminal : Bool) : SharedJob :=
  { job with
    record := { job.record with events := pushBounded job.record.events event terminal }
    nextSequence := job.nextSequence + 1 }

/-- `push_state_event`. -/
def pushStateEvent (job : SharedJob) (state : JobState) (phase : String) : SharedJob :=
  job.push (job.stateEvent state phase) false

def setState (job : SharedJob) (state : JobState) : SharedJob :=
  { job with record := { job.record with state := state } }

/-- `SharedJob::new`. -/
def new (operation : String) : SharedJob :=
  pushStateEvent ⟨operation, ⟨.queued, false, [], none⟩, false, 0⟩ .queued "queued"

/-- `SharedJob::begin`: whether the work may start. -/
def begin (job : SharedJob) : Bool × SharedJob :=
  if job.cancelled then (false, job)
  else (true, (job.setState .running).pushStateEvent .running "running")

/-- The state a result ends in, and the phase of the terminal event. -/
def terminalState : RawResult → JobState × String
  | .ok _ => (.completed, "completed")
  | .error e => if e.code = .cancelled then (.cancelled, "cancelled") else (.failed, "failed")

/-- `SharedJob::finish`. -/
def finish (job : SharedJob) (result : RawResult) : SharedJob :=
  match job.record.result with
  | some _ => job
  | none =>
    let (state, phase) := terminalState result
    let job := { job with record := { job.record with state := state, result := some result } }
    job.push ⟨interopSchemaVersion, job.nextSequence, job.operation, state, phase,
      if state = .completed then 1 else 0, some 1, none⟩ true

/-- `SharedJob::failed`. -/
def failed (operation : String) (error : OkcError) : SharedJob :=
  (new operation).finish (.error error)

/-- `SharedJob::observe`. Behind the barrier the event says `publishing` but the state stays. -/
def observe (job : SharedJob) (event : AppProgressEvent) : SharedJob :=
  if job.record.state.terminal then job
  else
    let record : JobRecord :=
      if event.phase = .publishing then
        { job.record with publicationBarrier := true, state := .publishing }
      else if job.record.publicationBarrier then job.record
      else if job.record.state = .cancelling then job.record
      else { job.record with state := .running }
    let state :=
      if event.phase = .publishing ∨ job.record.publicationBarrier then .publishing
      else if job.record.state = .cancelling then .cancelling
      else .running
    { job with record := record }.push ⟨interopSchemaVersion, job.nextSequence, job.operation,
      state, event.phase.name, event.completed, event.total, event.currentItem⟩ false

/-- `SharedJob::cancel`. -/
def cancel (job : SharedJob) : CancelOutcome × SharedJob :=
  if job.record.state.terminal then (.alreadyFinished, job)
  else if job.record.publicationBarrier ∨ job.record.state = .publishing then (.tooLate, job)
  else
    (.requested, (({ job with cancelled := true } : SharedJob).setState .cancelling).pushStateEvent
      .cancelling "cancelling")

/-- `SharedJob::take_events`. -/
def takeEvents (job : SharedJob) : List ProgressEvent × SharedJob :=
  (job.record.events, { job with record := { job.record with events := [] } })

/-! ### What the sections do -/

variable {job : SharedJob}

@[simp] theorem push_cancelled (event : ProgressEvent) (terminal : Bool) :
    (job.push event terminal).cancelled = job.cancelled := rfl

@[simp] theorem push_state (event : ProgressEvent) (terminal : Bool) :
    (job.push event terminal).record.state = job.record.state := rfl

@[simp] theorem push_barrier (event : ProgressEvent) (terminal : Bool) :
    (job.push event terminal).record.publicationBarrier = job.record.publicationBarrier := rfl

@[simp] theorem push_result (event : ProgressEvent) (terminal : Bool) :
    (job.push event terminal).record.result = job.record.result := rfl

theorem begin_of_cancelled (h : job.cancelled = true) : job.begin = (false, job) := if_pos h

theorem begin_of_not_cancelled (h : job.cancelled = false) :
    job.begin = (true, (job.setState .running).pushStateEvent .running "running") := by
  unfold begin
  rw [h]
  rfl

/-- The first result is the last. -/
theorem finish_of_result {r : RawResult} (h : job.record.result = some r) (result : RawResult) :
    job.finish result = job := by
  unfold finish
  rw [h]

theorem finish_result (h : job.record.result = none) (result : RawResult) :
    (job.finish result).record.result = some result ∧
      (job.finish result).record.state = (terminalState result).1 := by
  unfold finish
  rw [h]
  exact ⟨rfl, rfl⟩

@[simp] theorem finish_cancelled (result : RawResult) :
    (job.finish result).cancelled = job.cancelled := by
  unfold finish
  cases job.record.result <;> rfl

@[simp] theorem finish_barrier (result : RawResult) :
    (job.finish result).record.publicationBarrier = job.record.publicationBarrier := by
  unfold finish
  cases job.record.result <;> rfl

theorem terminal_terminalState (result : RawResult) : (terminalState result).1.terminal = true := by
  cases result with
  | ok v => rfl
  | error e =>
    unfold terminalState
    by_cases h : e.code = .cancelled
    · simp only [h, if_true]
      rfl
    · simp only [h, if_false]
      rfl

@[simp] theorem observe_cancelled (event : AppProgressEvent) :
    (job.observe event).cancelled = job.cancelled := by
  unfold observe
  split <;> rfl

@[simp] theorem observe_result (event : AppProgressEvent) :
    (job.observe event).record.result = job.record.result := by
  unfold observe
  by_cases ht : job.record.state.terminal = true
  · rw [if_pos ht]
  · rw [if_neg ht]
    show (ite _ _ _ : JobRecord).result = _
    split
    · rfl
    · split
      · rfl
      · split <;> rfl

/-- A cancelled job that observes another phase stays as it is. -/
theorem observe_of_cancelling {event : AppProgressEvent} (hp : event.phase ≠ .publishing)
    (hb : job.record.publicationBarrier = false) (hs : job.record.state = .cancelling) :
    (job.observe event).record.state = .cancelling ∧
      (job.observe event).record.publicationBarrier = false := by
  unfold observe
  rw [hs, if_neg (by decide)]
  simp [hp, hb, hs]

theorem terminal_observe (event : AppProgressEvent) (h : job.record.state.terminal = false) :
    (job.observe event).record.state.terminal = false := by
  unfold observe
  rw [h, if_neg (by decide)]
  show (ite _ _ _ : JobRecord).state.terminal = false
  split
  · rfl
  · split
    · exact h
    · split
      · exact h
      · rfl

/-- **What a request does.** It is taken before the barrier only, and then sets the token. -/
theorem cancel_requested (h : job.cancel.1 = .requested) :
    job.record.state.terminal = false ∧ job.cancel.2.cancelled = true ∧
      job.cancel.2.record.state = .cancelling ∧ job.cancel.2.record.publicationBarrier = false ∧
      job.cancel.2.record.result = job.record.result := by
  unfold cancel at h ⊢
  by_cases ht : job.record.state.terminal = true
  · rw [if_pos ht] at h
    cases h
  · by_cases hb : job.record.publicationBarrier = true ∨ job.record.state = .publishing
    · rw [if_neg ht, if_pos hb] at h
      cases h
    · rw [if_neg ht, if_neg hb]
      have hb' : job.record.publicationBarrier = false := by simpa using fun hp => hb (Or.inl hp)
      exact ⟨Bool.eq_false_iff.mpr ht, rfl, rfl, hb', rfl⟩

/-- A request that is not taken changes nothing. -/
theorem cancel_refused (h : job.cancel.1 ≠ .requested) : job.cancel.2 = job := by
  unfold cancel at h ⊢
  by_cases ht : job.record.state.terminal = true
  · rw [if_pos ht]
  · by_cases hb : job.record.publicationBarrier = true ∨ job.record.state = .publishing
    · rw [if_neg ht, if_pos hb]
    · rw [if_neg ht, if_neg hb] at h
      exact absurd rfl h

end SharedJob

/-- A push keeps the bound of the queue. -/
theorem length_pushBounded {queue : List ProgressEvent} (h : queue.length ≤ maxEventQueue)
    (event : ProgressEvent) (terminal : Bool) :
    (pushBounded queue event terminal).length ≤ maxEventQueue := by
  unfold pushBounded
  by_cases hfull : queue.length = maxEventQueue
  · rw [if_pos hfull]
    have hpos : 0 < queue.length := by
      rw [hfull]
      decide
    split
    · simp only [List.length_append, List.length_tail, List.length_singleton]
      omega
    · split
      · rename_i hnil
        rw [hnil] at hpos
        exact absurd hpos (Nat.lt_irrefl 0)
      · simp only [List.length_append, List.length_dropLast, List.length_singleton]
        omega
  · rw [if_neg hfull, List.length_append, List.length_singleton]
    omega

end Okc.Interop
