import Okc.Lib.Hoare
import Okc.Lib.Replace
import Okc.App.Response

/-!
# Sending a request (`okc-ai/src/lib.rs:493-534`, `701-804`, `1409-1482`)

`send_with_retry` tries a request up to three times. Between the attempts it waits as long as the
provider asks for, in slices of 50 ms, and all of it has to end within the request's timeout.

* A `Sending` runs over the events of a call so far: what the cancellation token said, what the
  clock showed since the start, each attempt with its outcome, each slice of a delay. What the
  token, the clock and the transport answer is given for each number of events before it, in any way
  at all.
* The clock counts nanoseconds.
* `serde_json::from_slice` is a parameter.

Results:
* `Timely`: what the events of a call have in common. `sendLoop_timely`: one attempt after the other
  keeps it.
* **`sendWithRetry_timely`**: the attempts, what ends them, their timeouts and the answer returned.
-/

namespace Okc.App

open Okc.Lib Okc.Core

def maxRetries : Nat := 2

/-- `ProviderError`, with what says whether and when to try again. -/
structure ProviderFailure extends ProviderError where
  retryable : Bool
  retryAfterMs : Option Nat
deriving DecidableEq

namespace ProviderFailure

/-- `ProviderError::new`. -/
def new (kind : ProviderErrorKind) (message : String) : ProviderFailure :=
  ⟨⟨kind, message⟩, false, none⟩

/-- `ProviderError::retryable`. -/
def again (kind : ProviderErrorKind) (message : String) (retryAfterMs : Option Nat) :
    ProviderFailure :=
  ⟨⟨kind, message⟩, true, retryAfterMs⟩

end ProviderFailure

structure HttpRequest where
  url : String
  headers : List (String × String)
  body : Bytes
  timeoutMs : UInt64
  maxResponseBytes : Nat
deriving DecidableEq

structure HttpResponse where
  status : UInt16
  body : Bytes
  requestId : Option String
  retryAfterMs : Option Nat
deriving DecidableEq

/-- What `post_json` returns. -/
abbrev Reply := Except ProviderFailure HttpResponse

/-! ## Errors -/

/-- The kind `normalize_http_error` gives a status. -/
def statusKind (status : UInt16) : ProviderErrorKind :=
  if status = 401 then .authentication
  else if status = 403 then .authorization
  else if status = 408 then .timeout
  else if status = 413 ∨ status = 422 then .contextLimit
  else if status = 429 then .rateLimited
  else if 500 ≤ status ∧ status ≤ 599 then .transport
  else .invalidRequest

def retryableStatus (status : UInt16) : Bool :=
  status = 408 || status = 409 || status = 429 || (500 ≤ status && status ≤ 599)

/-- `normalize_http_error`. -/
def normalizeHttpError (fromSlice : Bytes → Option Value) (response : HttpResponse) :
    ProviderFailure :=
  let message := httpErrorMessage response.status.toNat (fromSlice response.body)
  if retryableStatus response.status then
    .again (statusKind response.status) message response.retryAfterMs
  else .new (statusKind response.status) message

def redactedMark : String := "[redacted]"

/-- `str::replace` with the mark. -/
def redact (secret message : String) : String :=
  String.ofList (replaceFrom secret.toList redactedMark.toList 0 message.toList)

def secretHeaders : List String := ["authorization", "x-api-key", "x-goog-api-key"]

/-- `strip_prefix("Bearer ")`. -/
def stripBearer (value : String) : Option String :=
  if "Bearer ".toList <+: value.toList then some (String.ofList (value.toList.drop 7)) else none

/-- One round of the loop of `redact_request_secrets`. -/
def redactHeader (message : String) (header : String × String) : String :=
  if asciiLower header.1 ∉ secretHeaders then message
  else
    let message := match stripBearer header.2 with
      | some secret => if secret = "" then message else redact secret message
      | none => message
    if header.2 = "" then message else redact header.2 message

/-- `redact_request_secrets`. -/
def redactRequestSecrets (error : ProviderFailure) (request : HttpRequest) : ProviderFailure :=
  { error with message := request.headers.foldl redactHeader error.message }

/-- `(200..300).contains(..)`. -/
def Successful (response : HttpResponse) : Prop := 200 ≤ response.status ∧ response.status < 300

instance (response : HttpResponse) : Decidable (Successful response) :=
  inferInstanceAs (Decidable (200 ≤ response.status ∧ response.status < 300))

/-- The answer of an attempt, or the error that is made of it. -/
def judge (fromSlice : Bytes → Option Value) (request : HttpRequest) : Reply → Reply
  | .ok response =>
    if Successful response then .ok response
    else .error (redactRequestSecrets (normalizeHttpError fromSlice response) request)
  | .error error => .error (redactRequestSecrets error request)

/-! ## Sessions -/

inductive Event
  | token (cancelled : Bool)
  | clock (elapsed : Nat)
  | call (attempt : HttpRequest) (outcome : Reply)
  | sleep (milliseconds : Nat)

/-- What the token and the clock show, by the number of events before. -/
structure Schedule where
  cancelled : Nat → Bool
  elapsed : Nat → Nat

/-- What a call meets. -/
structure Surroundings extends Schedule where
  outcome : Nat → Reply

abbrev Sending (α : Type) := Act (List Event) ProviderFailure α

section

variable (fromSlice : Bytes → Option Value) (w : Surroundings)

/-- `cancellation.is_cancelled()`. -/
def isCancelled : Sending Bool := fun trace =>
  (.ok (w.cancelled trace.length), trace ++ [.token (w.cancelled trace.length)])

/-- `started.elapsed()`. -/
def readClock : Sending Nat := fun trace =>
  (.ok (w.elapsed trace.length), trace ++ [.clock (w.elapsed trace.length)])

/-- `transport.post_json(..)`. -/
def postJson (attempt : HttpRequest) : Sending Reply := fun trace =>
  (.ok (w.outcome trace.length), trace ++ [.call attempt (w.outcome trace.length)])

/-- `std::thread::sleep(..)`. -/
def sleep (milliseconds : Nat) : Sending Unit := fun trace =>
  (.ok (), trace ++ [.sleep milliseconds])

/-- `Duration::from_millis`. -/
def fromMillis (milliseconds : Nat) : Nat := 1000000 * milliseconds

def providerDeadlineExceeded : ProviderFailure :=
  .again .timeout "provider operation exceeded its total request and retry deadline" none

def providerCancelled : ProviderFailure := .new .cancelled "provider operation was cancelled"

def cancelled : Sending Unit := do
  let stop ← isCancelled w
  Act.lift (reject (stop = true) providerCancelled)

/-- The loop of `cancellable_delay`. -/
def delayLoop (remaining : Nat) : Sending Unit :=
  if remaining = 0 then cancelled w
  else do
    cancelled w
    sleep (min remaining 50)
    delayLoop (remaining - min remaining 50)
termination_by remaining

def cancellableDelay (milliseconds : Nat) : Sending Unit := delayLoop w (min milliseconds 30000)

/-- The timeout of an attempt. -/
def attemptTimeout (request : HttpRequest) (remaining : Nat) : UInt64 :=
  let millis := remaining / 1000000
  let timeout := if millis < UInt64.size then UInt64.ofNat millis else request.timeoutMs
  if timeout < 1 then 1 else timeout

def HttpRequest.budget (request : HttpRequest) : Nat := fromMillis request.timeoutMs.toNat

/-- The loop of `send_with_retry`. -/
def sendLoop (request : HttpRequest) (attempts : Nat) : Sending HttpResponse := do
  cancelled w
  let elapsed ← readClock w
  Act.lift (reject (request.budget ≤ elapsed) providerDeadlineExceeded)
  let outcome ← postJson w
    { request with timeoutMs := attemptTimeout request (request.budget - elapsed) }
  cancelled w
  let elapsed ← readClock w
  Act.lift (reject (request.budget ≤ elapsed) providerDeadlineExceeded)
  match judge fromSlice request outcome with
  | .ok response => pure response
  | .error error =>
    if h : error.retryable = false ∨ maxRetries ≤ attempts then Act.fail error
    else do
      let delay := min (error.retryAfterMs.getD 0) 30000
      let elapsed ← readClock w
      Act.lift (reject (request.budget - elapsed ≤ fromMillis delay) providerDeadlineExceeded)
      cancellableDelay w delay
      sendLoop request (attempts + 1)
termination_by maxRetries - attempts

/-- `send_with_retry`, with the events of the call. -/
def sendWithRetry (request : HttpRequest) : Reply × List Event := sendLoop fromSlice w request 0 []

end

/-! ## What happens in a call -/

section

variable {fromSlice : Bytes → Option Value} {w : Surroundings} {request : HttpRequest}

/-- The outcome is a failure that is not tried again. -/
def Fatal : Reply → Prop
  | .ok response => ¬ Successful response ∧ retryableStatus response.status = false
  | .error error => error.retryable = false

/-- After such an event nothing is sent any more: the token was seen cancelled, the time was seen
spent, or an attempt failed for good. -/
def Event.Closes (budget : Nat) : Event → Prop
  | .token cancelled => cancelled = true
  | .clock elapsed => budget ≤ elapsed
  | .call _ outcome => Fatal outcome
  | .sleep _ => False

def Event.isCall : Event → Bool
  | .call _ _ => true
  | _ => false

/-- The number of attempts. -/
def callCount (trace : List Event) : Nat := trace.countP Event.isCall

/-- The events of a call that keeps within its limits. -/
structure Timely (budget : Nat) (trace : List Event) : Prop where
  /-- There are not too many attempts. -/
  attempts : callCount trace ≤ maxRetries + 1
  /-- Nothing is sent after an event that closes the call. -/
  last : ∀ before e after, trace = before ++ e :: after → e.Closes budget → callCount after = 0
  /-- Each attempt comes right after the time was seen not to be spent, with no more than what is
  left of it, or 1 ms. -/
  timed : ∀ before attempt outcome after, trace = before ++ .call attempt outcome :: after →
    ∃ front elapsed, before = front ++ [.clock elapsed] ∧ elapsed < budget ∧
      fromMillis attempt.timeoutMs.toNat ≤ max (budget - elapsed) (fromMillis 1)

/-- The answer came in time, to the last attempt. -/
def Answered (budget : Nat) (response : HttpResponse) (trace : List Event) : Prop :=
  Successful response ∧ ∃ before attempt elapsed,
    trace = before ++ [.call attempt (.ok response), .token false, .clock elapsed] ∧
      elapsed < budget

/-- No event closes the call yet. -/
def Open (budget : Nat) (trace : List Event) : Prop := ∀ e ∈ trace, ¬ e.Closes budget

variable {budget : Nat} {trace : List Event} {e : Event}

theorem callCount_append (s t : List Event) :
    callCount (s ++ t) = callCount s + callCount t := List.countP_append

theorem timely_nil : Timely budget [] := by
  refine ⟨Nat.zero_le _, fun before e after h => ?_, fun before attempt outcome after h => ?_⟩
  · exact absurd h.symm (by simp)
  · exact absurd h.symm (by simp)

/-- A place in a trace is the new event, or is in the trace before it. -/
theorem concat_eq_append_cons {before after : List Event} {x : Event}
    (h : trace ++ [e] = before ++ x :: after) :
    (before = trace ∧ x = e ∧ after = []) ∨
      ∃ rest, after = rest ++ [e] ∧ trace = before ++ x :: rest := by
  rcases List.eq_nil_or_concat after with rfl | ⟨rest, y, rfl⟩
  · obtain ⟨rfl, hx⟩ := List.append_inj' h rfl
    exact Or.inl ⟨rfl, (List.singleton_inj.mp hx).symm, rfl⟩
  · rw [List.concat_eq_append, ← List.cons_append, ← List.append_assoc] at h
    obtain ⟨rfl, hy⟩ := List.append_inj' h rfl
    obtain rfl := List.singleton_inj.mp hy
    exact Or.inr ⟨rest, by rw [List.concat_eq_append], rfl⟩

/-- What sends nothing may come at any time. -/
theorem Timely.other (h : Timely budget trace) (he : e.isCall = false) :
    Timely budget (trace ++ [e]) := by
  have hcalls : callCount [e] = 0 := by simp [callCount, he]
  refine ⟨?_, fun before x after ht hx => ?_, fun before attempt outcome after ht => ?_⟩
  · rw [callCount_append, hcalls]
    exact h.attempts
  · rcases concat_eq_append_cons ht with ⟨-, -, rfl⟩ | ⟨rest, rfl, rfl⟩
    · rfl
    · rw [callCount_append, hcalls, h.last before x rest rfl hx]
  · rcases concat_eq_append_cons ht with ⟨-, rfl, -⟩ | ⟨rest, rfl, rfl⟩
    · cases he
    · exact h.timed before attempt outcome rest rfl

/-- An attempt may come where the call is open. -/
theorem Timely.call {elapsed : Nat} {attempt : HttpRequest} {outcome : Reply}
    (h : Timely budget (trace ++ [.clock elapsed]))
    (hopen : Open budget (trace ++ [.clock elapsed]))
    (hcalls : callCount (trace ++ [.clock elapsed]) ≤ maxRetries)
    (htimeout : fromMillis attempt.timeoutMs.toNat ≤ max (budget - elapsed) (fromMillis 1)) :
    Timely budget (trace ++ [.clock elapsed] ++ [.call attempt outcome]) := by
  refine ⟨?_, fun before x after ht hx => ?_, fun before again reply after ht => ?_⟩
  · rw [callCount_append]
    exact Nat.succ_le_succ hcalls
  · rcases concat_eq_append_cons ht with ⟨-, -, rfl⟩ | ⟨rest, rfl, hfront⟩
    · rfl
    · exact absurd hx (hopen x (by rw [hfront]; simp))
  · rcases concat_eq_append_cons ht with ⟨rfl, hcall, -⟩ | ⟨rest, rfl, hfront⟩
    · obtain ⟨rfl, rfl⟩ := Event.call.inj hcall
      have hleft : ¬ budget ≤ elapsed := hopen (.clock elapsed) (by simp)
      exact ⟨trace, elapsed, rfl, Nat.lt_of_not_le hleft, htimeout⟩
    · exact h.timed before again reply rest hfront

theorem Open.concat (h : Open budget trace) (he : ¬ e.Closes budget) :
    Open budget (trace ++ [e]) := by
  intro x hx
  rcases List.mem_append.mp hx with hx | hx
  · exact h x hx
  · rw [List.mem_singleton.mp hx]
    exact he

/-- What is left of the time, in whole milliseconds, is no longer than that, or is 1 ms. -/
theorem attemptTimeout_le {elapsed : Nat} :
    fromMillis (attemptTimeout request (request.budget - elapsed)).toNat ≤
      max (request.budget - elapsed) (fromMillis 1) := by
  have hlt := request.timeoutMs.toNat_lt_size
  have hmillis : (request.budget - elapsed) / 1000000 < UInt64.size := by
    unfold HttpRequest.budget fromMillis
    omega
  unfold attemptTimeout
  dsimp only
  rw [if_pos hmillis]
  split
  · exact le_max_right _ _
  · refine le_trans ?_ (le_max_left _ _)
    rw [UInt64.toNat_ofNat_of_lt' hmillis]
    unfold fromMillis
    omega

/-! ## The steps -/

variable {α : Type} {P : List Event → Prop} {Q : α → List Event → Prop}
  {E : ProviderFailure → List Event → Prop}

theorem triple_cancelled {Q : Unit → List Event → Prop}
    (hgo : ∀ trace, P trace → Q () (trace ++ [.token false]))
    (hstop : ∀ trace, P trace → E providerCancelled (trace ++ [.token true])) :
    Triple P (cancelled w) Q E := by
  refine ⟨fun trace h => ?_⟩
  unfold cancelled
  rw [Act.bind_ok (show isCancelled w trace = _ from rfl)]
  cases hc : w.cancelled trace.length with
  | false => exact hgo trace h
  | true => exact hstop trace h

theorem triple_readClock {Q : Nat → List Event → Prop}
    (h : ∀ trace elapsed, P trace → Q elapsed (trace ++ [.clock elapsed])) :
    Triple P (readClock w) Q E := ⟨fun trace ht => h trace _ ht⟩

theorem triple_postJson {attempt : HttpRequest} {Q : Reply → List Event → Prop}
    (h : ∀ trace outcome, P trace → Q outcome (trace ++ [.call attempt outcome])) :
    Triple P (postJson w attempt) Q E := ⟨fun trace ht => h trace _ ht⟩

theorem triple_sleep {milliseconds : Nat} {Q : Unit → List Event → Prop}
    (h : ∀ trace, P trace → Q () (trace ++ [.sleep milliseconds])) :
    Triple P (sleep milliseconds) Q E := ⟨fun trace ht => h trace ht⟩

theorem judge_eq_ok {outcome : Reply} {response : HttpResponse}
    (h : judge fromSlice request outcome = .ok response) :
    outcome = .ok response ∧ Successful response := by
  cases outcome with
  | error error => cases h
  | ok answer =>
    rw [judge] at h
    split at h
    · rename_i hsuccess
      obtain rfl := Except.ok.inj h
      exact ⟨rfl, hsuccess⟩
    · cases h

theorem judge_eq_error {outcome : Reply} {error : ProviderFailure}
    (h : judge fromSlice request outcome = .error error) :
    error.retryable = false ↔ Fatal outcome := by
  cases outcome with
  | error failure =>
    obtain rfl := Except.error.inj h
    exact Iff.rfl
  | ok answer =>
    rw [judge] at h
    split at h
    · cases h
    · rename_i hfailed
      obtain rfl := Except.error.inj h
      show (normalizeHttpError fromSlice answer).retryable = false ↔ _
      unfold normalizeHttpError Fatal
      dsimp only
      split
      · rename_i hretryable
        exact iff_of_false (by simp [ProviderFailure.again]) fun hf => by simp [hretryable] at hf
      · rename_i hretryable
        exact iff_of_true rfl ⟨hfailed, by simpa using hretryable⟩

/-- The call goes on: it keeps within its limits, with so many attempts, and is open unless one of
them failed for good. -/
structure Going (budget : Nat) (fatal : Prop) (attempts : Nat) (trace : List Event) : Prop where
  timely : Timely budget trace
  count : callCount trace = attempts
  opened : ¬ fatal → Open budget trace

variable {fatal : Prop} {attempts : Nat}

theorem Going.other (h : Going budget fatal attempts trace) (he : e.isCall = false)
    (hopen : ¬ e.Closes budget) : Going budget fatal attempts (trace ++ [e]) := by
  refine ⟨h.timely.other he, ?_, fun hf => (h.opened hf).concat hopen⟩
  rw [callCount_append, h.count]
  simp [callCount, he]

theorem Going.attempt {elapsed : Nat} {outcome : Reply}
    (h : Going request.budget False attempts (trace ++ [.clock elapsed]))
    (hle : attempts ≤ maxRetries) :
    Going request.budget (Fatal outcome) (attempts + 1) (trace ++ [.clock elapsed] ++ [.call
      { request with timeoutMs := attemptTimeout request (request.budget - elapsed) }
      outcome]) := by
  refine ⟨h.timely.call (h.opened id) (h.count ▸ hle) attemptTimeout_le, ?_, fun hf => ?_⟩
  · rw [callCount_append, h.count]
    rfl
  · exact (h.opened id).concat hf

theorem token_not_closes : ¬ (Event.token false).Closes budget := Bool.false_ne_true

/-- A delay sends nothing. -/
theorem delayLoop_going (remaining : Nat) :
    Triple (Going budget False attempts) (delayLoop w remaining)
      (fun _ => Going budget False attempts) fun _ => Timely budget := by
  induction remaining using Nat.strong_induction_on with
  | _ remaining ih =>
    have hcancelled : Triple (Going budget False attempts) (cancelled w)
        (fun _ => Going budget False attempts) fun _ => Timely budget :=
      triple_cancelled (fun trace h => h.other rfl token_not_closes) fun trace h =>
        h.timely.other rfl
    rw [delayLoop]
    split
    · exact hcancelled
    · refine Triple.bind hcancelled fun _ => ?_
      refine Triple.bind (Q := fun _ => Going budget False attempts)
        (triple_sleep fun trace h => h.other rfl id) fun _ => ?_
      exact ih _ (by omega)

/-- A deadline that has passed ends the call. -/
theorem triple_deadline {bad : Prop} [Decidable bad] (hP : ∀ trace, P trace → Timely budget trace) :
    Triple P (Act.lift (reject bad providerDeadlineExceeded) : Sending Unit)
      (fun _ trace => P trace ∧ ¬ bad) fun _ => Timely budget :=
  Triple.lift (fun _ _ h ht => ⟨ht, reject_eq_ok.mp h⟩) fun _ trace _ ht => hP trace ht

/-- **One attempt after the other keeps within the limits**, and an answer comes in time. -/
theorem sendLoop_timely (hle : attempts ≤ maxRetries) :
    Triple (Going request.budget False attempts) (sendLoop fromSlice w request attempts)
      (fun response trace => Timely request.budget trace ∧
        Answered request.budget response trace) fun _ => Timely request.budget := by
  induction hn : maxRetries - attempts using Nat.strong_induction_on generalizing attempts with
  | _ n ih =>
    rw [sendLoop]
    refine Triple.bind (Q := fun _ => Going request.budget False attempts) (triple_cancelled
      (fun trace h => h.other rfl token_not_closes) fun trace h => h.timely.other rfl) fun _ => ?_
    refine Triple.bind (Q := fun elapsed trace => ∃ front, trace = front ++ [.clock elapsed] ∧
      Going request.budget False attempts front)
      (triple_readClock fun trace elapsed h => ⟨trace, rfl, h⟩) fun elapsed => ?_
    refine Triple.bind (triple_deadline ?_) fun _ => ?_
    · rintro _ ⟨front, rfl, h⟩
      exact h.timely.other rfl
    refine Triple.bind (Q := fun outcome trace => ∃ front attempt,
      trace = front ++ [.call attempt outcome] ∧
        Going request.budget (Fatal outcome) (attempts + 1) trace)
      (triple_postJson ?_) fun outcome => ?_
    · rintro _ outcome ⟨⟨front, rfl, h⟩, hleft⟩
      exact ⟨_, _, rfl, (h.other (e := .clock elapsed) rfl hleft).attempt hle⟩
    refine Triple.bind (Q := fun _ trace => ∃ front attempt,
      trace = front ++ [.call attempt outcome, .token false] ∧
        Going request.budget (Fatal outcome) (attempts + 1) trace)
      (triple_cancelled ?_ ?_) fun _ => ?_
    · rintro _ ⟨front, attempt, rfl, h⟩
      exact ⟨front, attempt, by simp, h.other rfl token_not_closes⟩
    · rintro _ ⟨front, attempt, rfl, h⟩
      exact h.timely.other rfl
    refine Triple.bind (Q := fun elapsed trace => ∃ front attempt,
      trace = front ++ [.call attempt outcome, .token false] ++ [.clock elapsed] ∧
        Going request.budget (Fatal outcome) (attempts + 1)
          (front ++ [.call attempt outcome, .token false]))
      (triple_readClock ?_) fun elapsed => ?_
    · rintro _ elapsed ⟨front, attempt, rfl, h⟩
      exact ⟨front, attempt, rfl, h⟩
    refine Triple.bind (triple_deadline ?_) fun _ => ?_
    · rintro _ ⟨front, attempt, rfl, h⟩
      exact h.timely.other rfl
    cases hj : judge fromSlice request outcome with
    | ok response =>
      obtain ⟨rfl, hsuccess⟩ := judge_eq_ok hj
      refine Triple.pure ?_
      rintro _ ⟨⟨front, attempt, rfl, h⟩, hleft⟩
      exact ⟨h.timely.other rfl, hsuccess, front, attempt, elapsed, by simp,
        Nat.lt_of_not_le hleft⟩
    | error error =>
      have hfatal := judge_eq_error hj
      dsimp only
      split
      · refine Triple.fail ?_
        rintro _ ⟨⟨front, attempt, rfl, h⟩, hleft⟩
        exact h.timely.other rfl
      · rename_i hgo
        rw [not_or] at hgo
        have hlive : ¬ Fatal outcome := fun hf => hgo.1 (hfatal.mpr hf)
        refine Triple.bind (Q := fun again trace => ∃ front, trace = front ++ [.clock again] ∧
          Going request.budget False (attempts + 1) front) (triple_readClock ?_) fun again => ?_
        · rintro _ again ⟨⟨front, attempt, rfl, h⟩, hleft⟩
          have hgoing := h.other (e := .clock elapsed) rfl hleft
          exact ⟨_, rfl, hgoing.timely, hgoing.count, fun _ => hgoing.opened hlive⟩
        refine Triple.bind (triple_deadline ?_) fun _ => ?_
        · rintro _ ⟨front, rfl, h⟩
          exact h.timely.other rfl
        have hdelay : Triple (Going request.budget False (attempts + 1))
            (cancellableDelay w (min (error.retryAfterMs.getD 0) 30000))
            (fun _ => Going request.budget False (attempts + 1)) fun _ => Timely request.budget :=
          delayLoop_going _
        refine Triple.bind (hdelay.mono ?_ (fun _ _ h => h) fun _ _ h => h) fun _ => ?_
        · rintro _ ⟨⟨front, rfl, h⟩, hleft⟩
          exact h.other rfl fun hspent => hleft (by
            have : request.budget ≤ again := hspent
            omega)
        · exact ih _ (by omega) (by omega) rfl

end

/-- **A call keeps within its limits.** There are at most `maxRetries + 1` attempts and none after a
failure for good, after the token was seen cancelled or after the time was seen spent; each gets no
more time than is left, or 1 ms; and an answer is a success that came in time. -/
theorem sendWithRetry_timely (fromSlice : Bytes → Option Value) (w : Surroundings)
    (request : HttpRequest) :
    Timely request.budget (sendWithRetry fromSlice w request).2 ∧
      ∀ response, (sendWithRetry fromSlice w request).1 = .ok response →
        Answered request.budget response (sendWithRetry fromSlice w request).2 := by
  have hstart : Going request.budget False 0 [] :=
    ⟨timely_nil, rfl, fun _ e he => absurd he List.not_mem_nil⟩
  have hloop : Triple (Going request.budget False 0) (sendLoop fromSlice w request 0)
      (fun response trace => Timely request.budget trace ∧ Answered request.budget response trace)
      fun _ => Timely request.budget := sendLoop_timely (Nat.zero_le maxRetries)
  cases hrun : sendWithRetry fromSlice w request with
  | mk result trace =>
    cases result with
    | ok response =>
      have h := hloop.ok hstart hrun
      refine ⟨h.1, fun answer hanswer => ?_⟩
      obtain rfl := Except.ok.inj hanswer
      exact h.2
    | error error => exact ⟨hloop.error hstart hrun, fun answer hanswer => by cases hanswer⟩

end Okc.App
