import Okc.Interop.Job
import Okc.Lib.Runs

/-!
# The terminal's worker (`okc-app/src/worker.rs`)

One thread runs the operations that the terminal submits, one at a time. Progress goes through a
bounded channel that drops what does not fit. The result stands in a slot of its own until it is
read, so that it never competes with progress for room. Both sides are program counters that move
by one channel operation or critical section at a time: `Stage` is the thread's, `UiStage` the
terminal's inside a call.

`try_recv` looks at the channel and then, if that was empty, at the slot. A thread that reports
progress and completes between the two looks leaves progress behind that is read after the result.

* `wf_step`: results are neither lost nor duplicated, whatever the interleaving.
* `tidy_step`: results come last while every slot is emptied before its channel fills.
* `finished_last`, `progress_after_finished`: the two sides of the condition.

A run of the thread is numbered by the operations completed before it. The numbers, and the list of
what the terminal has received, are not in the source.
-/

namespace Okc.App

open Okc.Lib
open Okc.Interop (OperationPhase)

inductive OperationKind
  | inspect | plan | augment | integrate | compile | pack | verify
deriving DecidableEq

/-- `ProgressEvent` of `okc-app/src/lib.rs:661-668`. -/
structure ProgressEvent where
  operation : OperationKind
  phase : OperationPhase
  completed : Nat
  total : Option Nat
  currentItem : Option String
deriving DecidableEq

inductive WorkerEvent
  | progress (event : ProgressEvent)
  | finished (operation : String) (result : Except String String)

def WorkerEvent.isFinished : WorkerEvent → Bool
  | .progress _ => false
  | .finished _ _ => true

/-- A job closure, by its interaction with `OperationControl`. -/
inductive WorkerJob
  | done (result : Except String String)
  | observe (event : ProgressEvent) (next : WorkerJob)
  | isCancelled (yes no : WorkerJob)

inductive CancelOutcome
  | requested | publicationBarrier | idle
deriving DecidableEq

namespace Worker

/-- Where the thread stands. -/
inductive Stage
  /-- In `command_rx.recv()`. -/
  | receiving
  | running (operation : String) (job : WorkerJob)
  /-- The job has returned: the thread takes the lock of the slot next. -/
  | completing (operation : String) (result : Except String String)

/-- Where the terminal stands in a call. -/
inductive UiStage
  | idle
  /-- `try_recv` found the channel empty and looks at the slot next. -/
  | polled
  /-- `cancel` found an active operation and reads the barrier next. -/
  | cancelling
  /-- `cancel` found no barrier and takes the token next. -/
  | passed
deriving DecidableEq

/-- An event and the run it is about. -/
structure Sent where
  run : Nat
  event : WorkerEvent

/-- Room in the progress channel. -/
def eventCapacity : Nat := 64

end Worker

open Worker in
structure Worker where
  /-- The command channel, of capacity 1. -/
  command : Option (String × WorkerJob)
  /-- The progress channel, front first. -/
  events : List Sent
  completion : Option Sent
  active : Bool
  publicationBarrier : Bool
  /-- Whether `cancellation` holds the token of an operation. -/
  cancellation : Bool
  /-- Whether that token is cancelled. -/
  cancelled : Bool
  thread : Worker.Stage
  ui : Worker.UiStage
  /-- The operations completed so far. -/
  run : Nat
  /-- What `try_recv` has returned, in order. -/
  received : List Sent

namespace Worker

/-- `Worker::spawn`. -/
def spawn : Worker :=
  ⟨none, [], none, false, false, false, false, .receiving, .idle, 0, []⟩

inductive Action
  /-- The terminal calls `submit`. -/
  | submit (operation : String) (job : WorkerJob)
  /-- The terminal calls `try_recv`, which looks at the channel. -/
  | tryRecv
  /-- The terminal calls `cancel`, which reads `active`. -/
  | cancel
  /-- The terminal goes on in its call. -/
  | ui
  /-- The thread moves. -/
  | thread

/-- `Worker::submit`: whether it was taken. It holds the lock of the slot throughout; a full command
channel blocks it. -/
def submit (w : Worker) (operation : String) (job : WorkerJob) : Option (Bool × Worker) :=
  match w.completion, w.active, w.command with
  | some _, _, _ => some (false, w)
  | none, true, _ => some (false, w)
  | none, false, some _ => none
  | none, false, none =>
    some (true, { w with
      active := true, cancellation := true, cancelled := false, command := some (operation, job) })

/-- The first look of `Worker::try_recv`. -/
def tryRecv (w : Worker) : Worker :=
  match w.events with
  | e :: events => { w with events := events, received := w.received ++ [e] }
  | [] => { w with ui := .polled }

/-- `Worker::cancel`, up to `is_active`. -/
def cancel (w : Worker) : Worker :=
  if w.active then { w with ui := .cancelling } else w

/-- The rest of a call of the terminal; what `cancel` answers is left to the caller. -/
def goOn (w : Worker) : Option Worker :=
  match w.ui with
  | .idle => none
  | .polled => some { w with
      ui := .idle, completion := none, received := w.received ++ w.completion.toList }
  | .cancelling => some { w with ui := if w.publicationBarrier then .idle else .passed }
  | .passed => some { w with ui := .idle, cancelled := w.cancelled || w.cancellation }

/-- `ChannelObserver::observe`. -/
def observe (w : Worker) (event : ProgressEvent) : Worker :=
  { w with
    publicationBarrier := w.publicationBarrier || decide (event.phase = .publishing)
    events := if w.events.length < eventCapacity then w.events ++ [⟨w.run, .progress event⟩]
      else w.events }

/-- The next move of the thread. -/
def threadStep (w : Worker) : Option Worker :=
  match w.thread with
  | .receiving => w.command.map fun (operation, job) =>
      { w with command := none, publicationBarrier := false, thread := .running operation job }
  | .running operation (.observe event next) =>
    some { w.observe event with thread := .running operation next }
  | .running operation (.isCancelled yes no) =>
    some { w with thread := .running operation (if w.cancelled then yes else no) }
  | .running operation (.done result) => some { w with thread := .completing operation result }
  | .completing operation result => some { w with
      publicationBarrier := false
      cancellation := false
      completion := some ⟨w.run, .finished operation result⟩
      active := false
      thread := .receiving
      run := w.run + 1 }

/-- The terminal has one thread: it starts a call when the last one has returned. -/
def step (w : Worker) : Action → Option Worker
  | .submit operation job => if w.ui = .idle then (w.submit operation job).map Prod.snd else none
  | .tryRecv => if w.ui = .idle then some w.tryRecv else none
  | .cancel => if w.ui = .idle then some w.cancel else none
  | .ui => w.goOn
  | .thread => w.threadStep

/-! ## What a step does -/

variable {w w' v : Worker} {a : Action}

/-- The runs whose result has been received or waits in the slot. -/
def finishedRuns (w : Worker) : List Nat :=
  ((w.received ++ w.completion.toList).filter fun s => s.event.isFinished).map Sent.run

/-- The run that the waiting events are about, while results come last. -/
def current (w : Worker) : Nat := (w.completion.map Sent.run).getD w.run

/-- The bookkeeping of runs. -/
structure Wf (w : Worker) : Prop where
  /-- One operation at a time: in the command channel, in the thread, or nowhere. -/
  active : w.active = true ↔ w.command.isSome = true ∨ w.thread ≠ .receiving
  single : w.command.isSome = true → w.thread = .receiving
  /-- A result is read before the next operation starts. -/
  slot : w.completion.isSome = true → w.active = false
  /-- The result in the slot is that of the last run. -/
  last : ∀ f ∈ w.completion, f.run + 1 = w.run ∧ f.event.isFinished = true
  progress : ∀ e ∈ w.events, e.event.isFinished = false
  /-- Every completed run has its result once, in order. -/
  once : w.finishedRuns = List.range w.run

/-- Nothing about a run is received after its result. -/
def Orderly (w : Worker) : Prop :=
  w.received.Pairwise fun a b => a.event.isFinished = true → b.run ≠ a.run

/-- The slot is not emptied while progress waits in the channel. -/
def Prompt (w : Worker) (a : Action) : Prop :=
  a = .ui → w.ui = .polled → w.completion ≠ none → w.events = []

/-- What the order rests on. -/
structure Tidy (w : Worker) : Prop where
  waiting : ∀ e ∈ w.events, e.run = w.current
  /-- The results received are those of the runs before. -/
  before : ∀ e ∈ w.received, e.event.isFinished = true → e.run < w.current
  orderly : w.Orderly

theorem wf_spawn : spawn.Wf :=
  ⟨by simp [spawn], fun _ => rfl, fun _ => rfl, fun _ h => (Option.not_mem_none _ h).elim,
    fun _ h => (List.not_mem_nil h).elim, rfl⟩

theorem tidy_spawn : spawn.Tidy :=
  ⟨fun _ h => (List.not_mem_nil h).elim, fun _ h => (List.not_mem_nil h).elim, List.Pairwise.nil⟩

/-- **What a step does.** It takes an operation, hands out what waits, records a cancellation,
moves the thread inside an operation, or completes one. -/
inductive Effect (w : Worker) : Action → Worker → Prop
  | refused (operation : String) (job : WorkerJob) : Effect w (.submit operation job) w
  | taken (operation : String) (job : WorkerJob) : w.completion = none → w.active = false →
      w.command = none → Effect w (.submit operation job) { w with
        active := true, cancellation := true, cancelled := false, command := some (operation, job) }
  | progress (e : Sent) (events : List Sent) : w.ui = .idle → w.events = e :: events →
      Effect w .tryRecv { w with events := events, received := w.received ++ [e] }
  | control (a : Action) (ui : UiStage) (cancelled : Bool) : a ≠ .thread →
      Effect w a { w with ui := ui, cancelled := cancelled }
  | result : w.ui = .polled → Effect w .ui { w with
        ui := .idle, completion := none, received := w.received ++ w.completion.toList }
  | started (operation : String) (job : WorkerJob) : w.command = some (operation, job) →
      w.thread = .receiving → Effect w .thread { w with
        command := none, publicationBarrier := false, thread := .running operation job }
  | running (stage : Stage) (barrier : Bool) (sent : List Sent) : w.thread ≠ .receiving →
      stage ≠ .receiving → (∀ e ∈ sent, e.run = w.run ∧ e.event.isFinished = false) →
      Effect w .thread { w with
        publicationBarrier := barrier, events := w.events ++ sent, thread := stage }
  | completed (operation : String) (result : Except String String) : w.thread ≠ .receiving →
      Effect w .thread { w with
        publicationBarrier := false
        cancellation := false
        completion := some ⟨w.run, .finished operation result⟩
        active := false
        thread := .receiving
        run := w.run + 1 }

theorem step_effect (h : w.step a = some w') : w.Effect a w' := by
  cases a with
  | submit operation job =>
    rw [step, Option.ite_none_right_eq_some] at h
    obtain ⟨-, h⟩ := h
    unfold submit at h
    split at h
    · cases h
      exact .refused operation job
    · cases h
      exact .refused operation job
    · cases h
    · rename_i hc ha hcmd
      cases h
      exact .taken operation job hc ha hcmd
  | tryRecv =>
    rw [step, Option.ite_none_right_eq_some] at h
    obtain ⟨hui, h⟩ := h
    cases h
    unfold tryRecv
    split
    · rename_i e events he
      exact .progress e events hui he
    · exact .control .tryRecv .polled w.cancelled (by simp)
  | cancel =>
    rw [step, Option.ite_none_right_eq_some] at h
    obtain ⟨-, h⟩ := h
    cases h
    unfold cancel
    split_ifs
    · exact .control .cancel .cancelling w.cancelled (by simp)
    · exact .control .cancel w.ui w.cancelled (by simp)
  | ui =>
    have h : w.goOn = some w' := h
    unfold goOn at h
    split at h <;> cases h
    · rename_i hui
      exact .result hui
    · exact .control .ui _ w.cancelled (by simp)
    · exact .control .ui .idle _ (by simp)
  | thread =>
    have h : w.threadStep = some w' := h
    unfold threadStep at h
    split at h
    · rename_i hst
      obtain ⟨⟨operation, job⟩, hcmd, rfl⟩ := Option.map_eq_some_iff.mp h
      exact .started operation job hcmd hst
    · rename_i operation event next hst
      cases h
      by_cases hroom : w.events.length < eventCapacity
      · have hobs : w.observe event = { w with
            publicationBarrier := w.publicationBarrier || decide (event.phase = .publishing)
            events := w.events ++ [⟨w.run, .progress event⟩] } := by
          rw [observe, if_pos hroom]
        rw [hobs]
        refine .running (.running operation next) _ [⟨w.run, .progress event⟩] (by simp [hst])
          (by simp) fun e he => ?_
        obtain rfl := List.mem_singleton.mp he
        exact ⟨rfl, rfl⟩
      · have hobs : w.observe event = { w with
            publicationBarrier := w.publicationBarrier || decide (event.phase = .publishing)
            events := w.events ++ [] } := by
          rw [observe, if_neg hroom, List.append_nil]
        rw [hobs]
        exact .running (.running operation next) _ [] (by simp [hst]) (by simp)
          fun e he => (List.not_mem_nil he).elim
    · rename_i operation yes no hst
      cases h
      have := Effect.running (w := w) (.running operation (if w.cancelled then yes else no))
        w.publicationBarrier [] (by simp [hst]) (by simp) fun e he => (List.not_mem_nil he).elim
      simpa only [List.append_nil] using this
    · rename_i operation result hst
      cases h
      have := Effect.running (w := w) (.completing operation result)
        w.publicationBarrier [] (by simp [hst]) (by simp) fun e he => (List.not_mem_nil he).elim
      simpa only [List.append_nil] using this
    · rename_i operation result hst
      cases h
      exact .completed operation result (by simp [hst])

/-! ## The invariants -/

/-- An operation under way: the slot is empty and the command channel is not in use. -/
theorem Wf.running (hw : w.Wf) (hst : w.thread ≠ .receiving) :
    w.active = true ∧ w.completion = none ∧ w.command = none := by
  have hact : w.active = true := hw.active.mpr (Or.inr hst)
  refine ⟨hact, ?_, ?_⟩
  · by_contra hc
    have := hw.slot (Option.isSome_iff_ne_none.mpr hc)
    rw [hact] at this
    cases this
  · by_contra hc
    exact hst (hw.single (Option.isSome_iff_ne_none.mpr hc))

/-- **The step lemma of the bookkeeping.** No condition on the order of the looks. -/
theorem wf_step (hw : w.Wf) (h : w.step a = some w') : w'.Wf := by
  cases step_effect h with
  | refused operation job => exact hw
  | taken operation job hc ha hcmd =>
    have hidle : w.thread = .receiving := by
      by_contra hst
      rw [(hw.running hst).1] at ha
      cases ha
    refine ⟨by simp, fun _ => hidle, fun hs => ?_, hw.last, hw.progress, hw.once⟩
    rw [show w.completion = none from hc] at hs
    cases hs
  | progress e events hui he =>
    have hprog : e.event.isFinished = false := hw.progress e (by rw [he]; exact List.mem_cons_self)
    refine ⟨hw.active, hw.single, hw.slot, hw.last, fun x hx => ?_, ?_⟩
    · exact hw.progress x (by rw [he]; exact List.mem_cons_of_mem e hx)
    · rw [← hw.once]
      simp [finishedRuns, List.filter_append, hprog]
  | control a ui cancelled ha =>
    exact ⟨hw.active, hw.single, hw.slot, hw.last, hw.progress, hw.once⟩
  | result hui =>
    refine ⟨hw.active, hw.single, fun hs => ?_, fun _ hf => (Option.not_mem_none _ hf).elim,
      hw.progress, ?_⟩
    · cases hs
    · rw [← hw.once]
      simp [finishedRuns]
  | started operation job hcmd hst =>
    have hact : w.active = true := hw.active.mpr (Or.inl (by rw [hcmd]; rfl))
    exact ⟨by simp [hact], fun hs => (by cases hs), hw.slot, hw.last, hw.progress, hw.once⟩
  | running stage barrier sent hst hstage hsent =>
    obtain ⟨hact, hslot, hcmd⟩ := hw.running hst
    refine ⟨by simp [hact, hstage], fun hs => ?_, hw.slot, hw.last, fun e he => ?_, hw.once⟩
    · rw [show w.command = none from hcmd] at hs
      cases hs
    · rcases List.mem_append.mp he with he | he
      · exact hw.progress e he
      · exact (hsent e he).2
  | completed operation result hst =>
    obtain ⟨hact, hslot, hcmd⟩ := hw.running hst
    refine ⟨by simp [hcmd], fun _ => rfl, fun _ => rfl, fun f hf => ?_, hw.progress, ?_⟩
    · obtain rfl := Option.some.inj hf
      exact ⟨rfl, rfl⟩
    · have honce := hw.once
      have hfin : (WorkerEvent.finished operation result).isFinished = true := rfl
      simp only [finishedRuns, hslot, Option.toList_none, List.append_nil] at honce
      simp [finishedRuns, List.filter_append, honce, List.range_succ, hfin]

theorem current_of_slot (hw : w.Wf) {f : Sent} (h : w.completion = some f) :
    w.current = f.run ∧ w.current + 1 = w.run := by
  have hcur : w.current = f.run := by rw [current, h]; rfl
  exact ⟨hcur, by rw [hcur, (hw.last f h).1]⟩

/-- **The step lemma of the order.** -/
theorem tidy_step (hw : w.Wf) (ht : w.Tidy) (hp : w.Prompt a) (h : w.step a = some w') :
    w'.Tidy := by
  cases step_effect h with
  | refused operation job => exact ht
  | taken operation job hc ha hcmd => exact ⟨ht.waiting, ht.before, ht.orderly⟩
  | progress e events hui he =>
    have hmem : e ∈ w.events := by rw [he]; exact List.mem_cons_self
    refine ⟨fun x hx => ?_, fun x hx hfin => ?_, ?_⟩
    · exact ht.waiting x (by rw [he]; exact List.mem_cons_of_mem e hx)
    · rcases List.mem_append.mp hx with hx | hx
      · exact ht.before x hx hfin
      · rw [List.mem_singleton.mp hx, hw.progress e hmem] at hfin
        cases hfin
    · refine List.pairwise_append.mpr ⟨ht.orderly, List.pairwise_singleton _ _, ?_⟩
      intro x hx b hb hfin
      rw [List.mem_singleton.mp hb, ht.waiting e hmem]
      exact (ht.before x hx hfin).ne'
  | control a ui cancelled ha => exact ⟨ht.waiting, ht.before, ht.orderly⟩
  | result hui =>
    cases hc : w.completion with
    | none =>
      refine ⟨fun x hx => ?_, fun x hx hfin => ?_, ?_⟩
      · rw [ht.waiting x hx, current, hc]
        rfl
      · have := ht.before x (by simpa [hc] using hx) hfin
        rwa [current, hc] at this
      · simpa [Orderly, hc] using ht.orderly
    | some f =>
      obtain ⟨hcur, hrun⟩ := current_of_slot hw hc
      have hempty : w.events = [] := hp rfl hui (by simp [hc])
      refine ⟨fun x hx => ?_, fun x hx hfin => ?_, ?_⟩
      · rw [show w.events = [] from hempty] at hx
        exact (List.not_mem_nil hx).elim
      · show x.run < w.run
        rcases List.mem_append.mp hx with hx | hx
        · have := ht.before x hx hfin
          omega
        · rw [List.mem_singleton.mp hx]
          omega
      · refine List.pairwise_append.mpr ⟨ht.orderly, List.pairwise_singleton _ _, ?_⟩
        intro x hx b hb hfin
        rw [List.mem_singleton.mp hb, ← hcur]
        exact (ht.before x hx hfin).ne'
  | started operation job hcmd hst => exact ⟨ht.waiting, ht.before, ht.orderly⟩
  | running stage barrier sent hst hstage hsent =>
    obtain ⟨-, hslot, -⟩ := hw.running hst
    refine ⟨fun e he => ?_, ht.before, ht.orderly⟩
    rcases List.mem_append.mp he with he | he
    · exact ht.waiting e he
    · show e.run = (w.completion.map Sent.run).getD w.run
      rw [(hsent e he).1, hslot]
      rfl
  | completed operation result hst =>
    obtain ⟨-, hslot, -⟩ := hw.running hst
    have hcur : w.current = w.run := by rw [current, hslot]; rfl
    exact ⟨fun e he => hcur ▸ ht.waiting e he, fun e he hfin => hcur ▸ ht.before e he hfin,
      ht.orderly⟩

theorem wf_reaches {P : Worker → Action → Prop} (h : Reaches step P spawn w) : w.Wf :=
  h.invariant (fun _ _ _ hw _ hs => wf_step hw hs) wf_spawn

theorem tidy_reaches (h : Reaches step Prompt spawn w) : w.Wf ∧ w.Tidy :=
  h.invariant (I := fun w => w.Wf ∧ w.Tidy) (fun _ _ _ hw hp hs => ⟨wf_step hw.1 hs, tidy_step hw.1 hw.2 hp hs⟩)
    ⟨wf_spawn, tidy_spawn⟩

/-! ## Delivery -/

/-- A look at a channel where something waits. -/
theorem step_tryRecv_cons (hui : w.ui = .idle) {e : Sent} {events : List Sent}
    (he : w.events = e :: events) :
    w.step .tryRecv = some { w with events := events, received := w.received ++ [e] } := by
  simp only [step, if_pos hui, tryRecv]
  rw [he]

theorem exec_replicate_succ {n : Nat} {as : List Action} :
    exec step w (List.replicate (n + 1) .tryRecv ++ as) =
      (w.step .tryRecv).bind fun u => exec step u (List.replicate n .tryRecv ++ as) := rfl

/-- A terminal that polls receives what waits, and then the result. -/
theorem exec_polls {events : List Sent} (hui : w.ui = .idle) (he : w.events = events) :
    ∃ v, exec step w (List.replicate (events.length + 1) .tryRecv ++ [.ui]) = some v ∧
      v.received = w.received ++ events ++ w.completion.toList := by
  induction events generalizing w with
  | nil =>
    have hstep : w.step .tryRecv = some { w with ui := .polled } := by
      simp only [step, if_pos hui, tryRecv]
      rw [he]
    refine ⟨{ w with ui := .idle, completion := none, received := w.received ++ w.completion.toList },
      ?_, by simp⟩
    rw [List.length_nil, exec_replicate_succ, hstep]
    rfl
  | cons e events ih =>
    have hnext := ih (w := { w with events := events, received := w.received ++ [e] }) hui rfl
    obtain ⟨v, hv, hrec⟩ := hnext
    refine ⟨v, ?_, by rw [hrec]; simp⟩
    rw [List.length_cons, exec_replicate_succ, step_tryRecv_cons hui he]
    exact hv

/-- What the terminal is promised about its operations. -/
structure Delivers (w : Worker) : Prop where
  /-- Nothing about an operation is received after its result. -/
  orderly : w.Orderly
  /-- Every completed operation has its result once: received, or in the slot. -/
  once : w.finishedRuns = List.range w.run
  /-- A result in the slot is received after the progress that waits, if the terminal polls. -/
  polled : w.ui = .idle → ∀ f, w.completion = some f →
    ∃ v, exec step w (List.replicate (w.events.length + 1) .tryRecv ++ [.ui]) = some v ∧
      v.received = w.received ++ w.events ++ [f]

/-- **Results come last.** In every run in which no slot is emptied while progress waits in the
channel, each result is delivered once and after all delivered progress of its operation. Where a
step empties it so, the next look at the channel delivers progress of a finished operation. -/
theorem finished_last (h : Reaches step Prompt spawn w) :
    w.Delivers ∧ ∀ a w', ¬ w.Prompt a → w.step a = some w' →
      ∃ v, w'.step .tryRecv = some v ∧ ¬ v.Orderly := by
  obtain ⟨hw, ht⟩ := tidy_reaches h
  refine ⟨⟨ht.orderly, hw.once, fun hui f hf => ?_⟩, fun a w' hp hs => ?_⟩
  · obtain ⟨v, hv, hrec⟩ := exec_polls hui rfl
    exact ⟨v, hv, by rw [hrec, hf]; rfl⟩
  · obtain ⟨rfl, hui, hc, hne⟩ : a = .ui ∧ w.ui = .polled ∧ w.completion ≠ none ∧ w.events ≠ [] := by
      simpa only [Prompt, Classical.not_imp] using hp
    obtain ⟨f, hf⟩ := Option.ne_none_iff_exists'.mp hc
    obtain ⟨e, events, he⟩ := List.exists_cons_of_ne_nil hne
    have hw' : w' = { w with
        ui := .idle, completion := none, received := w.received ++ w.completion.toList } := by
      have hs : w.goOn = some w' := hs
      rw [goOn, hui] at hs
      exact (Option.some.inj hs).symm
    subst hw'
    refine ⟨_, step_tryRecv_cons rfl he, fun hord => ?_⟩
    -- the result of the run is received, and the progress of the same run comes next
    have hpair := (List.pairwise_append.mp hord).2.2 f (by simp [hf]) e (by simp) (hw.last f hf).2
    exact hpair (by rw [ht.waiting e (by simp [he]), (current_of_slot hw hf).1])

/-- A job that reports progress once. -/
def staged : WorkerJob :=
  .observe ⟨.compile, .staging, 0, some 1, none⟩ (.done (.ok "compiled"))

/-- It runs to its end, and the terminal looks at the channel twice. -/
def polledAfter : List Action :=
  .submit "compile" staged :: List.replicate 4 .thread ++ [.tryRecv, .tryRecv]

def afterPolls : Worker := (exec step spawn polledAfter).getD spawn

theorem finished_last_polledAfter :
    ∃ w, afterPolls.step .ui = some w ∧ w.received.length = 2 ∧ w.Delivers := by
  have hrun : exec step spawn polledAfter = some afterPolls := rfl
  have hreach : Reaches step Prompt spawn afterPolls := by
    refine reaches_of_exec_mem hrun fun u a ha hui => ?_
    simp [polledAfter, hui] at ha
  have hprompt : afterPolls.Prompt .ui := fun _ _ _ => rfl
  exact ⟨_, rfl, rfl, (finished_last (hreach.tail ⟨.ui, hprompt, rfl⟩)).1⟩

/-- The same job, which runs to its end between the two looks of the terminal. -/
def polledBefore : List Action :=
  [.submit "compile" staged, .tryRecv] ++ List.replicate 4 .thread ++ [.ui, .tryRecv]

theorem progress_after_finished :
    ∃ w, Reaches step (fun _ _ => True) spawn w ∧ ¬ w.Orderly := by
  have hrun : exec step spawn polledBefore = some ((exec step spawn polledBefore).getD spawn) := rfl
  refine ⟨_, reaches_of_exec hrun fun _ _ => trivial, fun hord => ?_⟩
  have hpair := List.rel_of_pairwise_cons hord List.mem_cons_self
  exact hpair rfl rfl

end Worker

end Okc.App
