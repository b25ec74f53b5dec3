import Okc.Interop.Reservation

/-!
# The events of a job (`okc-interop/src/lib.rs:426-598`)

A handle drains the queue of a job whenever it likes, so what a client sees of a job is spread over
its calls. `Watch` puts the events that the handles have drained so far beside the system; it adds
nothing to what the system does (`Watch.reaches_system`, `Watch.exists_of_reachable`).

`Reported` is the invariant of one job and its drained events. Every critical section keeps it
(`Reported.section`), `begin` because the thread that calls it has the finishing of the job still
before it.

* `pushBounded_eq`: a push drops waiting events, never the one it brings.
* `Reported.section`, `fixed_section`: what one critical section keeps.
* `job_events`: what holds of a job over its whole life.
-/

namespace Okc.Interop

open Okc.Lib

/-! ## Pushes -/

/-- **What a push does.** The new event comes last, after some of those that waited. -/
theorem pushBounded_eq (queue : List ProgressEvent) (event : ProgressEvent) (terminal : Bool) :
    ∃ kept, kept.Sublist queue ∧ pushBounded queue event terminal = kept ++ [event] := by
  unfold pushBounded
  by_cases hfull : queue.length = maxEventQueue
  · rw [if_pos hfull]
    by_cases ht : terminal = true
    · exact ⟨queue.tail, List.tail_sublist queue, by rw [if_pos ht]⟩
    · rw [if_neg ht]
      by_cases hnil : queue = []
      · exact ⟨queue, List.Sublist.refl queue, by rw [if_pos hnil]⟩
      · exact ⟨queue.dropLast, List.dropLast_sublist queue, by rw [if_neg hnil]⟩
  · exact ⟨queue, List.Sublist.refl queue, by rw [if_neg hfull]⟩

/-! ## The critical sections -/

/-- A critical section on a job: the events it hands out and the job after it. `begin` is called
before the job has a result. -/
inductive SharedJob.Section (job : SharedJob) : List ProgressEvent → SharedJob → Prop
  | begin : job.Unfinished → job.Section [] job.begin.2
  | observe (event : AppProgressEvent) : job.Section [] (job.observe event)
  | cancel : job.Section [] job.cancel.2
  | finish (result : RawResult) : job.Section [] (job.finish result)
  | takeEvents : job.Section job.takeEvents.1 job.takeEvents.2

/-- The events of a job so far: those that its handles have drained, then those that wait. -/
def SharedJob.history (job : SharedJob) (drained : List ProgressEvent) : List ProgressEvent :=
  drained ++ job.record.events

/-- A job and the events that its handles have drained. -/
structure Reported (job : SharedJob) (drained : List ProgressEvent) : Prop where
  /-- There is a result exactly when the state is terminal. -/
  result_iff : job.record.result.isSome = true ↔ job.record.state.terminal = true
  bounded : job.record.events.length ≤ maxEventQueue
  increasing : (job.history drained).Pairwise fun a b => a.sequence < b.sequence
  fresh : ∀ a ∈ job.history drained, a.sequence < job.nextSequence
  /-- Before the result no event is terminal. -/
  open_ : job.record.result = none → ∀ a ∈ job.history drained, a.state.terminal = false
  /-- After the result the terminal event is the last of all, and the only one of its kind. -/
  closed : ∀ result, job.record.result = some result → ∃ earlier last,
    job.history drained = earlier ++ [last] ∧
      (last.state, last.phase) = SharedJob.terminalState result ∧
      job.record.state = last.state ∧ ∀ a ∈ earlier, a.state.terminal = false

variable {job job' : SharedJob} {drained handed : List ProgressEvent}

/-- What holds of a job with a result before and after a section. -/
def Fixed (job job' : SharedJob) (drained drained' : List ProgressEvent) : Prop :=
  ∀ result, job.record.result = some result → job'.record.result = some result ∧
    job'.record.state = job.record.state ∧ job'.history drained' = job.history drained

theorem Fixed.refl (job : SharedJob) (drained : List ProgressEvent) :
    Fixed job job drained drained :=
  fun _ h => ⟨h, rfl, rfl⟩

theorem Fixed.trans {job'' : SharedJob} {drained' drained'' : List ProgressEvent}
    (h : Fixed job job' drained drained') (h' : Fixed job' job'' drained' drained'') :
    Fixed job job'' drained drained'' := by
  intro result hr
  obtain ⟨hr', hs, hh⟩ := h result hr
  obtain ⟨hr'', hs', hh'⟩ := h' result hr'
  exact ⟨hr'', hs'.trans hs, hh'.trans hh⟩

theorem Reported.result_eq_none (h : Reported job drained)
    (ht : job.record.state.terminal = false) : job.record.result = none := by
  cases hr : job.record.result with
  | none => rfl
  | some result =>
    have := h.result_iff.mp (by rw [hr]; rfl)
    rw [ht] at this
    cases this

/-! ### One push -/

/-- A push under the next sequence number keeps the order of the events. -/
theorem Reported.push_order (h : Reported job drained) {event : ProgressEvent}
    (hseq : event.sequence = job.nextSequence) (terminal : Bool) :
    ((job.push event terminal).history drained).Pairwise (fun a b => a.sequence < b.sequence) ∧
      ∀ a ∈ (job.push event terminal).history drained,
        a.sequence < (job.push event terminal).nextSequence := by
  obtain ⟨kept, hkept, heq⟩ := pushBounded_eq job.record.events event terminal
  have hsub : (drained ++ kept).Sublist (job.history drained) :=
    (List.Sublist.refl drained).append hkept
  have hlt : ∀ a ∈ drained ++ kept, a.sequence < job.nextSequence :=
    fun a ha => h.fresh a (hsub.subset ha)
  have hhist : (job.push event terminal).history drained = (drained ++ kept) ++ [event] := by
    show drained ++ pushBounded job.record.events event terminal = _
    rw [heq, List.append_assoc]
  rw [hhist]
  refine ⟨?_, fun a ha => ?_⟩
  · refine List.pairwise_append.mpr ⟨h.increasing.sublist hsub, List.pairwise_singleton _ _, ?_⟩
    intro a ha b hb
    obtain rfl := List.mem_singleton.mp hb
    exact hseq ▸ hlt a ha
  · show a.sequence < job.nextSequence + 1
    rcases List.mem_append.mp ha with ha | ha
    · exact Nat.lt_succ_of_lt (hlt a ha)
    · obtain rfl := List.mem_singleton.mp ha
      omega

/-- The events before the pushed one were there before. -/
theorem push_history (job : SharedJob) (drained : List ProgressEvent) (event : ProgressEvent)
    (terminal : Bool) :
    ∃ earlier, (job.push event terminal).history drained = earlier ++ [event] ∧
      ∀ a ∈ earlier, a ∈ job.history drained := by
  obtain ⟨kept, hkept, heq⟩ := pushBounded_eq job.record.events event terminal
  refine ⟨drained ++ kept, ?_, fun a ha => ((List.Sublist.refl drained).append hkept).subset ha⟩
  show drained ++ pushBounded job.record.events event terminal = _
  rw [heq, List.append_assoc]

/-- A push of an intermediate event, on a job without a result. -/
theorem Reported.push (h : Reported job drained) (hr : job.record.result = none)
    (event : ProgressEvent) (record : JobRecord) (cancelled : Bool)
    (hseq : event.sequence = job.nextSequence) (hev : event.state.terminal = false)
    (hevents : record.events = job.record.events) (hresult : record.result = job.record.result)
    (hstate : record.state.terminal = false) :
    Reported (({ job with record := record, cancelled := cancelled } : SharedJob).push event false)
      drained := by
  have hsame : Reported { job with record := record, cancelled := cancelled } drained := by
    refine ⟨?_, ?_, ?_, ?_, fun _ => ?_, fun result hres => ?_⟩
    · simp [hresult, hr, hstate]
    · simpa only [hevents] using h.bounded
    · simpa only [SharedJob.history, hevents] using h.increasing
    · simpa only [SharedJob.history, hevents] using h.fresh
    · simpa only [SharedJob.history, hevents] using h.open_ hr
    · rw [show record.result = none from hresult.trans hr] at hres
      cases hres
  obtain ⟨hinc, hfresh⟩ := hsame.push_order hseq false
  obtain ⟨earlier, heq, hearlier⟩ := push_history
    { job with record := record, cancelled := cancelled } drained event false
  refine ⟨hsame.result_iff, length_pushBounded hsame.bounded event false, hinc, hfresh,
    fun _ a ha => ?_, fun result hres => ?_⟩
  · rw [heq] at ha
    rcases List.mem_append.mp ha with ha | ha
    · exact hsame.open_ (hresult.trans hr) a (hearlier a ha)
    · rw [List.mem_singleton.mp ha]
      exact hev
  · rw [SharedJob.push_result] at hres
    rw [show record.result = none from hresult.trans hr] at hres
    cases hres

/-! ### One section -/

theorem Reported.new (operation : String) : Reported (.new operation) [] := by
  refine ⟨Iff.rfl, ?_, List.pairwise_singleton _ _, fun a ha => ?_, fun _ a ha => ?_,
    fun _ h => ?_⟩
  · show 1 ≤ maxEventQueue
    decide
  · rw [List.mem_singleton.mp ha]
    exact Nat.zero_lt_one
  · rw [List.mem_singleton.mp ha]
    rfl
  · cases h

theorem Reported.begin (h : Reported job drained) (hu : job.Unfinished) :
    Reported job.begin.2 drained := by
  by_cases hc : job.cancelled = true
  · rw [SharedJob.begin_of_cancelled hc]
    exact h
  · rw [SharedJob.begin_of_not_cancelled (Bool.eq_false_iff.mpr hc)]
    exact h.push hu.1 (job.stateEvent .running "running") { job.record with state := .running }
      job.cancelled rfl rfl rfl rfl rfl

theorem Reported.observe (h : Reported job drained) (event : AppProgressEvent) :
    Reported (job.observe event) drained := by
  unfold SharedJob.observe
  by_cases ht : job.record.state.terminal = true
  · rw [if_pos ht]
    exact h
  · have ht' : job.record.state.terminal = false := Bool.eq_false_iff.mpr ht
    rw [if_neg ht]
    -- whatever the phase and the barrier, neither the record nor the event is terminal
    refine h.push (h.result_eq_none ht') _ _ job.cancelled rfl ?_ ?_ ?_ ?_ <;> dsimp only <;>
      split_ifs <;> first | rfl | exact ht'

theorem Reported.cancel (h : Reported job drained) : Reported job.cancel.2 drained := by
  unfold SharedJob.cancel
  by_cases ht : job.record.state.terminal = true
  · rw [if_pos ht]
    exact h
  · rw [if_neg ht]
    split_ifs
    · exact h
    · exact h.push (h.result_eq_none (Bool.eq_false_iff.mpr ht))
        (job.stateEvent .cancelling "cancelling") { job.record with state := .cancelling } true
        rfl rfl rfl rfl rfl

theorem Reported.finish (h : Reported job drained) (result : RawResult) :
    Reported (job.finish result) drained := by
  unfold SharedJob.finish
  cases hr : job.record.result with
  | some r => exact h
  | none =>
    dsimp only
    set event : ProgressEvent := ⟨interopSchemaVersion, job.nextSequence, job.operation,
      (SharedJob.terminalState result).1, (SharedJob.terminalState result).2,
      if (SharedJob.terminalState result).1 = .completed then 1 else 0, some 1, none⟩ with hevent
    obtain ⟨hinc, hfresh⟩ := h.push_order (show event.sequence = _ from rfl) true
    obtain ⟨earlier, heq, hearlier⟩ := push_history job drained event true
    refine ⟨?_, length_pushBounded h.bounded event true, hinc, hfresh, fun hn => ?_,
      fun r hres => ?_⟩
    · exact ⟨fun _ => SharedJob.terminal_terminalState result, fun _ => rfl⟩
    · cases hn
    · obtain rfl : result = r := Option.some.inj hres
      exact ⟨earlier, event, heq, rfl, rfl, fun a ha => h.open_ hr a (hearlier a ha)⟩

theorem history_takeEvents (job : SharedJob) (drained : List ProgressEvent) :
    job.takeEvents.2.history (drained ++ job.takeEvents.1) = job.history drained :=
  List.append_nil _

theorem Reported.takeEvents (h : Reported job drained) :
    Reported job.takeEvents.2 (drained ++ job.takeEvents.1) := by
  refine ⟨h.result_iff, Nat.zero_le _, ?_, ?_, ?_, ?_⟩
  · rw [history_takeEvents]
    exact h.increasing
  · rw [history_takeEvents]
    exact h.fresh
  · rw [history_takeEvents]
    exact h.open_
  · rw [history_takeEvents]
    exact h.closed

/-- **The step lemma.** -/
theorem Reported.section (h : Reported job drained) (hs : job.Section handed job') :
    Reported job' (drained ++ handed) := by
  cases hs with
  | begin hu => simpa using h.begin hu
  | observe event => simpa using h.observe event
  | cancel => simpa using h.cancel
  | finish result => simpa using h.finish result
  | takeEvents => exact h.takeEvents

/-- A job with a result: its result, its state and its events are settled. -/
theorem fixed_section (h : Reported job drained) (hs : job.Section handed job') :
    Fixed job job' drained (drained ++ handed) := by
  intro result hr
  have ht : job.record.state.terminal = true := h.result_iff.mp (by rw [hr]; rfl)
  cases hs with
  | begin hu =>
    rw [hu.1] at hr
    cases hr
  | observe event =>
    have heq : job.observe event = job := if_pos ht
    rw [heq, List.append_nil]
    exact ⟨hr, rfl, rfl⟩
  | cancel =>
    have heq : job.cancel.2 = job := by rw [SharedJob.cancel, if_pos ht]
    rw [heq, List.append_nil]
    exact ⟨hr, rfl, rfl⟩
  | finish r =>
    rw [SharedJob.finish_of_result hr, List.append_nil]
    exact ⟨hr, rfl, rfl⟩
  | takeEvents => exact ⟨hr, rfl, history_takeEvents job drained⟩

/-! ## The sections of a system's moves -/

/-- The events that a move hands out. -/
def Entry.read (e : Entry) : Move → List ProgressEvent
  | .takeEvents => e.shared.takeEvents.1
  | _ => []

/-- **What a move does to the shared job.** Nothing, or one section. -/
theorem Entry.move_section {e e' : Entry} {m : Move} (hs : e.Sound) (h : e.move m = some e') :
    e'.shared = e.shared ∧ e.read m = [] ∨ e.shared.Section (e.read m) e'.shared := by
  have hu := hs.unfinished
  rcases e with ⟨shared, k, reservation, stage, releases⟩
  cases m with
  | advance channel =>
    unfold move advance at h
    cases stage with
    | sending work => cases channel <;> cases h <;> exact Or.inl ⟨rfl, rfl⟩
    | rejected error =>
      cases h
      exact Or.inl ⟨rfl, rfl⟩
    | dropping error =>
      cases h
      exact Or.inr (.finish (.error error))
    | waiting work => cases h
    | received work =>
      have hb : shared.Section [] shared.begin.2 := .begin (hu (by simp))
      dsimp only at h
      split at h <;> rename_i heq <;> cases h <;> rw [heq] at hb <;> exact Or.inr hb
    | working work =>
      cases work with
      | done result =>
        cases h
        exact Or.inl ⟨rfl, rfl⟩
      | observe event next =>
        cases h
        exact Or.inr (.observe event)
      | isCancelled yes no =>
        cases h
        exact Or.inl ⟨rfl, rfl⟩
    | returned result =>
      cases h
      exact Or.inl ⟨rfl, rfl⟩
    | heeding result =>
      cases h
      exact Or.inl ⟨rfl, rfl⟩
    | settled result =>
      cases h
      exact Or.inl ⟨rfl, rfl⟩
    | finishing result =>
      cases h
      exact Or.inr (.finish result)
    | finished => cases h
  | receive =>
    cases stage <;> cases h
    exact Or.inl ⟨rfl, rfl⟩
  | cancel =>
    rw [move, Option.ite_none_right_eq_some] at h
    obtain ⟨-, he⟩ := h
    cases he
    exact Or.inr .cancel
  | takeEvents =>
    rw [move, Option.ite_none_right_eq_some] at h
    obtain ⟨-, he⟩ := h
    cases he
    exact Or.inr .takeEvents

/-- A job that `submit` has just made, queued or refused. -/
theorem System.submit_reported {s s' : System} {k i : Nat} {operation : String}
    {project : Option String} {mutating : Bool} {work : Work}
    (h : s.submit k i operation project mutating work = some s') :
    ∃ e, s.jobs i = none ∧ s'.jobs = Function.update s.jobs i (some e) ∧ e.Sound ∧
      Reported e.shared [] := by
  unfold System.submit at h
  cases hi : s.jobs i with
  | some e => simp [hi] at h
  | none =>
    rw [hi] at h
    dsimp only at h
    have hqueued : ∀ reservation, (Entry.mk (.new operation) k reservation (.sending work) 0).Sound :=
      fun _ => Or.inr ⟨by simp, SharedJob.unfinished_new operation⟩
    cases hp : (if mutating then project else none) with
    | none =>
      rw [hp] at h
      cases h
      exact ⟨_, rfl, rfl, hqueued none, Reported.new operation⟩
    | some path =>
      rw [hp] at h
      dsimp only at h
      by_cases hmem : path ∈ s.reservations
      · rw [if_pos hmem] at h
        cases h
        exact ⟨_, rfl, rfl, Or.inl ⟨rfl, rfl⟩,
          (Reported.new operation).finish (.error (projectBusy path))⟩
      · rw [if_neg hmem] at h
        cases h
        exact ⟨_, rfl, rfl, hqueued (some path), Reported.new operation⟩

/-! ## The system beside what its clients have read -/

structure Watch where
  system : System
  /-- The events of each job that its handles have drained, in order. -/
  drained : Nat → List ProgressEvent

namespace Watch

def init (workers : Nat → Nat) : Watch := ⟨System.init workers, fun _ => []⟩

/-- What an action hands to the clients. -/
def drain (w : Watch) : Action → Nat → List ProgressEvent
  | .takeEvents i =>
    Function.update w.drained i (w.drained i ++ ((w.system.jobs i).elim [] fun e =>
      e.shared.takeEvents.1))
  | _ => w.drained

def step (w : Watch) (a : Action) : Option Watch :=
  (w.system.step a).map fun s => ⟨s, w.drain a⟩

variable {w w' v : Watch} {a : Action}

/-- A run that is watched is a run of the system. -/
theorem reaches_system (h : Reaches step (fun _ _ => True) w v) :
    Reaches System.step (fun _ _ => True) w.system v.system := by
  induction h with
  | refl => exact Relation.ReflTransGen.refl
  | tail _ hm ih =>
    rcases hm with ⟨a, -, ha⟩
    obtain ⟨s, hs, rfl⟩ := Option.map_eq_some_iff.mp ha
    exact ih.tail ⟨a, trivial, hs⟩

/-- Every run of the system can be watched. -/
theorem exists_of_reachable {workers : Nat → Nat} {s : System} (h : Reachable workers s) :
    ∃ w, Reaches step (fun _ _ => True) (init workers) w ∧ w.system = s := by
  induction h with
  | refl => exact ⟨init workers, Relation.ReflTransGen.refl, rfl⟩
  | tail _ hm ih =>
    rcases hm with ⟨a, -, ha⟩
    obtain ⟨w, hw, rfl⟩ := ih
    exact ⟨_, hw.tail ⟨a, trivial, Option.map_eq_some_iff.mpr ⟨_, ha, rfl⟩⟩, rfl⟩

/-- **What a watched step does.** It makes a job or moves one, whose drained events it extends. -/
theorem step_cases (h : w.step a = some w') :
    (∃ i e, w.system.jobs i = none ∧ w'.system.jobs = Function.update w.system.jobs i (some e) ∧
      e.Sound ∧ Reported e.shared [] ∧ w'.drained = w.drained) ∨
    ∃ i e e' m, w.system.jobs i = some e ∧ e.move m = some e' ∧
      w'.system.jobs = Function.update w.system.jobs i (some e') ∧
      w'.drained = Function.update w.drained i (w.drained i ++ e.read m) := by
  obtain ⟨s, hs, rfl⟩ := Option.map_eq_some_iff.mp h
  have hkeep : ∀ i, w.drained = Function.update w.drained i (w.drained i ++ []) := fun i => by
    rw [List.append_nil, Function.update_eq_self]
  cases a with
  | submit k i operation project mutating work =>
    obtain ⟨e, hi, hjobs, hsound, hrep⟩ := System.submit_reported hs
    exact Or.inl ⟨i, e, hi, hjobs, hsound, hrep, rfl⟩
  | receive k =>
    right
    have hs : w.system.receive k = some s := hs
    unfold System.receive at hs
    split at hs
    · rename_i i queue _ _
      obtain ⟨e, he, hs⟩ := Option.bind_eq_some_iff.mp hs
      obtain ⟨e', hm, rfl⟩ := Option.map_eq_some_iff.mp hs
      exact ⟨i, e, e', _, he, hm, rfl, hkeep i⟩
    · cases hs
  | advance i =>
    right
    obtain ⟨e, he, hs⟩ := Option.bind_eq_some_iff.mp hs
    obtain ⟨e', hm, rfl⟩ := Option.map_eq_some_iff.mp hs
    exact ⟨i, e, e', _, he, hm, rfl, hkeep i⟩
  | cancel i =>
    right
    obtain ⟨e, he, hs⟩ := Option.bind_eq_some_iff.mp hs
    obtain ⟨e', hm, rfl⟩ := Option.map_eq_some_iff.mp hs
    exact ⟨i, e, e', _, he, hm, rfl, hkeep i⟩
  | takeEvents i =>
    right
    obtain ⟨e, he, hs⟩ := Option.bind_eq_some_iff.mp hs
    obtain ⟨e', hm, rfl⟩ := Option.map_eq_some_iff.mp hs
    refine ⟨i, e, e', _, he, hm, rfl, ?_⟩
    show Function.update _ i (w.drained i ++ (w.system.jobs i).elim [] _) = _
    rw [he]
    rfl

/-- The invariant of a watched system. -/
structure Wf (w : Watch) : Prop where
  unmade : ∀ {i}, w.system.jobs i = none → w.drained i = []
  sound : ∀ {i e}, w.system.jobs i = some e → e.Sound
  reported : ∀ {i e}, w.system.jobs i = some e → Reported e.shared (w.drained i)

theorem wf_init (workers : Nat → Nat) : (init workers).Wf := by
  refine ⟨fun _ => rfl, fun h => ?_, fun h => ?_⟩ <;> cases h

/-- One job and its drained events change. -/
theorem Wf.update (hw : w.Wf) {i : Nat} {e : Entry} {events : List ProgressEvent}
    (hjobs : w'.system.jobs = Function.update w.system.jobs i (some e))
    (hdr : w'.drained = Function.update w.drained i events) (hsound : e.Sound)
    (hrep : Reported e.shared events) : w'.Wf := by
  refine ⟨fun {j} hj => ?_, fun {j f} hf => ?_, fun {j f} hf => ?_⟩ <;> by_cases hji : j = i
  · subst hji
    rw [hjobs, Function.update_self] at hj
    cases hj
  · rw [hjobs, Function.update_of_ne hji] at hj
    rw [hdr, Function.update_of_ne hji]
    exact hw.unmade hj
  · subst hji
    rw [hjobs, Function.update_self] at hf
    cases hf
    exact hsound
  · rw [hjobs, Function.update_of_ne hji] at hf
    exact hw.sound hf
  · subst hji
    rw [hjobs, Function.update_self] at hf
    cases hf
    rw [hdr, Function.update_self]
    exact hrep
  · rw [hjobs, Function.update_of_ne hji] at hf
    rw [hdr, Function.update_of_ne hji]
    exact hw.reported hf

theorem Wf.step (hw : w.Wf) (h : w.step a = some w') : w'.Wf := by
  rcases step_cases h with ⟨i, e, hi, hjobs, hsound, hrep, hdr⟩ | ⟨i, e, e', m, he, hm, hjobs, hdr⟩
  · have hnone : w'.drained = Function.update w.drained i [] := by
      rw [hdr, ← hw.unmade hi, Function.update_eq_self]
    exact hw.update hjobs hnone hsound hrep
  · refine hw.update hjobs hdr (Entry.sound_move (hw.sound he) hm) ?_
    rcases Entry.move_section (hw.sound he) hm with ⟨hsame, hread⟩ | hsec
    · rw [hsame, hread, List.append_nil]
      exact hw.reported he
    · exact (hw.reported he).section hsec

/-- A job stays, its drained events grow, and a result settles it. -/
theorem fixed_step (hw : w.Wf) (h : w.step a = some w') {i : Nat} {e : Entry}
    (he : w.system.jobs i = some e) :
    ∃ f, w'.system.jobs i = some f ∧ w.drained i <+: w'.drained i ∧
      Fixed e.shared f.shared (w.drained i) (w'.drained i) := by
  rcases step_cases h with ⟨j, g, hj, hjobs, -, -, hdr⟩ | ⟨j, g, g', m, hg, hm, hjobs, hdr⟩
  · have hij : i ≠ j := by
      rintro rfl
      rw [he] at hj
      cases hj
    rw [hjobs, Function.update_of_ne hij, hdr]
    exact ⟨e, he, List.prefix_rfl, Fixed.refl _ _⟩
  · by_cases hij : i = j
    · subst hij
      obtain rfl : e = g := Option.some.inj (he.symm.trans hg)
      rw [hjobs, Function.update_self, hdr, Function.update_self]
      refine ⟨g', rfl, List.prefix_append _ _, ?_⟩
      rcases Entry.move_section (hw.sound he) hm with ⟨hsame, hread⟩ | hsec
      · rw [hsame, hread, List.append_nil]
        exact Fixed.refl _ _
      · exact fixed_section (hw.reported he) hsec
    · rw [hjobs, Function.update_of_ne hij, hdr, Function.update_of_ne hij]
      exact ⟨e, he, List.prefix_rfl, Fixed.refl _ _⟩

theorem wf_reaches (hw : w.Wf) (h : Reaches step (fun _ _ => True) w v) : v.Wf :=
  h.invariant (fun _ _ _ hw _ hs => hw.step hs) hw

theorem fixed_reaches (hw : w.Wf) (h : Reaches step (fun _ _ => True) w v) {i : Nat} {e : Entry}
    (he : w.system.jobs i = some e) :
    ∃ f, v.system.jobs i = some f ∧ w.drained i <+: v.drained i ∧
      Fixed e.shared f.shared (w.drained i) (v.drained i) := by
  induction h with
  | refl => exact ⟨e, he, List.prefix_rfl, Fixed.refl _ _⟩
  | tail hrun hm ih =>
    rcases hm with ⟨a, -, ha⟩
    obtain ⟨f, hf, hpre, hfix⟩ := ih
    obtain ⟨g, hg, hpre', hfix'⟩ := fixed_step (wf_reaches hw hrun) ha hf
    exact ⟨g, hg, hpre.trans hpre', hfix.trans hfix'⟩

end Watch

/-- **The events of a job.** In every interleaving of submissions, workers and handles, at any
moment of the life of a job: it has a result exactly when its state is terminal; at most 64 events
wait; the drained and the waiting events have strictly increasing sequence numbers; the terminal
event comes with the result and is the last of all. From then on, whatever happens, the result,
the state and the events are the same, and draining only moves the events to the clients. -/
theorem job_events {workers : Nat → Nat} {w v : Watch}
    (hw : Reaches Watch.step (fun _ _ => True) (Watch.init workers) w)
    (hv : Reaches Watch.step (fun _ _ => True) w v) {i : Nat} {e : Entry}
    (he : w.system.jobs i = some e) :
    Reported e.shared (w.drained i) ∧ ∃ f, v.system.jobs i = some f ∧
      w.drained i <+: v.drained i ∧ Fixed e.shared f.shared (w.drained i) (v.drained i) := by
  have hwf : w.Wf := Watch.wf_reaches (Watch.wf_init workers) hw
  exact ⟨hwf.reported he, Watch.fixed_reaches hwf hv he⟩

/-- The first job of two clients, read before its worker takes it. -/
def readEarly : List Action :=
  [.submit 0 0 "project.compile" (some "project") true (compileLatest .null), .advance 0,
    .takeEvents 0]

def watched (actions : List Action) : Watch :=
  (exec Watch.step (Watch.init fun _ => 1) actions).getD (Watch.init fun _ => 1)

/-- The rest of its life: it is cancelled while its worker runs it. -/
def cancelledLater : List Action :=
  .receive 0 :: .advance 0 :: .cancel 0 :: List.replicate 6 (.advance 0)

theorem job_events_cancelled :
    ∃ f, (watched (readEarly ++ cancelledLater)).system.jobs 0 = some f ∧
      f.shared.record.state = .cancelled ∧
      Reported f.shared ((watched (readEarly ++ cancelledLater)).drained 0) ∧
      ((watched (readEarly ++ cancelledLater)).drained 0).length = 1 := by
  have hrun : exec Watch.step (Watch.init fun _ => 1) (readEarly ++ cancelledLater) =
    some (watched (readEarly ++ cancelledLater)) := rfl
  obtain ⟨hrep, -⟩ := job_events (reaches_of_exec hrun fun _ _ => trivial)
    Relation.ReflTransGen.refl (show (watched (readEarly ++ cancelledLater)).system.jobs 0 = some _
      from rfl)
  exact ⟨_, rfl, rfl, hrep, rfl⟩

end Okc.Interop
