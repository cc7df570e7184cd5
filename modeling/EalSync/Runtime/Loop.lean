import EalSync.Runtime.Courses

/-! run_worker of runtime-worker/src/main.rs: the loop around process_next, with --once, the sleep
after an iteration that found no job, and the end by an error, by ctrl-c or by a crash. Any number of
processes run it; what they do to the tables is what workers do. -/
namespace EalSync.Runtime.Worker.Loop

open Provenance (Crates)

/-- Where a process is in run_worker. -/
inductive Control where
  | gone
  | iterating
  | sleeping (wakeAt : Timestamp)
  | returned (result : Except Error Unit)

/-- No process is in the loop. -/
def Control.rests : Control → Bool
  | gone | returned _ => true
  | iterating | sleeping _ => false

structure State (n : Nat) where
  workers : Worker.State n
  control : Fin n → Control

def State.initial (n : Nat) (clock : Timestamp) : State n := ⟨.initial n clock, fun _ => .gone⟩

/-- A process enters run_worker, makes a step of process_next, wakes up, or ends; the steps of
process_next include those of the clock and of other programs. -/
inductive Event (n : Nat) where
  | enter (w : Fin n)
  | process (e : Provenance.Event n)
  | wake (w : Fin n)
  | shutdown (w : Fin n)
  | crash (w : Fin n)

/-- The worker that takes a step of process_next. -/
def actor {n : Nat} : Provenance.Event n → Option (Fin n)
  | .worker (.reap w) | .worker (.lease w ..) | .worker (.record w) => some w
  | .worker (.start w) | .worker (.stop w) | .worker (.crawled w _) | .worker (.posted w _) => some w
  | .exited w _ | .answered w _ => some w
  | .worker (.tick _) | .worker (.action _) => none

section

variable (crates : Crates) {n : Nat} (fleet : Fin n → Config) (once : Fin n → Bool)

def answerOf (s : Worker.State n) (op : Op) : Except Error Reply := (op.exec crates.url s.clock s.db).1

/-- What process_next returns when this step ends it; an error is given without its context. -/
def returns (s : Worker.State n) : Provenance.Event n → Option (Fin n × Except Error Bool)
  | .worker (.reap w) =>
    match answerOf crates s .reapExpired with
    | .error e => some (w, .error e)
    | .ok _ => none
  | .worker (.lease w leaseToken attemptId locked) =>
    match answerOf crates s (leaseOp (fleet w) leaseToken attemptId locked) with
    | .error e => some (w, .error e)
    | .ok (.leased (some _)) => none
    | .ok _ => some (w, .ok false)
  | .worker (.record w) =>
    (recordOp (s.phase w)).map fun op => (w, (answerOf crates s op).map fun _ => true)
  | .worker (.tick _) | .worker (.start _) | .worker (.stop _) | .worker (.crawled ..)
  | .worker (.posted ..) | .worker (.action _) | .exited .. | .answered .. => none

/-- The loop after process_next has returned. -/
def afterIteration (w : Fin n) (now : Timestamp) : Except Error Bool → Control
  | .error e => .returned (.error e)
  | .ok processed =>
    if once w then .returned (.ok ())
    else if processed then .iterating
    else .sleeping (now + seconds (fleet w).idleSeconds)

/-- A process that has left the loop does nothing any more. -/
def State.leave (s : State n) (w : Fin n) (control : Control) : State n :=
  { workers := if control.rests then s.workers.enter w .stopped else s.workers
    control := Function.update s.control w control }

def step (s : State n) : Event n → State n
  | .enter w => ⟨s.workers.enter w .idle, Function.update s.control w .iterating⟩
  | .process e =>
    let after : State n := { s with workers := Provenance.step crates fleet s.workers e }
    match returns crates fleet s.workers e with
    | none => after
    | some (w, result) => after.leave w (afterIteration fleet once w s.workers.clock result)
  | .wake w => { s with control := Function.update s.control w .iterating }
  | .shutdown w => s.leave w (.returned (.ok ()))
  | .crash w => s.leave w .gone

end

def Admits {n : Nat} (fleet : Fin n → Config) (s : State n) : Event n → Prop
  | .enter w => (s.control w).rests = true
  | .process e => Provenance.Admits fleet s.workers e ∧ (∀ w ∈ actor e, s.control w = .iterating) ∧
    ∀ w, e ≠ .worker (.start w) ∧ e ≠ .worker (.stop w)
  | .wake w => ∃ wakeAt, s.control w = .sleeping wakeAt ∧ wakeAt ≤ s.workers.clock
  | .shutdown w | .crash w => (s.control w).rests = false

section Refinement

variable {crates : Crates} {n : Nat} {fleet : Fin n → Config} {once : Fin n → Bool}

theorem afterCrawl_job (config : Config) (clock : Timestamp) (job : CrawlJob)
    (result : Except CrawlRunError CrawlCommandOutput) :
    (afterCrawl config clock job result).job = some job := by
  cases result <;> rfl

theorem afterPost_job (clock : Timestamp) (job : CrawlJob) (output : CrawlCommandOutput)
    (result : Except IngestApiError Json) : (afterPost clock job output result).job = some job := by
  cases result <;> rfl

/-- Only the worker that takes a step changes its phase. -/
theorem step_phase {s : Worker.State n} {e : Provenance.Event n} {v : Fin n} (other : actor e ≠ some v) :
    (Provenance.step crates fleet s e).phase v = s.phase v := by
  have entered : ∀ (w : Fin n) (phase : Phase), some w ≠ some v → (s.enter w phase).phase v = s.phase v :=
    fun w phase apart => Function.update_of_ne (fun same => apart (congrArg some same.symm)) ..
  have transacted : ∀ (w : Fin n) (op : Op) (next : Except Error Reply → Phase), some w ≠ some v →
      (s.transact crates.url op w next).phase v = s.phase v :=
    fun w op next apart => Function.update_of_ne (fun same => apart (congrArg some same.symm)) ..
  cases e with
  | exited w outcome =>
    simp only [Provenance.step]
    split
    · exact entered w _ other
    · rfl
  | answered w answer =>
    simp only [Provenance.step]
    split
    · exact entered w _ other
    · rfl
  | worker e =>
    cases e with
    | tick now => rfl
    | start w => exact entered w _ other
    | stop w => exact entered w _ other
    | reap w => exact transacted w _ _ other
    | lease w => exact transacted w _ _ other
    | crawled w result =>
      simp only [Provenance.step, Worker.step]
      split
      · exact entered w _ other
      · rfl
    | posted w result =>
      simp only [Provenance.step, Worker.step]
      split
      · exact entered w _ other
      · rfl
    | record w =>
      simp only [Provenance.step, Worker.step]
      split
      · exact transacted w _ _ other
      · exact transacted w _ _ other
      · rfl
    | action op => rfl

/-- Where process_next leaves its worker. -/
def endPhase : Except Error Bool → Phase
  | .ok _ => .idle
  | .error _ => .stopped

theorem returns_phase {s : Worker.State n} {e : Provenance.Event n} {w : Fin n}
    {result : Except Error Bool} (returned : returns crates fleet s e = some (w, result)) :
    actor e = some w ∧ (Provenance.step crates fleet s e).phase w = endPhase result := by
  cases e with
  | exited => cases returned
  | answered => cases returned
  | worker e =>
    cases e with
    | tick => cases returned
    | start => cases returned
    | stop => cases returned
    | crawled => cases returned
    | posted => cases returned
    | action => cases returned
    | reap v =>
      simp only [returns, answerOf] at returned
      split at returned
      · rename_i failed
        cases returned
        refine ⟨rfl, ?_⟩
        simp only [Provenance.step, Worker.step, State.transact, Function.update_self, failed]
        rfl
      · cases returned
    | lease v leaseToken attemptId locked =>
      simp only [returns, answerOf] at returned
      split at returned
      · rename_i failed
        cases returned
        refine ⟨rfl, ?_⟩
        simp only [Provenance.step, Worker.step, State.transact, Function.update_self, failed]
        rfl
      · cases returned
      · rename_i reply unleased answered
        cases returned
        refine ⟨rfl, ?_⟩
        simp only [Provenance.step, Worker.step, State.transact, Function.update_self, answered]
        unfold afterLease
        split
        · rename_i job same
          exact absurd (Except.ok.inj same) (unleased job)
        · rfl
        · rename_i failed
          cases failed
    | record v =>
      simp only [returns] at returned
      obtain ⟨op, recording, same⟩ := Option.map_eq_some_iff.mp returned
      cases same
      refine ⟨rfl, ?_⟩
      have ended : ∀ answer : Except Error Reply,
          afterRecord answer = endPhase (answer.map fun _ => true) := by
        intro answer
        cases answer <;> rfl
      cases phase : s.phase w with
      | completing =>
        rw [phase] at recording
        cases recording
        simp only [Provenance.step, Worker.step, phase, State.transact, Function.update_self, ended]
        rfl
      | failing =>
        rw [phase] at recording
        cases recording
        simp only [Provenance.step, Worker.step, phase, State.transact, Function.update_self, ended]
        rfl
      | _ =>
        rw [phase] at recording
        cases recording

variable (crates fleet once) in
/-- The steps of the workers that a step of the loop makes. -/
def lower (s : State n) : Event n → List (Provenance.Event n)
  | .enter w => [.worker (.start w)]
  | .process e => e ::
    match returns crates fleet s.workers e with
    | none => []
    | some (w, result) =>
      if (afterIteration fleet once w s.workers.clock result).rests then [.worker (.stop w)] else []
  | .wake _ => []
  | .shutdown w | .crash w => [.worker (.stop w)]

/-- A process outside the loop does nothing, and one that sleeps is between two iterations. -/
structure Settled (s : State n) : Prop where
  rests : ∀ w, (s.control w).rests = true → s.workers.phase w = .stopped
  sleeps : ∀ w wakeAt, s.control w = .sleeping wakeAt → s.workers.phase w = .idle

section Leave

variable (s : State n) (w : Fin n) (control : Control)

@[simp] theorem State.leave_control : (s.leave w control).control w = control := Function.update_self ..

theorem State.leave_control_of_ne {v : Fin n} (other : v ≠ w) :
    (s.leave w control).control v = s.control v := Function.update_of_ne other ..

@[simp] theorem State.leave_clock : (s.leave w control).workers.clock = s.workers.clock := by
  unfold State.leave
  split <;> rfl

theorem State.leave_phase_of_ne {v : Fin n} (other : v ≠ w) :
    (s.leave w control).workers.phase v = s.workers.phase v := by
  unfold State.leave
  split
  · exact Function.update_of_ne other ..
  · rfl

theorem State.leave_phase_rests (rests : control.rests = true) :
    (s.leave w control).workers.phase w = .stopped := by
  simp [State.leave, rests, State.enter]

theorem State.leave_phase_going (going : control.rests = false) :
    (s.leave w control).workers.phase w = s.workers.phase w := by
  simp [State.leave, going]

end Leave

/-- Only one process moves. -/
theorem Settled.move {s s' : State n} (h : Settled s) (w : Fin n)
    (others : ∀ v, v ≠ w → s'.control v = s.control v ∧ s'.workers.phase v = s.workers.phase v)
    (rests : (s'.control w).rests = true → s'.workers.phase w = .stopped)
    (sleeps : ∀ wakeAt, s'.control w = .sleeping wakeAt → s'.workers.phase w = .idle) : Settled s' where
  rests v := by
    by_cases mine : v = w
    · exact mine ▸ rests
    · rw [(others v mine).1, (others v mine).2]
      exact h.rests v
  sleeps v wakeAt := by
    by_cases mine : v = w
    · exact mine ▸ sleeps wakeAt
    · rw [(others v mine).1, (others v mine).2]
      exact h.sleeps v wakeAt

theorem Settled.leave {s : State n} (h : Settled s) (w : Fin n) {control : Control}
    (own : control.rests = false → s.workers.phase w = .idle) : Settled (s.leave w control) := by
  refine h.move w (fun v other => ⟨s.leave_control_of_ne w control other,
    s.leave_phase_of_ne w control other⟩) ?_ ?_
  · intro rests
    rw [s.leave_control] at rests
    exact s.leave_phase_rests w control rests
  · intro wakeAt sleeping
    rw [s.leave_control] at sleeping
    have going : control.rests = false := by
      rw [sleeping]
      rfl
    rw [s.leave_phase_going w control going]
    exact own going

theorem process_settled {s : State n} (h : Settled s) {e : Provenance.Event n}
    (awake : ∀ w ∈ actor e, s.control w = .iterating) :
    Settled { s with workers := Provenance.step crates fleet s.workers e } where
  rests v rests := by
    refine (step_phase fun acts => ?_).trans (h.rests v rests)
    rw [awake v acts] at rests
    cases rests
  sleeps v wakeAt sleeping := by
    refine (step_phase fun acts => ?_).trans (h.sleeps v wakeAt sleeping)
    cases (awake v acts).symm.trans sleeping

theorem afterIteration_going {w : Fin n} {now : Timestamp} {result : Except Error Bool}
    (going : (afterIteration fleet once w now result).rests = false) : endPhase result = .idle := by
  cases result with
  | error e => cases going
  | ok processed => rfl

theorem step_settled {s : State n} {e : Event n} (h : Settled s) (admits : Admits fleet s e) :
    Settled (step crates fleet once s e) := by
  cases e with
  | enter w =>
    refine h.move w (fun v other => ⟨Function.update_of_ne other .., Function.update_of_ne other ..⟩) ?_ ?_
    · intro rests
      simp only [step, Function.update_self] at rests
      cases rests
    · intro wakeAt sleeping
      simp only [step, Function.update_self] at sleeping
      cases sleeping
  | process e =>
    have processed := @process_settled crates n fleet s h e admits.2.1
    simp only [step]
    split
    · exact processed
    · rename_i w result returned
      refine processed.leave w fun going => ?_
      exact (returns_phase returned).2.trans (afterIteration_going going)
  | wake w =>
    obtain ⟨wakeAt, sleeping, _⟩ := admits
    refine h.move w (fun v other => ⟨Function.update_of_ne other .., rfl⟩) ?_ ?_
    · intro rests
      simp only [step, Function.update_self] at rests
      cases rests
    · intro _ other
      simp only [step, Function.update_self] at other
      cases other
  | shutdown w => exact h.leave w fun going => nomatch going
  | crash w => exact h.leave w fun going => nomatch going

/-- A step of the loop is a few steps of its workers. -/
theorem step_lower {s : State n} {e : Event n} (h : Settled s) (admits : Admits fleet s e) :
    Runs.Admissible (Provenance.step crates fleet) (Provenance.Admits fleet) s.workers
        (lower crates fleet once s e) ∧
      Runs.run (Provenance.step crates fleet) s.workers (lower crates fleet once s e) =
        (step crates fleet once s e).workers := by
  cases e with
  | enter w => exact ⟨⟨h.rests w admits, trivial⟩, rfl⟩
  | process e =>
    simp only [lower, step, Runs.Admissible, Runs.run]
    cases returns crates fleet s.workers e with
    | none => exact ⟨⟨admits.1, trivial⟩, rfl⟩
    | some after =>
      obtain ⟨w, result⟩ := after
      simp only [State.leave]
      cases (afterIteration fleet once w s.workers.clock result).rests with
      | false => exact ⟨⟨admits.1, trivial⟩, rfl⟩
      | true => exact ⟨⟨admits.1, trivial, trivial⟩, rfl⟩
  | wake w => exact ⟨trivial, rfl⟩
  | shutdown w => exact ⟨⟨trivial, trivial⟩, rfl⟩
  | crash w => exact ⟨⟨trivial, trivial⟩, rfl⟩

end Refinement

section

variable (crates : Crates) {n : Nat} (fleet : Fin n → Config) (once : Fin n → Bool)

/-- What is noted about the processes: that one entered the loop, leased an attempt, found no job, or
came to its end before it had recorded the outcome of the attempt it held. -/
inductive Note (n : Nat) where
  | entered (w : Fin n)
  | leased (w : Fin n) (attemptId : Uuid)
  | polled (w : Fin n) (now : Timestamp)
  | dropped (w : Fin n) (attemptId : Uuid)

/-- The attempt in the hands of a worker, dropped. -/
def dropped (s : Worker.State n) (w : Fin n) : List (Note n) :=
  ((s.phase w).job.map fun job => .dropped w job.attemptId).toList

def noteLease (w : Fin n) (now : Timestamp) : Except Error Reply → List (Note n)
  | .ok (.leased (some job)) => [.leased w job.attemptId]
  | .ok _ => [.polled w now]
  | .error _ => []

def noteRecord (s : Worker.State n) (w : Fin n) : Except Error Reply → List (Note n)
  | .ok _ => []
  | .error _ => dropped s w

def recordNotes (s : Worker.State n) (w : Fin n) : List (Note n) :=
  (recordOp (s.phase w)).elim [] fun op => noteRecord s w (answerOf crates s op)

def see (s : State n) : Event n → List (Note n)
  | .enter w => [.entered w]
  | .process (.worker (.lease w leaseToken attemptId locked)) =>
    noteLease w s.workers.clock
      (answerOf crates s.workers (leaseOp (fleet w) leaseToken attemptId locked))
  | .process (.worker (.record w)) => recordNotes crates s.workers w
  | .process _ | .wake _ => []
  | .shutdown w | .crash w => dropped s.workers w

def run (clock : Timestamp) (es : List (Event n)) : State n × List (Note n) :=
  Runs.run (Runs.logged (step crates fleet once) (see crates fleet)) (.initial n clock, []) es

def Admissible (clock : Timestamp) (es : List (Event n)) : Prop :=
  Runs.Admissible (step crates fleet once) (Admits fleet) (.initial n clock) es

end

section Runs

variable {crates : Crates} {n : Nat} {fleet : Fin n → Config} {once : Fin n → Bool}

theorem initial_settled (clock : Timestamp) : Settled (State.initial n clock) where
  rests _ _ := rfl
  sleeps _ _ sleeping := by cases sleeping

theorem step_backed {s : State n} {e : Event n} (h : Settled s) (admits : Admits fleet s e)
    (backed : ∃ journal, Provenance.Backed crates fleet s.workers journal) :
    ∃ journal, Provenance.Backed crates fleet (step crates fleet once s e).workers journal := by
  obtain ⟨admitted, reached⟩ := @step_lower crates n fleet once s e h admits
  rw [← reached]
  refine Runs.run_invariant (P := fun s => ∃ journal, Provenance.Backed crates fleet s journal) ?_
    backed admitted
  rintro s e ⟨journal, backed⟩ admits
  exact ⟨_, Provenance.step_backed backed admits⟩

/-- The processes of run_worker are workers: each of their runs is one of workers over the same tables. -/
theorem run_refines {clock : Timestamp} {es : List (Event n)}
    (admissible : Admissible crates fleet once clock es) :
    ∃ fs, Provenance.Admissible crates fleet clock fs ∧
      (Provenance.run crates fleet clock fs).1 = (run crates fleet once clock es).1.workers := by
  have steps : ∀ (s : State n) (e : Event n), Settled s → Admits fleet s e →
      Settled (step crates fleet once s e) ∧
        Runs.Admissible (Provenance.step crates fleet) (Provenance.Admits fleet) s.workers
          (lower crates fleet once s e) ∧
        Runs.run (Provenance.step crates fleet) s.workers (lower crates fleet once s e) =
          (step crates fleet once s e).workers :=
    fun s e h admits => ⟨step_settled h admits, step_lower h admits⟩
  obtain ⟨fs, admitted, reached⟩ := Runs.run_simulates steps (initial_settled clock) admissible
  refine ⟨fs, admitted, ?_⟩
  rw [Provenance.run, Runs.run_logged, run, Runs.run_logged]
  exact reached

theorem process_admits {s : State n} {e : Provenance.Event n} {w : Fin n} (acts : actor e = some w)
    (awake : s.control w = .iterating) (admits : Provenance.Admits fleet s.workers e)
    (inner : ∀ v, e ≠ .worker (.start v) ∧ e ≠ .worker (.stop v)) : Admits fleet s (.process e) := by
  refine ⟨admits, fun v same => ?_, inner⟩
  cases acts.symm.trans same
  exact awake

end Runs

end EalSync.Runtime.Worker.Loop
