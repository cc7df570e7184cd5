import EalSync.Runtime.Loop

/-! How often run_worker asks for a job. With --once a process leases at most one, and one that finds no
job sleeps before it asks again. -/
namespace EalSync.Runtime.Worker.Loop

open Provenance (Crates releasesCrates)

def Note.process {n : Nat} : Note n → Fin n
  | entered w | leased w _ | polled w _ | dropped w _ => w

section Since

variable {n : Nat} {notes new : List (Note n)} {w : Fin n} {note : Note n}

/-- Noted since the process entered the loop. -/
def Since (w : Fin n) (notes : List (Note n)) (note : Note n) : Prop :=
  ∃ before after, notes = before ++ note :: after ∧ .entered w ∉ after

theorem Since.append (since : Since w (notes ++ new) note) :
    (Since w notes note ∧ .entered w ∉ new) ∨ note ∈ new := by
  obtain ⟨before, after, split, absent⟩ := since
  rcases List.append_eq_append_iff.mp split with ⟨front, rfl, rfl⟩ | ⟨back, rfl, same⟩
  · exact .inr (List.mem_append_right _ List.mem_cons_self)
  · cases back with
    | nil =>
      rw [List.nil_append] at same
      exact .inr (same ▸ List.mem_cons_self)
    | cons first rest =>
      obtain ⟨rfl, rfl⟩ := List.cons.inj same
      refine .inl ⟨⟨before, rest, rfl, fun inside => ?_⟩, fun inside => ?_⟩
      · exact absent (List.mem_append_left _ inside)
      · exact absent (List.mem_append_right _ inside)

end Since

section

variable {crates : Crates} {n : Nat} {fleet : Fin n → Config} {once : Fin n → Bool}

/-- A due time has come, or the process sleeps until then, or it has ended. -/
def Waited (due clock : Timestamp) : Control → Prop
  | .sleeping wakeAt => due ≤ wakeAt
  | .iterating => due ≤ clock
  | .gone | .returned _ => True

/-- Where a process stands after what is noted since it entered the loop. -/
structure Paced (fleet : Fin n → Config) (once : Fin n → Bool) (s : State n) (notes : List (Note n))
    (w : Fin n) : Prop where
  single : once w = true → ∀ attemptId, Since w notes (.leased w attemptId) →
    (s.workers.phase w).job.isSome = true ∨ (s.control w).rests = true
  awake : once w = true → ∀ wakeAt, s.control w ≠ .sleeping wakeAt
  waits : ∀ now, Since w notes (.polled w now) →
    Waited (now + seconds (fleet w).idleSeconds) s.workers.clock (s.control w)

/-- The leases of --once, and the pauses between two polls of one process. -/
structure PollsSpaced (fleet : Fin n → Config) (once : Fin n → Bool) (notes : List (Note n)) : Prop where
  once : ∀ w, once w = true → ∀ before attemptId after, notes = before ++ .leased w attemptId :: after →
    ∀ earlier, ¬Since w before (.leased w earlier)
  polls : ∀ w before now after, notes = before ++ .polled w now :: after →
    ∀ earlier, Since w before (.polled w earlier) → earlier + seconds (fleet w).idleSeconds ≤ now

variable {s s' : State n} {notes new : List (Note n)}

theorem Waited.later {due clock clock' : Timestamp} {control : Control} (h : Waited due clock control)
    (later : clock ≤ clock') : Waited due clock' control := by
  cases control with
  | sleeping => exact h
  | iterating => exact le_trans h later
  | gone => trivial
  | returned => trivial

/-- What another process does changes nothing here. -/
theorem Paced.other {w : Fin n} (h : Paced fleet once s notes w)
    (phase : s'.workers.phase w = s.workers.phase w) (control : s'.control w = s.control w)
    (clock : s.workers.clock ≤ s'.workers.clock) (foreign : ∀ note ∈ new, note.process ≠ w) :
    Paced fleet once s' (notes ++ new) w where
  single only attemptId since := by
    rw [phase, control]
    rcases since.append with ⟨since, _⟩ | member
    · exact h.single only attemptId since
    · exact absurd rfl (foreign _ member)
  awake only := by
    rw [control]
    exact h.awake only
  waits now since := by
    rw [control]
    rcases since.append with ⟨since, _⟩ | member
    · exact (h.waits now since).later clock
    · exact absurd rfl (foreign _ member)

/-- A process at its end is held to nothing. -/
theorem Paced.ended {w : Fin n} (rests : (s.control w).rests = true) : Paced fleet once s notes w where
  single _ _ _ := .inr rests
  awake _ wakeAt sleeping := by
    rw [sleeping] at rests
    cases rests
  waits now since := by
    cases control : s.control w with
    | gone => trivial
    | returned => trivial
    | iterating =>
      rw [control] at rests
      cases rests
    | sleeping =>
      rw [control] at rests
      cases rests

theorem PollsSpaced.append (h : PollsSpaced fleet once notes) (few : new.length ≤ 1)
    (lease : ∀ w attemptId, once w = true → .leased w attemptId ∈ new →
      ∀ earlier, ¬Since w notes (.leased w earlier))
    (poll : ∀ w now, .polled w now ∈ new → ∀ earlier, Since w notes (.polled w earlier) →
      earlier + seconds (fleet w).idleSeconds ≤ now) : PollsSpaced fleet once (notes ++ new) := by
  have split : ∀ before note after, notes ++ new = before ++ note :: after →
      (∃ rest, notes = before ++ note :: rest) ∨ (note ∈ new ∧ before = notes) := by
    intro before note after same
    rcases List.append_eq_append_iff.mp same with ⟨front, rfl, rfl⟩ | ⟨back, rfl, tail⟩
    · simp only [List.length_append, List.length_cons] at few
      obtain rfl : front = [] := List.length_eq_zero_iff.mp (by omega)
      exact .inr ⟨List.mem_cons_self, List.append_nil _⟩
    · cases back with
      | nil =>
        rw [List.nil_append] at tail
        exact .inr ⟨tail ▸ List.mem_cons_self, (List.append_nil _).symm⟩
      | cons first rest =>
        obtain ⟨rfl, _⟩ := List.cons.inj tail
        exact .inl ⟨rest, rfl⟩
  constructor
  · intro w only before attemptId after same
    rcases split _ _ _ same with ⟨rest, old⟩ | ⟨member, rfl⟩
    · exact h.once w only before attemptId rest old
    · exact lease w attemptId only member
  · intro w before now after same
    rcases split _ _ _ same with ⟨rest, old⟩ | ⟨member, rfl⟩
    · exact h.polls w before now rest old
    · exact poll w now member

theorem noteLease_process {w : Fin n} {now : Timestamp} {answer : Except Error Reply} {note : Note n}
    (member : note ∈ noteLease w now answer) : note.process = w := by
  unfold noteLease at member
  split at member
  · rw [List.mem_singleton.mp member]
    rfl
  · rw [List.mem_singleton.mp member]
    rfl
  · cases member

theorem dropped_process {s : Worker.State n} {w : Fin n} {note : Note n} (member : note ∈ dropped s w) :
    ∃ attemptId, note = .dropped w attemptId := by
  obtain ⟨job, _, rfl⟩ := Option.map_eq_some_iff.mp (Option.mem_toList.mp member)
  exact ⟨_, rfl⟩

theorem recordNotes_dropped {s : Worker.State n} {w : Fin n} {note : Note n}
    (member : note ∈ recordNotes crates s w) : ∃ attemptId, note = .dropped w attemptId := by
  unfold recordNotes at member
  cases recording : recordOp (s.phase w) with
  | none =>
    rw [recording] at member
    cases member
  | some op =>
    rw [recording, Option.elim_some] at member
    cases answered : answerOf crates s op with
    | ok answer =>
      rw [answered] at member
      cases member
    | error e =>
      rw [answered] at member
      exact dropped_process member

/-- A step of process_next is noted by the worker that takes it. -/
theorem process_notes {e : Provenance.Event n} {note : Note n}
    (member : note ∈ see crates fleet s (.process e)) : actor e = some note.process := by
  cases e with
  | exited => cases member
  | answered => cases member
  | worker e =>
    cases e with
    | lease w leaseToken attemptId locked => exact congrArg some (noteLease_process member).symm
    | record w =>
      obtain ⟨_, rfl⟩ := recordNotes_dropped member
      rfl
    | _ => cases member

theorem see_few {e : Event n} : (see crates fleet s e).length ≤ 1 := by
  have few : ∀ (s : Worker.State n) (w : Fin n), (dropped s w).length ≤ 1 := by
    intro s w
    unfold dropped
    cases (s.phase w).job <;> simp
  cases e with
  | enter w => exact Nat.le_refl 1
  | wake w => exact Nat.zero_le 1
  | shutdown w => exact few s.workers w
  | crash w => exact few s.workers w
  | process e =>
    cases e with
    | exited => exact Nat.zero_le 1
    | answered => exact Nat.zero_le 1
    | worker e =>
      cases e with
      | lease w leaseToken attemptId locked =>
        simp only [see, noteLease]
        split <;> simp
      | record w =>
        simp only [see, recordNotes]
        cases recordOp (s.workers.phase w) with
        | none => exact Nat.zero_le 1
        | some op =>
          rw [Option.elim_some]
          cases answerOf crates s.workers op with
          | ok answer => exact Nat.zero_le 1
          | error e => exact few s.workers w
      | _ => exact Nat.zero_le 1

theorem process_clock {s : Worker.State n} {e : Provenance.Event n} (admits : Provenance.Admits fleet s e) :
    s.clock ≤ (Provenance.step crates fleet s e).clock := by
  cases e with
  | exited w outcome =>
    obtain ⟨job, deadline, phase⟩ := admits
    simp only [Provenance.step, phase]
    exact le_refl _
  | answered w answer =>
    obtain ⟨job, output, deadline, phase⟩ := admits
    simp only [Provenance.step, phase]
    exact le_refl _
  | worker e =>
    cases e with
    | tick now => exact admits
    | record w =>
      simp only [Provenance.step, Worker.step]
      split <;> exact le_refl _
    | crawled => exact admits.elim
    | posted => exact admits.elim
    | _ => exact le_refl _

/-- A process at work on a job. -/
theorem Paced.working {w : Fin n} (h : Paced fleet once s notes w) (awake : s.control w = .iterating)
    (control : s'.control w = .iterating) (clock : s.workers.clock ≤ s'.workers.clock)
    (job : (s'.workers.phase w).job.isSome = true) (unpolled : ∀ now, .polled w now ∉ new) :
    Paced fleet once s' (notes ++ new) w where
  single _ _ _ := .inl job
  awake _ wakeAt sleeping := by cases control.symm.trans sleeping
  waits now since := by
    rcases since.append with ⟨since, _⟩ | member
    · have waited := (h.waits now since).later clock
      rw [awake] at waited
      rwa [control]
    · exact absurd member (unpolled now)

/-- A process that is about to ask for a job. -/
theorem Paced.asking {w : Fin n} (h : Paced fleet once s notes w) (awake : s.control w = .iterating)
    (rests : (s.workers.phase w).job = none) (control : s'.control w = .iterating)
    (clock : s.workers.clock ≤ s'.workers.clock) : Paced fleet once s' notes w where
  single only attemptId since := by
    rcases h.single only attemptId since with working | ended
    · rw [rests] at working
      cases working
    · rw [awake] at ended
      cases ended
  awake _ wakeAt sleeping := by cases control.symm.trans sleeping
  waits now since := by
    have waited := (h.waits now since).later clock
    rw [awake] at waited
    rwa [control]

/-- A process whose process_next has returned. -/
theorem Paced.iterated {w : Fin n} (h : Paced fleet once s notes w) (awake : s.control w = .iterating)
    {result : Except Error Bool}
    (control : s'.control w = afterIteration fleet once w s.workers.clock result)
    (clock : s'.workers.clock = s.workers.clock)
    (polled : ∀ now, .polled w now ∈ new → result = .ok false ∧ now = s.workers.clock) :
    Paced fleet once s' (notes ++ new) w := by
  have waited : ∀ now, Since w notes (.polled w now) →
      now + seconds (fleet w).idleSeconds ≤ s.workers.clock := by
    intro now since
    have waited := h.waits now since
    rwa [awake] at waited
  cases result with
  | error e => exact .ended (by rw [control]; rfl)
  | ok processed =>
    cases only : once w with
    | true => exact .ended (by rw [control, afterIteration, if_pos only]; rfl)
    | false =>
      refine ⟨fun other => ?_, fun other => ?_, fun now since => ?_⟩
      · cases only.symm.trans other
      · cases only.symm.trans other
      · rw [control, afterIteration, only]
        cases processed with
        | true =>
          rcases since.append with ⟨since, _⟩ | member
          · exact (waited now since).trans_eq clock.symm
          · cases (polled now member).1
        | false =>
          rcases since.append with ⟨since, _⟩ | member
          · exact (waited now since).trans (le_add_of_nonneg_right (seconds_nonneg _))
          · rw [(polled now member).2]
            exact le_refl _

/-- A step of process_next that goes on, and one that ends it. -/
theorem process_going {e : Provenance.Event n} (going : returns crates fleet s.workers e = none) :
    step crates fleet once s (.process e) =
      { s with workers := Provenance.step crates fleet s.workers e } := by
  simp only [step, going]

theorem process_ending {e : Provenance.Event n} {w : Fin n} {result : Except Error Bool}
    (ending : returns crates fleet s.workers e = some (w, result)) :
    step crates fleet once s (.process e) =
      ({ s with workers := Provenance.step crates fleet s.workers e } : State n).leave w
        (afterIteration fleet once w s.workers.clock result) := by
  simp only [step, ending]

theorem returned_paced {e : Provenance.Event n} {w : Fin n} {r : Except Error Bool}
    (h : Paced fleet once s notes w) (awake : s.control w = .iterating)
    (ending : returns crates fleet s.workers e = some (w, r))
    (clock : (Provenance.step crates fleet s.workers e).clock = s.workers.clock)
    (polled : ∀ now, .polled w now ∈ see crates fleet s (.process e) →
      r = .ok false ∧ now = s.workers.clock) :
    Paced fleet once (step crates fleet once s (.process e))
      (notes ++ see crates fleet s (.process e)) w := by
  rw [process_ending ending]
  exact h.iterated awake (State.leave_control ..) ((State.leave_clock ..).trans clock) polled

theorem reap_paced {w : Fin n} (h : Paced fleet once s notes w) (awake : s.control w = .iterating)
    (rests : (s.workers.phase w).job = none) :
    Paced fleet once (step crates fleet once s (.process (.worker (.reap w))))
      (notes ++ see crates fleet s (.process (.worker (.reap w)))) w := by
  cases answered : answerOf crates s.workers .reapExpired with
  | error e =>
    refine returned_paced h awake (r := .error e) ?_ rfl fun _ member => ?_
    · simp only [returns, answered]
    · exact absurd member List.not_mem_nil
  | ok answer =>
    have going : returns crates fleet s.workers (.worker (.reap w)) = none := by
      simp only [returns, answered]
    rw [process_going going, show see crates fleet s (.process (.worker (.reap w))) = [] from rfl,
      List.append_nil]
    exact h.asking awake rests awake (le_refl _)

/-- A lease with a job goes on with it; any other ends the iteration, and without an error it is a poll. -/
theorem lease_paced {w : Fin n} (h : Paced fleet once s notes w) (awake : s.control w = .iterating)
    {leaseToken attemptId : Uuid} {locked : List Uuid} :
    Paced fleet once (step crates fleet once s (.process (.worker (.lease w leaseToken attemptId locked))))
      (notes ++ see crates fleet s (.process (.worker (.lease w leaseToken attemptId locked)))) w := by
  let op := leaseOp (fleet w) leaseToken attemptId locked
  have seen : see crates fleet s (.process (.worker (.lease w leaseToken attemptId locked))) =
      noteLease w s.workers.clock (answerOf crates s.workers op) := rfl
  cases answered : answerOf crates s.workers op with
  | error e =>
    refine returned_paced h awake (r := .error e) ?_ rfl fun now member => ?_
    · simp only [returns, op] at answered ⊢
      rw [answered]
    · rw [seen, answered] at member
      cases member
  | ok answer =>
    by_cases leased : ∃ job, answer = .leased (some job)
    · obtain ⟨job, rfl⟩ := leased
      have going : returns crates fleet s.workers (.worker (.lease w leaseToken attemptId locked)) =
          none := by
        simp only [returns, op] at answered ⊢
        rw [answered]
      rw [process_going going, seen, answered]
      refine h.working awake awake (le_refl _) ?_ fun now member => ?_
      · simp only [Provenance.step, Worker.step, State.transact, Function.update_self]
        rw [show (Op.exec crates.url s.workers.clock s.workers.db op).1 = _ from answered]
        rfl
      · cases List.mem_singleton.mp member
    · refine returned_paced h awake (r := .ok false) ?_ rfl fun now member => ⟨rfl, ?_⟩
      · simp only [returns, op] at answered ⊢
        rw [answered]
        split
        · rename_i failed
          cases failed
        · rename_i job same
          exact absurd ⟨job, Except.ok.inj same⟩ leased
        · rfl
      · rw [seen, answered] at member
        unfold noteLease at member
        split at member
        · rename_i job same
          exact absurd ⟨job, Except.ok.inj same⟩ leased
        · cases List.mem_singleton.mp member
          rfl
        · cases member

theorem record_paced {w : Fin n} (h : Paced fleet once s notes w) (awake : s.control w = .iterating)
    (recorded : (s.workers.phase w).recording.isSome = true) :
    Paced fleet once (step crates fleet once s (.process (.worker (.record w))))
      (notes ++ see crates fleet s (.process (.worker (.record w)))) w := by
  have clock : (Provenance.step crates fleet s.workers (.worker (.record w))).clock =
      s.workers.clock := by
    simp only [Provenance.step, Worker.step]
    split <;> rfl
  have recording : ∃ op, recordOp (s.workers.phase w) = some op := by
    cases phase : s.workers.phase w with
    | completing => exact ⟨_, rfl⟩
    | failing => exact ⟨_, rfl⟩
    | _ =>
      rw [phase] at recorded
      cases recorded
  obtain ⟨op, recording⟩ := recording
  refine returned_paced h awake (r := (answerOf crates s.workers op).map fun _ => true) ?_ clock
    fun now member => ?_
  · simp only [returns, recording, Option.map_some]
  · obtain ⟨_, same⟩ := recordNotes_dropped member
    cases same

theorem process_paced {e : Provenance.Event n} {w : Fin n} (acts : actor e = some w)
    (awake : s.control w = .iterating) (admits : Provenance.Admits fleet s.workers e)
    (inner : ∀ w, e ≠ .worker (.start w) ∧ e ≠ .worker (.stop w)) (h : Paced fleet once s notes w) :
    Paced fleet once (step crates fleet once s (.process e))
      (notes ++ see crates fleet s (.process e)) w := by
  cases e with
  | exited v outcome =>
    cases acts
    obtain ⟨job, deadline, phase⟩ := admits
    refine h.working awake awake ?_ ?_ fun _ => List.not_mem_nil
    · exact process_clock (e := .exited w outcome) ⟨job, deadline, phase⟩
    · simp only [step, returns, Provenance.step, phase, Worker.State.enter, Function.update_self,
        afterCrawl_job, Option.isSome_some]
  | answered v answer =>
    cases acts
    obtain ⟨job, output, deadline, phase⟩ := admits
    refine h.working awake awake ?_ ?_ fun _ => List.not_mem_nil
    · exact process_clock (e := .answered w answer) ⟨job, output, deadline, phase⟩
    · simp only [step, returns, Provenance.step, phase, Worker.State.enter, Function.update_self,
        afterPost_job, Option.isSome_some]
  | worker e =>
    cases e with
    | tick => cases acts
    | action => cases acts
    | crawled => exact admits.elim
    | posted => exact admits.elim
    | start v => exact absurd rfl (inner v).1
    | stop v => exact absurd rfl (inner v).2
    | reap v =>
      cases acts
      have phase : s.workers.phase w = .idle := admits
      exact reap_paced h awake (by rw [phase]; rfl)
    | lease v leaseToken attemptId locked =>
      cases acts
      exact lease_paced h awake
    | record v =>
      cases acts
      exact record_paced h awake admits

/-- A step of process_next moves no process but its own. -/
theorem process_others {e : Provenance.Event n} {w : Fin n} (other : actor e ≠ some w) :
    (step crates fleet once s (.process e)).workers.phase w = s.workers.phase w ∧
      (step crates fleet once s (.process e)).control w = s.control w ∧
      (step crates fleet once s (.process e)).workers.clock =
        (Provenance.step crates fleet s.workers e).clock := by
  have phase := @step_phase crates n fleet s.workers e w other
  cases ending : returns crates fleet s.workers e with
  | none =>
    rw [process_going ending]
    exact ⟨phase, rfl, rfl⟩
  | some after =>
    obtain ⟨v, result⟩ := after
    have apart : w ≠ v := fun same => other ((returns_phase ending).1.trans (congrArg some same.symm))
    rw [process_ending ending]
    exact ⟨(State.leave_phase_of_ne _ _ _ apart).trans phase, State.leave_control_of_ne _ _ _ apart,
      State.leave_clock ..⟩

/-- A process that enters the loop has leased nothing since, and has not polled. -/
theorem Paced.entered {w : Fin n} (h : s'.control w = .iterating) :
    Paced fleet once s' (notes ++ [.entered w]) w where
  single _ attemptId since := by
    rcases since.append with ⟨_, absent⟩ | member
    · exact absurd List.mem_cons_self absent
    · cases List.mem_singleton.mp member
  awake _ wakeAt sleeping := by cases h.symm.trans sleeping
  waits now since := by
    rcases since.append with ⟨_, absent⟩ | member
    · exact absurd List.mem_cons_self absent
    · cases List.mem_singleton.mp member

theorem leave_paced {v w : Fin n} (h : Paced fleet once s notes w) {control : Control}
    (rests : control.rests = true) :
    Paced fleet once (s.leave v control) (notes ++ dropped s.workers v) w := by
  by_cases mine : w = v
  · subst mine
    exact .ended (by rw [State.leave_control, rests])
  · refine h.other (State.leave_phase_of_ne _ _ _ mine) (State.leave_control_of_ne _ _ _ mine)
      (State.leave_clock ..).ge fun note member => ?_
    obtain ⟨_, rfl⟩ := dropped_process member
    exact Ne.symm mine

theorem step_paced {e : Event n} {w : Fin n} (h : Paced fleet once s notes w)
    (admits : Admits fleet s e) :
    Paced fleet once (step crates fleet once s e) (notes ++ see crates fleet s e) w := by
  cases e with
  | enter v =>
    by_cases mine : w = v
    · subst mine
      exact .entered (Function.update_self ..)
    · refine h.other (Function.update_of_ne mine ..) (Function.update_of_ne mine ..) (le_refl _) ?_
      intro note member
      rw [List.mem_singleton.mp member]
      exact Ne.symm mine
  | process e =>
    by_cases mine : actor e = some w
    · exact process_paced mine (admits.2.1 w mine) admits.1 admits.2.2 h
    · obtain ⟨phase, control, clock⟩ := @process_others crates n fleet once s e w mine
      refine h.other phase control (clock ▸ process_clock admits.1) fun note member same => ?_
      exact mine (same ▸ process_notes member)
  | wake v =>
    obtain ⟨wakeAt, sleeping, woken⟩ := admits
    rw [show see crates fleet s (.wake v) = [] from rfl]
    by_cases mine : w = v
    · subst mine
      have control : (step crates fleet once s (.wake w)).control w = .iterating :=
        Function.update_self ..
      refine ⟨fun only => absurd sleeping (h.awake only wakeAt),
        fun only => absurd sleeping (h.awake only wakeAt), fun now since => ?_⟩
      rw [List.append_nil] at since
      have due := h.waits now since
      rw [sleeping] at due
      rw [control]
      exact le_trans (b := wakeAt) due woken
    · refine h.other rfl (Function.update_of_ne mine ..) (le_refl _) fun note member => ?_
      cases member
  | shutdown v => exact leave_paced h rfl
  | crash v => exact leave_paced h rfl

/-- Only a lease is noted as one, or as a poll. -/
theorem see_lease {e : Event n} {note : Note n} (member : note ∈ see crates fleet s e)
    (asked : (∃ w attemptId, note = .leased w attemptId) ∨ ∃ w now, note = .polled w now) :
    ∃ leaseToken attemptId locked,
      e = .process (.worker (.lease note.process leaseToken attemptId locked)) ∧
      ∀ w now, note = .polled w now → now = s.workers.clock := by
  have undropped : ∀ w attemptId, note ≠ .dropped w attemptId := by
    rintro w attemptId rfl
    rcases asked with ⟨_, _, same⟩ | ⟨_, _, same⟩ <;> cases same
  cases e with
  | enter w =>
    obtain rfl := List.mem_singleton.mp member
    rcases asked with ⟨_, _, same⟩ | ⟨_, _, same⟩ <;> cases same
  | wake => cases member
  | shutdown w =>
    obtain ⟨attemptId, same⟩ := dropped_process member
    exact absurd same (undropped w attemptId)
  | crash w =>
    obtain ⟨attemptId, same⟩ := dropped_process member
    exact absurd same (undropped w attemptId)
  | process e =>
    cases e with
    | exited => cases member
    | answered => cases member
    | worker e =>
      cases e with
      | lease w leaseToken attemptId locked =>
        refine ⟨leaseToken, attemptId, locked, by rw [noteLease_process member], ?_⟩
        rintro v now rfl
        simp only [see, noteLease] at member
        split at member
        · cases List.mem_singleton.mp member
        · cases List.mem_singleton.mp member
          rfl
        · cases member
      | record w =>
        obtain ⟨attemptId, same⟩ := recordNotes_dropped member
        exact absurd same (undropped w attemptId)
      | _ => cases member

theorem step_spaced {e : Event n} (h : PollsSpaced fleet once notes) (paced : ∀ w, Paced fleet once s notes w)
    (admits : Admits fleet s e) : PollsSpaced fleet once (notes ++ see crates fleet s e) := by
  refine h.append see_few ?_ ?_
  · intro w attemptId only member earlier since
    obtain ⟨leaseToken, attemptId, locked, rfl, _⟩ := see_lease member (.inl ⟨_, _, rfl⟩)
    have asks : s.workers.phase w = .reaped := admits.1.1
    rcases (paced w).single only earlier since with working | ended
    · rw [asks] at working
      cases working
    · rw [admits.2.1 w rfl] at ended
      cases ended
  · intro w now member earlier since
    obtain ⟨leaseToken, attemptId, locked, rfl, polled⟩ := see_lease member (.inr ⟨_, _, rfl⟩)
    have waited := (paced w).waits earlier since
    rw [admits.2.1 w rfl] at waited
    rwa [polled w now rfl]

theorem initial_paced (clock : Timestamp) (w : Fin n) : Paced fleet once (State.initial n clock) [] w :=
  .ended rfl

theorem initial_spaced : PollsSpaced fleet once [] where
  once _ _ _ _ _ split := by simp at split
  polls _ _ _ _ split := by simp at split

end

/-- In every run of any number of run_worker processes: from its entry into the loop to its end a
process with --once leases at most one attempt, and after a call of process_next that found no job a
process asks for one again idle_seconds later at the earliest. -/
theorem loop_spaced (crates : Crates) {n : Nat} (fleet : Fin n → Config) (once : Fin n → Bool)
    (clock : Timestamp) (es : List (Event n)) (admissible : Admissible crates fleet once clock es) :
    PollsSpaced fleet once (run crates fleet once clock es).2 := by
  have logged := (Runs.admissible_logged (step crates fleet once) (see crates fleet)
    (State.initial n clock, []) es).mpr admissible
  refine (Runs.run_invariant (P := fun t : State n × List (Note n) =>
    (∀ w, Paced fleet once t.1 t.2 w) ∧ PollsSpaced fleet once t.2) ?_
    ⟨initial_paced clock, initial_spaced⟩ logged).2
  rintro t e ⟨paced, spaced⟩ admits
  exact ⟨fun w => step_paced (paced w) admits, step_spaced spaced paced admits⟩

/-- A process finds no job, sleeps, and asks again. -/
def waiting {n : Nat} (w : Fin n) : List (Event n) :=
  [.enter w, .process (.worker (.reap w)), .process (.worker (.lease w 20 30 [])),
    .process (.worker (.tick (seconds 10))), .wake w,
    .process (.worker (.reap w)), .process (.worker (.lease w 21 31 []))]

theorem waiting_admissible : Admissible releasesCrates defaultFleet (fun _ => false) 0 (waiting 0) := by
  refine ⟨rfl, process_admits rfl ?_ ?_ (by simp), process_admits rfl ?_ ⟨?_, ?_⟩ (by simp),
    ⟨?_, by simp [actor], by simp⟩, ⟨_, rfl, ?_⟩, process_admits rfl ?_ ?_ (by simp),
    process_admits rfl ?_ ⟨?_, ?_⟩ (by simp), trivial⟩
  · rfl
  · rfl
  · rfl
  · rfl
  · decide
  · change (0 : Timestamp) ≤ seconds 10
    decide
  · exact le_refl _
  · rfl
  · rfl
  · rfl
  · rfl
  · decide

theorem loop_spaced_waiting :
    Note.polled 0 (seconds 10) ∈
        (run releasesCrates defaultFleet (fun _ => false) 0 (waiting 0)).2 ∧
      PollsSpaced defaultFleet (fun _ => false)
        (run releasesCrates defaultFleet (fun _ => false) 0 (waiting 0)).2 :=
  ⟨List.mem_of_getElem? (i := 2) rfl,
    loop_spaced releasesCrates defaultFleet (fun _ => false) 0 (waiting 0) waiting_admissible⟩

end EalSync.Runtime.Worker.Loop
