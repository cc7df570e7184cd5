import EalSync.Runtime.Pacing
import EalSync.Runtime.Reports
import EalSync.Std.Slice
import EalSync.Std.Text

/-! How a run_worker process can end. A fleet whose leases cover its timeouts loses none to an error of
the queue, but for one whose own settings lease refuses, and that one never leases anything, and one
that records an outcome with a U+0000. -/
namespace EalSync.Runtime.Worker.Loop

open Provenance (Crates releasesCrates)

/-- What lease says to the settings of a process before it looks for a job. -/
def refusal (config : Config) : Option Error :=
  if (Str.trim config.owner).isEmpty || Str.len config.owner > 200 then
    some ⟨"lease owner must contain 1 to 200 bytes"⟩
  else if ¬(30 ≤ config.leaseSeconds ∧ config.leaseSeconds ≤ 3600) then
    some ⟨"lease_seconds must be between 30 and 3600"⟩
  else none

/-- The HOSTNAME in a default owner: at most 120 characters of it. -/
def ownerHost (hostname : Option Str) : Str :=
  ((hostname.map (·.take 120)).filter fun value => !(Str.trim value).isEmpty).getD "worker".toList

def defaultOwner (hostname : Option Str) (pid : Nat) (uuid : Str) : Str :=
  ownerHost hostname ++ '-' :: decimal pid ++ '-' :: uuid

/-- The settings that run_worker makes for itself, on a host with an ASCII name. -/
structure Defaulted (config : Config) (hostname : Option Str) (pid : Nat) (uuid : Str) : Prop where
  owner : config.owner = defaultOwner hostname pid uuid
  ascii : ∀ host ∈ hostname, ∀ c ∈ host, c.toNat < 128
  pids : pid < 2 ^ 32
  drawn : Str.len uuid = 36
  range : 30 ≤ config.leaseSeconds ∧ config.leaseSeconds ≤ 3600

/-- The process records an outcome that jsonb does not take, and this is what it is told. -/
def Unstored {n : Nat} (crates : Crates) (s : Worker.State n) (e : Provenance.Event n) (w : Fin n)
    (failed : Error) : Prop :=
  e = .worker (.record w) ∧ ∃ op, recordOp (s.phase w) = some op ∧ op.storable = false ∧
    answerOf crates s op = .error failed

/-- Commands and calls end within their timeouts. -/
def Prompt {n : Nat} (s : State n) : Event n → Prop
  | .process (.worker (.tick now)) => InTime s.workers now
  | .process (.worker _) | .process (.exited ..) | .process (.answered ..) => True
  | .enter _ | .wake _ | .shutdown _ | .crash _ => True

section

variable {crates : Crates} {n : Nat} {fleet : Fin n → Config} {once : Fin n → Bool}

theorem refusal_eq_none {config : Config} :
    refusal config = none ↔ LeaseAccepts config.owner config.leaseSeconds := by
  unfold refusal LeaseAccepts
  by_cases named : ((Str.trim config.owner).isEmpty || decide (Str.len config.owner > 200)) = true
  · rw [if_pos named]
    simp only [Bool.or_eq_true, decide_eq_true_eq] at named
    constructor
    · intro none
      cases none
    · rintro ⟨⟨filled, short⟩, _⟩
      rcases named with empty | long
      · rw [filled] at empty
        cases empty
      · omega
  · rw [if_neg named]
    simp only [Bool.not_eq_true, Bool.or_eq_false_iff, decide_eq_false_iff_not, not_lt] at named
    by_cases range : 30 ≤ config.leaseSeconds ∧ config.leaseSeconds ≤ 3600
    · rw [if_neg (not_not.mpr range)]
      exact ⟨fun _ => ⟨named, range⟩, fun _ => rfl⟩
    · rw [if_pos range]
      constructor
      · intro none
        cases none
      · rintro ⟨_, accepted⟩
        exact absurd accepted range

theorem decimal_ascii (number : Nat) : ∀ c ∈ decimal number, c.toNat < 128 := by
  intro c member
  rw [decimal, Nat.repr_eq_ofList_toDigits, String.toList_ofList] at member
  have digit := Char.isDigit_iff_toNat.mp (Nat.isDigit_of_mem_toDigits (by decide) (by decide) member)
  have nine : '9'.toNat = 57 := rfl
  omega

theorem len_defaultOwner {hostname : Option Str} {pid : Nat} {uuid : Str} (drawn : Str.len uuid = 36) :
    Str.len (defaultOwner hostname pid uuid) =
      Str.len (ownerHost hostname) + (decimal pid).length + 38 := by
  have dash : '-'.utf8Size = 1 := by decide
  rw [defaultOwner, Str.len_append, Str.len_append, Str.len_cons, Str.len_cons,
    Str.len_of_ascii (decimal_ascii pid), drawn, dash]
  omega

/-- A default owner counts characters where lease counts bytes, so a HOSTNAME outside ASCII can make
one that lease refuses. -/
theorem defaultOwner_accepted {hostname : Option Str} {pid : Nat} {uuid : Str}
    (drawn : Str.len uuid = 36) {leaseSeconds : Int} :
    LeaseAccepts (defaultOwner hostname pid uuid) leaseSeconds ↔
      Str.len (ownerHost hostname) + (decimal pid).length ≤ 162 ∧
        30 ≤ leaseSeconds ∧ leaseSeconds ≤ 3600 := by
  have filled : (Str.trim (defaultOwner hostname pid uuid)).isEmpty = false := by
    rw [List.isEmpty_eq_false_iff]
    intro blank
    have dash := Str.trim_eq_nil.mp blank '-' (by simp [defaultOwner])
    cases dash
  rw [LeaseAccepts, len_defaultOwner drawn]
  constructor
  · rintro ⟨⟨_, short⟩, range⟩
    exact ⟨by omega, range⟩
  · rintro ⟨short, range⟩
    exact ⟨⟨filled, by omega⟩, range⟩

theorem Defaulted.unrefused {config : Config} {hostname : Option Str} {pid : Nat} {uuid : Str}
    (h : Defaulted config hostname pid uuid) : refusal config = none := by
  have digits : (decimal pid).length ≤ 10 := by
    rw [decimal, Nat.repr_eq_ofList_toDigits, String.toList_ofList,
      Nat.length_toDigits_le_iff (by decide) (by decide)]
    exact h.pids.trans (by decide)
  have host : Str.len (ownerHost hostname) ≤ 120 := by
    unfold ownerHost
    cases named : hostname with
    | none => decide
    | some value =>
      rw [Option.map_some, Option.filter_some]
      split
      · rw [Option.getD_some,
          Str.len_of_ascii fun c member => h.ascii value named c (List.mem_of_mem_take member)]
        exact List.length_take_le ..
      · decide
  rw [refusal_eq_none, h.owner]
  exact (defaultOwner_accepted h.drawn).mpr ⟨by omega, h.range⟩

theorem lease_refused {config : Config} {e : Error} (refused : refusal config = some e)
    {leaseToken attemptId : Uuid} {locked : List Uuid} {now : Timestamp} {db : Database} :
    (lease config.owner config.leaseSeconds leaseToken attemptId locked now db).1 = .error e := by
  unfold refusal at refused
  unfold lease
  split at refused
  · rename_i named
    rw [if_pos named]
    cases refused
    rfl
  · rename_i named
    rw [if_neg named]
    split at refused
    · rename_i range
      rw [if_pos range]
      cases refused
      rfl
    · cases refused

theorem answer_refused {s : Worker.State n} {config : Config} {e : Error}
    (refused : refusal config = some e) {leaseToken attemptId : Uuid} {locked : List Uuid} :
    answerOf crates s (leaseOp config leaseToken attemptId locked) = .error e := by
  simp only [answerOf, leaseOp, Op.exec, reply, lease_refused refused, Except.map]

/-- What lease does not refuse outright it answers, with a job or without one. -/
theorem lease_answered {db : Database} (consistent : Consistent db) {config : Config}
    (accepts : LeaseAccepts config.owner config.leaseSeconds) {leaseToken attemptId : Uuid}
    {locked : List Uuid} (fresh : (leaseOp config leaseToken attemptId locked).Fresh db) (now : Timestamp) :
    ∃ job, (lease config.owner config.leaseSeconds leaseToken attemptId locked now db).1 = .ok job := by
  cases found : leaseCandidate now locked db with
  | some candidate => exact ⟨_, by rw [consistent.lease_eq accepts fresh found]⟩
  | none =>
    have checked : ((Str.trim config.owner).isEmpty || decide (Str.len config.owner > 200)) = false := by
      simp [accepts.1.1, accepts.1.2]
    refine ⟨none, ?_⟩
    unfold lease
    rw [checked, if_neg Bool.false_ne_true, if_neg (not_not.mpr accepts.2), found]
    rfl

theorem recordOp_resolves {phase : Phase} {op : Op} (recording : recordOp phase = some op) :
    ∃ job, phase.job = some job ∧ op.resolves = some job := by
  cases phase with
  | completing job =>
    cases recording
    exact ⟨job, rfl, rfl⟩
  | failing job =>
    cases recording
    exact ⟨job, rfl, rfl⟩
  | _ => cases recording

/-- The only errors that end process_next are the refusal of its own settings, and that of an outcome
that jsonb does not take. -/
theorem returns_error {s : Worker.State n} (covered : Covered fleet s) (receipted : AllReceipted s)
    {e : Provenance.Event n} (admits : Provenance.Admits fleet s e) {w : Fin n} {failed : Error}
    (ending : returns crates fleet s e = some (w, .error failed)) :
    refusal (fleet w) = some failed ∨ Unstored crates s e w failed := by
  cases e with
  | exited => cases ending
  | answered => cases ending
  | worker e =>
    cases e with
    | tick => cases ending
    | start => cases ending
    | stop => cases ending
    | crawled => cases ending
    | posted => cases ending
    | action => cases ending
    | reap v =>
      have reaped : ∃ answer, answerOf crates s .reapExpired = .ok answer :=
        ⟨_, by rw [answerOf, Op.exec, covered.consistent.reapExpired_eq]; rfl⟩
      obtain ⟨answer, reaped⟩ := reaped
      simp only [returns, reaped] at ending
      cases ending
    | lease v leaseToken attemptId locked =>
      cases refused : refusal (fleet v) with
      | some other =>
        simp only [returns, answer_refused refused] at ending
        cases ending
        exact .inl refused
      | none =>
        obtain ⟨job, leased⟩ :=
          lease_answered covered.consistent (refusal_eq_none.mp refused) admits.2 s.clock
        have answered : answerOf crates s (leaseOp (fleet v) leaseToken attemptId locked) =
            .ok (.leased job) := by
          simp only [answerOf, leaseOp, Op.exec, reply, leased, Except.map]
        simp only [returns, answered] at ending
        cases job <;> cases ending
    | record v =>
      simp only [returns] at ending
      obtain ⟨op, recording, same⟩ := Option.map_eq_some_iff.mp ending
      cases stored : op.storable with
      | true =>
        obtain ⟨job, working, resolves⟩ := recordOp_resolves recording
        obtain ⟨expiry, held, _⟩ := (covered.held v).covers working
        obtain ⟨answer, heard⟩ :=
          report_heard crates.url covered.consistent (receipted v job working) held resolves stored s.clock
        rw [answerOf, heard] at same
        cases same
      | false =>
        obtain ⟨rfl, failing⟩ := Prod.mk.inj same
        refine .inr ⟨rfl, op, recording, stored, ?_⟩
        cases answered : answerOf crates s op with
        | error e =>
          rw [answered] at failing
          cases failing
          rfl
        | ok answer =>
          rw [answered] at failing
          cases failing

/-- What the workers keep, the processes keep. -/
theorem step_inherits {P : Worker.State n → Prop}
    (keeps : ∀ s e, P s → Worker.Admits fleet s e → P (Worker.step crates.url fleet s e)) {s : State n}
    (h : P s.workers) (settled : Settled s) {e : Event n} (admits : Admits fleet s e)
    (prompt : Prompt s e) : P (step crates fleet once s e).workers := by
  have stopped : ∀ (s : State n) (w : Fin n) (control : Control), P s.workers →
      P (s.leave w control).workers := by
    intro s w control h
    unfold State.leave
    split
    · exact keeps s.workers (.stop w) h trivial
    · exact h
  cases e with
  | enter w => exact keeps s.workers (.start w) h (settled.rests w admits)
  | wake w => exact h
  | shutdown w => exact stopped s w _ h
  | crash w => exact stopped s w _ h
  | process e =>
    have processed : P (Provenance.step crates fleet s.workers e) := by
      cases e with
      | exited w outcome =>
        obtain ⟨job, deadline, phase⟩ := admits.1
        have same : Provenance.step crates fleet s.workers (.exited w outcome) =
            Worker.step crates.url fleet s.workers
              (.crawled w (Provenance.crawl crates fleet w job outcome)) := by
          simp only [Provenance.step, Worker.step, phase]
        rw [same]
        exact keeps _ _ h ⟨job, deadline, phase⟩
      | answered w answer =>
        obtain ⟨job, output, deadline, phase⟩ := admits.1
        have same : Provenance.step crates fleet s.workers (.answered w answer) =
            Worker.step crates.url fleet s.workers
              (.posted w (Provenance.post crates fleet w job output answer)) := by
          simp only [Provenance.step, Worker.step, phase]
        rw [same]
        exact keeps _ _ h ⟨job, output, deadline, phase⟩
      | worker e =>
        cases e with
        | tick now => exact keeps _ (.tick now) h prompt
        | crawled => exact admits.1.elim
        | posted => exact admits.1.elim
        | start w => exact keeps _ (.start w) h admits.1
        | stop w => exact keeps _ (.stop w) h admits.1
        | reap w => exact keeps _ (.reap w) h admits.1
        | lease w leaseToken attemptId locked =>
          exact keeps _ (.lease w leaseToken attemptId locked) h admits.1
        | record w => exact keeps _ (.record w) h admits.1
        | action op => exact keeps _ (.action op) h admits.1
    simp only [step]
    split
    · exact processed
    · exact stopped _ _ _ processed

theorem afterIteration_error {w : Fin n} {now : Timestamp} {result : Except Error Bool} {failed : Error}
    (ended : afterIteration fleet once w now result = .returned (.error failed)) :
    result = .error failed := by
  cases result with
  | error e =>
    cases ended
    rfl
  | ok processed =>
    cases only : once w <;> cases processed <;> simp [afterIteration, only] at ended

theorem see_leased {s : State n} {e : Event n} {w : Fin n} {attemptId : Uuid}
    (member : .leased w attemptId ∈ see crates fleet s e) : refusal (fleet w) = none := by
  obtain ⟨leaseToken, drawn, locked, rfl, _⟩ := see_lease member (.inl ⟨w, attemptId, rfl⟩)
  cases refused : refusal (fleet w) with
  | none => rfl
  | some failed =>
    simp only [see, Note.process, answer_refused refused] at member
    cases member

theorem step_ends {s : State n} {e : Event n} {w : Fin n} {failed : Error}
    (h : s.control w = .returned (.error failed) → refusal (fleet w) = some failed)
    (covered : Covered fleet s.workers) (receipted : AllReceipted s.workers) (admits : Admits fleet s e) :
    ((step crates fleet once s e).control w = .returned (.error failed) →
      refusal (fleet w) = some failed) ∨
      ∃ inner, e = .process inner ∧ Unstored crates s.workers inner w failed := by
  have moved : ∀ (v : Fin n) (control : Control), control ≠ .returned (.error failed) →
      (Function.update s.control v control) w = .returned (.error failed) →
      refusal (fleet w) = some failed := by
    intro v control goesOn ended
    by_cases mine : w = v
    · subst mine
      rw [Function.update_self] at ended
      exact absurd ended goesOn
    · rw [Function.update_of_ne mine] at ended
      exact h ended
  cases e with
  | enter v => exact .inl (moved v _ (by rintro ⟨⟩))
  | wake v => exact .inl (moved v _ (by rintro ⟨⟩))
  | shutdown v => exact .inl (moved v _ (by rintro ⟨⟩))
  | crash v => exact .inl (moved v _ (by rintro ⟨⟩))
  | process e =>
    cases ending : returns crates fleet s.workers e with
    | none =>
      rw [process_going ending]
      exact .inl h
    | some after =>
      obtain ⟨v, result⟩ := after
      rw [process_ending ending]
      by_cases same : afterIteration fleet once v s.workers.clock result = .returned (.error failed)
      · obtain rfl := afterIteration_error same
        rcases returns_error covered receipted admits.1 ending with refused | unstored
        · left
          intro ended
          by_cases mine : w = v
          · exact mine ▸ refused
          · rw [State.leave_control_of_ne _ _ _ mine] at ended
            exact h ended
        · by_cases mine : w = v
          · exact .inr ⟨e, rfl, mine ▸ unstored⟩
          · left
            intro ended
            rw [State.leave_control_of_ne _ _ _ mine] at ended
            exact h ended
      · exact .inl (moved v _ same)

end

/-- How the processes of a run can end by an error: by the refusal of the settings of a process, which
then has leased nothing, or at an outcome that jsonb does not take. -/
structure Enduring (crates : Crates) {n : Nat} (fleet : Fin n → Config) (once : Fin n → Bool)
    (clock : Timestamp) (es : List (Event n)) : Prop where
  ends : ∀ w failed, (run crates fleet once clock es).1.control w = .returned (.error failed) →
    refusal (fleet w) = some failed ∨ ∃ before e after, es = before ++ .process e :: after ∧
      Unstored crates (run crates fleet once clock before).1.workers e w failed
  leases : ∀ w attemptId, .leased w attemptId ∈ (run crates fleet once clock es).2 →
    refusal (fleet w) = none
  defaults : ∀ w hostname pid uuid, Defaulted (fleet w) hostname pid uuid → refusal (fleet w) = none

/-- In every run of any number of run_worker processes whose leases cover their timeouts, a process ends
by an error only when lease refuses its owner or its lease_seconds, with the text of that refusal, or when
it records an outcome that jsonb does not take. One that is refused never leases an attempt, and a default
owner is not refused. -/
theorem loop_endures (crates : Crates) {n : Nat} (fleet : Fin n → Config) (once : Fin n → Bool)
    (fits : ∀ w, Fits (fleet w)) (clock : Timestamp) (es : List (Event n))
    (admissible : Admissible crates fleet once clock es)
    (prompt : Runs.Admissible (step crates fleet once) Prompt (.initial n clock) es) :
    Enduring crates fleet once clock es where
  ends w failed ended := by
    have kept : ∀ (s : Worker.State n) (e : Worker.Event n), Covered fleet s ∧ AllReceipted s →
        Worker.Admits fleet s e → Covered fleet (Worker.step crates.url fleet s e) ∧
          AllReceipted (Worker.step crates.url fleet s e) :=
      fun s e h admits => ⟨step_covered fits h.1 admits, step_receipted h.2 admits⟩
    have sound := Runs.admissible_invariant
      (P := fun s : State n => Settled s ∧ Covered fleet s.workers ∧ AllReceipted s.workers)
      (fun s e h admits => ⟨step_settled h.1 admits.1, step_inherits kept h.2 h.1 admits.1 admits.2⟩)
      ⟨initial_settled clock, initial_covered fleet clock, by rintro w job ⟨⟩⟩
      (Runs.admissible_and.mpr ⟨admissible, prompt⟩)
    have reached : ∀ es, (run crates fleet once clock es).1 =
        Runs.run (step crates fleet once) (.initial n clock) es := fun es => Runs.run_logged ..
    rw [reached] at ended
    rcases Runs.run_unless
      (Q := fun s e => ∃ inner, e = .process inner ∧ Unstored crates s.workers inner w failed)
      (P := fun s : State n => s.control w = .returned (.error failed) → refusal (fleet w) = some failed)
      (fun s e h guard => step_ends h guard.2.2.1 guard.2.2.2 guard.1.1) (by rintro ⟨⟩) sound with
      refused | ⟨before, _, after, split, e, rfl, unstored⟩
    · exact .inl (refused ended)
    · exact .inr ⟨before, e, after, split, by rw [reached]; exact unstored⟩
  leases w attemptId := by
    have logged := (Runs.admissible_logged (step crates fleet once) (see crates fleet)
      (State.initial n clock, []) es).mpr admissible
    refine Runs.run_invariant (P := fun t : State n × List (Note n) =>
      .leased w attemptId ∈ t.2 → refusal (fleet w) = none) ?_ (by rintro ⟨⟩) logged
    intro t e h _ member
    exact (List.mem_append.mp member).elim h see_leased
  defaults _ _ _ _ settings := settings.unrefused

/-- A process that asks for leases of 29 seconds. -/
def briefFleet : Fin 2 → Config := fun _ => config 29 5 (by decide)

theorem loop_endures_brief :
    (run releasesCrates briefFleet (fun _ => false) 0
        [.enter 0, .process (.worker (.reap 0)), .process (.worker (.lease 0 20 30 []))]).1.control 0 =
        .returned (.error ⟨"lease_seconds must be between 30 and 3600"⟩) ∧
      refusal (briefFleet 0) = some ⟨"lease_seconds must be between 30 and 3600"⟩ := by
  have fits : (5 : Int) + 20 ≤ 29 := by decide
  have ended : (run releasesCrates briefFleet (fun _ => false) 0
      [.enter 0, .process (.worker (.reap 0)), .process (.worker (.lease 0 20 30 []))]).1.control 0 =
      .returned (.error ⟨"lease_seconds must be between 30 and 3600"⟩) := rfl
  have admissible : Admissible releasesCrates briefFleet (fun _ => false) 0
      [.enter 0, .process (.worker (.reap 0)), .process (.worker (.lease 0 20 30 []))] := by
    refine ⟨rfl, process_admits rfl ?_ ?_ (by simp), process_admits rfl ?_ ⟨?_, ?_⟩ (by simp), trivial⟩
    · rfl
    · rfl
    · rfl
    · rfl
    · decide
  refine ⟨ended, ?_⟩
  rcases (loop_endures releasesCrates briefFleet (fun _ => false) (fun _ => fits) 0 _ admissible
    ⟨trivial, trivial, trivial, trivial⟩).ends 0 _ ended with refused | ⟨before, e, after, split, rfl, _⟩
  · exact refused
  · have member := List.mem_append_right before
      (List.mem_cons_self (a := .process (.worker (.record 0))) (l := after))
    rw [← split] at member
    simp at member

end EalSync.Runtime.Worker.Loop
