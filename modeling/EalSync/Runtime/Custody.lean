import EalSync.Runtime.Loop

/-! What becomes of the leases that run_worker takes. A leased receipt is in the hands of a worker, or
its worker came to an end first. -/
namespace EalSync.Runtime.Worker.Loop

open Provenance (Crates releasesCrates)

section

variable {crates : Crates} {n : Nat} {fleet : Fin n → Config} {once : Fin n → Bool}
  {s : Worker.State n} {notes new : List (Note n)}

/-- Every leased receipt is held by a worker or was dropped by one. -/
def LeasesAccounted (s : Worker.State n) (notes : List (Note n)) : Prop :=
  ∀ a ∈ s.db.attempts, a.status = .leased →
    (∃ w, ∃ job ∈ (s.phase w).job, job.attemptId = a.id) ∨ ∃ w, .dropped w a.id ∈ notes

theorem LeasesAccounted.move (h : LeasesAccounted s notes) {op : Op} {result : Except Error Reply}
    {db' : Database} (did : Effect s.clock s.db op result db') (clock : Timestamp) {phase : Fin n → Phase}
    (keeps : ∀ w, ∀ job ∈ (s.phase w).job, (phase w).job = some job ∨ .dropped w job.attemptId ∈ new ∨
      ∀ a ∈ db'.attempts, a.id = job.attemptId → a.status ≠ .leased)
    (hands : ∀ job, result = .ok (.leased (some job)) → ∃ w, (phase w).job = some job) :
    LeasesAccounted ⟨clock, db', phase⟩ (notes ++ new) := by
  intro a member opened
  cases effect_attempt did member with
  | kept _ _ _ old =>
    rcases h a old opened with ⟨w, job, working, id⟩ | ⟨w, dropped⟩
    · rcases keeps w job working with still | dropped | closed
      · exact .inl ⟨w, job, still, id⟩
      · exact .inr ⟨w, List.mem_append_right _ (id ▸ dropped)⟩
      · exact absurd opened (closed a member id.symm)
    · exact .inr ⟨w, List.mem_append_left _ dropped⟩
  | leased owner leaseSeconds leaseToken attemptId locked candidate =>
    obtain ⟨w, working⟩ := hands _ rfl
    exact .inl ⟨w, _, working, rfl⟩
  | completed => cases opened
  | failed => cases opened
  | abandoned => cases opened

/-- The record of an outcome closes the receipt, whatever it says. -/
theorem recorded_closed {now : Timestamp} {db db' : Database} (consistent : Consistent db) {op : Op}
    {job : CrawlJob} (resolves : op.resolves = some job) {answer : Reply}
    (did : Effect now db op (.ok answer) db') :
    ∀ a ∈ db'.attempts, a.id = job.attemptId → a.status ≠ .leased := by
  have closed : ∀ (r : Resolution), (∀ b, (r.setAttempt b).status ≠ .leased) →
      Table.affected job.matchesAttempt db.attempts = 1 → Table.affected job.matchesJob db.jobs = 1 →
      ∀ a ∈ Table.update job.matchesAttempt r.setAttempt db.attempts, a.id = job.attemptId →
        a.status ≠ .leased := by
    intro r closes attempt released a member id opened
    obtain ⟨_, _, b, inside, _, _, sameId, token, _, open'⟩ := consistent.resolves attempt released
    rcases Table.mem_update.mp member with ⟨c, _, _, rfl⟩ | ⟨old, unmatched⟩
    · exact closes c opened
    · rw [Table.unique_row consistent.attemptIds old inside (id.trans sameId.symm),
        CrawlJob.matchesAttempt_iff.mpr ⟨sameId, token, open'⟩] at unmatched
      cases unmatched
  cases did with
  | completed _ output receipt attempt released =>
    obtain rfl := Option.some.inj resolves
    exact closed _ (by rintro _ ⟨⟩) attempt released
  | failed _ errorCode details attempt released =>
    obtain rfl := Option.some.inj resolves
    exact closed _ (by rintro _ ⟨⟩) attempt released
  | inserted => cases resolves
  | reseeded => cases resolves
  | idle => cases resolves
  | leased => cases resolves
  | reaped => cases resolves

theorem mem_dropped {w : Fin n} {job : CrawlJob} (working : (s.phase w).job = some job) :
    Note.dropped w job.attemptId ∈ dropped s w := by
  simp [dropped, working]

theorem recorded_accounted (h : LeasesAccounted s notes) (consistent : Consistent s.db) {w : Fin n}
    {job : CrawlJob} (working : (s.phase w).job = some job) {op : Op} (resolves : op.resolves = some job) :
    LeasesAccounted (s.transact crates.url op w afterRecord)
      (notes ++ noteRecord s w (answerOf crates s op)) := by
  have did := exec_effect crates.url s.clock s.db op
  refine h.move did s.clock (fun v i held => ?_) fun i leased => ?_
  · by_cases mine : v = w
    · subst mine
      obtain rfl := Option.some.inj (working.symm.trans held)
      cases answered : answerOf crates s op with
      | error e => exact .inr (.inl (mem_dropped working))
      | ok answer =>
        rw [answerOf] at answered
        rw [answered] at did
        exact .inr (.inr (recorded_closed consistent resolves did))
    · simp only [Function.update_of_ne mine]
      exact .inl held
  · refine absurd leased (Provenance.unleased did (fun _ _ _ _ _ same => ?_) i)
    rw [same] at resolves
    cases resolves

/-- A worker that goes on, or ends an iteration without a job, drops nothing. -/
theorem LeasesAccounted.enter (h : LeasesAccounted s notes) {w : Fin n} {phase : Phase}
    (keeps : ∀ job ∈ (s.phase w).job, phase.job = some job ∨ .dropped w job.attemptId ∈ new) :
    LeasesAccounted (s.enter w phase) (notes ++ new) := by
  refine h.move (.refused .reapExpired ⟨""⟩) s.clock (fun v job held => ?_) (by rintro _ ⟨⟩)
  by_cases mine : v = w
  · subst mine
    rw [Function.update_self]
    exact (keeps job held).imp_right .inl
  · rw [Function.update_of_ne mine]
    exact .inl held

/-- A worker without a job asks the queue, and holds what it is given. -/
theorem LeasesAccounted.ask (h : LeasesAccounted s notes) {w : Fin n}
    (rests : (s.phase w).job = none) (op : Op) {next : Except Error Reply → Phase}
    (hands : ∀ job, answerOf crates s op = .ok (.leased (some job)) →
      (next (.ok (.leased (some job)))).job = some job) :
    LeasesAccounted (s.transact crates.url op w next) (notes ++ new) := by
  refine h.move (exec_effect crates.url s.clock s.db op) s.clock (fun v job held => ?_) fun job leased => ?_
  · by_cases mine : v = w
    · subst mine
      cases rests.symm.trans held
    · exact .inl (by rw [Function.update_of_ne mine]; exact held)
  · refine ⟨w, ?_⟩
    rw [Function.update_self, leased]
    exact hands job leased

theorem process_accounted (h : LeasesAccounted s notes) (consistent : Consistent s.db)
    (control : Fin n → Control) {e : Provenance.Event n} (admits : Provenance.Admits fleet s e)
    (inner : ∀ w, e ≠ .worker (.start w) ∧ e ≠ .worker (.stop w)) :
    LeasesAccounted (Provenance.step crates fleet s e)
      (notes ++ see crates fleet ⟨s, control⟩ (.process e)) := by
  cases e with
  | exited w outcome =>
    obtain ⟨job, deadline, phase⟩ := admits
    simp only [Provenance.step, phase]
    refine h.enter fun i held => .inl ?_
    rw [phase] at held
    exact (afterCrawl_job ..).trans held
  | answered w answer =>
    obtain ⟨job, output, deadline, phase⟩ := admits
    simp only [Provenance.step, phase]
    refine h.enter fun i held => .inl ?_
    rw [phase] at held
    exact (afterPost_job ..).trans held
  | worker e =>
    cases e with
    | tick now => exact h.move (.refused .reapExpired ⟨""⟩) now (fun _ _ held => .inl held) (by rintro _ ⟨⟩)
    | start w => exact absurd rfl (inner w).1
    | stop w => exact absurd rfl (inner w).2
    | reap w =>
      have rests : (s.phase w).job = none := by
        rw [admits]
        rfl
      refine h.ask rests .reapExpired fun job leased => ?_
      exact absurd leased (Provenance.unleased (exec_effect crates.url s.clock s.db .reapExpired)
        (by simp) job)
    | lease w leaseToken attemptId locked =>
      have rests : (s.phase w).job = none := by
        rw [admits.1]
        rfl
      exact h.ask rests _ fun job _ => rfl
    | crawled => exact admits.elim
    | posted => exact admits.elim
    | record w =>
      cases phase : s.phase w with
      | completing =>
        simp only [Provenance.step, Worker.step, see, recordNotes, phase, recordOp,
          Option.elim_some]
        exact recorded_accounted h consistent (by rw [phase]; rfl) rfl
      | failing =>
        simp only [Provenance.step, Worker.step, see, recordNotes, phase, recordOp,
          Option.elim_some]
        exact recorded_accounted h consistent (by rw [phase]; rfl) rfl
      | _ =>
        simp only [Provenance.step, Worker.step, see, recordNotes, phase, recordOp, Option.elim_none,
          List.append_nil]
        exact h
    | action op =>
      refine h.move (exec_effect crates.url s.clock s.db op) s.clock (fun _ _ held => .inl held) ?_
      intro job leased
      cases op with
      | seed => exact absurd leased (Provenance.unleased (exec_effect ..) (by simp) job)
      | reapExpired => exact absurd leased (Provenance.unleased (exec_effect ..) (by simp) job)
      | lease => exact admits.2.elim
      | complete => exact admits.2.elim
      | fail => exact admits.2.elim

/-- A process that leaves the loop without an attempt, or with one that is noted. -/
theorem leave_accounted {s : State n} (h : LeasesAccounted s.workers notes) {w : Fin n} {control : Control}
    (drops : ∀ job ∈ (s.workers.phase w).job, .dropped w job.attemptId ∈ new) :
    LeasesAccounted (s.leave w control).workers (notes ++ new) := by
  unfold State.leave
  split
  · exact h.enter fun job held => .inr (drops job held)
  · exact fun a member opened => (h a member opened).imp_right fun ⟨v, dropped⟩ =>
      ⟨v, List.mem_append_left _ dropped⟩

theorem step_accounted {s : State n} (h : LeasesAccounted s.workers notes) (settled : Settled s)
    (consistent : Consistent s.workers.db) {e : Event n} (admits : Admits fleet s e) :
    LeasesAccounted (step crates fleet once s e).workers (notes ++ see crates fleet s e) := by
  cases e with
  | enter w =>
    refine h.enter fun job held => ?_
    rw [settled.rests w admits] at held
    cases held
  | process e =>
    have processed := @process_accounted crates n fleet s.workers notes h consistent s.control e
      admits.1 admits.2.2
    simp only [step]
    split
    · exact processed
    · rename_i w result returned
      have ended : ((Provenance.step crates fleet s.workers e).phase w).job = none := by
        rw [(returns_phase returned).2]
        cases result <;> rfl
      rw [← List.append_nil (notes ++ _)]
      refine leave_accounted processed fun job held => ?_
      cases ended.symm.trans held
  | wake w => simpa [see, step] using h
  | shutdown w => exact leave_accounted h fun job held => mem_dropped held
  | crash w => exact leave_accounted h fun job held => mem_dropped held

theorem initial_backed (clock : Timestamp) :
    ∃ journal, Provenance.Backed crates fleet (State.initial n clock).workers journal :=
  ⟨[], Provenance.initial_backed clock⟩

theorem run_accounted {clock : Timestamp} {es : List (Event n)}
    (admissible : Admissible crates fleet once clock es) :
    Settled (run crates fleet once clock es).1 ∧
      (∃ journal, Provenance.Backed crates fleet (run crates fleet once clock es).1.workers journal) ∧
      LeasesAccounted (run crates fleet once clock es).1.workers (run crates fleet once clock es).2 := by
  have logged := (Runs.admissible_logged (step crates fleet once) (see crates fleet)
    (State.initial n clock, []) es).mpr admissible
  refine Runs.run_invariant (P := fun t : State n × List (Note n) => Settled t.1 ∧
    (∃ journal, Provenance.Backed crates fleet t.1.workers journal) ∧ LeasesAccounted t.1.workers t.2) ?_
    ⟨initial_settled clock, initial_backed clock, fun _ none => absurd none List.not_mem_nil⟩ logged
  rintro t e ⟨settled, ⟨journal, backed⟩, accounted⟩ admits
  exact ⟨step_settled settled admits, step_backed settled admits ⟨journal, backed⟩,
    step_accounted accounted settled backed.consistent admits⟩

end

/-- In every run of any number of run_worker processes, each leased receipt is in the hands of a process
that is in process_next, or it was dropped: its process was shut down, crashed, or was refused when it
recorded the outcome. -/
theorem leases_accounted (crates : Crates) {n : Nat} (fleet : Fin n → Config) (once : Fin n → Bool)
    (clock : Timestamp) (es : List (Event n)) (admissible : Admissible crates fleet once clock es) :
    ∀ a ∈ (run crates fleet once clock es).1.workers.db.attempts, a.status = .leased →
      (∃ w, ∃ job ∈ ((run crates fleet once clock es).1.workers.phase w).job, job.attemptId = a.id ∧
        (run crates fleet once clock es).1.control w = .iterating) ∨
      ∃ w, .dropped w a.id ∈ (run crates fleet once clock es).2 := by
  obtain ⟨settled, _, accounted⟩ := run_accounted admissible
  intro a member opened
  rcases accounted a member opened with ⟨w, job, held, id⟩ | dropped
  · refine .inl ⟨w, job, held, id, ?_⟩
    cases control : (run crates fleet once clock es).1.control w with
    | iterating => rfl
    | sleeping wakeAt =>
      rw [settled.sleeps w wakeAt control] at held
      cases held
    | gone =>
      rw [settled.rests w (by rw [control]; rfl)] at held
      cases held
    | returned result =>
      rw [settled.rests w (by rw [control]; rfl)] at held
      cases held
  · exact .inr dropped

/-- A process leases the job and crashes. -/
def crashed {n : Nat} (w : Fin n) : List (Event n) :=
  [.process (.worker (.action (.seed 1 2 "https://docs.example.com/releases".toList 3600 1 true 10))),
    .enter w, .process (.worker (.reap w)), .process (.worker (.lease w 20 30 [])), .crash w]

theorem crashed_admissible : Admissible releasesCrates defaultFleet (fun _ => false) 0 (crashed 0) := by
  refine ⟨⟨⟨?_, trivial⟩, by simp [actor], by simp⟩, rfl, process_admits rfl ?_ ?_ (by simp),
    process_admits rfl ?_ ⟨?_, ?_⟩ (by simp), ?_, trivial⟩
  · decide
  · rfl
  · rfl
  · rfl
  · rfl
  · decide
  · rfl

theorem leases_accounted_crashed :
    ∃ a ∈ (run releasesCrates defaultFleet (fun _ => false) 0 (crashed 0)).1.workers.db.attempts,
      a.status = .leased ∧
        ((∃ w, ∃ job ∈
            ((run releasesCrates defaultFleet (fun _ => false) 0 (crashed 0)).1.workers.phase w).job,
            job.attemptId = a.id ∧
              (run releasesCrates defaultFleet (fun _ => false) 0 (crashed 0)).1.control w = .iterating) ∨
          ∃ w, .dropped w a.id ∈ (run releasesCrates defaultFleet (fun _ => false) 0 (crashed 0)).2) := by
  have one : ∃ a ∈ (run releasesCrates defaultFleet (fun _ => false) 0 (crashed 0)).1.workers.db.attempts,
      a.status = .leased := by
    decide +kernel
  obtain ⟨a, member, opened⟩ := one
  exact ⟨a, member, opened, leases_accounted releasesCrates defaultFleet (fun _ => false) 0 (crashed 0)
    crashed_admissible a member opened⟩

end EalSync.Runtime.Worker.Loop
