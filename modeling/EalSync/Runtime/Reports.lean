import EalSync.Runtime.Provenance

/-! What comes of the work done under a lease. Whoever holds a lease and reports within it is heard,
whatever happens in between; so a fleet whose leases cover its timeouts records every outcome. -/
namespace EalSync.Runtime

/-- The receipt that a lease inserted for this job value is there. -/
def Receipted (job : CrawlJob) (db : Database) : Prop :=
  ∃ a ∈ db.attempts, a.identity = (job.attemptId, job.id, job.leaseToken)

section

variable {db : Database} {job : CrawlJob}

theorem Receipted.effect {db' : Database} (receipted : Receipted job db) {now : Timestamp} {op : Op}
    {result : Except Error Reply} (did : Effect now db op result db') : Receipted job db' := by
  obtain ⟨b, member, same⟩ := receipted
  obtain ⟨a, member', kept⟩ := Worker.Provenance.effect_keeps_attempt did member
  exact ⟨a, member', kept.trans same⟩

/-- A report whose token is the job's own is about an open receipt, which it closes. -/
theorem report_eq (h : Consistent db) (receipted : Receipted job db) {expiry : Timestamp}
    (held : leaseOf job.id db = some (job.leaseToken, expiry)) {r : Resolution} (lawful : r.Lawful) :
    resolve r job db = (.ok (), resolved r job db) ∧
      ∃ a, a.identity = (job.attemptId, job.id, job.leaseToken) ∧
        r.setAttempt a ∈ (resolved r job db).attempts := by
  obtain ⟨row, found, lease⟩ := Option.bind_eq_some_iff.mp held
  obtain ⟨token, _⟩ := JobRow.lease_eq_some.mp lease
  obtain ⟨member, own⟩ := jobRow_mem found
  obtain ⟨a, ha, identity⟩ := receipted
  obtain ⟨id, _, sameToken⟩ : a.id = job.attemptId ∧ a.jobId = job.id ∧ a.leaseToken = job.leaseToken := by
    simpa [AttemptRow.identity] using identity
  have opened := (h.holder member ha (token.trans (congrArg some sameToken).symm)).2
  have matched := CrawlJob.matchesAttempt_iff.mpr ⟨id, sameToken, opened⟩
  have attempt : Table.affected job.matchesAttempt db.attempts = 1 :=
    (Table.affected_eq_one h.attemptIds job.attemptId fun _ _ matched =>
      (CrawlJob.matchesAttempt_iff.mp matched).1).mpr ⟨a, ha, matched⟩
  have released : Table.affected job.matchesJob db.jobs = 1 :=
    (Table.affected_eq_one h.jobIds job.id fun _ _ matched =>
      (CrawlJob.matchesJob_iff.mp matched).1).mpr ⟨row, member, CrawlJob.matchesJob_iff.mpr ⟨own, token⟩⟩
  exact ⟨h.resolve_eq lawful attempt released, a, identity, Table.mem_update_of_selected _ ha matched⟩

/-- The report of an outcome, complete or fail of the job, with values that jsonb takes. -/
theorem report_heard (crate : UrlCrate) (h : Consistent db) (receipted : Receipted job db)
    {expiry : Timestamp} (held : leaseOf job.id db = some (job.leaseToken, expiry)) {op : Op}
    (reports : op.resolves = some job) (stored : op.storable = true) (now : Timestamp) :
    ∃ answered, (op.exec crate now db).1 = .ok answered := by
  cases op with
  | complete job' output apiReceipt =>
    cases reports
    obtain ⟨both, _⟩ := report_eq h receipted held (completion_lawful output apiReceipt now)
    exact ⟨.completed, by rw [exec_complete crate now db job stored, both]; rfl⟩
  | fail job' errorCode details =>
    cases reports
    obtain ⟨both, _⟩ := report_eq h receipted held (failure_lawful job errorCode details now)
    exact ⟨.failed, by rw [exec_fail crate now db job stored, both]; rfl⟩
  | seed => cases reports
  | lease => cases reports
  | reapExpired => cases reports

end

theorem leased_receipted {now : Timestamp} {db db' : Database} {op : Op} {job : CrawlJob}
    (did : Effect now db op (.ok (.leased (some job))) db') : Receipted job db' := by
  cases did
  exact ⟨_, List.mem_append_right _ (List.mem_singleton_self _), rfl⟩

/-- A worker that reports the outcome of a job before its lease ends is heard, whatever the other
transactions were, unless the lease was reported on before, exactly when jsonb takes what it reports. -/
theorem timely_report (crate : UrlCrate) (clock : Timestamp) (before between : List Event)
    (first last : Event)
    (admissible : Admissible crate (.start clock) (before ++ first :: (between ++ [last])))
    (owner : Str) (leaseSeconds : Int) (leaseToken attemptId : Uuid) (locked : List Uuid)
    (leases : first.op = .lease owner leaseSeconds leaseToken attemptId locked) (job : CrawlJob)
    (leased : answer crate (run crate (.start clock) before) first = .ok (.leased (some job)))
    (unreported : ∀ pre x post, between = pre ++ x :: post →
      ¬Releases crate (run crate (.start clock) (before ++ first :: pre)) x job.leaseToken)
    (reports : last.op.resolves = some job) (timely : last.now ≤ first.now + seconds leaseSeconds) :
    (∃ answered, answer crate (run crate (.start clock) (before ++ first :: between)) last =
      .ok answered) ↔ last.op.storable = true := by
  refine ⟨fun ⟨_, heard⟩ => storable_of_ok heard, fun stored => ?_⟩
  obtain ⟨start, admits, rest⟩ := (Runs.admissible_append _ _ _ _ _).mp admissible
  have h := reachable_consistent start
  have h' := step_consistent crate _ first h admits
  obtain ⟨middle, final, _⟩ := (Runs.admissible_append _ _ _ _ _).mp rest
  have did := step_effect crate (run crate (.start clock) before) first
  rw [leased] at did
  have receipted := leased_receipted did
  rw [leases] at did
  obtain ⟨granted, _⟩ := effect_grants_lease h did
  have kept := Runs.run_invariant (P := fun s => Consistent s.db ∧ Receipted job s.db)
    (fun s e h admits => ⟨step_consistent crate s e h.1 admits, h.2.effect (step_effect crate s e)⟩)
    ⟨h', receipted⟩ middle
  have safe := Runs.admissible_invariant (P := fun s => Consistent s.db) (step_consistent crate) h' middle
  rw [run, Runs.run_append]
  rcases Lease.protected_until (queue_refines crate job.id) (.inl granted) safe with
    (held | past) | ⟨pre, x, post, cut, released⟩
  · exact report_heard crate kept.1 kept.2 held reports stored last.now
  · exact absurd (past.trans_le final.1) (not_lt.mpr timely)
  · refine absurd (releases_of_action released) ?_
    have silent := unreported pre x post cut
    rwa [run, Runs.run_append] at silent

/-- The lease of job 10 outlasts a reap and a seed, and the completion comes at its last instant. -/
theorem timely_report_last : ∃ answered, answer releasesCrate (run releasesCrate (.start 0)
    ([seedReleases 0 10] ++ leaseReleases 1 20 30 :: [⟨seconds 9, .reapExpired⟩, seedReleases 20 11]))
    (completeReleases 31 20 30) = .ok answered := by
  refine (timely_report releasesCrate 0 _ [⟨seconds 9, .reapExpired⟩, seedReleases 20 11]
    (leaseReleases 1 20 30) (completeReleases 31 20 30) (by decide) _ _ _ _ _ rfl (releasesJob 20 30)
    (by decide) ?_ rfl (by decide)).mpr rfl
  intro pre x post split released
  have member : x ∈ [⟨seconds 9, .reapExpired⟩, seedReleases 20 11] :=
    split ▸ List.mem_append_right pre List.mem_cons_self
  have silent : x.op.resolves = none := by
    rcases List.mem_cons.mp member with rfl | last
    · rfl
    · rw [List.mem_singleton.mp last]
      rfl
  obtain ⟨job, _, ⟨_, _, op, _⟩ | ⟨_, _, op, _⟩⟩ := released
  · rw [op] at silent
    cases silent
  · rw [op] at silent
    cases silent

namespace Worker

variable {crate : UrlCrate} {n : Nat} {fleet : Fin n → Config}

/-- Every worker works on a job whose receipt it has. -/
def AllReceipted (s : State n) : Prop := ∀ w, ∀ job ∈ (s.phase w).job, Receipted job s.db

theorem AllReceipted.enter {s : State n} (h : AllReceipted s) (w : Fin n) {phase : Phase}
    (same : ∀ job ∈ phase.job, (s.phase w).job = some job) : AllReceipted (s.enter w phase) := by
  intro v job working
  dsimp only [State.enter] at working ⊢
  by_cases mine : v = w
  · rw [mine, Function.update_self] at working
    exact h w job (same job working)
  · rw [Function.update_of_ne mine] at working
    exact h v job working

theorem AllReceipted.transact {s : State n} (h : AllReceipted s) (op : Op) (w : Fin n)
    {next : Except Error Reply → Phase}
    (leases : ∀ result, ∀ job ∈ (next result).job, result = .ok (.leased (some job))) :
    AllReceipted (s.transact crate op w next) := by
  have did := exec_effect crate s.clock s.db op
  intro v job working
  dsimp only [State.transact] at working ⊢
  by_cases mine : v = w
  · rw [mine, Function.update_self] at working
    rw [leases _ job working] at did
    exact leased_receipted did
  · rw [Function.update_of_ne mine] at working
    exact (h v job working).effect did

theorem step_receipted {s : State n} {e : Event n} (h : AllReceipted s) (admits : Admits fleet s e) :
    AllReceipted (step crate fleet s e) := by
  cases e with
  | tick => exact h
  | start w => exact h.enter w fun _ none => nomatch none
  | stop w => exact h.enter w fun _ none => nomatch none
  | reap w =>
    refine h.transact .reapExpired w fun result job working => ?_
    cases result <;> cases working
  | lease w =>
    exact h.transact _ w fun _ job working => Provenance.afterLease_job working
  | crawled w result =>
    obtain ⟨job, deadline, phase⟩ := admits
    simp only [step, phase]
    refine h.enter w fun i working => ?_
    rw [phase]
    cases result <;> exact working
  | posted w result =>
    obtain ⟨job, output, deadline, phase⟩ := admits
    simp only [step, phase]
    refine h.enter w fun i working => ?_
    rw [phase]
    cases result <;> exact working
  | record w =>
    have rests : ∀ result, ∀ job ∈ (afterRecord result).job, result = .ok (.leased (some job)) := by
      intro result job working
      rw [Provenance.afterRecord_rests] at working
      cases working
    simp only [step]
    split
    · exact h.transact _ w rests
    · exact h.transact _ w rests
    · exact h
  | action op => exact fun v job working => (h v job working).effect (exec_effect crate s.clock s.db op)

theorem run_receipted {clock : Timestamp} {es : List (Event n)}
    (admissible : Admissible crate fleet clock es) : AllReceipted (run crate fleet clock es) :=
  Runs.run_invariant (fun _ _ h admits => step_receipted h admits) (fun _ _ none => nomatch none)
    admissible

/-- The worker goes on to its next round, and the receipt of its job tells the outcome. -/
structure Recorded (s s' : State n) (w : Fin n) : Prop where
  goesOn : s'.phase w = .idle
  completed : ∀ job output receipt deadline, s.phase w = .completing job output receipt deadline →
    ∃ a ∈ s'.db.attempts, a.identity = (job.attemptId, job.id, job.leaseToken) ∧
      a.status = .succeeded ∧ a.apiReceipt = some receipt ∧ a.details = output.diagnostic
  failed : ∀ job errorCode details deadline, s.phase w = .failing job errorCode details deadline →
    ∃ a ∈ s'.db.attempts, a.identity = (job.attemptId, job.id, job.leaseToken) ∧
      a.status = .failed ∧ a.errorCode = some (sanitizeCode errorCode) ∧ a.details = details

/-- The call is refused: the tables stay as they were, and the worker ends. -/
structure Unrecorded (s s' : State n) (w : Fin n) : Prop where
  unchanged : s'.db = s.db
  stops : s'.phase w = .stopped

theorem record_unstorable {s : State n} {w : Fin n} {op : Op} (recording : recordOp (s.phase w) = some op)
    (refused : op.storable = false) : Unrecorded s (step crate fleet s (.record w)) w := by
  obtain ⟨e, ran, _⟩ := exec_unstorable refused crate s.clock s.db
  cases phase : s.phase w with
  | completing =>
    rw [phase] at recording
    cases recording
    simp only [step, phase, State.transact, ran]
    exact ⟨rfl, Function.update_self ..⟩
  | failing =>
    rw [phase] at recording
    cases recording
    simp only [step, phase, State.transact, ran]
    exact ⟨rfl, Function.update_self ..⟩
  | _ =>
    rw [phase] at recording
    cases recording

theorem record_storable {s : State n} {w : Fin n} {op : Op} (recording : recordOp (s.phase w) = some op)
    (stored : op.storable = true) (covered : Covered fleet s) (receipted : AllReceipted s) :
    Recorded s (step crate fleet s (.record w)) w := by
  have receipted := receipted w
  have held := @(covered.held w).covers
  cases phase : s.phase w with
  | completing job output receipt deadline =>
    rw [phase] at recording receipted held
    cases recording
    obtain ⟨expiry, token, _⟩ := held rfl
    obtain ⟨both, a, identity, closed⟩ := report_eq covered.consistent (receipted job rfl) token
      (completion_lawful output receipt s.clock)
    simp only [step, phase, State.transact, exec_complete crate s.clock s.db job stored, both]
    refine ⟨Function.update_self .., ?_, fun _ _ _ _ other => Phase.noConfusion (phase.symm.trans other)⟩
    intro _ _ _ _ same
    cases phase.symm.trans same
    exact ⟨_, closed, identity, rfl, rfl, rfl⟩
  | failing job errorCode details deadline =>
    rw [phase] at recording receipted held
    cases recording
    obtain ⟨expiry, token, _⟩ := held rfl
    obtain ⟨both, a, identity, closed⟩ := report_eq covered.consistent (receipted job rfl) token
      (failure_lawful job errorCode details s.clock)
    simp only [step, phase, State.transact, exec_fail crate s.clock s.db job stored, both]
    refine ⟨Function.update_self .., fun _ _ _ _ other => Phase.noConfusion (phase.symm.trans other), ?_⟩
    intro _ _ _ _ same
    cases phase.symm.trans same
    exact ⟨_, closed, identity, rfl, rfl, rfl⟩
  | _ =>
    rw [phase] at recording
    cases recording

/-- In a fleet whose leases cover its timeouts, complete and fail refuse no outcome whose diagnostic and
receipt jsonb takes, in any run of any number of workers; any other outcome they refuse. -/
theorem outcomes_recorded (crate : UrlCrate) (fleet : Fin n → Config) (fits : ∀ w, Fits (fleet w))
    (clock : Timestamp) (es : List (Event n)) (admissible : Admissible crate fleet clock es) (w : Fin n)
    (op : Op) (recording : recordOp ((run crate fleet clock es).phase w) = some op) :
    op.storable = true ∧ Recorded (run crate fleet clock es)
        (step crate fleet (run crate fleet clock es) (.record w)) w ∨
      op.storable = false ∧ Unrecorded (run crate fleet clock es)
        (step crate fleet (run crate fleet clock es) (.record w)) w := by
  cases stored : op.storable with
  | true =>
    exact .inl ⟨rfl, record_storable recording stored (run_covered fits admissible)
      (run_receipted admissible)⟩
  | false => exact .inr ⟨rfl, record_unstorable recording stored⟩

/-- With the defaults of the command line, a crawl and a call that take all their time are recorded. -/
theorem outcomes_recorded_default : Recorded (run releasesCrate defaultFleet 0 (overrun defaultFleet 0))
    (step releasesCrate defaultFleet (run releasesCrate defaultFleet 0 (overrun defaultFleet 0))
      (.record 0)) 0 := by
  have accepts : LeaseAccepts "worker".toList 180 := by decide
  have fits : (120 : Int) + 20 ≤ 180 := by decide
  obtain ⟨admissible, reached⟩ := @overrun_reaches 2 defaultFleet 0 accepts
  have recording : recordOp ((run releasesCrate defaultFleet 0 (overrun defaultFleet 0)).phase 0) =
      some (.complete (releasesJob 20 30) ⟨.null, .null⟩ .null) := by
    rw [reached]
    rfl
  rcases outcomes_recorded releasesCrate defaultFleet (fun _ => fits) 0 _ admissible 0 _ recording with
    ⟨_, recorded⟩ | ⟨refused, _⟩
  · exact recorded
  · cases refused

end Worker

end EalSync.Runtime
