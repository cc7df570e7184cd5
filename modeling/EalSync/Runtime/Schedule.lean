import EalSync.Runtime.Spacing

/-! The order in which leases hand out the jobs that are due, and how long a job can be away: no
release and no lease puts a job further off than its interval, so nothing that is enabled and has
attempts left is lost. -/
namespace EalSync.Runtime

/-- The jobs that a lease may take, in the order of the ORDER BY. -/
def dueJobs (now : Timestamp) (db : Database) : List JobRow :=
  Table.queue JobRow.before (JobRow.leasable now) db.jobs

theorem leaseCandidate_eq (now : Timestamp) (db : Database) :
    leaseCandidate now [] db = (dueJobs now db).head? := by
  simp [leaseCandidate, Table.first_eq_head, dueJobs]

theorem mem_dueJobs {now : Timestamp} {db : Database} {job : JobRow} :
    job ∈ dueJobs now db ↔ job ∈ db.jobs ∧ job.leasable now = true := Table.mem_queue

theorem length_dueJobs (now : Timestamp) (db : Database) : (dueJobs now db).length ≤ db.jobs.length :=
  Table.length_queue_le _ _

/-- The arguments of a lease that is not refused, when no row is locked. -/
structure LeaseCall where
  owner : Str
  leaseSeconds : Int
  leaseToken : Uuid
  attemptId : Uuid
  accepted : LeaseAccepts owner leaseSeconds

def LeaseCall.event (now : Timestamp) (call : LeaseCall) : Event :=
  ⟨now, .lease call.owner call.leaseSeconds call.leaseToken call.attemptId []⟩

/-- What successive leases answer when they hand out the jobs of a list. -/
def handOut : List JobRow → List LeaseCall → List (Except Error Reply)
  | _, [] => []
  | [], _ :: calls => .ok (.leased none) :: handOut [] calls
  | job :: due, call :: calls =>
    .ok (.leased (some (leasedJob job call.leaseToken call.attemptId))) :: handOut due calls

section Lease

variable {crate : UrlCrate} {s : System} {now : Timestamp} {call : LeaseCall}

theorem lease_due_nil (due : dueJobs now s.db = []) :
    (call.event now).op.exec crate now s.db = (.ok (.leased none), s.db) := by
  have none : leaseCandidate now [] s.db = none := by rw [leaseCandidate_eq, due]; rfl
  have checked : ((Str.trim call.owner).isEmpty || decide (Str.len call.owner > 200)) = false := by
    simp [call.accepted.1.1, call.accepted.1.2]
  simp only [LeaseCall.event, Op.exec, lease]
  rw [checked, if_neg Bool.false_ne_true, if_neg (not_not.mpr call.accepted.2), none]
  rfl

theorem lease_due_cons (h : Consistent s.db) (fresh : (call.event now).op.Fresh s.db) {job : JobRow}
    {rest : List JobRow} (due : dueJobs now s.db = job :: rest) :
    (call.event now).op.exec crate now s.db =
      (.ok (.leased (some (leasedJob job call.leaseToken call.attemptId))),
        granted call.owner call.leaseSeconds call.leaseToken call.attemptId now job s.db) := by
  have first : leaseCandidate now [] s.db = some job := by rw [leaseCandidate_eq, due]; rfl
  simp only [LeaseCall.event, Op.exec]
  rw [h.lease_eq call.accepted fresh first]
  rfl

/-- The job that is handed out holds its lease for the rest of the instant. -/
theorem dueJobs_granted {db : Database} (h : Consistent db) {job : JobRow} {rest : List JobRow}
    (due : dueJobs now db = job :: rest) :
    dueJobs now (granted call.owner call.leaseSeconds call.leaseToken call.attemptId now job db) =
      rest := by
  refine Table.queue_update h.before_antisymm h.jobIds due ?_
  have ahead : now ≤ now + seconds 30 := le_add_of_nonneg_right (by decide)
  have held : ¬now + seconds call.leaseSeconds < now :=
    not_lt.mpr (ahead.trans (add_seconds_le call.accepted.2.1 now))
  simp [JobRow.leasable, JobRow.expired, takeLease, held]

end Lease

theorem answers_leases (crate : UrlCrate) (s : System) (h : Consistent s.db) (now : Timestamp)
    (calls : List LeaseCall) (admissible : Admissible crate s (calls.map (LeaseCall.event now))) :
    answers crate s (calls.map (LeaseCall.event now)) = handOut (dueJobs now s.db) calls := by
  induction calls generalizing s with
  | nil => cases dueJobs now s.db <;> rfl
  | cons call calls ih =>
    obtain ⟨admits, rest_admits⟩ := admissible
    have next := ih _ (step_consistent crate s _ h admits) rest_admits
    rw [List.map_cons, answers, Projection.trace]
    rw [answers] at next
    rw [next]
    cases due : dueJobs now s.db with
    | nil =>
      have idle : (call.event now).op.exec crate now s.db = _ := lease_due_nil due
      have after : (step crate s (call.event now)).db = s.db := congrArg Prod.snd idle
      have answered : answer crate s (call.event now) = _ := congrArg Prod.fst idle
      rw [after, answered, due]
      rfl
    | cons job rest =>
      have leased : (call.event now).op.exec crate now s.db = _ := lease_due_cons h admits.2 due
      have after : (step crate s (call.event now)).db = _ := congrArg Prod.snd leased
      have answered : answer crate s (call.event now) = _ := congrArg Prod.fst leased
      rw [after, answered, dueJobs_granted h due]
      rfl

/-- Leases issued at one instant hand out the jobs that are due, each once, the one that has been
due for longest first. -/
theorem leases_in_order (crate : UrlCrate) (clock : Timestamp) (es : List Event) (now : Timestamp)
    (calls : List LeaseCall)
    (admissible : Admissible crate (.start clock) (es ++ calls.map (LeaseCall.event now))) :
    answers crate (run crate (.start clock) es) (calls.map (LeaseCall.event now)) =
      handOut (dueJobs now (run crate (.start clock) es).db) calls := by
  obtain ⟨before, after⟩ := (Runs.admissible_append _ _ _ _ _).mp admissible
  exact answers_leases crate _ (reachable_consistent before) now calls after

/-- Two jobs are due, and the third lease finds none. -/
theorem leases_in_order_two :
    answers releasesCrate (run releasesCrate (.start 0)
      [seedReleases 5 11, ⟨seconds 6, .seed 5 2 "https://docs.example.com/releases".toList 3600 1 true 10⟩])
      ([⟨"worker".toList, 30, 20, 30, by decide⟩, ⟨"worker".toList, 30, 21, 31, by decide⟩,
        ⟨"worker".toList, 30, 22, 32, by decide⟩].map (LeaseCall.event (seconds 9))) =
      [.ok (.leased (some { releasesJob 20 30 with id := 11 })),
        .ok (.leased (some { releasesJob 21 31 with tenantId := 5 })), .ok (.leased none)] :=
  (leases_in_order releasesCrate 0 _ (seconds 9) _ (by decide)).trans (by decide)

/-- The instants a row waits for are no further ahead than the longest interval and lease. -/
structure Within (clock : Timestamp) (row : JobRow) : Prop where
  due : row.nextRunAt ≤ clock + seconds 2592000
  held : ∀ e, row.leaseExpiresAt = some e → e ≤ clock + seconds 3600

theorem Within.later {clock now : Timestamp} {row : JobRow} (within : Within clock row)
    (later : clock ≤ now) : Within now row :=
  ⟨within.due.trans (Int.add_le_add_right later _),
    fun e held => (within.held e held).trans (Int.add_le_add_right later _)⟩

theorem within_free {clock : Timestamp} {row : JobRow} (free : row.leaseExpiresAt = none) {delay : Int}
    (due : row.nextRunAt = clock + seconds delay) (short : delay ≤ 2592000) : Within clock row := by
  refine ⟨due ▸ add_seconds_le short clock, fun e held => ?_⟩
  rw [free] at held
  cases held

theorem retryBackoffSeconds_most (attempt : Int) : retryBackoffSeconds attempt ≤ 86400 := min_le_right ..

def Scheduled (s : System) : Prop := ∀ row ∈ s.db.jobs, Within s.clock row

theorem step_scheduled (crate : UrlCrate) (s : System) (e : Event) (h : Consistent s.db)
    (scheduled : Scheduled s) (admits : Admits s e) : Scheduled (step crate s e) := by
  intro row' member
  have found := jobRow_of_mem (step_consistent crate s e h admits) member
  have view := effect_row h (step_effect crate s e) row'.id
  rw [found] at view
  show Within e.now row'
  generalize row'.id = jobId at view
  generalize before : jobRow jobId s.db = row at view
  generalize answer crate s e = result at view
  generalize e.op = op at view
  cases view with
  | kept => exact (scheduled row' (jobRow_mem before).1).later admits.1
  | inserted =>
    have now : e.now = e.now + seconds 0 := (Int.add_zero e.now).symm
    exact within_free rfl now (by decide)
  | reseeded _ _ _ _ _ _ _ _ row =>
    have within := (scheduled row (jobRow_mem before).1).later admits.1
    exact ⟨(min_le_left _ _).trans within.due, within.held⟩
  | leased owner leaseSeconds token attemptId locked row _ _ accepts =>
    refine ⟨((scheduled row (jobRow_mem before).1).later admits.1).due, ?_⟩
    rintro _ ⟨⟩
    exact add_seconds_le accepts.2.2 e.now
  | completed job output apiReceipt row =>
    exact within_free rfl rfl (h.jobs row (jobRow_mem before).1).interval.2
  | failed job errorCode details row =>
    exact within_free rfl rfl ((retryBackoffSeconds_most _).trans (by decide))
  | reaped _ row => exact within_free rfl rfl (by decide)

theorem reachable_scheduled {crate : UrlCrate} {clock : Timestamp} {es : List Event}
    (admissible : Admissible crate (.start clock) es) : Scheduled (run crate (.start clock) es) := by
  have both := Runs.run_invariant (P := fun s => Consistent s.db ∧ Scheduled s)
    (fun s e h admits => ⟨step_consistent crate s e h.1 admits,
      step_scheduled crate s e h.1 h.2 admits⟩)
    ⟨migrated_consistent, fun _ member => absurd member List.not_mem_nil⟩ admissible
  exact both.2

/-- Past the horizon, a row can be leased unless it is disabled or its budget is spent. -/
theorem Within.leasable {clock now : Timestamp} {row : JobRow} (within : Within clock row)
    (sound : row.Sound) (past : clock + seconds 2592000 < now) :
    row.leasable now = true ↔ row.enabled = true ∧ row.attemptCount < row.maxAttempts := by
  rw [JobRow.leasable_iff]
  constructor
  · exact fun ready => ⟨ready.1, ready.2.2.1⟩
  · rintro ⟨enabled, spare⟩
    refine ⟨enabled, within.due.trans past.le, spare, ?_⟩
    cases token : row.leaseToken with
    | none => exact .inl rfl
    | some t =>
      obtain ⟨e, expires⟩ := JobRow.expires_of_token sound token
      have early : e < now := by
        have most : clock + seconds 3600 ≤ clock + seconds 2592000 := add_seconds_le (by decide) clock
        exact (within.held e expires).trans_lt (most.trans_lt past)
      exact .inr (by simp [JobRow.expired, expires, early])

theorem mem_handOut {due : List JobRow} {calls : List LeaseCall} (enough : due.length ≤ calls.length)
    (jobId : Uuid) : (∃ job, .ok (.leased (some job)) ∈ handOut due calls ∧ job.id = jobId) ↔
      ∃ row ∈ due, row.id = jobId := by
  induction calls generalizing due with
  | nil =>
    rw [List.length_nil, Nat.le_zero, List.length_eq_zero_iff] at enough
    simp [enough, handOut]
  | cons call calls ih =>
    cases due with
    | nil => simpa [handOut] using @ih [] (Nat.zero_le _)
    | cons row rest =>
      have tail := @ih rest (by simpa using enough)
      simp only [handOut, List.mem_cons, or_and_right, exists_or, exists_eq_left, Except.ok.injEq,
        Reply.leased.injEq, Option.some.injEq, leasedJob_id, tail]

/-- From every reachable state, once thirty days have passed with nothing done, as many leases as
there are jobs hand out each job that is enabled and has attempts left, and no other. -/
theorem nothing_stranded (crate : UrlCrate) (clock : Timestamp) (es : List Event) (now : Timestamp)
    (calls : List LeaseCall)
    (admissible : Admissible crate (.start clock) (es ++ calls.map (LeaseCall.event now)))
    (past : (run crate (.start clock) es).clock + seconds 2592000 < now)
    (enough : (run crate (.start clock) es).db.jobs.length ≤ calls.length) :
    ∀ row ∈ (run crate (.start clock) es).db.jobs,
      (∃ job, .ok (.leased (some job)) ∈ answers crate (run crate (.start clock) es)
          (calls.map (LeaseCall.event now)) ∧ job.id = row.id) ↔
        row.enabled = true ∧ row.attemptCount < row.maxAttempts := by
  intro row member
  obtain ⟨before, after⟩ := (Runs.admissible_append _ _ _ _ _).mp admissible
  have h := reachable_consistent before
  rw [answers_leases crate _ h now calls after,
    mem_handOut ((length_dueJobs now _).trans enough),
    ← (reachable_scheduled before row member).leasable (h.jobs row member) past]
  constructor
  · rintro ⟨other, due, same⟩
    obtain ⟨inside, ready⟩ := mem_dueJobs.mp due
    exact h.same_job inside member same ▸ ready
  · exact fun ready => ⟨row, mem_dueJobs.mpr ⟨member, ready⟩, rfl⟩

/-- The job has failed once and is held by a worker that is gone. -/
theorem nothing_stranded_held : ∃ job, .ok (.leased (some job)) ∈
    answers releasesCrate (run releasesCrate (.start 0)
      [⟨0, .seed 1 2 "https://docs.example.com/releases".toList 3600 5 true 10⟩,
        leaseReleases 1 20 30, ⟨seconds 100, .reapExpired⟩, leaseReleases 200 21 31])
      ([⟨"worker".toList, 30, 22, 32, by decide⟩].map (LeaseCall.event (seconds 2592201))) ∧
    job.id = 10 := by
  have found : jobRow 10 (run releasesCrate (.start 0)
      [⟨0, .seed 1 2 "https://docs.example.com/releases".toList 3600 5 true 10⟩,
        leaseReleases 1 20 30, ⟨seconds 100, .reapExpired⟩, leaseReleases 200 21 31]).db =
      some ⟨10, 1, 2, "https://docs.example.com/releases".toList, true, 3600, seconds 160, some 21,
        some "worker".toList, some (seconds 230), 1, 5, some "lease_expired".toList, 0,
        seconds 200⟩ := by decide
  exact (nothing_stranded releasesCrate 0 _ (seconds 2592201) _ (by decide) (by decide) (by decide) _
    (jobRow_mem found).1).mpr ⟨rfl, by decide⟩

end EalSync.Runtime
