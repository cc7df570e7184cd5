import EalSync.Runtime.JobView

/-! The delay after a failure. fail computes it from the snapshot that lease returned, and adds to
the stored count; the two agree because nothing but the end of a lease changes the count of a job
whose token is current. -/
namespace EalSync.Runtime

/-- The delay in seconds before the next attempt, when attemptCount failures are recorded. -/
def backoff (attemptCount : Int) : Int := min (30 * 2 ^ (attemptCount - 1).toNat) 86400

theorem backoff_mono {n m : Int} (le : n ≤ m) : backoff n ≤ backoff m := by
  have exponent : (n - 1).toNat ≤ (m - 1).toNat := by omega
  have power : (2 : Int) ^ (n - 1).toNat ≤ 2 ^ (m - 1).toNat :=
    pow_le_pow_right₀ (by decide) exponent
  exact min_le_min_right _ (Int.mul_le_mul_of_nonneg_left power (by decide))

theorem backoff_bounds (n : Int) : 30 ≤ backoff n ∧ backoff n ≤ 86400 := by
  have one : (1 : Int) ≤ 2 ^ (n - 1).toNat := one_le_pow₀ (by decide)
  exact ⟨le_min (by omega) (by decide), min_le_right ..⟩

theorem saturate_eq {bits : Nat} {x : Int} (low : -2 ^ (bits - 1) ≤ x) (high : x ≤ 2 ^ (bits - 1) - 1) :
    saturate bits x = x := by
  rw [saturate, min_eq_left high, max_eq_right low]

/-- The exponent of retry_backoff_seconds is a u32 of at most 15, and both of its operations stay
in the range of an i64. -/
structure Unsaturated (attempt : Int) : Prop where
  exponent : 0 ≤ max 1 (min attempt 16) - 1 ∧ max 1 (min attempt 16) - 1 ≤ 15
  power : saturate 64 (2 ^ (max 1 (min attempt 16) - 1).toNat) =
    2 ^ (max 1 (min attempt 16) - 1).toNat
  product : saturate 64 (30 * 2 ^ (max 1 (min attempt 16) - 1).toNat) =
    30 * 2 ^ (max 1 (min attempt 16) - 1).toNat

theorem unsaturated (attempt : Int) : Unsaturated attempt := by
  have exponent : 0 ≤ max 1 (min attempt 16) - 1 ∧ max 1 (min attempt 16) - 1 ≤ 15 := by omega
  have few : (max 1 (min attempt 16) - 1).toNat ≤ 15 := by omega
  have above : (2 : Int) ^ (max 1 (min attempt 16) - 1).toNat ≤ 2 ^ 15 :=
    pow_le_pow_right₀ (by decide) few
  have below : (0 : Int) ≤ 2 ^ (max 1 (min attempt 16) - 1).toNat := by positivity
  exact ⟨exponent, saturate_eq (by omega) (by omega), saturate_eq (by omega) (by omega)⟩

theorem retryBackoffSeconds_eq {attempt : Int} (positive : 1 ≤ attempt) :
    retryBackoffSeconds attempt = backoff attempt := by
  have exact := unsaturated attempt
  have clamped : retryBackoffSeconds attempt = backoff (max 1 (min attempt 16)) := by
    rw [retryBackoffSeconds, exact.power, exact.product, backoff]
  rw [clamped]
  by_cases small : attempt ≤ 16
  · rw [min_eq_left small, max_eq_right positive]
  · -- from the sixteenth failure on the delay is a day
    have day : backoff 16 = 86400 := by decide
    have late := backoff_mono (show 16 ≤ attempt by omega)
    have most := (backoff_bounds attempt).2
    rw [min_eq_right (by omega), max_eq_right (by decide)]
    omega

/-- What a job value that lease returned says of the row while its token is current. -/
structure Snapshot (job : CrawlJob) (db : Database) : Prop where
  known : ∃ a ∈ db.attempts, a.leaseToken = job.leaseToken
  current : ∀ row, jobRow job.id db = some row → row.leaseToken = some job.leaseToken →
    row.attemptCount = job.attemptCount

theorem effect_tokens {db db' : Database} {now : Timestamp} {op : Op} {result : Except Error Reply}
    (did : Effect now db op result db') {token : Uuid}
    (known : ∃ a ∈ db.attempts, a.leaseToken = token) : ∃ a ∈ db'.attempts, a.leaseToken = token := by
  obtain ⟨a, ha, rfl⟩ := known
  cases did with
  | refused | inserted | reseeded | idle => exact ⟨a, ha, rfl⟩
  | leased => exact ⟨a, List.mem_append_left _ ha, rfl⟩
  | completed job output apiReceipt =>
    exact Table.exists_update (f := (completion output apiReceipt now).setAttempt)
      AttemptRow.leaseToken (fun _ => rfl) ha
  | failed job errorCode details =>
    exact Table.exists_update (f := (failure job errorCode details now).setAttempt)
      AttemptRow.leaseToken (fun _ => rfl) ha
  | reaped => exact Table.exists_update (f := abandon now) AttemptRow.leaseToken (fun _ => rfl) ha

theorem granted_row {db : Database} (h : Consistent db) {candidate : JobRow}
    (member : candidate ∈ db.jobs) (owner : Str) (leaseSeconds : Int) (token attemptId : Uuid)
    (now : Timestamp) :
    jobRow candidate.id (granted owner leaseSeconds token attemptId now candidate db) =
      some (takeLease token owner leaseSeconds now candidate) := by
  have held := jobRow_of_mem h member
  rcases jobRow_update (p := fun job => job.id == candidate.id)
    (takeLease_id token owner leaseSeconds now) candidate.id db
    (db.attempts ++ [newAttempt attemptId candidate.id token now]) with
    ⟨old, before, _, after⟩ | ⟨skipped, _⟩
  · rw [granted, after, Option.some.inj (before.symm.trans held)]
  · simpa using skipped candidate held

theorem effect_leased {db db' : Database} (h : Consistent db) {now : Timestamp} {op : Op} {job : CrawlJob}
    (did : Effect now db op (.ok (.leased (some job))) db') : Snapshot job db' := by
  cases did with
  | leased owner leaseSeconds token attemptId locked candidate found =>
    obtain ⟨member, _⟩ := candidate_leasable found
    refine ⟨⟨_, List.mem_append_right _ List.mem_cons_self, rfl⟩, fun row held _ => ?_⟩
    rw [leasedJob_id, granted_row h member] at held
    rw [← Option.some.inj held]
    rfl

theorem Snapshot.effect {job : CrawlJob} {db db' : Database} (snapshot : Snapshot job db)
    (h : Consistent db) {now : Timestamp} {op : Op} {result : Except Error Reply}
    (did : Effect now db op result db') (fresh : op.Fresh db) : Snapshot job db' := by
  refine ⟨effect_tokens did snapshot.known, fun row' found held => ?_⟩
  have view := effect_row h did job.id
  have before := snapshot.current
  rw [found] at view
  generalize jobRow job.id db = row at view before
  cases view with
  | kept => exact before row' rfl held
  | inserted => cases held
  | reseeded _ _ _ _ _ _ _ _ row => exact before row rfl held
  | leased owner leaseSeconds token attemptId locked row =>
    -- the token of a later lease is new
    obtain ⟨a, ha, same⟩ := snapshot.known
    exact absurd (same.trans (Option.some.inj held).symm) (fresh.1 a ha)
  | completed => cases held
  | failed => cases held
  | reaped => cases held

section

variable (crate : UrlCrate) (clock : Timestamp)

/-- The run has leased this job value to a worker. -/
def Leased (es : List Event) (job : CrawlJob) : Prop :=
  ∃ before e after, es = before ++ e :: after ∧
    answer crate (run crate (.start clock) before) e = .ok (.leased (some job))

def Fails (s : System) (e : Event) (job : CrawlJob) : Prop :=
  (∃ errorCode details, e.op = .fail job errorCode details) ∧ answer crate s e = .ok .failed

def Succeeds (s : System) (e : Event) (jobId : Uuid) : Prop :=
  (∃ job output apiReceipt, e.op = .complete job output apiReceipt ∧ job.id = jobId) ∧
    answer crate s e = .ok .completed

end

variable {crate : UrlCrate} {clock : Timestamp}

theorem leased_snapshot {es : List Event} (admissible : Admissible crate (.start clock) es)
    {job : CrawlJob} (leased : Leased crate clock es job) :
    Snapshot job (run crate (.start clock) es).db := by
  obtain ⟨before, e, after, rfl, granted⟩ := leased
  obtain ⟨first, admits, rest⟩ := (Runs.admissible_append _ _ _ _ _).mp admissible
  have consistent := reachable_consistent first
  have did := step_effect crate (run crate (.start clock) before) e
  rw [granted] at did
  have start := effect_leased consistent did
  rw [run, Runs.run_append]
  have both := Runs.run_invariant (P := fun s => Consistent s.db ∧ Snapshot job s.db)
    (fun s e h admits => ⟨step_consistent crate s e h.1 admits,
      h.2.effect h.1 (step_effect crate s e) admits.2⟩)
    ⟨step_consistent crate _ e consistent admits, start⟩ rest
  exact both.2

theorem fails_row {s : System} (h : Consistent s.db) {e : Event} {job : CrawlJob}
    (fails : Fails crate s e job) : ∃ row, jobRow job.id s.db = some row ∧
      row.leaseToken = some job.leaseToken ∧ ∃ errorCode details,
      jobRow job.id (step crate s e).db = some ((failure job errorCode details e.now).setJob row) := by
  obtain ⟨⟨errorCode, details, op⟩, ok⟩ := fails
  have did := step_effect crate s e
  rw [op, ok] at did
  generalize (step crate s e).db = after at did
  cases did with
  | failed _ _ _ attempt released =>
    rcases jobRow_resolved h (failure_lawful job errorCode details e.now) attempt released job.id with
      ⟨_, row, found, held, after⟩ | ⟨other, _⟩
    · exact ⟨row, found, held, errorCode, details, after⟩
    · exact absurd rfl other

theorem fails_recorded {s : System} (h : Consistent s.db) {e : Event} {job : CrawlJob}
    (snapshot : Snapshot job s.db) (fails : Fails crate s e job) :
    ∃ row, jobRow job.id (step crate s e).db = some row ∧
      row.attemptCount = job.attemptCount + 1 ∧
      row.nextRunAt = e.now + seconds (backoff row.attemptCount) := by
  obtain ⟨row, found, held, errorCode, details, after⟩ := fails_row h fails
  have same := snapshot.current row found held
  have sound := h.jobs row (jobRow_mem found).1
  have counted := sound.counted.1
  have spare := sound.spare _ held
  refine ⟨_, after, by simp only [failure, same], ?_⟩
  have whole : saturate 32 (job.attemptCount + 1) = job.attemptCount + 1 :=
    saturate_eq (by omega) (by omega)
  simp only [failure, whole, same]
  rw [retryBackoffSeconds_eq (by omega)]

/-- Only a success lowers the count. -/
theorem count_grows {s : System} (h : Consistent s.db) {e : Event} {jobId : Uuid} {n : Int}
    (unsuccessful : ¬Succeeds crate s e jobId)
    (reached : ∃ row, jobRow jobId s.db = some row ∧ n ≤ row.attemptCount) :
    ∃ row, jobRow jobId (step crate s e).db = some row ∧ n ≤ row.attemptCount := by
  obtain ⟨row, found, enough⟩ := reached
  have view := effect_row h (step_effect crate s e) jobId
  rw [found] at view
  unfold Succeeds at unsuccessful
  generalize answer crate s e = result at view unsuccessful
  generalize e.op = op at view unsuccessful
  generalize jobRow jobId (step crate s e).db = row' at view
  cases view with
  | kept => exact ⟨row, rfl, enough⟩
  | reseeded => exact ⟨_, rfl, enough⟩
  | leased => exact ⟨_, rfl, enough⟩
  | completed job output apiReceipt _ own =>
    exact absurd ⟨⟨job, output, apiReceipt, rfl, own⟩, rfl⟩ unsuccessful
  | failed job errorCode details =>
    refine ⟨_, rfl, ?_⟩
    simp only [failure]
    omega
  | reaped =>
    refine ⟨_, rfl, ?_⟩
    simp only [reap]
    omega

variable (crate clock) in
/-- What a run says of the delays after failures. -/
structure BacksOff (es : List Event) : Prop where
  recorded : ∀ before e after job, es = before ++ e :: after → Leased crate clock before job →
    Fails crate (run crate (.start clock) before) e job →
    ∃ row, jobRow job.id (run crate (.start clock) (before ++ [e])).db = some row ∧
      row.attemptCount = job.attemptCount + 1 ∧
      row.nextRunAt = e.now + seconds (backoff row.attemptCount) ∧
      30 ≤ backoff row.attemptCount ∧ backoff row.attemptCount ≤ 86400
  grows : ∀ before e between f after job again, es = before ++ e :: (between ++ f :: after) →
    Leased crate clock before job → Fails crate (run crate (.start clock) before) e job →
    Leased crate clock (before ++ e :: between) again →
    Fails crate (run crate (.start clock) (before ++ e :: between)) f again → again.id = job.id →
    (∀ pre x post, between = pre ++ x :: post →
      ¬Succeeds crate (run crate (.start clock) (before ++ e :: pre)) x job.id) →
    ∀ row row', jobRow job.id (run crate (.start clock) (before ++ [e])).db = some row →
      jobRow job.id (run crate (.start clock) (before ++ e :: (between ++ [f]))).db = some row' →
      row.nextRunAt - e.now ≤ row'.nextRunAt - f.now
  unsaturated : ∀ attempt : Int, -2 ^ 31 ≤ attempt → attempt < 2 ^ 31 → Unsaturated attempt

theorem run_after (before : List Event) (e : Event) (es : List Event) :
    run crate (.start clock) (before ++ e :: es) =
      run crate (step crate (run crate (.start clock) before) e) es := by
  rw [run, Runs.run_append]
  rfl

/-- What a run says of the events after one of them guards the rest of the run. -/
theorem guarded_after {before between : List Event} {e : Event} {P : System → Event → Prop}
    (rest : Admissible crate (step crate (run crate (.start clock) before) e) between)
    (each : ∀ pre x post, between = pre ++ x :: post →
      P (run crate (.start clock) (before ++ e :: pre)) x) :
    Runs.Admissible (step crate) (fun s x => Admits s x ∧ P s x)
      (step crate (run crate (.start clock) before) e) between := by
  refine Runs.admissible_and.mpr ⟨rest, Runs.admissible_iff_at.mpr fun pre x post split => ?_⟩
  have holds := each pre x post split
  rwa [run_after] at holds

theorem count_lasts {s : System} (h : Consistent s.db) {es : List Event} {jobId : Uuid} {n : Int}
    (unsuccessful : Runs.Admissible (step crate) (fun s x => Admits s x ∧ ¬Succeeds crate s x jobId)
      s es)
    (reached : ∃ row, jobRow jobId s.db = some row ∧ n ≤ row.attemptCount) :
    ∃ row, jobRow jobId (run crate s es).db = some row ∧ n ≤ row.attemptCount :=
  (Runs.run_invariant
    (P := fun s => Consistent s.db ∧ ∃ row, jobRow jobId s.db = some row ∧ n ≤ row.attemptCount)
    (fun s x h guard => ⟨step_consistent crate s x h.1 guard.1, count_grows h.1 guard.2 h.2⟩)
    ⟨h, reached⟩ unsuccessful).2

theorem fails_in_run {before after : List Event} {e : Event} {job : CrawlJob}
    (admissible : Admissible crate (.start clock) (before ++ e :: after))
    (leased : Leased crate clock before job)
    (fails : Fails crate (run crate (.start clock) before) e job) :
    ∃ row, jobRow job.id (run crate (.start clock) (before ++ [e])).db = some row ∧
      row.attemptCount = job.attemptCount + 1 ∧
      row.nextRunAt = e.now + seconds (backoff row.attemptCount) := by
  have first := ((Runs.admissible_append _ _ _ _ _).mp admissible).1
  rw [run_after]
  exact fails_recorded (reachable_consistent first) (leased_snapshot first leased) fails

theorem backs_off (crate : UrlCrate) (clock : Timestamp) (es : List Event)
    (admissible : Admissible crate (.start clock) es) : BacksOff crate clock es where
  recorded before e after job split leased fails := by
    subst split
    obtain ⟨row, found, count, delay⟩ := fails_in_run admissible leased fails
    exact ⟨row, found, count, delay, backoff_bounds _⟩
  grows before e between f after job again split leased fails leasedAgain failsAgain sameJob
      unsuccessful row row' found found' := by
    subst split
    obtain ⟨first, firstFound, count, delay⟩ := fails_in_run admissible leased fails
    obtain rfl := Option.some.inj (firstFound.symm.trans found)
    have cut : before ++ e :: (between ++ f :: after) = (before ++ e :: between) ++ f :: after := by simp
    have whole := cut ▸ admissible
    obtain ⟨second, secondFound, countAgain, delayAgain⟩ := fails_in_run whole leasedAgain failsAgain
    have joined : before ++ e :: (between ++ [f]) = (before ++ e :: between) ++ [f] := by simp
    rw [sameJob, ← joined] at secondFound
    obtain rfl := Option.some.inj (secondFound.symm.trans found')
    -- the count does not fall between the two failures
    obtain ⟨prefixes, _, _⟩ := (Runs.admissible_append _ _ _ _ _).mp whole
    obtain ⟨start, admits, rest⟩ := (Runs.admissible_append _ _ _ _ _).mp prefixes
    rw [run_after] at firstFound
    have reached := count_lasts (step_consistent crate _ e (reachable_consistent start) admits)
      (guarded_after rest unsuccessful) ⟨first, firstFound, le_rfl⟩
    rw [← run_after] at reached
    obtain ⟨current, foundCurrent, enough⟩ := reached
    have consistent := reachable_consistent prefixes
    obtain ⟨held, foundHeld, token, _⟩ := fails_row consistent failsAgain
    have snapshot := (leased_snapshot prefixes leasedAgain).current held foundHeld token
    rw [sameJob] at foundHeld
    obtain rfl := Option.some.inj (foundCurrent.symm.trans foundHeld)
    have longer := backoff_mono (show first.attemptCount ≤ second.attemptCount by omega)
    rw [delay, delayAgain, add_sub_cancel_left, add_sub_cancel_left]
    exact Int.mul_le_mul_of_nonneg_right longer (by decide)
  unsaturated attempt _ _ := unsaturated attempt

/-- Two failures, with an abandoned attempt and a seed between them. -/
theorem backs_off_twice : BacksOff releasesCrate 0
    [⟨seconds 0, .seed 1 2 "https://docs.example.com/releases".toList 3600 5 true 10⟩,
      leaseReleases 1 20 30, ⟨seconds 2, .fail (releasesJob 20 30) "timeout".toList .null⟩,
      leaseReleases 40 21 31, ⟨seconds 71, .reapExpired⟩,
      ⟨seconds 72, .seed 1 2 "https://docs.example.com/releases".toList 3600 9 true 11⟩,
      leaseReleases 140 22 32,
      ⟨seconds 141, .fail { releasesJob 22 32 with attemptCount := 2, maxAttempts := 9 }
        "timeout".toList .null⟩] :=
  backs_off releasesCrate 0 _ (by decide)

end EalSync.Runtime
