import EalSync.Lib.Lease
import EalSync.Runtime.JobView

/-! Lease exclusion. The lease columns of one job refine a time-bounded lease slot: lease is a
grant, a committed complete or fail the release of its token, and reap_expired at most an
expiry. -/
namespace EalSync.Runtime

def JobRow.lease (job : JobRow) : Lease.Slot Uuid Timestamp :=
  job.leaseToken.bind fun t => job.leaseExpiresAt.map (t, ·)

def leaseOf (jobId : Uuid) (db : Database) : Lease.Slot Uuid Timestamp :=
  (jobRow jobId db).bind JobRow.lease

theorem JobRow.lease_eq_some {job : JobRow} {t : Uuid} {e : Timestamp} :
    job.lease = some (t, e) ↔ job.leaseToken = some t ∧ job.leaseExpiresAt = some e := by
  simp [JobRow.lease, Option.bind_eq_some_iff]

/-- What an answered operation is for the lease of one job. -/
def leaseAction (jobId : Uuid) (now : Timestamp) : Op → Except Error Reply → Lease.Action Uuid Timestamp
  | .lease _ leaseSeconds leaseToken _ _, .ok (.leased (some job)) =>
    if job.id = jobId then .grant leaseToken (now + seconds leaseSeconds) else .other
  | .complete job _ _, .ok .completed => if job.id = jobId then .release job.leaseToken else .other
  | .fail job _ _, .ok .failed => if job.id = jobId then .release job.leaseToken else .other
  | _, _ => .other

theorem leaseAction_other {jobId : Uuid} {op : Op} {result : Except Error Reply}
    (apart : ¬Concerns jobId op result) (now : Timestamp) : leaseAction jobId now op result = .other := by
  unfold leaseAction
  split
  · exact if_neg apart
  · exact if_neg apart
  · exact if_neg apart
  · rfl

theorem leasable_free {now : Timestamp} {job : JobRow} (ready : job.leasable now = true) :
    ∀ h, job.lease = some h → h.2 < now := by
  rintro ⟨t, e⟩ held
  obtain ⟨token, expires⟩ := JobRow.lease_eq_some.mp held
  rcases (JobRow.leasable_iff.mp ready).2.2.2 with free | expired
  · rw [token] at free
    cases free
  · simpa [JobRow.expired, expires] using expired

theorem row_lease {now : Timestamp} {db : Database} {jobId : Uuid} {op : Op}
    {result : Except Error Reply} {row row' : Option JobRow}
    (view : RowEffect now db jobId op result row row') (sound : ∀ job, row = some job → job.Sound)
    (own : ∀ job, row = some job → job.id = jobId) :
    Lease.Step now (row.bind JobRow.lease) (leaseAction jobId now op result)
      (row'.bind JobRow.lease) := by
  cases view with
  | kept op result row apart =>
    rw [leaseAction_other apart]
    exact .keep _
  | inserted => exact .keep _
  | reseeded => exact .keep _
  | leased owner leaseSeconds token attemptId locked row found ready =>
    have granted : leaseAction jobId now (.lease owner leaseSeconds token attemptId locked)
        (.ok (.leased (some (leasedJob row token attemptId)))) =
        .grant token (now + seconds leaseSeconds) := if_pos (own row rfl)
    rw [granted]
    exact .grant _ _ _ (leasable_free ready)
  | completed job output apiReceipt row same held =>
    obtain ⟨e, expires⟩ := JobRow.expires_of_token (sound row rfl) held
    have released : leaseAction jobId now (.complete job output apiReceipt) (.ok .completed) =
        .release job.leaseToken := if_pos same
    rw [released, Option.bind_some, JobRow.lease_eq_some.mpr ⟨held, expires⟩]
    exact .release _ _
  | failed job errorCode details row same held =>
    obtain ⟨e, expires⟩ := JobRow.expires_of_token (sound row rfl) held
    have released : leaseAction jobId now (.fail job errorCode details) (.ok .failed) =
        .release job.leaseToken := if_pos same
    rw [released, Option.bind_some, JobRow.lease_eq_some.mpr ⟨held, expires⟩]
    exact .release _ _
  | reaped result row lapsed =>
    obtain ⟨⟨t, held⟩, expired⟩ := JobRow.lapsed_iff.mp lapsed
    obtain ⟨e, expires⟩ := JobRow.expires_of_token (sound row rfl) held
    rw [Option.bind_some, JobRow.lease_eq_some.mpr ⟨held, expires⟩]
    exact .expire _ _ (by simpa [JobRow.expired, expires] using expired)

theorem effect_lease {db db' : Database} (h : Consistent db) {now : Timestamp} {op : Op}
    {result : Except Error Reply} (did : Effect now db op result db') (jobId : Uuid) :
    Lease.Step now (leaseOf jobId db) (leaseAction jobId now op result) (leaseOf jobId db') :=
  row_lease (effect_row h did jobId) (fun _ found => h.jobs _ (jobRow_mem found).1)
    (fun _ found => (jobRow_mem found).2)

/-- A lease that still covers the instant outlasts every operation that does not end it. -/
theorem effect_keeps_lease {db db' : Database} (h : Consistent db) {now : Timestamp} {op : Op}
    {result : Except Error Reply} (did : Effect now db op result db') {jobId token : Uuid}
    {expiry : Timestamp} (held : leaseOf jobId db = some (token, expiry)) (covered : now ≤ expiry)
    (apart : ∀ job ∈ op.resolves, job.id ≠ jobId) : leaseOf jobId db' = some (token, expiry) := by
  have step := effect_lease h did jobId
  rw [held] at step
  refine Lease.step_keeps step covered ?_
  unfold leaseAction
  split
  · split <;> simp
  · rw [if_neg (apart _ rfl)]
    simp
  · rw [if_neg (apart _ rfl)]
    simp
  · simp

theorem effect_grants_lease {db db' : Database} (h : Consistent db) {now : Timestamp} {owner : Str}
    {leaseSeconds : Int} {leaseToken attemptId : Uuid} {locked : List Uuid} {job : CrawlJob}
    (did : Effect now db (.lease owner leaseSeconds leaseToken attemptId locked)
      (.ok (.leased (some job))) db') :
    leaseOf job.id db' = some (job.leaseToken, now + seconds leaseSeconds) ∧
      ∀ slot, leaseOf job.id db = some slot → slot.2 < now := by
  have step := effect_lease h did job.id
  have token : job.leaseToken = leaseToken := by
    cases did
    rfl
  have granted : leaseAction job.id now (.lease owner leaseSeconds leaseToken attemptId locked)
      (.ok (.leased (some job))) = .grant leaseToken (now + seconds leaseSeconds) := if_pos rfl
  rw [granted] at step
  rw [token]
  generalize leaseOf job.id db' = after at step ⊢
  generalize leaseOf job.id db = before at step ⊢
  cases step with
  | grant _ _ _ free => exact ⟨rfl, free⟩

/-- The queue, at its reachable states, refines the lease slot of every job. -/
theorem queue_refines (crate : UrlCrate) (jobId : Uuid) :
    Lease.Refines (step crate) (fun s e => Admits s e ∧ Consistent s.db) System.clock Event.now
      (fun s => leaseOf jobId s.db) (fun s e => leaseAction jobId e.now e.op (answer crate s e)) where
  forward _ _ h := h.1.1
  clock _ _ _ := rfl
  acts s e h := effect_lease h.2 (step_effect crate s e) jobId

/-- A complete or fail carrying the token that committed. -/
def Releases (crate : UrlCrate) (s : System) (e : Event) (token : Uuid) : Prop :=
  ∃ job : CrawlJob, job.leaseToken = token ∧
    ((∃ output apiReceipt, e.op = .complete job output apiReceipt ∧
        answer crate s e = .ok .completed) ∨
      ∃ errorCode details, e.op = .fail job errorCode details ∧ answer crate s e = .ok .failed)

theorem releases_of_action {crate : UrlCrate} {s : System} {e : Event} {jobId token : Uuid}
    (h : leaseAction jobId e.now e.op (answer crate s e) = .release token) :
    Releases crate s e token := by
  unfold leaseAction at h
  split at h
  · split at h <;> cases h
  · rename_i job output apiReceipt op ok
    split at h
    · cases h
      exact ⟨job, rfl, .inl ⟨output, apiReceipt, op, ok⟩⟩
    · cases h
  · rename_i job errorCode details op ok
    split at h
    · cases h
      exact ⟨job, rfl, .inr ⟨errorCode, details, op, ok⟩⟩
    · cases h
  · cases h

theorem leased_grants {crate : UrlCrate} {s : System} {e : Event} {job : CrawlJob}
    (leased : answer crate s e = .ok (.leased (some job))) :
    ∃ expiry, leaseAction job.id e.now e.op (answer crate s e) = .grant job.leaseToken expiry ∧
      ∀ row ∈ (step crate s e).db.jobs, row.id = job.id → row.leaseExpiresAt = some expiry := by
  have did := step_effect crate s e
  generalize (step crate s e).db = after at did
  rw [leased] at did ⊢
  generalize e.op = op at did
  cases did with
  | leased owner leaseSeconds token attemptId _ candidate found =>
    obtain ⟨member, _⟩ := candidate_leasable found
    refine ⟨e.now + seconds leaseSeconds, if_pos rfl, ?_⟩
    intro row hrow same
    rcases Table.mem_update.mp hrow with ⟨_, _, _, rfl⟩ | ⟨_, skipped⟩
    · rfl
    · simp [same] at skipped

theorem lease_exclusive (crate : UrlCrate) (clock : Timestamp) (before between : List Event)
    (first second : Event)
    (admissible : Admissible crate (.start clock) (before ++ first :: (between ++ [second])))
    (job : CrawlJob)
    (leased : answer crate (run crate (.start clock) before) first = .ok (.leased (some job)))
    (row : JobRow) (member : row ∈ (run crate (.start clock) (before ++ [first])).db.jobs)
    (sameRow : row.id = job.id) (expiry : Timestamp) (expires : row.leaseExpiresAt = some expiry)
    (again : CrawlJob)
    (leasedAgain : answer crate (run crate (.start clock) (before ++ first :: between)) second =
      .ok (.leased (some again)))
    (sameJob : again.id = job.id) (covered : second.now ≤ expiry) :
    ∃ pre x post, between = pre ++ x :: post ∧
      Releases crate (run crate (.start clock) (before ++ first :: pre)) x job.leaseToken := by
  have safe := Runs.admissible_invariant (P := fun s => Consistent s.db) (step_consistent crate)
    migrated_consistent admissible
  obtain ⟨granted, one, known⟩ := leased_grants leased
  have same : granted = expiry := by
    unfold run at member
    rw [Runs.run_snoc] at member
    exact Option.some.inj ((known row member sameRow).symm.trans expires)
  subst same
  obtain ⟨_, two, _⟩ := leased_grants leasedAgain
  rw [sameJob] at two
  obtain ⟨pre, x, post, cut, released⟩ :=
    Lease.exclusion (queue_refines crate job.id) safe one two covered
  exact ⟨pre, x, post, cut, releases_of_action released⟩

/-- Completed and re-seeded, the job is leased again inside the first lease's time. -/
theorem lease_exclusive_released :
    ∃ pre x post, [completeReleases 2 20 30, seedReleases 3 11] = pre ++ x :: post ∧
      Releases releasesCrate
        (run releasesCrate (.start 0) ([seedReleases 0 10] ++ leaseReleases 1 20 30 :: pre)) x 20 :=
  lease_exclusive releasesCrate 0 [seedReleases 0 10] [completeReleases 2 20 30, seedReleases 3 11]
    (leaseReleases 1 20 30) (leaseReleases 4 21 31) (by decide) (releasesJob 20 30) (by decide)
    (takeLease 20 "worker".toList 30 (seconds 1) (newJob 10 1 2
      "https://docs.example.com/releases".toList 3600 1 true 0))
    (by decide) rfl (seconds 31) (by decide) (releasesJob 21 31) (by decide) rfl (by decide)

end EalSync.Runtime
