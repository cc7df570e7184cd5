import EalSync.Runtime.Progress

/-! The receipts of leases. A receipt stays open exactly as long as its lease is held, unless a
lease takes over a job whose expired lease was never reaped; a reap closes exactly the receipts of
the leases it clears. -/
namespace EalSync.Runtime

/-- Every open receipt belongs to the lease its job now holds. -/
def NoOrphan (db : Database) : Prop :=
  ∀ a ∈ db.attempts, a.status = .leased →
    ∃ job ∈ db.jobs, job.id = a.jobId ∧ job.leaseToken = some a.leaseToken

instance (db : Database) : Decidable (NoOrphan db) :=
  inferInstanceAs (Decidable (∀ a ∈ db.attempts, _ → ∃ job ∈ db.jobs, _))

/-- The job that a lease call with accepted arguments takes although it still holds a token. -/
def takenOver (s : System) (e : Event) : Option JobRow :=
  match e.op with
  | .lease owner leaseSeconds _ _ locked =>
    if LeaseAccepts owner leaseSeconds then
      (leaseCandidate e.now locked s.db).filter fun job => job.leaseToken.isSome
    else none
  | _ => none

theorem takenOver_lease {s : System} {now : Timestamp} {owner : Str} {leaseSeconds : Int}
    {token attemptId : Uuid} {locked : List Uuid} (accepts : LeaseAccepts owner leaseSeconds) :
    takenOver s ⟨now, .lease owner leaseSeconds token attemptId locked⟩ =
      (leaseCandidate now locked s.db).filter fun job => job.leaseToken.isSome := if_pos accepts

def TakesOver (s : System) (e : Event) : Prop := takenOver s e ≠ none

instance (s : System) (e : Event) : Decidable (TakesOver s e) :=
  inferInstanceAs (Decidable (_ ≠ _))

namespace NoOrphan

variable {db : Database}

theorem inserted (h : NoOrphan db) (row : JobRow) : NoOrphan { db with jobs := db.jobs ++ [row] } := by
  intro a ha opened
  obtain ⟨job, member, owner⟩ := h a ha opened
  exact ⟨job, List.mem_append_left _ member, owner⟩

theorem reseeded (h : NoOrphan db) (p : JobRow → Bool) (intervalSeconds maxAttempts : Int)
    (enabled : Bool) (now : Timestamp) :
    NoOrphan { db with
      jobs := Table.update p (reseed intervalSeconds maxAttempts enabled now) db.jobs } := by
  intro a ha opened
  obtain ⟨job, member, owner⟩ := h a ha opened
  by_cases selected : p job = true
  · exact ⟨_, Table.mem_update_of_selected _ member selected, owner⟩
  · exact ⟨job, Table.mem_update_of_skipped _ member (by simpa using selected), owner⟩

theorem granted (h : NoOrphan db) (consistent : Consistent db) {candidate : JobRow}
    (member : candidate ∈ db.jobs) (free : candidate.leaseToken = none) (owner : Str)
    (leaseSeconds : Int) (token attemptId : Uuid) (now : Timestamp) :
    NoOrphan (granted owner leaseSeconds token attemptId now candidate db) := by
  intro a ha opened
  rcases List.mem_append.mp ha with old | new
  · obtain ⟨job, hjob, same, held⟩ := h a old opened
    have other : (job.id == candidate.id) = false := by
      by_contra selected
      rw [Bool.not_eq_false, beq_iff_eq] at selected
      rw [consistent.same_job hjob member selected, free] at held
      cases held
    exact ⟨job, Table.mem_update_of_skipped _ hjob other, same, held⟩
  · cases List.mem_singleton.mp new
    exact ⟨_, Table.mem_update_of_selected _ member (by simp), rfl, rfl⟩

theorem taken_over (consistent : Consistent db) {candidate : JobRow} (member : candidate ∈ db.jobs)
    {t : Uuid} (held : candidate.leaseToken = some t) (owner : Str) (leaseSeconds : Int)
    {token : Uuid} (newToken : ∀ a ∈ db.attempts, a.leaseToken ≠ token) (attemptId : Uuid)
    (now : Timestamp) :
    ¬NoOrphan (Runtime.granted owner leaseSeconds token attemptId now candidate db) := by
  intro h
  obtain ⟨a, ha, owned, same, opened⟩ := consistent.held candidate member t held
  obtain ⟨job, hjob, owns, holds⟩ := h a (List.mem_append_left _ ha) opened
  rcases Table.mem_update.mp hjob with ⟨_, _, _, rfl⟩ | ⟨_, skipped⟩
  · exact newToken a ha (Option.some.inj holds).symm
  · simp [owns, owned] at skipped

theorem resolved (h : NoOrphan db) (consistent : Consistent db) {r : Resolution} (lawful : r.Lawful)
    {job : CrawlJob} (attempt : Table.affected job.matchesAttempt db.attempts = 1)
    (released : Table.affected job.matchesJob db.jobs = 1) : NoOrphan (resolved r job db) := by
  obtain ⟨_, _, a, ha, _, _, attemptId, token, _, leased⟩ := consistent.resolves attempt released
  intro b hb opened
  rcases Table.mem_update.mp hb with ⟨old, _, _, rfl⟩ | ⟨hb, skipped⟩
  · exact absurd opened (lawful.closes old).1
  · obtain ⟨row, hrow, owns, holds⟩ := h b hb opened
    refine ⟨row, Table.mem_update_of_skipped _ hrow ?_, owns, holds⟩
    by_contra selected
    rw [Bool.not_eq_false, CrawlJob.matchesJob_iff] at selected
    have same : b.leaseToken = a.leaseToken := by
      rw [token, ← Option.some.injEq, ← holds, selected.2]
    rw [consistent.same_attempt hb ha same,
      CrawlJob.matchesAttempt_iff.mpr ⟨attemptId, token, leased⟩] at skipped
    cases skipped

theorem reaped (h : NoOrphan db) (consistent : Consistent db) (now : Timestamp) :
    NoOrphan (reaped now db) := by
  intro b hb opened
  rcases Table.mem_update.mp hb with ⟨_, _, _, rfl⟩ | ⟨hb, skipped⟩
  · cases opened
  · obtain ⟨row, hrow, owns, holds⟩ := h b hb opened
    refine ⟨row, Table.mem_update_of_skipped _ hrow ?_, owns, holds⟩
    by_contra selected
    rw [Bool.not_eq_false] at selected
    have expired := ((consistent.reaps_iff hrow).mp selected).2
    rw [Consistent.abandons_iff.mpr ⟨opened, row, hrow, owns, holds, expired⟩] at skipped
    cases skipped

end NoOrphan

theorem effect_no_orphan {db db' : Database} (consistent : Consistent db) (h : NoOrphan db)
    {now : Timestamp} {op : Op} {result : Except Error Reply} (did : Effect now db op result db')
    (clock : Timestamp) (kept : ¬TakesOver ⟨clock, db⟩ ⟨now, op⟩) : NoOrphan db' := by
  cases did with
  | refused => exact h
  | inserted => exact h.inserted _
  | reseeded => exact h.reseeded _ _ _ _ _
  | idle => exact h
  | leased owner leaseSeconds token attemptId locked candidate found accepts =>
    have free : candidate.leaseToken = none := by
      by_contra held
      apply kept
      rw [TakesOver, takenOver_lease accepts]
      simpa [found, Option.isSome_iff_ne_none] using held
    exact h.granted consistent (Table.mem_of_first found).1 free _ _ _ _ _
  | completed _ output apiReceipt attempt released =>
    exact h.resolved consistent (completion_lawful output apiReceipt now) attempt released
  | failed job errorCode details attempt released =>
    exact h.resolved consistent (failure_lawful job errorCode details now) attempt released
  | reaped => exact h.reaped consistent now

theorem takenOver_some {s : System} {e : Event} {job : JobRow} (taken : takenOver s e = some job) :
    ∃ owner leaseSeconds token attemptId locked, e.op = .lease owner leaseSeconds token attemptId locked ∧
      LeaseAccepts owner leaseSeconds ∧ leaseCandidate e.now locked s.db = some job ∧
      ∃ t, job.leaseToken = some t := by
  unfold takenOver at taken
  split at taken
  · rename_i owner leaseSeconds token attemptId locked same
    split at taken
    · rename_i accepts
      obtain ⟨found, held⟩ := Option.filter_eq_some_iff.mp taken
      exact ⟨owner, leaseSeconds, token, attemptId, locked, same, accepts, found,
        Option.isSome_iff_exists.mp held⟩
    · cases taken
  · cases taken

theorem takeover_orphans (crate : UrlCrate) {s : System} {e : Event} (consistent : Consistent s.db)
    (admits : Admits s e) (taken : TakesOver s e) : ¬NoOrphan (step crate s e).db := by
  obtain ⟨candidate, taken⟩ := Option.ne_none_iff_exists'.mp taken
  obtain ⟨owner, leaseSeconds, token, attemptId, locked, same, accepts, found, t, held⟩ :=
    takenOver_some taken
  obtain ⟨now, op⟩ := e
  dsimp only at same found
  subst same
  have ok := consistent.lease_eq accepts admits.2 found
  simp only [step, Op.exec, reply, ok]
  exact NoOrphan.taken_over consistent (Table.mem_of_first found).1 held _ _ admits.2.1 _ _

/-- No receipt is ever orphaned exactly when no lease of the run takes over. -/
theorem no_orphan_iff (crate : UrlCrate) (clock : Timestamp) (es : List Event)
    (admissible : Admissible crate (.start clock) es) :
    (∀ before after, es = before ++ after → NoOrphan (run crate (.start clock) before).db) ↔
      Runs.Admissible (step crate) (fun s e => ¬TakesOver s e) (.start clock) es := by
  have safe := Runs.admissible_invariant (P := fun s => Consistent s.db) (step_consistent crate)
    migrated_consistent admissible
  constructor
  · intro every
    refine Runs.admissible_iff_at.mpr ?_
    intro before e after split taken
    obtain ⟨admits, consistent⟩ := Runs.admissible_at (split ▸ safe)
    apply takeover_orphans crate consistent admits taken
    have reached := every (before ++ [e]) after (by simpa using split)
    rwa [run, Runs.run_snoc] at reached
  · intro untaken before after split
    have both := Runs.admissible_and.mpr ⟨safe, untaken⟩
    rw [split] at both
    refine Runs.run_invariant (P := fun s => NoOrphan s.db) ?_
      (fun _ member => absurd member List.not_mem_nil)
      ((Runs.admissible_append _ _ _ before after).mp both).1
    intro s e h guard
    exact effect_no_orphan guard.1.2 h (step_effect crate s e) s.clock guard.2

theorem no_orphan_iff_completed :
    NoOrphan (run releasesCrate (.start 0) [seedReleases 0 10, leaseReleases 1 20 30,
      completeReleases 2 20 30, ⟨seconds 3, .reapExpired⟩, leaseReleases 4000 21 31]).db :=
  (no_orphan_iff releasesCrate 0 _ (by decide)).mpr (by decide) _ [] rfl

/-- The second lease finds the first one expired and not reaped, and its receipt stays open. -/
theorem takeover_leaves_orphan :
    ¬∀ crate clock es, Admissible crate (.start clock) es →
      NoOrphan (run crate (.start clock) es).db := by
  intro every
  have reached := every releasesCrate 0
    [seedReleases 0 10, leaseReleases 1 20 30, leaseReleases 32 21 31] (by decide)
  revert reached
  decide

/-- A lease that is over at now. -/
structure Lapsed (now : Timestamp) (job : JobRow) : Prop where
  held : job.leaseToken ≠ none
  ended : ∃ expiry, job.leaseExpiresAt = some expiry ∧ expiry < now

/-- The receipt b is a, abandoned at now. -/
structure Abandoned (now : Timestamp) (a b : AttemptRow) : Prop where
  status : b.status = .abandoned
  finishedAt : b.finishedAt = some now
  errorCode : b.errorCode = some "lease_expired".toList
  details : b.details = .object [("reason".toList, .string "worker lease expired".toList)]
  kept : (b.id, b.jobId, b.leaseToken, b.startedAt, b.apiReceipt) =
    (a.id, a.jobId, a.leaseToken, a.startedAt, a.apiReceipt)

/-- The job row is freed of its lease at now, for a next attempt in a minute. -/
structure Freed (now : Timestamp) (job freed : JobRow) : Prop where
  leaseToken : freed.leaseToken = none
  leaseOwner : freed.leaseOwner = none
  leaseExpiresAt : freed.leaseExpiresAt = none
  attemptCount : freed.attemptCount = job.attemptCount + 1
  nextRunAt : freed.nextRunAt = now + seconds 60
  lastErrorCode : freed.lastErrorCode = some "lease_expired".toList
  updatedAt : freed.updatedAt = now
  kept : (freed.id, freed.key, freed.enabled, freed.intervalSeconds, freed.maxAttempts, freed.createdAt) =
    (job.id, job.key, job.enabled, job.intervalSeconds, job.maxAttempts, job.createdAt)

/-- The receipt is open, and that of a lease which is over at now. -/
def Closing (now : Timestamp) (db : Database) (a : AttemptRow) : Prop :=
  a.status = .leased ∧
    ∃ job ∈ db.jobs, job.id = a.jobId ∧ job.leaseToken = some a.leaseToken ∧ Lapsed now job

/-- What one reap_expired at now did, from db to db'. -/
structure Reaping (now : Timestamp) (db db' : Database) (count : Nat) : Prop where
  cleared : ∀ job ∈ db'.jobs, ¬Lapsed now job
  jobs : List.Forall₂ (fun job job' => (Lapsed now job → Freed now job job') ∧
    (¬Lapsed now job → job' = job)) db.jobs db'.jobs
  attempts : List.Forall₂ (fun a a' => (Closing now db a → Abandoned now a a') ∧
    (¬Closing now db a → a' = a)) db.attempts db'.attempts
  one : ∀ job ∈ db.jobs, Lapsed now job → ∃! a, a ∈ db.attempts ∧ a.jobId = job.id ∧ Closing now db a
  counted : count = (expiredJobs now db).length ∧ ∀ job, job ∈ expiredJobs now db ↔
    job ∈ db.jobs ∧ Lapsed now job

theorem JobRow.lapsed_iff_ended {now : Timestamp} {job : JobRow} :
    job.lapsed now = true ↔ Lapsed now job := by
  rw [JobRow.lapsed_iff, JobRow.expired, Option.any_eq_true]
  constructor
  · rintro ⟨⟨t, held⟩, expiry, found, ended⟩
    exact ⟨by rw [held]; exact Option.some_ne_none t, expiry, found, by simpa using ended⟩
  · rintro ⟨held, expiry, found, ended⟩
    exact ⟨Option.ne_none_iff_exists'.mp held, expiry, found, by simpa using ended⟩

namespace Consistent

variable {db : Database}

theorem reaps_eq_lapsed (h : Consistent db) (now : Timestamp) {job : JobRow} (member : job ∈ db.jobs) :
    reaps now db job = job.lapsed now := by
  rw [Bool.eq_iff_iff, h.reaps_iff member, JobRow.lapsed_iff]

theorem closing_iff {now : Timestamp} {a : AttemptRow} :
    abandons now db a = true ↔ Closing now db a := by
  rw [abandons_iff]
  refine and_congr_right fun _ => ?_
  constructor
  · rintro ⟨job, member, owns, holds, expired⟩
    have lapsed := JobRow.lapsed_iff.mpr ⟨⟨_, holds⟩, expired⟩
    exact ⟨job, member, owns, holds, JobRow.lapsed_iff_ended.mp lapsed⟩
  · rintro ⟨job, member, owns, holds, lapsed⟩
    exact ⟨job, member, owns, holds, (JobRow.lapsed_iff.mp (JobRow.lapsed_iff_ended.mpr lapsed)).2⟩

theorem one_abandoned (h : Consistent db) {now : Timestamp} {job : JobRow} (hjob : job ∈ db.jobs)
    (lapsed : Lapsed now job) :
    ∃! a, a ∈ db.attempts ∧ a.jobId = job.id ∧ Closing now db a := by
  obtain ⟨t, held⟩ := Option.ne_none_iff_exists'.mp lapsed.held
  obtain ⟨a, ha, owner, token, opened⟩ := h.held job hjob t held
  refine ⟨a, ⟨ha, owner, opened, job, hjob, owner.symm, by rw [held, token], lapsed⟩, ?_⟩
  rintro b ⟨hb, owner', _, row, hrow, owns, holds, _⟩
  rw [h.same_job hrow hjob (owns.trans owner'), held, Option.some.injEq] at holds
  exact h.same_attempt hb ha (holds.symm.trans token.symm)

theorem reap_freed (now : Timestamp) (job : JobRow) : Freed now job (reap now job) :=
  ⟨rfl, rfl, rfl, rfl, rfl, rfl, rfl, rfl⟩

theorem abandon_abandoned (now : Timestamp) (a : AttemptRow) : Abandoned now a (abandon now a) :=
  ⟨rfl, rfl, rfl, rfl, rfl⟩

theorem reaping (h : Consistent db) (now : Timestamp) :
    Reaping now db (Runtime.reaped now db) (Table.affected (reaps now db) db.jobs) where
  cleared job member lapsed := by
    rcases Table.mem_update.mp member with ⟨_, _, _, rfl⟩ | ⟨hjob, skipped⟩
    · exact lapsed.held rfl
    · rw [h.reaps_eq_lapsed now hjob, JobRow.lapsed_iff_ended.mpr lapsed] at skipped
      cases skipped
  jobs := by
    refine Table.forall₂_update (fun job member selected => ?_) fun job member skipped => ?_
    · rw [h.reaps_eq_lapsed now member, JobRow.lapsed_iff_ended] at selected
      exact ⟨fun _ => reap_freed now job, fun kept => absurd selected kept⟩
    · refine ⟨fun lapsed => ?_, fun _ => rfl⟩
      rw [h.reaps_eq_lapsed now member, JobRow.lapsed_iff_ended.mpr lapsed] at skipped
      cases skipped
  attempts := by
    refine Table.forall₂_update (fun a _ selected => ?_) fun a _ skipped => ?_
    · exact ⟨fun _ => abandon_abandoned now a, fun kept => absurd (closing_iff.mp selected) kept⟩
    · refine ⟨fun closing => ?_, fun _ => rfl⟩
      rw [closing_iff.mpr closing] at skipped
      cases skipped
  one _ member lapsed := h.one_abandoned member lapsed
  counted := by
    constructor
    · rw [Table.affected, expiredJobs, ← List.countP_eq_length_filter]
      exact List.countP_congr fun job member => by rw [h.reaps_eq_lapsed now member]
    · intro job
      rw [expiredJobs, List.mem_filter, JobRow.lapsed_iff_ended]

end Consistent

theorem reap_expired_exact (crate : UrlCrate) (clock : Timestamp) (es : List Event)
    (admissible : Admissible crate (.start clock) es) (now : Timestamp) :
    ∃ db' count, reapExpired now (run crate (.start clock) es).db = (.ok count, db') ∧
      Reaping now (run crate (.start clock) es).db db' count := by
  have consistent := reachable_consistent admissible
  exact ⟨_, _, consistent.reapExpired_eq now, consistent.reaping now⟩

theorem reap_expired_exact_taken_over :
    ∃ db' count, reapExpired (seconds 70) (run releasesCrate (.start 0)
        [seedReleases 0 10, leaseReleases 1 20 30, leaseReleases 32 21 31]).db = (.ok count, db') ∧
      Reaping (seconds 70) (run releasesCrate (.start 0)
        [seedReleases 0 10, leaseReleases 1 20 30, leaseReleases 32 21 31]).db db' count :=
  reap_expired_exact releasesCrate 0 _ (by decide) (seconds 70)

end EalSync.Runtime
