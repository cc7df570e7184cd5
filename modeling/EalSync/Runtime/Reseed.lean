import EalSync.Runtime.Spacing

/-! What a seed makes of a job that exists. It enables the job and makes it due, but the failures
since the last success stay counted: only the budget that they count against is new. -/
namespace EalSync.Runtime

section

variable (crate : UrlCrate) (s : System) (e : Event) (jobId : Uuid)

/-- The event changes the row of the job. -/
inductive Touches : Prop where
  | seeded : SeedsJob crate s e jobId → Touches
  | leased : LeasesJob crate s e jobId → Touches
  | completed : Succeeds crate s e jobId → Touches
  | failed (job : CrawlJob) : Fails crate s e job → job.id = jobId → Touches
  | reaped : AbandonsJob s e jobId → Touches

end

/-- The failures that are counted against the budget of a job; of a job yet to be inserted, none. -/
def countedFailures (jobId : Uuid) (db : Database) : Int :=
  ((jobRow jobId db).map JobRow.attemptCount).getD 0

/-- The row after a seed that enables it, at any time from then on. -/
structure Awaits (now : Timestamp) (count maxAttempts : Int) (row : JobRow) : Prop where
  enabled : row.enabled = true
  due : row.nextRunAt ≤ now
  budget : row.maxAttempts = maxAttempts
  counted : row.attemptCount = count

theorem Awaits.leasable {seededAt now : Timestamp} {count maxAttempts : Int} {row : JobRow}
    (awaits : Awaits seededAt count maxAttempts row) (later : seededAt ≤ now)
    (free : row.leaseToken = none ∨ row.expired now = true) :
    row.leasable now = true ↔ count < maxAttempts := by
  rw [JobRow.leasable_iff, awaits.enabled, awaits.budget, awaits.counted]
  constructor
  · exact fun ready => ready.2.2.1
  · exact fun spare => ⟨rfl, awaits.due.trans later, spare, free⟩

section Events

variable {crate : UrlCrate} {s : System} {e : Event} {jobId : Uuid}

theorem jobRow_inserted {db : Database} (row : JobRow) (ids : ∀ job ∈ db.jobs, job.id ≠ row.id) :
    jobRow row.id { db with jobs := db.jobs ++ [row] } = some row := by
  have absent : Table.lookup JobRow.id row.id db.jobs = none := Table.lookup_eq_none.mpr ids
  rw [jobRow, Table.lookup_append, absent]
  simp

theorem seedsJob_row (h : Consistent s.db) {tenantId sourceId id : Uuid} {startUrl : Str}
    {intervalSeconds maxAttempts : Int}
    (op : e.op = .seed tenantId sourceId startUrl intervalSeconds maxAttempts true id)
    (seeds : SeedsJob crate s e jobId) :
    ∃ row, jobRow jobId (step crate s e).db = some row ∧
      Awaits e.now (countedFailures jobId s.db) maxAttempts row := by
  have did := step_effect crate s e
  rw [op, seeds] at did
  generalize (step crate s e).db = after at did
  unfold countedFailures
  cases did with
  | inserted _ _ _ _ url _ _ _ _ _ ids =>
    have absent : jobRow jobId s.db = none := Table.lookup_eq_none.mpr ids
    have found := jobRow_inserted
      (newJob jobId tenantId sourceId url intervalSeconds maxAttempts true e.now) ids
    rw [absent]
    exact ⟨_, found, rfl, le_rfl, rfl, rfl⟩
  | reseeded _ _ _ _ url _ _ _ existing _ _ member key =>
    have held := jobRow_of_mem h member
    rcases jobRow_update (p := fun job => job.key == (tenantId, sourceId, url))
      (reseed_id intervalSeconds maxAttempts true e.now) existing.id s.db s.db.attempts with
      ⟨row, before, _, found⟩ | ⟨skipped, _⟩
    · rw [before]
      exact ⟨_, found, rfl, min_le_right _ _, rfl, rfl⟩
    · have unmatched := skipped existing held
      rw [key, beq_self_eq_true] at unmatched
      cases unmatched

theorem untouched_row (h : Consistent s.db) {row : JobRow} (found : jobRow jobId s.db = some row)
    (untouched : ¬Touches crate s e jobId) : jobRow jobId (step crate s e).db = some row := by
  have did := step_effect crate s e
  have view := effect_row h did jobId
  have own := (jobRow_mem found).2
  have member := (jobRow_mem found).1
  generalize reply : answer crate s e = result at did view
  generalize operation : e.op = op at did view
  generalize (step crate s e).db = db' at did view
  rw [found] at view
  generalize after : jobRow jobId db' = row' at view
  cases view with
  | kept => rfl
  | reseeded =>
    by_cases seeds : result = .ok (.seeded jobId)
    · exact absurd (.seeded (reply.trans seeds)) untouched
    · exact after.symm.trans (unseeded_row h did seeds found)
  | leased => exact absurd (.leased ⟨_, reply, own⟩) untouched
  | completed job output apiReceipt _ same =>
    exact absurd (.completed ⟨⟨job, output, apiReceipt, operation, same⟩, reply⟩) untouched
  | failed job errorCode details _ same =>
    exact absurd (.failed job ⟨⟨errorCode, details, operation⟩, reply⟩ same) untouched
  | reaped _ _ lapsed =>
    obtain ⟨⟨t, held⟩, expired⟩ := JobRow.lapsed_iff.mp lapsed
    obtain ⟨a, ha, owner, token, opened⟩ := h.held row member t held
    refine absurd (.reaped ⟨operation, a, ha, owner.trans own, ?_⟩) untouched
    exact Consistent.abandons_iff.mpr ⟨opened, row, member, owner.symm, by rw [held, token], expired⟩

end Events

section Runs

variable (crate : UrlCrate) (clock : Timestamp)

/-- A seed that enables the job was answered, and no event after it has touched the job. -/
structure Reseeded (before : List Event) (seeded : Event) (after : List Event) (jobId : Uuid)
    (maxAttempts : Int) : Prop where
  op : ∃ tenantId sourceId startUrl intervalSeconds id,
    seeded.op = .seed tenantId sourceId startUrl intervalSeconds maxAttempts true id
  answered : SeedsJob crate (run crate (.start clock) before) seeded jobId
  untouched : ∀ pre x post, after = pre ++ x :: post →
    ¬Touches crate (run crate (.start clock) (before ++ seeded :: pre)) x jobId

variable {crate clock} {before after : List Event} {seeded : Event} {jobId : Uuid} {maxAttempts : Int}

theorem Reseeded.awaits (reseeded : Reseeded crate clock before seeded after jobId maxAttempts)
    (admissible : Admissible crate (.start clock) (before ++ seeded :: after)) :
    ∃ row, jobRow jobId (run crate (.start clock) (before ++ seeded :: after)).db = some row ∧
      Awaits seeded.now (countedFailures jobId (run crate (.start clock) before).db) maxAttempts row ∧
      seeded.now ≤ (run crate (.start clock) (before ++ seeded :: after)).clock := by
  obtain ⟨start, admits, rest⟩ := (Runs.admissible_append _ _ _ _ _).mp admissible
  have h := reachable_consistent start
  obtain ⟨tenantId, sourceId, startUrl, intervalSeconds, id, op⟩ := reseeded.op
  obtain ⟨row, found, awaits⟩ := seedsJob_row h op reseeded.answered
  have guarded := guarded_after (P := fun s x => ¬Touches crate s x jobId) rest reseeded.untouched
  rw [run_after]
  have last := Runs.run_invariant (P := fun s => Consistent s.db ∧ seeded.now ≤ s.clock ∧
      jobRow jobId s.db = some row)
    (fun s x h guard => ⟨step_consistent crate s x h.1 guard.1, h.2.1.trans guard.1.1,
      untouched_row h.1 h.2.2 guard.2⟩)
    ⟨step_consistent crate _ seeded h admits, le_rfl, found⟩ guarded
  exact ⟨row, last.2.2, awaits, last.2.1⟩

end Runs

/-- A seed brings a job back, from a back-off or from a worker that died, exactly when its budget
exceeds the failures that were counted before it. -/
theorem reseeded_leasable (crate : UrlCrate) (clock : Timestamp) (before after : List Event)
    (seeded : Event) (admissible : Admissible crate (.start clock) (before ++ seeded :: after))
    (jobId : Uuid) (maxAttempts : Int)
    (reseeded : Reseeded crate clock before seeded after jobId maxAttempts) :
    ∃ row, jobRow jobId (run crate (.start clock) (before ++ seeded :: after)).db = some row ∧
      ∀ now, (run crate (.start clock) (before ++ seeded :: after)).clock ≤ now →
        (row.leaseToken = none ∨ row.expired now = true) →
        (row.leasable now = true ↔
          countedFailures jobId (run crate (.start clock) before).db < maxAttempts) := by
  obtain ⟨row, found, awaits, past⟩ := reseeded.awaits admissible
  exact ⟨row, found, fun now later free => awaits.leasable (past.trans later) free⟩

/-- The only attempt of a job with a budget of one has failed. -/
def exhaustedReleases : List Event :=
  [seedReleases 0 10, leaseReleases 1 20 30, ⟨seconds 2, .fail (releasesJob 20 30) "timeout".toList .null⟩]

theorem reseeded_exhausted :
    Admissible releasesCrate (.start 0) (exhaustedReleases ++ [seedReleases 100 11]) ∧
    Reseeded releasesCrate 0 exhaustedReleases (seedReleases 100 11) [] 10 1 ∧
    ∃ row, jobRow 10 (run releasesCrate (.start 0) (exhaustedReleases ++ [seedReleases 100 11])).db =
        some row ∧ row.leaseToken = none ∧ ∀ now, row.leasable now = false := by
  have admissible : Admissible releasesCrate (.start 0) (exhaustedReleases ++ [seedReleases 100 11]) := by
    decide
  have reseeded : Reseeded releasesCrate 0 exhaustedReleases (seedReleases 100 11) [] 10 1 :=
    ⟨⟨_, _, _, _, _, rfl⟩, by unfold SeedsJob; decide, fun pre x post split => by simp at split⟩
  obtain ⟨row, found, awaits, _⟩ := reseeded.awaits admissible
  refine ⟨admissible, reseeded, row, found, ?_, fun now => ?_⟩
  · have free : (jobRow 10 (run releasesCrate (.start 0)
        (exhaustedReleases ++ [seedReleases 100 11])).db).all (·.leaseToken.isNone) = true := by decide
    rw [found] at free
    exact Option.isNone_iff_eq_none.mp free
  · have spent : countedFailures 10 (run releasesCrate (.start 0) exhaustedReleases).db = 1 := by decide
    rw [Bool.eq_false_iff]
    intro ready
    have spare := (JobRow.leasable_iff.mp ready).2.2.1
    rw [awaits.counted, awaits.budget, spent] at spare
    exact absurd spare (by decide)

/-- With a larger budget the same seed brings the job back. -/
def largerSeed : Event :=
  ⟨seconds 100, .seed 1 2 "https://docs.example.com/releases".toList 3600 2 true 11⟩

theorem reseeded_leasable_larger :
    ∃ row, jobRow 10 (run releasesCrate (.start 0) (exhaustedReleases ++ largerSeed :: [])).db =
        some row ∧
      ∀ now, (run releasesCrate (.start 0) (exhaustedReleases ++ largerSeed :: [])).clock ≤ now →
        (row.leaseToken = none ∨ row.expired now = true) →
        (row.leasable now = true ↔
          countedFailures 10 (run releasesCrate (.start 0) exhaustedReleases).db < 2) :=
  reseeded_leasable releasesCrate 0 exhaustedReleases [] largerSeed (by decide) 10 2
    ⟨⟨_, _, _, _, _, rfl⟩, by unfold SeedsJob; decide, fun pre x post split => by simp at split⟩

end EalSync.Runtime
