import EalSync.Runtime.Invariant

/-! The queue as one job sees it: what each answered operation does to the row with a given id. -/
namespace EalSync.Runtime

def jobRow (jobId : Uuid) (db : Database) : Option JobRow := Table.lookup JobRow.id jobId db.jobs

/-- The operation leased, completed or failed this job. -/
def Concerns (jobId : Uuid) : Op → Except Error Reply → Prop
  | .lease .., .ok (.leased (some job)) => job.id = jobId
  | .complete job _ _, .ok .completed => job.id = jobId
  | .fail job _ _, .ok .failed => job.id = jobId
  | _, _ => False

inductive RowEffect (now : Timestamp) (db : Database) (jobId : Uuid) :
    Op → Except Error Reply → Option JobRow → Option JobRow → Prop where
  | kept (op : Op) (result : Except Error Reply) (row : Option JobRow) :
      ¬Concerns jobId op result → RowEffect now db jobId op result row row
  | inserted (tenantId sourceId : Uuid) (startUrl url : Str) (intervalSeconds maxAttempts : Int)
      (enabled : Bool) (result : Except Error Reply) :
      (newJob jobId tenantId sourceId url intervalSeconds maxAttempts enabled now).Sound →
      RowEffect now db jobId (.seed tenantId sourceId startUrl intervalSeconds maxAttempts enabled jobId)
        result none
        (some (newJob jobId tenantId sourceId url intervalSeconds maxAttempts enabled now))
  | reseeded (tenantId sourceId id : Uuid) (startUrl : Str) (intervalSeconds maxAttempts : Int)
      (enabled : Bool) (result : Except Error Reply) (row : JobRow) :
      RowEffect now db jobId (.seed tenantId sourceId startUrl intervalSeconds maxAttempts enabled id)
        result (some row) (some (reseed intervalSeconds maxAttempts enabled now row))
  | leased (owner : Str) (leaseSeconds : Int) (leaseToken attemptId : Uuid) (locked : List Uuid)
      (row : JobRow) :
      leaseCandidate now locked db = some row → row.leasable now = true →
      LeaseAccepts owner leaseSeconds →
      RowEffect now db jobId (.lease owner leaseSeconds leaseToken attemptId locked)
        (.ok (.leased (some (leasedJob row leaseToken attemptId)))) (some row)
        (some (takeLease leaseToken owner leaseSeconds now row))
  | completed (job : CrawlJob) (output : CrawlCommandOutput) (apiReceipt : Json) (row : JobRow) :
      job.id = jobId → row.leaseToken = some job.leaseToken →
      RowEffect now db jobId (.complete job output apiReceipt) (.ok .completed) (some row)
        (some ((completion output apiReceipt now).setJob row))
  | failed (job : CrawlJob) (errorCode : Str) (details : Json) (row : JobRow) :
      job.id = jobId → row.leaseToken = some job.leaseToken →
      RowEffect now db jobId (.fail job errorCode details) (.ok .failed) (some row)
        (some ((failure job errorCode details now).setJob row))
  | reaped (result : Except Error Reply) (row : JobRow) :
      row.lapsed now = true → RowEffect now db jobId .reapExpired result (some row) (some (reap now row))

theorem jobRow_mem {jobId : Uuid} {db : Database} {row : JobRow} (h : jobRow jobId db = some row) :
    row ∈ db.jobs ∧ row.id = jobId := Table.lookup_mem h

theorem jobRow_of_mem {db : Database} (h : Consistent db) {row : JobRow} (member : row ∈ db.jobs) :
    jobRow row.id db = some row := Table.lookup_of_mem h.jobIds member

theorem jobRow_update {p : JobRow → Bool} {f : JobRow → JobRow}
    (keeps : ∀ job, (f job).id = job.id) (jobId : Uuid) (db : Database)
    (attempts : List AttemptRow) :
    (∃ row, jobRow jobId db = some row ∧ p row = true ∧
      jobRow jobId ⟨Table.update p f db.jobs, attempts⟩ = some (f row)) ∨
    ((∀ row, jobRow jobId db = some row → p row = false) ∧
      jobRow jobId ⟨Table.update p f db.jobs, attempts⟩ = jobRow jobId db) := by
  unfold jobRow
  rw [Table.lookup_update keeps]
  cases found : Table.lookup JobRow.id jobId db.jobs with
  | none => exact .inr ⟨by simp, rfl⟩
  | some row =>
    by_cases selected : p row = true
    · exact .inl ⟨row, rfl, selected, by simp [selected]⟩
    · refine .inr ⟨?_, by simp [selected]⟩
      rintro _ ⟨⟩
      simpa using selected

theorem jobRow_insert (jobId : Uuid) {db : Database} (row : JobRow)
    (ids : ∀ job ∈ db.jobs, job.id ≠ row.id) :
    (row.id = jobId ∧ jobRow jobId db = none ∧
      jobRow jobId { db with jobs := db.jobs ++ [row] } = some row) ∨
    jobRow jobId { db with jobs := db.jobs ++ [row] } = jobRow jobId db := by
  unfold jobRow
  rw [Table.lookup_append]
  by_cases same : row.id = jobId
  · have none := Table.lookup_eq_none.mpr fun job member => same ▸ ids job member
    exact .inl ⟨same, none, by simp [none, same]⟩
  · exact .inr (by simp [same])

theorem jobRow_resolved {db : Database} (h : Consistent db) {r : Resolution} (lawful : r.Lawful)
    {job : CrawlJob} (attempt : Table.affected job.matchesAttempt db.attempts = 1)
    (released : Table.affected job.matchesJob db.jobs = 1) (jobId : Uuid) :
    (job.id = jobId ∧ ∃ row, jobRow jobId db = some row ∧ row.leaseToken = some job.leaseToken ∧
      jobRow jobId (resolved r job db) = some (r.setJob row)) ∨
    (job.id ≠ jobId ∧ jobRow jobId (resolved r job db) = jobRow jobId db) := by
  have keeps : ∀ row, (r.setJob row).id = row.id :=
    fun row => JobRow.id_of_identity (lawful.jobIdentity row)
  obtain ⟨held, hheld, _, _, heldId, heldToken, _⟩ := h.resolves attempt released
  rcases jobRow_update (p := job.matchesJob) keeps jobId db
    (Table.update job.matchesAttempt r.setAttempt db.attempts) with
    ⟨row, found, selected, after⟩ | ⟨skipped, after⟩
  · rw [CrawlJob.matchesJob_iff] at selected
    exact .inl ⟨selected.1.symm.trans (jobRow_mem found).2, row, found, selected.2, after⟩
  · refine .inr ⟨?_, after⟩
    rintro rfl
    have unmatched := skipped held (heldId ▸ jobRow_of_mem h hheld)
    rw [CrawlJob.matchesJob_iff.mpr ⟨heldId, heldToken⟩] at unmatched
    cases unmatched

theorem effect_row {db db' : Database} (h : Consistent db) {now : Timestamp} {op : Op}
    {result : Except Error Reply} (did : Effect now db op result db') (jobId : Uuid) :
    RowEffect now db jobId op result (jobRow jobId db) (jobRow jobId db') := by
  cases did with
  | refused op error => exact .kept _ _ _ (by cases op <;> exact False.elim)
  | inserted tenantId sourceId id startUrl url intervalSeconds maxAttempts enabled admissible _ ids =>
    rcases jobRow_insert jobId
      (newJob id tenantId sourceId url intervalSeconds maxAttempts enabled now) ids with
      ⟨rfl, absent, found⟩ | same
    · rw [absent, found]
      exact .inserted _ _ _ _ _ _ _ _ (JobRow.newJob_sound admissible)
    · rw [same]
      exact .kept _ _ _ False.elim
  | reseeded tenantId sourceId id startUrl url intervalSeconds maxAttempts enabled =>
    rcases jobRow_update (p := fun job => job.key == (tenantId, sourceId, url))
      (reseed_id intervalSeconds maxAttempts enabled now) jobId db db.attempts with
      ⟨row, found, _, after⟩ | ⟨_, same⟩
    · rw [found, after]
      exact .reseeded _ _ _ _ _ _ _ _ row
    · rw [same]
      exact .kept _ _ _ False.elim
  | idle => exact .kept _ _ _ False.elim
  | leased owner leaseSeconds token attemptId locked candidate found accepts =>
    obtain ⟨member, ready⟩ := candidate_leasable found
    rcases jobRow_update (p := fun job => job.id == candidate.id)
      (takeLease_id token owner leaseSeconds now) jobId db
      (db.attempts ++ [newAttempt attemptId candidate.id token now]) with
      ⟨row, held, selected, after⟩ | ⟨skipped, same⟩
    · have equal := h.same_job (jobRow_mem held).1 member (by simpa using selected)
      subst equal
      rw [granted, after, held]
      exact .leased _ _ _ _ _ row found ready accepts
    · rw [granted, same]
      refine .kept _ _ _ ?_
      rintro rfl
      simpa using skipped candidate (jobRow_of_mem h member)
  | completed job output apiReceipt attempt released =>
    rcases jobRow_resolved h (completion_lawful output apiReceipt now) attempt released jobId with
      ⟨own, row, found, held, after⟩ | ⟨other, same⟩
    · rw [found, after]
      exact .completed _ _ _ row own held
    · rw [same]
      exact .kept _ _ _ other
  | failed job errorCode details attempt released =>
    rcases jobRow_resolved h (failure_lawful job errorCode details now) attempt released jobId with
      ⟨own, row, found, held, after⟩ | ⟨other, same⟩
    · rw [found, after]
      exact .failed _ _ _ row own held
    · rw [same]
      exact .kept _ _ _ other
  | reaped =>
    rcases jobRow_update (p := reaps now db) (reap_id now) jobId db
      (Table.update (abandons now db) (abandon now) db.attempts) with
      ⟨row, found, selected, after⟩ | ⟨_, same⟩
    · obtain ⟨⟨t, token⟩, expired⟩ := (h.reaps_iff (jobRow_mem found).1).mp selected
      rw [found, reaped, after]
      exact .reaped _ row (JobRow.lapsed_iff.mpr ⟨⟨t, token⟩, expired⟩)
    · rw [reaped, same]
      exact .kept _ _ _ False.elim

end EalSync.Runtime
