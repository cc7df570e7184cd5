import EalSync.Runtime.Schema

/-! runtime-worker/src/queue.rs. Each function takes the database time now() of its transaction
and the UUIDs it draws, and returns its result with the tables it leaves. The database is there: no
connection is lost, and no BEGIN, statement or COMMIT fails but for the reasons given here. -/
namespace EalSync.Runtime

/-- The row that seed inserts. -/
def newJob (id tenantId sourceId : Uuid) (startUrl : Str) (intervalSeconds maxAttempts : Int)
    (enabled : Bool) (now : Timestamp) : JobRow where
  id := id
  tenantId := tenantId
  sourceId := sourceId
  startUrl := startUrl
  enabled := enabled
  intervalSeconds := intervalSeconds
  nextRunAt := now
  leaseToken := none
  leaseOwner := none
  leaseExpiresAt := none
  attemptCount := 0
  maxAttempts := maxAttempts
  lastErrorCode := none
  createdAt := now
  updatedAt := now

/-- What seed sets on the row it conflicts with. -/
def reseed (intervalSeconds maxAttempts : Int) (enabled : Bool) (now : Timestamp) (job : JobRow) :
    JobRow :=
  { job with enabled, intervalSeconds, maxAttempts
             nextRunAt := min job.nextRunAt now, updatedAt := now }

/-- CrawlQueue::seed; id is the UUID it draws for a new job. -/
def seed (crate : UrlCrate) (tenantId sourceId : Uuid) (startUrl : Str)
    (intervalSeconds maxAttempts : Int) (enabled : Bool) (id : Uuid) (now : Timestamp)
    (db : Database) : Except Error Uuid × Database :=
  match validatePublicHttpsUrl crate startUrl with
  | .error e => (.error e, db)
  | .ok url =>
    if ¬(60 ≤ intervalSeconds ∧ intervalSeconds ≤ 2592000) then
      (.error ⟨"interval_seconds must be between 60 and 2592000"⟩, db)
    else if ¬(1 ≤ maxAttempts ∧ maxAttempts ≤ 100) then
      (.error ⟨"max_attempts must be between 1 and 100"⟩, db)
    else
      transaction db <| upsertJob "seed crawl job"
        (newJob id tenantId sourceId url.asStr intervalSeconds maxAttempts enabled now)
        (reseed intervalSeconds maxAttempts enabled now) db

namespace JobRow

/-- lease_expires_at < now(); false on NULL. -/
def expired (now : Timestamp) (job : JobRow) : Bool := job.leaseExpiresAt.any (· < now)

/-- The WHERE clause of the candidate of a lease. -/
def leasable (now : Timestamp) (job : JobRow) : Bool :=
  job.enabled && job.nextRunAt ≤ now && job.attemptCount < job.maxAttempts &&
    (job.leaseToken.isNone || job.expired now)

/-- The WHERE clause of the expired CTE. -/
def lapsed (now : Timestamp) (job : JobRow) : Bool := job.leaseToken.isSome && job.expired now

/-- ORDER BY next_run_at ASC, id ASC. -/
def before (x y : JobRow) : Prop := x.nextRunAt < y.nextRunAt ∨ (x.nextRunAt = y.nextRunAt ∧ x.id ≤ y.id)

instance (x y : JobRow) : Decidable (before x y) := inferInstanceAs (Decidable (_ ∨ _))

end JobRow

/-- FOR UPDATE SKIP LOCKED LIMIT 1: the first candidate that no other transaction has locked. -/
def leaseCandidate (now : Timestamp) (locked : List Uuid) (db : Database) : Option JobRow :=
  Table.first JobRow.before (fun job => job.leasable now && !locked.contains job.id) db.jobs

/-- What lease sets on its candidate. -/
def takeLease (leaseToken : Uuid) (owner : Str) (leaseSeconds : Int) (now : Timestamp)
    (job : JobRow) : JobRow :=
  { job with leaseToken := some leaseToken, leaseOwner := some (Str.trim owner)
             leaseExpiresAt := some (now + seconds leaseSeconds), updatedAt := now }

/-- The receipt that lease inserts; the other columns take their defaults. -/
def newAttempt (id jobId leaseToken : Uuid) (now : Timestamp) : AttemptRow where
  id := id
  jobId := jobId
  leaseToken := leaseToken
  status := .leased
  startedAt := now
  finishedAt := none
  errorCode := none
  apiReceipt := none
  details := .object []

def leasedJob (row : JobRow) (leaseToken attemptId : Uuid) : CrawlJob where
  id := row.id
  tenantId := row.tenantId
  sourceId := row.sourceId
  startUrl := row.startUrl
  intervalSeconds := row.intervalSeconds
  attemptCount := row.attemptCount
  maxAttempts := row.maxAttempts
  leaseToken := leaseToken
  attemptId := attemptId

/-- CrawlQueue::lease; locked holds the jobs whose rows other transactions have locked. -/
def lease (owner : Str) (leaseSeconds : Int) (leaseToken attemptId : Uuid) (locked : List Uuid)
    (now : Timestamp) (db : Database) : Except Error (Option CrawlJob) × Database :=
  if (Str.trim owner).isEmpty || Str.len owner > 200 then
    (.error ⟨"lease owner must contain 1 to 200 bytes"⟩, db)
  else if ¬(30 ≤ leaseSeconds ∧ leaseSeconds ≤ 3600) then
    (.error ⟨"lease_seconds must be between 30 and 3600"⟩, db)
  else
    transaction db <|
      match leaseCandidate now locked db with
      | none => .ok (none, db)
      | some candidate => do
        let (_, db) ← updateJobs "lease next crawl job" (fun job => job.id == candidate.id)
          (takeLease leaseToken owner leaseSeconds now) db
        let db ← insertAttempt "record crawl lease attempt"
          (newAttempt attemptId candidate.id leaseToken now) db
        .ok (some (leasedJob candidate leaseToken attemptId), db)

/-- What complete and fail write, with the texts of their errors. -/
structure Resolution where
  setAttempt : AttemptRow → AttemptRow
  setJob : JobRow → JobRow
  attemptContext : String
  jobContext : String
  lost : String × String

/-- WHERE id = $1 AND lease_token = $2 AND status = 'leased'. -/
def CrawlJob.matchesAttempt (job : CrawlJob) (attempt : AttemptRow) : Bool :=
  attempt.id == job.attemptId && attempt.leaseToken == job.leaseToken && attempt.status == .leased

/-- WHERE id = $1 AND lease_token = $2. -/
def CrawlJob.matchesJob (job : CrawlJob) (row : JobRow) : Bool :=
  row.id == job.id && row.leaseToken == some job.leaseToken

/-- The first UPDATE of complete and fail. -/
def resolveAttempt (r : Resolution) (job : CrawlJob) (db : Database) : Except Error Database := do
  let (rowsAffected, db) ← updateAttempts r.attemptContext job.matchesAttempt r.setAttempt db
  if rowsAffected ≠ 1 then .error ⟨r.lost.1⟩ else .ok db

/-- The second UPDATE of complete and fail. -/
def releaseJob (r : Resolution) (job : CrawlJob) (db : Database) : Except Error Database := do
  let (rowsAffected, db) ← updateJobs r.jobContext job.matchesJob r.setJob db
  if rowsAffected ≠ 1 then .error ⟨r.lost.2⟩ else .ok db

/-- The statements of complete and fail, on values that their columns take. -/
def resolve (r : Resolution) (job : CrawlJob) (db : Database) : Except Error Unit × Database :=
  transaction db <| do
    let db ← resolveAttempt r job db
    let db ← releaseJob r job db
    .ok ((), db)

def completion (output : CrawlCommandOutput) (apiReceipt : Json) (now : Timestamp) : Resolution where
  setAttempt attempt :=
    { attempt with status := .succeeded, finishedAt := some now, apiReceipt := some apiReceipt
                   details := output.diagnostic }
  setJob job :=
    { job with nextRunAt := now + seconds job.intervalSeconds
               leaseToken := none, leaseOwner := none, leaseExpiresAt := none
               attemptCount := 0, lastErrorCode := none, updatedAt := now }
  attemptContext := "complete crawl attempt"
  jobContext := "release successful crawl job"
  lost := ("crawl attempt lease was lost before completion",
    "crawl job lease was lost before completion")

/-- CrawlQueue::complete; its first UPDATE fails on a value that jsonb does not take. -/
def complete (job : CrawlJob) (output : CrawlCommandOutput) (apiReceipt : Json) (now : Timestamp)
    (db : Database) : Except Error Unit × Database :=
  if !(jsonbAccepts apiReceipt && jsonbAccepts output.diagnostic) then
    (.error ⟨"complete crawl attempt"⟩, db)
  else resolve (completion output apiReceipt now) job db

def saturate (bits : Nat) (x : Int) : Int := max (-2 ^ (bits - 1)) (min x (2 ^ (bits - 1) - 1))

def retryBackoffSeconds (attempt : Int) : Int :=
  let exponent := max 1 (min attempt 16)
  min (saturate 64 (30 * saturate 64 (2 ^ (exponent - 1).toNat))) 86400

def sanitizeCode (value : Str) : Str :=
  let code := (value.filter fun c => Str.isAsciiAlphanumeric c || c == '_' || c == '-').take 128
  if code.isEmpty then "crawl_failed".toList else code

def failure (job : CrawlJob) (errorCode : Str) (details : Json) (now : Timestamp) : Resolution :=
  let errorCode := sanitizeCode errorCode
  let backoffSeconds := retryBackoffSeconds (saturate 32 (job.attemptCount + 1))
  { setAttempt := fun attempt =>
      { attempt with status := .failed, finishedAt := some now, errorCode := some errorCode, details }
    setJob := fun job =>
      { job with nextRunAt := now + seconds backoffSeconds
                 leaseToken := none, leaseOwner := none, leaseExpiresAt := none
                 attemptCount := job.attemptCount + 1, lastErrorCode := some errorCode
                 updatedAt := now }
    attemptContext := "fail crawl attempt"
    jobContext := "release failed crawl job"
    lost := ("crawl attempt lease was lost before failure recording",
      "crawl job lease was lost before failure recording") }

/-- CrawlQueue::fail; its first UPDATE fails on details that jsonb does not take. -/
def fail (job : CrawlJob) (errorCode : Str) (details : Json) (now : Timestamp) (db : Database) :
    Except Error Unit × Database :=
  if !jsonbAccepts details then (.error ⟨"fail crawl attempt"⟩, db)
  else resolve (failure job errorCode details now) job db

/-- The rows of the expired CTE. -/
def expiredJobs (now : Timestamp) (db : Database) : List JobRow :=
  db.jobs.filter (JobRow.lapsed now)

/-- The join of the abandoned CTE with expired. -/
def abandons (now : Timestamp) (db : Database) (attempt : AttemptRow) : Bool :=
  (expiredJobs now db).any fun expired =>
    attempt.jobId == expired.id && some attempt.leaseToken == expired.leaseToken &&
      attempt.status == .leased

/-- The pairs that the abandoned CTE returns; by its join they are the columns of the attempt. -/
def abandoned (now : Timestamp) (db : Database) : List (Uuid × Uuid) :=
  (db.attempts.filter (abandons now db)).map fun attempt => (attempt.jobId, attempt.leaseToken)

def abandon (now : Timestamp) (attempt : AttemptRow) : AttemptRow :=
  { attempt with status := .abandoned, finishedAt := some now
                 errorCode := some "lease_expired".toList
                 details := .object [("reason".toList, .string "worker lease expired".toList)] }

/-- The join of the job UPDATE with abandoned. -/
def reaps (now : Timestamp) (db : Database) (job : JobRow) : Bool :=
  (abandoned now db).any fun pair => job.id == pair.1 && job.leaseToken == some pair.2

def reap (now : Timestamp) (job : JobRow) : JobRow :=
  { job with leaseToken := none, leaseOwner := none, leaseExpiresAt := none
             attemptCount := job.attemptCount + 1, nextRunAt := now + seconds 60
             lastErrorCode := some "lease_expired".toList, updatedAt := now }

/-- CrawlQueue::reap_expired, one statement: every CTE reads the tables as it found them. -/
def reapExpired (now : Timestamp) (db : Database) : Except Error Nat × Database :=
  transaction db <| do
    let (_, attempts) ← updateAttempts "reap expired crawl leases" (abandons now db) (abandon now) db
    let (rowsAffected, jobs) ← updateJobs "reap expired crawl leases" (reaps now db) (reap now) db
    .ok (rowsAffected, ⟨jobs.jobs, attempts.attempts⟩)

@[simp] theorem reseed_id (intervalSeconds maxAttempts : Int) (enabled : Bool) (now : Timestamp)
    (job : JobRow) : (reseed intervalSeconds maxAttempts enabled now job).id = job.id := rfl

@[simp] theorem takeLease_id (token : Uuid) (owner : Str) (leaseSeconds : Int) (now : Timestamp)
    (job : JobRow) : (takeLease token owner leaseSeconds now job).id = job.id := rfl

@[simp] theorem reap_id (now : Timestamp) (job : JobRow) : (reap now job).id = job.id := rfl

@[simp] theorem leasedJob_id (row : JobRow) (token attemptId : Uuid) :
    (leasedJob row token attemptId).id = row.id := rfl

theorem JobRow.leasable_iff {now : Timestamp} {job : JobRow} : job.leasable now = true ↔
    job.enabled = true ∧ job.nextRunAt ≤ now ∧ job.attemptCount < job.maxAttempts ∧
      (job.leaseToken = none ∨ job.expired now = true) := by
  simp [leasable, and_assoc]

theorem JobRow.lapsed_iff {now : Timestamp} {job : JobRow} :
    job.lapsed now = true ↔ (∃ t, job.leaseToken = some t) ∧ job.expired now = true := by
  simp [lapsed, Option.isSome_iff_exists]

theorem candidate_leasable {now : Timestamp} {locked : List Uuid} {db : Database}
    {candidate : JobRow} (found : leaseCandidate now locked db = some candidate) :
    candidate ∈ db.jobs ∧ candidate.leasable now = true := by
  obtain ⟨member, ready⟩ := Table.mem_of_first found
  exact ⟨member, (Bool.and_eq_true _ _ ▸ ready).1⟩

instance : Std.Total JobRow.before where
  total x y := by
    rcases lt_trichotomy x.nextRunAt y.nextRunAt with earlier | same | later
    · exact .inl (.inl earlier)
    · exact (Nat.le_total x.id y.id).imp (.inr ⟨same, ·⟩) (.inr ⟨same.symm, ·⟩)
    · exact .inr (.inl later)

instance : IsTrans JobRow JobRow.before where
  trans x y z first second := by
    rcases first with first | ⟨same, first⟩ <;> rcases second with second | ⟨same', second⟩
    · exact .inl (first.trans second)
    · exact .inl (same' ▸ first)
    · exact .inl (same ▸ second)
    · exact .inr ⟨same.trans same', first.trans second⟩

/-- A lease takes the job that has been due for longest. -/
theorem candidate_earliest {now : Timestamp} {locked : List Uuid} {db : Database}
    {candidate : JobRow} (found : leaseCandidate now locked db = some candidate) {job : JobRow}
    (member : job ∈ db.jobs) (ready : job.leasable now = true) (unlocked : job.id ∉ locked) :
    job = candidate ∨ candidate.before job :=
  Table.first_least found job member (by simp [ready, unlocked])

theorem CrawlJob.matchesAttempt_iff {job : CrawlJob} {attempt : AttemptRow} :
    job.matchesAttempt attempt = true ↔
      attempt.id = job.attemptId ∧ attempt.leaseToken = job.leaseToken ∧ attempt.status = .leased := by
  simp [matchesAttempt, and_assoc]

theorem CrawlJob.matchesJob_iff {job : CrawlJob} {row : JobRow} :
    job.matchesJob row = true ↔ row.id = job.id ∧ row.leaseToken = some job.leaseToken := by
  simp [matchesJob]

example : retryBackoffSeconds 1 = 30 ∧ retryBackoffSeconds 2 = 60 ∧
    retryBackoffSeconds 100 = 86400 := by decide
example : sanitizeCode "provider timeout\nsecret".toList = "providertimeoutsecret".toList := by decide
example : sanitizeCode "***".toList = "crawl_failed".toList := by decide

end EalSync.Runtime
