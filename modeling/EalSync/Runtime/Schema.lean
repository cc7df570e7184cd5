import EalSync.Lib.Table
import EalSync.Runtime.Types

/-! runtime-worker/migrations/001_runtime.sql: the two tables, their constraints, and the
statements that write them. A statement whose result breaks a constraint fails as a whole. -/
namespace EalSync.Runtime

/-- timestamptz, in microseconds. -/
abbrev Timestamp := Int

def seconds (n : Int) : Timestamp := n * 1000000

/-- A row of eal_crawl_jobs. -/
structure JobRow where
  id : Uuid
  tenantId : Uuid
  sourceId : Uuid
  startUrl : Str
  enabled : Bool
  intervalSeconds : Int
  nextRunAt : Timestamp
  leaseToken : Option Uuid
  leaseOwner : Option Str
  leaseExpiresAt : Option Timestamp
  attemptCount : Int
  maxAttempts : Int
  lastErrorCode : Option Str
  createdAt : Timestamp
  updatedAt : Timestamp
  deriving DecidableEq, Repr

inductive Status where
  | leased
  | succeeded
  | failed
  | abandoned
  deriving DecidableEq, Repr

/-- A row of eal_crawl_attempts. -/
structure AttemptRow where
  id : Uuid
  jobId : Uuid
  leaseToken : Uuid
  status : Status
  startedAt : Timestamp
  finishedAt : Option Timestamp
  errorCode : Option Str
  apiReceipt : Option Json
  details : Json
  deriving Repr

namespace JobRow

/-- UNIQUE (tenant_id, source_id, start_url). -/
def key (job : JobRow) : Uuid × Uuid × Str := (job.tenantId, job.sourceId, job.startUrl)

/-- The CHECK constraints, and the range of the integer column attempt_count. -/
def admissible (job : JobRow) : Bool :=
  Str.startsWith "https://".toList job.startUrl &&
  (60 ≤ job.intervalSeconds && job.intervalSeconds ≤ 2592000) &&
  (0 ≤ job.attemptCount && 1 ≤ job.maxAttempts && job.maxAttempts ≤ 100) &&
  ((job.leaseToken.isNone && job.leaseOwner.isNone && job.leaseExpiresAt.isNone) ||
    (job.leaseToken.isSome && job.leaseOwner.isSome && job.leaseExpiresAt.isSome)) &&
  job.attemptCount ≤ 2147483647

end JobRow

/-- eal_crawl_attempts_terminal_shape; the status is in range by its type. -/
def AttemptRow.admissible (attempt : AttemptRow) : Bool :=
  (attempt.status == .leased && attempt.finishedAt.isNone) ||
  (attempt.status != .leased && attempt.finishedAt.isSome)

mutual

/-- What a jsonb column takes: no string and no key has a U+0000. -/
def jsonbAccepts : Json → Bool
  | .string s => s.all (· != nul)
  | .array items => jsonbAcceptsAll items
  | .object members => jsonbAcceptsMembers members
  | .null | .bool _ | .number _ => true

def jsonbAcceptsAll : List Json → Bool
  | [] => true
  | value :: rest => jsonbAccepts value && jsonbAcceptsAll rest

def jsonbAcceptsMembers : List (Str × Json) → Bool
  | [] => true
  | (key, value) :: rest => key.all (· != nul) && jsonbAccepts value && jsonbAcceptsMembers rest

end

structure Database where
  jobs : List JobRow
  attempts : List AttemptRow
  deriving Repr

def Database.migrated : Database := ⟨[], []⟩

/-- UPDATE eal_crawl_jobs; the constraints are checked on the rows it writes. -/
def updateJobs (context : String) (p : JobRow → Bool) (f : JobRow → JobRow) (db : Database) :
    Except Error (Nat × Database) :=
  if (db.jobs.filter p).all (fun job => (f job).admissible) then
    .ok (Table.affected p db.jobs, { db with jobs := Table.update p f db.jobs })
  else .error ⟨context⟩

/-- UPDATE eal_crawl_attempts. -/
def updateAttempts (context : String) (p : AttemptRow → Bool) (f : AttemptRow → AttemptRow)
    (db : Database) : Except Error (Nat × Database) :=
  if (db.attempts.filter p).all (fun attempt => (f attempt).admissible) then
    .ok (Table.affected p db.attempts, { db with attempts := Table.update p f db.attempts })
  else .error ⟨context⟩

/-- INSERT INTO eal_crawl_attempts, with its primary key, UNIQUE (job_id, lease_token) and the
reference to eal_crawl_jobs. -/
def insertAttempt (context : String) (row : AttemptRow) (db : Database) : Except Error Database :=
  if row.admissible && !db.attempts.any (fun a => a.id == row.id) &&
      !db.attempts.any (fun a => a.jobId == row.jobId && a.leaseToken == row.leaseToken) &&
      db.jobs.any (fun job => job.id == row.jobId) then
    .ok { db with attempts := db.attempts ++ [row] }
  else .error ⟨context⟩

/-- INSERT INTO eal_crawl_jobs ON CONFLICT (tenant_id, source_id, start_url) DO UPDATE,
RETURNING id. The proposed row is checked before the conflict is looked for. -/
def upsertJob (context : String) (row : JobRow) (merge : JobRow → JobRow) (db : Database) :
    Except Error (Uuid × Database) :=
  if !row.admissible then .error ⟨context⟩
  else match Table.lookup JobRow.key row.key db.jobs with
    | some existing => do
      let (_, db) ← updateJobs context (fun job => job.key == row.key) merge db
      .ok (existing.id, db)
    | none =>
      if db.jobs.any (fun job => job.id == row.id) then .error ⟨context⟩
      else .ok (row.id, { db with jobs := db.jobs ++ [row] })

/-- A transaction commits its last state, or leaves the tables as they were when it fails. -/
def transaction {α : Type} (db : Database) (body : Except Error (α × Database)) :
    Except Error α × Database :=
  match body with
  | .ok (result, db') => (.ok result, db')
  | .error e => (.error e, db)

theorem updateJobs_eq {context : String} {p : JobRow → Bool} {f : JobRow → JobRow} {db : Database}
    (checked : ∀ job ∈ db.jobs, p job = true → (f job).admissible = true) :
    updateJobs context p f db =
      .ok (Table.affected p db.jobs, { db with jobs := Table.update p f db.jobs }) := by
  apply if_pos
  rw [List.all_eq_true]
  intro job member
  have h := List.mem_filter.mp member
  exact checked job h.1 h.2

theorem updateAttempts_eq {context : String} {p : AttemptRow → Bool} {f : AttemptRow → AttemptRow}
    {db : Database} (checked : ∀ a ∈ db.attempts, p a = true → (f a).admissible = true) :
    updateAttempts context p f db =
      .ok (Table.affected p db.attempts, { db with attempts := Table.update p f db.attempts }) := by
  apply if_pos
  rw [List.all_eq_true]
  intro a member
  have h := List.mem_filter.mp member
  exact checked a h.1 h.2

theorem updateJobs_ok {context : String} {p : JobRow → Bool} {f : JobRow → JobRow}
    {db db' : Database} {n : Nat} (h : updateJobs context p f db = .ok (n, db')) :
    n = Table.affected p db.jobs ∧ db' = { db with jobs := Table.update p f db.jobs } ∧
      ∀ job ∈ db.jobs, p job = true → (f job).admissible = true := by
  unfold updateJobs at h
  split at h
  · rename_i checked
    rw [List.all_eq_true] at checked
    cases h
    exact ⟨rfl, rfl, fun job member selected => checked job (List.mem_filter.mpr ⟨member, selected⟩)⟩
  · cases h

theorem updateAttempts_ok {context : String} {p : AttemptRow → Bool}
    {f : AttemptRow → AttemptRow} {db db' : Database} {n : Nat}
    (h : updateAttempts context p f db = .ok (n, db')) :
    n = Table.affected p db.attempts ∧
      db' = { db with attempts := Table.update p f db.attempts } ∧
      ∀ a ∈ db.attempts, p a = true → (f a).admissible = true := by
  unfold updateAttempts at h
  split at h
  · rename_i checked
    rw [List.all_eq_true] at checked
    cases h
    exact ⟨rfl, rfl, fun a member selected => checked a (List.mem_filter.mpr ⟨member, selected⟩)⟩
  · cases h

end EalSync.Runtime
