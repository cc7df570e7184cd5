import EalSync.Runtime.Api
import EalSync.Runtime.Runner
import EalSync.Runtime.System

/-! runtime-worker/src/main.rs: any number of workers that run process_next over and over against
one database. A phase is a point where process_next waits for the queue, the crawl command or the
API. Time passes while commands and API calls run, each within its timeout; statements of the
queue take none. -/
namespace EalSync.Runtime.Worker

def validateWorkerLimits (idleSeconds crawlTimeoutSeconds stdoutLimitBytes stderrLimitBytes : Nat) :
    Except Error Unit :=
  if ¬(1 ≤ idleSeconds ∧ idleSeconds ≤ 300) then
    .error ⟨"idle_seconds must be between 1 and 300"⟩
  else if ¬(5 ≤ crawlTimeoutSeconds ∧ crawlTimeoutSeconds ≤ 3600) then
    .error ⟨"crawl_timeout_seconds must be between 5 and 3600"⟩
  else if ¬(64 * 1024 ≤ stdoutLimitBytes ∧ stdoutLimitBytes ≤ 64 * 1024 * 1024) then
    .error ⟨"crawl_stdout_limit_bytes must be between 65536 and 67108864"⟩
  else if ¬(4 * 1024 ≤ stderrLimitBytes ∧ stderrLimitBytes ≤ 1024 * 1024) then
    .error ⟨"crawl_stderr_limit_bytes must be between 4096 and 1048576"⟩
  else .ok ()

/-- The arguments of run_worker, after the checks that main makes on the way there. -/
structure Config where
  command : CrawlCommandConfig
  owner : Str
  leaseSeconds : Int
  idleSeconds : Nat
  api : IngestApiClient
  limits : validateWorkerLimits idleSeconds command.timeoutSeconds command.stdoutLimitBytes
    command.stderrLimitBytes = .ok ()
  created : ∃ crate headerValue build baseUrl allowLoopbackHttp timeoutSeconds responseLimitBytes
    ingestToken, IngestApiClient.new crate headerValue build baseUrl allowLoopbackHttp timeoutSeconds
      responseLimitBytes ingestToken = .ok api

/-- Where a worker is in process_next; a deadline is the last instant at which it can be there. -/
inductive Phase where
  | stopped
  | idle
  | reaped
  | crawling (job : CrawlJob) (deadline : Timestamp)
  | posting (job : CrawlJob) (output : CrawlCommandOutput) (deadline : Timestamp)
  | completing (job : CrawlJob) (output : CrawlCommandOutput) (receipt : Json) (deadline : Timestamp)
  | failing (job : CrawlJob) (errorCode : Str) (details : Json) (deadline : Timestamp)

namespace Phase

def job : Phase → Option CrawlJob
  | crawling job _ | posting job _ _ | completing job _ _ _ | failing job _ _ _ => some job
  | stopped | idle | reaped => none

/-- The job whose outcome the worker is about to record by complete or fail. -/
def recording : Phase → Option CrawlJob
  | completing job _ _ _ | failing job _ _ _ => some job
  | stopped | idle | reaped | crawling .. | posting .. => none

def deadline : Phase → Option Timestamp
  | crawling _ deadline | posting _ _ deadline | completing _ _ _ deadline
  | failing _ _ _ deadline => some deadline
  | stopped | idle | reaped => none

end Phase

/-- The call of the queue that process_next ends with. -/
def recordOp : Phase → Option Op
  | .completing job output receipt _ => some (.complete job output receipt)
  | .failing job errorCode details _ => some (.fail job errorCode details)
  | .stopped | .idle | .reaped | .crawling .. | .posting .. => none

/-- A shutdown or a crash stops a worker anywhere; seed and reap also run from the command line. -/
inductive Event (n : Nat) where
  | tick (now : Timestamp)
  | start (w : Fin n)
  | stop (w : Fin n)
  | reap (w : Fin n)
  | lease (w : Fin n) (leaseToken attemptId : Uuid) (locked : List Uuid)
  | crawled (w : Fin n) (result : Except CrawlRunError CrawlCommandOutput)
  | posted (w : Fin n) (result : Except IngestApiError Json)
  | record (w : Fin n)
  | action (op : Op)

structure State (n : Nat) where
  clock : Timestamp
  db : Database
  phase : Fin n → Phase

def State.initial (n : Nat) (clock : Timestamp) : State n := ⟨clock, Database.migrated, fun _ => .stopped⟩

def State.enter {n : Nat} (s : State n) (w : Fin n) (phase : Phase) : State n :=
  { s with phase := Function.update s.phase w phase }

/-- A call of the queue, and where its answer takes the worker. -/
def State.transact {n : Nat} (crate : UrlCrate) (s : State n) (op : Op) (w : Fin n)
    (next : Except Error Reply → Phase) : State n :=
  { s with db := (op.exec crate s.clock s.db).2
           phase := Function.update s.phase w (next (op.exec crate s.clock s.db).1) }

section

variable (crate : UrlCrate) {n : Nat} (fleet : Fin n → Config)

def leaseOp (config : Config) (leaseToken attemptId : Uuid) (locked : List Uuid) : Op :=
  .lease config.owner config.leaseSeconds leaseToken attemptId locked

def afterReap : Except Error Reply → Phase
  | .ok _ => .reaped
  | .error _ => .stopped

def afterLease (config : Config) (clock : Timestamp) : Except Error Reply → Phase
  | .ok (.leased (some job)) => .crawling job (clock + seconds config.command.timeoutSeconds)
  | .ok _ => .idle
  | .error _ => .stopped

def afterCrawl (config : Config) (clock : Timestamp) (job : CrawlJob) :
    Except CrawlRunError CrawlCommandOutput → Phase
  | .ok output => .posting job output (clock + seconds config.api.client.timeout)
  | .error e => .failing job e.code e.diagnostic clock

def afterPost (clock : Timestamp) (job : CrawlJob) (output : CrawlCommandOutput) :
    Except IngestApiError Json → Phase
  | .ok receipt => .completing job output receipt clock
  | .error e => .failing job e.code e.diagnostic clock

def afterRecord : Except Error Reply → Phase
  | .ok _ => .idle
  | .error _ => .stopped

def step (s : State n) : Event n → State n
  | .tick now => { s with clock := now }
  | .start w => s.enter w .idle
  | .stop w => s.enter w .stopped
  | .reap w => s.transact crate .reapExpired w afterReap
  | .lease w leaseToken attemptId locked =>
    s.transact crate (leaseOp (fleet w) leaseToken attemptId locked) w (afterLease (fleet w) s.clock)
  | .crawled w result =>
    match s.phase w with
    | .crawling job _ => s.enter w (afterCrawl (fleet w) s.clock job result)
    | _ => s
  | .posted w result =>
    match s.phase w with
    | .posting job output _ => s.enter w (afterPost s.clock job output result)
    | _ => s
  | .record w =>
    match s.phase w with
    | .completing job output receipt _ => s.transact crate (.complete job output receipt) w afterRecord
    | .failing job errorCode details _ => s.transact crate (.fail job errorCode details) w afterRecord
    | _ => s
  | .action op => { s with db := (op.exec crate s.clock s.db).2 }

end

/-- Commands and calls end within their timeouts: time passes no deadline. -/
def InTime {n : Nat} (s : State n) (now : Timestamp) : Prop :=
  s.clock ≤ now ∧ ∀ w, ∀ deadline ∈ (s.phase w).deadline, now ≤ deadline

instance {n : Nat} (s : State n) (now : Timestamp) : Decidable (InTime s now) :=
  inferInstanceAs (Decidable (_ ∧ ∀ w, ∀ deadline ∈ (s.phase w).deadline, now ≤ deadline))

def Admits {n : Nat} (fleet : Fin n → Config) (s : State n) : Event n → Prop
  | .tick now => InTime s now
  | .start w => s.phase w = .stopped
  | .stop _ => True
  | .reap w => s.phase w = .idle
  | .lease w leaseToken attemptId locked =>
    s.phase w = .reaped ∧ (leaseOp (fleet w) leaseToken attemptId locked).Fresh s.db
  | .crawled w _ => ∃ job deadline, s.phase w = .crawling job deadline
  | .posted w _ => ∃ job output deadline, s.phase w = .posting job output deadline
  | .record w => ((s.phase w).recording).isSome
  | .action op => op.Fresh s.db ∧ match op with
    | .seed .. | .reapExpired => True
    | .lease .. | .complete .. | .fail .. => False

def run (crate : UrlCrate) {n : Nat} (fleet : Fin n → Config) (clock : Timestamp)
    (es : List (Event n)) : State n := Runs.run (step crate fleet) (.initial n clock) es

def Admissible (crate : UrlCrate) {n : Nat} (fleet : Fin n → Config) (clock : Timestamp)
    (es : List (Event n)) : Prop :=
  Runs.Admissible (step crate fleet) (Admits fleet) (.initial n clock) es

/-- No two workers work on jobs of one key. -/
def Apart {n : Nat} (key : CrawlJob → Uuid) (phase : Fin n → Phase) : Prop :=
  ∀ v w, v ≠ w → ∀ i ∈ (phase v).job, ∀ j ∈ (phase w).job, key i ≠ key j

theorem Apart.update {n : Nat} {key : CrawlJob → Uuid} {phase : Fin n → Phase}
    (h : Apart key phase) {w : Fin n} {next : Phase}
    (new : ∀ v, v ≠ w → ∀ i ∈ (phase v).job, ∀ j ∈ next.job, key i ≠ key j) :
    Apart key (Function.update phase w next) := by
  intro v u other i hi j hj
  by_cases one : v = w
  · have two : u ≠ w := fun same => other (one.trans same.symm)
    rw [one, Function.update_self] at hi
    rw [Function.update_of_ne two] at hj
    exact (new u two j hj i hi).symm
  · rw [Function.update_of_ne one] at hi
    by_cases two : u = w
    · rw [two, Function.update_self] at hj
      exact new v one i hi j hj
    · rw [Function.update_of_ne two] at hj
      exact h v u other i hi j hj

end EalSync.Runtime.Worker
