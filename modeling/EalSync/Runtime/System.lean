import EalSync.Lib.Projection
import EalSync.Lib.Runs
import EalSync.Runtime.Effects

/-! Runs of the queue. An event is one transaction at its database time, with the UUIDs it
draws and the rows it finds locked; any number of workers issue them in any order. -/
namespace EalSync.Runtime

inductive Op where
  | seed (tenantId sourceId : Uuid) (startUrl : Str) (intervalSeconds maxAttempts : Int)
      (enabled : Bool) (id : Uuid)
  | lease (owner : Str) (leaseSeconds : Int) (leaseToken attemptId : Uuid) (locked : List Uuid)
  | complete (job : CrawlJob) (output : CrawlCommandOutput) (apiReceipt : Json)
  | fail (job : CrawlJob) (errorCode : Str) (details : Json)
  | reapExpired

inductive Reply where
  | seeded (id : Uuid)
  | leased (job : Option CrawlJob)
  | completed
  | failed
  | reaped (count : Nat)
  deriving DecidableEq, Repr

def reply {α : Type} (f : α → Reply) (r : Except Error α × Database) :
    Except Error Reply × Database := (r.1.map f, r.2)

def Op.exec (crate : UrlCrate) (now : Timestamp) (db : Database) : Op → Except Error Reply × Database
  | .seed tenantId sourceId startUrl intervalSeconds maxAttempts enabled id =>
    reply .seeded (Runtime.seed crate tenantId sourceId startUrl intervalSeconds maxAttempts enabled id now db)
  | .lease owner leaseSeconds leaseToken attemptId locked =>
    reply .leased (Runtime.lease owner leaseSeconds leaseToken attemptId locked now db)
  | .complete job output apiReceipt =>
    reply (fun _ => .completed) (Runtime.complete job output apiReceipt now db)
  | .fail job errorCode details =>
    reply (fun _ => .failed) (Runtime.fail job errorCode details now db)
  | .reapExpired => reply .reaped (Runtime.reapExpired now db)

/-- The job that complete and fail end the lease of. -/
def Op.resolves : Op → Option CrawlJob
  | .complete job _ _ | .fail job _ _ => some job
  | .seed .. | .lease .. | .reapExpired => none

/-- The columns that the operation writes its arguments to take them. -/
def Op.storable : Op → Bool
  | .complete _ output apiReceipt => jsonbAccepts apiReceipt && jsonbAccepts output.diagnostic
  | .fail _ _ details => jsonbAccepts details
  | .seed .. | .lease .. | .reapExpired => true

/-- The UUIDs an operation draws are in no row that would make them collide. -/
def Op.Fresh (db : Database) : Op → Prop
  | .seed _ _ _ _ _ _ id => ∀ job ∈ db.jobs, job.id ≠ id
  | .lease _ _ leaseToken attemptId _ =>
    (∀ a ∈ db.attempts, a.leaseToken ≠ leaseToken) ∧ ∀ a ∈ db.attempts, a.id ≠ attemptId
  | _ => True

instance (db : Database) : (op : Op) → Decidable (op.Fresh db)
  | .seed .. => inferInstanceAs (Decidable (∀ job ∈ db.jobs, _))
  | .lease .. => inferInstanceAs (Decidable (_ ∧ _))
  | .complete .. | .fail .. | .reapExpired => inferInstanceAs (Decidable True)

structure Event where
  now : Timestamp
  op : Op

structure System where
  clock : Timestamp
  db : Database

section

variable (crate : UrlCrate)

def step (s : System) (e : Event) : System := ⟨e.now, (e.op.exec crate e.now s.db).2⟩

def answer (s : System) (e : Event) : Except Error Reply := (e.op.exec crate e.now s.db).1

/-- The database clock never goes backwards and the UUIDs drawn are new. -/
def Admits (s : System) (e : Event) : Prop := s.clock ≤ e.now ∧ e.op.Fresh s.db

instance (s : System) (e : Event) : Decidable (Admits s e) := inferInstanceAs (Decidable (_ ∧ _))

def run (s : System) (es : List Event) : System := Runs.run (step crate) s es

def answers (s : System) (es : List Event) : List (Except Error Reply) :=
  Projection.trace (step crate) (fun s e => [answer crate s e]) s es

def Admissible (s : System) (es : List Event) : Prop := Runs.Admissible (step crate) Admits s es

instance (s : System) (es : List Event) : Decidable (Admissible crate s es) :=
  Runs.decidableAdmissible (step crate) Admits s es

end

def System.start (clock : Timestamp) : System := ⟨clock, Database.migrated⟩

def releasesUrl : Url :=
  .https "docs.example.com".toList "/releases".toList (by decide) (by decide) rfl (by decide)

def releasesCrate : UrlCrate where
  parse s :=
    if s = "https://docs.example.com/releases".toList then .ok releasesUrl
    else .error "relative URL without a base".toList
  join _ _ := .error "relative URL without a base".toList

/-- Events on that URL: job 10, a budget of one attempt, and leases of thirty seconds. -/
def seedReleases (time : Int) (id : Uuid) : Event :=
  ⟨seconds time, .seed 1 2 "https://docs.example.com/releases".toList 3600 1 true id⟩

def leaseReleases (time : Int) (token attemptId : Uuid) : Event :=
  ⟨seconds time, .lease "worker".toList 30 token attemptId []⟩

def releasesJob (token attemptId : Uuid) : CrawlJob :=
  ⟨10, 1, 2, "https://docs.example.com/releases".toList, 3600, 0, 1, token, attemptId⟩

def completeReleases (time : Int) (token attemptId : Uuid) : Event :=
  ⟨seconds time, .complete (releasesJob token attemptId) ⟨.null, .null⟩ .null⟩

/-- What an answered operation did, one case for each way a transaction can end. -/
inductive Effect (now : Timestamp) (db : Database) : Op → Except Error Reply → Database → Prop where
  | refused (op : Op) (e : Error) : Effect now db op (.error e) db
  | inserted (tenantId sourceId id : Uuid) (startUrl url : Str) (intervalSeconds maxAttempts : Int)
      (enabled : Bool) :
      (newJob id tenantId sourceId url intervalSeconds maxAttempts enabled now).admissible = true →
      (∀ job ∈ db.jobs, job.key ≠ (tenantId, sourceId, url)) → (∀ job ∈ db.jobs, job.id ≠ id) →
      Effect now db (.seed tenantId sourceId startUrl intervalSeconds maxAttempts enabled id)
        (.ok (.seeded id))
        { db with
          jobs := db.jobs ++ [newJob id tenantId sourceId url intervalSeconds maxAttempts enabled now] }
  | reseeded (tenantId sourceId id : Uuid) (startUrl url : Str) (intervalSeconds maxAttempts : Int)
      (enabled : Bool) (existing : JobRow) :
      (60 ≤ intervalSeconds ∧ intervalSeconds ≤ 2592000) → (1 ≤ maxAttempts ∧ maxAttempts ≤ 100) →
      existing ∈ db.jobs → existing.key = (tenantId, sourceId, url) →
      Effect now db (.seed tenantId sourceId startUrl intervalSeconds maxAttempts enabled id)
        (.ok (.seeded existing.id))
        { db with
          jobs := Table.update (fun job => job.key == (tenantId, sourceId, url))
            (reseed intervalSeconds maxAttempts enabled now) db.jobs }
  | idle (owner : Str) (leaseSeconds : Int) (leaseToken attemptId : Uuid) (locked : List Uuid) :
      leaseCandidate now locked db = none →
      Effect now db (.lease owner leaseSeconds leaseToken attemptId locked) (.ok (.leased none)) db
  | leased (owner : Str) (leaseSeconds : Int) (leaseToken attemptId : Uuid) (locked : List Uuid)
      (candidate : JobRow) :
      leaseCandidate now locked db = some candidate → LeaseAccepts owner leaseSeconds →
      Effect now db (.lease owner leaseSeconds leaseToken attemptId locked)
        (.ok (.leased (some (leasedJob candidate leaseToken attemptId))))
        (granted owner leaseSeconds leaseToken attemptId now candidate db)
  | completed (job : CrawlJob) (output : CrawlCommandOutput) (apiReceipt : Json) :
      Table.affected job.matchesAttempt db.attempts = 1 → Table.affected job.matchesJob db.jobs = 1 →
      Effect now db (.complete job output apiReceipt) (.ok .completed)
        (resolved (completion output apiReceipt now) job db)
  | failed (job : CrawlJob) (errorCode : Str) (details : Json) :
      Table.affected job.matchesAttempt db.attempts = 1 → Table.affected job.matchesJob db.jobs = 1 →
      Effect now db (.fail job errorCode details) (.ok .failed)
        (resolved (failure job errorCode details now) job db)
  | reaped : Effect now db .reapExpired (.ok (.reaped (Table.affected (reaps now db) db.jobs)))
      (reaped now db)

/-- The contexts of the statements that write a jsonb column. -/
def jsonbContexts : List String := ["complete crawl attempt", "fail crawl attempt"]

theorem exec_unstorable {op : Op} (refused : op.storable = false) (crate : UrlCrate) (now : Timestamp)
    (db : Database) : ∃ e, op.exec crate now db = (.error e, db) ∧ e.message ∈ jsonbContexts := by
  cases op with
  | complete job output apiReceipt =>
    refine ⟨⟨"complete crawl attempt"⟩, ?_, List.mem_cons_self⟩
    rw [Op.storable] at refused
    rw [Op.exec, Runtime.complete, refused]
    rfl
  | fail job errorCode details =>
    refine ⟨⟨"fail crawl attempt"⟩, ?_, List.mem_cons_of_mem _ List.mem_cons_self⟩
    rw [Op.storable] at refused
    rw [Op.exec, Runtime.fail, refused]
    rfl
  | seed => cases refused
  | lease => cases refused
  | reapExpired => cases refused

theorem storable_of_ok {op : Op} {crate : UrlCrate} {now : Timestamp} {db : Database} {r : Reply}
    (ok : (op.exec crate now db).1 = .ok r) : op.storable = true := by
  cases stored : op.storable with
  | true => rfl
  | false =>
    obtain ⟨e, failed, _⟩ := exec_unstorable stored crate now db
    rw [failed] at ok
    cases ok

section

variable (crate : UrlCrate) (now : Timestamp) (db : Database) (job : CrawlJob)

theorem exec_complete {output : CrawlCommandOutput} {apiReceipt : Json}
    (stored : (Op.complete job output apiReceipt).storable = true) :
    (Op.complete job output apiReceipt).exec crate now db =
      reply (fun _ => .completed) (resolve (completion output apiReceipt now) job db) := by
  rw [Op.storable] at stored
  rw [Op.exec, Runtime.complete, stored]
  rfl

theorem exec_fail {errorCode : Str} {details : Json}
    (stored : (Op.fail job errorCode details).storable = true) :
    (Op.fail job errorCode details).exec crate now db =
      reply (fun _ => .failed) (resolve (failure job errorCode details now) job db) := by
  rw [Op.storable] at stored
  rw [Op.exec, Runtime.fail, stored]
  rfl

theorem complete_effect (output : CrawlCommandOutput) (apiReceipt : Json) :
    Effect now db (.complete job output apiReceipt)
      (reply (fun _ => .completed) (resolve (completion output apiReceipt now) job db)).1
      (reply (fun _ => .completed) (resolve (completion output apiReceipt now) job db)).2 := by
  rcases resolve_cases (Prod.eta (resolve (completion output apiReceipt now) job db)).symm with
    ⟨e, failed, same⟩ | ⟨attempt, released, ok, after⟩
  · simp only [reply, failed, same]
    exact .refused _ e
  · simp only [reply, ok, after]
    exact .completed _ _ _ attempt released

theorem fail_effect (errorCode : Str) (details : Json) :
    Effect now db (.fail job errorCode details)
      (reply (fun _ => .failed) (resolve (failure job errorCode details now) job db)).1
      (reply (fun _ => .failed) (resolve (failure job errorCode details now) job db)).2 := by
  rcases resolve_cases (Prod.eta (resolve (failure job errorCode details now) job db)).symm with
    ⟨e, failed, same⟩ | ⟨attempt, released, ok, after⟩
  · simp only [reply, failed, same]
    exact .refused _ e
  · simp only [reply, ok, after]
    exact .failed _ _ _ attempt released

end

theorem exec_effect (crate : UrlCrate) (now : Timestamp) (db : Database) (op : Op) :
    Effect now db op (op.exec crate now db).1 (op.exec crate now db).2 := by
  cases op with
  | seed tenantId sourceId startUrl intervalSeconds maxAttempts enabled id =>
    rcases seed_cases (Prod.eta (Runtime.seed crate tenantId sourceId startUrl intervalSeconds
      maxAttempts enabled id now db)).symm with ⟨e, failed, same⟩ | ⟨url, bounds, admissible, h⟩
    · simp only [Op.exec, reply, failed, same]
      exact .refused _ e
    · rcases h with ⟨keys, ids, ok, after⟩ | ⟨existing, member, same, ok, after⟩
      · simp only [Op.exec, reply, ok, after]
        exact .inserted _ _ _ _ url _ _ _ admissible keys ids
      · simp only [Op.exec, reply, ok, after]
        exact .reseeded _ _ _ _ url _ _ _ existing bounds.1 bounds.2 member same
  | lease owner leaseSeconds leaseToken attemptId locked =>
    rcases lease_cases (Prod.eta (Runtime.lease owner leaseSeconds leaseToken attemptId locked now
      db)).symm with ⟨e, failed, same⟩ | ⟨none, ok, same⟩ | ⟨candidate, found, accepts, ok, after⟩
    · simp only [Op.exec, reply, failed, same]
      exact .refused _ e
    · simp only [Op.exec, reply, ok, same]
      exact .idle _ _ _ _ _ none
    · simp only [Op.exec, reply, ok, after]
      exact .leased _ _ _ _ _ candidate found accepts
  | complete job output apiReceipt =>
    cases stored : (Op.complete job output apiReceipt).storable with
    | false =>
      obtain ⟨e, failed, _⟩ := exec_unstorable stored crate now db
      rw [failed]
      exact .refused _ e
    | true =>
      rw [exec_complete crate now db job stored]
      exact complete_effect now db job output apiReceipt
  | fail job errorCode details =>
    cases stored : (Op.fail job errorCode details).storable with
    | false =>
      obtain ⟨e, failed, _⟩ := exec_unstorable stored crate now db
      rw [failed]
      exact .refused _ e
    | true =>
      rw [exec_fail crate now db job stored]
      exact fail_effect now db job errorCode details
  | reapExpired =>
    rcases reapExpired_cases (Prod.eta (Runtime.reapExpired now db)).symm with
      ⟨e, failed, same⟩ | ⟨ok, after⟩
    · simp only [Op.exec, reply, failed, same]
      exact .refused _ e
    · simp only [Op.exec, reply, ok, after]
      exact .reaped

theorem step_effect (crate : UrlCrate) (s : System) (e : Event) :
    Effect e.now s.db e.op (answer crate s e) (step crate s e).db := exec_effect crate e.now s.db e.op

end EalSync.Runtime
