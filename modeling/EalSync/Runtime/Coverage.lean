import EalSync.Runtime.Exclusion
import EalSync.Runtime.Progress
import EalSync.Runtime.Worker

/-! When a lease outlives the work it covers. Three limits are checked in three places and never
against each other; a lease covers the crawl and the API call just when it is at least as long as
their timeouts together. -/
namespace EalSync.Runtime.Worker

def Reserved (db : Database) (job : CrawlJob) (last : Timestamp) : Prop :=
  ∃ expiry, leaseOf job.id db = some (job.leaseToken, expiry) ∧ last ≤ expiry

/-- The phase is inside its deadline, and the lease covers what is left of the work. -/
def Held (config : Config) (clock : Timestamp) (db : Database) : Phase → Prop
  | .crawling job deadline =>
    clock ≤ deadline ∧ Reserved db job (deadline + seconds config.api.client.timeout)
  | .posting job _ deadline | .completing job _ _ deadline | .failing job _ _ deadline =>
    clock ≤ deadline ∧ Reserved db job deadline
  | .stopped | .idle | .reaped => True

theorem seconds_nonneg (n : Nat) : 0 ≤ seconds n := Int.mul_nonneg (Int.natCast_nonneg n) (by decide)

namespace Held

variable {config : Config} {clock : Timestamp} {db : Database} {phase : Phase}

theorem covers (h : Held config clock db phase) {job : CrawlJob} (working : phase.job = some job) :
    ∃ expiry, leaseOf job.id db = some (job.leaseToken, expiry) ∧ clock ≤ expiry := by
  have api := seconds_nonneg config.api.client.timeout
  cases phase with
  | stopped => cases working
  | idle => cases working
  | reaped => cases working
  | crawling =>
    cases working
    obtain ⟨inside, expiry, held, covered⟩ := h
    exact ⟨expiry, held, (inside.trans (Int.le_add_of_nonneg_right api)).trans covered⟩
  | posting =>
    cases working
    obtain ⟨inside, expiry, held, covered⟩ := h
    exact ⟨expiry, held, inside.trans covered⟩
  | completing =>
    cases working
    obtain ⟨inside, expiry, held, covered⟩ := h
    exact ⟨expiry, held, inside.trans covered⟩
  | failing =>
    cases working
    obtain ⟨inside, expiry, held, covered⟩ := h
    exact ⟨expiry, held, inside.trans covered⟩

theorem tick (h : Held config clock db phase) {now : Timestamp}
    (inTime : ∀ deadline ∈ phase.deadline, now ≤ deadline) : Held config now db phase := by
  cases phase with
  | stopped => trivial
  | idle => trivial
  | reaped => trivial
  | crawling => exact ⟨inTime _ rfl, h.2⟩
  | posting => exact ⟨inTime _ rfl, h.2⟩
  | completing => exact ⟨inTime _ rfl, h.2⟩
  | failing => exact ⟨inTime _ rfl, h.2⟩

theorem kept (h : Held config clock db phase) {db' : Database}
    (same : ∀ job ∈ phase.job, leaseOf job.id db' = leaseOf job.id db) : Held config clock db' phase := by
  cases phase with
  | stopped => trivial
  | idle => trivial
  | reaped => trivial
  | crawling => exact ⟨h.1, by rw [Reserved, same _ rfl]; exact h.2⟩
  | posting => exact ⟨h.1, by rw [Reserved, same _ rfl]; exact h.2⟩
  | completing => exact ⟨h.1, by rw [Reserved, same _ rfl]; exact h.2⟩
  | failing => exact ⟨h.1, by rw [Reserved, same _ rfl]; exact h.2⟩

end Held

section

variable {n : Nat} {fleet : Fin n → Config} {crate : UrlCrate}

/-- Every worker's lease covers its work, and no two workers work on one job. -/
structure Covered (fleet : Fin n → Config) (s : State n) : Prop where
  consistent : Consistent s.db
  held : ∀ w, Held (fleet w) s.clock s.db (s.phase w)
  apart : ∀ v w, v ≠ w → ∀ i ∈ (s.phase v).job, ∀ j ∈ (s.phase w).job, i.id ≠ j.id

theorem initial_covered (fleet : Fin n → Config) (clock : Timestamp) :
    Covered fleet (.initial n clock) where
  consistent := migrated_consistent
  held _ := trivial
  apart _ _ _ _ member := by cases member

namespace Covered

variable {s : State n}

theorem enter (h : Covered fleet s) (w : Fin n) {phase : Phase}
    (held : Held (fleet w) s.clock s.db phase)
    (same : ∀ job ∈ phase.job, (s.phase w).job = some job) : Covered fleet (s.enter w phase) where
  consistent := h.consistent
  held v := by
    dsimp only [State.enter]
    by_cases mine : v = w
    · subst mine
      rw [Function.update_self]
      exact held
    · rw [Function.update_of_ne mine]
      exact h.held v
  apart v u other i hi j hj := by
    have old : ∀ x, ∀ job ∈ ((s.enter w phase).phase x).job, (s.phase x).job = some job := by
      intro x job member
      dsimp only [State.enter] at member
      by_cases mine : x = w
      · subst mine
        rw [Function.update_self] at member
        exact same job member
      · rwa [Function.update_of_ne mine] at member
    exact h.apart v u other i (old v i hi) j (old u j hj)

/-- A transaction that ends at most the lease of its own worker leaves those of the others. -/
theorem others (h : Covered fleet s) {op : Op} {result : Except Error Reply} {db' : Database}
    (did : Effect s.clock s.db op result db') {v : Fin n}
    (own : ∀ job ∈ op.resolves, ∀ i ∈ (s.phase v).job, job.id ≠ i.id) :
    Held (fleet v) s.clock db' (s.phase v) := by
  refine (h.held v).kept fun job working => ?_
  obtain ⟨expiry, held, covered⟩ := (h.held v).covers working
  rw [held]
  exact effect_keeps_lease h.consistent did held covered fun i resolved => own i resolved job working

theorem transact (h : Covered fleet s) (op : Op) (fresh : op.Fresh s.db) (w : Fin n)
    {next : Except Error Reply → Phase} (own : ∀ job ∈ op.resolves, (s.phase w).job = some job)
    (held : ∀ {result db'}, Effect s.clock s.db op result db' → Held (fleet w) s.clock db' (next result))
    (apart : ∀ {result db'}, Effect s.clock s.db op result db' → ∀ job ∈ (next result).job,
      ∀ v, v ≠ w → ∀ i ∈ (s.phase v).job, i.id ≠ job.id) :
    Covered fleet (s.transact crate op w next) := by
  have did := exec_effect crate s.clock s.db op
  refine ⟨h.consistent.effect did fresh, fun v => ?_, ?_⟩
  · dsimp only [State.transact]
    by_cases mine : v = w
    · subst mine
      rw [Function.update_self]
      exact held did
    · rw [Function.update_of_ne mine]
      exact h.others did fun job resolved i working =>
        (h.apart v w mine i working job (own job resolved)).symm
  · refine Apart.update h.apart ?_
    intro v mine i hi j hj
    exact apart did j hj v mine i hi

end Covered

/-- The lease is at least as long as the timeouts of the crawl and the API call together. -/
def Fits (config : Config) : Prop :=
  (config.command.timeoutSeconds : Int) + config.api.client.timeout ≤ config.leaseSeconds

theorem fits_seconds {config : Config} (fits : Fits config) (clock : Timestamp) :
    clock + seconds config.command.timeoutSeconds + seconds config.api.client.timeout ≤
      clock + seconds config.leaseSeconds := by
  have scaled := Int.mul_le_mul_of_nonneg_right fits (by decide : (0 : Int) ≤ 1000000)
  rw [Int.add_mul] at scaled
  rw [Int.add_assoc]
  exact Int.add_le_add_left scaled clock

theorem lease_held {config : Config} (fits : Fits config) {db db' : Database} (consistent : Consistent db)
    {clock : Timestamp} {leaseToken attemptId : Uuid} {locked : List Uuid}
    {result : Except Error Reply}
    (did : Effect clock db (leaseOp config leaseToken attemptId locked) result db') :
    Held config clock db' (afterLease config clock result) := by
  unfold afterLease
  split
  · obtain ⟨granted, _⟩ := effect_grants_lease consistent did
    exact ⟨Int.le_add_of_nonneg_right (seconds_nonneg _), _, granted, fits_seconds fits clock⟩
  · trivial
  · trivial

theorem crawl_held {config : Config} {clock : Timestamp} {db : Database} {job : CrawlJob}
    {deadline : Timestamp} (h : Held config clock db (.crawling job deadline))
    (result : Except CrawlRunError CrawlCommandOutput) :
    Held config clock db (afterCrawl config clock job result) := by
  obtain ⟨inside, expiry, held, covered⟩ := h
  cases result with
  | ok output =>
    have later := Int.add_le_add_right inside (seconds config.api.client.timeout)
    exact ⟨Int.le_add_of_nonneg_right (seconds_nonneg _), expiry, held, later.trans covered⟩
  | error e =>
    have within := inside.trans (Int.le_add_of_nonneg_right (seconds_nonneg config.api.client.timeout))
    exact ⟨le_rfl, expiry, held, within.trans covered⟩

theorem post_held {config : Config} {clock : Timestamp} {db : Database} {job : CrawlJob}
    {output : CrawlCommandOutput} {deadline : Timestamp}
    (h : Held config clock db (.posting job output deadline)) (result : Except IngestApiError Json) :
    Held config clock db (afterPost clock job output result) := by
  obtain ⟨inside, expiry, held, covered⟩ := h
  cases result with
  | ok receipt => exact ⟨le_rfl, expiry, held, inside.trans covered⟩
  | error e => exact ⟨le_rfl, expiry, held, inside.trans covered⟩

/-- Complete or fail ends the lease of its worker, which then has no job. -/
theorem record_covered {s : State n} (h : Covered fleet s) (op : Op) (fresh : op.Fresh s.db) {w : Fin n}
    (own : ∀ job ∈ op.resolves, (s.phase w).job = some job) :
    Covered fleet (s.transact crate op w afterRecord) := by
  refine h.transact op fresh w own (fun {result} _ _ => ?_) fun {result} _ _ => ?_
  · cases result <;> trivial
  · cases result <;> simp [afterRecord, Phase.job]

theorem step_covered (fits : ∀ w, Fits (fleet w)) {s : State n} {e : Event n} (h : Covered fleet s)
    (admits : Admits fleet s e) : Covered fleet (step crate fleet s e) := by
  cases e with
  | tick now => exact ⟨h.consistent, fun w => (h.held w).tick (admits.2 w), h.apart⟩
  | start w => exact h.enter w trivial (by simp [Phase.job])
  | stop w => exact h.enter w trivial (by simp [Phase.job])
  | reap w =>
    refine h.transact .reapExpired trivial w (by simp [Op.resolves]) (fun {result} _ _ => ?_)
      fun {result} _ _ => ?_
    · cases result <;> trivial
    · cases result <;> simp [afterReap, Phase.job]
  | lease w leaseToken attemptId locked =>
    refine h.transact _ admits.2 w (by simp [leaseOp, Op.resolves])
      (fun did => lease_held (fits w) h.consistent did) fun {result} _ did job working v _ i other => ?_
    unfold afterLease at working
    split at working
    · cases working
      obtain ⟨expiry, held, covered⟩ := (h.held v).covers other
      intro same
      rw [same] at held
      exact absurd ((effect_grants_lease h.consistent did).2 _ held) (not_lt.mpr covered)
    · cases working
    · cases working
  | crawled w result =>
    obtain ⟨job, deadline, phase⟩ := admits
    have held := h.held w
    simp only [step, phase] at held ⊢
    refine h.enter w (crawl_held held result) fun i working => ?_
    rw [phase]
    cases result <;> exact working
  | posted w result =>
    obtain ⟨job, output, deadline, phase⟩ := admits
    have held := h.held w
    simp only [step, phase] at held ⊢
    refine h.enter w (post_held held result) fun i working => ?_
    rw [phase]
    cases result <;> exact working
  | record w =>
    simp only [step]
    split
    · rename_i phase
      apply record_covered h
      · trivial
      · simp [phase, Op.resolves, Phase.job]
    · rename_i phase
      apply record_covered h
      · trivial
      · simp [phase, Op.resolves, Phase.job]
    · exact h
  | action op =>
    have did := exec_effect crate s.clock s.db op
    refine ⟨h.consistent.effect did admits.1, fun v => h.others did ?_, h.apart⟩
    intro job resolved
    cases op with
    | seed => cases resolved
    | reapExpired => cases resolved
    | lease => exact admits.2.elim
    | complete => exact admits.2.elim
    | fail => exact admits.2.elim

theorem run_covered (fits : ∀ w, Fits (fleet w)) {clock : Timestamp} {es : List (Event n)}
    (admissible : Admissible crate fleet clock es) : Covered fleet (run crate fleet clock es) :=
  Runs.run_invariant (fun _ _ h admits => step_covered fits h admits) (initial_covered fleet clock)
    admissible

/-- A worker that is about to record its outcome holds an unexpired lease of the job, and no other
worker works on a job that one works on. -/
structure LeaseOutlives (s : State n) : Prop where
  unexpired : ∀ w, ∀ job ∈ (s.phase w).recording, ∃ row ∈ s.db.jobs, row.id = job.id ∧
    row.leaseToken = some job.leaseToken ∧ row.expired s.clock = false
  alone : ∀ v w, v ≠ w → ∀ i ∈ (s.phase v).job, ∀ j ∈ (s.phase w).job, i.id ≠ j.id

theorem recording_job {phase : Phase} {job : CrawlJob} (h : phase.recording = some job) :
    phase.job = some job := by
  cases phase with
  | completing => exact h
  | failing => exact h
  | stopped => cases h
  | idle => cases h
  | reaped => cases h
  | crawling => cases h
  | posting => cases h

theorem Covered.outlives {s : State n} (h : Covered fleet s) : LeaseOutlives s where
  unexpired w job recording := by
    obtain ⟨expiry, held, covered⟩ := (h.held w).covers (recording_job recording)
    obtain ⟨row, found, lease⟩ := Option.bind_eq_some_iff.mp held
    obtain ⟨token, expires⟩ := JobRow.lease_eq_some.mp lease
    obtain ⟨member, same⟩ := jobRow_mem found
    exact ⟨row, member, same, token, by simpa [JobRow.expired, expires] using covered⟩
  alone := h.apart

/-- A seeded job, leased by one worker whose crawl and API call take all the time they have. -/
def overrun (fleet : Fin n → Config) (w : Fin n) : List (Event n) :=
  let crawled := seconds (fleet w).command.timeoutSeconds
  [.action (.seed 1 2 "https://docs.example.com/releases".toList 3600 1 true 10), .start w, .reap w,
    .lease w 20 30 [], .tick crawled, .crawled w (.ok ⟨.null, .null⟩),
    .tick (crawled + seconds (fleet w).api.client.timeout), .posted w (.ok .null)]

def seededJob : JobRow := newJob 10 1 2 "https://docs.example.com/releases".toList 3600 1 true 0

def seededTables : Database := ⟨[seededJob], []⟩

/-- One worker is in the phase, and all others are stopped. -/
def only (w : Fin n) (phase : Phase) : Fin n → Phase := Function.update (fun _ => .stopped) w phase

theorem only_self (w : Fin n) (phase : Phase) : only w phase w = phase := Function.update_self ..

theorem update_only (w : Fin n) (phase next : Phase) :
    Function.update (only w phase) w next = only w next := Function.update_idem ..

theorem only_inTime {w : Fin n} {phase : Phase} {now : Timestamp}
    (inTime : ∀ deadline ∈ phase.deadline, now ≤ deadline) (v : Fin n) :
    ∀ deadline ∈ (only w phase v).deadline, now ≤ deadline := by
  by_cases mine : v = w
  · rw [mine, only_self]
    exact inTime
  · rw [only, Function.update_of_ne mine]
    simp [Phase.deadline]

theorem overrun_reaps (w : Fin n) :
    step releasesCrate fleet ⟨0, seededTables, only w .idle⟩ (.reap w) =
      ⟨0, seededTables, only w .reaped⟩ := by
  simp only [step, State.transact, update_only]
  rfl

theorem overrun_leases (w : Fin n) (accepts : LeaseAccepts (fleet w).owner (fleet w).leaseSeconds) :
    step releasesCrate fleet ⟨0, seededTables, only w .reaped⟩ (.lease w 20 30 []) =
      ⟨0, granted (fleet w).owner (fleet w).leaseSeconds 20 30 0 seededJob seededTables,
        only w (.crawling (releasesJob 20 30) (seconds (fleet w).command.timeoutSeconds))⟩ := by
  have reached : Runtime.Admissible releasesCrate (.start 0) [seedReleases 0 10] := by decide
  have consistent : Consistent seededTables := reachable_consistent reached
  have fresh : (leaseOp (fleet w) 20 30 []).Fresh seededTables := by
    simp [leaseOp, Op.Fresh, seededTables]
  have found : leaseCandidate 0 [] seededTables = some seededJob := by decide
  have leased := consistent.lease_eq accepts fresh found
  simp only [step, State.transact, leaseOp, Op.exec, reply, leased, Except.map, afterLease, zero_add,
    update_only]
  rfl

theorem overrun_reaches (w : Fin n) (accepts : LeaseAccepts (fleet w).owner (fleet w).leaseSeconds) :
    Admissible releasesCrate fleet 0 (overrun fleet w) ∧ run releasesCrate fleet 0 (overrun fleet w) =
      ⟨seconds (fleet w).command.timeoutSeconds + seconds (fleet w).api.client.timeout,
        granted (fleet w).owner (fleet w).leaseSeconds 20 30 0 seededJob seededTables,
        only w (.completing (releasesJob 20 30) ⟨.null, .null⟩ .null
          (seconds (fleet w).command.timeoutSeconds + seconds (fleet w).api.client.timeout))⟩ := by
  generalize tables : granted (fleet w).owner (fleet w).leaseSeconds 20 30 0 seededJob seededTables = db
  generalize allowed : seconds ((fleet w).command.timeoutSeconds : Int) = crawled
  generalize answered : seconds ((fleet w).api.client.timeout : Int) = posted
  have seeded : step releasesCrate fleet (.initial n 0) (.action (.seed 1 2
      "https://docs.example.com/releases".toList 3600 1 true 10)) =
      ⟨0, seededTables, fun _ => .stopped⟩ := rfl
  have started : step releasesCrate fleet ⟨0, seededTables, fun _ => .stopped⟩ (.start w) =
      ⟨0, seededTables, only w .idle⟩ := rfl
  have leased := overrun_leases w accepts
  rw [tables, allowed] at leased
  have crawls : step releasesCrate fleet ⟨crawled, db, only w (.crawling (releasesJob 20 30) crawled)⟩
      (.crawled w (.ok ⟨.null, .null⟩)) =
      ⟨crawled, db, only w (.posting (releasesJob 20 30) ⟨.null, .null⟩ (crawled + posted))⟩ := by
    simp only [step, only_self, State.enter, update_only, afterCrawl, answered]
  have posts : step releasesCrate fleet ⟨crawled + posted, db,
      only w (.posting (releasesJob 20 30) ⟨.null, .null⟩ (crawled + posted))⟩ (.posted w (.ok .null)) =
      ⟨crawled + posted, db,
        only w (.completing (releasesJob 20 30) ⟨.null, .null⟩ .null (crawled + posted))⟩ := by
    simp only [step, only_self, State.enter, update_only, afterPost]
  have ticks : ∀ (clock now : Timestamp) (phase : Fin n → Phase),
      step releasesCrate fleet ⟨clock, db, phase⟩ (.tick now) = ⟨now, db, phase⟩ := fun _ _ _ => rfl
  constructor
  · simp only [Admissible, overrun, allowed, answered, Runs.Admissible, seeded, started, overrun_reaps,
      leased, ticks, crawls]
    have early : (0 : Timestamp) ≤ crawled := allowed ▸ seconds_nonneg _
    have late : crawled ≤ crawled + posted :=
      answered ▸ Int.le_add_of_nonneg_right (seconds_nonneg _)
    refine ⟨⟨by simp [Op.Fresh, State.initial, Database.migrated], trivial⟩, rfl, only_self .., ?_, ?_,
      ⟨_, _, only_self ..⟩, ?_, ⟨_, _, _, only_self ..⟩, trivial⟩
    · exact ⟨only_self .., by simp [leaseOp, Op.Fresh, seededTables]⟩
    · exact ⟨early, only_inTime fun _ same => (Option.some.inj same).le⟩
    · exact ⟨late, only_inTime fun _ same => (Option.some.inj same).le⟩
  · simp only [run, overrun, allowed, answered, Runs.run, seeded, started, overrun_reaps, leased, ticks,
      crawls, posts]

/-- For every fleet that the program accepts: leases outlive the work in every run just when each
lease is at least as long as the two timeouts of its worker together. -/
theorem lease_outlives_iff (fleet : Fin n → Config)
    (accepts : ∀ w, LeaseAccepts (fleet w).owner (fleet w).leaseSeconds) :
    (∀ crate clock es, Admissible crate fleet clock es → LeaseOutlives (run crate fleet clock es)) ↔
      ∀ w, Fits (fleet w) := by
  constructor
  · intro outlives w
    obtain ⟨admissible, reached⟩ := overrun_reaches w (accepts w)
    have last := outlives releasesCrate 0 _ admissible
    rw [reached] at last
    obtain ⟨row, member, _, _, unexpired⟩ := last.unexpired w (releasesJob 20 30) (by
      dsimp only
      rw [only_self]
      rfl)
    have same : row = takeLease 20 (fleet w).owner (fleet w).leaseSeconds 0 seededJob := by
      simpa [granted, Table.update, seededTables] using member
    rw [same] at unexpired
    simp only [JobRow.expired, takeLease, Option.any_some, decide_eq_false_iff_not, not_lt, zero_add,
      seconds, ← Int.add_mul] at unexpired
    exact Int.le_of_mul_le_mul_right unexpired (by decide)
  · exact fun fits _ _ _ admissible => (run_covered fits admissible).outlives

end

def ingestToken : Str := List.replicate 32 '0'

theorem api_printable : ∀ c ∈ "api.embedded-alerts.invalid".toList, printable c := by decide

theorem slash_printable : ∀ c ∈ ['/'], printable c ∧ c ≠ '?' ∧ c ≠ '#' ∧ c ≠ '\\' := by decide

theorem slash_resolved : ∀ segment ∈ ['/'].splitOn '/', dotSegment segment = false := by decide

theorem slash_absolute : ['/'].head? = some '/' := rfl

def apiUrl : Url :=
  .https "api.embedded-alerts.invalid".toList ['/'] api_printable slash_printable slash_absolute
    slash_resolved

def apiCrate : UrlCrate where
  parse s :=
    if s = "https://api.embedded-alerts.invalid".toList then .ok apiUrl
    else .error "relative URL without a base".toList
  join _ _ := .error "relative URL without a base".toList

/-- The defaults of the command line, but for the lease and the crawl timeout. -/
def config (leaseSeconds : Int) (crawlTimeoutSeconds : Nat)
    (accepted : 5 ≤ crawlTimeoutSeconds ∧ crawlTimeoutSeconds ≤ 3600) : Config where
  command := ⟨"/usr/bin/eal-crawl-adapter".toList, crawlTimeoutSeconds, 8388608, 65536⟩
  owner := "worker".toList
  leaseSeconds := leaseSeconds
  idleSeconds := 10
  api := ⟨⟨10, 20, "embedded-alerts-crawl-runtime/0.1".toList⟩, apiUrl, ingestToken, 2097152⟩
  limits := by simp [validateWorkerLimits, accepted]
  created := ⟨apiCrate, fun _ => true, fun _ => .ok (), "https://api.embedded-alerts.invalid".toList, false, 20,
    2097152, ingestToken, by rfl⟩

/-- The defaults, 180 seconds against 120 and 20. -/
def defaultFleet : Fin 2 → Config := fun _ => config 180 120 (by decide)

theorem lease_outlives_default :
    LeaseOutlives (run releasesCrate defaultFleet 0 (overrun defaultFleet 0)) := by
  have accepts : LeaseAccepts "worker".toList 180 := by decide
  have fits : (120 : Int) + 20 ≤ 180 := by decide
  apply (lease_outlives_iff defaultFleet fun _ => accepts).mpr fun _ => fits
  exact (overrun_reaches 0 accepts).1

/-- The shortest lease with the longest crawl timeout. -/
def hastyFleet : Fin 2 → Config := fun _ => config 30 3600 (by decide)

/-- The second worker reaps the lease of the first, waits out the pause and leases the job. -/
def secondLease : List (Event 2) :=
  [.action (.seed 1 2 "https://docs.example.com/releases".toList 3600 12 true 10),
    .start 0, .reap 0, .lease 0 20 30 [], .tick (seconds 31), .start 1, .reap 1, .lease 1 21 31 [],
    .tick (seconds 91), .reap 1, .lease 1 22 32 []]

theorem lease_expires_during_crawl : ¬∀ (n : Nat) (fleet : Fin n → Config),
    (∀ w, LeaseAccepts (fleet w).owner (fleet w).leaseSeconds) → ∀ crate clock es,
    Admissible crate fleet clock es → LeaseOutlives (run crate fleet clock es) := by
  intro outlives
  have accepts : LeaseAccepts "worker".toList 30 := by decide
  have expires : InTime (run releasesCrate hastyFleet 0 (secondLease.take 4)) (seconds 31) := by
    decide +kernel
  have waits : InTime (run releasesCrate hastyFleet 0 (secondLease.take 8)) (seconds 91) := by
    decide +kernel
  have admissible : Admissible releasesCrate hastyFleet 0 secondLease :=
    ⟨⟨by decide, trivial⟩, rfl, rfl, ⟨rfl, by decide⟩, expires, rfl, rfl, ⟨rfl, by decide⟩, waits, rfl,
      ⟨rfl, by decide⟩, trivial⟩
  have last := outlives 2 hastyFleet (fun _ => accepts) releasesCrate 0 secondLease admissible
  exact last.alone 0 1 (by decide) ⟨10, 1, 2, "https://docs.example.com/releases".toList, 3600, 0, 12, 20, 30⟩
    (by decide +kernel) ⟨10, 1, 2, "https://docs.example.com/releases".toList, 3600, 1, 12, 22, 32⟩
    (by decide +kernel) rfl

end EalSync.Runtime.Worker
