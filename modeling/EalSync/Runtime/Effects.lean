import EalSync.Runtime.Queue

/-! What each transaction of the queue can do to the tables, said once. Everything proved about
runs is derived from these inversions. -/
namespace EalSync.Runtime

theorem transaction_cases {α : Type} {db db' : Database} {body : Except Error (α × Database)}
    {result : Except Error α} (h : transaction db body = (result, db')) :
    (∃ e, body = .error e ∧ result = .error e ∧ db' = db) ∨
      ∃ a, body = .ok (a, db') ∧ result = .ok a := by
  cases body with
  | error e => cases h; exact .inl ⟨e, rfl, rfl, rfl⟩
  | ok value => cases h; exact .inr ⟨value.1, rfl, rfl⟩

theorem upsertJob_cases {context : String} {row : JobRow} {merge : JobRow → JobRow}
    {db db' : Database} {id : Uuid} (h : upsertJob context row merge db = .ok (id, db')) :
    row.admissible = true ∧
    (((∀ job ∈ db.jobs, job.key ≠ row.key) ∧ (∀ job ∈ db.jobs, job.id ≠ row.id) ∧ id = row.id ∧
        db' = { db with jobs := db.jobs ++ [row] }) ∨
      ∃ existing ∈ db.jobs, existing.key = row.key ∧ id = existing.id ∧
        db' = { db with jobs := Table.update (fun job => job.key == row.key) merge db.jobs } ∧
        ∀ job ∈ db.jobs, job.key = row.key → (merge job).admissible = true) := by
  unfold upsertJob at h
  obtain ⟨admissible, h⟩ := Checks.check_ok h
  refine ⟨by simpa using admissible, ?_⟩
  split at h
  · rename_i existing found
    obtain ⟨⟨n, db₁⟩, updated, h⟩ := Checks.bind_ok h
    obtain ⟨_, rfl, checked⟩ := updateJobs_ok updated
    cases h
    have member := Table.lookup_mem found
    exact .inr ⟨existing, member.1, member.2, rfl, rfl,
      fun job hjob same => checked job hjob (by simpa using same)⟩
  · rename_i absent
    obtain ⟨fresh, h⟩ := Checks.check_ok h
    cases h
    refine .inl ⟨Table.lookup_eq_none.mp absent, ?_, rfl, rfl⟩
    simpa using fresh

theorem seed_cases {crate : UrlCrate} {tenantId sourceId id : Uuid} {startUrl : Str}
    {intervalSeconds maxAttempts : Int} {enabled : Bool} {now : Timestamp} {db db' : Database}
    {result : Except Error Uuid}
    (h : seed crate tenantId sourceId startUrl intervalSeconds maxAttempts enabled id now db =
      (result, db')) :
    (∃ e, result = .error e ∧ db' = db) ∨
    ∃ url, ((60 ≤ intervalSeconds ∧ intervalSeconds ≤ 2592000) ∧ 1 ≤ maxAttempts ∧ maxAttempts ≤ 100) ∧
      (newJob id tenantId sourceId url intervalSeconds maxAttempts enabled now).admissible = true ∧
      (((∀ job ∈ db.jobs, job.key ≠ (tenantId, sourceId, url)) ∧ (∀ job ∈ db.jobs, job.id ≠ id) ∧
          result = .ok id ∧
          db' = { db with
            jobs := db.jobs ++ [newJob id tenantId sourceId url intervalSeconds maxAttempts enabled now] }) ∨
        ∃ existing ∈ db.jobs, existing.key = (tenantId, sourceId, url) ∧ result = .ok existing.id ∧
          db' = { db with
            jobs := Table.update (fun job => job.key == (tenantId, sourceId, url))
              (reseed intervalSeconds maxAttempts enabled now) db.jobs }) := by
  unfold seed at h
  split at h
  · cases h
    exact .inl ⟨_, rfl, rfl⟩
  · split at h
    · cases h
      exact .inl ⟨_, rfl, rfl⟩
    · rename_i url _ interval
      split at h
      · cases h
        exact .inl ⟨_, rfl, rfl⟩
      · rename_i attempts
        rcases transaction_cases h with ⟨e, _, rfl, rfl⟩ | ⟨job, body, rfl⟩
        · exact .inl ⟨e, rfl, rfl⟩
        · obtain ⟨admissible, outcome⟩ := upsertJob_cases body
          refine .inr ⟨url.asStr, ⟨not_not.mp interval, not_not.mp attempts⟩, admissible, ?_⟩
          rcases outcome with ⟨keys, ids, rfl, rfl⟩ | ⟨existing, member, same, rfl, rfl, _⟩
          · exact .inl ⟨keys, ids, rfl, rfl⟩
          · exact .inr ⟨existing, member, same, rfl, rfl⟩

theorem insertAttempt_ok {context : String} {row : AttemptRow} {db db' : Database}
    (h : insertAttempt context row db = .ok db') :
    db' = { db with attempts := db.attempts ++ [row] } := by
  unfold insertAttempt at h
  split at h
  · cases h; rfl
  · cases h

/-- The arguments that lease does not refuse. -/
def LeaseAccepts (owner : Str) (leaseSeconds : Int) : Prop :=
  ((Str.trim owner).isEmpty = false ∧ Str.len owner ≤ 200) ∧ 30 ≤ leaseSeconds ∧ leaseSeconds ≤ 3600

instance (owner : Str) (leaseSeconds : Int) : Decidable (LeaseAccepts owner leaseSeconds) :=
  inferInstanceAs (Decidable (_ ∧ _))

/-- The tables after a lease of the candidate. -/
def granted (owner : Str) (leaseSeconds : Int) (leaseToken attemptId : Uuid) (now : Timestamp)
    (candidate : JobRow) (db : Database) : Database :=
  ⟨Table.update (fun job => job.id == candidate.id) (takeLease leaseToken owner leaseSeconds now)
      db.jobs,
    db.attempts ++ [newAttempt attemptId candidate.id leaseToken now]⟩

theorem lease_cases {owner : Str} {leaseSeconds : Int} {leaseToken attemptId : Uuid}
    {locked : List Uuid} {now : Timestamp} {db db' : Database}
    {result : Except Error (Option CrawlJob)}
    (h : lease owner leaseSeconds leaseToken attemptId locked now db = (result, db')) :
    (∃ e, result = .error e ∧ db' = db) ∨
    (leaseCandidate now locked db = none ∧ result = .ok none ∧ db' = db) ∨
    ∃ candidate, leaseCandidate now locked db = some candidate ∧ LeaseAccepts owner leaseSeconds ∧
      result = .ok (some (leasedJob candidate leaseToken attemptId)) ∧
      db' = granted owner leaseSeconds leaseToken attemptId now candidate db := by
  unfold lease at h
  split at h
  · cases h
    exact .inl ⟨_, rfl, rfl⟩
  · rename_i named
    split at h
    · cases h
      exact .inl ⟨_, rfl, rfl⟩
    · rename_i range
      have accepts : LeaseAccepts owner leaseSeconds := ⟨by simpa using named, not_not.mp range⟩
      rcases transaction_cases h with ⟨e, _, rfl, rfl⟩ | ⟨job, body, rfl⟩
      · exact .inl ⟨e, rfl, rfl⟩
      · split at body
        · rename_i none
          cases body
          exact .inr (.inl ⟨none, rfl, rfl⟩)
        · rename_i candidate found
          obtain ⟨⟨n, db₁⟩, updated, body⟩ := Checks.bind_ok body
          obtain ⟨db₂, inserted, body⟩ := Checks.bind_ok body
          obtain ⟨_, rfl, _⟩ := updateJobs_ok updated
          cases insertAttempt_ok inserted
          cases body
          exact .inr (.inr ⟨candidate, found, accepts, rfl, rfl⟩)

theorem resolveAttempt_ok {r : Resolution} {job : CrawlJob} {db db' : Database}
    (h : resolveAttempt r job db = .ok db') :
    Table.affected job.matchesAttempt db.attempts = 1 ∧
      db' = { db with attempts := Table.update job.matchesAttempt r.setAttempt db.attempts } := by
  obtain ⟨⟨n, db₁⟩, updated, h⟩ := Checks.bind_ok h
  obtain ⟨rfl, rfl, _⟩ := updateAttempts_ok updated
  obtain ⟨one, h⟩ := Checks.check_ok h
  cases h
  exact ⟨not_not.mp one, rfl⟩

theorem releaseJob_ok {r : Resolution} {job : CrawlJob} {db db' : Database}
    (h : releaseJob r job db = .ok db') :
    Table.affected job.matchesJob db.jobs = 1 ∧
      db' = { db with jobs := Table.update job.matchesJob r.setJob db.jobs } := by
  obtain ⟨⟨n, db₁⟩, updated, h⟩ := Checks.bind_ok h
  obtain ⟨rfl, rfl, _⟩ := updateJobs_ok updated
  obtain ⟨one, h⟩ := Checks.check_ok h
  cases h
  exact ⟨not_not.mp one, rfl⟩

/-- The tables after both UPDATE statements of complete or fail. -/
def resolved (r : Resolution) (job : CrawlJob) (db : Database) : Database :=
  ⟨Table.update job.matchesJob r.setJob db.jobs,
    Table.update job.matchesAttempt r.setAttempt db.attempts⟩

theorem resolve_cases {r : Resolution} {job : CrawlJob} {db db' : Database}
    {result : Except Error Unit} (h : resolve r job db = (result, db')) :
    (∃ e, result = .error e ∧ db' = db) ∨
    (Table.affected job.matchesAttempt db.attempts = 1 ∧ Table.affected job.matchesJob db.jobs = 1 ∧
      result = .ok () ∧ db' = resolved r job db) := by
  rcases transaction_cases h with ⟨e, _, rfl, rfl⟩ | ⟨_, body, rfl⟩
  · exact .inl ⟨e, rfl, rfl⟩
  · obtain ⟨db₁, first, body⟩ := Checks.bind_ok body
    obtain ⟨db₂, second, body⟩ := Checks.bind_ok body
    obtain ⟨attempt, rfl⟩ := resolveAttempt_ok first
    obtain ⟨released, rfl⟩ := releaseJob_ok second
    cases body
    exact .inr ⟨attempt, released, rfl, rfl⟩

/-- The tables after the statement of reap_expired. -/
def reaped (now : Timestamp) (db : Database) : Database :=
  ⟨Table.update (reaps now db) (reap now) db.jobs,
    Table.update (abandons now db) (abandon now) db.attempts⟩

theorem reapExpired_cases {now : Timestamp} {db db' : Database} {result : Except Error Nat}
    (h : reapExpired now db = (result, db')) :
    (∃ e, result = .error e ∧ db' = db) ∨
    (result = .ok (Table.affected (reaps now db) db.jobs) ∧ db' = reaped now db) := by
  rcases transaction_cases h with ⟨e, _, rfl, rfl⟩ | ⟨n, body, rfl⟩
  · exact .inl ⟨e, rfl, rfl⟩
  · obtain ⟨⟨_, db₁⟩, first, body⟩ := Checks.bind_ok body
    obtain ⟨⟨m, db₂⟩, second, body⟩ := Checks.bind_ok body
    obtain ⟨_, rfl, _⟩ := updateAttempts_ok first
    obtain ⟨rfl, rfl, _⟩ := updateJobs_ok second
    cases body
    exact .inr ⟨rfl, rfl⟩

end EalSync.Runtime
