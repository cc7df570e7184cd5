import EalSync.Runtime.JobView
import EalSync.Runtime.Progress

/-! The tables of one tenant. What other tenants register, lease and finish leaves no trace in
them: they are what the tenant's own transactions make of tables that hold nothing else. -/
namespace EalSync.Runtime

def ofTenant (tenantId : Uuid) (job : JobRow) : Bool := job.tenantId == tenantId

/-- The receipt is one of a job of the tenant. -/
def owns (tenantId : Uuid) (jobs : List JobRow) (a : AttemptRow) : Bool :=
  jobs.any fun job => ofTenant tenantId job && job.id == a.jobId

/-- The rows that are left when those of all other tenants are deleted. -/
def Database.tenant (tenantId : Uuid) (db : Database) : Database :=
  ⟨db.jobs.filter (ofTenant tenantId), db.attempts.filter (owns tenantId db.jobs)⟩

theorem ofTenant_identity (tenantId : Uuid) {x y : JobRow} (same : x.identity = y.identity) :
    ofTenant tenantId x = ofTenant tenantId y := by
  have tenants : x.tenantId = y.tenantId := congrArg (fun i => i.2.1) same
  rw [ofTenant, ofTenant, tenants]

theorem owns_iff {tenantId : Uuid} {jobs : List JobRow} {a : AttemptRow} :
    owns tenantId jobs a = true ↔ ∃ job ∈ jobs, job.tenantId = tenantId ∧ job.id = a.jobId := by
  simp [owns, ofTenant]

theorem owns_identity (tenantId : Uuid) (jobs : List JobRow) {a b : AttemptRow}
    (same : a.identity = b.identity) : owns tenantId jobs a = owns tenantId jobs b := by
  rw [owns, owns, (AttemptRow.identity_eq same).2.1]

theorem owns_update (tenantId : Uuid) {p : JobRow → Bool} {f : JobRow → JobRow}
    (keeps : ∀ job, (f job).identity = job.identity) (jobs : List JobRow) :
    owns tenantId (Table.update p f jobs) = owns tenantId jobs := by
  funext a
  rw [owns, owns, Table.update, List.any_map]
  congr 1
  funext job
  by_cases selected : p job = true
  · simp [selected, ofTenant_identity tenantId (keeps job), JobRow.id_of_identity (keeps job)]
  · simp [selected]

section Rows

variable {db : Database} {tenantId : Uuid}

theorem mem_tenant_jobs {job : JobRow} :
    job ∈ (db.tenant tenantId).jobs ↔ job ∈ db.jobs ∧ job.tenantId = tenantId := by
  simp [Database.tenant, ofTenant]

theorem mem_tenant_attempts {a : AttemptRow} : a ∈ (db.tenant tenantId).attempts ↔
    a ∈ db.attempts ∧ ∃ job ∈ db.jobs, job.tenantId = tenantId ∧ job.id = a.jobId := by
  rw [Database.tenant, List.mem_filter, owns_iff]

theorem Consistent.tenant (h : Consistent db) (tenantId : Uuid) : Consistent (db.tenant tenantId) where
  jobIds := h.jobIds.sublist (List.filter_sublist.map _)
  jobKeys := h.jobKeys.sublist (List.filter_sublist.map _)
  attemptIds := h.attemptIds.sublist (List.filter_sublist.map _)
  tokens := h.tokens.sublist (List.filter_sublist.map _)
  jobs job member := h.jobs job (mem_tenant_jobs.mp member).1
  attempts a ha := h.attempts a (mem_tenant_attempts.mp ha).1
  owned a ha := by
    obtain ⟨_, job, member, own, same⟩ := mem_tenant_attempts.mp ha
    exact ⟨job, mem_tenant_jobs.mpr ⟨member, own⟩, same⟩
  held job member t held := by
    obtain ⟨inside, own⟩ := mem_tenant_jobs.mp member
    obtain ⟨a, ha, owner, opened⟩ := h.held job inside t held
    exact ⟨a, mem_tenant_attempts.mpr ⟨ha, job, inside, own, owner.symm⟩, owner, opened⟩

/-- Statements that keep the identities do to the tenant's rows what they do to the tables. -/
theorem tenant_rewrite {p : JobRow → Bool} {f : JobRow → JobRow} {q : AttemptRow → Bool}
    {g : AttemptRow → AttemptRow} (jobIdentity : ∀ job, (f job).identity = job.identity)
    (attemptIdentity : ∀ a, (g a).identity = a.identity) :
    Database.tenant tenantId ⟨Table.update p f db.jobs, Table.update q g db.attempts⟩ =
      ⟨Table.update p f (db.tenant tenantId).jobs, Table.update q g (db.tenant tenantId).attempts⟩ := by
  have jobs := Table.filter_update p db.jobs
    fun job => ofTenant_identity tenantId (jobIdentity job)
  have attempts := Table.filter_update q db.attempts
    fun a => owns_identity tenantId db.jobs (attemptIdentity a)
  simp only [Database.tenant, owns_update tenantId jobIdentity, jobs, attempts]

/-- The same for a statement that writes the jobs only. -/
theorem tenant_update_jobs {p : JobRow → Bool} {f : JobRow → JobRow}
    (keeps : ∀ job, (f job).identity = job.identity) :
    Database.tenant tenantId { db with jobs := Table.update p f db.jobs } =
      { db.tenant tenantId with jobs := Table.update p f (db.tenant tenantId).jobs } := by
  have rows : Database.tenant tenantId ⟨Table.update p f db.jobs,
      Table.update (fun _ => false) id db.attempts⟩ = _ := tenant_rewrite keeps fun _ => rfl
  rwa [Table.update_eq_self (fun _ _ => rfl), Table.update_eq_self (fun _ _ => rfl)] at rows

theorem tenant_untouched {p : JobRow → Bool} {f : JobRow → JobRow} {q : AttemptRow → Bool}
    {g : AttemptRow → AttemptRow} (jobIdentity : ∀ job, (f job).identity = job.identity)
    (attemptIdentity : ∀ a, (g a).identity = a.identity)
    (jobs : ∀ job ∈ (db.tenant tenantId).jobs, p job = false)
    (attempts : ∀ a ∈ (db.tenant tenantId).attempts, q a = false) :
    Database.tenant tenantId ⟨Table.update p f db.jobs, Table.update q g db.attempts⟩ =
      db.tenant tenantId := by
  rw [tenant_rewrite jobIdentity attemptIdentity, Table.update_eq_self jobs,
    Table.update_eq_self attempts]

end Rows

/-- An insertion into the jobs, as the tenant's rows see it. -/
theorem tenant_insert {db : Database} (h : Consistent db) (tenantId : Uuid) {row : JobRow}
    (fresh : ∀ job ∈ db.jobs, job.id ≠ row.id) :
    Database.tenant tenantId { db with jobs := db.jobs ++ [row] } =
      if row.tenantId = tenantId then
        { db.tenant tenantId with jobs := (db.tenant tenantId).jobs ++ [row] }
      else db.tenant tenantId := by
  have attempts : db.attempts.filter (owns tenantId (db.jobs ++ [row])) =
      db.attempts.filter (owns tenantId db.jobs) := by
    refine List.filter_congr fun a ha => ?_
    obtain ⟨job, member, same⟩ := h.owned a ha
    have other : (row.id == a.jobId) = false := beq_eq_false_iff_ne.mpr fun equal =>
      fresh job member (same.trans equal.symm)
    simp [owns, other]
  simp only [Database.tenant, attempts, List.filter_append]
  by_cases own : row.tenantId = tenantId <;> simp [ofTenant, own]

section Seed

variable {db : Database} {tenantId : Uuid}

theorem updateJobs_tenant (context : String) {p : JobRow → Bool} {f : JobRow → JobRow}
    (keeps : ∀ job, (f job).identity = job.identity)
    (inside : ∀ job ∈ db.jobs, p job = true → ofTenant tenantId job = true) :
    updateJobs context p f (db.tenant tenantId) =
      (updateJobs context p f db).map fun r => (r.1, r.2.tenant tenantId) := by
  have chosen : (db.tenant tenantId).jobs.filter p = db.jobs.filter p := by
    rw [Database.tenant, List.filter_filter]
    refine List.filter_congr fun job member => ?_
    by_cases selected : p job = true <;> simp [selected, inside job member]
  have affected : Table.affected p (db.tenant tenantId).jobs = Table.affected p db.jobs :=
    Table.affected_filter inside
  rw [updateJobs, updateJobs, chosen, affected]
  split
  · simp only [Except.map, tenant_update_jobs keeps]
  · rfl

theorem upsertJob_tenant (h : Consistent db) {context : String} {row : JobRow}
    {merge : JobRow → JobRow} (keeps : ∀ job, (merge job).identity = job.identity)
    (own : row.tenantId = tenantId) (fresh : ∀ job ∈ db.jobs, job.id ≠ row.id) :
    upsertJob context row merge (db.tenant tenantId) =
      (upsertJob context row merge db).map fun r => (r.1, r.2.tenant tenantId) := by
  have inside : ∀ job ∈ db.jobs, job.key = row.key → ofTenant tenantId job = true := by
    intro job _ same
    have tenants : job.tenantId = row.tenantId := congrArg Prod.fst same
    simp [ofTenant, tenants, own]
  have found : Table.lookup JobRow.key row.key (db.tenant tenantId).jobs =
      Table.lookup JobRow.key row.key db.jobs := Table.lookup_filter inside
  have ids : ((db.tenant tenantId).jobs.any fun job => job.id == row.id) = false := by
    simpa using fun job member => fresh job (mem_tenant_jobs.mp member).1
  have ids' : (db.jobs.any fun job => job.id == row.id) = false := by simpa using fresh
  unfold upsertJob
  rw [found, ids, ids']
  split
  · rfl
  · split
    · rw [updateJobs_tenant context keeps fun job member selected =>
        inside job member (beq_iff_eq.mp selected)]
      cases updateJobs context (fun job => job.key == row.key) merge db <;> rfl
    · simp [Except.map, tenant_insert h tenantId fresh, own]

theorem seed_tenant (h : Consistent db) (crate : UrlCrate) (sourceId id : Uuid) (startUrl : Str)
    (intervalSeconds maxAttempts : Int) (enabled : Bool) (now : Timestamp)
    (fresh : ∀ job ∈ db.jobs, job.id ≠ id) :
    seed crate tenantId sourceId startUrl intervalSeconds maxAttempts enabled id now
        (db.tenant tenantId) =
      ((seed crate tenantId sourceId startUrl intervalSeconds maxAttempts enabled id now db).1,
        (seed crate tenantId sourceId startUrl intervalSeconds maxAttempts enabled id now db).2.tenant
          tenantId) := by
  unfold seed
  split
  · rfl
  · rename_i url _
    split
    · rfl
    · split
      · rfl
      · have same : upsertJob "seed crawl job"
            (newJob id tenantId sourceId url.asStr intervalSeconds maxAttempts enabled now)
            (reseed intervalSeconds maxAttempts enabled now) (db.tenant tenantId) = _ :=
          upsertJob_tenant h (fun _ => rfl) rfl fresh
        rw [same]
        cases upsertJob "seed crawl job"
          (newJob id tenantId sourceId url.asStr intervalSeconds maxAttempts enabled now)
          (reseed intervalSeconds maxAttempts enabled now) db <;> rfl

end Seed

section Lease

variable {db : Database} {tenantId : Uuid}

theorem leaseCandidate_tenant (h : Consistent db) {now : Timestamp} {locked : List Uuid}
    {candidate : JobRow} (found : leaseCandidate now locked db = some candidate)
    (own : candidate.tenantId = tenantId) :
    leaseCandidate now locked (db.tenant tenantId) = some candidate :=
  Table.first_filter h.before_antisymm found (by simp [ofTenant, own])

theorem tenant_granted (h : Consistent db) {candidate : JobRow} (member : candidate ∈ db.jobs)
    (owner : Str) (leaseSeconds : Int) (token attemptId : Uuid) (now : Timestamp) :
    (granted owner leaseSeconds token attemptId now candidate db).tenant tenantId =
      if candidate.tenantId = tenantId then
        granted owner leaseSeconds token attemptId now candidate (db.tenant tenantId)
      else db.tenant tenantId := by
  have keeps : ∀ job, (takeLease token owner leaseSeconds now job).identity = job.identity :=
    fun _ => rfl
  have jobs := Table.filter_update (fun job => job.id == candidate.id) db.jobs
    fun job => ofTenant_identity tenantId (keeps job)
  simp only [granted, Database.tenant, owns_update tenantId keeps, jobs, List.filter_append]
  by_cases own : candidate.tenantId = tenantId
  · have mine : owns tenantId db.jobs (newAttempt attemptId candidate.id token now) = true :=
      owns_iff.mpr ⟨candidate, member, own, rfl⟩
    simp [own, mine]
  · have other : owns tenantId db.jobs (newAttempt attemptId candidate.id token now) = false := by
      by_contra mine
      obtain ⟨job, inside, tenant, same⟩ := owns_iff.mp (Bool.not_eq_false _ ▸ mine)
      exact own (h.same_job inside member same ▸ tenant)
    have unselected : ∀ job ∈ db.jobs.filter (ofTenant tenantId), (job.id == candidate.id) = false := by
      intro job kept
      obtain ⟨inside, tenant⟩ := List.mem_filter.mp kept
      refine beq_eq_false_iff_ne.mpr fun same => own ?_
      rw [← h.same_job inside member same]
      simpa [ofTenant] using tenant
    simp [own, other, Table.update_eq_self unselected]

end Lease

section Resolve

variable {db : Database} {tenantId : Uuid} {r : Resolution} {job : CrawlJob}

/-- The job is one of the tenant's. -/
def belongs (tenantId jobId : Uuid) (db : Database) : Bool :=
  (jobRow jobId db).any (ofTenant tenantId)

theorem belongs_row (h : Consistent db) {row : JobRow} (member : row ∈ db.jobs) :
    belongs tenantId row.id db = ofTenant tenantId row := by
  rw [belongs, jobRow_of_mem h member]
  rfl

theorem tenant_resolved (lawful : r.Lawful) :
    (resolved r job db).tenant tenantId = resolved r job (db.tenant tenantId) :=
  tenant_rewrite lawful.jobIdentity lawful.attemptIdentity

theorem resolve_tenant (h : Consistent db) (lawful : r.Lawful)
    (attempt : Table.affected job.matchesAttempt db.attempts = 1)
    (released : Table.affected job.matchesJob db.jobs = 1)
    (own : belongs tenantId job.id db = true) :
    resolve r job (db.tenant tenantId) = (.ok (), (resolved r job db).tenant tenantId) := by
  obtain ⟨row, member, a, ha, rowId, held, attemptId, token, owner, opened⟩ :=
    h.resolves attempt released
  rw [← rowId, belongs_row h member] at own
  have ownRow : row.tenantId = tenantId := by simpa [ofTenant] using own
  have jobs : Table.affected job.matchesJob (db.tenant tenantId).jobs = 1 :=
    (Table.affected_eq_one (h.tenant tenantId).jobIds job.id
      (fun x _ matched => (CrawlJob.matchesJob_iff.mp matched).1)).mpr
      ⟨row, mem_tenant_jobs.mpr ⟨member, ownRow⟩, CrawlJob.matchesJob_iff.mpr ⟨rowId, held⟩⟩
  have attempts : Table.affected job.matchesAttempt (db.tenant tenantId).attempts = 1 :=
    (Table.affected_eq_one (h.tenant tenantId).attemptIds job.attemptId
      (fun x _ matched => (CrawlJob.matchesAttempt_iff.mp matched).1)).mpr
      ⟨a, mem_tenant_attempts.mpr ⟨ha, row, member, ownRow, rowId.trans owner.symm⟩,
        CrawlJob.matchesAttempt_iff.mpr ⟨attemptId, token, opened⟩⟩
  rw [(h.tenant tenantId).resolve_eq lawful attempts jobs, tenant_resolved lawful]

theorem tenant_resolved_other (h : Consistent db) (lawful : r.Lawful)
    (attempt : Table.affected job.matchesAttempt db.attempts = 1)
    (released : Table.affected job.matchesJob db.jobs = 1)
    (other : belongs tenantId job.id db = false) :
    (resolved r job db).tenant tenantId = db.tenant tenantId := by
  obtain ⟨row, member, a, ha, rowId, _, attemptId, _, owner, _⟩ := h.resolves attempt released
  rw [← rowId, belongs_row h member] at other
  have strange : row.tenantId ≠ tenantId := by simpa [ofTenant] using other
  refine tenant_untouched lawful.jobIdentity lawful.attemptIdentity ?_ ?_
  · intro x kept
    obtain ⟨inside, tenant⟩ := mem_tenant_jobs.mp kept
    by_contra matched
    obtain ⟨sameId, _⟩ := CrawlJob.matchesJob_iff.mp (Bool.not_eq_false _ ▸ matched)
    exact strange (h.same_job inside member (sameId.trans rowId.symm) ▸ tenant)
  · intro x kept
    obtain ⟨inside, y, hy, tenant, same⟩ := mem_tenant_attempts.mp kept
    by_contra matched
    obtain ⟨sameId, _⟩ := CrawlJob.matchesAttempt_iff.mp (Bool.not_eq_false _ ▸ matched)
    rw [Table.unique_row h.attemptIds inside ha (sameId.trans attemptId.symm), owner] at same
    exact strange (h.same_job hy member (same.trans rowId.symm) ▸ tenant)

end Resolve

theorem tenant_reaped {db : Database} (h : Consistent db) (tenantId : Uuid) (now : Timestamp) :
    (reaped now db).tenant tenantId = reaped now (db.tenant tenantId) := by
  have rows : Database.tenant tenantId ⟨Table.update (reaps now db) (reap now) db.jobs,
      Table.update (abandons now db) (abandon now) db.attempts⟩ = _ :=
    tenant_rewrite (fun _ => rfl) fun _ => rfl
  rw [reaped, rows, reaped]
  congr 1
  · refine Table.update_congr fun job kept => ⟨?_, fun _ => rfl⟩
    have inside := (mem_tenant_jobs.mp kept).1
    rw [Bool.eq_iff_iff, h.reaps_iff inside, (h.tenant tenantId).reaps_iff kept]
  · refine Table.update_congr fun a kept => ⟨?_, fun _ => rfl⟩
    obtain ⟨_, row, member, own, same⟩ := mem_tenant_attempts.mp kept
    rw [Bool.eq_iff_iff, Consistent.abandons_iff, Consistent.abandons_iff]
    constructor
    · rintro ⟨opened, job, inside, owner, token, expired⟩
      refine ⟨opened, job, mem_tenant_jobs.mpr ⟨inside, ?_⟩, owner, token, expired⟩
      rw [h.same_job inside member (owner.trans same.symm)]
      exact own
    · rintro ⟨opened, job, inside, owner, token, expired⟩
      exact ⟨opened, job, (mem_tenant_jobs.mp inside).1, owner, token, expired⟩

/-- What a tenant sees of a transaction: the answer of one that wrote a row of its own, and of each
reap how many of its own jobs were freed. -/
def tenantView (tenantId : Uuid) (now : Timestamp) (db : Database) :
    Op → Except Error Reply → Option (Except Error Reply)
  | .seed owner .., .ok (.seeded id) =>
    if owner = tenantId then some (.ok (.seeded id)) else none
  | .lease .., .ok (.leased (some job)) =>
    if job.tenantId = tenantId then some (.ok (.leased (some job))) else none
  | .complete job .., .ok .completed =>
    if belongs tenantId job.id db then some (.ok .completed) else none
  | .fail job .., .ok .failed => if belongs tenantId job.id db then some (.ok .failed) else none
  | .reapExpired, .ok (.reaped _) =>
    some (.ok (.reaped (Table.affected (reaps now db) (db.tenant tenantId).jobs)))
  | _, _ => none

section Exec

variable {crate : UrlCrate} {now : Timestamp} {db db' : Database} {op : Op}
  {result o : Except Error Reply} {tenantId : Uuid}

theorem fresh_tenant (fresh : op.Fresh db) (tenantId : Uuid) : op.Fresh (db.tenant tenantId) := by
  cases op with
  | seed => exact fun job member => fresh job (mem_tenant_jobs.mp member).1
  | lease =>
    exact ⟨fun a ha => fresh.1 a (mem_tenant_attempts.mp ha).1,
      fun a ha => fresh.2 a (mem_tenant_attempts.mp ha).1⟩
  | complete => trivial
  | fail => trivial
  | reapExpired => trivial

theorem exec_seed_tenant (h : Consistent db) {sourceId id : Uuid} {startUrl : Str}
    {intervalSeconds maxAttempts : Int} {enabled : Bool} (fresh : ∀ job ∈ db.jobs, job.id ≠ id)
    (ran : (Op.seed tenantId sourceId startUrl intervalSeconds maxAttempts enabled id).exec crate now
      db = (result, db')) :
    (Op.seed tenantId sourceId startUrl intervalSeconds maxAttempts enabled id).exec crate now
      (db.tenant tenantId) = (result, db'.tenant tenantId) := by
  rw [Op.exec, seed_tenant h crate sourceId id startUrl intervalSeconds maxAttempts enabled now fresh]
  exact congrArg (fun r => (r.1, r.2.tenant tenantId)) ran

/-- On the tenant's rows alone, a transaction that it sees does the same and answers the same. -/
theorem exec_seen (h : Consistent db) (fresh : op.Fresh db) (ran : op.exec crate now db = (result, db'))
    (seen : tenantView tenantId now db op result = some o) :
    op.exec crate now (db.tenant tenantId) = (o, db'.tenant tenantId) := by
  have did : Effect now db op result db' := by
    have did := exec_effect crate now db op
    rwa [ran] at did
  cases did with
  | refused => cases op <;> cases seen
  | inserted owner =>
    obtain ⟨rfl, ⟨⟩⟩ := Option.ite_none_right_eq_some.mp seen
    exact exec_seed_tenant h fresh ran
  | reseeded owner =>
    obtain ⟨rfl, ⟨⟩⟩ := Option.ite_none_right_eq_some.mp seen
    exact exec_seed_tenant h fresh ran
  | idle => cases seen
  | leased owner leaseSeconds token attemptId locked candidate found accepts =>
    obtain ⟨own, ⟨⟩⟩ := Option.ite_none_right_eq_some.mp seen
    have first := leaseCandidate_tenant h found own
    have ownRow : candidate.tenantId = tenantId := own
    rw [Op.exec, (h.tenant tenantId).lease_eq accepts (fresh_tenant fresh tenantId) first,
      tenant_granted h (candidate_leasable found).1, if_pos ownRow]
    rfl
  | completed job output apiReceipt attempt released =>
    obtain ⟨own, ⟨⟩⟩ := Option.ite_none_right_eq_some.mp seen
    have stored := storable_of_ok (congrArg Prod.fst ran)
    have both := resolve_tenant h (completion_lawful output apiReceipt now) attempt released own
    rw [exec_complete crate now _ job stored, both]
    rfl
  | failed job errorCode details attempt released =>
    obtain ⟨own, ⟨⟩⟩ := Option.ite_none_right_eq_some.mp seen
    have stored := storable_of_ok (congrArg Prod.fst ran)
    have both := resolve_tenant h (failure_lawful job errorCode details now) attempt released own
    rw [exec_fail crate now _ job stored, both]
    rfl
  | reaped =>
    cases seen
    have counts : Table.affected (reaps now (db.tenant tenantId)) (db.tenant tenantId).jobs =
        Table.affected (reaps now db) (db.tenant tenantId).jobs := by
      refine List.countP_congr fun job kept => ?_
      rw [h.reaps_iff (mem_tenant_jobs.mp kept).1, (h.tenant tenantId).reaps_iff kept]
    rw [Op.exec, (h.tenant tenantId).reapExpired_eq now, tenant_reaped h, counts]
    rfl

/-- A transaction that the tenant does not see leaves its rows as they are. -/
theorem effect_unseen (h : Consistent db) (did : Effect now db op result db')
    (unseen : tenantView tenantId now db op result = none) :
    db'.tenant tenantId = db.tenant tenantId := by
  cases did with
  | refused => rfl
  | inserted owner _ _ _ _ _ _ _ _ _ ids =>
    have other : owner ≠ tenantId := fun own => nomatch ite_eq_right_iff.mp unseen own
    exact (tenant_insert h tenantId ids).trans (if_neg other)
  | reseeded owner sourceId _ _ url intervalSeconds maxAttempts enabled =>
    have other : owner ≠ tenantId := fun own => nomatch ite_eq_right_iff.mp unseen own
    have unselected : ∀ job ∈ (db.tenant tenantId).jobs,
        (job.key == (owner, sourceId, url)) = false := by
      intro job kept
      refine beq_eq_false_iff_ne.mpr fun same => other ?_
      rw [← (mem_tenant_jobs.mp kept).2]
      exact (congrArg Prod.fst same).symm
    have rows : Database.tenant tenantId { db with
        jobs := Table.update (fun job => job.key == (owner, sourceId, url))
          (reseed intervalSeconds maxAttempts enabled now) db.jobs } = _ :=
      tenant_update_jobs fun _ => rfl
    rw [rows, Table.update_eq_self unselected]
  | idle => rfl
  | leased _ _ _ _ _ candidate found =>
    have other : candidate.tenantId ≠ tenantId :=
      fun own => nomatch ite_eq_right_iff.mp unseen own
    rw [tenant_granted h (candidate_leasable found).1, if_neg other]
  | completed _ output apiReceipt attempt released =>
    have other := by simpa [tenantView] using unseen
    exact tenant_resolved_other h (completion_lawful output apiReceipt now) attempt released other
  | failed job errorCode details attempt released =>
    have other := by simpa [tenantView] using unseen
    exact tenant_resolved_other h (failure_lawful job errorCode details now) attempt released other
  | reaped => cases unseen

end Exec

section Runs

variable (crate : UrlCrate) (tenantId : Uuid)

def sees (s : System) (e : Event) : Option (Except Error Reply) :=
  tenantView tenantId e.now s.db e.op (answer crate s e)

/-- The events of a run that the tenant sees. -/
def tenantEvents (s : System) (es : List Event) : List Event :=
  Projection.visible (step crate) (sees crate tenantId) s es

def tenantAnswers (s : System) (es : List Event) : List (Except Error Reply) :=
  Projection.views (step crate) (sees crate tenantId) s es

/-- A system that holds the rows of one tenant only, and whose clock is not ahead. -/
structure Mirrors (s t : System) : Prop where
  consistent : Consistent s.db
  clock : t.clock ≤ s.clock
  rows : t.db = s.db.tenant tenantId

theorem tenant_projects : Projection.Projects (step crate) Admits (sees crate tenantId) (step crate)
    Admits (answer crate) (Mirrors tenantId) where
  seen := by
    rintro s ⟨clock, _⟩ e o ⟨consistent, behind, rfl⟩ admits seen
    have same := exec_seen consistent admits.2 (Prod.eta (e.op.exec crate e.now s.db)).symm seen
    refine ⟨⟨behind.trans admits.1, fresh_tenant admits.2 tenantId⟩, ?_, ?_⟩
    · rw [answer, same]
    · exact ⟨step_consistent crate s e consistent admits, le_rfl, by rw [step, same]; rfl⟩
  unseen := by
    rintro s t e ⟨consistent, behind, rows⟩ admits unseen
    refine ⟨step_consistent crate s e consistent admits, behind.trans admits.1, ?_⟩
    rw [rows, effect_unseen consistent (step_effect crate s e) unseen]

end Runs

/-- The rows of a tenant after any run are those of its own transactions run on their own, which
answer what the tenant saw of them. -/
theorem tenant_isolation (crate : UrlCrate) (clock : Timestamp) (es : List Event)
    (admissible : Admissible crate (.start clock) es) (tenantId : Uuid) :
    Admissible crate (.start clock) (tenantEvents crate tenantId (.start clock) es) ∧
      (run crate (.start clock) (tenantEvents crate tenantId (.start clock) es)).db =
        (run crate (.start clock) es).db.tenant tenantId ∧
      answers crate (.start clock) (tenantEvents crate tenantId (.start clock) es) =
        tenantAnswers crate tenantId (.start clock) es := by
  have start : Mirrors tenantId (.start clock) (.start clock) := ⟨migrated_consistent, le_rfl, rfl⟩
  obtain ⟨own, last, same⟩ := (tenant_projects crate tenantId).follows start admissible
  exact ⟨own, last.rows, same⟩

/-- Tenants 1 and 5 register the same URL; each has its job leased, and one reap frees both. -/
theorem tenant_isolation_two :
    answers releasesCrate (.start 0) (tenantEvents releasesCrate 5 (.start 0)
      [seedReleases 0 10, ⟨0, .seed 5 2 "https://docs.example.com/releases".toList 3600 1 true 11⟩,
        leaseReleases 1 20 30, leaseReleases 2 21 31, ⟨seconds 100, .reapExpired⟩]) =
      [.ok (.seeded 11), .ok (.leased (some { releasesJob 21 31 with id := 11, tenantId := 5 })),
        .ok (.reaped 1)] :=
  (tenant_isolation releasesCrate 0 _ (by decide) 5).2.2.trans (by decide)

end EalSync.Runtime
