import EalSync.Runtime.Invariant

/-! No constraint of the schema refuses a transaction at a consistent database: each one fails on
its own checks only. -/
namespace EalSync.Runtime

theorem insertAttempt_eq {context : String} {row : AttemptRow} {db : Database}
    (admissible : row.admissible = true) (ids : ∀ a ∈ db.attempts, a.id ≠ row.id)
    (tokens : ∀ a ∈ db.attempts, a.leaseToken ≠ row.leaseToken)
    (owned : ∃ job ∈ db.jobs, job.id = row.jobId) :
    insertAttempt context row db = .ok { db with attempts := db.attempts ++ [row] } := by
  apply if_pos
  simp only [Bool.and_eq_true, Bool.not_eq_true', List.any_eq_false, List.any_eq_true, beq_iff_eq]
  exact ⟨⟨⟨admissible, ids⟩, fun a ha both => tokens a ha both.2⟩, owned⟩

theorem resolveAttempt_eq {r : Resolution} (lawful : r.Lawful) {job : CrawlJob} {db : Database}
    (attempt : Table.affected job.matchesAttempt db.attempts = 1) :
    resolveAttempt r job db =
      .ok { db with attempts := Table.update job.matchesAttempt r.setAttempt db.attempts } := by
  have updated : updateAttempts r.attemptContext job.matchesAttempt r.setAttempt db = .ok (_, _) :=
    updateAttempts_eq fun a _ _ => (lawful.closes a).2
  simp only [resolveAttempt, updated, bind, Except.bind, attempt]
  simp

theorem releaseJob_eq {r : Resolution} (lawful : r.Lawful) {job : CrawlJob} {db : Database}
    (sound : ∀ row ∈ db.jobs, row.Sound) (released : Table.affected job.matchesJob db.jobs = 1) :
    releaseJob r job db = .ok { db with jobs := Table.update job.matchesJob r.setJob db.jobs } := by
  have checked : ∀ row ∈ db.jobs, job.matchesJob row = true → (r.setJob row).admissible = true := by
    intro row hrow selected
    have held := (CrawlJob.matchesJob_iff.mp selected).2
    exact (lawful.sound row (sound row hrow) ((sound row hrow).spare _ held)).admissible
  have updated : updateJobs r.jobContext job.matchesJob r.setJob db = .ok (_, _) := updateJobs_eq checked
  simp only [releaseJob, updated, bind, Except.bind, released]
  simp

namespace Consistent

variable {db : Database}

theorem lease_eq (h : Consistent db) {owner : Str} {leaseSeconds : Int}
    (accepts : LeaseAccepts owner leaseSeconds) {token attemptId : Uuid} {locked : List Uuid}
    (fresh : (Op.lease owner leaseSeconds token attemptId locked).Fresh db) {now : Timestamp}
    {candidate : JobRow} (found : leaseCandidate now locked db = some candidate) :
    lease owner leaseSeconds token attemptId locked now db =
      (.ok (some (leasedJob candidate token attemptId)),
        granted owner leaseSeconds token attemptId now candidate db) := by
  obtain ⟨member, ready⟩ := candidate_leasable found
  obtain ⟨_, _, spare, _⟩ := JobRow.leasable_iff.mp ready
  have after := h.leased member spare token attemptId owner leaseSeconds now fresh.1 fresh.2
  have updated : updateJobs "lease next crawl job" (fun job => job.id == candidate.id)
      (takeLease token owner leaseSeconds now) db = .ok (_, _) :=
    updateJobs_eq fun row hrow selected =>
      (after.jobs _ (Table.mem_update_of_selected _ hrow selected)).admissible
  have kept : takeLease token owner leaseSeconds now candidate ∈
      (granted owner leaseSeconds token attemptId now candidate db).jobs :=
    Table.mem_update_of_selected _ member (by simp)
  have inserted : insertAttempt "record crawl lease attempt"
      (newAttempt attemptId candidate.id token now)
      { db with jobs := (granted owner leaseSeconds token attemptId now candidate db).jobs } =
      .ok (granted owner leaseSeconds token attemptId now candidate db) :=
    insertAttempt_eq rfl fresh.2 fresh.1 ⟨_, kept, rfl⟩
  unfold granted at inserted
  have checked : ((Str.trim owner).isEmpty || decide (Str.len owner > 200)) = false := by
    simp [accepts.1.1, accepts.1.2]
  unfold lease
  rw [checked, if_neg Bool.false_ne_true, if_neg (not_not.mpr accepts.2), found]
  simp only [updated, bind, Except.bind]
  rw [inserted]
  rfl

theorem resolve_eq (h : Consistent db) {r : Resolution} (lawful : r.Lawful) {job : CrawlJob}
    (attempt : Table.affected job.matchesAttempt db.attempts = 1)
    (released : Table.affected job.matchesJob db.jobs = 1) :
    resolve r job db = (.ok (), Runtime.resolved r job db) := by
  have second : releaseJob r job
      { db with attempts := Table.update job.matchesAttempt r.setAttempt db.attempts } = .ok _ :=
    releaseJob_eq lawful h.jobs released
  simp only [resolve, resolveAttempt_eq lawful attempt, bind, Except.bind, second]
  rfl

theorem resolve_ok_iff (h : Consistent db) {r : Resolution} (lawful : r.Lawful) (job : CrawlJob) :
    (resolve r job db).1 = .ok () ↔
      Table.affected job.matchesAttempt db.attempts = 1 ∧ Table.affected job.matchesJob db.jobs = 1 := by
  constructor
  · intro ok
    rcases resolve_cases (Prod.eta (resolve r job db)).symm with
      ⟨e, failed, _⟩ | ⟨attempt, released, _⟩
    · rw [failed] at ok
      cases ok
    · exact ⟨attempt, released⟩
  · rintro ⟨attempt, released⟩
    rw [h.resolve_eq lawful attempt released]

theorem reapExpired_eq (h : Consistent db) (now : Timestamp) :
    reapExpired now db = (.ok (Table.affected (reaps now db) db.jobs), Runtime.reaped now db) := by
  have after := h.reaped now
  have first : updateAttempts "reap expired crawl leases" (abandons now db) (abandon now) db =
      .ok (_, _) := updateAttempts_eq fun _ _ _ => rfl
  have second : updateJobs "reap expired crawl leases" (reaps now db) (reap now) db = .ok (_, _) :=
    updateJobs_eq fun row hrow selected =>
      (after.jobs _ (Table.mem_update_of_selected _ hrow selected)).admissible
  simp only [reapExpired, first, second]
  rfl

end Consistent

end EalSync.Runtime
