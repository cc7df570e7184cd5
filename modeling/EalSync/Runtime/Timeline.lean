import EalSync.Runtime.AttemptView
import EalSync.Runtime.JobView

/-! The receipts as a history. They stand in the order in which their leases began, and of one job
no two that are closed overlap: an attempt ends before the next one of its job begins. -/
namespace EalSync.Runtime

/-- The first receipt began no later; if both are of one job, it ended before the second began, and
it cannot end any more. -/
structure Precedes (jobs : List JobRow) (a b : AttemptRow) : Prop where
  started : a.startedAt ≤ b.startedAt
  ended : a.jobId = b.jobId → ∀ f, a.finishedAt = some f → f ≤ b.startedAt
  settled : a.jobId = b.jobId → ∀ row ∈ jobs, row.id = a.jobId → row.leaseToken ≠ some a.leaseToken

theorem Precedes.jobs {jobs jobs' : List JobRow} {a b : AttemptRow} (h : Precedes jobs a b)
    (tokens : ∀ row' ∈ jobs', ∀ t, row'.leaseToken = some t → t = a.leaseToken →
      ∃ row ∈ jobs, row.id = row'.id ∧ row.leaseToken = some t) : Precedes jobs' a b where
  started := h.started
  ended := h.ended
  settled same row' member own held := by
    obtain ⟨row, inside, id, token⟩ := tokens row' member _ held rfl
    exact h.settled same row inside (id.trans own) token

/-- The receipt began and ended in the past. -/
def Past (clock : Timestamp) (a : AttemptRow) : Prop :=
  a.startedAt ≤ clock ∧ ∀ f, a.finishedAt = some f → a.startedAt ≤ f ∧ f ≤ clock

theorem Past.later {clock now : Timestamp} {a : AttemptRow} (past : Past clock a) (later : clock ≤ now) :
    Past now a :=
  ⟨past.1.trans later, fun f finished => ⟨(past.2 f finished).1, (past.2 f finished).2.trans later⟩⟩

structure Timed (clock : Timestamp) (db : Database) : Prop where
  past : ∀ a ∈ db.attempts, Past clock a
  order : db.attempts.Pairwise (Precedes db.jobs)

section

variable {clock now : Timestamp} {db : Database}

theorem Timed.jobs (h : Timed clock db) (later : clock ≤ now) {jobs : List JobRow}
    (tokens : ∀ row' ∈ jobs, ∀ t, row'.leaseToken = some t →
      ∃ row ∈ db.jobs, row.id = row'.id ∧ row.leaseToken = some t) : Timed now { db with jobs } where
  past a member := (h.past a member).later later
  order := h.order.imp fun precedes => precedes.jobs fun row' member t held _ => tokens row' member t held

theorem token_update {p : JobRow → Bool} {f : JobRow → JobRow} {jobs : List JobRow}
    (frees : ∀ job, (f job).leaseToken = none ∨ (f job).leaseToken = job.leaseToken)
    (ids : ∀ job, (f job).id = job.id) : ∀ row' ∈ Table.update p f jobs, ∀ t, row'.leaseToken = some t →
      ∃ row ∈ jobs, row.id = row'.id ∧ row.leaseToken = some t := by
  intro row' member t held
  rcases Table.mem_update.mp member with ⟨row, inside, _, rfl⟩ | ⟨inside, _⟩
  · rcases frees row with free | kept
    · rw [free] at held
      cases held
    · exact ⟨row, inside, (ids row).symm, kept.symm.trans held⟩
  · exact ⟨row', inside, rfl, held⟩

/-- Receipts that are closed now belong to leases that are still held, so none of their jobs has a
later one. -/
theorem Timed.close (h : Timed clock db) (later : clock ≤ now) {p : JobRow → Bool}
    {f : JobRow → JobRow} {q : AttemptRow → Bool} {g : AttemptRow → AttemptRow}
    (frees : ∀ job, (f job).leaseToken = none) (ids : ∀ job, (f job).id = job.id)
    (identity : ∀ a, (g a).identity = a.identity) (started : ∀ a, (g a).startedAt = a.startedAt)
    (finished : ∀ a, (g a).finishedAt = some now)
    (held : ∀ a ∈ db.attempts, q a = true →
      ∃ row ∈ db.jobs, row.id = a.jobId ∧ row.leaseToken = some a.leaseToken) :
    Timed now ⟨Table.update p f db.jobs, Table.update q g db.attempts⟩ where
  past := by
    refine Table.forall_update (fun a member => (h.past a member).later later) ?_
    intro a member _ past
    refine ⟨(started a).trans_le past.1, fun f ended => ?_⟩
    obtain rfl := Option.some.inj ((finished a).symm.trans ended)
    exact ⟨(started a).trans_le past.1, le_rfl⟩
  order := by
    have same : ∀ a, (if q a then g a else a).identity = a.identity ∧
        (if q a then g a else a).startedAt = a.startedAt := by
      intro a
      split
      · exact ⟨identity a, started a⟩
      · exact ⟨rfl, rfl⟩
    show (db.attempts.map fun a => if q a then g a else a).Pairwise (Precedes (Table.update p f db.jobs))
    rw [List.pairwise_map]
    refine h.order.imp_of_mem fun {a b} ha _ precedes => ?_
    have kept : Precedes (Table.update p f db.jobs) a b := precedes.jobs fun row' member t token _ =>
      token_update (fun job => .inl (frees job)) ids row' member t token
    obtain ⟨_, jobA, tokenA⟩ := AttemptRow.identity_eq (same a).1
    obtain ⟨_, jobB, _⟩ := AttemptRow.identity_eq (same b).1
    refine ⟨?_, ?_, ?_⟩
    · rw [(same a).2, (same b).2]
      exact precedes.started
    · rw [jobA, jobB, (same b).2]
      intro sameJob f ended
      by_cases closing : q a = true
      · obtain ⟨row, member, own, token⟩ := held a ha closing
        exact absurd token (precedes.settled sameJob row member own)
      · rw [if_neg closing] at ended
        exact precedes.ended sameJob f ended
    · rw [jobA, jobB, tokenA]
      exact kept.settled

/-- The new receipt is the last of its job, and the only one whose token the job holds. -/
theorem Timed.leased (h : Timed clock db) (later : clock ≤ now) (owner : Str) (leaseSeconds : Int)
    {token attemptId : Uuid} (candidate : JobRow) (fresh : ∀ a ∈ db.attempts, a.leaseToken ≠ token) :
    Timed now (granted owner leaseSeconds token attemptId now candidate db) := by
  have tokens : ∀ row' ∈ (granted owner leaseSeconds token attemptId now candidate db).jobs,
      ∀ t, row'.leaseToken = some t → t = token ∨
        row'.id ≠ candidate.id ∧ ∃ row ∈ db.jobs, row.id = row'.id ∧ row.leaseToken = some t := by
    intro row' member t held
    rcases Table.mem_update.mp member with ⟨row, _, _, rfl⟩ | ⟨inside, skipped⟩
    · exact .inl (Option.some.inj held).symm
    · exact .inr ⟨by simpa using skipped, row', inside, rfl, held⟩
  constructor
  · intro a member
    rcases List.mem_append.mp member with old | new
    · exact (h.past a old).later later
    · rw [List.mem_singleton.mp new]
      exact ⟨le_rfl, fun _ unfinished => nomatch unfinished⟩
  · refine List.pairwise_append.mpr ⟨?_, List.pairwise_singleton _ _, ?_⟩
    · refine h.order.imp_of_mem fun {a b} ha _ precedes => precedes.jobs fun row' member t held own => ?_
      rcases tokens row' member t held with new | ⟨_, old⟩
      · exact absurd (own.symm.trans new) (fresh a ha)
      · exact old
    · intro a ha b new
      obtain rfl := List.mem_singleton.mp new
      refine ⟨(h.past a ha).1.trans later, fun _ f ended => ((h.past a ha).2 f ended).2.trans later, ?_⟩
      intro sameJob row' member own held
      rcases tokens row' member _ held with new | ⟨other, _⟩
      · exact fresh a ha new
      · exact other (own.trans sameJob)

theorem Timed.resolved (h : Timed clock db) (later : clock ≤ now) (consistent : Consistent db)
    {r : Resolution} (lawful : r.Lawful) (started : ∀ a, (r.setAttempt a).startedAt = a.startedAt)
    (finished : ∀ a, (r.setAttempt a).finishedAt = some now) {job : CrawlJob}
    (attempt : Table.affected job.matchesAttempt db.attempts = 1)
    (released : Table.affected job.matchesJob db.jobs = 1) :
    Timed now (Runtime.resolved r job db) := by
  obtain ⟨row, member, a, ha, rowId, token, attemptId, _, owner, _⟩ :=
    consistent.resolves attempt released
  refine h.close later (fun row => (lawful.frees row).1)
    (fun row => JobRow.id_of_identity (lawful.jobIdentity row)) lawful.attemptIdentity started finished ?_
  intro b hb matched
  obtain ⟨sameId, sameToken, _⟩ := CrawlJob.matchesAttempt_iff.mp matched
  rw [Table.unique_row consistent.attemptIds hb ha (sameId.trans attemptId.symm)] at sameToken ⊢
  exact ⟨row, member, rowId.trans owner.symm, by rw [token, sameToken]⟩

theorem Timed.effect (h : Timed clock db) (later : clock ≤ now) (consistent : Consistent db)
    {db' : Database} {op : Op} {result : Except Error Reply} (did : Effect now db op result db')
    (fresh : op.Fresh db) : Timed now db' := by
  have waits : Timed now db := ⟨fun a member => (h.past a member).later later, h.order⟩
  cases did with
  | refused => exact waits
  | idle => exact waits
  | inserted tenantId sourceId id startUrl url intervalSeconds maxAttempts enabled =>
    refine h.jobs later fun row' member t held => ?_
    rcases List.mem_append.mp member with old | new
    · exact ⟨row', old, rfl, held⟩
    · rw [List.mem_singleton.mp new] at held
      cases held
  | reseeded tenantId sourceId id startUrl url intervalSeconds maxAttempts enabled =>
    exact h.jobs later (token_update (fun _ => .inr rfl) fun _ => rfl)
  | leased owner leaseSeconds token attemptId locked candidate =>
    exact h.leased later owner leaseSeconds candidate fresh.1
  | completed job output apiReceipt attempt released =>
    exact h.resolved later consistent (completion_lawful output apiReceipt now) (fun _ => rfl)
      (fun _ => rfl) attempt released
  | failed job errorCode details attempt released =>
    exact h.resolved later consistent (failure_lawful job errorCode details now) (fun _ => rfl)
      (fun _ => rfl) attempt released
  | reaped =>
    refine h.close later (fun _ => rfl) (fun _ => rfl) (fun _ => rfl) (fun _ => rfl) (fun _ => rfl) ?_
    intro a _ abandoned
    obtain ⟨_, row, member, own, token, _⟩ := Consistent.abandons_iff.mp abandoned
    exact ⟨row, member, own, token⟩

end

/-- In every reachable state the receipts stand in the order in which they began, none began or ended
in the future, and of two receipts of one job the earlier one, if it is closed, ended first. -/
theorem receipts_timeline (crate : UrlCrate) (clock : Timestamp) (es : List Event)
    (admissible : Admissible crate (.start clock) es) :
    (∀ a ∈ (run crate (.start clock) es).db.attempts, Past (run crate (.start clock) es).clock a) ∧
      (run crate (.start clock) es).db.attempts.Pairwise fun a b => a.startedAt ≤ b.startedAt ∧
        (a.jobId = b.jobId → ∀ f, a.finishedAt = some f → f ≤ b.startedAt) := by
  have both := Runs.run_invariant (P := fun s => Consistent s.db ∧ Timed s.clock s.db)
    (fun s e h admits => ⟨step_consistent crate s e h.1 admits,
      h.2.effect admits.1 h.1 (step_effect crate s e) admits.2⟩)
    ⟨migrated_consistent, fun _ none => absurd none List.not_mem_nil, List.Pairwise.nil⟩ admissible
  exact ⟨both.2.past, both.2.order.imp fun precedes => ⟨precedes.started, precedes.ended⟩⟩

/-- A reap closes the first receipt, and the job is leased again after the pause. -/
theorem receipts_timeline_reaped : (run releasesCrate (.start 0)
    [⟨0, .seed 1 2 "https://docs.example.com/releases".toList 3600 5 true 10⟩, leaseReleases 1 20 30,
      ⟨seconds 32, .reapExpired⟩, leaseReleases 100 21 31]).db.attempts.Pairwise fun a b =>
    a.startedAt ≤ b.startedAt ∧ (a.jobId = b.jobId → ∀ f, a.finishedAt = some f → f ≤ b.startedAt) :=
  (receipts_timeline releasesCrate 0 _ (by decide)).2

end EalSync.Runtime
