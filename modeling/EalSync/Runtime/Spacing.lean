import EalSync.Runtime.Backoff
import EalSync.Runtime.Progress

/-! How far apart two leases of a job are. Until the next lease the row rests: held up to the
expiry of the lease, then free up to the next_run_at that the release set. -/
namespace EalSync.Runtime

section

variable (crate : UrlCrate) (s : System) (e : Event) (jobId : Uuid)

def LeasesJob : Prop := ∃ job, answer crate s e = .ok (.leased (some job)) ∧ job.id = jobId

def SeedsJob : Prop := answer crate s e = .ok (.seeded jobId)

end

/-- The statement of reap_expired abandons a receipt of the job. -/
def AbandonsJob (s : System) (e : Event) (jobId : Uuid) : Prop :=
  e.op = .reapExpired ∧ ∃ a ∈ s.db.attempts, a.jobId = jobId ∧ abandons e.now s.db a = true

/-- No lease of the row is possible before the instant. -/
structure Rests (instant : Timestamp) (row : JobRow) : Prop where
  held : ∀ t, row.leaseToken = some t → ∃ e, row.leaseExpiresAt = some e ∧ instant ≤ e
  free : row.leaseToken = none → instant ≤ row.nextRunAt

theorem Rests.leasable {instant now : Timestamp} {row : JobRow} (rests : Rests instant row)
    (ready : row.leasable now = true) : instant ≤ now := by
  obtain ⟨_, due, _, available⟩ := JobRow.leasable_iff.mp ready
  rcases available with free | expired
  · exact (rests.free free).trans due
  · cases token : row.leaseToken with
    | none => exact (rests.free token).trans due
    | some t =>
      obtain ⟨e, expires, late⟩ := rests.held t token
      rw [JobRow.expired, expires, Option.any_some, decide_eq_true_eq] at expired
      exact late.trans expired.le

theorem rests_free {instant : Timestamp} {row : JobRow} (free : row.leaseToken = none)
    (late : instant ≤ row.nextRunAt) : Rests instant row := by
  refine ⟨fun t held => ?_, fun _ => late⟩
  rw [free] at held
  cases held

theorem add_seconds_le {a b : Int} (le : a ≤ b) (now : Timestamp) : now + seconds a ≤ now + seconds b :=
  Int.add_le_add_left (Int.mul_le_mul_of_nonneg_right le (by decide)) now

theorem retryBackoffSeconds_least (attempt : Int) : 30 ≤ retryBackoffSeconds attempt := by
  have exact := unsaturated attempt
  rw [retryBackoffSeconds, exact.power, exact.product]
  have one : (1 : Int) ≤ 2 ^ (max 1 (min attempt 16) - 1).toNat := one_le_pow₀ (by decide)
  exact le_min (by omega) (by decide)

/-- The row after a step that neither leases nor seeds the job. -/
inductive Between (now : Timestamp) (row : JobRow) : JobRow → Prop where
  | same : Between now row row
  | released (row' : JobRow) (t : Uuid) : row.leaseToken = some t → row'.leaseToken = none →
      now + seconds 30 ≤ row'.nextRunAt → Between now row row'

theorem Between.rests {instant now : Timestamp} {row row' : JobRow} (between : Between now row row')
    (ahead : instant ≤ now + seconds 30) (rests : Rests instant row) : Rests instant row' := by
  cases between with
  | same => exact rests
  | released _ _ _ free late => exact rests_free free (ahead.trans late)

theorem Between.free {now : Timestamp} {row row' : JobRow} (between : Between now row row')
    (free : row.leaseToken = none) : row' = row := by
  cases between with
  | same => rfl
  | released _ t held =>
    rw [free] at held
    cases held

theorem unseeded_row {db db' : Database} (h : Consistent db) {now : Timestamp}
    {tenantId sourceId id jobId : Uuid} {startUrl : Str} {intervalSeconds maxAttempts : Int}
    {enabled : Bool} {result : Except Error Reply}
    (did : Effect now db (.seed tenantId sourceId startUrl intervalSeconds maxAttempts enabled id)
      result db') (other : result ≠ .ok (.seeded jobId)) {row : JobRow}
    (found : jobRow jobId db = some row) : jobRow jobId db' = some row := by
  cases did with
  | refused => exact found
  | inserted _ _ _ _ url _ _ _ _ _ ids =>
    rcases jobRow_insert jobId
      (newJob id tenantId sourceId url intervalSeconds maxAttempts enabled now) ids with
      ⟨_, absent, _⟩ | same
    · rw [absent] at found
      cases found
    · rw [same, found]
  | reseeded _ _ _ _ url _ _ _ existing _ _ member key =>
    rcases jobRow_update (p := fun job => job.key == (tenantId, sourceId, url))
      (reseed_id intervalSeconds maxAttempts enabled now) jobId db db.attempts with
      ⟨selected, held, matched, _⟩ | ⟨_, same⟩
    · have sameKey : selected.key = existing.key := (beq_iff_eq.mp matched).trans key.symm
      obtain ⟨inside, ownId⟩ := jobRow_mem held
      rw [← Table.unique_row h.jobKeys inside member sameKey, ownId] at other
      exact absurd rfl other
    · rw [same, found]

theorem step_between {crate : UrlCrate} {s : System} (h : Consistent s.db) {e : Event} {jobId : Uuid}
    {row : JobRow} (found : jobRow jobId s.db = some row) (unleased : ¬LeasesJob crate s e jobId)
    (unseeded : ¬SeedsJob crate s e jobId) :
    ∃ row', jobRow jobId (step crate s e).db = some row' ∧ Between e.now row row' := by
  have did := step_effect crate s e
  have view := effect_row h did jobId
  have own := (jobRow_mem found).2
  have sound := h.jobs row (jobRow_mem found).1
  unfold LeasesJob at unleased
  unfold SeedsJob at unseeded
  generalize answer crate s e = result at did view unleased unseeded
  generalize e.op = op at did view
  generalize (step crate s e).db = db' at did view
  rw [found] at view
  generalize after : jobRow jobId db' = row' at view
  cases view with
  | kept => exact ⟨row, rfl, .same⟩
  | reseeded =>
    have same := unseeded_row h did unseeded found
    rw [after] at same
    rw [same]
    exact ⟨row, rfl, .same⟩
  | leased _ _ token attemptId => exact absurd ⟨_, rfl, own⟩ unleased
  | completed job _ _ _ _ held =>
    refine ⟨_, rfl, .released _ _ held rfl ?_⟩
    have interval := sound.interval.1
    exact add_seconds_le (by omega) e.now
  | failed job errorCode details _ _ held =>
    refine ⟨_, rfl, .released _ _ held rfl ?_⟩
    exact add_seconds_le (retryBackoffSeconds_least _) e.now
  | reaped _ _ lapsed =>
    obtain ⟨⟨t, held⟩, _⟩ := JobRow.lapsed_iff.mp lapsed
    refine ⟨_, rfl, .released _ t held rfl ?_⟩
    exact add_seconds_le (by decide) e.now

section Events

variable {crate : UrlCrate} {s : System} {e : Event} {jobId : Uuid}

theorem leasesJob_row (h : Consistent s.db) (leases : LeasesJob crate s e jobId) :
    ∃ row row', jobRow jobId s.db = some row ∧ row.leasable e.now = true ∧
      jobRow jobId (step crate s e).db = some row' ∧ Rests (e.now + seconds 30) row' := by
  obtain ⟨job, granted, rfl⟩ := leases
  have did := step_effect crate s e
  rw [granted] at did
  generalize e.op = op at did
  generalize (step crate s e).db = db' at did
  cases did with
  | leased owner leaseSeconds token attemptId _ candidate found accepts =>
    obtain ⟨member, ready⟩ := candidate_leasable found
    refine ⟨candidate, _, jobRow_of_mem h member, ready, granted_row h member _ _ _ _ _,
      fun t _ => ⟨_, rfl, ?_⟩, fun free => by cases free⟩
    exact add_seconds_le accepts.2.1 e.now

theorem abandonsJob_row (h : Consistent s.db) (abandonsJob : AbandonsJob s e jobId) :
    ∃ row', jobRow jobId (step crate s e).db = some row' ∧ row'.leaseToken = none ∧
      row'.nextRunAt = e.now + seconds 60 := by
  obtain ⟨op, a, _, rfl, abandoned⟩ := abandonsJob
  obtain ⟨_, row, member, owner, held, expired⟩ := Consistent.abandons_iff.mp abandoned
  have after : (step crate s e).db = reaped e.now s.db := by
    simp only [step, op, Op.exec, reply, h.reapExpired_eq e.now]
  have found := jobRow_of_mem h member
  rcases jobRow_update (p := reaps e.now s.db) (reap_id e.now) row.id s.db
    (Table.update (abandons e.now s.db) (abandon e.now) s.db.attempts) with
    ⟨old, before, _, updated⟩ | ⟨skipped, _⟩
  · rw [after, ← owner, reaped, updated]
    exact ⟨_, rfl, rfl, rfl⟩
  · have unreaped := skipped row found
    rw [(h.reaps_iff member).mpr ⟨⟨_, held⟩, expired⟩] at unreaped
    cases unreaped

theorem succeeds_row (h : Consistent s.db) (succeeds : Succeeds crate s e jobId) {row : JobRow}
    (found : jobRow jobId s.db = some row) :
    ∃ row', jobRow jobId (step crate s e).db = some row' ∧ row'.leaseToken = none ∧
      row'.nextRunAt = e.now + seconds row.intervalSeconds := by
  obtain ⟨⟨job, output, apiReceipt, op, rfl⟩, ok⟩ := succeeds
  have did := step_effect crate s e
  rw [op, ok] at did
  generalize (step crate s e).db = db' at did
  cases did with
  | completed _ _ _ attempt released =>
    rcases jobRow_resolved h (completion_lawful output apiReceipt e.now) attempt released job.id with
      ⟨_, held, before, _, after⟩ | ⟨other, _⟩
    · rw [Option.some.inj (found.symm.trans before)]
      exact ⟨_, after, rfl, rfl⟩
    · exact absurd rfl other

end Events

/-- The guard of events that neither lease nor seed the job. -/
def Quiet (crate : UrlCrate) (jobId : Uuid) (s : System) (e : Event) : Prop :=
  Admits s e ∧ ¬LeasesJob crate s e jobId ∧ ¬SeedsJob crate s e jobId

section Runs

variable {crate : UrlCrate} {jobId : Uuid} {s : System} {es : List Event} {row : JobRow}

theorem quiet_consistent (h : Consistent s.db)
    (quiet : Runs.Admissible (step crate) (Quiet crate jobId) s es) : Consistent (run crate s es).db :=
  Runs.run_invariant (P := fun s => Consistent s.db)
    (fun s e h guard => step_consistent crate s e h guard.1) h quiet

theorem quiet_rests (h : Consistent s.db)
    (quiet : Runs.Admissible (step crate) (Quiet crate jobId) s es) {instant : Timestamp}
    (ahead : instant ≤ s.clock + seconds 30) (found : jobRow jobId s.db = some row)
    (rests : Rests instant row) :
    ∃ row', jobRow jobId (run crate s es).db = some row' ∧ Rests instant row' := by
  refine (Runs.run_invariant (P := fun s => Consistent s.db ∧ instant ≤ s.clock + seconds 30 ∧
    ∃ row, jobRow jobId s.db = some row ∧ Rests instant row) ?_ ⟨h, ahead, row, found, rests⟩ quiet).2.2
  rintro s e ⟨h, ahead, row, found, rests⟩ ⟨admits, unleased, unseeded⟩
  have later : instant ≤ e.now + seconds 30 := ahead.trans (Int.add_le_add_right admits.1 _)
  obtain ⟨row', found', between⟩ := step_between h found unleased unseeded
  exact ⟨step_consistent crate s e h admits, later, row', found', between.rests later rests⟩

/-- Once released, the row stays as it is. -/
theorem quiet_free (h : Consistent s.db)
    (quiet : Runs.Admissible (step crate) (Quiet crate jobId) s es)
    (found : jobRow jobId s.db = some row) (free : row.leaseToken = none) :
    jobRow jobId (run crate s es).db = some row := by
  refine (Runs.run_invariant (P := fun s => Consistent s.db ∧ jobRow jobId s.db = some row) ?_
    ⟨h, found⟩ quiet).2
  rintro s e ⟨h, found⟩ ⟨admits, unleased, unseeded⟩
  obtain ⟨row', found', between⟩ := step_between h found unleased unseeded
  rw [between.free free] at found'
  exact ⟨step_consistent crate s e h admits, found'⟩

theorem due_of_lease (h : Consistent s.db)
    (quiet : Runs.Admissible (step crate) (Quiet crate jobId) s es)
    (found : jobRow jobId s.db = some row) (free : row.leaseToken = none) {second : Event}
    (again : LeasesJob crate (run crate s es) second jobId) : row.nextRunAt ≤ second.now := by
  obtain ⟨ready, _, held, leasable, _⟩ := leasesJob_row (quiet_consistent h quiet) again
  rw [quiet_free h quiet found free] at held
  rw [Option.some.inj held]
  exact (JobRow.leasable_iff.mp leasable).2.1

/-- What a release sets between two leases, the second one waits for. -/
theorem due_of_release (h : Consistent s.db) {second : Event}
    (quiet : Runs.Admissible (step crate) (Quiet crate jobId) s es)
    (again : LeasesJob crate (run crate s es) second jobId) {pre post : List Event} {x : Event}
    (split : es = pre ++ x :: post) :
    Consistent (run crate s pre).db ∧
      ∀ row, jobRow jobId (step crate (run crate s pre) x).db = some row → row.leaseToken = none →
        row.nextRunAt ≤ second.now := by
  subst split
  obtain ⟨one, guard, two⟩ := (Runs.admissible_append _ _ _ _ _).mp quiet
  have consistent := quiet_consistent h one
  refine ⟨consistent, fun row found free => ?_⟩
  refine due_of_lease (step_consistent crate _ x consistent guard.1) two found free ?_
  rw [run, Runs.run_append] at again
  exact again

end Runs

/-- What a run says of two leases of a job with no other lease and no seed of it between them. -/
structure LeasesSpaced (crate : UrlCrate) (jobId : Uuid) (s : System) (first : Event)
    (between : List Event) (second : Event) : Prop where
  leases : first.now + seconds 30 ≤ second.now
  reaped : ∀ pre x post, between = pre ++ x :: post →
    AbandonsJob (run crate (step crate s first) pre) x jobId → x.now + seconds 60 ≤ second.now
  failed : ∀ pre x post, between = pre ++ x :: post → ∀ job,
    Fails crate (run crate (step crate s first) pre) x job → job.id = jobId →
    x.now + seconds (retryBackoffSeconds (saturate 32 (job.attemptCount + 1))) ≤ second.now
  completed : ∀ pre x post, between = pre ++ x :: post →
    Succeeds crate (run crate (step crate s first) pre) x jobId →
    ∀ row, jobRow jobId (run crate (step crate s first) pre).db = some row →
      x.now + seconds row.intervalSeconds ≤ second.now

theorem crawl_spacing (crate : UrlCrate) (clock : Timestamp) (before between : List Event)
    (first second : Event)
    (admissible : Admissible crate (.start clock) (before ++ first :: (between ++ [second])))
    (jobId : Uuid) (leased : LeasesJob crate (run crate (.start clock) before) first jobId)
    (again : LeasesJob crate (run crate (.start clock) (before ++ first :: between)) second jobId)
    (successive : ∀ pre x post, between = pre ++ x :: post →
      ¬LeasesJob crate (run crate (.start clock) (before ++ first :: pre)) x jobId)
    (unseeded : ∀ pre x post, between = pre ++ x :: post →
      ¬SeedsJob crate (run crate (.start clock) (before ++ first :: pre)) x jobId) :
    LeasesSpaced crate jobId (run crate (.start clock) before) first between second := by
  obtain ⟨start, admits, rest⟩ := (Runs.admissible_append _ _ _ _ _).mp admissible
  have h := reachable_consistent start
  have h' := step_consistent crate _ first h admits
  have quiet : Runs.Admissible (step crate) (Quiet crate jobId)
      (step crate (run crate (.start clock) before) first) between :=
    guarded_after ((Runs.admissible_append _ _ _ _ _).mp rest).1 fun pre x post split =>
      ⟨successive pre x post split, unseeded pre x post split⟩
  rw [run_after] at again
  refine ⟨?_, ?_, ?_, ?_⟩
  · obtain ⟨_, row, _, _, found, rests⟩ := leasesJob_row h leased
    obtain ⟨last, foundLast, restsLast⟩ := quiet_rests h' quiet le_rfl found rests
    obtain ⟨ready, _, held, leasable, _⟩ := leasesJob_row (quiet_consistent h' quiet) again
    rw [Option.some.inj (foundLast.symm.trans held)] at restsLast
    exact restsLast.leasable leasable
  · intro pre x post split abandonsJob
    obtain ⟨consistent, due⟩ := due_of_release h' quiet again split
    obtain ⟨row, found, free, next⟩ := @abandonsJob_row crate _ _ _ consistent abandonsJob
    rw [← next]
    exact due row found free
  · rintro pre x post split job fails rfl
    obtain ⟨consistent, due⟩ := due_of_release h' quiet again split
    obtain ⟨_, _, _, errorCode, details, found⟩ := fails_row consistent fails
    exact due _ found rfl
  · intro pre x post split succeeds row found
    obtain ⟨consistent, due⟩ := due_of_release h' quiet again split
    obtain ⟨row', found', free, next⟩ := succeeds_row consistent succeeds found
    rw [← next]
    exact due row' found' free

theorem singleton_split {α : Type} {a x : α} {pre post : List α} (split : [a] = pre ++ x :: post) :
    pre = [] ∧ x = a := by
  cases pre with
  | nil => exact ⟨rfl, (List.cons.inj split).1.symm⟩
  | cons b rest => simp at split

/-- The first lease is abandoned by a reap, and the second comes after the pause. -/
theorem crawl_spacing_reaped : LeasesSpaced releasesCrate 10
    (run releasesCrate (.start 0)
      [⟨0, .seed 1 2 "https://docs.example.com/releases".toList 3600 5 true 10⟩])
    (leaseReleases 1 20 30) [⟨seconds 32, .reapExpired⟩] (leaseReleases 100 21 31) := by
  have reaped : answer releasesCrate (run releasesCrate (.start 0)
      ([⟨0, .seed 1 2 "https://docs.example.com/releases".toList 3600 5 true 10⟩] ++
        leaseReleases 1 20 30 :: [])) ⟨seconds 32, .reapExpired⟩ = .ok (.reaped 1) := by decide
  refine crawl_spacing releasesCrate 0 _ _ _ _ (by decide) 10
    ⟨{ releasesJob 20 30 with maxAttempts := 5 }, by decide, rfl⟩
    ⟨{ releasesJob 21 31 with attemptCount := 1, maxAttempts := 5 }, by decide, rfl⟩ ?_ ?_
  · rintro pre x post split ⟨job, granted, _⟩
    obtain ⟨rfl, rfl⟩ := singleton_split split
    rw [reaped] at granted
    cases granted
  · rintro pre x post split seeded
    obtain ⟨rfl, rfl⟩ := singleton_split split
    rw [SeedsJob, reaped] at seeded
    cases seeded

end EalSync.Runtime
