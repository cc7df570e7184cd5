import EalSync.Runtime.Spacing

/-! How long a job can be kept waiting. The queue is served in the order of next_run_at, and what
comes back to it comes back later than a job that is overdue, so each job that is ahead of an
overdue one is leased at most once before it. -/
namespace EalSync.Runtime

/-- The job could be leased, no transaction locks its row, and it is not the one that is leased. -/
structure Waits (crate : UrlCrate) (jobId : Uuid) (s : System) (e : Event) : Prop where
  ready : ∃ row, jobRow jobId s.db = some row ∧ row.leasable e.now = true ∧ row.leaseToken = none ∧
    row.nextRunAt < e.now
  unlocked : ∀ owner leaseSeconds leaseToken attemptId locked,
    e.op = .lease owner leaseSeconds leaseToken attemptId locked → jobId ∉ locked
  passed : ¬LeasesJob crate s e jobId

/-- The job that an event leases, when nobody held it. -/
def freshLease (crate : UrlCrate) (s : System) (e : Event) : List Uuid :=
  match answer crate s e with
  | .ok (.leased (some job)) =>
    if (jobRow job.id s.db).any fun row => row.leaseToken.isNone then [job.id] else []
  | _ => []

def freshLeases (crate : UrlCrate) (s : System) (es : List Event) : List Uuid :=
  Projection.trace (step crate) (freshLease crate) s es

/-- The other job is held, or comes after this one in the queue. -/
def Behind (jobId other : Uuid) (db : Database) : Prop :=
  ∀ row, jobRow jobId db = some row → ∀ row', jobRow other db = some row' →
    row'.leaseToken = none → ¬row'.before row

theorem not_before_of_later {x y : JobRow} (later : y.nextRunAt < x.nextRunAt) : ¬x.before y := by
  rintro (earlier | ⟨same, _⟩)
  · exact absurd earlier later.asymm
  · exact absurd same later.ne'

theorem before_of_sooner {x y y' : JobRow} (sameId : y'.id = y.id)
    (sooner : y'.nextRunAt ≤ y.nextRunAt) (before : x.before y') : x.before y := by
  rcases before with earlier | ⟨same, ids⟩
  · exact .inl (earlier.trans_le sooner)
  · rcases sooner.lt_or_eq with less | equal
    · exact .inl (same ▸ less)
    · exact .inr ⟨same.trans equal, sameId ▸ ids⟩

section Step

variable {crate : UrlCrate} {s : System} {e : Event} {jobId other : Uuid}

/-- A job that waits is not put off. -/
theorem waits_row (h : Consistent s.db) (waits : Waits crate jobId s e) {row : JobRow}
    (found : jobRow jobId s.db = some row) :
    ∃ row', jobRow jobId (step crate s e).db = some row' ∧ row'.nextRunAt ≤ row.nextRunAt := by
  obtain ⟨_, held, _, free, _⟩ := waits.ready
  rw [Option.some.inj (held.symm.trans found)] at free
  have view := effect_row h (step_effect crate s e) jobId
  have passed := waits.passed
  have own := (jobRow_mem found).2
  unfold LeasesJob at passed
  rw [found] at view
  generalize answer crate s e = result at view passed
  generalize e.op = op at view
  generalize jobRow jobId (step crate s e).db = row' at view
  cases view with
  | kept => exact ⟨row, rfl, le_rfl⟩
  | reseeded => exact ⟨_, rfl, min_le_left _ _⟩
  | leased => exact absurd ⟨_, rfl, own⟩ passed
  | completed _ _ _ _ _ token => rw [free] at token; cases token
  | failed _ _ _ _ _ token => rw [free] at token; cases token
  | reaped _ _ lapsed =>
    obtain ⟨⟨_, token⟩, _⟩ := JobRow.lapsed_iff.mp lapsed
    rw [free] at token
    cases token

theorem behind_step (h : Consistent s.db) (waits : Waits crate jobId s e)
    (behind : Behind jobId other s.db) : Behind jobId other (step crate s e).db := by
  obtain ⟨row, found, _, _, overdue⟩ := waits.ready
  obtain ⟨row₁, found₁, sooner⟩ := waits_row h waits found
  have sameId : row₁.id = row.id := (jobRow_mem found₁).2.trans (jobRow_mem found).2.symm
  intro row' held' other' foundOther free
  rw [Option.some.inj (held'.symm.trans found₁)]
  have view := effect_row h (step_effect crate s e) other
  have behind := behind row found
  rw [foundOther] at view
  generalize answer crate s e = result at view
  generalize e.op = op at view
  generalize before : jobRow other s.db = old at view
  have delayed : ∀ delay, 30 ≤ delay → other'.nextRunAt = e.now + seconds delay →
      ¬other'.before row₁ := by
    intro delay long due
    refine not_before_of_later ((sooner.trans_lt overdue).trans_le ?_)
    have ahead : e.now ≤ e.now + seconds 30 := le_add_of_nonneg_right (by decide)
    exact due ▸ ahead.trans (add_seconds_le long e.now)
  cases view with
  | kept => exact fun ahead => behind _ before free (before_of_sooner sameId sooner ahead)
  | inserted => exact not_before_of_later (sooner.trans_lt overdue)
  | reseeded _ _ _ _ _ _ _ _ old =>
    -- a seed makes the other job due now at the earliest, and this one was due before
    intro ahead
    have early : min old.nextRunAt e.now ≤ row₁.nextRunAt := ahead.elim le_of_lt fun h => h.1.le
    have unmoved : min old.nextRunAt e.now = old.nextRunAt := by
      refine min_eq_left (not_lt.mp fun later => ?_)
      rw [min_eq_right later.le] at early
      exact absurd (early.trans sooner) (not_le.mpr overdue)
    have same : old.before row₁ := by
      unfold JobRow.before at ahead ⊢
      simpa only [reseed, unmoved] using ahead
    exact behind old before free (before_of_sooner sameId sooner same)
  | leased => cases free
  | completed job output apiReceipt old =>
    have interval := (h.jobs old (jobRow_mem before).1).interval.1
    exact delayed _ (by omega) rfl
  | failed job errorCode details old => exact delayed _ (retryBackoffSeconds_least _) rfl
  | reaped _ old => exact delayed 60 (by decide) rfl

theorem mem_freshLease (taken : other ∈ freshLease crate s e) :
    ∃ job row, answer crate s e = .ok (.leased (some job)) ∧ job.id = other ∧
      jobRow other s.db = some row ∧ row.leaseToken = none := by
  unfold freshLease at taken
  split at taken
  · rename_i job answered
    split at taken
    · rename_i free
      obtain ⟨row, found, unheld⟩ := (Option.any_eq_true _ _).mp free
      rw [List.mem_singleton.mp taken]
      exact ⟨job, row, answered, rfl, found, by simpa using unheld⟩
    · cases taken
  · cases taken

theorem nodup_freshLease (crate : UrlCrate) (s : System) (e : Event) : (freshLease crate s e).Nodup := by
  unfold freshLease
  split
  · split <;> simp
  · exact List.nodup_nil

/-- What is leased while the job waits stood before it, and is held from then on. -/
theorem freshLease_ahead (h : Consistent s.db) (waits : Waits crate jobId s e)
    (taken : other ∈ freshLease crate s e) :
    ¬Behind jobId other s.db ∧ Behind jobId other (step crate s e).db := by
  obtain ⟨job, old, answered, rfl, found, free⟩ := mem_freshLease taken
  obtain ⟨row, held, ready, _⟩ := waits.ready
  have did := step_effect crate s e
  have unlocked := waits.unlocked
  have passed := waits.passed
  rw [LeasesJob, answered] at passed
  rw [answered] at did
  generalize e.op = op at did unlocked
  generalize (step crate s e).db = db' at did
  cases did with
  | leased owner leaseSeconds token attemptId locked candidate first =>
    have member := (candidate_leasable first).1
    rw [leasedJob_id] at found ⊢
    constructor
    · intro behind
      have free' : candidate.leaseToken = none := by
        rwa [Option.some.inj (found.symm.trans (jobRow_of_mem h member))] at free
      have mine := (jobRow_mem held).2
      rcases candidate_earliest first (jobRow_mem held).1 ready
        (mine ▸ unlocked owner leaseSeconds token attemptId locked rfl) with same | before
      · exact passed ⟨_, rfl, same ▸ mine⟩
      · exact behind row held candidate (jobRow_of_mem h member) free' before
    · intro _ _ row' after taken
      rw [granted_row h member] at after
      rw [← Option.some.inj after] at taken
      cases taken

end Step

/-- While a job waits, no job is leased twice unless its lease expired unreaped, and those that are
leased stood before it when the wait began. -/
theorem waiting_leases {crate : UrlCrate} {jobId : Uuid} {s : System} {es : List Event}
    (h : Consistent s.db)
    (waiting : Runs.Admissible (step crate) (fun s e => Admits s e ∧ Waits crate jobId s e) s es) :
    (freshLeases crate s es).Nodup ∧
      ∀ other ∈ freshLeases crate s es, other ≠ jobId ∧ ¬Behind jobId other s.db := by
  induction es generalizing s with
  | nil => exact ⟨List.nodup_nil, fun _ none => absurd none List.not_mem_nil⟩
  | cons e rest ih =>
    obtain ⟨⟨admits, waits⟩, tail⟩ := waiting
    obtain ⟨distinct, ahead⟩ := ih (step_consistent crate s e h admits) tail
    have split : freshLeases crate s (e :: rest) =
      freshLease crate s e ++ freshLeases crate (step crate s e) rest := rfl
    rw [split, List.nodup_append]
    refine ⟨⟨nodup_freshLease crate s e, distinct, ?_⟩, ?_⟩
    · rintro other now _ later rfl
      exact (ahead other later).2 (freshLease_ahead h waits now).2
    · intro other taken
      rcases List.mem_append.mp taken with now | later
      · refine ⟨?_, (freshLease_ahead h waits now).1⟩
        rintro rfl
        obtain ⟨job, _, answered, same, _⟩ := mem_freshLease now
        exact waits.passed ⟨job, answered, same⟩
      · obtain ⟨apart, stood⟩ := ahead other later
        exact ⟨apart, fun behind => stood (behind_step h waits behind)⟩

/-- The free jobs that come before a row in the order of the queue. -/
def aheadOf (row : JobRow) (db : Database) : List Uuid :=
  (db.jobs.filter fun x => x.leaseToken.isNone && x.before row && x.id != row.id).map JobRow.id

/-- A job that is overdue waits for no more fresh leases than there are free jobs ahead of it, whatever is
seeded, finished or reaped in the meantime. -/
theorem bounded_overtaking (crate : UrlCrate) (clock : Timestamp) (before es : List Event)
    (start : Admissible crate (.start clock) before) (jobId : Uuid)
    (waiting : Runs.Admissible (step crate) (fun s e => Admits s e ∧ Waits crate jobId s e)
      (run crate (.start clock) before) es) (row : JobRow)
    (found : jobRow jobId (run crate (.start clock) before).db = some row) :
    (freshLeases crate (run crate (.start clock) before) es).Nodup ∧
      freshLeases crate (run crate (.start clock) before) es ⊆
        aheadOf row (run crate (.start clock) before).db ∧
      (freshLeases crate (run crate (.start clock) before) es).length ≤
        (aheadOf row (run crate (.start clock) before).db).length := by
  obtain ⟨distinct, ahead⟩ := waiting_leases (reachable_consistent start) waiting
  have inside : freshLeases crate (run crate (.start clock) before) es ⊆
      aheadOf row (run crate (.start clock) before).db := by
    intro other taken
    obtain ⟨apart, stood⟩ := ahead other taken
    simp only [Behind, found, Option.some.injEq, forall_eq', not_forall, not_not] at stood
    obtain ⟨row', held, free, earlier⟩ := stood
    obtain ⟨member, rfl⟩ := jobRow_mem held
    refine List.mem_map_of_mem (List.mem_filter.mpr ⟨member, ?_⟩)
    simpa [free, earlier, (jobRow_mem found).2] using apart
  exact ⟨distinct, inside, (distinct.subperm inside).length_le⟩

/-- Job 11 waits while job 10, registered before it, is leased. -/
theorem bounded_overtaking_one : freshLeases releasesCrate (run releasesCrate (.start 0)
    [seedReleases 0 10, ⟨seconds 1, .seed 5 2 "https://docs.example.com/releases".toList 3600 1 true 11⟩])
    [leaseReleases 5 20 30] ⊆ [10] := by
  have found : jobRow 11 (run releasesCrate (.start 0) [seedReleases 0 10,
      ⟨seconds 1, .seed 5 2 "https://docs.example.com/releases".toList 3600 1 true 11⟩]).db =
      some ⟨11, 5, 2, "https://docs.example.com/releases".toList, true, 3600, seconds 1, none, none,
        none, 0, 1, none, seconds 1, seconds 1⟩ := by decide
  have first : answer releasesCrate (run releasesCrate (.start 0) [seedReleases 0 10,
      ⟨seconds 1, .seed 5 2 "https://docs.example.com/releases".toList 3600 1 true 11⟩])
      (leaseReleases 5 20 30) = .ok (.leased (some (releasesJob 20 30))) := by decide
  refine (bounded_overtaking releasesCrate 0 _ [leaseReleases 5 20 30] (by decide) 11
    ⟨⟨by decide, ⟨_, found, by decide, rfl, by decide⟩, ?_, ?_⟩, trivial⟩ _ found).2.1
  · rintro _ _ _ _ _ ⟨⟩
    exact List.not_mem_nil
  · rintro ⟨job, granted, eleven⟩
    rw [first] at granted
    cases granted
    cases eleven

end EalSync.Runtime
