import EalSync.Runtime.Provenance

/-! What a registration names. The job that seed returns stands for the tenant, the source and the
URL as it was parsed, from the first seed of the three on, and for nothing else. -/
namespace EalSync.Runtime

theorem seed_row {crate : UrlCrate} {tenantId sourceId id jobId : Uuid} {startUrl : Str}
    {intervalSeconds maxAttempts : Int} {enabled : Bool} {now : Timestamp} {db : Database} {url : Url}
    (valid : validatePublicHttpsUrl crate startUrl = .ok url)
    (seeded : (seed crate tenantId sourceId startUrl intervalSeconds maxAttempts enabled id now db).1 =
      .ok jobId) :
    ∃ row ∈ (seed crate tenantId sourceId startUrl intervalSeconds maxAttempts enabled id now db).2.jobs,
      row.id = jobId ∧ row.key = (tenantId, sourceId, url.asStr) := by
  generalize ran : seed crate tenantId sourceId startUrl intervalSeconds maxAttempts enabled id now db =
    outcome at seeded ⊢
  obtain ⟨result, db'⟩ := outcome
  obtain rfl : result = .ok jobId := seeded
  unfold seed at ran
  rw [valid] at ran
  dsimp only at ran
  split at ran
  · cases ran
  · split at ran
    · cases ran
    · rcases transaction_cases ran with ⟨_, _, failed, _⟩ | ⟨_, body, ok⟩
      · cases failed
      · cases ok
        obtain ⟨_, ⟨_, _, rfl, rfl⟩ | ⟨existing, member, same, rfl, rfl, _⟩⟩ := upsertJob_cases body
        · exact ⟨_, List.mem_append_right _ (List.mem_singleton_self _), rfl, rfl⟩
        · refine ⟨_, Table.mem_update_of_selected _ member (beq_iff_eq.mpr same), rfl, same⟩

theorem seeds_row {crate : UrlCrate} {s : System} {e : Event} {tenantId sourceId id jobId : Uuid}
    {startUrl : Str} {intervalSeconds maxAttempts : Int} {enabled : Bool} {url : Url}
    (op : e.op = .seed tenantId sourceId startUrl intervalSeconds maxAttempts enabled id)
    (valid : validatePublicHttpsUrl crate startUrl = .ok url)
    (seeded : answer crate s e = .ok (.seeded jobId)) :
    ∃ row ∈ (step crate s e).db.jobs, row.id = jobId ∧ row.key = (tenantId, sourceId, url.asStr) := by
  unfold answer at seeded
  unfold step
  rw [op] at seeded ⊢
  simp only [Op.exec, reply] at seeded ⊢
  cases ran : (seed crate tenantId sourceId startUrl intervalSeconds maxAttempts enabled id e.now
    s.db).1 with
  | error error => rw [ran] at seeded; cases seeded
  | ok found =>
    rw [ran] at seeded
    cases seeded
    exact seed_row valid ran

/-- A job keeps its identity for the rest of the run. -/
theorem run_keeps_job {crate : UrlCrate} {s : System} {es : List Event} {row : JobRow}
    (member : row ∈ s.db.jobs) : ∃ row' ∈ (run crate s es).db.jobs, row'.identity = row.identity := by
  induction es generalizing s row with
  | nil => exact ⟨row, member, rfl⟩
  | cons e rest ih =>
    obtain ⟨next, inside, same⟩ := Worker.Provenance.effect_keeps_job (step_effect crate s e) member
    obtain ⟨last, found, kept⟩ := ih inside
    exact ⟨last, found, kept.trans same⟩

/-- Two seeds of a run return the same job exactly when they name the same tenant, the same source
and, however they write it, the same URL. -/
theorem one_job_per_source (crate : UrlCrate) (clock : Timestamp) (before between : List Event)
    (first second : Event)
    (admissible : Admissible crate (.start clock) (before ++ first :: (between ++ [second])))
    (tenantId sourceId id tenantId' sourceId' id' : Uuid) (startUrl startUrl' : Str)
    (intervalSeconds maxAttempts intervalSeconds' maxAttempts' : Int) (enabled enabled' : Bool)
    (op : first.op = .seed tenantId sourceId startUrl intervalSeconds maxAttempts enabled id)
    (op' : second.op = .seed tenantId' sourceId' startUrl' intervalSeconds' maxAttempts' enabled' id')
    (url url' : Url) (valid : validatePublicHttpsUrl crate startUrl = .ok url)
    (valid' : validatePublicHttpsUrl crate startUrl' = .ok url') (jobId jobId' : Uuid)
    (seeded : answer crate (run crate (.start clock) before) first = .ok (.seeded jobId))
    (seeded' : answer crate (run crate (.start clock) (before ++ first :: between)) second =
      .ok (.seeded jobId')) :
    jobId = jobId' ↔ (tenantId, sourceId, url.asStr) = (tenantId', sourceId', url'.asStr) := by
  have whole : before ++ first :: (between ++ [second]) = (before ++ first :: between) ++ [second] := by
    simp
  have consistent : Consistent
      (step crate (run crate (.start clock) (before ++ first :: between)) second).db := by
    have reached := reachable_consistent admissible
    rwa [whole, run, Runs.run_snoc] at reached
  obtain ⟨row, member, own, key⟩ := seeds_row op valid seeded
  obtain ⟨last, found, own', key'⟩ := seeds_row op' valid' seeded'
  have later : run crate (.start clock) (before ++ first :: between) =
      run crate (step crate (run crate (.start clock) before) first) between := by
    rw [run, Runs.run_append]
    rfl
  obtain ⟨kept, inside, same⟩ := @run_keeps_job crate _ (between ++ [second]) row member
  rw [run, Runs.run_snoc, ← run, ← later] at inside
  have keptId := (JobRow.id_of_identity same).trans own
  have keptKey := (JobRow.key_of_identity same).trans key
  constructor
  · intro same
    have one : kept = last := consistent.same_job inside found (keptId.trans (same.trans own'.symm))
    rw [← keptKey, ← key', one]
  · intro same
    have one : kept = last :=
      Table.unique_row consistent.jobKeys inside found (keptKey.trans (same.trans key'.symm))
    rw [← keptId, ← own', one]

/-- Seeded again under a fresh id while the job is leased, the source still has its one job. -/
theorem one_job_per_source_again : (10 : Uuid) = 10 ↔
    ((1 : Uuid), (2 : Uuid), releasesUrl.asStr) = (1, 2, releasesUrl.asStr) :=
  one_job_per_source releasesCrate 0 [] [leaseReleases 1 20 30] (seedReleases 0 10)
    (seedReleases 2 11) (by decide) 1 2 10 1 2 11 "https://docs.example.com/releases".toList
    "https://docs.example.com/releases".toList 3600 1 3600 1 true true rfl rfl releasesUrl releasesUrl
    (by rfl) (by rfl) 10 10 (by decide) (by decide)

end EalSync.Runtime
