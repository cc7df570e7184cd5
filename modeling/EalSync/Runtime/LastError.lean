import EalSync.Runtime.Timeline

/-! What last_error_code tells. It is the error code of the receipt of the job that was closed last,
and no code that either table holds has more to it than sanitize_code leaves. -/
namespace EalSync.Runtime

/-- The receipt of the job that was closed last; a later receipt is later in the table. -/
def lastClosed (jobId : Uuid) (attempts : List AttemptRow) : Option AttemptRow :=
  (attempts.filter fun a => a.jobId == jobId && a.finishedAt.isSome).getLast?

/-- A code of one to 128 letters, digits, underscores and hyphens. -/
structure CleanCode (code : Str) : Prop where
  nonempty : code ≠ []
  short : code.length ≤ 128
  plain : ∀ c ∈ code, (Str.isAsciiAlphanumeric c || c == '_' || c == '-') = true

theorem sanitizeCode_clean (value : Str) : CleanCode (sanitizeCode value) := by
  have crawl_failed : CleanCode "crawl_failed".toList := ⟨by decide, by decide, by decide⟩
  rw [sanitizeCode]
  split
  · exact crawl_failed
  · rename_i kept
    refine ⟨by simpa using kept, List.length_take_le _ _, fun c member => ?_⟩
    exact (List.mem_filter.mp (List.mem_of_mem_take member)).2

/-- A receipt has a code exactly when its attempt failed or was abandoned, and a code is clean. -/
structure ErrorCoded (a : AttemptRow) : Prop where
  coded : a.errorCode.isSome = true ↔ a.status = .failed ∨ a.status = .abandoned
  clean : ∀ code, a.errorCode = some code → CleanCode code

structure Reported (db : Database) : Prop where
  codes : ∀ a ∈ db.attempts, ErrorCoded a
  last : ∀ row ∈ db.jobs, row.lastErrorCode = (lastClosed row.id db.attempts).bind AttemptRow.errorCode

theorem lastClosed_append (jobId : Uuid) (attempts : List AttemptRow) {a : AttemptRow}
    (unfinished : a.finishedAt = none) : lastClosed jobId (attempts ++ [a]) = lastClosed jobId attempts := by
  simp [lastClosed, unfinished]

theorem lastClosed_none {jobId : Uuid} {attempts : List AttemptRow}
    (none : ∀ a ∈ attempts, a.jobId ≠ jobId) : lastClosed jobId attempts = .none := by
  have empty : (attempts.filter fun a => a.jobId == jobId && a.finishedAt.isSome) = [] := by
    rw [List.filter_eq_nil_iff]
    intro a member
    simp [none a member]
  rw [lastClosed, empty]
  rfl

section Update

variable {db : Database} {q : AttemptRow → Bool} {g : AttemptRow → AttemptRow} {jobId : Uuid}

theorem lastClosed_other (identity : ∀ a, (g a).identity = a.identity) (attempts : List AttemptRow)
    (other : ∀ a ∈ attempts, q a = true → a.jobId ≠ jobId) :
    lastClosed jobId (Table.update q g attempts) = lastClosed jobId attempts := by
  have kept : (Table.update q g attempts).filter (fun a => a.jobId == jobId && a.finishedAt.isSome) =
      attempts.filter fun a => a.jobId == jobId && a.finishedAt.isSome := by
    induction attempts with
    | nil => rfl
    | cons a rest ih =>
      have tail := ih fun b member => other b (List.mem_cons_of_mem a member)
      by_cases selected : q a = true
      · have before := other a List.mem_cons_self selected
        have after : (g a).jobId ≠ jobId := by rwa [(AttemptRow.identity_eq (identity a)).2.1]
        rw [Table.update] at tail ⊢
        rw [List.map_cons, if_pos selected, List.filter_cons_of_neg (by simp [after]),
          List.filter_cons_of_neg (by simp [before]), tail]
      · rw [Table.update] at tail ⊢
        rw [List.map_cons, if_neg selected, List.filter_cons, List.filter_cons, tail]
  rw [lastClosed, kept, lastClosed]

/-- The receipt of a lease that is held is the last one of its job. -/
theorem lastClosed_closed {clock : Timestamp} (timed : Timed clock db)
    (identity : ∀ a, (g a).identity = a.identity) (finished : ∀ a, (g a).finishedAt.isSome = true)
    {row : JobRow} (member : row ∈ db.jobs) {a : AttemptRow} (inside : a ∈ db.attempts)
    (own : row.id = a.jobId) (token : row.leaseToken = some a.leaseToken) (selected : q a = true) :
    lastClosed row.id (Table.update q g db.attempts) = some (g a) := by
  obtain ⟨earlier, later, split⟩ := List.append_of_mem inside
  have order := timed.order
  rw [split, List.pairwise_append, List.pairwise_cons] at order
  have none : ∀ b ∈ Table.update q g later, b.jobId ≠ row.id := by
    refine Table.forall_update (fun b after same => ?_) fun b _ _ other => ?_
    · have precedes := order.2.1.1 b after
      exact precedes.settled (own.symm.trans same.symm) row member own token
    · rwa [(AttemptRow.identity_eq (identity b)).2.1]
  have nothing : (Table.update q g later).filter
      (fun b => b.jobId == row.id && b.finishedAt.isSome) = [] := by
    rw [List.filter_eq_nil_iff]
    intro b after
    simp [none b after]
  have sameJob : (g a).jobId = row.id := (AttemptRow.identity_eq (identity a)).2.1.trans own.symm
  rw [lastClosed, split, Table.update, List.map_append, List.map_cons, if_pos selected,
    List.filter_append, List.filter_cons_of_pos (by simp [sameJob, finished])]
  rw [Table.update] at nothing
  rw [nothing, List.getLast?_append]
  rfl

end Update

section Steps

variable {clock now : Timestamp} {db : Database}

/-- Receipts that are closed now carry the codes that their jobs are given. -/
theorem Reported.close (h : Reported db) (timed : Timed clock db) {p : JobRow → Bool}
    {f : JobRow → JobRow} {q : AttemptRow → Bool} {g : AttemptRow → AttemptRow}
    (ids : ∀ row, (f row).id = row.id) (identity : ∀ a, (g a).identity = a.identity)
    (finished : ∀ a, (g a).finishedAt.isSome = true)
    (codes : ∀ a ∈ db.attempts, q a = true → ErrorCoded (g a))
    (own : ∀ row ∈ db.jobs, p row = true → ∃ a ∈ db.attempts, row.id = a.jobId ∧
      row.leaseToken = some a.leaseToken ∧ q a = true ∧ (f row).lastErrorCode = (g a).errorCode)
    (other : ∀ row ∈ db.jobs, p row = false → ∀ a ∈ db.attempts, q a = true → a.jobId ≠ row.id) :
    Reported ⟨Table.update p f db.jobs, Table.update q g db.attempts⟩ where
  codes := Table.forall_update h.codes fun a member selected _ => codes a member selected
  last row' member := by
    rcases Table.mem_update.mp member with ⟨row, inside, selected, rfl⟩ | ⟨inside, skipped⟩
    · obtain ⟨a, ha, sameJob, token, closing, code⟩ := own row inside selected
      rw [ids, lastClosed_closed timed identity finished inside ha sameJob token closing, code]
      rfl
    · rw [lastClosed_other identity db.attempts (other row' inside skipped)]
      exact h.last row' inside

theorem opened_uncoded (h : Reported db) {a : AttemptRow} (member : a ∈ db.attempts)
    (opened : a.status = .leased) : a.errorCode = none := by
  by_contra coded
  have ended := (h.codes a member).coded.mp (Option.isSome_iff_ne_none.mpr coded)
  rw [opened] at ended
  rcases ended with failed | abandoned
  · cases failed
  · cases abandoned

theorem Reported.resolved (h : Reported db) (timed : Timed clock db) (consistent : Consistent db)
    {r : Resolution} (lawful : r.Lawful) (finished : ∀ a, (r.setAttempt a).finishedAt.isSome = true)
    (codes : ∀ a, a.errorCode = none → ∀ row, ErrorCoded (r.setAttempt a) ∧
      (r.setJob row).lastErrorCode = (r.setAttempt a).errorCode) {job : CrawlJob}
    (attempt : Table.affected job.matchesAttempt db.attempts = 1)
    (released : Table.affected job.matchesJob db.jobs = 1) : Reported (Runtime.resolved r job db) := by
  obtain ⟨row, member, a, ha, rowId, token, attemptId, aToken, owner, opened⟩ :=
    consistent.resolves attempt released
  have uncoded := opened_uncoded h ha opened
  have matched := CrawlJob.matchesAttempt_iff.mpr ⟨attemptId, aToken, opened⟩
  have only : ∀ b ∈ db.attempts, job.matchesAttempt b = true → b = a := fun b hb other =>
    Table.unique_row consistent.attemptIds hb ha
      ((CrawlJob.matchesAttempt_iff.mp other).1.trans attemptId.symm)
  refine h.close timed (fun row => JobRow.id_of_identity (lawful.jobIdentity row))
    lawful.attemptIdentity finished ?_ ?_ ?_
  · intro b hb other
    rw [only b hb other]
    exact (codes a uncoded row).1
  · intro row' member' selected
    obtain ⟨id, held⟩ := CrawlJob.matchesJob_iff.mp selected
    exact ⟨a, ha, id.trans owner.symm, held.trans (congrArg some aToken.symm), matched,
      (codes a uncoded row').2⟩
  · intro row' member' skipped b hb other same
    rw [only b hb other, owner, ← rowId] at same
    rw [← consistent.same_job member member' same,
      CrawlJob.matchesJob_iff.mpr ⟨rowId, token⟩] at skipped
    cases skipped

theorem Reported.reaped (h : Reported db) (timed : Timed clock db) (consistent : Consistent db) :
    Reported (Runtime.reaped now db) := by
  have expiredCode : CleanCode "lease_expired".toList := ⟨by decide, by decide, by decide⟩
  refine h.close timed (fun _ => rfl) (fun _ => rfl) (fun _ => rfl) ?_ ?_ ?_
  · rintro a _ _
    exact ⟨iff_of_true rfl (.inr rfl), fun _ same => Option.some.inj same ▸ expiredCode⟩
  · intro row member selected
    obtain ⟨⟨t, token⟩, expired⟩ := (consistent.reaps_iff member).mp selected
    obtain ⟨a, ha, owner, sameToken, opened⟩ := consistent.held row member t token
    have held : row.leaseToken = some a.leaseToken := by rw [token, sameToken]
    exact ⟨a, ha, owner.symm, held,
      Consistent.abandons_iff.mpr ⟨opened, row, member, owner.symm, held, expired⟩, rfl⟩
  · intro row member skipped a _ abandoned same
    obtain ⟨_, row', member', own, held, expired⟩ := Consistent.abandons_iff.mp abandoned
    rw [consistent.same_job member' member (own.trans same)] at held expired
    rw [(consistent.reaps_iff member).mpr ⟨⟨_, held⟩, expired⟩] at skipped
    cases skipped

theorem Reported.effect (h : Reported db) (timed : Timed clock db) (consistent : Consistent db)
    {db' : Database} {op : Op} {result : Except Error Reply} (did : Effect now db op result db') :
    Reported db' := by
  cases did with
  | refused => exact h
  | idle => exact h
  | inserted tenantId sourceId id startUrl url intervalSeconds maxAttempts enabled _ _ ids =>
    refine ⟨h.codes, fun row member => ?_⟩
    rcases List.mem_append.mp member with old | new
    · exact h.last row old
    · have none : lastClosed id db.attempts = .none := lastClosed_none fun a ha same => by
        obtain ⟨job, inside, own⟩ := consistent.owned a ha
        exact ids job inside (own.trans same)
      rw [List.mem_singleton.mp new, show (newJob id tenantId sourceId url intervalSeconds maxAttempts
        enabled now).id = id from rfl, none]
      rfl
  | reseeded tenantId sourceId id startUrl url intervalSeconds maxAttempts enabled =>
    refine ⟨h.codes, Table.forall_update h.last fun row _ _ last => last⟩
  | leased owner leaseSeconds token attemptId locked candidate =>
    refine ⟨fun a member => ?_, fun row member => ?_⟩
    · rcases List.mem_append.mp member with old | new
      · exact h.codes a old
      · rw [List.mem_singleton.mp new]
        exact ⟨by simp [newAttempt], by rintro _ ⟨⟩⟩
    · rw [show (granted owner leaseSeconds token attemptId now candidate db).attempts =
        db.attempts ++ [newAttempt attemptId candidate.id token now] from rfl, lastClosed_append _ _ rfl]
      exact Table.forall_update (f := takeLease token owner leaseSeconds now) h.last
        (fun _ _ _ last => last) row member
  | completed job output apiReceipt attempt released =>
    refine h.resolved timed consistent (completion_lawful output apiReceipt now) (fun _ => rfl) ?_
      attempt released
    intro a uncoded row
    refine ⟨⟨?_, fun code same => ?_⟩, uncoded.symm⟩
    · simp [completion, uncoded]
    · exact absurd (uncoded.symm.trans same) (Option.some_ne_none code).symm
  | failed job errorCode details attempt released =>
    refine h.resolved timed consistent (failure_lawful job errorCode details now) (fun _ => rfl) ?_
      attempt released
    intro a _ row
    exact ⟨⟨iff_of_true rfl (.inl rfl),
      fun _ same => Option.some.inj same ▸ sanitizeCode_clean errorCode⟩, rfl⟩
  | reaped => exact h.reaped timed consistent

end Steps

/-- In every reachable state the error that a job shows is the one of its receipt that was closed
last; the receipts with an error are those of failed and abandoned attempts, and every code is one to
128 letters, digits, underscores and hyphens. -/
theorem last_error_tells (crate : UrlCrate) (clock : Timestamp) (es : List Event)
    (admissible : Admissible crate (.start clock) es) :
    (∀ row ∈ (run crate (.start clock) es).db.jobs, row.lastErrorCode =
      (lastClosed row.id (run crate (.start clock) es).db.attempts).bind AttemptRow.errorCode) ∧
    ∀ a ∈ (run crate (.start clock) es).db.attempts, ErrorCoded a := by
  have all := Runs.run_invariant
    (P := fun s => Consistent s.db ∧ Timed s.clock s.db ∧ Reported s.db)
    (fun s e h admits => ⟨step_consistent crate s e h.1 admits,
      h.2.1.effect admits.1 h.1 (step_effect crate s e) admits.2,
      h.2.2.effect h.2.1 h.1 (step_effect crate s e)⟩)
    ⟨migrated_consistent, ⟨fun _ none => absurd none List.not_mem_nil, List.Pairwise.nil⟩,
      fun _ none => absurd none List.not_mem_nil, fun _ none => absurd none List.not_mem_nil⟩ admissible
  exact ⟨all.2.2.last, all.2.2.codes⟩

/-- The first lease expired, and the job shows it while the second one runs. -/
theorem last_error_tells_expired : ∃ row ∈ (run releasesCrate (.start 0)
    [⟨0, .seed 1 2 "https://docs.example.com/releases".toList 3600 5 true 10⟩, leaseReleases 1 20 30,
      ⟨seconds 32, .reapExpired⟩, leaseReleases 100 21 31]).db.jobs,
    row.lastErrorCode = some "lease_expired".toList ∧ row.lastErrorCode =
      (lastClosed row.id (run releasesCrate (.start 0)
        [⟨0, .seed 1 2 "https://docs.example.com/releases".toList 3600 5 true 10⟩,
          leaseReleases 1 20 30, ⟨seconds 32, .reapExpired⟩,
          leaseReleases 100 21 31]).db.attempts).bind AttemptRow.errorCode := by
  have shown : ∃ row ∈ (run releasesCrate (.start 0)
      [⟨0, .seed 1 2 "https://docs.example.com/releases".toList 3600 5 true 10⟩,
        leaseReleases 1 20 30, ⟨seconds 32, .reapExpired⟩, leaseReleases 100 21 31]).db.jobs,
      row.lastErrorCode = some "lease_expired".toList := by
    decide
  obtain ⟨row, member, code⟩ := shown
  exact ⟨row, member, code, (last_error_tells releasesCrate 0 _ (by decide)).1 row member⟩

end EalSync.Runtime
