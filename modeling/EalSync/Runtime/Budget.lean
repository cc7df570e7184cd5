import EalSync.Runtime.JobView
import EalSync.Runtime.Receipts

/-! The retry budget. The row of a job accounts for every attempt started since its creation or
its last success, but for those that began by taking over a lease nobody had reaped. -/
namespace EalSync.Runtime

/-- Attempts of one job since its creation or last success, and how many took over a lease. -/
structure Tally where
  started : Nat
  takenOver : Nat

def Tally.after (jobId : Uuid) (t : Tally) (taken : Bool) : Op → Except Error Reply → Tally
  | .lease .., .ok (.leased (some job)) =>
    if job.id = jobId then ⟨t.started + 1, t.takenOver + taken.toNat⟩ else t
  | .complete job _ _, .ok .completed => if job.id = jobId then ⟨0, 0⟩ else t
  | _, _ => t

section

variable (crate : UrlCrate) (jobId : Uuid)

def tallyStep (x : System × Tally) (e : Event) : System × Tally :=
  (step crate x.1 e, x.2.after jobId (takenOver x.1 e).isSome e.op (answer crate x.1 e))

def tally (s : System) (es : List Event) : Tally :=
  (Runs.run (tallyStep crate jobId) (s, ⟨0, 0⟩) es).2

/-- Whenever the job exists in the run, its max_attempts is m. -/
def Unchanged (m : Int) : System → List Event → Prop :=
  Runs.Admissible (step crate) fun s e =>
    ∀ job ∈ (step crate s e).db.jobs, job.id = jobId → job.maxAttempts = m

/-- No lease takes the job over while it still holds an expired token. -/
def Charged : System → List Event → Prop :=
  Runs.Admissible (step crate) fun s e => (takenOver s e).map JobRow.id ≠ some jobId

instance (m : Int) (s : System) (es : List Event) : Decidable (Unchanged crate jobId m s es) :=
  Runs.decidableAdmissible (step crate) _ s es

instance (s : System) (es : List Event) : Decidable (Charged crate jobId s es) :=
  Runs.decidableAdmissible (step crate) _ s es

end

/-- The attempts a row accounts for: those counted, and the one it is leased for. -/
def JobRow.spent (job : JobRow) : Int := job.attemptCount + if job.leaseToken.isSome then 1 else 0

theorem JobRow.spent_free {job : JobRow} (free : job.leaseToken = none) :
    job.spent = job.attemptCount := by
  simp [JobRow.spent, free]

theorem JobRow.spent_held {job : JobRow} {t : Uuid} (held : job.leaseToken = some t) :
    job.spent = job.attemptCount + 1 := by
  simp [JobRow.spent, held]

/-- The row of a job, if it exists, accounts for all of its tally but the takeovers. -/
def Accounts : Option JobRow → Tally → Prop
  | none, t => t = ⟨0, 0⟩
  | some job, t => t.started = job.spent + t.takenOver

theorem tally_kept {jobId : Uuid} {op : Op} {result : Except Error Reply}
    (apart : ¬Concerns jobId op result) (t : Tally) (taken : Bool) :
    t.after jobId taken op result = t := by
  unfold Tally.after
  split
  · exact if_neg apart
  · exact if_neg apart
  · rfl

section Row

variable {now : Timestamp} {s : System} {jobId : Uuid} {op : Op} {result : Except Error Reply}
  {row row' : Option JobRow}

theorem row_accounts (view : RowEffect now s.db jobId op result row row')
    (own : ∀ job, row = some job → job.id = jobId) {t : Tally} (accounts : Accounts row t) :
    Accounts row' (t.after jobId (takenOver s ⟨now, op⟩).isSome op result) := by
  cases view with
  | kept op result row apart =>
    rw [tally_kept apart]
    exact accounts
  | inserted =>
    cases accounts
    exact rfl
  | reseeded => exact accounts
  | leased owner leaseSeconds token attemptId locked job found ready accepts =>
    have counted : t.after jobId (takenOver s ⟨now, .lease owner leaseSeconds token attemptId locked⟩).isSome
        (.lease owner leaseSeconds token attemptId locked)
        (.ok (.leased (some (leasedJob job token attemptId)))) =
        ⟨t.started + 1, t.takenOver + job.leaseToken.isSome.toNat⟩ := by
      rw [takenOver_lease accepts, found]
      refine (if_pos (own job rfl)).trans ?_
      cases held : job.leaseToken <;> simp [Option.filter, held]
    rw [counted]
    simp only [Accounts, JobRow.spent] at accounts ⊢
    cases held : job.leaseToken <;> simp [held, takeLease] at accounts ⊢ <;> omega
  | completed job output apiReceipt row same held =>
    have reset : t.after jobId (takenOver s ⟨now, .complete job output apiReceipt⟩).isSome
        (.complete job output apiReceipt) (.ok .completed) = ⟨0, 0⟩ := if_pos same
    rw [reset]
    exact rfl
  | failed job errorCode details row same held =>
    rw [Accounts, JobRow.spent_held held] at accounts
    rw [Accounts, JobRow.spent_free rfl]
    exact accounts
  | reaped result row lapsed =>
    obtain ⟨⟨t, held⟩, _⟩ := JobRow.lapsed_iff.mp lapsed
    rw [Accounts, JobRow.spent_held held] at accounts
    rw [Accounts, JobRow.spent_free rfl]
    exact accounts

theorem row_within (view : RowEffect now s.db jobId op result row row')
    (sound : ∀ job, row' = some job → job.Sound)
    (within : ∀ job, row = some job → job.spent ≤ job.maxAttempts)
    (unchanged : ∀ job job', row = some job → row' = some job' → job'.maxAttempts = job.maxAttempts) :
    ∀ job, row' = some job → job.spent ≤ job.maxAttempts := by
  rintro job' rfl
  cases view with
  | kept => exact within job' rfl
  | inserted =>
    have budget := (sound _ rfl).budget.1
    rw [JobRow.spent_free rfl]
    simp only [newJob] at budget ⊢
    omega
  | reseeded _ _ _ _ _ _ _ _ job =>
    have same := unchanged job _ rfl rfl
    rw [same]
    exact within job rfl
  | leased _ _ _ _ _ job _ ready =>
    obtain ⟨_, _, spare, _⟩ := JobRow.leasable_iff.mp ready
    rw [JobRow.spent_held rfl]
    simp only [takeLease]
    omega
  | completed _ _ _ job =>
    have budget := (sound _ rfl).budget.1
    rw [JobRow.spent_free rfl]
    simp only [completion] at budget ⊢
    omega
  | failed _ _ _ job _ held =>
    have before := within job rfl
    rw [JobRow.spent_held held] at before
    rw [JobRow.spent_free rfl]
    exact before
  | reaped _ job lapsed =>
    obtain ⟨⟨t, held⟩, _⟩ := JobRow.lapsed_iff.mp lapsed
    have before := within job rfl
    rw [JobRow.spent_held held] at before
    rw [JobRow.spent_free rfl]
    exact before

theorem row_charged (view : RowEffect now s.db jobId op result row row')
    (own : ∀ job, row = some job → job.id = jobId)
    (charged : (takenOver s ⟨now, op⟩).map JobRow.id ≠ some jobId) {t : Tally}
    (none : t.takenOver = 0) :
    (t.after jobId (takenOver s ⟨now, op⟩).isSome op result).takenOver = 0 := by
  cases view with
  | kept op result row apart =>
    rw [tally_kept apart]
    exact none
  | inserted => exact none
  | reseeded => exact none
  | leased owner leaseSeconds token attemptId locked job found ready accepts =>
    have free : takenOver s ⟨now, .lease owner leaseSeconds token attemptId locked⟩ = Option.none := by
      rw [takenOver_lease accepts, found] at charged ⊢
      rw [Option.filter] at charged ⊢
      split
      · rename_i held
        simp [held, own job rfl] at charged
      · rfl
    rw [free]
    refine (congrArg Tally.takenOver (if_pos (own job rfl))).trans ?_
    simp [none]
  | completed job output apiReceipt row same held =>
    exact congrArg Tally.takenOver (if_pos same)
  | failed => exact none
  | reaped => exact none

end Row

theorem step_row (crate : UrlCrate) {s : System} (h : Consistent s.db) (e : Event) (jobId : Uuid) :
    RowEffect e.now s.db jobId e.op (answer crate s e) (jobRow jobId s.db)
      (jobRow jobId (step crate s e).db) := effect_row h (step_effect crate s e) jobId

theorem tally_accounts {crate : UrlCrate} {clock : Timestamp} {es : List Event}
    (admissible : Admissible crate (.start clock) es) (jobId : Uuid) :
    Accounts (jobRow jobId (run crate (.start clock) es).db) (tally crate jobId (.start clock) es) := by
  have tracked := (Runs.admissible_map (step crate) (tallyStep crate jobId) Prod.fst (fun _ _ => rfl)
    (System.start clock, ⟨0, 0⟩) es).mpr admissible
  have inner := Runs.run_map (step crate) (tallyStep crate jobId) Prod.fst (fun _ _ => rfl)
    (System.start clock, ⟨0, 0⟩) es
  have initial : Accounts (jobRow jobId Database.migrated) ⟨0, 0⟩ := rfl
  have both := Runs.run_invariant
    (P := fun x : System × Tally => Consistent x.1.db ∧ Accounts (jobRow jobId x.1.db) x.2)
    (fun x e h admits => ⟨step_consistent crate x.1 e h.1 admits,
      row_accounts (step_row crate h.1 e jobId) (fun _ found => (jobRow_mem found).2) h.2⟩)
    ⟨migrated_consistent, initial⟩ tracked
  rw [run, ← inner]
  exact both.2

theorem tally_charged {crate : UrlCrate} {clock : Timestamp} {es : List Event} {jobId : Uuid}
    (admissible : Admissible crate (.start clock) es) (charged : Charged crate jobId (.start clock) es) :
    (tally crate jobId (.start clock) es).takenOver = 0 := by
  have tracked := (Runs.admissible_map (step crate) (tallyStep crate jobId) Prod.fst (fun _ _ => rfl)
    (System.start clock, ⟨0, 0⟩) es).mpr (Runs.admissible_and.mpr ⟨admissible, charged⟩)
  have both := Runs.run_invariant
    (P := fun x : System × Tally => Consistent x.1.db ∧ x.2.takenOver = 0)
    (fun x e h guard => ⟨step_consistent crate x.1 e h.1 guard.1,
      row_charged (step_row crate h.1 e jobId) (fun _ found => (jobRow_mem found).2) guard.2 h.2⟩)
    ⟨migrated_consistent, rfl⟩ tracked
  exact both.2

theorem spent_within {crate : UrlCrate} {clock : Timestamp} {es : List Event} {jobId : Uuid} {m : Int}
    (admissible : Admissible crate (.start clock) es)
    (unchanged : Unchanged crate jobId m (.start clock) es) :
    ∀ job, jobRow jobId (run crate (.start clock) es).db = some job →
      job.maxAttempts = m ∧ job.spent ≤ job.maxAttempts := by
  have both := Runs.run_invariant
    (P := fun s : System => Consistent s.db ∧ ∀ job, jobRow jobId s.db = some job →
      job.maxAttempts = m ∧ job.spent ≤ job.maxAttempts) ?_
    ⟨migrated_consistent, fun _ found => absurd (jobRow_mem found).1 List.not_mem_nil⟩
    (Runs.admissible_and.mpr ⟨admissible, unchanged⟩)
  · exact both.2
  · rintro s e ⟨consistent, within⟩ ⟨admits, kept⟩
    have after := step_consistent crate s e consistent admits
    have budget : ∀ job, jobRow jobId (step crate s e).db = some job → job.maxAttempts = m :=
      fun job found => kept job (jobRow_mem found).1 (jobRow_mem found).2
    refine ⟨after, fun job found => ⟨budget job found, ?_⟩⟩
    refine row_within (step_row crate consistent e jobId)
      (fun job found => after.jobs job (jobRow_mem found).1) (fun job found => (within job found).2)
      ?_ job found
    intro old new foundOld foundNew
    rw [budget new foundNew, (within old foundOld).1]

/-- The retry budget holds in every run that never takes the job over. -/
theorem retry_budget (crate : UrlCrate) (clock : Timestamp) (es : List Event)
    (admissible : Admissible crate (.start clock) es) (jobId : Uuid) (m : Int)
    (unchanged : Unchanged crate jobId m (.start clock) es)
    (charged : Charged crate jobId (.start clock) es) (job : JobRow)
    (member : job ∈ (run crate (.start clock) es).db.jobs) (same : job.id = jobId) :
    ((tally crate jobId (.start clock) es).started : Int) ≤ job.maxAttempts := by
  have found := jobRow_of_mem (reachable_consistent admissible) member
  rw [same] at found
  have accounts := tally_accounts admissible jobId
  rw [found, Accounts, tally_charged admissible charged] at accounts
  have within := (spent_within admissible unchanged job found).2
  omega

theorem retry_budget_reaped :
    ((tally releasesCrate 10 (.start 0) [seedReleases 0 10, leaseReleases 1 20 30,
      ⟨seconds 32, .reapExpired⟩, leaseReleases 100 21 31]).started : Int) ≤ 1 :=
  retry_budget releasesCrate 0 _ (by decide) 10 1 (by decide) (by decide)
    (reap (seconds 32) (takeLease 20 "worker".toList 30 (seconds 1) (newJob 10 1 2
      "https://docs.example.com/releases".toList 3600 1 true 0))) (by decide) rfl

/-- A budget of one attempt, and two attempts started: the takeover is charged to nobody. -/
theorem takeover_exceeds_budget :
    ¬∀ crate clock es, Admissible crate (.start clock) es → ∀ jobId m,
      Unchanged crate jobId m (.start clock) es → ∀ job ∈ (run crate (.start clock) es).db.jobs,
        job.id = jobId → ((tally crate jobId (.start clock) es).started : Int) ≤ job.maxAttempts := by
  intro every
  have bound := every releasesCrate 0
    [seedReleases 0 10, leaseReleases 1 20 30, leaseReleases 32 21 31] (by decide) 10 1 (by decide)
    (takeLease 21 "worker".toList 30 (seconds 32) (newJob 10 1 2
      "https://docs.example.com/releases".toList 3600 1 true 0)) (by decide) rfl
  revert bound
  decide

end EalSync.Runtime
