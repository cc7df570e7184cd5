import EalSync.Runtime.System

/-! The invariant that the transactions keep: the keys of the schema, the constraints of every
row, and for each lease held the one open receipt that it belongs to. -/
namespace EalSync.Runtime

namespace JobRow

/-- The columns that no statement rewrites and that the keys are made of. -/
def identity (job : JobRow) : Uuid × Uuid × Uuid × Str :=
  (job.id, job.tenantId, job.sourceId, job.startUrl)

/-- A row meets its constraints, has been tried at most 100 times, and fewer while leased. -/
structure Sound (job : JobRow) : Prop where
  https : Str.startsWith "https://".toList job.startUrl = true
  interval : 60 ≤ job.intervalSeconds ∧ job.intervalSeconds ≤ 2592000
  counted : 0 ≤ job.attemptCount ∧ job.attemptCount ≤ 100
  budget : 1 ≤ job.maxAttempts ∧ job.maxAttempts ≤ 100
  leaseShape : (job.leaseToken = none ∧ job.leaseOwner = none ∧ job.leaseExpiresAt = none) ∨
    ∃ t owner e, job.leaseToken = some t ∧ job.leaseOwner = some owner ∧ job.leaseExpiresAt = some e
  spare : ∀ t, job.leaseToken = some t → job.attemptCount < 100

theorem Sound.admissible {job : JobRow} (h : job.Sound) : job.admissible = true := by
  have count := h.counted.2
  rcases h.leaseShape with ⟨token, owner, expires⟩ | ⟨t, o, e, token, owner, expires⟩ <;>
  · simp only [JobRow.admissible, h.https, h.interval.1, h.interval.2, h.counted.1, h.budget.1,
      h.budget.2, token, owner, expires, Bool.and_eq_true, decide_eq_true_eq]
    simp
    omega

theorem id_of_identity {x y : JobRow} (h : x.identity = y.identity) : x.id = y.id :=
  congrArg Prod.fst h

theorem key_of_identity {x y : JobRow} (h : x.identity = y.identity) : x.key = y.key :=
  congrArg Prod.snd h

theorem newJob_sound {id tenantId sourceId : Uuid} {url : Str} {intervalSeconds maxAttempts : Int}
    {enabled : Bool} {now : Timestamp}
    (h : (newJob id tenantId sourceId url intervalSeconds maxAttempts enabled now).admissible = true) :
    (newJob id tenantId sourceId url intervalSeconds maxAttempts enabled now).Sound := by
  simp only [admissible, Bool.and_eq_true, decide_eq_true_eq] at h
  exact ⟨h.1.1.1.1, h.1.1.1.2, ⟨by simp [newJob], by simp [newJob]⟩, ⟨h.1.1.2.1.2, h.1.1.2.2⟩,
    .inl ⟨rfl, rfl, rfl⟩, by simp [newJob]⟩

theorem reseed_sound {job : JobRow} {intervalSeconds maxAttempts : Int} (enabled : Bool)
    (now : Timestamp) (interval : 60 ≤ intervalSeconds ∧ intervalSeconds ≤ 2592000)
    (budget : 1 ≤ maxAttempts ∧ maxAttempts ≤ 100) (h : job.Sound) :
    (reseed intervalSeconds maxAttempts enabled now job).Sound :=
  ⟨h.https, interval, h.counted, budget, h.leaseShape, h.spare⟩

theorem takeLease_sound {job : JobRow} (token : Uuid) (owner : Str) (leaseSeconds : Int)
    (now : Timestamp) (h : job.Sound) (spare : job.attemptCount < 100) :
    (takeLease token owner leaseSeconds now job).Sound :=
  ⟨h.https, h.interval, h.counted, h.budget, .inr ⟨_, _, _, rfl, rfl, rfl⟩, fun _ _ => spare⟩

theorem reap_sound {job : JobRow} (now : Timestamp) (h : job.Sound) (spare : job.attemptCount < 100) :
    (reap now job).Sound := by
  have count := h.counted.1
  exact ⟨h.https, h.interval, ⟨by simp only [reap]; omega, by simp only [reap]; omega⟩, h.budget,
    .inl ⟨rfl, rfl, rfl⟩, by simp [reap]⟩

theorem expires_of_token {job : JobRow} (h : job.Sound) {t : Uuid}
    (token : job.leaseToken = some t) : ∃ e, job.leaseExpiresAt = some e := by
  rcases h.leaseShape with ⟨free, _, _⟩ | ⟨_, _, e, _, _, expires⟩
  · rw [free] at token; cases token
  · exact ⟨e, expires⟩

end JobRow

def AttemptRow.identity (a : AttemptRow) : Uuid × Uuid × Uuid := (a.id, a.jobId, a.leaseToken)

theorem AttemptRow.identity_eq {a b : AttemptRow} (h : a.identity = b.identity) :
    a.id = b.id ∧ a.jobId = b.jobId ∧ a.leaseToken = b.leaseToken := by
  simpa [AttemptRow.identity] using h

def OpenAttempt (db : Database) (jobId token : Uuid) : Prop :=
  ∃ a ∈ db.attempts, a.jobId = jobId ∧ a.leaseToken = token ∧ a.status = .leased

structure Consistent (db : Database) : Prop where
  jobIds : (db.jobs.map JobRow.id).Nodup
  jobKeys : (db.jobs.map JobRow.key).Nodup
  attemptIds : (db.attempts.map AttemptRow.id).Nodup
  tokens : (db.attempts.map AttemptRow.leaseToken).Nodup
  jobs : ∀ job ∈ db.jobs, job.Sound
  attempts : ∀ a ∈ db.attempts, a.admissible = true
  owned : ∀ a ∈ db.attempts, ∃ job ∈ db.jobs, job.id = a.jobId
  held : ∀ job ∈ db.jobs, ∀ t, job.leaseToken = some t → OpenAttempt db job.id t

theorem migrated_consistent : Consistent Database.migrated := by
  constructor <;> simp [Database.migrated]

namespace Consistent

variable {db : Database}

theorem same_job (h : Consistent db) {x y : JobRow} (hx : x ∈ db.jobs) (hy : y ∈ db.jobs)
    (same : x.id = y.id) : x = y := Table.unique_row h.jobIds hx hy same

/-- Two jobs never tie in the order of the queue. -/
theorem before_antisymm (h : Consistent db) : ∀ x ∈ db.jobs, ∀ y ∈ db.jobs,
    x.before y → y.before x → x = y := by
  rintro x hx y hy (earlier | ⟨same, first⟩) (later | ⟨same', second⟩)
  · exact absurd earlier later.asymm
  · exact absurd same' earlier.ne'
  · exact absurd same later.ne'
  · exact h.same_job hx hy (Nat.le_antisymm first second)

theorem same_attempt (h : Consistent db) {x y : AttemptRow} (hx : x ∈ db.attempts)
    (hy : y ∈ db.attempts) (same : x.leaseToken = y.leaseToken) : x = y :=
  Table.unique_row h.tokens hx hy same

theorem holder (h : Consistent db) {job : JobRow} (hjob : job ∈ db.jobs) {a : AttemptRow}
    (ha : a ∈ db.attempts) (token : job.leaseToken = some a.leaseToken) :
    a.jobId = job.id ∧ a.status = .leased := by
  obtain ⟨b, hb, owner, same, opened⟩ := h.held job hjob a.leaseToken token
  rw [← h.same_attempt hb ha same]
  exact ⟨owner, opened⟩

/-- Statements that keep the identities keep the invariant when what they write is sound and
every lease still held keeps its open receipt. -/
theorem rewrite (h : Consistent db) {p : JobRow → Bool} {f : JobRow → JobRow}
    {q : AttemptRow → Bool} {g : AttemptRow → AttemptRow}
    (jobIdentity : ∀ job, (f job).identity = job.identity)
    (attemptIdentity : ∀ a, (g a).identity = a.identity)
    (sound : ∀ job ∈ db.jobs, p job = true → (f job).Sound)
    (admissible : ∀ a ∈ db.attempts, q a = true → (g a).admissible = true)
    (held : ∀ job ∈ Table.update p f db.jobs, ∀ t, job.leaseToken = some t →
      OpenAttempt ⟨Table.update p f db.jobs, Table.update q g db.attempts⟩ job.id t) :
    Consistent ⟨Table.update p f db.jobs, Table.update q g db.attempts⟩ where
  jobIds := by
    rw [Table.update_map JobRow.id (fun job => JobRow.id_of_identity (jobIdentity job))]
    exact h.jobIds
  jobKeys := by
    rw [Table.update_map JobRow.key (fun job => JobRow.key_of_identity (jobIdentity job))]
    exact h.jobKeys
  attemptIds := by
    rw [Table.update_map AttemptRow.id (fun a => (AttemptRow.identity_eq (attemptIdentity a)).1)]
    exact h.attemptIds
  tokens := by
    rw [Table.update_map AttemptRow.leaseToken
      (fun a => (AttemptRow.identity_eq (attemptIdentity a)).2.2)]
    exact h.tokens
  jobs := Table.forall_update h.jobs (fun job hjob selected _ => sound job hjob selected)
  attempts := Table.forall_update h.attempts (fun a ha selected _ => admissible a ha selected)
  owned := by
    have ids := Table.update_map (p := p) JobRow.id
      (fun job => JobRow.id_of_identity (jobIdentity job)) db.jobs
    have owned : ∀ a ∈ Table.update q g db.attempts, a.jobId ∈ db.jobs.map JobRow.id := by
      refine Table.forall_update (fun a ha => List.mem_map.mpr (h.owned a ha)) ?_
      intro a _ _ known
      rwa [(AttemptRow.identity_eq (attemptIdentity a)).2.1]
    intro a ha
    have known := owned a ha
    rw [← ids] at known
    exact List.mem_map.mp known
  held := held

end Consistent

/-- What complete and fail have in common as writers. -/
structure Resolution.Lawful (r : Resolution) : Prop where
  attemptIdentity : ∀ a, (r.setAttempt a).identity = a.identity
  closes : ∀ a, (r.setAttempt a).status ≠ .leased ∧ (r.setAttempt a).admissible = true
  jobIdentity : ∀ job, (r.setJob job).identity = job.identity
  frees : ∀ job, (r.setJob job).leaseToken = none ∧ (r.setJob job).leaseExpiresAt = none
  sound : ∀ job, job.Sound → job.attemptCount < 100 → (r.setJob job).Sound

theorem completion_lawful (output : CrawlCommandOutput) (apiReceipt : Json) (now : Timestamp) :
    (completion output apiReceipt now).Lawful where
  attemptIdentity _ := rfl
  closes _ := ⟨by simp [completion], rfl⟩
  jobIdentity _ := rfl
  frees _ := ⟨rfl, rfl⟩
  sound _ h _ := ⟨h.https, h.interval, ⟨by simp [completion], by simp [completion]⟩, h.budget,
    .inl ⟨rfl, rfl, rfl⟩, by simp [completion]⟩

theorem failure_lawful (job : CrawlJob) (errorCode : Str) (details : Json) (now : Timestamp) :
    (failure job errorCode details now).Lawful where
  attemptIdentity _ := rfl
  closes _ := ⟨by simp [failure], rfl⟩
  jobIdentity _ := rfl
  frees _ := ⟨rfl, rfl⟩
  sound row h spare := by
    have count := h.counted.1
    exact ⟨h.https, h.interval, ⟨by simp only [failure]; omega, by simp only [failure]; omega⟩,
      h.budget, .inl ⟨rfl, rfl, rfl⟩, by simp [failure]⟩

namespace Consistent

variable {db : Database}

theorem inserted (h : Consistent db) {row : JobRow} (sound : row.Sound)
    (free : row.leaseToken = none) (keys : ∀ job ∈ db.jobs, job.key ≠ row.key)
    (ids : ∀ job ∈ db.jobs, job.id ≠ row.id) :
    Consistent { db with jobs := db.jobs ++ [row] } where
  jobIds := by
    rw [List.map_append, List.map_singleton, List.nodup_append]
    refine ⟨h.jobIds, List.nodup_singleton _, ?_⟩
    simpa using ids
  jobKeys := by
    rw [List.map_append, List.map_singleton, List.nodup_append]
    refine ⟨h.jobKeys, List.nodup_singleton _, ?_⟩
    simpa using keys
  attemptIds := h.attemptIds
  tokens := h.tokens
  jobs := by
    intro job member
    rcases List.mem_append.mp member with old | new
    · exact h.jobs job old
    · rw [List.mem_singleton.mp new]
      exact sound
  attempts := h.attempts
  owned := by
    intro a ha
    obtain ⟨job, member, same⟩ := h.owned a ha
    exact ⟨job, List.mem_append_left _ member, same⟩
  held := by
    intro job member t token
    rcases List.mem_append.mp member with old | new
    · exact h.held job old t token
    · rw [List.mem_singleton.mp new, free] at token
      cases token

theorem reseeded (h : Consistent db) {key : Uuid × Uuid × Str} {intervalSeconds maxAttempts : Int}
    (enabled : Bool) (now : Timestamp)
    (interval : 60 ≤ intervalSeconds ∧ intervalSeconds ≤ 2592000)
    (budget : 1 ≤ maxAttempts ∧ maxAttempts ≤ 100) :
    Consistent { db with
      jobs := Table.update (fun job => job.key == key)
        (reseed intervalSeconds maxAttempts enabled now) db.jobs } := by
  have attempts : Table.update (fun _ => false) id db.attempts = db.attempts :=
    Table.update_eq_self (fun _ _ => rfl)
  have kept := h.rewrite (p := fun job => job.key == key)
    (f := reseed intervalSeconds maxAttempts enabled now) (q := fun _ => false) (g := id)
    (fun _ => rfl) (fun _ => rfl)
    (fun job hjob _ => JobRow.reseed_sound enabled now interval budget (h.jobs job hjob))
    (fun _ _ selected => nomatch selected)
  rw [attempts] at kept
  apply kept
  intro job member t token
  rcases Table.mem_update.mp member with ⟨old, hold, _, rfl⟩ | ⟨hold, _⟩
  · exact h.held old hold t token
  · exact h.held job hold t token

theorem leased (h : Consistent db) {candidate : JobRow} (member : candidate ∈ db.jobs)
    (spare : candidate.attemptCount < candidate.maxAttempts) (token attemptId : Uuid) (owner : Str)
    (leaseSeconds : Int) (now : Timestamp) (newToken : ∀ a ∈ db.attempts, a.leaseToken ≠ token)
    (newId : ∀ a ∈ db.attempts, a.id ≠ attemptId) :
    Consistent (granted owner leaseSeconds token attemptId now candidate db) := by
  have ids := Table.update_map (p := fun job => job.id == candidate.id) JobRow.id
    (f := takeLease token owner leaseSeconds now) (fun _ => rfl) db.jobs
  have keys := Table.update_map (p := fun job => job.id == candidate.id) JobRow.key
    (f := takeLease token owner leaseSeconds now) (fun _ => rfl) db.jobs
  unfold granted
  refine ⟨ids ▸ h.jobIds, keys ▸ h.jobKeys, ?_, ?_, ?_, ?_, ?_, ?_⟩
  · rw [List.map_append, List.map_singleton, List.nodup_append]
    exact ⟨h.attemptIds, List.nodup_singleton _, by simpa [newAttempt] using newId⟩
  · rw [List.map_append, List.map_singleton, List.nodup_append]
    exact ⟨h.tokens, List.nodup_singleton _, by simpa [newAttempt] using newToken⟩
  · refine Table.forall_update h.jobs (fun job hjob selected sound => ?_)
    have same := h.same_job hjob member (by simpa using selected)
    subst same
    have budget := sound.budget.2
    exact JobRow.takeLease_sound token owner leaseSeconds now sound (by omega)
  · intro a ha
    rcases List.mem_append.mp ha with old | new
    · exact h.attempts a old
    · rw [List.mem_singleton.mp new]
      rfl
  · intro a ha
    have known : a.jobId ∈ db.jobs.map JobRow.id := by
      rcases List.mem_append.mp ha with old | new
      · exact List.mem_map.mpr (h.owned a old)
      · rw [List.mem_singleton.mp new]
        exact List.mem_map_of_mem member
    rw [← ids] at known
    exact List.mem_map.mp known
  · intro job hjob t held
    rcases Table.mem_update.mp hjob with ⟨old, hold, selected, rfl⟩ | ⟨hold, _⟩
    · have owner : old.id = candidate.id := by simpa using selected
      cases held
      exact ⟨_, List.mem_append_right _ List.mem_cons_self, owner.symm, rfl, rfl⟩
    · obtain ⟨a, ha, opened⟩ := h.held job hold t held
      exact ⟨a, List.mem_append_left _ ha, opened⟩

theorem resolves (h : Consistent db) {job : CrawlJob}
    (attempt : Table.affected job.matchesAttempt db.attempts = 1)
    (released : Table.affected job.matchesJob db.jobs = 1) :
    ∃ row ∈ db.jobs, ∃ a ∈ db.attempts, row.id = job.id ∧ row.leaseToken = some job.leaseToken ∧
      a.id = job.attemptId ∧ a.leaseToken = job.leaseToken ∧ a.jobId = job.id ∧
      a.status = .leased := by
  obtain ⟨a, ha, matched⟩ := Table.affected_pos.mp (attempt ▸ Nat.one_pos)
  obtain ⟨row, hrow, selected⟩ := Table.affected_pos.mp (released ▸ Nat.one_pos)
  obtain ⟨attemptId, token, opened⟩ := CrawlJob.matchesAttempt_iff.mp matched
  obtain ⟨jobId, held⟩ := CrawlJob.matchesJob_iff.mp selected
  have owner := h.holder hrow ha (by rw [held, token])
  exact ⟨row, hrow, a, ha, jobId, held, attemptId, token, owner.1.trans jobId, opened⟩

theorem resolved (h : Consistent db) {r : Resolution} (lawful : r.Lawful) {job : CrawlJob}
    (attempt : Table.affected job.matchesAttempt db.attempts = 1)
    (released : Table.affected job.matchesJob db.jobs = 1) :
    Consistent (Runtime.resolved r job db) := by
  obtain ⟨row, hrow, a, ha, rowId, rowToken, _, aToken, _, _⟩ := h.resolves attempt released
  refine h.rewrite lawful.jobIdentity lawful.attemptIdentity ?_ ?_ ?_
  · intro x hx selected
    have held := (CrawlJob.matchesJob_iff.mp selected).2
    exact lawful.sound x (h.jobs x hx) ((h.jobs x hx).spare _ held)
  · exact fun x _ _ => (lawful.closes x).2
  · intro x hx t held
    rcases Table.mem_update.mp hx with ⟨old, _, _, rfl⟩ | ⟨hold, skipped⟩
    · rw [(lawful.frees old).1] at held
      cases held
    · obtain ⟨b, hb, owner, token, opened⟩ := h.held x hold t held
      refine ⟨b, Table.mem_update_of_skipped _ hb ?_, owner, token, opened⟩
      -- a second job with the released token would share its receipt, hence be the same row
      by_contra selected
      rw [Bool.not_eq_false, CrawlJob.matchesAttempt_iff] at selected
      have first := h.holder hrow hb (by rw [rowToken, selected.2.1])
      have same := h.same_job hold hrow (owner.symm.trans first.1)
      rw [same, CrawlJob.matchesJob_iff.mpr ⟨rowId, rowToken⟩] at skipped
      cases skipped

theorem mem_expiredJobs {now : Timestamp} {job : JobRow} :
    job ∈ expiredJobs now db ↔ job ∈ db.jobs ∧ (∃ t, job.leaseToken = some t) ∧ job.expired now = true := by
  rw [expiredJobs, List.mem_filter, JobRow.lapsed_iff]

theorem abandons_iff {now : Timestamp} {a : AttemptRow} :
    abandons now db a = true ↔ a.status = .leased ∧
      ∃ job ∈ db.jobs, job.id = a.jobId ∧ job.leaseToken = some a.leaseToken ∧
        job.expired now = true := by
  simp only [abandons, List.any_eq_true, mem_expiredJobs, Bool.and_eq_true, beq_iff_eq]
  constructor
  · rintro ⟨job, ⟨member, _, expired⟩, ⟨owner, token⟩, opened⟩
    exact ⟨opened, job, member, owner.symm, token.symm, expired⟩
  · rintro ⟨opened, job, member, owner, token, expired⟩
    exact ⟨job, ⟨member, ⟨_, token⟩, expired⟩, ⟨owner.symm, token.symm⟩, opened⟩

/-- The job UPDATE is driven by the receipts it abandons, and reaches every expired lease. -/
theorem reaps_iff (h : Consistent db) {now : Timestamp} {job : JobRow} (member : job ∈ db.jobs) :
    reaps now db job = true ↔ (∃ t, job.leaseToken = some t) ∧ job.expired now = true := by
  simp only [reaps, abandoned, List.any_eq_true, List.mem_map, List.mem_filter, Bool.and_eq_true,
    beq_iff_eq]
  constructor
  · rintro ⟨_, ⟨a, ⟨ha, abandoned⟩, rfl⟩, owner, token⟩
    obtain ⟨_, row, hrow, same, held, expired⟩ := abandons_iff.mp abandoned
    rw [h.same_job member hrow (owner.trans same.symm)]
    exact ⟨⟨_, held⟩, expired⟩
  · rintro ⟨⟨t, token⟩, expired⟩
    obtain ⟨a, ha, owner, same, opened⟩ := h.held job member t token
    refine ⟨_, ⟨a, ⟨ha, abandons_iff.mpr ⟨opened, job, member, owner.symm, ?_, expired⟩⟩, rfl⟩,
      owner.symm, ?_⟩
    · rw [token, same]
    · rw [token, same]

theorem reaped (h : Consistent db) (now : Timestamp) : Consistent (Runtime.reaped now db) := by
  refine h.rewrite (fun _ => rfl) (fun _ => rfl) ?_ (fun _ _ _ => rfl) ?_
  · intro job member selected
    obtain ⟨⟨t, token⟩, _⟩ := (h.reaps_iff member).mp selected
    exact JobRow.reap_sound now (h.jobs job member) ((h.jobs job member).spare t token)
  · intro job member t held
    rcases Table.mem_update.mp member with ⟨old, _, _, rfl⟩ | ⟨hold, skipped⟩
    · cases held
    · obtain ⟨a, ha, owner, token, opened⟩ := h.held job hold t held
      refine ⟨a, Table.mem_update_of_skipped _ ha ?_, owner, token, opened⟩
      by_contra selected
      rw [Bool.not_eq_false] at selected
      obtain ⟨_, row, hrow, same, _, expired⟩ := abandons_iff.mp selected
      rw [h.same_job hrow hold (same.trans owner)] at expired
      rw [(h.reaps_iff hold).mpr ⟨⟨t, held⟩, expired⟩] at skipped
      cases skipped

theorem effect (h : Consistent db) {now : Timestamp} {op : Op} {result : Except Error Reply}
    {db' : Database} (did : Effect now db op result db') (fresh : op.Fresh db) : Consistent db' := by
  cases did with
  | refused => exact h
  | inserted _ _ _ _ _ _ _ _ admissible keys ids =>
    exact h.inserted (JobRow.newJob_sound admissible) rfl keys ids
  | reseeded _ _ _ _ _ _ _ enabled _ interval budget =>
    exact h.reseeded enabled now interval budget
  | idle => exact h
  | leased owner leaseSeconds token attemptId _ candidate found _ =>
    obtain ⟨member, ready⟩ := candidate_leasable found
    obtain ⟨_, _, spare, _⟩ := JobRow.leasable_iff.mp ready
    exact h.leased member spare token attemptId owner leaseSeconds now fresh.1 fresh.2
  | completed _ output apiReceipt attempt released =>
    exact h.resolved (completion_lawful output apiReceipt now) attempt released
  | failed job errorCode details attempt released =>
    exact h.resolved (failure_lawful job errorCode details now) attempt released
  | reaped => exact h.reaped now

end Consistent

theorem step_consistent (crate : UrlCrate) (s : System) (e : Event) (h : Consistent s.db)
    (admits : Admits s e) : Consistent (step crate s e).db :=
  h.effect (step_effect crate s e) admits.2

theorem run_consistent {crate : UrlCrate} {s : System} {es : List Event} (h : Consistent s.db)
    (admissible : Admissible crate s es) : Consistent (run crate s es).db :=
  Runs.run_invariant (P := fun s => Consistent s.db) (step_consistent crate) h admissible

theorem reachable_consistent {crate : UrlCrate} {clock : Timestamp} {es : List Event}
    (admissible : Admissible crate (.start clock) es) :
    Consistent (run crate (.start clock) es).db := run_consistent migrated_consistent admissible

end EalSync.Runtime
