import EalSync.Runtime.JobView
import EalSync.Runtime.LocalHost
import EalSync.Runtime.Progress

/-! What attempt_count counts. The journal of a run holds every receipt as it was closed, in the
order of the commits; the count of a job is the number of failures in it since the last success. -/
namespace EalSync.Runtime

/-- The receipts that a transaction closed. -/
def closed (db db' : Database) : List AttemptRow :=
  db'.attempts.filter fun a =>
    a.status != .leased && db.attempts.any fun b => b.id == a.id && b.status == .leased

def journal (crate : UrlCrate) (s : System) (es : List Event) : List AttemptRow :=
  (Runs.run (Runs.logged (step crate) fun s e => closed s.db (step crate s e).db) (s, []) es).2

/-- The receipts of a job that failed or were abandoned after its last success. -/
def failures (jobId : Uuid) (closedReceipts : List AttemptRow) : List AttemptRow :=
  ((closedReceipts.filter fun a => a.jobId == jobId).reverse.takeWhile
    fun a => a.status != .succeeded).filter fun a => a.status == .failed || a.status == .abandoned

theorem failures_append {jobId : Uuid} {past new : List AttemptRow} :
    failures jobId (past ++ new) =
      (((new.filter fun a => a.jobId == jobId).reverse ++
        (past.filter fun a => a.jobId == jobId).reverse).takeWhile
        fun a => a.status != .succeeded).filter fun a => a.status == .failed || a.status == .abandoned := by
  rw [failures, List.filter_append, List.reverse_append]

theorem failures_other {jobId : Uuid} {past new : List AttemptRow}
    (none : (new.filter fun a => a.jobId == jobId) = []) :
    failures jobId (past ++ new) = failures jobId past := by
  rw [failures_append, none]
  rfl

theorem failures_success {jobId : Uuid} {past new : List AttemptRow} {a : AttemptRow}
    (one : (new.filter fun a => a.jobId == jobId) = [a]) (success : a.status = .succeeded) :
    failures jobId (past ++ new) = [] := by
  rw [failures_append, one]
  simp [success]

theorem failures_failure {jobId : Uuid} {past new : List AttemptRow} {a : AttemptRow}
    (one : (new.filter fun a => a.jobId == jobId) = [a])
    (failure : a.status = .failed ∨ a.status = .abandoned) :
    failures jobId (past ++ new) = a :: failures jobId past := by
  rw [failures_append, one]
  rcases failure with status | status <;> simp [status, failures]

theorem closed_unchanged {db db' : Database} (h : Consistent db) (same : db'.attempts = db.attempts) :
    closed db db' = [] := by
  rw [closed, same, List.filter_eq_nil_iff]
  intro a ha
  simp only [Bool.and_eq_true, bne_iff_ne, List.any_eq_true, beq_iff_eq, not_and, not_exists]
  intro shut b hb same
  rw [Table.unique_row h.attemptIds hb ha same]
  exact shut

theorem closed_none {db db' : Database} (h : Consistent db) (same : db'.attempts = db.attempts)
    (jobId : Uuid) : ((closed db db').filter fun a => a.jobId == jobId) = [] := by
  rw [closed_unchanged h same, List.filter_nil]

theorem closed_update {db : Database} (h : Consistent db) {jobs : List JobRow}
    {q : AttemptRow → Bool} {g : AttemptRow → AttemptRow}
    (opened : ∀ a ∈ db.attempts, q a = true → a.status = .leased)
    (closes : ∀ a, (g a).status ≠ .leased) (keeps : ∀ a, (g a).id = a.id) :
    closed db ⟨jobs, Table.update q g db.attempts⟩ = (db.attempts.filter q).map g := by
  have chosen : ∀ a ∈ db.attempts,
      (((if q a then g a else a).status != .leased && db.attempts.any fun b =>
        b.id == (if q a then g a else a).id && b.status == .leased) : Bool) = q a := by
    intro a ha
    by_cases selected : q a = true
    · simp only [selected, if_true, keeps, Bool.and_eq_true, bne_iff_ne, ne_eq, closes,
        not_false_eq_true, List.any_eq_true, beq_iff_eq, true_and]
      exact ⟨a, ha, rfl, opened a ha selected⟩
    · have shut := closed_unchanged h (rfl : db.attempts = db.attempts)
      rw [closed, List.filter_eq_nil_iff] at shut
      simp only [selected, Bool.false_eq_true, if_false]
      simpa using shut a ha
  rw [closed, Table.update, List.filter_map, List.filter_congr (by simpa using chosen)]
  refine List.map_congr_left fun a ha => ?_
  rw [if_pos (List.mem_filter.mp ha).2]

/-- What a transaction closes for one job, and what it does to its count. -/
inductive CountEffect (closedHere : List AttemptRow) : Option JobRow → Option JobRow → Prop where
  | kept (row row' : Option JobRow) : closedHere = [] →
      row'.map JobRow.attemptCount = row.map JobRow.attemptCount → CountEffect closedHere row row'
  | inserted (row' : JobRow) : closedHere = [] → row'.attemptCount = 0 →
      CountEffect closedHere none (some row')
  | succeeded (a : AttemptRow) (row row' : JobRow) : closedHere = [a] → a.status = .succeeded →
      row'.attemptCount = 0 → CountEffect closedHere (some row) (some row')
  | counted (a : AttemptRow) (row row' : JobRow) : closedHere = [a] →
      a.status = .failed ∨ a.status = .abandoned → row'.attemptCount = row.attemptCount + 1 →
      CountEffect closedHere (some row) (some row')

theorem closed_resolved {db : Database} (h : Consistent db) {r : Resolution} (lawful : r.Lawful)
    {job : CrawlJob} (attempt : Table.affected job.matchesAttempt db.attempts = 1)
    (released : Table.affected job.matchesJob db.jobs = 1) :
    ∃ a, a.jobId = job.id ∧ closed db (resolved r job db) = [r.setAttempt a] := by
  obtain ⟨_, _, a, ha, _, _, attemptId, token, owner, opened⟩ := h.resolves attempt released
  refine ⟨a, owner, ?_⟩
  rw [resolved, closed_update h (fun b _ matched => (CrawlJob.matchesAttempt_iff.mp matched).2.2)
    (fun b => (lawful.closes b).1) (fun b => (AttemptRow.identity_eq (lawful.attemptIdentity b)).1),
    Table.filter_eq_singleton h.attemptIds ha (CrawlJob.matchesAttempt_iff.mpr ⟨attemptId, token, opened⟩)]
  · rfl
  · intro b _ matched
    rw [(CrawlJob.matchesAttempt_iff.mp matched).1, attemptId]

theorem closed_granted {db : Database} (h : Consistent db) (owner : Str) (leaseSeconds : Int)
    (token attemptId : Uuid) (now : Timestamp) (candidate : JobRow) :
    closed db (granted owner leaseSeconds token attemptId now candidate db) = [] := by
  have before := closed_unchanged h (rfl : db.attempts = db.attempts)
  rw [closed] at before
  rw [closed, granted, List.filter_append, before]
  rfl

theorem count_resolved {db : Database} (h : Consistent db) {r : Resolution} (lawful : r.Lawful)
    {job : CrawlJob} (attempt : Table.affected job.matchesAttempt db.attempts = 1)
    (released : Table.affected job.matchesJob db.jobs = 1) (jobId : Uuid)
    (own : ∀ a row, CountEffect [r.setAttempt a] (some row) (some (r.setJob row))) :
    CountEffect ((closed db (resolved r job db)).filter fun a => a.jobId == jobId)
      (jobRow jobId db) (jobRow jobId (resolved r job db)) := by
  obtain ⟨a, owner, one⟩ := closed_resolved h lawful attempt released
  have sameJob := (AttemptRow.identity_eq (lawful.attemptIdentity a)).2.1
  rw [one]
  rcases jobRow_resolved h lawful attempt released jobId with ⟨mine, row, found, _, after⟩ | ⟨other, same⟩
  · rw [found, after, List.filter_singleton, sameJob, owner, mine, beq_self_eq_true, cond_true]
    exact own a row
  · rw [same]
    refine .kept _ _ ?_ rfl
    rw [List.filter_singleton, sameJob, owner, beq_eq_false_iff_ne.mpr other, cond_false]

theorem count_reaped {db : Database} (h : Consistent db) (now : Timestamp) (jobId : Uuid) :
    CountEffect ((closed db (reaped now db)).filter fun a => a.jobId == jobId)
      (jobRow jobId db) (jobRow jobId (reaped now db)) := by
  have marks : closed db (reaped now db) = (db.attempts.filter (abandons now db)).map (abandon now) :=
    closed_update h (fun a _ selected => (Consistent.abandons_iff.mp selected).1)
      (by simp [abandon]) (fun _ => rfl)
  rw [marks, List.filter_map, List.filter_filter]
  rcases jobRow_update (p := reaps now db) (reap_id now) jobId db
    (Table.update (abandons now db) (abandon now) db.attempts) with
    ⟨row, found, selected, after⟩ | ⟨skipped, same⟩
  · obtain ⟨member, owned⟩ := jobRow_mem found
    obtain ⟨⟨t, held⟩, expired⟩ := (h.reaps_iff member).mp selected
    obtain ⟨a, ha, owner, token, opened⟩ := h.held row member t held
    have mine : abandons now db a = true :=
      Consistent.abandons_iff.mpr ⟨opened, row, member, owner.symm, by rw [held, token], expired⟩
    rw [found, reaped, after, Table.filter_eq_singleton h.tokens ha]
    · exact .counted (abandon now a) row _ rfl (.inr rfl) rfl
    · simp [mine, abandon, owner, owned]
    · -- only the receipt of the lease that the row holds
      intro b _ both
      obtain ⟨ofJob, abandoned⟩ := (Bool.and_eq_true _ _).mp both
      obtain ⟨_, row', member', same, held', _⟩ := Consistent.abandons_iff.mp abandoned
      have sameId : row'.id = row.id := same.trans ((beq_iff_eq.mp ofJob).trans owned.symm)
      rw [h.same_job member' member sameId, held] at held'
      rw [token, Option.some.inj held']
  · rw [reaped, same]
    refine .kept _ _ ?_ rfl
    rw [List.map_eq_nil_iff, List.filter_eq_nil_iff]
    rintro b _ both
    obtain ⟨ofJob, abandoned⟩ := (Bool.and_eq_true _ _).mp both
    obtain ⟨_, row, member, sameId, held, expired⟩ := Consistent.abandons_iff.mp abandoned
    have found := jobRow_of_mem h member
    have mine : b.jobId = jobId := beq_iff_eq.mp ofJob
    rw [sameId, mine] at found
    have unreaped := skipped row found
    rw [(h.reaps_iff member).mpr ⟨⟨_, held⟩, expired⟩] at unreaped
    cases unreaped

theorem effect_count {db db' : Database} (h : Consistent db) {now : Timestamp} {op : Op}
    {result : Except Error Reply} (did : Effect now db op result db') (jobId : Uuid) :
    CountEffect ((closed db db').filter fun a => a.jobId == jobId) (jobRow jobId db)
      (jobRow jobId db') := by
  cases did with
  | refused => exact .kept _ _ (closed_none h rfl jobId) rfl
  | inserted tenantId sourceId id startUrl url intervalSeconds maxAttempts enabled admissible _ ids =>
    rcases jobRow_insert jobId
      (newJob id tenantId sourceId url intervalSeconds maxAttempts enabled now) ids with
      ⟨rfl, absent, found⟩ | same
    · rw [absent, found]
      exact .inserted _ (closed_none h rfl id) rfl
    · rw [same]
      exact .kept _ _ (closed_none h rfl jobId) rfl
  | reseeded tenantId sourceId id startUrl url intervalSeconds maxAttempts enabled =>
    refine .kept _ _ (closed_none h rfl jobId) ?_
    rcases jobRow_update (p := fun job => job.key == (tenantId, sourceId, url))
      (reseed_id intervalSeconds maxAttempts enabled now) jobId db db.attempts with
      ⟨row, found, _, after⟩ | ⟨_, same⟩
    · rw [found, after]
      rfl
    · rw [same]
  | idle => exact .kept _ _ (closed_none h rfl jobId) rfl
  | leased owner leaseSeconds token attemptId locked candidate =>
    refine .kept _ _ (by rw [closed_granted h]; rfl) ?_
    rcases jobRow_update (p := fun job => job.id == candidate.id)
      (takeLease_id token owner leaseSeconds now) jobId db
      (db.attempts ++ [newAttempt attemptId candidate.id token now]) with
      ⟨row, found, _, after⟩ | ⟨_, same⟩
    · rw [granted, after, found]
      rfl
    · rw [granted, same]
  | completed _ output apiReceipt attempt released =>
    exact count_resolved h (completion_lawful output apiReceipt now) attempt released jobId
      fun a row => .succeeded _ row _ rfl rfl rfl
  | failed job errorCode details attempt released =>
    exact count_resolved h (failure_lawful job errorCode details now) attempt released jobId
      fun a row => .counted _ row _ rfl (.inl rfl) rfl
  | reaped => exact count_reaped h now jobId

/-- The count of every job, with zero for a job that does not exist. -/
def Counts (db : Database) (past : List AttemptRow) : Prop :=
  ∀ jobId, (jobRow jobId db).elim 0 JobRow.attemptCount = (failures jobId past).length

theorem effect_counts {db db' : Database} (h : Consistent db) {now : Timestamp} {op : Op}
    {result : Except Error Reply} (did : Effect now db op result db') {past : List AttemptRow}
    (counts : Counts db past) : Counts db' (past ++ closed db db') := by
  intro jobId
  have before := counts jobId
  have did := effect_count h did jobId
  generalize jobRow jobId db = row at before did
  generalize jobRow jobId db' = row' at did
  cases did with
  | kept row row' none same =>
    rw [failures_other none, ← before]
    cases row <;> cases row' <;> simp_all
  | inserted row' none zero =>
    rw [failures_other none, ← before]
    exact zero
  | succeeded a row row' one success zero =>
    rw [failures_success one success]
    exact zero
  | counted a row row' one failure more =>
    rw [failures_failure one failure, List.length_cons]
    simp only [Option.elim_some] at before ⊢
    omega

theorem journal_counts {crate : UrlCrate} {clock : Timestamp} {es : List Event}
    (admissible : Admissible crate (.start clock) es) :
    Counts (run crate (.start clock) es).db (journal crate (.start clock) es) := by
  have logged : Runs.Admissible (Runs.logged (step crate) fun s e => closed s.db (step crate s e).db)
      (fun x e => Admits x.1 e) (.start clock, []) es :=
    (Runs.admissible_logged (step crate) _ _ es).mpr admissible
  have both := Runs.run_invariant (P := fun x => Consistent x.1.db ∧ Counts x.1.db x.2)
    (fun x e h admits => ⟨step_consistent crate x.1 e h.1 admits,
      effect_counts h.1 (step_effect crate x.1 e) h.2⟩)
    ⟨migrated_consistent, fun _ => rfl⟩ logged
  have inner := Runs.run_logged (step crate) (fun s e => closed s.db (step crate s e).db)
    (System.start clock, []) es
  rw [run, ← inner]
  exact both.2

/-- The contexts of the statements: an operation reports one of them exactly when a constraint of
the schema refuses the statement, or jsonb a value that it writes. -/
def statementContexts : List String :=
  ["seed crawl job", "lease next crawl job", "record crawl lease attempt", "complete crawl attempt",
    "release successful crawl job", "fail crawl attempt", "release failed crawl job",
    "reap expired crawl leases"]

theorem jsonbContexts_subset : jsonbContexts ⊆ statementContexts := by decide

theorem asStr_https {url : Url} (https : url.scheme = "https".toList) {host : Host}
    (found : url.host = some host) : Str.startsWith "https://".toList url.asStr = true := by
  rw [Str.startsWith_iff, Url.asStr, https, Url.hostStr, found]
  simp

theorem newJob_admissible {id tenantId sourceId : Uuid} {url : Str} {intervalSeconds maxAttempts : Int}
    {enabled : Bool} {now : Timestamp} (https : Str.startsWith "https://".toList url = true)
    (interval : 60 ≤ intervalSeconds ∧ intervalSeconds ≤ 2592000)
    (budget : 1 ≤ maxAttempts ∧ maxAttempts ≤ 100) :
    (newJob id tenantId sourceId url intervalSeconds maxAttempts enabled now).admissible = true := by
  have sound : (newJob id tenantId sourceId url intervalSeconds maxAttempts enabled now).Sound :=
    ⟨https, interval, ⟨by simp [newJob], by simp [newJob]⟩, budget, .inl ⟨rfl, rfl, rfl⟩, by simp [newJob]⟩
  exact sound.admissible

theorem upsertJob_eq {db : Database} (h : Consistent db) {context : String} {row : JobRow}
    {intervalSeconds maxAttempts : Int} {enabled : Bool} {now : Timestamp}
    (admissible : row.admissible = true) (fresh : ∀ job ∈ db.jobs, job.id ≠ row.id)
    (interval : 60 ≤ intervalSeconds ∧ intervalSeconds ≤ 2592000)
    (budget : 1 ≤ maxAttempts ∧ maxAttempts ≤ 100) :
    ∃ result, upsertJob context row (reseed intervalSeconds maxAttempts enabled now) db = .ok result := by
  unfold upsertJob
  rw [admissible, Bool.not_true, if_neg Bool.false_ne_true]
  split
  · have updated : updateJobs context (fun job => job.key == row.key)
        (reseed intervalSeconds maxAttempts enabled now) db = .ok (_, _) :=
      updateJobs_eq fun job member _ =>
        (JobRow.reseed_sound enabled now interval budget (h.jobs job member)).admissible
    rw [updated]
    exact ⟨_, rfl⟩
  · have unique : (db.jobs.any fun job => job.id == row.id) = false := by simpa using fresh
    rw [unique, if_neg Bool.false_ne_true]
    exact ⟨_, rfl⟩

theorem validatePublicHttpsUrl_error {crate : UrlCrate} {value : Str} {e : Error}
    (failed : validatePublicHttpsUrl crate value = .error e) : e.message ∉ statementContexts := by
  unfold validatePublicHttpsUrl at failed
  split at failed
  · cases failed
    decide
  · split at failed
    · cases failed
      decide
    · split at failed
      · cases failed
        decide
      · split at failed
        · cases failed
          decide
        · split at failed
          · cases failed
            decide
          · cases failed

theorem seed_unrefused {crate : UrlCrate} {db : Database} (h : Consistent db)
    {tenantId sourceId id : Uuid} {startUrl : Str} {intervalSeconds maxAttempts : Int}
    {enabled : Bool} {now : Timestamp} (fresh : ∀ job ∈ db.jobs, job.id ≠ id) {e : Error}
    (failed : (seed crate tenantId sourceId startUrl intervalSeconds maxAttempts enabled id now db).1 =
      .error e) : e.message ∉ statementContexts := by
  unfold seed at failed
  split at failed
  · rename_i invalid
    cases failed
    exact validatePublicHttpsUrl_error invalid
  · rename_i url valid
    split at failed
    · cases failed
      decide
    · rename_i interval
      split at failed
      · cases failed
        decide
      · rename_i budget
        obtain ⟨_, plain, host, found, _⟩ := validatePublicHttpsUrl_ok.mp valid
        have interval := not_not.mp interval
        have budget := not_not.mp budget
        have admissible : (newJob id tenantId sourceId url.asStr intervalSeconds maxAttempts enabled
            now).admissible = true :=
          newJob_admissible (asStr_https plain.scheme found) interval budget
        obtain ⟨result, ok⟩ := @upsertJob_eq db h "seed crawl job" _ intervalSeconds maxAttempts enabled
          now admissible fresh interval budget
        rw [ok] at failed
        cases failed

theorem resolve_unrefused {db : Database} (h : Consistent db) {r : Resolution} (lawful : r.Lawful)
    {job : CrawlJob} {e : Error} (failed : (resolve r job db).1 = .error e) :
    e.message = r.lost.1 ∨ e.message = r.lost.2 := by
  have first : updateAttempts r.attemptContext job.matchesAttempt r.setAttempt db = .ok (_, _) :=
    updateAttempts_eq fun a _ _ => (lawful.closes a).2
  by_cases attempt : Table.affected job.matchesAttempt db.attempts = 1
  · refine .inr ?_
    have checked : ∀ row ∈ db.jobs, job.matchesJob row = true → (r.setJob row).admissible = true :=
      fun row hrow selected => (lawful.sound row (h.jobs row hrow)
        ((h.jobs row hrow).spare _ (CrawlJob.matchesJob_iff.mp selected).2)).admissible
    have second : updateJobs r.jobContext job.matchesJob r.setJob
        { db with attempts := Table.update job.matchesAttempt r.setAttempt db.attempts } =
        .ok (_, _) := updateJobs_eq checked
    have unreleased : Table.affected job.matchesJob db.jobs ≠ 1 := by
      intro released
      rw [h.resolve_eq lawful attempt released] at failed
      cases failed
    simp only [resolve, resolveAttempt_eq lawful attempt, releaseJob, second, bind, Except.bind,
      transaction] at failed
    rw [if_pos unreleased] at failed
    cases failed
    rfl
  · refine .inl ?_
    simp only [resolve, resolveAttempt, first, bind, Except.bind, transaction] at failed
    rw [if_pos attempt] at failed
    cases failed
    rfl

theorem reply_error {α : Type} {f : α → Reply} {x : Except Error α × Database} {e : Error}
    (failed : (reply f x).1 = .error e) : x.1 = .error e := by
  obtain ⟨result, db⟩ := x
  cases result with
  | error e' => exact congrArg Except.error (Except.error.inj failed)
  | ok value => cases failed

theorem lease_unrefused {db : Database} (h : Consistent db) {owner : Str} {leaseSeconds : Int}
    {token attemptId : Uuid} {locked : List Uuid} {now : Timestamp}
    (fresh : (Op.lease owner leaseSeconds token attemptId locked).Fresh db) {e : Error}
    (failed : (lease owner leaseSeconds token attemptId locked now db).1 = .error e) :
    e.message ∉ statementContexts := by
  by_cases accepts : LeaseAccepts owner leaseSeconds
  · cases found : leaseCandidate now locked db with
    | some candidate =>
      rw [h.lease_eq accepts fresh found] at failed
      cases failed
    | none =>
      unfold lease at failed
      have checked : ((Str.trim owner).isEmpty || decide (Str.len owner > 200)) = false := by
        simp [accepts.1.1, accepts.1.2]
      rw [checked, if_neg Bool.false_ne_true, if_neg (not_not.mpr accepts.2), found] at failed
      cases failed
  · unfold lease at failed
    split at failed
    · cases failed
      decide
    · rename_i named
      split at failed
      · cases failed
        decide
      · rename_i range
        exact absurd ⟨by simpa using named, not_not.mp range⟩ accepts

theorem answer_unrefused {crate : UrlCrate} {s : System} (h : Consistent s.db) {e : Event}
    (admits : Admits s e) (stored : e.op.storable = true) {error : Error}
    (failed : answer crate s e = .error error) : error.message ∉ statementContexts := by
  obtain ⟨now, op⟩ := e
  cases op with
  | seed => exact seed_unrefused h admits.2 (reply_error failed)
  | lease => exact lease_unrefused h admits.2 (reply_error failed)
  | complete job output apiReceipt =>
    rw [answer, exec_complete crate now s.db job stored] at failed
    rcases resolve_unrefused h (completion_lawful output apiReceipt now) (reply_error failed) with
      lost | lost <;>
    · rw [lost]
      simp only [completion]
      decide
  | fail job errorCode details =>
    rw [answer, exec_fail crate now s.db job stored] at failed
    rcases resolve_unrefused h (failure_lawful job errorCode details now) (reply_error failed) with
      lost | lost <;>
    · rw [lost]
      simp only [failure]
      decide
  | reapExpired =>
    have failed := reply_error failed
    rw [h.reapExpired_eq now] at failed
    cases failed

/-- What a reachable state says of attempt_count and of the constraints: a statement of the next operation
is refused for a value that jsonb does not take, and for nothing else. -/
structure AttemptsCounted (crate : UrlCrate) (clock : Timestamp) (es : List Event) : Prop where
  counts : ∀ job ∈ (run crate (.start clock) es).db.jobs,
    job.attemptCount = (failures job.id (journal crate (.start clock) es)).length
  bounded : ∀ job ∈ (run crate (.start clock) es).db.jobs, job.attemptCount ≤ 100 ∧
    ∀ t, job.leaseToken = some t → job.attemptCount ≤ 99
  constraints : Consistent (run crate (.start clock) es).db
  unrefused : ∀ e, Admits (run crate (.start clock) es) e →
    ((∃ error, answer crate (run crate (.start clock) es) e = .error error ∧
      error.message ∈ statementContexts) ↔ e.op.storable = false)

theorem attempt_count_accounted (crate : UrlCrate) (clock : Timestamp) (es : List Event)
    (admissible : Admissible crate (.start clock) es) : AttemptsCounted crate clock es where
  counts job member := by
    have counts := journal_counts admissible job.id
    rwa [jobRow_of_mem (reachable_consistent admissible) member, Option.elim_some] at counts
  bounded job member := by
    have sound := (reachable_consistent admissible).jobs job member
    refine ⟨sound.counted.2, fun t held => ?_⟩
    have spare := sound.spare t held
    omega
  constraints := reachable_consistent admissible
  unrefused e admits := by
    constructor
    · rintro ⟨error, failed, named⟩
      by_contra stored
      exact answer_unrefused (reachable_consistent admissible) admits (by simpa using stored) failed named
    · intro refused
      obtain ⟨error, failed, named⟩ := exec_unstorable refused crate e.now (run crate (.start clock) es).db
      exact ⟨error, by rw [answer, failed], jsonbContexts_subset named⟩

/-- A lease abandoned, one that failed, and a budget raised by a seed before the second. -/
theorem attempt_count_accounted_raised : AttemptsCounted releasesCrate 0
    [seedReleases 0 10, leaseReleases 1 20 30, ⟨seconds 32, .reapExpired⟩,
      ⟨seconds 40, .seed 1 2 "https://docs.example.com/releases".toList 3600 3 true 11⟩,
      leaseReleases 100 21 31, ⟨seconds 101, .fail (releasesJob 21 31) "timeout".toList .null⟩] :=
  attempt_count_accounted releasesCrate 0 _ (by decide)

end EalSync.Runtime
