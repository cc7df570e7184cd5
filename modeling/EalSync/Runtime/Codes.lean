import EalSync.Runtime.AttemptView
import EalSync.Runtime.Provenance

/-! What a failure is called. The codes of runner.rs and api.rs go through fail unchanged, and a receipt
names its failure as its details do. -/
namespace EalSync.Runtime.Worker.Provenance

/-- The codes of CrawlRunError. -/
def crawlCodes : List Str :=
  ["crawl_command_invalid".toList, "crawl_request_encode".toList, "crawl_command_spawn".toList,
    "crawl_command_stdin".toList, "crawl_command_stdout".toList, "crawl_command_stderr".toList,
    "crawl_command_timeout".toList, "crawl_command_wait".toList, "crawl_command_stdout_limit".toList,
    "crawl_command_stderr_limit".toList, "crawl_command_exit".toList, "crawl_command_protocol".toList]

/-- The codes of IngestApiError. -/
def apiCodes : List Str :=
  ["api_configuration".toList, "api_transport".toList, "api_response".toList]

def expiredCode : Str := "lease_expired".toList

/-- A diagnostic with this code and a bounded message. -/
structure Explains (code : Str) (details : Json) : Prop where
  code : details.get "error_code".toList = some (.string code)
  message : ∃ message, details.get "message".toList = some (.string message) ∧ message.length ≤ 500

/-- A failure that a worker may hand to fail. -/
structure Failure (errorCode : Str) (details : Json) : Prop where
  named : errorCode ∈ crawlCodes ++ apiCodes
  explained : Explains errorCode details

theorem sanitizeCode_named {errorCode : Str} (named : errorCode ∈ crawlCodes ++ apiCodes) :
    sanitizeCode errorCode = errorCode := by
  have each : ∀ errorCode ∈ crawlCodes ++ apiCodes, sanitizeCode errorCode = errorCode := by decide
  exact each errorCode named

theorem readEnvelope_code {crate : UrlCrate} {uuids : UuidCrate} {serde : EnvelopeCrate}
    {job : CrawlJob} {stdout : List UInt8} {e : CrawlRunError}
    (failed : readEnvelope crate uuids serde job stdout = .error e) :
    e.code = "crawl_command_protocol".toList := by
  unfold readEnvelope at failed
  split at failed
  · exact Except.error.inj failed ▸ rfl
  · obtain ⟨_, same⟩ := Checks.mapError_error failed
    exact same ▸ rfl

theorem readResult_code {crate : UrlCrate} {uuids : UuidCrate} {serde : EnvelopeCrate}
    {config : CrawlCommandConfig} {job : CrawlJob} {stdout stderr : List UInt8} {status : ExitStatus}
    {e : CrawlRunError}
    (failed : readResult crate uuids serde config job stdout stderr status = .error e) :
    e.code ∈ crawlCodes := by
  unfold readResult at failed
  rcases Checks.check_error failed with rfl | failed
  · decide
  · rcases Checks.check_error failed with rfl | failed
    · decide
    · rcases Checks.check_error failed with rfl | failed
      · show "crawl_command_exit".toList ∈ crawlCodes
        decide
      · rw [readEnvelope_code failed]
        decide

theorem runCrawlCommand_code {crate : UrlCrate} {uuids : UuidCrate} {serde : EnvelopeCrate}
    {config : CrawlCommandConfig} {job : CrawlJob} {outcome : CommandOutcome} {e : CrawlRunError}
    (failed : runCrawlCommand crate uuids serde config job outcome = .error e) :
    e.code ∈ crawlCodes := by
  have fixed : ∀ (code : String) (message : Str), code.toList ∈ crawlCodes →
      (Except.error ⟨code.toList, message⟩ : Except CrawlRunError CrawlCommandOutput) = .error e →
      e.code ∈ crawlCodes :=
    fun _ _ known same => Except.error.inj same ▸ known
  unfold runCrawlCommand at failed
  rcases Checks.check_error failed with rfl | failed
  · decide
  · split at failed
    case h_11 => exact readResult_code failed
    all_goals exact fixed _ _ (by decide) failed

theorem configuration_code (message : Str) : (IngestApiError.configuration message).code ∈ apiCodes :=
  List.mem_cons_self

theorem transport_code (message : Str) : (IngestApiError.transport message).code ∈ apiCodes :=
  List.mem_cons_of_mem _ List.mem_cons_self

theorem response_code (status : Nat) (message : Str) :
    (IngestApiError.response status message).code ∈ apiCodes :=
  List.mem_cons_of_mem _ (List.mem_cons_of_mem _ List.mem_cons_self)

theorem readChunks_code {status limit : Nat} {bytes : List UInt8}
    {chunks : List (Except Str (List UInt8))} {e : IngestApiError}
    (failed : IngestApiClient.readChunks status limit bytes chunks = .error e) : e.code ∈ apiCodes := by
  induction chunks generalizing bytes with
  | nil =>
    rw [IngestApiClient.readChunks] at failed
    cases failed
  | cons chunk rest ih =>
    cases chunk with
    | error text =>
      rw [IngestApiClient.readChunks] at failed
      exact Except.error.inj failed ▸ transport_code text
    | ok part =>
      rw [IngestApiClient.readChunks] at failed
      rcases Checks.check_error failed with rfl | failed
      · exact response_code status _
      · exact ih failed

theorem bodyValue_code {serde : SerdeJson} {status : Nat} {bytes : List UInt8} {e : IngestApiError}
    (failed : IngestApiClient.bodyValue serde status bytes = .error e) : e.code ∈ apiCodes := by
  unfold IngestApiClient.bodyValue at failed
  split at failed
  · cases failed
  · obtain ⟨_, same⟩ := Checks.mapError_error failed
    exact same ▸ response_code status _

theorem readResponse_code {serde : SerdeJson} {client : IngestApiClient} {response : ApiResponse}
    {e : IngestApiError} (failed : client.readResponse serde response = .error e) :
    e.code ∈ apiCodes := by
  unfold IngestApiClient.readResponse at failed
  rcases Checks.check_error failed with rfl | failed
  · exact response_code _ _
  · rcases Checks.check_error failed with rfl | failed
    · exact response_code _ _
    · rcases Checks.bind_error failed with unread | ⟨bytes, _, failed⟩
      · exact readChunks_code unread
      · rcases Checks.bind_error failed with undecoded | ⟨value, _, failed⟩
        · exact bodyValue_code undecoded
        · rcases Checks.check_error failed with rfl | failed
          · exact response_code _ _
          · cases failed

theorem ingestPage_code {crate : UrlCrate} {uuids : UuidCrate} {client : IngestApiClient}
    {tenantId sourceId : Uuid} {payload : Json} {serde : SerdeJson} {answer : Except Str ApiResponse}
    {e : IngestApiError}
    (failed : client.ingestPage crate uuids tenantId sourceId payload serde answer = .error e) :
    e.code ∈ apiCodes := by
  unfold IngestApiClient.ingestPage at failed
  rcases Checks.bind_error failed with unbuilt | ⟨_, _, failed⟩
  · unfold IngestApiClient.ingestRequest at unbuilt
    split at unbuilt
    · exact Except.error.inj unbuilt ▸ configuration_code _
    · cases unbuilt
  · rcases Checks.bind_error failed with unanswered | ⟨response, _, failed⟩
    · obtain ⟨_, same⟩ := Checks.mapError_error unanswered
      exact same ▸ transport_code _
    · exact readResponse_code failed

theorem crawl_failure {e : CrawlRunError} (named : e.code ∈ crawlCodes) :
    Failure e.code e.diagnostic where
  named := List.mem_append_left _ named
  explained := ⟨rfl, e.message.take 500, rfl, List.length_take_le 500 _⟩

theorem api_failure {e : IngestApiError} (named : e.code ∈ apiCodes) :
    Failure e.code e.diagnostic where
  named := List.mem_append_right _ named
  explained := ⟨rfl, e.message.take 500, rfl, List.length_take_le 500 _⟩

/-- What the columns of a receipt say of its end. -/
def Told (a : AttemptRow) : Prop :=
  match a.status with
  | .leased | .succeeded => a.errorCode = none
  | .failed => ∃ code, a.errorCode = some code ∧ Failure code a.details
  | .abandoned => a.errorCode = some expiredCode ∧
      a.details = .object [("reason".toList, .string "worker lease expired".toList)]

/-- The tables name known failures only. -/
structure FailuresNamed (db : Database) : Prop where
  attempts : ∀ a ∈ db.attempts, Told a
  jobs : ∀ row ∈ db.jobs, ∀ code, row.lastErrorCode = some code →
    code ∈ expiredCode :: (crawlCodes ++ apiCodes)

/-- An operation that fails a job does so with a failure of a worker. -/
def Explained : Op → Prop
  | .fail _ errorCode details => Failure errorCode details
  | .seed .. | .lease .. | .complete .. | .reapExpired => True

theorem FailuresNamed.effect {now : Timestamp} {db db' : Database} {op : Op} {result : Except Error Reply}
    (h : FailuresNamed db) (did : Effect now db op result db') (explained : Explained op) :
    FailuresNamed db' where
  attempts a member := by
    cases effect_attempt did member with
    | kept _ _ _ old => exact h.attempts a old
    | leased => exact rfl
    | completed job output receipt b old matched =>
      have opened := (CrawlJob.matchesAttempt_iff.mp matched).2.2
      have told := h.attempts b old
      rw [Told, opened] at told
      exact told
    | failed job errorCode details b old matched =>
      refine ⟨errorCode, congrArg some ?_, explained⟩
      exact sanitizeCode_named explained.named
    | abandoned => exact ⟨rfl, rfl⟩
  jobs row member code named := by
    have written : ∀ (p : JobRow → Bool) (f : JobRow → JobRow),
        (∀ job ∈ db.jobs, (f job).lastErrorCode = some code → job.lastErrorCode = some code ∨
          code ∈ expiredCode :: (crawlCodes ++ apiCodes)) →
        row ∈ Table.update p f db.jobs → code ∈ expiredCode :: (crawlCodes ++ apiCodes) := by
      intro p f writes updated
      rcases Table.mem_update.mp updated with ⟨old, inside, _, rfl⟩ | ⟨old, _⟩
      · rcases writes old inside named with same | known
        · exact h.jobs old inside code same
        · exact known
      · exact h.jobs row old code named
    cases did with
    | refused => exact h.jobs row member code named
    | idle => exact h.jobs row member code named
    | inserted =>
      rcases List.mem_append.mp member with old | new
      · exact h.jobs row old code named
      · rw [List.mem_singleton.mp new] at named
        cases named
    | reseeded =>
      refine written _ _ ?_ member
      exact fun _ _ same => .inl same
    | leased =>
      refine written _ _ ?_ member
      exact fun _ _ same => .inl same
    | completed =>
      refine written _ _ ?_ member
      exact fun _ _ none => nomatch none
    | failed job errorCode details =>
      refine written _ _ ?_ member
      intro _ _ same
      refine .inr ?_
      rw [← Option.some.inj same, sanitizeCode_named explained.named]
      exact List.mem_cons_of_mem _ explained.named
    | reaped =>
      refine written _ _ ?_ member
      intro _ _ same
      refine .inr ?_
      rw [← Option.some.inj same]
      exact List.mem_cons_self

section

variable {crates : Crates} {n : Nat} {fleet : Fin n → Config} {s : State n}

/-- The workers are about to record failures of theirs. -/
structure Honest (s : State n) : Prop where
  coded : FailuresNamed s.db
  failing : ∀ w job errorCode details deadline, s.phase w = .failing job errorCode details deadline →
    Failure errorCode details

theorem Honest.move (h : Honest s) {w : Fin n} {phase : Phase} {op : Op} {result : Except Error Reply}
    {db' : Database} (did : Effect s.clock s.db op result db') (explained : Explained op)
    (failing : ∀ job errorCode details deadline, phase = .failing job errorCode details deadline →
      Failure errorCode details) : Honest ⟨s.clock, db', Function.update s.phase w phase⟩ where
  coded := h.coded.effect did explained
  failing v job errorCode details deadline here := by
    dsimp only at here
    by_cases same : v = w
    · rw [same, Function.update_self] at here
      exact failing job errorCode details deadline here
    · rw [Function.update_of_ne same] at here
      exact h.failing v job errorCode details deadline here

theorem Honest.transact (h : Honest s) {w : Fin n} {op : Op} {next : Except Error Reply → Phase}
    (explained : Explained op)
    (rests : ∀ result job errorCode details deadline, next result ≠ .failing job errorCode details deadline) :
    Honest (s.transact crates.url op w next) :=
  h.move (exec_effect crates.url s.clock s.db op) explained
    fun job errorCode details deadline here => absurd here (rests _ job errorCode details deadline)

theorem Honest.enter (h : Honest s) {w : Fin n} {phase : Phase}
    (failing : ∀ job errorCode details deadline, phase = .failing job errorCode details deadline →
      Failure errorCode details) : Honest (s.enter w phase) :=
  h.move (.refused .reapExpired ⟨""⟩) trivial failing

theorem initial_honest (clock : Timestamp) : Honest (State.initial n clock) where
  coded := ⟨fun _ none => absurd none List.not_mem_nil, fun _ none => absurd none List.not_mem_nil⟩
  failing _ _ _ _ _ here := nomatch here

theorem afterRecord_failing (result : Except Error Reply) (job : CrawlJob) (errorCode : Str)
    (details : Json) (deadline : Timestamp) :
    afterRecord result ≠ .failing job errorCode details deadline := by
  cases result <;> exact nofun

theorem step_honest {e : Event n} (h : Honest s) (admits : Admits fleet s e) :
    Honest (step crates fleet s e) := by
  cases e with
  | exited w outcome =>
    obtain ⟨job, deadline, phase⟩ := admits
    simp only [step, phase]
    refine h.enter ?_
    cases ran : crawl crates fleet w job outcome with
    | ok output => rintro _ _ _ _ ⟨⟩
    | error e =>
      rintro _ _ _ _ ⟨⟩
      exact crawl_failure (runCrawlCommand_code ran)
  | answered w answer =>
    obtain ⟨job, output, deadline, phase⟩ := admits
    simp only [step, phase]
    refine h.enter ?_
    cases received : post crates fleet w job output answer with
    | ok receipt => rintro _ _ _ _ ⟨⟩
    | error e =>
      rintro _ _ _ _ ⟨⟩
      exact api_failure (ingestPage_code received)
  | worker e =>
    cases e with
    | tick now => exact ⟨h.coded, h.failing⟩
    | start w => exact h.enter fun _ _ _ _ failing => Phase.noConfusion failing
    | stop w => exact h.enter fun _ _ _ _ failing => Phase.noConfusion failing
    | reap w =>
      refine h.transact trivial fun result _ _ _ _ failing => ?_
      cases result <;> cases failing
    | lease w leaseToken attemptId locked =>
      refine h.transact trivial fun result _ _ _ _ failing => ?_
      unfold afterLease at failing
      split at failing <;> cases failing
    | crawled => exact admits.elim
    | posted => exact admits.elim
    | record w =>
      cases phase : s.phase w with
      | completing job output receipt deadline =>
        simp only [step, Worker.step, phase]
        exact h.transact trivial afterRecord_failing
      | failing job errorCode details deadline =>
        simp only [step, Worker.step, phase]
        exact h.transact (h.failing w _ _ _ _ phase) afterRecord_failing
      | _ =>
        simp only [step, Worker.step, phase]
        exact h
    | action op =>
      have explained : Explained op := by
        cases op with
        | fail => exact admits.2.elim
        | _ => trivial
      exact ⟨h.coded.effect (exec_effect crates.url s.clock s.db op) explained, h.failing⟩

end

/-- In every run of any number of workers a failed receipt has one of the codes of runner.rs and
api.rs, as it is, with a diagnostic that names the same code; an abandoned one says that its lease
expired, any other has no code; and no job shows a code of any other kind. -/
theorem failures_named (crates : Crates) {n : Nat} (fleet : Fin n → Config) (clock : Timestamp)
    (es : List (Event n)) (admissible : Admissible crates fleet clock es) :
    FailuresNamed (run crates fleet clock es).1.db := by
  have logged := (Runs.admissible_logged (step crates fleet) (see crates fleet)
    (State.initial n clock, []) es).mpr admissible
  have honest := Runs.run_invariant (P := fun t : State n × List (Entry n) => Honest t.1) ?_
    (initial_honest clock) logged
  · exact honest.coded
  · rintro t e h admits
    exact step_honest h admits

/-- The API is down, and the job shows it. -/
def outage {n : Nat} (w : Fin n) : List (Event n) :=
  [.worker (.action (.seed 1 2 "https://docs.example.com/releases".toList 3600 1 true 10)),
    .worker (.start w), .worker (.reap w), .worker (.lease w 20 30 []),
    .exited w (.finished (.ok (releasesResult [])) (.ok []) (.ok (.exited 0))),
    .answered w (.error "connection refused".toList), .worker (.record w)]

theorem outage_admissible : Admissible releasesCrates defaultFleet 0 (outage 0) := by
  refine ⟨⟨by decide, trivial⟩, rfl, rfl, ⟨rfl, by decide⟩, ⟨_, _, rfl⟩,
    exists_posting (by decide +kernel), ?_, trivial⟩
  change (Phase.recording _).isSome = true
  decide +kernel

theorem failures_named_outage : ∃ a ∈ (run releasesCrates defaultFleet 0 (outage 0)).1.db.attempts,
    a.errorCode = some "api_transport".toList ∧ Told a := by
  have one : ∃ a ∈ (run releasesCrates defaultFleet 0 (outage 0)).1.db.attempts,
      a.errorCode = some "api_transport".toList := by
    decide +kernel
  obtain ⟨a, member, code⟩ := one
  exact ⟨a, member, code,
    (failures_named releasesCrates defaultFleet 0 (outage 0) outage_admissible).attempts a member⟩

end EalSync.Runtime.Worker.Provenance
