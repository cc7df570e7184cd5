import EalSync.Runtime.Provenance

/-! What leaves the workers. Every page that is posted, accepted or not, in time or not, goes out under
the tenant and the source of the job that it was crawled for, and the token goes nowhere else. -/
namespace EalSync.Runtime.Worker.Provenance

/-- What the page must be for validate to accept it for this source. -/
structure Vetted (crates : Crates) (sourceId : Uuid) (page : List (Str × Json)) : Prop where
  source : ∃ text, List.lookup "source_id".toList page = some (.string text) ∧
    crates.uuid.parse text = .ok sourceId
  isPublic : ∃ text url, List.lookup "canonical_url".toList page = some (.string text) ∧
    validatePublicHttpsUrl crates.url text = .ok url
  hash : ∃ text, List.lookup "content_hash".toList page = some (.string text) ∧
    32 ≤ Str.len text ∧ Str.len text ≤ 256
  embedding : ∃ embedding values, List.lookup "embedding".toList page = some (.object embedding) ∧
    (∀ key ∈ CrawlCommandEnvelope.embeddingKeys, (List.lookup key.toList embedding).isSome = true) ∧
    List.lookup "values".toList embedding = some (.array values) ∧
    List.lookup "dimensions".toList embedding = some (.number (.posInt values.length)) ∧
    0 < values.length ∧ values.length ≤ 65535 ∧ ∀ value ∈ values, ∃ number, value = .number number

theorem lookup_ok {α : Type} {members : List (Str × Json)} {key : Str} {read : Json → Option α}
    {message : String} {a : α}
    (ok : context ((List.lookup key members).bind read) message = .ok a) :
    ∃ value, List.lookup key members = some value ∧ read value = some a :=
  Option.bind_eq_some_iff.mp (context_ok ok)

theorem lookup_some {α : Type} {members : List (Str × Json)} {key : Str} {value : Json}
    {read : Json → Option α} {a : α} (found : List.lookup key members = some value)
    (taken : read value = some a) (message : String) :
    context ((List.lookup key members).bind read) message = .ok a :=
  context_some (Option.bind_eq_some_iff.mpr ⟨value, found, taken⟩) message

theorem asArray_eq_some {value : Json} {items : List Json} (read : value.asArray = some items) :
    value = .array items := by
  cases value with
  | array => exact congrArg Json.array (Option.some.inj read)
  | _ => cases read

theorem asU64_eq_some {value : Json} {n : Nat} (read : value.asU64 = some n) :
    value = .number (.posInt n) := by
  unfold Json.asU64 at read
  split at read
  · exact congrArg (fun n => Json.number (.posInt n)) (Option.some.inj read)
  all_goals cases read

theorem asNumber_isSome {value : Json} (read : value.asNumber.isNone = false) :
    ∃ number, value = .number number := by
  cases value with
  | number n => exact ⟨n, rfl⟩
  | _ => cases read

theorem validateEmbedding_ok {embedding : List (Str × Json)} {u : Unit}
    (ok : CrawlCommandEnvelope.validateEmbedding embedding = .ok u) :
    (∀ key ∈ CrawlCommandEnvelope.embeddingKeys, (List.lookup key.toList embedding).isSome = true) ∧
      ∃ values, List.lookup "values".toList embedding = some (.array values) ∧
        List.lookup "dimensions".toList embedding = some (.number (.posInt values.length)) ∧
        0 < values.length ∧ values.length ≤ 65535 ∧
        ∀ value ∈ values, ∃ number, value = .number number := by
  obtain ⟨_, keyed, ok⟩ := Checks.bind_ok ok
  obtain ⟨dimensions, counted, ok⟩ := Checks.bind_ok ok
  obtain ⟨values, listed, ok⟩ := Checks.bind_ok ok
  obtain ⟨_, sized, ok⟩ := Checks.bind_ok ok
  have numbers := bailIf_ok ok
  obtain ⟨count, here, isCount⟩ := lookup_ok counted
  obtain ⟨array, here', isArray⟩ := lookup_ok listed
  obtain rfl := asU64_eq_some isCount
  obtain rfl := asArray_eq_some isArray
  have size := bailIf_ok sized
  simp only [Bool.or_eq_false_iff, decide_eq_false_iff_not, not_lt, beq_eq_false_iff_ne, ne_eq,
    bne_eq_false_iff_eq] at size
  obtain ⟨⟨positive, bounded⟩, rfl⟩ := size
  refine ⟨fun key member => ?_, values, here', here, Nat.pos_of_ne_zero positive, bounded,
    fun value member => ?_⟩
  · rw [← Option.not_isNone, bailIf_ok (Checks.forM_ok.mp keyed key member)]
    rfl
  · exact asNumber_isSome (Bool.eq_false_iff.mpr (List.any_eq_false.mp numbers value member))

theorem validatePage_vetted {crates : Crates} {page : List (Str × Json)} {job : CrawlJob} {u : Unit}
    (ok : CrawlCommandEnvelope.validatePage crates.url crates.uuid page job = .ok u) :
    Vetted crates job.sourceId page := by
  have source := CrawlCommandEnvelope.validatePage_ok ok
  obtain ⟨_, _, ok⟩ := Checks.bind_ok ok
  obtain ⟨_, _, ok⟩ := Checks.bind_ok ok
  obtain ⟨_, _, ok⟩ := Checks.bind_ok ok
  obtain ⟨canonicalUrl, named, ok⟩ := Checks.bind_ok ok
  obtain ⟨url, isPublic, ok⟩ := Checks.bind_ok ok
  obtain ⟨contentHash, hashed, ok⟩ := Checks.bind_ok ok
  obtain ⟨_, short, ok⟩ := Checks.bind_ok ok
  obtain ⟨embedding, embedded, ok⟩ := Checks.bind_ok ok
  obtain ⟨name, found, isName⟩ := lookup_ok named
  obtain ⟨hash, found', isHash⟩ := lookup_ok hashed
  obtain ⟨object, found'', isObject⟩ := lookup_ok embedded
  obtain rfl := Json.asStr_eq_some.mp isName
  obtain rfl := Json.asStr_eq_some.mp isHash
  obtain rfl := Json.asObject_eq_some.mp isObject
  obtain ⟨keys, values, inside⟩ := validateEmbedding_ok ok
  have length := bailIf_ok short
  simp only [Bool.or_eq_false_iff, decide_eq_false_iff_not, not_lt] at length
  exact ⟨source, ⟨_, _, found, isPublic⟩, ⟨_, found', length⟩, embedding, values, found'', keys, inside⟩

/-- validate makes no other demand on a page. -/
theorem Vetted.accepted {crates : Crates} {page : List (Str × Json)} {job : CrawlJob}
    (vetted : Vetted crates job.sourceId page) :
    CrawlCommandEnvelope.validatePage crates.url crates.uuid page job = .ok () := by
  obtain ⟨source, named, parsed⟩ := vetted.source
  obtain ⟨canonicalUrl, url, found, isPublic⟩ := vetted.isPublic
  obtain ⟨contentHash, hashed, long, short⟩ := vetted.hash
  obtain ⟨embedding, values, embedded, keys, listed, counted, positive, bounded, numbers⟩ :=
    vetted.embedding
  have lengthy : (decide (Str.len contentHash < 32) || decide (256 < Str.len contentHash)) = false := by
    simp [long, short]
  unfold CrawlCommandEnvelope.validatePage CrawlCommandEnvelope.sourceText
  refine Checks.ok_bind (lookup_some named (Json.asStr_eq_some.mpr rfl) _) ?_
  refine Checks.ok_bind (context_some (congrArg Except.toOption parsed) _) ?_
  refine Checks.ok_bind (bailIf_false (bne_self_eq_false _) _) ?_
  refine Checks.ok_bind (lookup_some found (Json.asStr_eq_some.mpr rfl) _) ?_
  refine Checks.ok_bind isPublic ?_
  refine Checks.ok_bind (lookup_some hashed (Json.asStr_eq_some.mpr rfl) _) ?_
  refine Checks.ok_bind (bailIf_false lengthy _) ?_
  refine Checks.ok_bind (lookup_some embedded (Json.asObject_eq_some.mpr rfl) _) ?_
  -- the embedding, key by key and then its values
  unfold CrawlCommandEnvelope.validateEmbedding
  refine Checks.ok_bind (Checks.forM_ok.mpr fun key member => bailIf_false ?_ _) ?_
  · rw [← Option.not_isSome, keys key member]
    rfl
  refine Checks.ok_bind (lookup_some counted (rfl : Json.asU64 _ = _) _) ?_
  refine Checks.ok_bind (lookup_some listed (rfl : Json.asArray _ = _) _) ?_
  refine Checks.ok_bind (bailIf_false ?_ _) (bailIf_false ?_ _)
  · simp [positive.ne', bounded]
  · refine List.any_eq_false.mpr fun value member => ?_
    obtain ⟨number, rfl⟩ := numbers value member
    exact Bool.false_ne_true

/-- The output that a worker posts for this job. -/
def Accepted (crates : Crates) (job : CrawlJob) (output : CrawlCommandOutput) : Prop :=
  ∃ page, output.pageIngest = .object page ∧ Vetted crates job.sourceId page

section

variable {crates : Crates} {n : Nat} {fleet : Fin n → Config} {s : State n} {journal : List (Entry n)}

theorem crawl_accepted {w : Fin n} {job : CrawlJob} {outcome : CommandOutcome}
    {output : CrawlCommandOutput} (ok : crawl crates fleet w job outcome = .ok output) :
    Accepted crates job output := by
  obtain ⟨envelope, validated⟩ := runCrawlCommand_ok ok
  obtain ⟨_, _, validated⟩ := Checks.bind_ok validated
  obtain ⟨page, isObject, validated⟩ := Checks.bind_ok validated
  obtain ⟨_, checked, validated⟩ := Checks.bind_ok validated
  obtain rfl := Except.ok.inj validated
  exact ⟨page, Json.asObject_eq_some.mp (context_ok isObject), validatePage_vetted checked⟩

/-- The rows of the job that a worker's call is about. -/
structure Known (db : Database) (job : CrawlJob) : Prop where
  attempt : ∃ a ∈ db.attempts, a.id = job.attemptId ∧ a.jobId = job.id
  row : ∃ row ∈ db.jobs, row.id = job.id ∧ row.tenantId = job.tenantId ∧ row.sourceId = job.sourceId

theorem Rooted.rows {db : Database} {job : CrawlJob} (h : Rooted db job) : Known db job where
  attempt := by
    obtain ⟨a, member, identity⟩ := h.attempt
    simp only [AttemptRow.identity, Prod.mk.injEq] at identity
    exact ⟨a, member, identity.1, identity.2.1⟩
  row := h.row

theorem Known.effect {now : Timestamp} {db db' : Database} {op : Op} {result : Except Error Reply}
    {job : CrawlJob} (h : Known db job) (did : Effect now db op result db') : Known db' job where
  attempt := by
    obtain ⟨b, member, id, jobId⟩ := h.attempt
    obtain ⟨a, member', same⟩ := effect_keeps_attempt did member
    obtain ⟨id', jobId', _⟩ := AttemptRow.identity_eq same
    exact ⟨a, member', id'.trans id, jobId'.trans jobId⟩
  row := keeps_row did h.row

/-- A call of the API was made for a page of its job, whose rows are there. -/
def Sound (crates : Crates) (fleet : Fin n → Config) (db : Database) : Entry n → Prop
  | .posted w job sent _ _ =>
    (∃ output, Accepted crates job output ∧ sent = request crates fleet w job output) ∧ Known db job
  | .leased .. | .ran .. | .completed .. | .failed .. => True

theorem Sound.effect {now : Timestamp} {db db' : Database} {op : Op} {result : Except Error Reply}
    {entry : Entry n} (h : Sound crates fleet db entry) (did : Effect now db op result db') :
    Sound crates fleet db' entry := by
  cases entry with
  | posted => exact ⟨h.1, h.2.effect did⟩
  | _ => trivial

/-- What a worker is about to post was accepted for its job, and so was all that was posted. -/
structure Posted (crates : Crates) (fleet : Fin n → Config) (s : State n) (journal : List (Entry n)) :
    Prop where
  accepted : ∀ w job output deadline, s.phase w = .posting job output deadline → Accepted crates job output
  sound : ∀ entry ∈ journal, Sound crates fleet s.db entry

/-- A step of one worker, whose calls of the API are added to the journal. -/
theorem Posted.move (h : Posted crates fleet s journal) {w : Fin n} {phase : Phase} {new : List (Entry n)}
    {op : Op} {result : Except Error Reply} {db' : Database} (did : Effect s.clock s.db op result db')
    (accepted : ∀ job output deadline, phase = .posting job output deadline → Accepted crates job output)
    (sound : ∀ entry ∈ new, Sound crates fleet db' entry) :
    Posted crates fleet ⟨s.clock, db', Function.update s.phase w phase⟩ (journal ++ new) where
  accepted v job output deadline posting := by
    dsimp only at posting
    by_cases same : v = w
    · rw [same, Function.update_self] at posting
      exact accepted job output deadline posting
    · rw [Function.update_of_ne same] at posting
      exact h.accepted v job output deadline posting
  sound entry member := by
    rcases List.mem_append.mp member with old | fresh
    · exact (h.sound entry old).effect did
    · exact sound entry fresh

theorem Posted.transact (h : Posted crates fleet s journal) {w : Fin n} {op : Op}
    {next : Except Error Reply → Phase} {new : List (Entry n)}
    (rests : ∀ result job output deadline, next result ≠ .posting job output deadline)
    (silent : ∀ entry ∈ new, ∀ db, Sound crates fleet db entry) :
    Posted crates fleet (s.transact crates.url op w next) (journal ++ new) :=
  h.move (exec_effect crates.url s.clock s.db op)
    (fun job output deadline posting => absurd posting (rests _ job output deadline))
    fun entry member => silent entry member _

theorem Posted.enter (h : Posted crates fleet s journal) {w : Fin n} {phase : Phase} {new : List (Entry n)}
    (accepted : ∀ job output deadline, phase = .posting job output deadline → Accepted crates job output)
    (sound : ∀ entry ∈ new, Sound crates fleet s.db entry) :
    Posted crates fleet (s.enter w phase) (journal ++ new) :=
  h.move (.refused .reapExpired ⟨""⟩) accepted sound

theorem initial_posted (clock : Timestamp) : Posted crates fleet (.initial n clock) [] where
  accepted _ _ _ _ posting := nomatch posting
  sound _ member := nomatch member

theorem afterRecord_posting (result : Except Error Reply) (job : CrawlJob) (output : CrawlCommandOutput)
    (deadline : Timestamp) : afterRecord result ≠ .posting job output deadline := by
  cases result <;> exact nofun

theorem seeRecord_sound {entry : Entry n} {result : Except Error Reply}
    (silent : ∀ db, Sound crates fleet db entry) :
    ∀ other ∈ seeRecord entry result, ∀ db, Sound crates fleet db other :=
  fun _ member => seeRecord_own member ▸ silent

theorem step_posted {e : Event n} (backed : Backed crates fleet s journal)
    (h : Posted crates fleet s journal) (admits : Admits fleet s e) :
    Posted crates fleet (step crates fleet s e) (journal ++ see crates fleet s e) := by
  have resting : ∀ (w : Fin n) (phase : Phase), phase.job = none →
      Posted crates fleet (s.enter w phase) (journal ++ []) := by
    intro w phase rests
    refine h.enter (fun job output deadline posting => ?_) fun _ member => absurd member List.not_mem_nil
    rw [posting] at rests
    cases rests
  cases e with
  | exited w outcome =>
    obtain ⟨job, deadline, phase⟩ := admits
    simp only [step, see, phase]
    refine h.enter ?_ ?_
    · cases ran : crawl crates fleet w job outcome with
      | ok output =>
        rintro _ _ _ ⟨⟩
        exact crawl_accepted ran
      | error e => rintro _ _ _ ⟨⟩
    · intro entry member
      rw [List.mem_singleton.mp member]
      trivial
  | answered w answer =>
    obtain ⟨job, output, deadline, phase⟩ := admits
    simp only [step, see, phase]
    refine h.enter ?_ ?_
    · cases post crates fleet w job output answer <;> rintro _ _ _ ⟨⟩
    · intro entry member
      rw [List.mem_singleton.mp member]
      refine ⟨⟨output, h.accepted w job output deadline phase, rfl⟩, (backed.rooted w job ?_).rows⟩
      rw [phase]
      rfl
  | worker e =>
    cases e with
    | tick now =>
      rw [show see crates fleet s (.worker (.tick now)) = [] from rfl, List.append_nil]
      exact ⟨h.accepted, h.sound⟩
    | start w => exact resting w .idle rfl
    | stop w => exact resting w .stopped rfl
    | reap w =>
      rw [show see crates fleet s (.worker (.reap w)) = [] from rfl]
      refine h.transact (fun result _ _ _ posting => ?_) (fun _ member => absurd member List.not_mem_nil)
      cases result <;> cases posting
    | lease w leaseToken attemptId locked =>
      refine h.transact (fun result _ _ _ posting => ?_) ?_
      · unfold afterLease at posting
        split at posting <;> cases posting
      · intro entry member
        obtain ⟨job, _, rfl⟩ := seeLease_own member
        exact fun _ => trivial
    | crawled => exact admits.elim
    | posted => exact admits.elim
    | record w =>
      cases phase : s.phase w with
      | completing job output receipt deadline =>
        simp only [step, see, Worker.step, phase]
        exact h.transact afterRecord_posting (seeRecord_sound fun _ => trivial)
      | failing job errorCode details deadline =>
        simp only [step, see, Worker.step, phase]
        exact h.transact afterRecord_posting (seeRecord_sound fun _ => trivial)
      | _ =>
        simp only [step, see, Worker.step, phase, List.append_nil]
        exact h
    | action op =>
      refine ⟨h.accepted, fun entry member => ?_⟩
      have old : entry ∈ journal := by simpa [see] using member
      exact (h.sound entry old).effect (exec_effect crates.url s.clock s.db op)

theorem run_posted {clock : Timestamp} {es : List (Event n)}
    (admissible : Admissible crates fleet clock es) :
    Posted crates fleet (run crates fleet clock es).1 (run crates fleet clock es).2 := by
  have logged := (Runs.admissible_logged (step crates fleet) (see crates fleet)
    (State.initial n clock, []) es).mpr admissible
  have both := Runs.run_invariant (P := fun t : State n × List (Entry n) =>
    Backed crates fleet t.1 t.2 ∧ Posted crates fleet t.1 t.2) ?_
    ⟨initial_backed clock, initial_posted clock⟩ logged
  · exact both.2
  · rintro t e ⟨backed, h⟩ admits
    exact ⟨step_backed backed admits, step_posted backed h admits⟩

end

/-- A request that posts a page of the job of this row. -/
structure PostsFor (crates : Crates) (config : Config) (row : JobRow) (sent : ApiRequest) : Prop where
  url : crates.url.join config.api.baseUrl ("v1/sources/".toList ++
    crates.uuid.display row.sourceId ++ "/pages".toList) = .ok sent.url
  tenantId : sent.tenantId = crates.uuid.display row.tenantId
  token : sent.ingestToken = config.api.ingestToken
  page : ∃ page, sent.payload = .object page ∧ Vetted crates row.sourceId page ∧
    ∀ job : CrawlJob, job.sourceId = row.sourceId →
      CrawlCommandEnvelope.validatePage crates.url crates.uuid page job = .ok ()

theorem request_posts {crates : Crates} {n : Nat} {fleet : Fin n → Config} {w : Fin n} {job : CrawlJob}
    {output : CrawlCommandOutput} {sent : ApiRequest} {row : JobRow}
    (built : .ok sent = request crates fleet w job output) (accepted : Accepted crates job output)
    (tenant : row.tenantId = job.tenantId) (source : row.sourceId = job.sourceId) :
    PostsFor crates (fleet w) row sent := by
  unfold request IngestApiClient.ingestRequest at built
  split at built
  · cases built
  · rename_i url joined
    obtain rfl := Except.ok.inj built
    rw [← source] at joined
    obtain ⟨page, object, vetted⟩ := accepted
    refine ⟨joined, congrArg _ tenant.symm, rfl, page, object, source ▸ vetted, fun other same => ?_⟩
    rw [source] at same
    exact Vetted.accepted (same ▸ vetted)

/-- In every run of any number of workers, every page that is sent to the API, whatever becomes of it,
is sent for an attempt of a job, under the tenant and the source of the row of that job, and it is a
page that was accepted for that source. -/
theorem posts_stay_home (crates : Crates) {n : Nat} (fleet : Fin n → Config) (clock : Timestamp)
    (es : List (Event n)) (admissible : Admissible crates fleet clock es) (w : Fin n) (job : CrawlJob)
    (sent : ApiRequest) (answer : Except Str ApiResponse) (result : Except IngestApiError Json)
    (posted : .posted w job (.ok sent) answer result ∈ (run crates fleet clock es).2) :
    ∃ a ∈ (run crates fleet clock es).1.db.attempts, ∃ row ∈ (run crates fleet clock es).1.db.jobs,
      a.id = job.attemptId ∧ a.jobId = row.id ∧ PostsFor crates (fleet w) row sent := by
  obtain ⟨⟨output, accepted, built⟩, known⟩ := (run_posted admissible).sound _ posted
  obtain ⟨a, member, id, jobId⟩ := known.attempt
  obtain ⟨row, inside, own, tenant, source⟩ := known.row
  exact ⟨a, member, row, inside, id, jobId.trans own.symm, request_posts built accepted tenant source⟩

/-- The request of a call of the API, if one was made. -/
def Entry.sent {n : Nat} : Entry n → Option ApiRequest
  | posted _ _ (.ok sent) _ _ => some sent
  | posted _ _ (.error _) _ _ | leased .. | ran .. | completed .. | failed .. => none

theorem Entry.sent_some {n : Nat} {entry : Entry n} {sent : ApiRequest} (made : entry.sent = some sent) :
    ∃ w job answer result, entry = .posted w job (.ok sent) answer result := by
  cases entry with
  | posted w job request answer result =>
    cases request with
    | ok request =>
      obtain rfl := Option.some.inj made
      exact ⟨w, job, answer, result, rfl⟩
    | error e => cases made
  | _ => cases made

theorem exists_sent {n : Nat} {journal : List (Entry n)}
    (some : (journal.any fun entry => entry.sent.isSome) = true) :
    ∃ w job sent answer result, .posted w job (.ok sent) answer result ∈ journal := by
  obtain ⟨entry, member, made⟩ := List.any_eq_true.mp some
  obtain ⟨sent, made⟩ := Option.isSome_iff_exists.mp made
  obtain ⟨w, job, answer, result, rfl⟩ := Entry.sent_some made
  exact ⟨w, job, sent, answer, result, member⟩

theorem posts_stay_home_released : ∃ row ∈ (run releasesCrates defaultFleet 0 (released 0 1)).1.db.jobs,
    ∃ sent, PostsFor releasesCrates (defaultFleet 0) row sent := by
  have some : ((run releasesCrates defaultFleet 0 (released 0 1)).2.any fun entry =>
      entry.sent.isSome) = true := by
    decide +kernel
  obtain ⟨w, job, sent, answer, result, posted⟩ := exists_sent some
  obtain ⟨_, _, row, member, _, _, posts⟩ := posts_stay_home releasesCrates defaultFleet 0 (released 0 1)
    released_admissible w job sent answer result posted
  exact ⟨row, member, sent, posts⟩

/-- Url::join with a path that starts with a letter keeps the scheme, the host and the port, and
Uuid's Display writes digits, letters and hyphens. -/
structure Documented (url : UrlCrate) (uuid : UuidCrate) : Prop where
  join : ∀ base reference target, url.join base reference = .ok target →
    (∃ c ∈ reference.head?, c.isAlpha) →
    (∀ c ∈ reference, Str.isAsciiAlphanumeric c = true ∨ c = '-' ∨ c = '/') →
    target.scheme = base.scheme ∧ target.host = base.host ∧ target.port = base.port
  display : ∀ id, ∀ c ∈ uuid.display id, Str.isAsciiAlphanumeric c = true ∨ c = '-'

/-- HTTPS, or HTTP to the machine itself. -/
def Confidential (url : Url) : Prop :=
  url.scheme = "https".toList ∨
    url.scheme = "http".toList ∧ ∃ host, url.hostStr = some host ∧ isLoopbackHost host = true

theorem new_confidential {crate : UrlCrate} {headerValue : Str → Bool}
    {build : ClientOptions → Except Str Unit} {baseUrl : Str} {allowLoopbackHttp : Bool}
    {timeoutSeconds responseLimitBytes : Nat} {ingestToken : Str} {client : IngestApiClient}
    (ok : IngestApiClient.new crate headerValue build baseUrl allowLoopbackHttp timeoutSeconds
      responseLimitBytes ingestToken = .ok client) : Confidential client.baseUrl := by
  unfold IngestApiClient.new at ok
  obtain ⟨_, ok⟩ := Checks.check_ok ok
  obtain ⟨_, ok⟩ := Checks.check_ok ok
  obtain ⟨_, ok⟩ := Checks.check_ok ok
  obtain ⟨_, ok⟩ := Checks.check_ok ok
  split at ok
  · cases ok
  · rename_i url _
    obtain ⟨_, ok⟩ := Checks.check_ok ok
    split at ok
    · cases ok
    · rename_i host rendered
      split at ok
      · cases ok
      · rename_i allowed
        obtain ⟨_, ok⟩ := Checks.check_ok ok
        dsimp only at ok
        split at ok
        · cases ok
        · cases ok
          unfold IngestApiClient.checkScheme at allowed
          split at allowed
          · rename_i https
            exact .inl https
          · split at allowed
            · rename_i http
              split at allowed
              · rename_i loopback
                exact .inr ⟨http, host, rendered, (Bool.and_eq_true_iff.mp loopback).2⟩
              · cases allowed
            · cases allowed

/-- The ingest token of a worker leaves it over TLS or not at all, unless the API is on the same
machine, and it leaves for the configured host only. -/
theorem token_stays_home (crates : Crates) (documented : Documented crates.url crates.uuid) {n : Nat}
    (fleet : Fin n → Config) (clock : Timestamp) (es : List (Event n))
    (admissible : Admissible crates fleet clock es) (w : Fin n) (job : CrawlJob) (sent : ApiRequest)
    (answer : Except Str ApiResponse) (result : Except IngestApiError Json)
    (posted : .posted w job (.ok sent) answer result ∈ (run crates fleet clock es).2) :
    Confidential sent.url ∧ sent.url.host = (fleet w).api.baseUrl.host ∧
      sent.url.port = (fleet w).api.baseUrl.port := by
  obtain ⟨⟨output, accepted, built⟩, known⟩ := (run_posted admissible).sound _ posted
  obtain ⟨row, _, _, tenant, source⟩ := known.row
  have joined := (request_posts built accepted tenant source).url
  have letters : ∀ c ∈ "v1/sources/".toList ++ crates.uuid.display row.sourceId ++ "/pages".toList,
      Str.isAsciiAlphanumeric c = true ∨ c = '-' ∨ c = '/' := by
    intro c member
    rcases List.mem_append.mp member with front | back
    · rcases List.mem_append.mp front with start | id
      · have fixed : ∀ c ∈ "v1/sources/".toList, Str.isAsciiAlphanumeric c = true ∨ c = '-' ∨ c = '/' := by
          decide
        exact fixed c start
      · exact (documented.display _ c id).imp_right .inl
    · have fixed : ∀ c ∈ "/pages".toList, Str.isAsciiAlphanumeric c = true ∨ c = '-' ∨ c = '/' := by
        decide
      exact fixed c back
  obtain ⟨scheme, host, port⟩ := documented.join _ _ _ joined ⟨'v', rfl, by decide⟩ letters
  obtain ⟨_, _, _, _, _, _, _, _, created⟩ := (fleet w).created
  refine ⟨?_, host, port⟩
  have safe := new_confidential created
  unfold Confidential Url.hostStr at safe ⊢
  rwa [scheme, host]

/-- The crates with a join of the API URL and the pages of source 2 alone. -/
def pagesCrates : Crates :=
  { releasesCrates with
    url := { releasesCrate with
      join := fun base reference =>
        if base = apiUrl ∧ reference = "v1/sources/".toList ++ firstUuids.display 2 ++ "/pages".toList then
          .ok pagesUrl
        else .error "relative URL without a base".toList } }

theorem pagesCrates_documented : Documented pagesCrates.url pagesCrates.uuid where
  join base reference target ok _ _ := by
    simp only [pagesCrates] at ok
    split at ok
    · rename_i same
      obtain rfl := Except.ok.inj ok
      rw [same.1]
      exact ⟨rfl, rfl, rfl⟩
    · cases ok
  display id c member := by
    rcases List.mem_append.mp member with front | digit
    · have fixed : ∀ c ∈ "00000000-0000-0000-0000-00000000000".toList,
          Str.isAsciiAlphanumeric c = true ∨ c = '-' := by decide
      exact fixed c front
    · have isDigit := Nat.isDigit_of_mem_toDigits (by decide) (by decide) digit
      exact .inl (by simp [Str.isAsciiAlphanumeric, Char.isAlphanum, isDigit])

theorem pages_admissible : Admissible pagesCrates defaultFleet 0 (released 0 1) := by
  refine ⟨⟨by decide, trivial⟩, rfl, rfl, rfl, ⟨rfl, by decide⟩, rfl, ⟨_, _, rfl⟩, trivial,
    exists_posting (by decide +kernel), ?_, trivial⟩
  change (Phase.recording _).isSome = true
  decide +kernel

theorem token_stays_home_released : ∃ sent : ApiRequest, Confidential sent.url ∧
    sent.url.host = apiUrl.host ∧ sent.url.port = apiUrl.port := by
  have some : ((run pagesCrates defaultFleet 0 (released 0 1)).2.any fun entry =>
      entry.sent.isSome) = true := by
    decide +kernel
  obtain ⟨w, job, sent, answer, result, posted⟩ := exists_sent some
  exact ⟨sent, token_stays_home pagesCrates pagesCrates_documented defaultFleet 0 (released 0 1)
    pages_admissible w job sent answer result posted⟩

end EalSync.Runtime.Worker.Provenance
