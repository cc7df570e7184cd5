import EalSync.Runtime.Coverage

/-! Where a succeeded attempt comes from. The commands and the API answer as they like; what the
calls of process_next return is kept in a journal, and a success can be read back from it. -/
namespace EalSync.Runtime.Worker.Provenance

/-- What a worker meets: the queue, the command, the server. -/
inductive Event (n : Nat) where
  | worker (e : Worker.Event n)
  | exited (w : Fin n) (outcome : CommandOutcome)
  | answered (w : Fin n) (answer : Except Str ApiResponse)

/-- What the calls of one worker returned about one attempt. -/
inductive Entry (n : Nat) where
  | leased (w : Fin n) (job : CrawlJob)
  | ran (w : Fin n) (job : CrawlJob) (result : Except CrawlRunError CrawlCommandOutput)
  | posted (w : Fin n) (job : CrawlJob) (request : Except IngestApiError ApiRequest)
      (answer : Except Str ApiResponse) (result : Except IngestApiError Json)
  | completed (w : Fin n) (job : CrawlJob)
  | failed (w : Fin n) (job : CrawlJob)

def Entry.attemptId {n : Nat} : Entry n → Uuid
  | leased _ job | ran _ job _ | posted _ job _ _ _ | completed _ job | failed _ job => job.attemptId

/-- The command or the API call returned an error. -/
def Entry.isError {n : Nat} : Entry n → Bool
  | ran _ _ (.error _) | posted _ _ _ _ (.error _) => true
  | leased .. | ran _ _ (.ok _) | posted _ _ _ _ (.ok _) | completed .. | failed .. => false

/-- The crates that the worker uses. -/
structure Crates where
  url : UrlCrate
  uuid : UuidCrate
  envelope : EnvelopeCrate
  json : SerdeJson

section

variable (crates : Crates) {n : Nat} (fleet : Fin n → Config)

def crawl (w : Fin n) (job : CrawlJob) (outcome : CommandOutcome) :
    Except CrawlRunError CrawlCommandOutput :=
  runCrawlCommand crates.url crates.uuid crates.envelope (fleet w).command job outcome

def request (w : Fin n) (job : CrawlJob) (output : CrawlCommandOutput) :
    Except IngestApiError ApiRequest :=
  (fleet w).api.ingestRequest crates.url crates.uuid job.tenantId job.sourceId output.pageIngest

def post (w : Fin n) (job : CrawlJob) (output : CrawlCommandOutput)
    (answer : Except Str ApiResponse) : Except IngestApiError Json :=
  (fleet w).api.ingestPage crates.url crates.uuid job.tenantId job.sourceId output.pageIngest
    crates.json answer

def step (s : State n) : Event n → State n
  | .worker e => Worker.step crates.url fleet s e
  | .exited w outcome =>
    match s.phase w with
    | .crawling job _ => s.enter w (afterCrawl (fleet w) s.clock job (crawl crates fleet w job outcome))
    | _ => s
  | .answered w answer =>
    match s.phase w with
    | .posting job output _ =>
      s.enter w (afterPost s.clock job output (post crates fleet w job output answer))
    | _ => s

def seeLease (w : Fin n) : Except Error Reply → List (Entry n)
  | .ok (.leased (some job)) => [.leased w job]
  | _ => []

def seeRecord (entry : Entry n) : Except Error Reply → List (Entry n)
  | .ok _ => [entry]
  | .error _ => []

def see (s : State n) : Event n → List (Entry n)
  | .worker (.lease w leaseToken attemptId locked) =>
    seeLease w ((leaseOp (fleet w) leaseToken attemptId locked).exec crates.url s.clock s.db).1
  | .worker (.record w) =>
    match s.phase w with
    | .completing job output receipt _ =>
      seeRecord (.completed w job) ((Op.complete job output receipt).exec crates.url s.clock s.db).1
    | .failing job errorCode details _ =>
      seeRecord (.failed w job) ((Op.fail job errorCode details).exec crates.url s.clock s.db).1
    | _ => []
  | .exited w outcome =>
    match s.phase w with
    | .crawling job _ => [.ran w job (crawl crates fleet w job outcome)]
    | _ => []
  | .answered w answer =>
    match s.phase w with
    | .posting job output _ =>
      [.posted w job (request crates fleet w job output) answer (post crates fleet w job output answer)]
    | _ => []
  | .worker _ => []

end

/-- A worker may be slow or stopped anywhere; the UUIDs drawn are new. -/
def Admits {n : Nat} (fleet : Fin n → Config) (s : State n) : Event n → Prop
  | .worker (.crawled ..) | .worker (.posted ..) => False
  | .worker (.tick now) => s.clock ≤ now
  | .worker e => Worker.Admits fleet s e
  | .exited w _ => ∃ job deadline, s.phase w = .crawling job deadline
  | .answered w _ => ∃ job output deadline, s.phase w = .posting job output deadline

def run (crates : Crates) {n : Nat} (fleet : Fin n → Config) (clock : Timestamp) (es : List (Event n)) :
    State n × List (Entry n) :=
  Runs.run (Runs.logged (step crates fleet) (see crates fleet)) (.initial n clock, []) es

def Admissible (crates : Crates) {n : Nat} (fleet : Fin n → Config) (clock : Timestamp)
    (es : List (Event n)) : Prop :=
  Runs.Admissible (step crates fleet) (Admits fleet) (.initial n clock) es

def about {n : Nat} (attemptId : Uuid) (journal : List (Entry n)) : List (Entry n) :=
  journal.filter fun entry => entry.attemptId == attemptId

/-- The page that the command returned is for this source. -/
def PageFor (uuids : UuidCrate) (sourceId : Uuid) (output : CrawlCommandOutput) : Prop :=
  ∃ page text, output.pageIngest = .object page ∧
    List.lookup "source_id".toList page = some (.string text) ∧ uuids.parse text = .ok sourceId

/-- The POST of the page that the command of this job returned. -/
structure Posts (crates : Crates) (config : Config) (job : CrawlJob) (output : CrawlCommandOutput)
    (request : ApiRequest) : Prop where
  url : crates.url.join config.api.baseUrl ("v1/sources/".toList ++
    crates.uuid.display job.sourceId ++ "/pages".toList) = .ok request.url
  tenantId : request.tenantId = crates.uuid.display job.tenantId
  payload : request.payload = output.pageIngest
  sourceId : PageFor crates.uuid job.sourceId output

/-- A succeeded attempt, with all that the journal holds about it, in order. -/
structure Earned (crates : Crates) {n : Nat} (fleet : Fin n → Config) (db : Database)
    (journal : List (Entry n)) (a : AttemptRow) (w : Fin n) (job : CrawlJob)
    (output : CrawlCommandOutput) (request : ApiRequest) (response : ApiResponse) (receipt : Json) :
    Prop where
  attempt : a.identity = (job.attemptId, job.id, job.leaseToken)
  row : ∃ row ∈ db.jobs, row.id = job.id ∧ row.tenantId = job.tenantId ∧ row.sourceId = job.sourceId
  history : about a.id journal = [.leased w job, .ran w job (.ok output),
    .posted w job (.ok request) (.ok response) (.ok receipt), .completed w job]
  posts : Posts crates (fleet w) job output request
  body : IngestApiClient.Body crates.json response receipt
  apiReceipt : a.apiReceipt = some receipt

theorem effect_keeps_attempt {now : Timestamp} {db db' : Database} {op : Op}
    {result : Except Error Reply} (did : Effect now db op result db') {b : AttemptRow}
    (member : b ∈ db.attempts) : ∃ a ∈ db'.attempts, a.identity = b.identity := by
  have rewritten : ∀ (p : AttemptRow → Bool) (f : AttemptRow → AttemptRow),
      (∀ a, (f a).identity = a.identity) → ∃ a ∈ Table.update p f db.attempts, a.identity = b.identity :=
    fun _ _ keeps => Table.exists_update AttemptRow.identity keeps member
  cases did with
  | refused => exact ⟨b, member, rfl⟩
  | inserted => exact ⟨b, member, rfl⟩
  | reseeded => exact ⟨b, member, rfl⟩
  | idle => exact ⟨b, member, rfl⟩
  | leased => exact ⟨b, List.mem_append_left _ member, rfl⟩
  | completed => exact rewritten _ _ fun _ => rfl
  | failed => exact rewritten _ _ fun _ => rfl
  | reaped => exact rewritten _ _ fun _ => rfl

theorem effect_keeps_job {now : Timestamp} {db db' : Database} {op : Op}
    {result : Except Error Reply} (did : Effect now db op result db') {row : JobRow}
    (member : row ∈ db.jobs) : ∃ row' ∈ db'.jobs, row'.identity = row.identity := by
  have rewritten : ∀ (p : JobRow → Bool) (f : JobRow → JobRow),
      (∀ job, (f job).identity = job.identity) → ∃ job ∈ Table.update p f db.jobs, job.identity = row.identity :=
    fun _ _ keeps => Table.exists_update JobRow.identity keeps member
  cases did with
  | refused => exact ⟨row, member, rfl⟩
  | inserted => exact ⟨row, List.mem_append_left _ member, rfl⟩
  | reseeded => exact rewritten _ _ fun _ => rfl
  | idle => exact ⟨row, member, rfl⟩
  | leased => exact rewritten _ _ fun _ => rfl
  | completed => exact rewritten _ _ fun _ => rfl
  | failed => exact rewritten _ _ fun _ => rfl
  | reaped => exact rewritten _ _ fun _ => rfl

/-- Only complete makes an attempt succeed. -/
theorem effect_success {now : Timestamp} {db db' : Database} {op : Op} {result : Except Error Reply}
    (did : Effect now db op result db') {a : AttemptRow} (member : a ∈ db'.attempts)
    (succeeded : a.status = .succeeded) : a ∈ db.attempts ∨ ∃ job output receipt,
      op = .complete job output receipt ∧ result = .ok .completed ∧ ∃ b ∈ db.attempts,
        job.matchesAttempt b = true ∧ a = (completion output receipt now).setAttempt b := by
  have untouched : ∀ (p : AttemptRow → Bool) (f : AttemptRow → AttemptRow),
      (∀ a, (f a).status ≠ .succeeded) → a ∈ Table.update p f db.attempts → a ∈ db.attempts := by
    intro p f other updated
    rcases Table.mem_update.mp updated with ⟨b, _, _, rfl⟩ | ⟨old, _⟩
    · exact absurd succeeded (other b)
    · exact old
  cases did with
  | refused => exact .inl member
  | inserted => exact .inl member
  | reseeded => exact .inl member
  | idle => exact .inl member
  | leased =>
    rcases List.mem_append.mp member with old | new
    · exact .inl old
    · rw [List.mem_singleton.mp new] at succeeded
      cases succeeded
  | completed job output receipt =>
    rcases Table.mem_update.mp member with ⟨b, old, matched, rfl⟩ | ⟨old, _⟩
    · exact .inr ⟨job, output, receipt, rfl, rfl, b, old, matched, rfl⟩
    · exact .inl old
  | failed => exact .inl (untouched _ _ (by simp [failure]) member)
  | reaped => exact .inl (untouched _ _ (by simp [abandon]) member)

/-- The rows that a worker's job was leased with; its attempt has not succeeded. -/
structure Rooted (db : Database) (job : CrawlJob) : Prop where
  attempt : ∃ a ∈ db.attempts, a.identity = (job.attemptId, job.id, job.leaseToken)
  unfinished : ∀ a ∈ db.attempts, a.id = job.attemptId → a.status ≠ .succeeded
  row : ∃ row ∈ db.jobs, row.id = job.id ∧ row.tenantId = job.tenantId ∧ row.sourceId = job.sourceId

theorem keeps_row {now : Timestamp} {db db' : Database} {op : Op} {result : Except Error Reply}
    (did : Effect now db op result db') {job : CrawlJob}
    (rooted : ∃ row ∈ db.jobs, row.id = job.id ∧ row.tenantId = job.tenantId ∧ row.sourceId = job.sourceId) :
    ∃ row ∈ db'.jobs, row.id = job.id ∧ row.tenantId = job.tenantId ∧ row.sourceId = job.sourceId := by
  obtain ⟨row, member, id, tenantId, sourceId⟩ := rooted
  obtain ⟨row', member', same⟩ := effect_keeps_job did member
  simp only [JobRow.identity, Prod.mk.injEq] at same
  exact ⟨row', member', same.1.trans id, same.2.1.trans tenantId, same.2.2.1.trans sourceId⟩

theorem Rooted.effect {now : Timestamp} {db db' : Database} {op : Op} {result : Except Error Reply}
    {job : CrawlJob} (h : Rooted db job) (did : Effect now db op result db')
    (other : ∀ i ∈ op.resolves, i.attemptId ≠ job.attemptId) : Rooted db' job where
  attempt := by
    obtain ⟨b, member, same⟩ := h.attempt
    obtain ⟨a, member', same'⟩ := effect_keeps_attempt did member
    exact ⟨a, member', same'.trans same⟩
  unfinished := by
    intro a member id succeeded
    rcases effect_success did member succeeded with old | ⟨i, output, receipt, rfl, _, b, _, matched, rfl⟩
    · exact h.unfinished a old id succeeded
    · exact other i rfl ((CrawlJob.matchesAttempt_iff.mp matched).1.symm.trans id)
  row := keeps_row did h.row

theorem leased_rooted {now : Timestamp} {db db' : Database} {op : Op} {job : CrawlJob}
    (did : Effect now db op (.ok (.leased (some job))) db') (fresh : op.Fresh db) :
    Rooted db' job ∧ ∀ a ∈ db.attempts, a.id ≠ job.attemptId := by
  have kept := @keeps_row _ _ _ _ _ did
  cases did with
  | leased owner leaseSeconds leaseToken attemptId locked candidate found accepts =>
    obtain ⟨member, _⟩ := candidate_leasable found
    refine ⟨⟨⟨_, List.mem_append_right _ (List.mem_singleton_self _), rfl⟩, ?_, ?_⟩, fresh.2⟩
    · intro a inside id
      rcases List.mem_append.mp inside with old | new
      · exact absurd id (fresh.2 a old)
      · rw [List.mem_singleton.mp new]
        simp [newAttempt]
    · exact kept ⟨candidate, member, rfl, rfl, rfl⟩

section

variable {n : Nat} {journal new : List (Entry n)} {attemptId : Uuid}

theorem about_append : about attemptId (journal ++ new) = about attemptId journal ++ about attemptId new :=
  List.filter_append ..

theorem about_eq_nil (other : ∀ entry ∈ journal, entry.attemptId ≠ attemptId) :
    about attemptId journal = [] := by
  apply List.filter_eq_nil_iff.mpr
  intro entry member
  simpa using other entry member

theorem about_other (other : ∀ entry ∈ new, entry.attemptId ≠ attemptId) :
    about attemptId (journal ++ new) = about attemptId journal := by
  rw [about_append, about_eq_nil other, List.append_nil]

theorem about_snoc (entry : Entry n) {told : List (Entry n)} (own : entry.attemptId = attemptId)
    (before : about attemptId journal = told) : about attemptId (journal ++ [entry]) = told ++ [entry] := by
  rw [about_append, before]
  simp [about, own]

end

section

variable (crates : Crates) {n : Nat} (fleet : Fin n → Config)

/-- What the journal holds about the job that a worker works on. -/
def Tells (journal : List (Entry n)) (w : Fin n) : Phase → Prop
  | .crawling job _ => about job.attemptId journal = [.leased w job]
  | .posting job output _ =>
    PageFor crates.uuid job.sourceId output ∧
      about job.attemptId journal = [.leased w job, .ran w job (.ok output)]
  | .completing job output receipt _ => ∃ request response,
      Posts crates (fleet w) job output request ∧ IngestApiClient.Body crates.json response receipt ∧
      about job.attemptId journal = [.leased w job, .ran w job (.ok output),
        .posted w job (.ok request) (.ok response) (.ok receipt)]
  | .failing .. | .stopped | .idle | .reaped => True

/-- Every success of the tables is earned, and every worker is on its way to one or to a failure
of an attempt of its own. -/
structure Backed (s : State n) (journal : List (Entry n)) : Prop where
  consistent : Consistent s.db
  tells : ∀ w, Tells crates fleet journal w (s.phase w)
  rooted : ∀ w, ∀ job ∈ (s.phase w).job, Rooted s.db job
  alone : Apart CrawlJob.attemptId s.phase
  known : ∀ entry ∈ journal, ∃ a ∈ s.db.attempts, a.id = entry.attemptId
  earned : ∀ a ∈ s.db.attempts, a.status = .succeeded → ∃ w job output request response receipt,
    Earned crates fleet s.db journal a w job output request response receipt

end

section

variable {crates : Crates} {n : Nat} {fleet : Fin n → Config}

theorem initial_backed (clock : Timestamp) : Backed crates fleet (.initial n clock) [] where
  consistent := migrated_consistent
  tells _ := trivial
  rooted _ _ member := by cases member
  alone _ _ _ _ member := by cases member
  known _ member := by cases member
  earned _ member := by cases member

theorem Tells.frame {journal journal' : List (Entry n)} {w : Fin n} {phase : Phase}
    (h : Tells crates fleet journal w phase)
    (same : ∀ job ∈ phase.job, about job.attemptId journal' = about job.attemptId journal) :
    Tells crates fleet journal' w phase := by
  cases phase with
  | stopped => trivial
  | idle => trivial
  | reaped => trivial
  | crawling job deadline => exact (same job rfl).trans h
  | posting job output deadline => exact ⟨h.1, (same job rfl).trans h.2⟩
  | completing job output receipt deadline =>
    obtain ⟨request, response, posts, body, history⟩ := h
    exact ⟨request, response, posts, body, (same job rfl).trans history⟩
  | failing => trivial

theorem Earned.frame {db db' : Database} {journal journal' : List (Entry n)} {a : AttemptRow}
    {w : Fin n} {job : CrawlJob} {output : CrawlCommandOutput} {request : ApiRequest}
    {response : ApiResponse} {receipt : Json} {now : Timestamp} {op : Op} {result : Except Error Reply}
    (h : Earned crates fleet db journal a w job output request response receipt)
    (did : Effect now db op result db') (same : about a.id journal' = about a.id journal) :
    Earned crates fleet db' journal' a w job output request response receipt :=
  { h with row := keeps_row did h.row, history := same.trans h.history }

/-- A step of one worker: what it does to the tables, to its phase and to the journal. -/
structure Moves (s : State n) (w : Fin n) (op : Op) (result : Except Error Reply) (phase : Phase)
    (new : List (Entry n)) : Prop where
  fresh : op.Fresh s.db
  resolves : ∀ job ∈ op.resolves, (s.phase w).job = some job
  entries : ∀ entry ∈ new, ∃ job : CrawlJob, entry.attemptId = job.attemptId ∧
    ((s.phase w).job = some job ∨ result = .ok (.leased (some job)))
  goesOn : ∀ job ∈ phase.job, ((s.phase w).job = some job ∧ op.resolves = none) ∨
    result = .ok (.leased (some job))

/-- What the worker touches is its own attempt or a new one. -/
theorem Moves.touches {s : State n} {w : Fin n} {op : Op} {result : Except Error Reply} {phase : Phase}
    {new : List (Entry n)} {journal : List (Entry n)} {db' : Database}
    (moves : Moves s w op result phase new)
    (did : Effect s.clock s.db op result db') {attemptId : Uuid}
    (old : ∃ a ∈ s.db.attempts, a.id = attemptId)
    (other : ∀ job ∈ (s.phase w).job, job.attemptId ≠ attemptId) :
    about attemptId (journal ++ new) = about attemptId journal := by
  apply about_other
  intro entry member
  obtain ⟨job, same, here | leased⟩ := moves.entries entry member
  · rw [same]
    exact other job here
  · subst leased
    obtain ⟨a, inside, id⟩ := old
    rw [same, ← id]
    exact ((leased_rooted did moves.fresh).2 a inside).symm

theorem Rooted.known {db : Database} {job : CrawlJob} (h : Rooted db job) :
    ∃ a ∈ db.attempts, a.id = job.attemptId := by
  obtain ⟨a, member, same⟩ := h.attempt
  exact ⟨a, member, congrArg Prod.fst same⟩

theorem keeps_known {now : Timestamp} {db db' : Database} {op : Op} {result : Except Error Reply}
    (did : Effect now db op result db') {attemptId : Uuid} (known : ∃ b ∈ db.attempts, b.id = attemptId) :
    ∃ a ∈ db'.attempts, a.id = attemptId := by
  obtain ⟨b, member, id⟩ := known
  obtain ⟨a, member', same⟩ := effect_keeps_attempt did member
  exact ⟨a, member', (AttemptRow.identity_eq same).1.trans id⟩

theorem Backed.move {s : State n} {journal new : List (Entry n)} (h : Backed crates fleet s journal)
    {w : Fin n} {op : Op} {result : Except Error Reply} {phase : Phase} {db' : Database}
    (did : Effect s.clock s.db op result db') (moves : Moves s w op result phase new)
    (tells : Tells crates fleet (journal ++ new) w phase)
    (earns : ∀ a ∈ db'.attempts, a.status = .succeeded → a ∈ s.db.attempts ∨
      ∃ w job output request response receipt,
        Earned crates fleet db' (journal ++ new) a w job output request response receipt) :
    Backed crates fleet ⟨s.clock, db', Function.update s.phase w phase⟩ (journal ++ new) where
  consistent := h.consistent.effect did moves.fresh
  tells v := by
    by_cases mine : v = w
    · subst mine
      simpa using tells
    · simp only [Function.update_of_ne mine]
      refine (h.tells v).frame fun job working => moves.touches did (h.rooted v job working).known ?_
      intro i own
      exact h.alone w v (Ne.symm mine) i own job working
  rooted v job working := by
    by_cases mine : v = w
    · subst mine
      simp only [Function.update_self] at working
      rcases moves.goesOn job working with ⟨old, none⟩ | leased
      · refine (h.rooted v job old).effect did ?_
        rw [none]
        intro i resolved
        cases resolved
      · subst leased
        exact (leased_rooted did moves.fresh).1
    · simp only [Function.update_of_ne mine] at working
      refine (h.rooted v job working).effect did fun i resolved => ?_
      exact h.alone w v (Ne.symm mine) i (moves.resolves i resolved) job working
  alone := by
    refine Apart.update h.alone ?_
    intro v other i hi j hj
    rcases moves.goesOn j hj with ⟨old, _⟩ | leased
    · exact h.alone v w other i hi j old
    · subst leased
      obtain ⟨a, member, id⟩ := (h.rooted v i hi).known
      rw [← id]
      exact (leased_rooted did moves.fresh).2 a member
  known entry member := by
    rcases List.mem_append.mp member with old | new
    · exact keeps_known did (h.known entry old)
    · obtain ⟨job, same, here | leased⟩ := moves.entries entry new
      · exact same ▸ keeps_known did (h.rooted w job here).known
      · subst leased
        exact same ▸ (leased_rooted did moves.fresh).1.known
  earned a member succeeded := by
    rcases earns a member succeeded with old | new
    · obtain ⟨v, job, output, request, response, receipt, earned⟩ := h.earned a old succeeded
      refine ⟨v, job, output, request, response, receipt, earned.frame did ?_⟩
      refine moves.touches did ⟨a, old, rfl⟩ fun i own same => ?_
      exact (h.rooted w i own).unfinished a old same.symm succeeded
    · exact new

/-- A transaction of another program, which records no outcome. -/
theorem Backed.action {s : State n} {journal : List (Entry n)} (h : Backed crates fleet s journal)
    {op : Op} {result : Except Error Reply} {db' : Database} (did : Effect s.clock s.db op result db')
    (fresh : op.Fresh s.db) (none : op.resolves = none) :
    Backed crates fleet ⟨s.clock, db', s.phase⟩ journal where
  consistent := h.consistent.effect did fresh
  tells := h.tells
  rooted w job working := (h.rooted w job working).effect did (by simp [none])
  alone := h.alone
  known entry member := keeps_known did (h.known entry member)
  earned a member succeeded := by
    rcases effect_success did member succeeded with old | ⟨job, output, receipt, rfl, _⟩
    · obtain ⟨w, job, output, request, response, receipt, earned⟩ := h.earned a old succeeded
      exact ⟨w, job, output, request, response, receipt, earned.frame did rfl⟩
    · cases none

/-- A worker goes on with its job, or leaves it, without the queue. -/
theorem Backed.enter {s : State n} {journal new : List (Entry n)} (h : Backed crates fleet s journal)
    {w : Fin n} {phase : Phase}
    (entries : ∀ entry ∈ new, ∃ job ∈ (s.phase w).job, entry.attemptId = job.attemptId)
    (same : ∀ job ∈ phase.job, (s.phase w).job = some job)
    (tells : Tells crates fleet (journal ++ new) w phase) :
    Backed crates fleet (s.enter w phase) (journal ++ new) := by
  refine h.move (.refused .reapExpired ⟨""⟩) ⟨trivial, by simp [Op.resolves], ?_, ?_⟩ tells
    fun a member _ => .inl member
  · intro entry member
    obtain ⟨job, here, id⟩ := entries entry member
    exact ⟨job, id, .inl here⟩
  · exact fun job working => .inl ⟨same job working, rfl⟩

/-- A transaction that records no outcome, and where its answer takes the worker. -/
theorem Backed.transact {s : State n} {journal new : List (Entry n)} (h : Backed crates fleet s journal)
    {w : Fin n} {op : Op} {next : Except Error Reply → Phase}
    (moves : Moves s w op (op.exec crates.url s.clock s.db).1 (next (op.exec crates.url s.clock s.db).1) new)
    (tells : Tells crates fleet (journal ++ new) w (next (op.exec crates.url s.clock s.db).1))
    (other : ∀ job output receipt, op ≠ .complete job output receipt) :
    Backed crates fleet (s.transact crates.url op w next) (journal ++ new) := by
  refine h.move (exec_effect crates.url s.clock s.db op) moves tells fun a member succeeded => ?_
  rcases effect_success (exec_effect crates.url s.clock s.db op) member succeeded with
    old | ⟨job, output, receipt, same, _⟩
  · exact .inl old
  · exact absurd same (other job output receipt)

theorem crawl_ok {w : Fin n} {job : CrawlJob} {outcome : CommandOutcome} {output : CrawlCommandOutput}
    (h : crawl crates fleet w job outcome = .ok output) : PageFor crates.uuid job.sourceId output := by
  obtain ⟨envelope, validated⟩ := runCrawlCommand_ok h
  obtain ⟨rfl, page⟩ := CrawlCommandEnvelope.validate_ok validated
  exact page

theorem post_ok {w : Fin n} {job : CrawlJob} {output : CrawlCommandOutput}
    {answer : Except Str ApiResponse} {receipt : Json} (page : PageFor crates.uuid job.sourceId output)
    (h : post crates fleet w job output answer = .ok receipt) : ∃ sent response,
    request crates fleet w job output = .ok sent ∧ answer = .ok response ∧
      Posts crates (fleet w) job output sent ∧ IngestApiClient.Body crates.json response receipt := by
  obtain ⟨sent, response, built, answered, body⟩ := IngestApiClient.ingestPage_ok h
  refine ⟨sent, response, built, answered, ?_, body⟩
  unfold IngestApiClient.ingestRequest at built
  split at built
  · cases built
  · rename_i url joined
    obtain rfl := Except.ok.inj built
    exact ⟨joined, rfl, rfl, page⟩

variable {s : State n} {journal : List (Entry n)}

theorem exited_backed (h : Backed crates fleet s journal) {w : Fin n} {job : CrawlJob}
    {deadline : Timestamp} (phase : s.phase w = .crawling job deadline) (outcome : CommandOutcome) :
    Backed crates fleet (s.enter w (afterCrawl (fleet w) s.clock job (crawl crates fleet w job outcome)))
      (journal ++ [.ran w job (crawl crates fleet w job outcome)]) := by
  have told := h.tells w
  rw [phase] at told
  have entries : ∀ result, ∀ entry ∈ [Entry.ran w job result],
      ∃ job ∈ (s.phase w).job, entry.attemptId = job.attemptId := by
    intro result entry member
    rw [List.mem_singleton.mp member, phase]
    exact ⟨job, rfl, rfl⟩
  cases ran : crawl crates fleet w job outcome with
  | ok output =>
    refine h.enter (entries _) ?_ ⟨crawl_ok ran, ?_⟩
    · rw [phase]
      exact fun i working => working
    · exact about_snoc (.ran w job (.ok output)) rfl told
  | error e =>
    refine h.enter (entries _) ?_ trivial
    rw [phase]
    exact fun i working => working

theorem answered_backed (h : Backed crates fleet s journal) {w : Fin n} {job : CrawlJob}
    {output : CrawlCommandOutput} {deadline : Timestamp} (phase : s.phase w = .posting job output deadline)
    (answer : Except Str ApiResponse) :
    Backed crates fleet (s.enter w (afterPost s.clock job output (post crates fleet w job output answer)))
      (journal ++ [.posted w job (request crates fleet w job output) answer
        (post crates fleet w job output answer)]) := by
  have told := h.tells w
  rw [phase] at told
  have entries : ∀ sent result, ∀ entry ∈ [Entry.posted w job sent answer result],
      ∃ job ∈ (s.phase w).job, entry.attemptId = job.attemptId := by
    intro sent result entry member
    rw [List.mem_singleton.mp member, phase]
    exact ⟨job, rfl, rfl⟩
  cases received : post crates fleet w job output answer with
  | ok receipt =>
    obtain ⟨sent, response, built, rfl, posts, body⟩ := post_ok told.1 received
    refine h.enter (entries _ _) ?_ ⟨sent, response, posts, body, ?_⟩
    · rw [phase]
      exact fun i working => working
    · rw [built]
      exact about_snoc (.posted w job (.ok sent) (.ok response) (.ok receipt)) rfl told.2
  | error e =>
    refine h.enter (entries _ _) ?_ trivial
    rw [phase]
    exact fun i working => working

theorem afterRecord_rests (result : Except Error Reply) : (afterRecord result).job = none := by
  cases result <;> rfl

theorem seeRecord_own {entry other : Entry n} {result : Except Error Reply}
    (member : other ∈ seeRecord entry result) : other = entry := by
  cases result with
  | ok reply => exact List.mem_singleton.mp member
  | error e => cases member

/-- The transaction that records an outcome is about the worker's own job, which it leaves. -/
theorem record_moves {w : Fin n} {job : CrawlJob} (working : (s.phase w).job = some job) {op : Op}
    (fresh : op.Fresh s.db) (resolves : op.resolves = some job) (result : Except Error Reply)
    {entry : Entry n} (own : entry.attemptId = job.attemptId) :
    Moves s w op result (afterRecord result) (seeRecord entry result) where
  fresh := fresh
  resolves i resolved := by
    rw [working]
    exact resolves.symm.trans resolved
  entries other member := ⟨job, by rw [seeRecord_own member, own], .inl working⟩
  goesOn i staying := by
    rw [afterRecord_rests] at staying
    cases staying

theorem completed_backed (h : Backed crates fleet s journal) {w : Fin n} {job : CrawlJob}
    {output : CrawlCommandOutput} {receipt : Json} {deadline : Timestamp}
    (phase : s.phase w = .completing job output receipt deadline) :
    Backed crates fleet (s.transact crates.url (.complete job output receipt) w afterRecord)
      (journal ++ seeRecord (.completed w job)
        ((Op.complete job output receipt).exec crates.url s.clock s.db).1) := by
  have working : (s.phase w).job = some job := by
    rw [phase]
    rfl
  obtain ⟨request, response, posts, body, history⟩ := phase ▸ h.tells w
  have did := exec_effect crates.url s.clock s.db (.complete job output receipt)
  have fresh : (Op.complete job output receipt).Fresh s.db := trivial
  refine h.move did (record_moves working fresh rfl _ rfl) ?_ fun a member succeeded => ?_
  · cases ((Op.complete job output receipt).exec crates.url s.clock s.db).1 <;> trivial
  · rcases effect_success did member succeeded with
      old | ⟨_, _, _, same, answered, b, inside, matched, rfl⟩
    · exact .inl old
    · obtain ⟨rfl, rfl, rfl⟩ := Op.complete.inj same
      obtain ⟨c, known, identity⟩ := (h.rooted w job working).attempt
      obtain ⟨id, _, _⟩ := CrawlJob.matchesAttempt_iff.mp matched
      obtain rfl : b = c := Table.unique_row h.consistent.attemptIds inside known
        (id.trans (congrArg Prod.fst identity).symm)
      refine .inr ⟨w, job, output, request, response, receipt, identity, ?_, ?_, posts, body, rfl⟩
      · exact keeps_row did (h.rooted w job working).row
      · rw [answered, show ((completion output receipt s.clock).setAttempt b).id = job.attemptId from id]
        exact about_snoc (.completed w job) rfl history

theorem seeLease_own {w : Fin n} {result : Except Error Reply} {entry : Entry n}
    (member : entry ∈ seeLease w result) :
    ∃ job, result = .ok (.leased (some job)) ∧ entry = .leased w job := by
  unfold seeLease at member
  split at member
  · exact ⟨_, rfl, List.mem_singleton.mp member⟩
  · cases member

theorem afterLease_job {config : Config} {clock : Timestamp} {result : Except Error Reply} {job : CrawlJob}
    (working : (afterLease config clock result).job = some job) : result = .ok (.leased (some job)) := by
  unfold afterLease at working
  split at working
  · rw [Option.some.inj working]
  · cases working
  · cases working

/-- The journal of a lease starts with it. -/
theorem tells_lease (h : Backed crates fleet s journal) {w : Fin n} {op : Op}
    {result : Except Error Reply} {db' : Database} (did : Effect s.clock s.db op result db')
    (fresh : op.Fresh s.db) :
    Tells crates fleet (journal ++ seeLease w result) w (afterLease (fleet w) s.clock result) := by
  unfold afterLease
  split
  · rename_i job
    refine about_snoc (.leased w job) rfl (about_eq_nil ?_)
    intro entry member same
    obtain ⟨a, known, id⟩ := h.known entry member
    exact (leased_rooted did fresh).2 a known (id.trans same)
  · trivial
  · trivial

theorem leased_backed (h : Backed crates fleet s journal) {w : Fin n} {leaseToken attemptId : Uuid}
    {locked : List Uuid}
    (fresh : (leaseOp (fleet w) leaseToken attemptId locked).Fresh s.db) :
    Backed crates fleet (s.transact crates.url (leaseOp (fleet w) leaseToken attemptId locked) w
        (afterLease (fleet w) s.clock))
      (journal ++ seeLease w
        ((leaseOp (fleet w) leaseToken attemptId locked).exec crates.url s.clock s.db).1) := by
  have did := exec_effect crates.url s.clock s.db (leaseOp (fleet w) leaseToken attemptId locked)
  refine h.transact ⟨fresh, by simp [leaseOp, Op.resolves], ?_, ?_⟩ ?_ (by simp [leaseOp])
  · intro entry member
    obtain ⟨job, answered, rfl⟩ := seeLease_own member
    exact ⟨job, rfl, .inr answered⟩
  · exact fun job working => .inr (afterLease_job working)
  · exact tells_lease h did fresh

theorem failed_backed (h : Backed crates fleet s journal) {w : Fin n} {job : CrawlJob}
    {errorCode : Str} {details : Json} {deadline : Timestamp}
    (phase : s.phase w = .failing job errorCode details deadline) :
    Backed crates fleet (s.transact crates.url (.fail job errorCode details) w afterRecord)
      (journal ++ seeRecord (.failed w job)
        ((Op.fail job errorCode details).exec crates.url s.clock s.db).1) := by
  have working : (s.phase w).job = some job := by
    rw [phase]
    rfl
  have fresh : (Op.fail job errorCode details).Fresh s.db := trivial
  refine h.transact (record_moves working fresh rfl _ rfl) ?_ (by simp)
  cases ((Op.fail job errorCode details).exec crates.url s.clock s.db).1 <;> trivial

theorem step_backed {e : Event n} (h : Backed crates fleet s journal) (admits : Admits fleet s e) :
    Backed crates fleet (step crates fleet s e) (journal ++ see crates fleet s e) := by
  have resting : ∀ (w : Fin n) (phase : Phase), phase.job = none → (∀ j, Tells crates fleet j w phase) →
      Backed crates fleet (s.enter w phase) (journal ++ []) := by
    intro w phase rests tells
    refine h.enter (fun _ member => nomatch member) ?_ (tells _)
    rw [rests]
    exact fun _ working => nomatch working
  cases e with
  | exited w outcome =>
    obtain ⟨job, deadline, phase⟩ := admits
    simp only [step, see, phase]
    exact exited_backed h phase outcome
  | answered w answer =>
    obtain ⟨job, output, deadline, phase⟩ := admits
    simp only [step, see, phase]
    exact answered_backed h phase answer
  | worker e =>
    cases e with
    | tick now =>
      rw [show see crates fleet s (.worker (.tick now)) = [] from rfl, List.append_nil]
      exact ⟨h.consistent, h.tells, h.rooted, h.alone, h.known, h.earned⟩
    | start w => exact resting w .idle rfl fun _ => trivial
    | stop w => exact resting w .stopped rfl fun _ => trivial
    | reap w =>
      rw [show see crates fleet s (.worker (.reap w)) = [] from rfl]
      refine h.transact ⟨trivial, by simp [Op.resolves], by simp, ?_⟩ ?_ (by simp)
      · cases ((Op.reapExpired).exec crates.url s.clock s.db).1 <;> simp [afterReap, Phase.job]
      · cases ((Op.reapExpired).exec crates.url s.clock s.db).1 <;> trivial
    | lease w leaseToken attemptId locked => exact leased_backed h admits.2
    | crawled => exact admits.elim
    | posted => exact admits.elim
    | record w =>
      cases phase : s.phase w with
      | completing =>
        simp only [step, see, Worker.step, phase]
        exact completed_backed h phase
      | failing =>
        simp only [step, see, Worker.step, phase]
        exact failed_backed h phase
      | _ =>
        simp only [step, see, Worker.step, phase, List.append_nil]
        exact h
    | action op =>
      have did := exec_effect crates.url s.clock s.db op
      rw [show see crates fleet s (.worker (.action op)) = [] from rfl, List.append_nil]
      refine h.action did admits.1 ?_
      cases op with
      | seed => rfl
      | reapExpired => rfl
      | lease => exact admits.2.elim
      | complete => exact admits.2.elim
      | fail => exact admits.2.elim

theorem run_backed {clock : Timestamp} {es : List (Event n)}
    (admissible : Admissible crates fleet clock es) :
    Backed crates fleet (run crates fleet clock es).1 (run crates fleet clock es).2 := by
  have logged := (Runs.admissible_logged (step crates fleet) (see crates fleet)
    (State.initial n clock, []) es).mpr admissible
  refine Runs.run_invariant (P := fun t : State n × List (Entry n) => Backed crates fleet t.1 t.2) ?_
    (initial_backed clock) logged
  intro t e h admits
  exact step_backed h admits

end

section

variable {crates : Crates} {n : Nat} {fleet : Fin n → Config}

/-- What the command and the server do reaches a worker as what its calls return. -/
theorem step_refines {s : State n} {e : Event n} (admits : Admits fleet s e) :
    ∃ e', Worker.step crates.url fleet s e' = step crates fleet s e := by
  cases e with
  | worker e => exact ⟨e, rfl⟩
  | exited w outcome =>
    obtain ⟨job, deadline, phase⟩ := admits
    refine ⟨.crawled w (crawl crates fleet w job outcome), ?_⟩
    simp only [step, Worker.step, phase]
  | answered w answer =>
    obtain ⟨job, output, deadline, phase⟩ := admits
    refine ⟨.posted w (post crates fleet w job output answer), ?_⟩
    simp only [step, Worker.step, phase]

/-- The workers with their commands and their server are workers, beside a journal. -/
theorem run_refines {clock : Timestamp} {es : List (Event n)} (admissible : Admissible crates fleet clock es) :
    ∃ es', Worker.run crates.url fleet clock es' = (run crates fleet clock es).1 := by
  have refines : ∀ s : State n, Runs.Admissible (step crates fleet) (Admits fleet) s es →
      ∃ es', Runs.run (Worker.step crates.url fleet) s es' = Runs.run (step crates fleet) s es := by
    clear admissible
    induction es with
    | nil => exact fun s _ => ⟨[], rfl⟩
    | cons e rest ih =>
      rintro s ⟨admits, later⟩
      obtain ⟨e', same⟩ := @step_refines crates n fleet s e admits
      obtain ⟨es', reached⟩ := ih _ later
      exact ⟨e' :: es', by rw [Runs.run, same, reached]; rfl⟩
  obtain ⟨es', reached⟩ := refines _ admissible
  have plain := Runs.run_logged (step crates fleet) (see crates fleet) (State.initial n clock, []) es
  exact ⟨es', reached.trans plain.symm⟩

end

/-- Every succeeded attempt was earned by the worker that leased it, and no call about it failed. -/
theorem success_earned (crates : Crates) {n : Nat} (fleet : Fin n → Config) (clock : Timestamp)
    (es : List (Event n)) (admissible : Admissible crates fleet clock es) :
    ∀ a ∈ (run crates fleet clock es).1.db.attempts, a.status = .succeeded →
      (∃ w job output request response receipt, Earned crates fleet (run crates fleet clock es).1.db
        (run crates fleet clock es).2 a w job output request response receipt) ∧
      ∀ entry ∈ (run crates fleet clock es).2, entry.attemptId = a.id → entry.isError = false := by
  intro a member succeeded
  obtain ⟨w, job, output, request, response, receipt, earned⟩ :=
    (run_backed admissible).earned a member succeeded
  refine ⟨⟨w, job, output, request, response, receipt, earned⟩, ?_⟩
  intro entry inside same
  have told : entry ∈ about a.id (run crates fleet clock es).2 :=
    List.mem_filter.mpr ⟨inside, by simpa using same⟩
  rw [earned.history] at told
  simp only [List.mem_cons, List.not_mem_nil, or_false] at told
  rcases told with rfl | rfl | rfl | rfl <;> rfl

def pagesUrl : Url :=
  .https "api.embedded-alerts.invalid".toList
    ("/v1/sources/".toList ++ firstUuids.display 2 ++ "/pages".toList) api_printable (by decide) rfl
    (by decide)

/-- What the crates answer on the releases of source 2 and on an empty object. -/
def releasesCrates : Crates where
  url := { releasesCrate with join := fun _ _ => .ok pagesUrl }
  uuid := firstUuids
  envelope := releasesEnvelopes
  json := ⟨fun bytes =>
    if bytes = [0x7b, 0x7d] then .ok (.object [])
    else .error "EOF while parsing a value at line 1 column 0".toList⟩

/-- Two workers; the first leases the job, crawls its page and posts it. -/
def released {n : Nat} (w other : Fin n) : List (Event n) :=
  [.worker (.action (.seed 1 2 "https://docs.example.com/releases".toList 3600 1 true 10)),
    .worker (.start w), .worker (.start other), .worker (.reap w), .worker (.lease w 20 30 []),
    .worker (.reap other), .exited w (.finished (.ok (releasesResult [])) (.ok []) (.ok (.exited 0))),
    .worker (.stop other), .answered w (.ok ⟨200, none, [.ok [0x7b], .ok [0x7d]]⟩), .worker (.record w)]

theorem exists_posting {phase : Phase} (posting : (match phase with
    | .posting .. => true
    | _ => false) = true) : ∃ job output deadline, phase = .posting job output deadline := by
  cases phase with
  | posting job output deadline => exact ⟨job, output, deadline, rfl⟩
  | _ => cases posting

theorem released_admissible : Admissible releasesCrates defaultFleet 0 (released 0 1) := by
  refine ⟨⟨by decide, trivial⟩, rfl, rfl, rfl, ⟨rfl, by decide⟩, rfl, ⟨_, _, rfl⟩, trivial,
    exists_posting (by decide +kernel), ?_, trivial⟩
  change (Phase.recording _).isSome = true
  decide +kernel

theorem success_earned_released : ∃ a ∈ (run releasesCrates defaultFleet 0 (released 0 1)).1.db.attempts,
    a.status = .succeeded ∧ ∃ w job output request response receipt, Earned releasesCrates defaultFleet
      (run releasesCrates defaultFleet 0 (released 0 1)).1.db (run releasesCrates defaultFleet 0 (released 0 1)).2
      a w job output request response receipt := by
  have one : ∃ a ∈ (run releasesCrates defaultFleet 0 (released 0 1)).1.db.attempts, a.status = .succeeded := by
    decide +kernel
  obtain ⟨a, member, succeeded⟩ := one
  exact ⟨a, member, succeeded,
    (success_earned releasesCrates defaultFleet 0 (released 0 1) released_admissible a member succeeded).1⟩

end EalSync.Runtime.Worker.Provenance
