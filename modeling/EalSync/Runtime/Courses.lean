import EalSync.Runtime.AttemptView
import EalSync.Runtime.Provenance

/-! The whole journal of every attempt, however it ended. One worker made the calls of process_next
about it, in their order and each at most once; and the receipt says what they came to. -/
namespace EalSync.Runtime.Worker.Provenance

/-- What process_next records at its end. -/
inductive Outcome where
  | completed (output : CrawlCommandOutput) (receipt : Json)
  | failed (errorCode : Str) (details : Json)

/-- The calls of process_next about one job up to some point, and the outcome they come to. -/
inductive Calls {n : Nat} (w : Fin n) (job : CrawlJob) : List (Entry n) → Option Outcome → Prop where
  | leased : Calls w job [.leased w job] none
  | crawled (output : CrawlCommandOutput) : Calls w job [.leased w job, .ran w job (.ok output)] none
  | crawlFailed (e : CrawlRunError) :
      Calls w job [.leased w job, .ran w job (.error e)] (some (.failed e.code e.diagnostic))
  | posted (output : CrawlCommandOutput) (request : Except IngestApiError ApiRequest)
      (answer : Except Str ApiResponse) (receipt : Json) :
      Calls w job [.leased w job, .ran w job (.ok output), .posted w job request answer (.ok receipt)]
        (some (.completed output receipt))
  | postFailed (output : CrawlCommandOutput) (request : Except IngestApiError ApiRequest)
      (answer : Except Str ApiResponse) (e : IngestApiError) :
      Calls w job [.leased w job, .ran w job (.ok output), .posted w job request answer (.error e)]
        (some (.failed e.code e.diagnostic))

/-- A receipt that no worker has closed. -/
def Unrecorded (a : AttemptRow) : Prop :=
  (a.status = .leased ∨ a.status = .abandoned) ∧ a.apiReceipt = none

/-- What the journal tells about a receipt, and what the receipt holds. -/
inductive Course {n : Nat} (a : AttemptRow) (w : Fin n) (job : CrawlJob) : List (Entry n) → Prop where
  | going (calls : List (Entry n)) (outcome : Option Outcome) :
      Calls w job calls outcome → Unrecorded a → Course a w job calls
  | completed (calls : List (Entry n)) (output : CrawlCommandOutput) (receipt : Json) :
      Calls w job calls (some (.completed output receipt)) → a.status = .succeeded →
      a.details = output.diagnostic → a.apiReceipt = some receipt →
      Course a w job (calls ++ [.completed w job])
  | failed (calls : List (Entry n)) (errorCode : Str) (details : Json) :
      Calls w job calls (some (.failed errorCode details)) → a.status = .failed →
      a.errorCode = some (sanitizeCode errorCode) → a.details = details → a.apiReceipt = none →
      Course a w job (calls ++ [.failed w job])

/-- The receipt belongs to the job value that one worker leased, and took this course. -/
def Tracked {n : Nat} (journal : List (Entry n)) (a : AttemptRow) : Prop :=
  ∃ (w : Fin n) (job : CrawlJob), a.identity = (job.attemptId, job.id, job.leaseToken) ∧
    Course a w job (about a.id journal)

/-- The outcome that a worker is about to record is the one that its calls came to. -/
def Owes {n : Nat} (journal : List (Entry n)) (w : Fin n) : Phase → Prop
  | .completing job output receipt _ =>
    Calls w job (about job.attemptId journal) (some (.completed output receipt))
  | .failing job errorCode details _ =>
    Calls w job (about job.attemptId journal) (some (.failed errorCode details))
  | .stopped | .idle | .reaped | .crawling .. | .posting .. => True

def Entry.isRecord {n : Nat} : Entry n → Bool
  | completed .. | failed .. => true
  | leased .. | ran .. | posted .. => false

theorem Course.unrecorded {n : Nat} {a : AttemptRow} {w : Fin n} {job : CrawlJob} {told : List (Entry n)}
    (course : Course a w job told) (going : ∀ entry ∈ told, entry.isRecord = false) : Unrecorded a := by
  cases course with
  | going _ _ _ unrecorded => exact unrecorded
  | completed => cases going (.completed w job) (by simp)
  | failed => cases going (.failed w job) (by simp)

theorem Course.opened {n : Nat} {a : AttemptRow} {w : Fin n} {job : CrawlJob} {told : List (Entry n)}
    (course : Course a w job told) (opened : a.status = .leased) : Unrecorded a := by
  cases course with
  | going _ _ _ unrecorded => exact unrecorded
  | completed _ _ _ _ status => rw [opened] at status; cases status
  | failed _ _ _ _ status => rw [opened] at status; cases status

theorem Course.abandon {n : Nat} {a : AttemptRow} {w : Fin n} {job : CrawlJob} {told : List (Entry n)}
    (course : Course a w job told) (opened : a.status = .leased) (now : Timestamp) :
    Course (Runtime.abandon now a) w job told := by
  cases course with
  | going _ outcome calls unrecorded => exact .going _ outcome calls ⟨.inr rfl, unrecorded.2⟩
  | completed _ _ _ _ status => rw [opened] at status; cases status
  | failed _ _ _ _ status => rw [opened] at status; cases status

theorem Tracked.frame {n : Nat} {journal journal' : List (Entry n)} {a : AttemptRow}
    (tracked : Tracked journal a) (same : about a.id journal' = about a.id journal) :
    Tracked journal' a := by
  obtain ⟨w, job, identity, course⟩ := tracked
  exact ⟨w, job, identity, same ▸ course⟩

theorem Owes.frame {n : Nat} {journal journal' : List (Entry n)} {w : Fin n} {phase : Phase}
    (h : Owes journal w phase)
    (same : ∀ job ∈ phase.job, about job.attemptId journal' = about job.attemptId journal) :
    Owes journal' w phase := by
  cases phase with
  | completing job output receipt deadline =>
    have calls : Calls w job _ (some (.completed output receipt)) := h
    rwa [← same job rfl] at calls
  | failing job errorCode details deadline =>
    have calls : Calls w job _ (some (.failed errorCode details)) := h
    rwa [← same job rfl] at calls
  | stopped => trivial
  | idle => trivial
  | reaped => trivial
  | crawling => trivial
  | posting => trivial

/-- The courses of all receipts, beside what the workers are about to record. -/
structure Charted {n : Nat} (s : State n) (journal : List (Entry n)) : Prop where
  tracked : ∀ a ∈ s.db.attempts, Tracked journal a
  owes : ∀ w, Owes journal w (s.phase w)

section Steps

variable {crates : Crates} {n : Nat} {fleet : Fin n → Config} {s : State n} {journal new : List (Entry n)}

/-- A step of one worker: the receipts of others keep their courses, and so do their debts. -/
theorem Charted.move (h : Charted s journal) (backed : Backed crates fleet s journal) {w : Fin n}
    {op : Op} {result : Except Error Reply} {phase : Phase} {db' : Database}
    (did : Effect s.clock s.db op result db') (moves : Moves s w op result phase new)
    (owes : Owes (journal ++ new) w phase)
    (own : ∀ a ∈ db'.attempts, ∀ job : CrawlJob, a.id = job.attemptId →
      (s.phase w).job = some job ∨ result = .ok (.leased (some job)) → Tracked (journal ++ new) a) :
    Charted ⟨s.clock, db', Function.update s.phase w phase⟩ (journal ++ new) where
  tracked a member := by
    by_cases mine : ∃ job : CrawlJob, a.id = job.attemptId ∧
        ((s.phase w).job = some job ∨ result = .ok (.leased (some job)))
    · obtain ⟨job, same, here⟩ := mine
      exact own a member job same here
    · have others : ∀ job ∈ (s.phase w).job, job.attemptId ≠ a.id :=
        fun job working same => mine ⟨job, same.symm, .inl working⟩
      cases effect_attempt did member with
      | kept _ _ _ old =>
        exact (h.tracked a old).frame (moves.touches did ⟨a, old, rfl⟩ others)
      | leased owner leaseSeconds leaseToken attemptId locked candidate =>
        exact absurd ⟨_, rfl, .inr rfl⟩ mine
      | completed job output receipt b old matched =>
        refine absurd ⟨job, ?_, .inl (moves.resolves job rfl)⟩ mine
        exact (CrawlJob.matchesAttempt_iff.mp matched).1
      | failed job errorCode details b old matched =>
        refine absurd ⟨job, ?_, .inl (moves.resolves job rfl)⟩ mine
        exact (CrawlJob.matchesAttempt_iff.mp matched).1
      | abandoned _ b old opened =>
        obtain ⟨v, job, identity, course⟩ := h.tracked b old
        have kept : about b.id (journal ++ new) = about b.id journal :=
          moves.touches did ⟨b, old, rfl⟩ others
        exact ⟨v, job, identity, kept ▸ course.abandon opened s.clock⟩
  owes v := by
    by_cases mine : v = w
    · subst mine
      simpa using owes
    · simp only [Function.update_of_ne mine]
      refine (h.owes v).frame fun job working => ?_
      refine moves.touches did (backed.rooted v job working).known fun i here => ?_
      exact backed.alone w v (Ne.symm mine) i here job working

/-- A transaction of another program keeps every course. -/
theorem Charted.action (h : Charted s journal) {op : Op} {result : Except Error Reply}
    {db' : Database} (did : Effect s.clock s.db op result db') (none : op.resolves = none)
    (unleased : ∀ job, result ≠ .ok (.leased (some job))) :
    Charted ⟨s.clock, db', s.phase⟩ journal where
  tracked a member := by
    cases effect_attempt did member with
    | kept _ _ _ old => exact h.tracked a old
    | leased => exact absurd rfl (unleased _)
    | completed => cases none
    | failed => cases none
    | abandoned _ b old opened =>
      obtain ⟨v, job, identity, course⟩ := h.tracked b old
      exact ⟨v, job, identity, course.abandon opened s.clock⟩
  owes := h.owes

/-- A worker goes on with its job, or leaves it, without the queue. -/
theorem Charted.enter (h : Charted s journal) (backed : Backed crates fleet s journal) {w : Fin n}
    {phase : Phase}
    (entries : ∀ entry ∈ new, ∃ job ∈ (s.phase w).job, entry.attemptId = job.attemptId)
    (same : ∀ job ∈ phase.job, (s.phase w).job = some job) (owes : Owes (journal ++ new) w phase)
    (own : ∀ a ∈ s.db.attempts, ∀ job : CrawlJob, a.id = job.attemptId → (s.phase w).job = some job →
      Tracked (journal ++ new) a) : Charted (s.enter w phase) (journal ++ new) := by
  refine h.move backed (.refused .reapExpired ⟨""⟩) ⟨trivial, by simp [Op.resolves], ?_, ?_⟩ owes ?_
  · intro entry member
    obtain ⟨job, here, id⟩ := entries entry member
    exact ⟨job, id, .inl here⟩
  · exact fun job working => .inl ⟨same job working, rfl⟩
  · intro a member job id here
    rcases here with working | leased
    · exact own a member job id working
    · cases leased

theorem Rooted.identity {db : Database} {job : CrawlJob} (h : Rooted db job) (consistent : Consistent db)
    {a : AttemptRow} (member : a ∈ db.attempts) (id : a.id = job.attemptId) :
    a.identity = (job.attemptId, job.id, job.leaseToken) := by
  obtain ⟨b, inside, same⟩ := h.attempt
  rw [Table.unique_row consistent.attemptIds member inside (id.trans (congrArg Prod.fst same).symm)]
  exact same

theorem calls_snoc {w : Fin n} {job : CrawlJob} {told : List (Entry n)} {entry : Entry n}
    (own : entry.attemptId = job.attemptId) (before : about job.attemptId journal = told)
    {outcome : Option Outcome} (calls : Calls w job (told ++ [entry]) outcome) :
    Calls w job (about job.attemptId (journal ++ [entry])) outcome := by
  rw [about_snoc entry own before]
  exact calls

/-- The worker's own receipt after one more call about it that records nothing. -/
theorem tracked_called (h : Charted s journal) (backed : Backed crates fleet s journal) {w : Fin n}
    {job : CrawlJob} (working : (s.phase w).job = some job) {told : List (Entry n)}
    (before : about job.attemptId journal = told) (going : ∀ entry ∈ told, entry.isRecord = false)
    {entry : Entry n} (own : entry.attemptId = job.attemptId) {outcome : Option Outcome}
    (calls : Calls w job (told ++ [entry]) outcome) {a : AttemptRow} (member : a ∈ s.db.attempts)
    (id : a.id = job.attemptId) : Tracked (journal ++ [entry]) a := by
  obtain ⟨v, other, _, course⟩ := h.tracked a member
  rw [id, before] at course
  refine ⟨w, job, (backed.rooted w job working).identity backed.consistent member id, ?_⟩
  rw [id]
  exact .going _ outcome (calls_snoc own before calls) (course.unrecorded going)

theorem exited_charted (h : Charted s journal) (backed : Backed crates fleet s journal) {w : Fin n}
    {job : CrawlJob} {deadline : Timestamp} (phase : s.phase w = .crawling job deadline)
    (outcome : CommandOutcome) :
    Charted (s.enter w (afterCrawl (fleet w) s.clock job (crawl crates fleet w job outcome)))
      (journal ++ [.ran w job (crawl crates fleet w job outcome)]) := by
  have told := backed.tells w
  rw [phase] at told
  have working : (s.phase w).job = some job := by
    rw [phase]
    rfl
  have entries : ∀ result, ∀ entry ∈ [Entry.ran w job result],
      ∃ job ∈ (s.phase w).job, entry.attemptId = job.attemptId := by
    intro result entry member
    rw [List.mem_singleton.mp member]
    exact ⟨job, working, rfl⟩
  have ends : ∀ result outcome, Calls w job [.leased w job, .ran w job result] outcome →
      ∀ a ∈ s.db.attempts, ∀ i : CrawlJob, a.id = i.attemptId → (s.phase w).job = some i →
        Tracked (journal ++ [.ran w job result]) a := by
    intro result outcome calls a member i id here
    obtain rfl := Option.some.inj (working.symm.trans here)
    exact tracked_called h backed working told (by simp [Entry.isRecord]) rfl calls member id
  cases ran : crawl crates fleet w job outcome with
  | ok output =>
    exact h.enter backed (entries _) (fun i here => working.trans here) trivial
      (ends _ _ (.crawled output))
  | error e =>
    refine h.enter backed (entries _) (fun i here => working.trans here) ?_
      (ends _ _ (.crawlFailed e))
    exact calls_snoc rfl told (.crawlFailed e)

theorem answered_charted (h : Charted s journal) (backed : Backed crates fleet s journal) {w : Fin n}
    {job : CrawlJob} {output : CrawlCommandOutput} {deadline : Timestamp}
    (phase : s.phase w = .posting job output deadline) (answer : Except Str ApiResponse) :
    Charted (s.enter w (afterPost s.clock job output (post crates fleet w job output answer)))
      (journal ++ [.posted w job (request crates fleet w job output) answer
        (post crates fleet w job output answer)]) := by
  have tells := backed.tells w
  rw [phase] at tells
  have told := tells.2
  have working : (s.phase w).job = some job := by
    rw [phase]
    rfl
  generalize request crates fleet w job output = sent
  have entries : ∀ result, ∀ entry ∈ [Entry.posted w job sent answer result],
      ∃ job ∈ (s.phase w).job, entry.attemptId = job.attemptId := by
    intro result entry member
    rw [List.mem_singleton.mp member]
    exact ⟨job, working, rfl⟩
  have ends : ∀ result outcome, Calls w job
      [.leased w job, .ran w job (.ok output), .posted w job sent answer result] outcome →
      ∀ a ∈ s.db.attempts, ∀ i : CrawlJob, a.id = i.attemptId → (s.phase w).job = some i →
        Tracked (journal ++ [.posted w job sent answer result]) a := by
    intro result outcome calls a member i id here
    obtain rfl := Option.some.inj (working.symm.trans here)
    exact tracked_called h backed working told (by simp [Entry.isRecord]) rfl calls member id
  cases post crates fleet w job output answer with
  | ok receipt =>
    refine h.enter backed (entries _) (fun i here => working.trans here) ?_
      (ends _ _ (.posted output sent answer receipt))
    exact calls_snoc rfl told (.posted output sent answer receipt)
  | error e =>
    refine h.enter backed (entries _) (fun i here => working.trans here) ?_
      (ends _ _ (.postFailed output sent answer e))
    exact calls_snoc rfl told (.postFailed output sent answer e)

theorem leased_charted (h : Charted s journal) (backed : Backed crates fleet s journal) {w : Fin n}
    {leaseToken attemptId : Uuid} {locked : List Uuid}
    (fresh : (leaseOp (fleet w) leaseToken attemptId locked).Fresh s.db)
    (resting : (s.phase w).job = none) :
    Charted (s.transact crates.url (leaseOp (fleet w) leaseToken attemptId locked) w
        (afterLease (fleet w) s.clock))
      (journal ++ seeLease w
        ((leaseOp (fleet w) leaseToken attemptId locked).exec crates.url s.clock s.db).1) := by
  have did := exec_effect crates.url s.clock s.db (leaseOp (fleet w) leaseToken attemptId locked)
  refine h.move backed did ⟨fresh, by simp [leaseOp, Op.resolves], ?_, ?_⟩ ?_ ?_
  · intro entry member
    obtain ⟨job, answered, rfl⟩ := seeLease_own member
    exact ⟨job, rfl, .inr answered⟩
  · exact fun job working => .inr (afterLease_job working)
  · unfold afterLease
    split <;> trivial
  · intro a member job id here
    rcases here with working | answered
    · rw [resting] at working
      cases working
    · rw [answered] at did ⊢
      obtain ⟨rooted, unknown⟩ := leased_rooted did fresh
      have consistent := backed.consistent.effect did fresh
      have none : about job.attemptId journal = [] := by
        refine about_eq_nil fun entry inside same => ?_
        obtain ⟨b, known, sameId⟩ := backed.known entry inside
        exact unknown b known (sameId.trans same)
      have told : about job.attemptId (journal ++ seeLease w (.ok (.leased (some job)))) =
          [.leased w job] := about_snoc (.leased w job) rfl none
      refine ⟨w, job, rooted.identity consistent member id, ?_⟩
      rw [id, told]
      refine .going _ .none .leased ?_
      cases effect_attempt did member with
      | kept _ _ _ old => exact absurd id (unknown a old)
      | leased => exact ⟨.inl rfl, rfl⟩

/-- The worker's own receipt after the transaction that records its outcome. -/
theorem recorded_charted (h : Charted s journal) (backed : Backed crates fleet s journal) {w : Fin n}
    {job : CrawlJob} (working : (s.phase w).job = some job) {op : Op} (resolves : op.resolves = some job)
    (fresh : op.Fresh s.db) {result : Except Error Reply} {db' : Database}
    (did : Effect s.clock s.db op result db') {entry : Entry n} (own : entry.attemptId = job.attemptId)
    (closes : ∀ answered, result = .ok answered → ∃ b ∈ s.db.attempts, b.id = job.attemptId ∧
      ∃ closed ∈ db'.attempts, closed.identity = b.identity ∧
        Course closed w job (about job.attemptId journal ++ [entry])) :
    Charted ⟨s.clock, db', Function.update s.phase w (afterRecord result)⟩
      (journal ++ seeRecord entry result) := by
  have consistent := backed.consistent.effect did fresh
  refine h.move backed did (record_moves working fresh resolves _ own) ?_ ?_
  · cases result <;> trivial
  · intro a member i id here
    have mine : a.id = job.attemptId := by
      rcases here with same | rfl
      · rw [id, Option.some.inj (working.symm.trans same)]
      · cases did
        cases resolves
    cases result with
    | error e =>
      cases did
      simpa [seeRecord] using h.tracked a member
    | ok reply =>
      obtain ⟨b, inside, sameId, closed, kept, same, course⟩ := closes reply rfl
      have closedId := (AttemptRow.identity_eq same).1.trans sameId
      rw [Table.unique_row consistent.attemptIds member kept (mine.trans closedId.symm)]
      refine ⟨w, job, same.trans ?_, ?_⟩
      · exact (backed.rooted w job working).identity backed.consistent inside sameId
      · rw [closedId, seeRecord, about_snoc entry own rfl]
        exact course

theorem completed_charted (h : Charted s journal) (backed : Backed crates fleet s journal) {w : Fin n}
    {job : CrawlJob} {output : CrawlCommandOutput} {receipt : Json} {deadline : Timestamp}
    (phase : s.phase w = .completing job output receipt deadline) :
    Charted (s.transact crates.url (.complete job output receipt) w afterRecord)
      (journal ++ seeRecord (.completed w job)
        ((Op.complete job output receipt).exec crates.url s.clock s.db).1) := by
  have working : (s.phase w).job = some job := by
    rw [phase]
    rfl
  have owed := h.owes w
  rw [phase] at owed
  have did := exec_effect crates.url s.clock s.db (.complete job output receipt)
  have fresh : (Op.complete job output receipt).Fresh s.db := trivial
  refine recorded_charted h backed working rfl fresh did rfl fun answered ok => ?_
  rw [ok] at did
  generalize ((Op.complete job output receipt).exec crates.url s.clock s.db).2 = db' at did ⊢
  cases did with
  | completed _ _ _ attempt released =>
    obtain ⟨_, _, b, inside, _, _, id, token, _, opened⟩ := backed.consistent.resolves attempt released
    have matched := CrawlJob.matchesAttempt_iff.mpr ⟨id, token, opened⟩
    exact ⟨b, inside, id, _, Table.mem_update_of_selected _ inside matched, rfl,
      .completed _ output receipt owed rfl rfl rfl⟩

theorem failed_charted (h : Charted s journal) (backed : Backed crates fleet s journal) {w : Fin n}
    {job : CrawlJob} {errorCode : Str} {details : Json} {deadline : Timestamp}
    (phase : s.phase w = .failing job errorCode details deadline) :
    Charted (s.transact crates.url (.fail job errorCode details) w afterRecord)
      (journal ++ seeRecord (.failed w job)
        ((Op.fail job errorCode details).exec crates.url s.clock s.db).1) := by
  have working : (s.phase w).job = some job := by
    rw [phase]
    rfl
  have owed := h.owes w
  rw [phase] at owed
  have did := exec_effect crates.url s.clock s.db (.fail job errorCode details)
  have fresh : (Op.fail job errorCode details).Fresh s.db := trivial
  refine recorded_charted h backed working rfl fresh did rfl fun answered ok => ?_
  rw [ok] at did
  generalize ((Op.fail job errorCode details).exec crates.url s.clock s.db).2 = db' at did ⊢
  cases did with
  | failed _ _ _ attempt released =>
    obtain ⟨_, _, b, inside, _, _, id, token, _, opened⟩ := backed.consistent.resolves attempt released
    have matched := CrawlJob.matchesAttempt_iff.mpr ⟨id, token, opened⟩
    obtain ⟨_, _, _, course⟩ := h.tracked b inside
    exact ⟨b, inside, id, _, Table.mem_update_of_selected _ inside matched, rfl,
      .failed _ errorCode details owed rfl rfl rfl (course.opened opened).2⟩

/-- Only a lease hands out a job. -/
theorem unleased {now : Timestamp} {db db' : Database} {op : Op} {result : Except Error Reply}
    (did : Effect now db op result db') (other : ∀ owner leaseSeconds leaseToken attemptId locked,
      op ≠ .lease owner leaseSeconds leaseToken attemptId locked) (job : CrawlJob) :
    result ≠ .ok (.leased (some job)) := by
  rintro rfl
  cases did
  exact other _ _ _ _ _ rfl

theorem step_charted {e : Event n} (h : Charted s journal) (backed : Backed crates fleet s journal)
    (admits : Admits fleet s e) : Charted (step crates fleet s e) (journal ++ see crates fleet s e) := by
  have resting : ∀ (w : Fin n) (phase : Phase), phase.job = none → (∀ j, Owes j w phase) →
      Charted (s.enter w phase) (journal ++ []) := by
    intro w phase rests owes
    refine h.enter backed (fun _ member => nomatch member) ?_ (owes _) fun a member _ _ _ => ?_
    · rw [rests]
      exact fun _ working => nomatch working
    · simpa using h.tracked a member
  cases e with
  | exited w outcome =>
    obtain ⟨job, deadline, phase⟩ := admits
    simp only [step, see, phase]
    exact exited_charted h backed phase outcome
  | answered w answer =>
    obtain ⟨job, output, deadline, phase⟩ := admits
    simp only [step, see, phase]
    exact answered_charted h backed phase answer
  | worker e =>
    cases e with
    | tick now =>
      rw [show see crates fleet s (.worker (.tick now)) = [] from rfl, List.append_nil]
      exact ⟨h.tracked, h.owes⟩
    | start w => exact resting w .idle rfl fun _ => trivial
    | stop w => exact resting w .stopped rfl fun _ => trivial
    | reap w =>
      have did := exec_effect crates.url s.clock s.db .reapExpired
      simp only [step, see, Worker.step, State.transact]
      generalize (Op.reapExpired).exec crates.url s.clock s.db = ran at did
      have rests : (afterReap ran.1).job = none := by cases ran.1 <;> rfl
      refine h.move backed did ⟨trivial, by simp [Op.resolves], by simp, ?_⟩ ?_ ?_
      · rw [rests]
        exact fun _ working => nomatch working
      · cases ran.1 <;> trivial
      · rintro a member job id (working | leased)
        · rw [admits] at working
          cases working
        · exact absurd leased (unleased did (by simp) job)
    | lease w leaseToken attemptId locked =>
      have rests : (s.phase w).job = none := by
        rw [admits.1]
        rfl
      exact leased_charted h backed admits.2 rests
    | crawled => exact admits.elim
    | posted => exact admits.elim
    | record w =>
      cases phase : s.phase w with
      | completing =>
        simp only [step, see, Worker.step, phase]
        exact completed_charted h backed phase
      | failing =>
        simp only [step, see, Worker.step, phase]
        exact failed_charted h backed phase
      | _ =>
        simp only [step, see, Worker.step, phase, List.append_nil]
        exact h
    | action op =>
      have did := exec_effect crates.url s.clock s.db op
      rw [show see crates fleet s (.worker (.action op)) = [] from rfl, List.append_nil]
      cases op with
      | seed => exact h.action did rfl (unleased did (by simp))
      | reapExpired => exact h.action did rfl (unleased did (by simp))
      | lease => exact admits.2.elim
      | complete => exact admits.2.elim
      | fail => exact admits.2.elim

theorem initial_charted (clock : Timestamp) : Charted (.initial n clock) [] where
  tracked _ none := absurd none List.not_mem_nil
  owes _ := trivial

theorem run_charted {clock : Timestamp} {es : List (Event n)}
    (admissible : Admissible crates fleet clock es) :
    Charted (run crates fleet clock es).1 (run crates fleet clock es).2 := by
  have logged := (Runs.admissible_logged (step crates fleet) (see crates fleet)
    (State.initial n clock, []) es).mpr admissible
  refine (Runs.run_invariant (P := fun t : State n × List (Entry n) =>
    Backed crates fleet t.1 t.2 ∧ Charted t.1 t.2) ?_
    ⟨initial_backed clock, initial_charted clock⟩ logged).2
  rintro t e ⟨backed, h⟩ admits
  exact ⟨step_backed backed admits, step_charted h backed admits⟩

end Steps

/-- In every run of any number of workers, all that was done about an attempt was done by the one
worker that leased it, in the order of process_next and each call at most once; its receipt holds the
outcome of those calls, and nothing was done about an attempt that has no receipt. -/
theorem attempt_course (crates : Crates) {n : Nat} (fleet : Fin n → Config) (clock : Timestamp)
    (es : List (Event n)) (admissible : Admissible crates fleet clock es) :
    (∀ a ∈ (run crates fleet clock es).1.db.attempts, Tracked (run crates fleet clock es).2 a) ∧
      ∀ entry ∈ (run crates fleet clock es).2,
        ∃ a ∈ (run crates fleet clock es).1.db.attempts, a.id = entry.attemptId :=
  ⟨(run_charted admissible).tracked, (run_backed admissible).known⟩

/-- The attempt that is leased, crawled, posted and completed. -/
theorem attempt_course_released :
    ∃ a ∈ (run releasesCrates defaultFleet 0 (released 0 1)).1.db.attempts, a.status = .succeeded ∧
      Tracked (run releasesCrates defaultFleet 0 (released 0 1)).2 a := by
  have one : ∃ a ∈ (run releasesCrates defaultFleet 0 (released 0 1)).1.db.attempts,
      a.status = .succeeded := by
    decide +kernel
  obtain ⟨a, member, succeeded⟩ := one
  exact ⟨a, member, succeeded,
    (attempt_course releasesCrates defaultFleet 0 (released 0 1) released_admissible).1 a member⟩

end EalSync.Runtime.Worker.Provenance
