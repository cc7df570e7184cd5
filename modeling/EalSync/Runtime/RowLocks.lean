import EalSync.Lib.Locks
import EalSync.Runtime.Invariant

/-! The row locks of concurrent transactions. Complete and fail lock their receipt and then their
job; lease takes one job row that nobody has locked; reap_expired locks the expired jobs, each
before its open receipt, in the order of its scan. All locks are held to the end. -/
namespace EalSync.Runtime.RowLocks

inductive Row where
  | job (id : Uuid)
  | attempt (id : Uuid)
  deriving DecidableEq, Repr

/-- An operation and now() of its transaction. -/
structure Call where
  now : Timestamp
  op : Op

abbrev Txn := Locks.Txn Call Row

inductive Event where
  | start (tx : Nat) (call : Call) (plan : List Row)
  | request (tx : Nat)
  | commit (tx : Nat)
  | abort (tx : Nat)

structure State where
  db : Database
  opened : Locks.Opened Call Row

def lockedJobs (s : State) : List Uuid :=
  (s.db.jobs.map JobRow.id).filter fun id => !decide (Locks.Free s.opened (.job id))

/-- The rows that the statement of reap_expired locks. -/
def reapRows (now : Timestamp) (db : Database) : List Row :=
  (expiredJobs now db).map (fun job => .job job.id) ++
    (db.attempts.filter (abandons now db)).map fun a => .attempt a.id

/-- The rows that a transaction locks, in turn. A seed may meet the row it conflicts with. -/
def Plans (s : State) (call : Call) (plan : List Row) : Prop :=
  match call.op with
  | .seed .. => plan = [] ∨ ∃ job ∈ s.db.jobs, plan = [.job job.id]
  | .lease owner leaseSeconds _ _ _ => LeaseAccepts owner leaseSeconds ∧
      plan = (leaseCandidate call.now (lockedJobs s) s.db).toList.map fun job => .job job.id
  | .complete job _ _ | .fail job _ _ => plan = [.attempt job.attemptId, .job job.id] ∧
      ∃ a ∈ s.db.attempts, a.id = job.attemptId ∧ a.jobId = job.id
  | .reapExpired => plan.Perm (reapRows call.now s.db) ∧
      ∀ a ∈ s.db.attempts, abandons call.now s.db a = true →
        List.Sublist [.job a.jobId, .attempt a.id] plan

instance (s : State) (call : Call) (plan : List Row) : Decidable (Plans s call plan) := by
  unfold Plans
  split <;> infer_instance

/-- SKIP LOCKED takes the row together with its lock; the other statements ask for theirs. -/
def opening (call : Call) (plan : List Row) : Txn :=
  match call.op with
  | .lease .. => ⟨call, plan, plan.length, false⟩
  | _ => ⟨call, plan, 0, false⟩

/-- The operation as it commits: a lease of the row that it has locked. -/
def committed (t : Txn) (db : Database) : Op :=
  match t.call.op with
  | .lease owner leaseSeconds leaseToken attemptId _ =>
    .lease owner leaseSeconds leaseToken attemptId
      ((db.jobs.map JobRow.id).filter fun id => Row.job id ∉ t.plan)
  | op => op

section

variable (crate : UrlCrate)

def step (s : State) : Event → State
  | .start tx call plan => { s with opened := (tx, opening call plan) :: s.opened }
  | .request tx => { s with opened := Locks.request tx s.opened }
  | .commit tx =>
    match Table.lookup Prod.fst tx s.opened with
    | none => s
    | some x => ⟨((committed x.2 s.db).exec crate x.2.call.now s.db).2, Locks.close tx s.opened⟩
  | .abort tx => { s with opened := Locks.close tx s.opened }

end

/-- A transaction ends when it has all its locks, or fails at any time. -/
def Admits (s : State) : Event → Prop
  | .start tx call plan => (∀ x ∈ s.opened, x.1 ≠ tx) ∧ Plans s call plan
  | .commit tx => ∃ x ∈ s.opened, x.1 = tx ∧ x.2.next = none ∧ (committed x.2 s.db).Fresh s.db
  | .request tx | .abort tx => ∃ x ∈ s.opened, x.1 = tx

instance (s : State) : (e : Event) → Decidable (Admits s e)
  | .start .. => inferInstanceAs (Decidable (_ ∧ _))
  | .commit tx => inferInstanceAs (Decidable (∃ x ∈ s.opened, x.1 = tx ∧ _ ∧ _))
  | .request tx | .abort tx => inferInstanceAs (Decidable (∃ x ∈ s.opened, x.1 = tx))

def run (crate : UrlCrate) (db : Database) (es : List Event) : State :=
  Runs.run (step crate) ⟨db, []⟩ es

def Admissible (crate : UrlCrate) (db : Database) (es : List Event) : Prop :=
  Runs.Admissible (step crate) Admits ⟨db, []⟩ es

instance (crate : UrlCrate) (db : Database) (es : List Event) : Decidable (Admissible crate db es) :=
  Runs.decidableAdmissible (step crate) Admits ⟨db, []⟩ es

def Owns (db : Database) (jobId attemptId : Uuid) : Prop :=
  ∃ a ∈ db.attempts, a.id = attemptId ∧ a.jobId = jobId

theorem Owns.unique {db : Database} (h : Consistent db) {i j a : Uuid} (one : Owns db i a)
    (two : Owns db j a) : i = j := by
  obtain ⟨x, hx, idX, rfl⟩ := one
  obtain ⟨y, hy, idY, rfl⟩ := two
  rw [Table.unique_row h.attemptIds hx hy (idX.trans idY.symm)]

theorem Owns.effect {db db' : Database} {now : Timestamp} {op : Op} {result : Except Error Reply}
    (did : Effect now db op result db') {i a : Uuid} (owns : Owns db i a) : Owns db' i a := by
  obtain ⟨x, hx, rfl, rfl⟩ := owns
  have rewritten : ∀ (p : AttemptRow → Bool) (f : AttemptRow → AttemptRow),
      (∀ y, (f y).identity = y.identity) →
      ∃ y ∈ Table.update p f db.attempts, y.id = x.id ∧ y.jobId = x.jobId := by
    intro p f keeps
    by_cases selected : p x = true
    · have same := AttemptRow.identity_eq (keeps x)
      exact ⟨f x, Table.mem_update_of_selected f hx selected, same.1, same.2.1⟩
    · exact ⟨x, Table.mem_update_of_skipped f hx (by simpa using selected), rfl, rfl⟩
  cases did with
  | refused => exact ⟨x, hx, rfl, rfl⟩
  | inserted => exact ⟨x, hx, rfl, rfl⟩
  | reseeded => exact ⟨x, hx, rfl, rfl⟩
  | idle => exact ⟨x, hx, rfl, rfl⟩
  | leased => exact ⟨x, List.mem_append_left _ hx, rfl, rfl⟩
  | completed => exact rewritten _ _ (fun _ => rfl)
  | failed => exact rewritten _ _ (fun _ => rfl)
  | reaped => exact rewritten _ _ (fun _ => rfl)

/-- The locks of one transaction. A receipt comes after its job, except in complete and fail. -/
def Shape (db : Database) (t : Txn) : Prop :=
  match t.call.op.resolves with
  | some job => t.plan = [.attempt job.attemptId, .job job.id] ∧ Owns db job.id job.attemptId
  | none => t.plan.Nodup ∧ ∀ a, Row.attempt a ∈ t.plan →
      ∃ j, Owns db j a ∧ List.Sublist [.job j, .attempt a] t.plan

theorem Shape.effect {db db' : Database} {now : Timestamp} {op : Op} {result : Except Error Reply}
    (did : Effect now db op result db') {t : Txn} (shape : Shape db t) : Shape db' t := by
  unfold Shape at shape ⊢
  split at shape
  · exact ⟨shape.1, shape.2.effect did⟩
  · refine ⟨shape.1, fun a member => ?_⟩
    obtain ⟨j, owns, order⟩ := shape.2 a member
    exact ⟨j, owns.effect did, order⟩

structure Sound (s : State) : Prop where
  consistent : Consistent s.db
  exclusive : Locks.Exclusive s.opened
  shape : ∀ x ∈ s.opened, Shape s.db x.2

theorem initial_sound {db : Database} (consistent : Consistent db) : Sound ⟨db, []⟩ where
  consistent := consistent
  exclusive := Locks.empty_exclusive
  shape _ member := absurd member List.not_mem_nil

theorem reapRows_nodup {db : Database} (h : Consistent db) (now : Timestamp) :
    (reapRows now db).Nodup := by
  have jobIds : ((expiredJobs now db).map JobRow.id).Nodup :=
    h.jobIds.sublist (List.filter_sublist.map _)
  have attemptIds : ((db.attempts.filter (abandons now db)).map AttemptRow.id).Nodup :=
    h.attemptIds.sublist (List.filter_sublist.map _)
  have jobs := jobIds.map fun _ _ => Row.job.inj
  have attempts := attemptIds.map fun _ _ => Row.attempt.inj
  rw [List.map_map] at jobs attempts
  refine jobs.append attempts ?_
  intro r one two
  obtain ⟨_, _, rfl⟩ := List.mem_map.mp one
  obtain ⟨_, _, same⟩ := List.mem_map.mp two
  cases same

theorem opening_shape {s : State} (h : Sound s) {call : Call} {plan : List Row}
    (plans : Plans s call plan) : Shape s.db (opening call plan) := by
  obtain ⟨now, op⟩ := call
  cases op with
  | seed =>
    rcases plans with rfl | ⟨job, _, rfl⟩
    · exact ⟨List.nodup_nil, by simp [opening]⟩
    · exact ⟨List.nodup_singleton _, by simp [opening]⟩
  | lease =>
    obtain ⟨_, rfl⟩ := plans
    cases leaseCandidate now (lockedJobs s) s.db with
    | none => exact ⟨List.nodup_nil, by simp [opening]⟩
    | some job => exact ⟨List.nodup_singleton _, by simp [opening]⟩
  | complete => exact ⟨plans.1, plans.2⟩
  | fail => exact ⟨plans.1, plans.2⟩
  | reapExpired =>
    obtain ⟨rows, order⟩ := plans
    refine ⟨rows.nodup_iff.mpr (reapRows_nodup h.consistent now), fun a member => ?_⟩
    have found := rows.subset member
    rcases List.mem_append.mp found with job | attempt
    · obtain ⟨_, _, same⟩ := List.mem_map.mp job
      cases same
    · obtain ⟨x, selected, same⟩ := List.mem_map.mp attempt
      cases same
      obtain ⟨hx, abandoned⟩ := List.mem_filter.mp selected
      exact ⟨x.jobId, ⟨x, hx, rfl, rfl⟩, order x hx abandoned⟩

theorem opening_held {s : State} {call : Call} {plan : List Row} (plans : Plans s call plan) :
    ∀ r ∈ (opening call plan).held, Locks.Free s.opened r ∧ ∃ id, r = .job id := by
  obtain ⟨now, op⟩ := call
  cases op with
  | lease =>
    obtain ⟨_, rfl⟩ := plans
    intro r member
    cases found : leaseCandidate now (lockedJobs s) s.db with
    | none => simp [opening, Locks.Txn.held, found] at member
    | some job =>
      have same : r = .job job.id := by simpa [opening, Locks.Txn.held, found] using member
      obtain ⟨hjob, chosen⟩ := Table.mem_of_first found
      simp only [Bool.and_eq_true, Bool.not_eq_true', List.contains_eq_mem, decide_eq_false_iff_not,
        lockedJobs, List.mem_filter, not_and, not_not] at chosen
      rw [same]
      refine ⟨?_, job.id, rfl⟩
      by_contra taken
      exact taken (chosen.2 (List.mem_map_of_mem hjob))
  | seed => exact fun r member => absurd member List.not_mem_nil
  | complete => exact fun r member => absurd member List.not_mem_nil
  | fail => exact fun r member => absurd member List.not_mem_nil
  | reapExpired => exact fun r member => absurd member List.not_mem_nil

theorem step_sound (crate : UrlCrate) {s : State} {e : Event} (h : Sound s) (admits : Admits s e) :
    Sound (step crate s e) := by
  cases e with
  | start tx call plan =>
    refine ⟨h.consistent, ?_, fun x member => ?_⟩
    · exact h.exclusive.start admits.1 fun r held => (opening_held admits.2 r held).1
    · rcases List.mem_cons.mp member with rfl | old
      · exact opening_shape h admits.2
      · exact h.shape x old
  | request tx =>
    refine ⟨h.consistent, h.exclusive.request tx, fun y member => ?_⟩
    obtain ⟨x, hx, _, call, plan, _, _⟩ := Locks.mem_request member
    have shape := h.shape x hx
    rwa [Shape, ← call, ← plan] at shape
  | commit tx =>
    obtain ⟨x, hx, same, _, fresh⟩ := admits
    simp only [step]
    split
    · exact h
    · rename_i y found
      obtain ⟨hy, tx'⟩ := Table.lookup_mem found
      rw [h.exclusive.same hy hx (tx'.trans same.symm)]
      have did := exec_effect crate x.2.call.now s.db (committed x.2 s.db)
      exact ⟨h.consistent.effect did fresh, h.exclusive.close tx,
        fun z member => (h.shape z (Locks.mem_close.mp member).1).effect did⟩
  | abort tx =>
    exact ⟨h.consistent, h.exclusive.close tx, fun x member => h.shape x (Locks.mem_close.mp member).1⟩

def Ascending (rank : Uuid → Nat) : Row → Row → Prop
  | .job i, .job j => rank i < rank j
  | _, _ => True

instance (rank : Uuid → Nat) (x y : Row) : Decidable (Ascending rank x y) := by
  unfold Ascending
  split <;> infer_instance

/-- Each job that the transaction has yet to lock ranks above those before it in its plan. -/
def Ascends (rank : Uuid → Nat) (t : Txn) : Prop :=
  ∀ front r rest, t.plan = front ++ r :: rest → t.locked ≤ front.length →
    ∀ h ∈ front, Ascending rank h r

/-- The reap x comes for the receipt that y, a complete or fail, resolves. The request locks no
job for x while y has the receipt, and no receipt for y while x has the job. -/
def StayApart (s : State) (tx : Nat) (job : CrawlJob) (x y : Nat × Txn) : Prop :=
  Row.attempt job.attemptId ∈ x.2.plan →
    (x.1 = tx → x.2.next = some (.job job.id) → Locks.Free s.opened (.job job.id) →
      Row.attempt job.attemptId ∉ y.2.held) ∧
    (y.1 = tx → y.2.next = some (.attempt job.attemptId) →
      Locks.Free s.opened (.attempt job.attemptId) → Row.job job.id ∉ x.2.held)

instance (s : State) (tx : Nat) (job : CrawlJob) (x y : Nat × Txn) :
    Decidable (StayApart s tx job x y) := by
  unfold StayApart
  infer_instance

def Apart (s : State) (tx : Nat) : Prop :=
  ∀ x ∈ s.opened, x.2.call.op.resolves = none → ∀ y ∈ s.opened, ∀ job ∈ y.2.call.op.resolves,
    StayApart s tx job x y

instance (s : State) (tx : Nat) : Decidable (Apart s tx) := by
  unfold Apart
  infer_instance

/-- The reaps in progress agree on an order of the jobs that they have yet to lock, and no reap
and complete or fail are both inside one lease. -/
def Orderly (s : State) : Event → Prop
  | .start _ ⟨_, .reapExpired⟩ plan => ∃ rank, plan.Pairwise (Ascending rank) ∧
      ∀ x ∈ s.opened, x.2.call.op.resolves = none → Ascends rank x.2
  | .request tx => Apart s tx
  | .start .. | .commit _ | .abort _ => True

def OrderlyRun (crate : UrlCrate) (db : Database) (es : List Event) : Prop :=
  Runs.Admissible (step crate) Orderly ⟨db, []⟩ es

structure Calm (s : State) : Prop where
  ordered : ∃ rank, ∀ x ∈ s.opened, x.2.call.op.resolves = none → Ascends rank x.2
  apart : ∀ x ∈ s.opened, x.2.call.op.resolves = none → ∀ y ∈ s.opened,
    ∀ job ∈ y.2.call.op.resolves, Row.attempt job.attemptId ∈ x.2.plan →
    Row.job job.id ∈ x.2.held → Row.attempt job.attemptId ∉ y.2.held

theorem initial_calm (db : Database) : Calm ⟨db, []⟩ where
  ordered := ⟨id, fun _ member => absurd member List.not_mem_nil⟩
  apart _ member := absurd member List.not_mem_nil

theorem Calm.narrow {s s' : State} (h : Calm s) (fewer : ∀ x ∈ s'.opened, x ∈ s.opened) : Calm s' where
  ordered := h.ordered.imp fun _ ascends x member => ascends x (fewer x member)
  apart x hx free y hy := h.apart x (fewer x hx) free y (fewer y hy)

theorem ascends_of_pairwise {rank : Uuid → Nat} {t : Txn} (ordered : t.plan.Pairwise (Ascending rank)) :
    Ascends rank t := by
  intro front r rest split _ h member
  rw [split, List.pairwise_append] at ordered
  exact ordered.2.2 h member r List.mem_cons_self

theorem Ascends.mono {rank : Uuid → Nat} {t t' : Txn} (h : Ascends rank t) (plan : t'.plan = t.plan)
    (more : t.locked ≤ t'.locked) : Ascends rank t' :=
  fun front r rest split few => h front r rest (plan.symm.trans split) (more.trans few)

theorem opening_plan (call : Call) (plan : List Row) :
    (opening call plan).call = call ∧ (opening call plan).plan = plan := by
  unfold opening
  split <;> exact ⟨rfl, rfl⟩

theorem opening_ordered {s : State} (h : Calm s) {tx : Nat} {call : Call} {plan : List Row}
    (plans : Plans s call plan) (orderly : Orderly s (.start tx call plan)) :
    ∃ rank, (∀ x ∈ s.opened, x.2.call.op.resolves = none → Ascends rank x.2) ∧
      (call.op.resolves = none → Ascends rank (opening call plan)) := by
  obtain ⟨rank, others⟩ := h.ordered
  obtain ⟨now, op⟩ := call
  cases op with
  | seed =>
    refine ⟨rank, others, fun _ => ascends_of_pairwise ?_⟩
    rcases plans with rfl | ⟨job, _, rfl⟩
    · exact .nil
    · exact List.pairwise_singleton ..
  | lease =>
    obtain ⟨_, rfl⟩ := plans
    refine ⟨rank, others, fun _ => ascends_of_pairwise ?_⟩
    rw [(opening_plan _ _).2]
    cases leaseCandidate now (lockedJobs s) s.db with
    | none => exact .nil
    | some job => exact List.pairwise_singleton ..
  | complete => exact ⟨rank, others, by simp [Op.resolves]⟩
  | fail => exact ⟨rank, others, by simp [Op.resolves]⟩
  | reapExpired =>
    obtain ⟨fresh, ordered, agree⟩ := orderly
    exact ⟨fresh, agree, fun _ => ascends_of_pairwise ordered⟩

theorem opening_lease {s : State} {call : Call} {plan : List Row} (plans : Plans s call plan)
    {r : Row} (held : r ∈ (opening call plan).held) (a : Uuid) : Row.attempt a ∉ plan := by
  obtain ⟨now, op⟩ := call
  cases op with
  | lease =>
    obtain ⟨_, rfl⟩ := plans
    simp
  | seed => exact absurd held List.not_mem_nil
  | complete => exact absurd held List.not_mem_nil
  | fail => exact absurd held List.not_mem_nil
  | reapExpired => exact absurd held List.not_mem_nil

theorem step_calm (crate : UrlCrate) {s : State} {e : Event} (sound : Sound s) (h : Calm s)
    (admits : Admits s e) (orderly : Orderly s e) : Calm (step crate s e) := by
  cases e with
  | start tx call plan =>
    have opened := opening_plan call plan
    obtain ⟨rank, others, mine⟩ := opening_ordered h admits.2 orderly
    refine ⟨⟨rank, fun x member free => ?_⟩,
      fun x hx free y hy job resolved inside jobHeld attemptHeld => ?_⟩
    · rcases List.mem_cons.mp member with rfl | old
      · exact mine (opened.1 ▸ free)
      · exact others x old free
    · rcases List.mem_cons.mp hx with rfl | oldX
      · exact opening_lease admits.2 jobHeld _ (opened.2 ▸ inside)
      · rcases List.mem_cons.mp hy with rfl | oldY
        · obtain ⟨_, _, same⟩ := opening_held admits.2 _ attemptHeld
          cases same
        · exact h.apart x oldX free y oldY job resolved inside jobHeld attemptHeld
  | request tx =>
    obtain ⟨rank, others⟩ := h.ordered
    refine ⟨⟨rank, fun x' member free => ?_⟩,
      fun x' hx free y' hy job resolved inside jobHeld attemptHeld => ?_⟩
    · obtain ⟨x, hx, _, call, plan, more, _⟩ := Locks.mem_request member
      exact (others x hx (call ▸ free)).mono plan more
    · obtain ⟨x, hx, _, callX, planX, _, heldX⟩ := Locks.mem_request hx
      obtain ⟨y, hy, _, callY, planY, _, heldY⟩ := Locks.mem_request hy
      rw [callX] at free
      rw [planX] at inside
      rw [callY] at resolved
      have clear := orderly x hx free y hy job resolved inside
      have before := h.apart x hx free y hy job resolved inside
      rcases heldX with sameX | ⟨r, mineX, nextX, freeX, moreX⟩ <;>
        rcases heldY with sameY | ⟨q, mineY, nextY, freeY, moreY⟩
      · exact before (sameX ▸ jobHeld) (sameY ▸ attemptHeld)
      · rw [moreY, List.mem_append, List.mem_singleton] at attemptHeld
        rcases attemptHeld with old | rfl
        · exact before (sameX ▸ jobHeld) old
        · exact clear.2 mineY nextY freeY (sameX ▸ jobHeld)
      · rw [moreX, List.mem_append, List.mem_singleton] at jobHeld
        rcases jobHeld with old | rfl
        · exact before old (sameY ▸ attemptHeld)
        · exact clear.1 mineX nextX freeX (sameY ▸ attemptHeld)
      · rw [sound.exclusive.same hx hy (mineX.trans mineY.symm)] at free
        rw [free] at resolved
        cases resolved
  | commit tx =>
    refine h.narrow fun x member => ?_
    simp only [step] at member
    split at member
    · exact member
    · exact (Locks.mem_close.mp member).1
  | abort tx => exact h.narrow fun x member => (Locks.mem_close.mp member).1

/-- Receipts rank below all jobs. -/
def rowRank (rank : Uuid → Nat) : Row → WithBot Nat
  | .job id => rank id
  | .attempt _ => ⊥

/-- A reap that waits for a receipt would have met its complete or fail inside the lease. -/
theorem no_wait_for_attempt {s : State} (sound : Sound s) (calm : Calm s)
    {x y : Nat × Txn} (waits : Locks.WaitsFor s.opened x y) (free : x.2.call.op.resolves = none)
    (a : Uuid) : x.2.next ≠ some (.attempt a) := by
  intro next
  obtain ⟨hx, hy, other, _, r, held, same⟩ := waits
  cases next.symm.trans same
  obtain ⟨rest, plan⟩ := Locks.Txn.plan_split next
  have shapeX := sound.shape x hx
  rw [Shape, free] at shapeX
  obtain ⟨nodup, order⟩ := shapeX
  have wanted : Row.attempt a ∈ x.2.plan := by simp [plan]
  obtain ⟨j, owns, before⟩ := order a wanted
  rw [plan] at nodup before
  have jobX := Locks.earlier nodup before
  have shapeY := sound.shape y hy
  unfold Shape at shapeY
  split at shapeY
  · rename_i job resolved
    obtain ⟨planY, ownsY⟩ := shapeY
    have inside := List.mem_of_mem_take held
    rw [planY] at inside
    have mine : a = job.attemptId := by simpa using inside
    subst mine
    rw [owns.unique sound.consistent ownsY] at jobX
    exact calm.apart x hx free y hy job resolved wanted jobX held
  · obtain ⟨nodupY, orderY⟩ := shapeY
    obtain ⟨i, ownsY, beforeY⟩ := orderY a (List.mem_of_mem_take held)
    rw [ownsY.unique sound.consistent owns] at beforeY
    obtain ⟨front, back, split⟩ := List.append_of_mem held
    have whole : y.2.plan = front ++ .attempt a :: (back ++ y.2.plan.drop y.2.locked) := by
      rw [← List.cons_append, ← List.append_assoc, ← split]
      exact (List.take_append_drop ..).symm
    rw [whole] at nodupY beforeY
    have jobY : Row.job j ∈ y.2.held := by
      rw [split]
      exact List.mem_append_left _ (Locks.earlier nodupY beforeY)
    exact other (sound.exclusive.rows x hx y hy _ jobX jobY)

theorem waits_ascend {s : State} (sound : Sound s) (calm : Calm s) {rank : Uuid → Nat}
    (ordered : ∀ x ∈ s.opened, x.2.call.op.resolves = none → Ascends rank x.2) {x y : Nat × Txn}
    (waits : Locks.WaitsFor s.opened x y) {r : Row} (next : x.2.next = some r) :
    ∀ h ∈ x.2.held, rowRank rank h < rowRank rank r := by
  intro h held
  obtain ⟨rest, plan⟩ := Locks.Txn.plan_split next
  have shape := sound.shape x waits.1
  unfold Shape at shape
  split at shape
  · rename_i job _
    have whole := plan.symm.trans shape.1
    match x.2.held, held, whole with
    | [first], held, whole =>
      simp only [List.cons_append, List.nil_append, List.cons.injEq] at whole
      obtain ⟨rfl, rfl, _⟩ := whole
      rw [List.mem_singleton.mp held]
      exact WithBot.bot_lt_coe _
    | _ :: _ :: _, _, whole => simp at whole
  · rename_i free
    match r with
    | .attempt a => exact absurd next (no_wait_for_attempt sound calm waits free a)
    | .job j =>
      match h with
      | .attempt _ => exact WithBot.bot_lt_coe _
      | .job i =>
        have locked : x.2.locked ≤ x.2.held.length := by
          obtain ⟨bound, _⟩ := List.getElem?_eq_some_iff.mp next
          rw [Locks.Txn.held, List.length_take]
          omega
        exact WithBot.coe_lt_coe.mpr (ordered x waits.1 free x.2.held (.job j) rest plan locked _ held)

theorem run_calm {crate : UrlCrate} {db : Database} {es : List Event} (consistent : Consistent db)
    (admissible : Admissible crate db es) (orderly : OrderlyRun crate db es) :
    Sound (run crate db es) ∧ Calm (run crate db es) :=
  Runs.run_invariant (P := fun s => Sound s ∧ Calm s)
    (fun _ _ h guard => ⟨step_sound crate h.1 guard.1, step_calm crate h.1 h.2 guard.1 guard.2⟩)
    ⟨initial_sound consistent, initial_calm db⟩ (Runs.admissible_and.mpr ⟨admissible, orderly⟩)

theorem no_deadlock (crate : UrlCrate) (db : Database) (consistent : Consistent db) (es : List Event)
    (admissible : Admissible crate db es) (orderly : OrderlyRun crate db es) :
    ¬Locks.Deadlocked (run crate db es).opened := by
  obtain ⟨sound, calm⟩ := run_calm consistent admissible orderly
  obtain ⟨rank, ordered⟩ := calm.ordered
  exact Locks.not_deadlocked (rowRank rank) fun _ _ waits _ next =>
    waits_ascend sound calm ordered waits next

def leasedTables : Database :=
  (Runtime.run releasesCrate (.start 0) [seedReleases 0 10, leaseReleases 0 1 2]).db

theorem leasedTables_consistent : Consistent leasedTables := by
  have reached : Runtime.Admissible releasesCrate (.start 0) [seedReleases 0 10, leaseReleases 0 1 2] := by
    decide
  exact reachable_consistent reached

def completing : Call := ⟨seconds 31, .complete (releasesJob 1 2) ⟨.null, .null⟩ .null⟩

def reaping : Call := ⟨seconds 31, .reapExpired⟩

/-- The completion of an expired lease and a reap, one lock each before both ask again. -/
def crossing : List Event :=
  [.start 1 completing [.attempt 2, .job 10], .request 1,
    .start 2 reaping [.job 10, .attempt 2], .request 2, .request 1, .request 2]

def stuckCompletion : Nat × Txn := (1, ⟨completing, [.attempt 2, .job 10], 1, true⟩)

def stuckReap : Nat × Txn := (2, ⟨reaping, [.job 10, .attempt 2], 1, true⟩)

theorem crossing_deadlocks : ¬∀ (crate : UrlCrate) (db : Database), Consistent db →
    ∀ es, Admissible crate db es → ¬Locks.Deadlocked (run crate db es).opened := by
  intro never
  have admissible : Admissible releasesCrate leasedTables crossing := by decide +kernel
  have opened : (run releasesCrate leasedTables crossing).opened = [stuckReap, stuckCompletion] := rfl
  refine never releasesCrate leasedTables leasedTables_consistent crossing admissible ?_
  rw [opened]
  have first : Locks.WaitsFor [stuckReap, stuckCompletion] stuckCompletion stuckReap :=
    ⟨by simp, by simp, by decide, rfl, .job 10, by decide, rfl⟩
  have second : Locks.WaitsFor [stuckReap, stuckCompletion] stuckReap stuckCompletion :=
    ⟨by simp, by simp, by decide, rfl, .attempt 2, by decide, rfl⟩
  exact ⟨stuckCompletion, .head first (.single second)⟩

/-- The same reap after the completion has given up, in the order of the job numbers. -/
def inTurn : List Event :=
  [.start 1 completing [.attempt 2, .job 10], .request 1, .start 2 reaping [.job 10, .attempt 2],
    .abort 1, .request 2, .request 2, .commit 2]

theorem no_deadlock_in_turn : ¬Locks.Deadlocked (run releasesCrate leasedTables inTurn).opened := by
  have agree : ∃ rank, [Row.job 10, .attempt 2].Pairwise (Ascending rank) ∧
      ∀ x ∈ [(1, opening completing [.attempt 2, .job 10] |>.take)], x.2.call.op.resolves = none →
        Ascends rank x.2 := by
    refine ⟨id, by decide, fun x member free => ?_⟩
    rw [List.mem_singleton.mp member] at free
    cases free
  have apart : Apart (run releasesCrate leasedTables (inTurn.take 1)) 1 ∧
      Apart (run releasesCrate leasedTables (inTurn.take 4)) 2 ∧
      Apart (run releasesCrate leasedTables (inTurn.take 5)) 2 := by decide +kernel
  exact no_deadlock releasesCrate leasedTables leasedTables_consistent inTurn (by decide +kernel)
    ⟨trivial, apart.1, agree, trivial, apart.2.1, apart.2.2, trivial, trivial⟩

end EalSync.Runtime.RowLocks
