import EalSync.Lib.Locks
import EalSync.Runtime.Progress

/-! Complete and fail one statement at a time. Each keeps the row lock of its attempt between its
two UPDATE statements, while other transactions commit; seed, lease and reap_expired take effect
at one point. A statement that would wait for a lock is not admitted until the lock is gone. -/
namespace EalSync.Runtime.Interleaving

inductive Call where
  | complete (job : CrawlJob) (output : CrawlCommandOutput) (apiReceipt : Json)
  | fail (job : CrawlJob) (errorCode : Str) (details : Json)

namespace Call

def job : Call → CrawlJob
  | complete job _ _ => job
  | fail job _ _ => job

def resolution (now : Timestamp) : Call → Resolution
  | complete _ output apiReceipt => completion output apiReceipt now
  | fail job errorCode details => failure job errorCode details now

def op : Call → Op
  | complete job output apiReceipt => .complete job output apiReceipt
  | fail job errorCode details => .fail job errorCode details

def done : Call → Reply
  | complete .. => .completed
  | fail .. => .failed

theorem resolution_lawful (call : Call) (now : Timestamp) : (call.resolution now).Lawful := by
  cases call with
  | complete job output apiReceipt => exact completion_lawful output apiReceipt now
  | fail job errorCode details => exact failure_lawful job errorCode details now

/-- A call whose statements run one right after the other. -/
def atOnce (call : Call) (now : Timestamp) (db : Database) : Except Error Reply × Database :=
  reply (fun _ => call.done) (resolve (call.resolution now) call.job db)

/-- With values that jsonb takes, complete and fail do just that. -/
theorem exec_eq {call : Call} (stored : call.op.storable = true) (crate : UrlCrate) (now : Timestamp)
    (db : Database) : call.op.exec crate now db = call.atOnce now db := by
  cases call with
  | complete job output apiReceipt => exact exec_complete crate now db job stored
  | fail job errorCode details => exact exec_fail crate now db job stored

theorem atOnce_effect (call : Call) (now : Timestamp) (db : Database) :
    Effect now db call.op (call.atOnce now db).1 (call.atOnce now db).2 := by
  cases call with
  | complete job output apiReceipt => exact complete_effect now db job output apiReceipt
  | fail job errorCode details => exact fail_effect now db job errorCode details

end Call

/-- A transaction after its first UPDATE: now() as it began, and the row versions that it has
rewritten and locked. -/
structure Pending where
  now : Timestamp
  call : Call
  rows : List AttemptRow

namespace Pending

def resolution (p : Pending) : Resolution := p.call.resolution p.now

/-- The attempts as the transaction leaves them. -/
def write (p : Pending) (attempts : List AttemptRow) : List AttemptRow :=
  attempts.map fun a => (Table.lookup AttemptRow.id a.id p.rows).elim a p.resolution.setAttempt

/-- The second UPDATE, and the commit or rollback after it. -/
def finish (p : Pending) (db : Database) : Except Error Unit × Database :=
  transaction db <| do
    let db ← releaseJob p.resolution p.call.job { db with attempts := p.write db.attempts }
    .ok ((), db)

end Pending

inductive Action where
  | atomically (op : Op)
  | start (tx : Nat) (call : Call)
  | finish (tx : Nat)
  | abort (tx : Nat) (error : Error)

structure Event where
  now : Timestamp
  action : Action

structure State where
  db : Database
  opened : List (Nat × Pending)

def State.initial : State := ⟨Database.migrated, []⟩

section

variable (crate : UrlCrate)

def step (s : State) (e : Event) : State :=
  match e.action with
  | .atomically op => { s with db := (op.exec crate e.now s.db).2 }
  | .start tx call =>
    match resolveAttempt (call.resolution e.now) call.job s.db with
    | .error _ => s
    | .ok _ =>
      { s with opened := (tx, ⟨e.now, call, s.db.attempts.filter call.job.matchesAttempt⟩) :: s.opened }
  | .finish tx =>
    match Table.lookup Prod.fst tx s.opened with
    | none => s
    | some x => ⟨(x.2.finish s.db).2, Locks.close tx s.opened⟩
  | .abort tx _ => { s with opened := Locks.close tx s.opened }

/-- What the call returns at this event; none while it goes on. -/
def answer (s : State) (e : Event) : Option (Except Error Reply) :=
  match e.action with
  | .atomically op => some (op.exec crate e.now s.db).1
  | .start _ call =>
    match resolveAttempt (call.resolution e.now) call.job s.db with
    | .error error => some (.error error)
    | .ok _ => none
  | .finish tx =>
    (Table.lookup Prod.fst tx s.opened).map fun x => (x.2.finish s.db).1.map fun _ => x.2.call.done
  | .abort _ error => some (.error error)

end

def ReturnsOk (crate : UrlCrate) (s : State) (e : Event) : Prop :=
  ∃ r, answer crate s e = some (.ok r)

/-- Another transaction holds the lock of this attempt. -/
def State.Locked (s : State) (a : AttemptRow) : Prop := ∃ x ∈ s.opened, ∃ b ∈ x.2.rows, b.id = a.id

instance (s : State) (a : AttemptRow) : Decidable (s.Locked a) :=
  inferInstanceAs (Decidable (∃ x ∈ s.opened, _))

/-- An operation taken as a whole waits for no lock; complete and fail are not taken so. -/
def Unblocked (s : State) (now : Timestamp) : Op → Prop
  | .seed .. | .lease .. => True
  | .reapExpired => ∀ a ∈ s.db.attempts, abandons now s.db a = true → ¬s.Locked a
  | .complete .. | .fail .. => False

instance (s : State) (now : Timestamp) : (op : Op) → Decidable (Unblocked s now op)
  | .seed .. | .lease .. => inferInstanceAs (Decidable True)
  | .reapExpired => inferInstanceAs (Decidable (∀ a ∈ s.db.attempts, _))
  | .complete .. | .fail .. => inferInstanceAs (Decidable False)

def Admits (s : State) (e : Event) : Prop :=
  match e.action with
  | .atomically op => op.Fresh s.db ∧ Unblocked s e.now op
  | .start tx call =>
    (∀ x ∈ s.opened, x.1 ≠ tx) ∧
      ∀ a ∈ s.db.attempts, call.job.matchesAttempt a = true → ¬s.Locked a
  | .finish tx | .abort tx _ => ∃ x ∈ s.opened, x.1 = tx

instance (s : State) (e : Event) : Decidable (Admits s e) := by
  unfold Admits
  split <;> infer_instance

def run (crate : UrlCrate) (es : List Event) : State := Runs.run (step crate) .initial es

theorem run_snoc (crate : UrlCrate) (es : List Event) (e : Event) :
    run crate (es ++ [e]) = step crate (run crate es) e := Runs.run_snoc (step crate) _ es e

def Admissible (crate : UrlCrate) (es : List Event) : Prop :=
  Runs.Admissible (step crate) Admits .initial es

instance (crate : UrlCrate) (es : List Event) : Decidable (Admissible crate es) :=
  Runs.decidableAdmissible (step crate) Admits .initial es

/-- The locks of open transactions: one open receipt each, still as its first UPDATE found it, and
no two of them the same. -/
structure Sound (s : State) : Prop where
  consistent : Consistent s.db
  txs : (s.opened.map Prod.fst).Nodup
  rows : ∀ x ∈ s.opened, ∃ a ∈ s.db.attempts, x.2.rows = [a] ∧ x.2.call.job.matchesAttempt a = true
  disjoint : ∀ x ∈ s.opened, ∀ y ∈ s.opened, x.1 ≠ y.1 →
    ∀ a ∈ x.2.rows, ∀ b ∈ y.2.rows, a.id ≠ b.id

theorem initial_sound : Sound .initial where
  consistent := migrated_consistent
  txs := List.nodup_nil
  rows _ member := absurd member List.not_mem_nil
  disjoint _ member := absurd member List.not_mem_nil

theorem affected_attempt {db : Database} (h : Consistent db) (job : CrawlJob) :
    Table.affected job.matchesAttempt db.attempts = 1 ↔
      ∃ a ∈ db.attempts, job.matchesAttempt a = true :=
  Table.affected_eq_one h.attemptIds job.attemptId fun _ _ matched =>
    (CrawlJob.matchesAttempt_iff.mp matched).1

theorem affected_job {db : Database} (h : Consistent db) (job : CrawlJob) :
    Table.affected job.matchesJob db.jobs = 1 ↔ ∃ row ∈ db.jobs, job.matchesJob row = true :=
  Table.affected_eq_one h.jobIds job.id fun _ _ matched => (CrawlJob.matchesJob_iff.mp matched).1

theorem matched_unique {db : Database} (h : Consistent db) {job : CrawlJob} {a b : AttemptRow}
    (ha : a ∈ db.attempts) (hb : b ∈ db.attempts) (one : job.matchesAttempt a = true)
    (two : job.matchesAttempt b = true) : a = b := by
  have first := CrawlJob.matchesAttempt_iff.mp one
  have second := CrawlJob.matchesAttempt_iff.mp two
  exact h.same_attempt ha hb (first.2.1.trans second.2.1.symm)

namespace Sound

variable {s : State}

/-- What a transaction wrote is what its first UPDATE would write now: nobody touched its row. -/
theorem write_eq (h : Sound s) {x : Nat × Pending} (member : x ∈ s.opened) :
    x.2.write s.db.attempts =
      Table.update x.2.call.job.matchesAttempt x.2.resolution.setAttempt s.db.attempts := by
  obtain ⟨a, ha, rows, matched⟩ := h.rows x member
  refine List.map_congr_left fun b hb => ?_
  rw [rows]
  by_cases same : a.id = b.id
  · have equal := Table.unique_row h.consistent.attemptIds ha hb same
    subst equal
    simp [Table.lookup, matched]
  · have skipped : x.2.call.job.matchesAttempt b ≠ true := by
      intro other
      exact same (congrArg AttemptRow.id (matched_unique h.consistent ha hb matched other))
    simp [Table.lookup, same, skipped]

/-- The second UPDATE and its commit do what the whole call would do at that point. -/
theorem finish_eq (h : Sound s) {x : Nat × Pending} (member : x ∈ s.opened) :
    x.2.finish s.db = resolve x.2.resolution x.2.call.job s.db := by
  obtain ⟨a, ha, _, matched⟩ := h.rows x member
  have attempt := (affected_attempt h.consistent x.2.call.job).mpr ⟨a, ha, matched⟩
  have first := resolveAttempt_eq (x.2.call.resolution_lawful x.2.now) attempt
  rw [Pending.finish, h.write_eq member, resolve, Pending.resolution, first]
  rfl

end Sound

/-- Serialization: the committed tables change as if each call ran whole at its second UPDATE. -/
theorem step_serial (crate : UrlCrate) {s : State} (h : Sound s) (e : Event) :
    (step crate s e).db = match e.action with
      | .atomically op => (op.exec crate e.now s.db).2
      | .finish tx =>
        (Table.lookup Prod.fst tx s.opened).elim s.db fun x => (x.2.call.atOnce x.2.now s.db).2
      | .start .. | .abort .. => s.db := by
  obtain ⟨now, action⟩ := e
  cases action with
  | atomically op => rfl
  | start tx call =>
    simp only [step]
    split <;> rfl
  | finish tx =>
    simp only [step]
    cases found : Table.lookup Prod.fst tx s.opened with
    | none => rfl
    | some x =>
      have member := (Table.lookup_mem found).1
      simp only [Option.elim_some, Call.atOnce, reply, h.finish_eq member]
      rfl
  | abort tx error => rfl

theorem step_effect (crate : UrlCrate) {s : State} (h : Sound s) {e : Event} (admits : Admits s e) :
    ∃ now op result, op.Fresh s.db ∧ Effect now s.db op result (step crate s e).db := by
  have nothing : ∃ now op result, Op.Fresh s.db op ∧ Effect now s.db op result s.db :=
    ⟨0, .reapExpired, _, trivial, .refused _ ⟨""⟩⟩
  rw [step_serial crate h]
  obtain ⟨now, action⟩ := e
  cases action with
  | atomically op => exact ⟨now, op, _, admits.1, exec_effect crate now s.db op⟩
  | start tx call => exact nothing
  | finish tx =>
    dsimp only
    cases Table.lookup Prod.fst tx s.opened with
    | none => exact nothing
    | some x =>
      refine ⟨x.2.now, x.2.call.op, _, ?_, x.2.call.atOnce_effect x.2.now s.db⟩
      cases x.2.call <;> trivial
  | abort tx error => exact nothing

theorem State.locked_of_rows {s : State} {x : Nat × Pending} (member : x ∈ s.opened)
    {a : AttemptRow} (rows : x.2.rows = [a]) : s.Locked a :=
  ⟨x, member, a, by rw [rows]; exact List.mem_cons_self, rfl⟩

/-- A receipt that an operation taken as a whole does not wait for stays as it is. -/
theorem unblocked_keeps {s : State} {now : Timestamp} {op : Op} (unblocked : Unblocked s now op)
    {result : Except Error Reply} {db' : Database} (did : Effect now s.db op result db')
    {a : AttemptRow} (ha : a ∈ s.db.attempts) (locked : s.Locked a) : a ∈ db'.attempts := by
  cases did with
  | refused => exact ha
  | inserted => exact ha
  | reseeded => exact ha
  | idle => exact ha
  | leased => exact List.mem_append_left _ ha
  | completed => exact unblocked.elim
  | failed => exact unblocked.elim
  | reaped =>
    refine Table.mem_update_of_skipped _ ha ?_
    by_contra selected
    exact unblocked a ha (by simpa using selected) locked

namespace Sound

variable {s : State}

/-- Closing some transactions keeps the locks of the others sound, when their receipts are kept. -/
theorem narrow (h : Sound s) {s' : State} (consistent : Consistent s'.db)
    (txs : (s'.opened.map Prod.fst).Nodup) (fewer : ∀ x ∈ s'.opened, x ∈ s.opened)
    (kept : ∀ x ∈ s'.opened, ∀ a ∈ s.db.attempts, x.2.rows = [a] → a ∈ s'.db.attempts) : Sound s' where
  consistent := consistent
  txs := txs
  rows x member := by
    obtain ⟨a, ha, rows, matched⟩ := h.rows x (fewer x member)
    exact ⟨a, kept x member a ha rows, rows, matched⟩
  disjoint x hx y hy := h.disjoint x (fewer x hx) y (fewer y hy)

theorem start (h : Sound s) {tx : Nat} {call : Call} {now : Timestamp}
    (fresh : ∀ x ∈ s.opened, x.1 ≠ tx)
    (free : ∀ a ∈ s.db.attempts, call.job.matchesAttempt a = true → ¬s.Locked a)
    (first : Table.affected call.job.matchesAttempt s.db.attempts = 1) :
    Sound { s with
      opened := (tx, ⟨now, call, s.db.attempts.filter call.job.matchesAttempt⟩) :: s.opened } := by
  obtain ⟨a, ha, matched⟩ := (affected_attempt h.consistent call.job).mp first
  have rows : s.db.attempts.filter call.job.matchesAttempt = [a] := by
    rw [Table.affected, List.countP_eq_length_filter, List.length_eq_one_iff] at first
    obtain ⟨b, only⟩ := first
    have member : a ∈ s.db.attempts.filter call.job.matchesAttempt := List.mem_filter.mpr ⟨ha, matched⟩
    rw [only, List.mem_singleton] at member
    rw [only, member]
  rw [rows]
  have apart : ∀ x ∈ s.opened, ∀ b ∈ x.2.rows, b.id ≠ a.id :=
    fun x hx b hb same => free a ha matched ⟨x, hx, b, hb, same⟩
  refine ⟨h.consistent, ?_, ?_, ?_⟩
  · refine List.nodup_cons.mpr ⟨?_, h.txs⟩
    intro known
    obtain ⟨x, hx, same⟩ := List.mem_map.mp known
    exact fresh x hx same
  · intro x hx
    rcases List.mem_cons.mp hx with rfl | old
    · exact ⟨a, ha, rfl, matched⟩
    · exact h.rows x old
  · intro x hx y hy differ b hb c hc
    rcases List.mem_cons.mp hx with rfl | oldX <;> rcases List.mem_cons.mp hy with rfl | oldY
    · exact absurd rfl differ
    · rw [List.mem_singleton.mp hb]
      exact (apart y oldY c hc).symm
    · rw [List.mem_singleton.mp hc]
      exact apart x oldX b hb
    · exact h.disjoint x oldX y oldY differ b hb c hc

end Sound

theorem step_sound (crate : UrlCrate) {s : State} {e : Event} (h : Sound s) (admits : Admits s e) :
    Sound (step crate s e) := by
  obtain ⟨_, _, _, fresh, did⟩ := step_effect crate h admits
  have consistent := h.consistent.effect did fresh
  obtain ⟨now, action⟩ := e
  cases action with
  | atomically op =>
    refine h.narrow consistent h.txs (fun _ member => member) ?_
    intro x hx a ha rows
    exact unblocked_keeps admits.2 (exec_effect crate now s.db op) ha (s.locked_of_rows hx rows)
  | start tx call =>
    simp only [step]
    split
    · exact h
    · rename_i first
      exact h.start admits.1 admits.2 (resolveAttempt_ok first).1
  | finish tx =>
    simp only [step] at consistent ⊢
    cases found : Table.lookup Prod.fst tx s.opened with
    | none => exact h
    | some x =>
      rw [found] at consistent
      obtain ⟨member, rfl⟩ := Table.lookup_mem found
      refine h.narrow consistent (Locks.close_txs _ h.txs) (fun y hy => (Locks.mem_close.mp hy).1) ?_
      intro y hy a ha rows
      obtain ⟨hy, other⟩ := Locks.mem_close.mp hy
      dsimp only
      rw [h.finish_eq member]
      rcases resolve_cases (Prod.eta (resolve x.2.resolution x.2.call.job s.db)).symm with
        ⟨_, _, same⟩ | ⟨_, _, _, after⟩
      · rw [same]
        exact ha
      · rw [after]
        refine Table.mem_update_of_skipped _ ha ?_
        by_contra selected
        obtain ⟨b, hb, rowsX, matched⟩ := h.rows x member
        have equal := matched_unique h.consistent ha hb (by simpa using selected) matched
        exact h.disjoint y hy x member other a (by simp [rows]) b (by simp [rowsX])
          (congrArg AttemptRow.id equal)
  | abort tx error =>
    exact h.narrow consistent (Locks.close_txs _ h.txs) (fun y hy => (Locks.mem_close.mp hy).1)
      (fun _ _ _ ha _ => ha)

theorem run_sound {crate : UrlCrate} {es : List Event} (admissible : Admissible crate es) :
    Sound (run crate es) :=
  Runs.run_invariant (fun _ _ h => step_sound crate h) initial_sound admissible

end EalSync.Runtime.Interleaving
