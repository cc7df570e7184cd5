import EalSync.Runtime.Interleaving

/-! Receipts never change once closed, and each lease is resolved at most once, whatever commits
between the statements of complete and fail. -/
namespace EalSync.Runtime.Interleaving

theorem effect_keeps_closed {now : Timestamp} {db db' : Database} {op : Op}
    {result : Except Error Reply} (did : Effect now db op result db') {a : AttemptRow}
    (ha : a ∈ db.attempts) (closed : a.status ≠ .leased) : a ∈ db'.attempts := by
  have unmatched : ∀ job : CrawlJob, job.matchesAttempt a = false := by
    intro job
    simp [CrawlJob.matchesAttempt, closed]
  cases did with
  | refused => exact ha
  | inserted => exact ha
  | reseeded => exact ha
  | idle => exact ha
  | leased => exact List.mem_append_left _ ha
  | completed job => exact Table.mem_update_of_skipped _ ha (unmatched job)
  | failed job => exact Table.mem_update_of_skipped _ ha (unmatched job)
  | reaped =>
    refine Table.mem_update_of_skipped _ ha ?_
    by_contra selected
    exact closed (Consistent.abandons_iff.mp (by simpa using selected)).1

theorem closed_kept {crate : UrlCrate} {before after : List Event}
    (admissible : Admissible crate (before ++ after)) {a : AttemptRow}
    (ha : a ∈ (run crate before).db.attempts) (closed : a.status ≠ .leased) :
    a ∈ (run crate (before ++ after)).db.attempts := by
  have safe := Runs.admissible_invariant (fun _ _ h => step_sound crate h) initial_sound admissible
  rw [run, Runs.run_append]
  refine Runs.run_invariant (P := fun s => a ∈ s.db.attempts) ?_ ha
    ((Runs.admissible_append _ _ _ before after).mp safe).2
  intro s e member guard
  obtain ⟨_, _, _, _, did⟩ := step_effect crate guard.2 guard.1
  exact effect_keeps_closed did member closed

theorem closed_not_open {crate : UrlCrate} {before middle after : List Event} {e f : Event}
    (admissible : Admissible crate (before ++ e :: (middle ++ f :: after))) {key : AttemptRow → Uuid}
    (unique : ∀ db, Consistent db → (db.attempts.map key).Nodup) {k : Uuid}
    (closed : ∃ a ∈ (step crate (run crate before) e).db.attempts, key a = k ∧ a.status ≠ .leased)
    (opened : ∃ a ∈ (run crate (before ++ e :: middle)).db.attempts, key a = k ∧ a.status = .leased) :
    False := by
  have cut : before ++ e :: (middle ++ f :: after) = ((before ++ [e]) ++ middle) ++ f :: after := by simp
  have prefixes := ((Runs.admissible_append _ _ _ _ _).mp (cut ▸ admissible)).1
  obtain ⟨a, ha, same, shut⟩ := closed
  obtain ⟨b, hb, same', leased⟩ := opened
  rw [← run_snoc] at ha
  have kept := closed_kept prefixes ha shut
  rw [List.append_assoc, List.singleton_append] at kept prefixes
  have consistent := (run_sound prefixes).consistent
  rw [Table.unique_row (unique _ consistent) kept hb (same.trans same'.symm)] at shut
  exact shut leased

def Leaves (crate : UrlCrate) (s : State) (e : Event) (id : Uuid) : Prop :=
  (∃ a ∈ s.db.attempts, a.id = id ∧ a.status = .leased) ∧
    ∃ a ∈ (step crate s e).db.attempts, a.id = id ∧ a.status ≠ .leased

/-- A complete or fail with this token returns Ok, or a reap abandons its receipt. -/
def Resolves (crate : UrlCrate) (s : State) (e : Event) (token : Uuid) : Prop :=
  match e.action with
  | .finish tx => (∃ x ∈ s.opened, x.1 = tx ∧ x.2.call.job.leaseToken = token) ∧
      ReturnsOk crate s e
  | .atomically .reapExpired =>
    ∃ a ∈ s.db.attempts, a.leaseToken = token ∧ abandons e.now s.db a = true
  | _ => False

theorem resolves_closes {crate : UrlCrate} {s : State} (h : Sound s) {e : Event} {token : Uuid}
    (resolves : Resolves crate s e token) :
    (∃ a ∈ s.db.attempts, a.leaseToken = token ∧ a.status = .leased) ∧
      ∃ a ∈ (step crate s e).db.attempts, a.leaseToken = token ∧ a.status ≠ .leased := by
  obtain ⟨now, action⟩ := e
  unfold Resolves at resolves
  split at resolves
  · rename_i tx same
    dsimp only at same
    subst same
    obtain ⟨⟨x, member, rfl, rfl⟩, r, ok⟩ := resolves
    have found := Table.lookup_of_mem h.txs member
    obtain ⟨a, ha, _, matched⟩ := h.rows x member
    have lawful := x.2.call.resolution_lawful x.2.now
    simp only [answer, found, Option.map_some, h.finish_eq member] at ok
    rcases resolve_cases (Prod.eta (resolve x.2.resolution x.2.call.job s.db)).symm with
      ⟨_, failed, _⟩ | ⟨_, _, _, after⟩
    · rw [failed] at ok
      cases ok
    · obtain ⟨_, token, opened⟩ := CrawlJob.matchesAttempt_iff.mp matched
      refine ⟨⟨a, ha, token, opened⟩, x.2.resolution.setAttempt a, ?_, ?_, (lawful.closes a).1⟩
      · simp only [step, found, h.finish_eq member, after]
        exact Table.mem_update_of_selected _ ha matched
      · exact (AttemptRow.identity_eq (lawful.attemptIdentity a)).2.2.trans token
  · rename_i same
    dsimp only at same resolves
    subst same
    obtain ⟨a, ha, same, abandoned⟩ := resolves
    refine ⟨⟨a, ha, same, (Consistent.abandons_iff.mp abandoned).1⟩, abandon now a, ?_, same,
      by simp [abandon]⟩
    simp only [step, Op.exec, reply, h.consistent.reapExpired_eq now]
    exact Table.mem_update_of_selected _ ha abandoned
  · exact resolves.elim

def Event.tx (e : Event) : Option Nat :=
  match e.action with
  | .atomically _ => none
  | .start tx _ | .finish tx | .abort tx _ => some tx

theorem stays_opened {crate : UrlCrate} {s : State} {x : Nat × Pending} (member : x ∈ s.opened)
    {e : Event} (other : e.tx ≠ some x.1) : x ∈ (step crate s e).opened := by
  obtain ⟨now, action⟩ := e
  cases action with
  | atomically op => exact member
  | start tx call =>
    simp only [step]
    split
    · exact member
    · exact List.mem_cons_of_mem _ member
  | finish tx =>
    simp only [step]
    split
    · exact member
    · exact Locks.mem_close.mpr ⟨member, fun same => other (congrArg some same.symm)⟩
  | abort tx error => exact Locks.mem_close.mpr ⟨member, fun same => other (congrArg some same.symm)⟩

theorem opened_by {crate : UrlCrate} {s : State} {e : Event} {x : Nat × Pending}
    (member : x ∈ (step crate s e).opened) : x ∈ s.opened ∨ e.tx = some x.1 := by
  obtain ⟨now, action⟩ := e
  cases action with
  | atomically op => exact .inl member
  | start tx call =>
    simp only [step] at member
    split at member
    · exact .inl member
    · rcases List.mem_cons.mp member with rfl | old
      · exact .inr rfl
      · exact .inl old
  | finish tx =>
    simp only [step] at member
    split at member
    · exact .inl member
    · exact .inl (Locks.mem_close.mp member).1
  | abort tx error => exact .inl (Locks.mem_close.mp member).1

theorem start_goes_on_iff (crate : UrlCrate) {s : State} (h : Sound s) (now : Timestamp) (tx : Nat)
    (call : Call) :
    answer crate s ⟨now, .start tx call⟩ = none ↔
      ∃ a ∈ s.db.attempts, call.job.matchesAttempt a = true := by
  rw [← affected_attempt h.consistent]
  simp only [answer]
  constructor
  · intro goes
    split at goes
    · cases goes
    · rename_i first
      exact (resolveAttempt_ok first).1
  · intro attempt
    rw [resolveAttempt_eq (call.resolution_lawful now) attempt]

theorem finish_ok_iff (crate : UrlCrate) {s : State} (h : Sound s) {x : Nat × Pending}
    (member : x ∈ s.opened) (now : Timestamp) :
    ReturnsOk crate s ⟨now, .finish x.1⟩ ↔ ∃ row ∈ s.db.jobs, x.2.call.job.matchesJob row = true := by
  obtain ⟨a, ha, _, matched⟩ := h.rows x member
  have attempt := (affected_attempt h.consistent x.2.call.job).mpr ⟨a, ha, matched⟩
  have ok := h.consistent.resolve_ok_iff (x.2.call.resolution_lawful x.2.now) x.2.call.job
  simp only [ReturnsOk, answer, Table.lookup_of_mem h.txs member, Option.map_some,
    h.finish_eq member, ← affected_job h.consistent]
  constructor
  · rintro ⟨r, returned⟩
    cases result : (resolve x.2.resolution x.2.call.job s.db).1 with
    | error e =>
      rw [result] at returned
      cases returned
    | ok value => exact (ok.mp result).2
  · intro released
    have result := ok.mpr ⟨attempt, released⟩
    exact ⟨_, by rw [Pending.resolution, result]; rfl⟩

/-- A call returns Ok exactly when its receipt is open at its first UPDATE and its job holds the
token at its second. -/
theorem call_ok_iff {crate : UrlCrate} {before middle after : List Event} {now later : Timestamp}
    {tx : Nat} {call : Call}
    (admissible : Admissible crate
      (before ++ ⟨now, .start tx call⟩ :: (middle ++ ⟨later, .finish tx⟩ :: after)))
    (own : ∀ e ∈ middle, e.tx ≠ some tx) :
    ReturnsOk crate (run crate (before ++ ⟨now, .start tx call⟩ :: middle)) ⟨later, .finish tx⟩ ↔
      (∃ a ∈ (run crate before).db.attempts, call.job.matchesAttempt a = true) ∧
      ∃ row ∈ (run crate (before ++ ⟨now, .start tx call⟩ :: middle)).db.jobs,
        call.job.matchesJob row = true := by
  have cut : ∀ es, run crate (before ++ ⟨now, .start tx call⟩ :: es) =
      Runs.run (step crate) (step crate (run crate before) ⟨now, .start tx call⟩) es :=
    fun es => Runs.run_append _ _ before _
  have others : ∀ s, Runs.Admissible (step crate) (fun _ e => e.tx ≠ some tx) s middle :=
    fun s => Runs.admissible_iff_at.mpr fun _ e _ split => own e (by simp [split])
  have prefixes := (Runs.admissible_append _ _ _ before _).mp admissible
  have start := prefixes.2.1
  have closing := (Runs.admissible_append _ _ _ middle _).mp prefixes.2.2
  have sound := run_sound prefixes.1
  have soundLater : Sound (run crate (before ++ ⟨now, .start tx call⟩ :: middle)) := by
    rw [cut]
    exact Runs.run_invariant (fun _ _ h => step_sound crate h) (step_sound crate sound start) closing.1
  rw [← affected_attempt sound.consistent]
  by_cases attempt : Table.affected call.job.matchesAttempt (run crate before).db.attempts = 1
  · have first := resolveAttempt_eq (call.resolution_lawful now) attempt
    have kept : (tx, ⟨now, call, (run crate before).db.attempts.filter call.job.matchesAttempt⟩) ∈
        (run crate (before ++ ⟨now, .start tx call⟩ :: middle)).opened := by
      rw [cut]
      refine Runs.run_invariant (P := fun s : State => (tx, _) ∈ s.opened)
        (fun s e member other => stays_opened member other) ?_ (others _)
      simp only [step, first]
      exact List.mem_cons_self
    rw [finish_ok_iff crate soundLater kept, and_iff_right attempt]
  · -- the first UPDATE fails, so nothing is open under tx when it would finish
    have none : ∀ x ∈ (run crate (before ++ ⟨now, .start tx call⟩ :: middle)).opened, x.1 ≠ tx := by
      rw [cut]
      refine Runs.run_invariant (P := fun s => ∀ x ∈ s.opened, x.1 ≠ tx) ?_ ?_ (others _)
      · intro s e absent other x member same
        rcases opened_by member with old | mine
        · exact absent x old same
        · exact other (by rw [mine, same])
      · simp only [step]
        split
        · exact start.1
        · rename_i first
          exact absurd (resolveAttempt_ok first).1 attempt
    rw [cut] at none
    obtain ⟨x, member, same⟩ := closing.2.1
    exact absurd same (none x member)

/-- The run with the events of one transaction left out. -/
def without (tx : Nat) (es : List Event) : List Event := es.filter fun e => e.tx != some tx

/-- No call made in this transaction returns Ok. -/
def Fails (crate : UrlCrate) (tx : Nat) : State → List Event → Prop :=
  Runs.Admissible (step crate) fun s e => e.tx = some tx → ¬ReturnsOk crate s e

/-- The same tables, one transaction not there. -/
structure Lacks (tx : Nat) (s t : State) : Prop where
  db : t.db = s.db
  opened : t.opened = Locks.close tx s.opened

theorem failing_step {crate : UrlCrate} {tx : Nat} {s t : State} (lacks : Lacks tx s t) {e : Event}
    (mine : e.tx = some tx) (fails : ¬ReturnsOk crate s e) : Lacks tx (step crate s e) t := by
  obtain ⟨now, action⟩ := e
  cases action with
  | atomically op => cases mine
  | start own call =>
    cases mine
    simp only [step]
    split
    · exact lacks
    · exact ⟨lacks.db, by rw [lacks.opened, Locks.close_cons_self]⟩
  | finish own =>
    cases mine
    simp only [step]
    split
    · exact lacks
    · rename_i x found
      refine ⟨lacks.db.trans ?_, by rw [lacks.opened, Locks.close_close]⟩
      rcases transaction_cases (Prod.eta (x.2.finish s.db)).symm with ⟨_, _, _, same⟩ | ⟨_, _, ok⟩
      · exact same.symm
      · refine absurd ⟨x.2.call.done, ?_⟩ fails
        simp only [answer, found, Option.map_some, ok]
        rfl
  | abort own error =>
    cases mine
    exact ⟨lacks.db, by rw [lacks.opened]; exact (Locks.close_close tx s.opened).symm⟩

theorem locked_of_lacks {tx : Nat} {s t : State} (lacks : Lacks tx s t) {a : AttemptRow}
    (locked : t.Locked a) : s.Locked a := by
  obtain ⟨x, member, b, hb, same⟩ := locked
  rw [lacks.opened] at member
  exact ⟨x, (Locks.mem_close.mp member).1, b, hb, same⟩

theorem other_admits {tx : Nat} {s t : State} (lacks : Lacks tx s t) {e : Event}
    (other : e.tx ≠ some tx) (admits : Admits s e) : Admits t e := by
  have opens : ∀ own, (∃ x ∈ s.opened, x.1 = own) → own ≠ tx → ∃ x ∈ t.opened, x.1 = own := by
    rintro own ⟨x, member, rfl⟩ differ
    rw [lacks.opened]
    exact ⟨x, Locks.mem_close.mpr ⟨member, differ⟩, rfl⟩
  obtain ⟨now, action⟩ := e
  cases action with
  | atomically op =>
    refine ⟨lacks.db ▸ admits.1, ?_⟩
    cases op with
    | seed => trivial
    | lease => trivial
    | complete => exact admits.2
    | fail => exact admits.2
    | reapExpired =>
      intro a ha abandoned locked
      rw [lacks.db] at ha abandoned
      exact admits.2 a ha abandoned (locked_of_lacks lacks locked)
  | start own call =>
    refine ⟨?_, ?_⟩
    · intro x member
      rw [lacks.opened] at member
      exact admits.1 x (Locks.mem_close.mp member).1
    · intro a ha matched locked
      rw [lacks.db] at ha
      exact admits.2 a ha matched (locked_of_lacks lacks locked)
  | finish own => exact opens own admits fun same => other (congrArg some same)
  | abort own error => exact opens own admits fun same => other (congrArg some same)

theorem other_step {crate : UrlCrate} {tx : Nat} {s t : State} (lacks : Lacks tx s t) {e : Event}
    (other : e.tx ≠ some tx) : Lacks tx (step crate s e) (step crate t e) := by
  obtain ⟨db, opened⟩ := t
  obtain ⟨rfl, rfl⟩ := lacks
  obtain ⟨now, action⟩ := e
  cases action with
  | atomically op => exact ⟨rfl, rfl⟩
  | start own call =>
    have differ : own ≠ tx := fun same => other (congrArg some same)
    simp only [step]
    split
    · exact ⟨rfl, rfl⟩
    · exact ⟨rfl, (Locks.close_cons differ _).symm⟩
  | finish own =>
    have differ : own ≠ tx := fun same => other (congrArg some same)
    simp only [step, Locks.lookup_close differ]
    split
    · exact ⟨rfl, rfl⟩
    · exact ⟨rfl, Locks.close_comm own tx s.opened⟩
  | abort own error => exact ⟨rfl, Locks.close_comm own tx s.opened⟩

theorem erased {crate : UrlCrate} {tx : Nat} {s t : State} (lacks : Lacks tx s t) {es : List Event}
    (admissible : Runs.Admissible (step crate) Admits s es) (fails : Fails crate tx s es) :
    Runs.Admissible (step crate) Admits t (without tx es) ∧
      Lacks tx (Runs.run (step crate) s es) (Runs.run (step crate) t (without tx es)) := by
  induction es generalizing s t with
  | nil => exact ⟨trivial, lacks⟩
  | cons e rest ih =>
    by_cases mine : e.tx = some tx
    · have skip : without tx (e :: rest) = without tx rest := by simp [without, mine]
      rw [skip]
      exact ih (failing_step lacks mine (fails.1 mine)) admissible.2 fails.2
    · have keep : without tx (e :: rest) = e :: without tx rest := by simp [without, mine]
      obtain ⟨tail, same⟩ := ih (other_step lacks mine) admissible.2 fails.2
      rw [keep]
      exact ⟨⟨other_admits lacks mine admissible.1, tail⟩, same⟩

theorem Lacks.refl {tx : Nat} {s : State} (absent : ∀ x ∈ s.opened, x.1 ≠ tx) : Lacks tx s s where
  db := rfl
  opened := (Locks.close_absent absent).symm

theorem Lacks.eq {tx : Nat} {s t : State} (lacks : Lacks tx s t) (absent : ∀ x ∈ s.opened, x.1 ≠ tx) :
    t = s := by
  obtain ⟨db, opened⟩ := t
  obtain ⟨rfl, rfl⟩ := lacks
  rw [Locks.close_absent absent]

/-- A stretch of a run in which one transaction began, failed and ended leaves all as it would
without that transaction. -/
theorem erased_within {crate : UrlCrate} {tx : Nat} {before during after : List Event}
    (admissible : Admissible crate (before ++ (during ++ after)))
    (begins : ∀ x ∈ (run crate before).opened, x.1 ≠ tx)
    (fails : Fails crate tx (run crate before) during)
    (ends : ∀ x ∈ (run crate (before ++ during)).opened, x.1 ≠ tx) :
    Admissible crate (before ++ (without tx during ++ after)) ∧
      run crate (before ++ without tx during) = run crate (before ++ during) := by
  have cut := (Runs.admissible_append _ _ _ before _).mp admissible
  have inner := (Runs.admissible_append _ _ _ during after).mp cut.2
  obtain ⟨goes, lacks⟩ := erased (.refl begins) inner.1 fails
  have joined : ∀ es, run crate (before ++ es) = Runs.run (step crate) (run crate before) es :=
    Runs.run_append (step crate) _ before
  rw [joined] at ends
  have same := lacks.eq ends
  refine ⟨(Runs.admissible_append _ _ _ before _).mpr ⟨cut.1,
    (Runs.admissible_append _ _ _ _ after).mpr ⟨goes, ?_⟩⟩, by rw [joined, joined, same]⟩
  exact same ▸ inner.2

structure Immutable (crate : UrlCrate) (es : List Event) : Prop where
  terminal : ∀ before after, es = before ++ after → ∀ a ∈ (run crate before).db.attempts,
    a.status ≠ .leased → a ∈ (run crate es).db.attempts
  leavesOnce : ∀ before e middle f after, es = before ++ e :: (middle ++ f :: after) → ∀ id,
    Leaves crate (run crate before) e id → ¬Leaves crate (run crate (before ++ e :: middle)) f id
  resolvedOnce : ∀ before e middle f after, es = before ++ e :: (middle ++ f :: after) → ∀ token,
    Resolves crate (run crate before) e token →
      ¬Resolves crate (run crate (before ++ e :: middle)) f token
  goesOn : ∀ before now tx call after, es = before ++ ⟨now, .start tx call⟩ :: after →
    (answer crate (run crate before) ⟨now, .start tx call⟩ = none ↔
      ∃ a ∈ (run crate before).db.attempts, call.job.matchesAttempt a = true)
  okExactly : ∀ before now tx call middle later after,
    es = before ++ ⟨now, .start tx call⟩ :: (middle ++ ⟨later, .finish tx⟩ :: after) →
    (∀ e ∈ middle, e.tx ≠ some tx) →
    (ReturnsOk crate (run crate (before ++ ⟨now, .start tx call⟩ :: middle)) ⟨later, .finish tx⟩ ↔
      (∃ a ∈ (run crate before).db.attempts, call.job.matchesAttempt a = true) ∧
      ∃ row ∈ (run crate (before ++ ⟨now, .start tx call⟩ :: middle)).db.jobs,
        call.job.matchesJob row = true)
  errNothing : ∀ before during after tx, es = before ++ (during ++ after) →
    (∀ x ∈ (run crate before).opened, x.1 ≠ tx) → Fails crate tx (run crate before) during →
    (∀ x ∈ (run crate (before ++ during)).opened, x.1 ≠ tx) →
    Admissible crate (before ++ (without tx during ++ after)) ∧
      run crate (before ++ without tx during) = run crate (before ++ during)

theorem receipts_immutable (crate : UrlCrate) (es : List Event) (admissible : Admissible crate es) :
    Immutable crate es where
  terminal before after split a ha closed := by
    subst split
    exact closed_kept admissible ha closed
  leavesOnce before e middle f after split id first second := by
    subst split
    exact closed_not_open admissible (fun _ h => h.attemptIds) first.2 second.1
  resolvedOnce before e middle f after split token first second := by
    subst split
    have cut : before ++ e :: (middle ++ f :: after) = (before ++ e :: middle) ++ f :: after := by simp
    have one := run_sound ((Runs.admissible_append _ _ _ before _).mp admissible).1
    have two := run_sound ((Runs.admissible_append _ _ _ _ _).mp (cut ▸ admissible)).1
    exact closed_not_open admissible (fun _ h => h.tokens) (resolves_closes one first).2
      (resolves_closes two second).1
  goesOn before now tx call after split := by
    subst split
    exact start_goes_on_iff crate
      (run_sound ((Runs.admissible_append _ _ _ before _).mp admissible).1) now tx call
  okExactly before now tx call middle later after split own := by
    subst split
    exact call_ok_iff admissible own
  errNothing before during after tx split begins fails ends := by
    subst split
    exact erased_within admissible begins fails ends

def whole (e : Runtime.Event) : Event := ⟨e.now, .atomically e.op⟩

def completing (token attemptId : Uuid) : Call :=
  .complete (releasesJob token attemptId) ⟨.null, .null⟩ .null

/-- A stale worker closes its receipt, loses the job to a takeover and is rolled back. -/
theorem receipts_immutable_stale :
    Immutable releasesCrate [whole (seedReleases 0 10), whole (leaseReleases 1 20 30),
      ⟨seconds 30, .start 1 (completing 20 30)⟩, whole (leaseReleases 32 21 31),
      ⟨seconds 33, .finish 1⟩, ⟨seconds 40, .start 2 (completing 21 31)⟩,
      ⟨seconds 41, .finish 2⟩] :=
  receipts_immutable releasesCrate _ (by decide)

end EalSync.Runtime.Interleaving
