import EalSync.Ingestion.Limiter
import Mathlib.Algebra.BigOperators.Fin

/-! Calls of fetch come to an end. A call gives its permit back before it asks for another one, so
some call can always go on, and the steps that calls under way can take are numbered. -/
namespace EalSync.Ingestion.Limiter

variable {n : Nat}

/-- The call that an event is of. -/
def Event.of : Event n → Fin n
  | fetch c _ | limiter c | acquire c | send c _ | respond c _ | drop c => c

/-- A call under way goes on. -/
def Event.goesOn : Event n → Prop
  | limiter _ | acquire _ | send .. | respond .. => True
  | fetch .. | drop _ => False

/-- What a call can do next when the network answers this. -/
def turns (env : Environment) (result : Except Str Response) (c : Fin n) : List (Event n) :=
  [.limiter c, .acquire c, .send c env, .respond c result]

namespace Call

def fetching : Call → Option Fetching
  | ready fetching | waiting fetching _ | holding fetching _ | inFlight fetching _ => some fetching
  | idle => none

/-- How many steps are left in this round, its own ones included. -/
def left : Call → Nat
  | idle => 0
  | ready _ => 4
  | waiting .. => 3
  | holding .. => 2
  | inFlight .. => 1

/-- The steps that a call can still take. -/
def steps (max : Nat) (call : Call) : Nat :=
  call.left + call.fetching.elim 0 fun fetching => 4 * (max - fetching.redirectCount)

end Call

/-- What one event makes of the call that it is of. -/
inductive Goes (max : Nat) : Call → Call → Prop
  | starts (fetching : Fetching) (first : fetching.redirectCount = 0) : Goes max .idle (.ready fetching)
  | asks (fetching : Fetching) (key : Str) : Goes max (.ready fetching) (.waiting fetching key)
  | takes (fetching : Fetching) (key : Str) :
      Goes max (.waiting fetching key) (.holding fetching key)
  | sends (fetching : Fetching) (key : Str) :
      Goes max (.holding fetching key) (.inFlight fetching key)
  | redirected (fetching : Fetching) (key : Str) (next : Url) (below : fetching.redirectCount ≠ max) :
      Goes max (.inFlight fetching key)
        (.ready { fetching with redirectCount := fetching.redirectCount + 1, current := next })
  | ends (call : Call) : Goes max call .idle

namespace Goes

variable {max : Nat} {before after : Call}

theorem counted (goes : Goes max before after)
    (counted : ∀ fetching ∈ before.fetching, fetching.redirectCount ≤ max) :
    ∀ fetching ∈ after.fetching, fetching.redirectCount ≤ max := by
  cases goes with
  | starts fetching first =>
    rintro _ ⟨⟩
    exact first ▸ Nat.zero_le max
  | asks fetching => exact counted
  | takes fetching => exact counted
  | sends fetching => exact counted
  | redirected fetching key next below =>
    rintro _ ⟨⟩
    have here := counted fetching rfl
    exact Nat.succ_le_of_lt (lt_of_le_of_ne here below)
  | ends => exact fun _ none => nomatch none

theorem falls (goes : Goes max before after) (busy : before ≠ .idle)
    (counted : ∀ fetching ∈ before.fetching, fetching.redirectCount ≤ max) :
    after.steps max < before.steps max := by
  cases goes with
  | starts => exact absurd rfl busy
  | asks => simp [Call.steps, Call.left, Call.fetching]
  | takes => simp [Call.steps, Call.left, Call.fetching]
  | sends => simp [Call.steps, Call.left, Call.fetching]
  | redirected fetching key next below =>
    have here := counted fetching rfl
    simp only [Call.steps, Call.left, Call.fetching, Option.elim_some]
    omega
  | ends =>
    cases before with
    | idle => exact absurd rfl busy
    | ready => simp [Call.steps, Call.left, Call.fetching]
    | waiting => simp [Call.steps, Call.left, Call.fetching]
    | holding => simp [Call.steps, Call.left, Call.fetching]
    | inFlight => simp [Call.steps, Call.left, Call.fetching]

end Goes

section

variable {Input : Type} {crate : UrlCrate} {semantics : Semantics Input} {fetcher : HttpFetcher}
  {s : State n}

theorem start_goes (max : Nat) (request : FetchRequest) : Goes max .idle (start crate request) := by
  unfold start
  split
  · exact .ends _
  · split
    · exact .ends _
    · exact .starts _ rfl

/-- An event moves the call that it is of and no other; who waits has a limiter to wait for. -/
structure Turn (max : Nat) (s s' : State n) (c : Fin n) : Prop where
  others : ∀ d, d ≠ c → s'.calls d = s.calls d
  goes : Goes max (s.calls c) (s'.calls c)
  served : ∀ url key, (s'.calls c).awaited = some (url, key) → (s'.hostLimiters key).isSome

theorem turn_update {max : Nat} {c : Fin n} {before call : Call} {limiters : Str → Option Nat}
    (here : s.calls c = before) (goes : Goes max before call)
    (served : ∀ url key, call.awaited = some (url, key) → (limiters key).isSome) :
    Turn max s ⟨limiters, Function.update s.calls c call⟩ c where
  others d other := Function.update_of_ne other _ _
  goes := by
    show Goes max (s.calls c) (Function.update s.calls c call c)
    rwa [Function.update_self, here]
  served := by
    show ∀ url key, (Function.update s.calls c call c).awaited = _ → _
    rwa [Function.update_self]

/-- A call that does not wait afterwards. -/
theorem turn_rests {max : Nat} {c : Fin n} {before call : Call} {limiters : Str → Option Nat}
    (here : s.calls c = before) (goes : Goes max before call) (rests : call.awaited = none) :
    Turn max s ⟨limiters, Function.update s.calls c call⟩ c :=
  turn_update here goes fun _ _ awaits => nomatch rests.symm.trans awaits

theorem awaited_start (request : FetchRequest) : (start crate request).awaited = none := by
  unfold start
  split
  · rfl
  · split <;> rfl

theorem askLimiter_turn {c : Fin n} {fetching : Fetching} (here : s.calls c = .ready fetching) :
    Turn fetcher.policy.maxRedirects s (askLimiter fetcher s c fetching) c := by
  unfold askLimiter
  split
  · exact turn_rests here (.ends _) rfl
  · refine turn_update here (.asks fetching _) ?_
    rintro _ _ ⟨⟩
    simp [Permits.create]

theorem takePermit_turn {c : Fin n} {fetching : Fetching} {key : Str}
    (here : s.calls c = .waiting fetching key) (room : (s.hostLimiters key).any (0 < ·) = true) :
    Turn fetcher.policy.maxRedirects s (takePermit s c fetching key) c := by
  unfold takePermit
  split
  · exact turn_rests here (.takes fetching key) rfl
  · rename_i full
    cases found : s.hostLimiters key with
    | none => simp [found] at room
    | some free =>
      cases free with
      | zero => simp [found] at room
      | succ free => exact absurd found (full free)

theorem sendRequest_turn {c : Fin n} {env : Environment} {fetching : Fetching} {key : Str}
    (here : s.calls c = .holding fetching key) :
    Turn fetcher.policy.maxRedirects s (sendRequest fetcher s c env fetching key) c := by
  unfold sendRequest
  split
  · exact turn_rests here (.ends _) rfl
  · exact turn_rests here (.sends fetching key) rfl

theorem finishRound_turn {c : Fin n} {result : Except Str Response} {fetching : Fetching} {key : Str}
    (here : s.calls c = .inFlight fetching key) :
    Turn fetcher.policy.maxRedirects s
      (finishRound crate semantics fetcher s c result fetching key) c := by
  unfold finishRound
  split
  · exact turn_rests here (.ends _) rfl
  · split
    · exact turn_rests here (.ends _) rfl
    · unfold nextRound
      split
      · exact turn_rests here (.ends _) rfl
      · rename_i next _ below
        exact turn_rests here (.redirected fetching key next below) rfl

theorem step_turn {e : Event n} (admitted : admits s e = true) :
    Turn fetcher.policy.maxRedirects s (step crate semantics fetcher s e) e.of := by
  cases e with
  | fetch c request =>
    simp only [admits] at admitted
    split at admitted
    · rename_i here
      exact turn_rests here (start_goes _ request) (awaited_start request)
    · cases admitted
  | limiter c =>
    simp only [admits] at admitted
    split at admitted
    · rename_i fetching here
      simp only [step, here]
      exact askLimiter_turn here
    · cases admitted
  | acquire c =>
    simp only [admits] at admitted
    split at admitted
    · rename_i fetching key here
      simp only [step, here]
      exact takePermit_turn here admitted
    · cases admitted
  | send c env =>
    simp only [admits] at admitted
    split at admitted
    · rename_i fetching key here
      simp only [step, here]
      exact sendRequest_turn here
    · cases admitted
  | respond c result =>
    simp only [admits] at admitted
    split at admitted
    · rename_i fetching key here
      simp only [step, here]
      exact finishRound_turn here
    · cases admitted
  | drop c =>
    simp only [step]
    split
    · exact turn_rests rfl (.ends _) rfl
    · exact turn_rests rfl (.ends _) rfl
    · exact turn_rests rfl (.ends _) rfl

/-- The redirects of every call are counted, every permit is accounted for, and whoever waits for
one waits for a limiter that is there. -/
structure Healthy (fetcher : HttpFetcher) (s : State n) : Prop where
  counted : ∀ c, ∀ fetching ∈ (s.calls c).fetching, fetching.redirectCount ≤ fetcher.policy.maxRedirects
  balanced : Permits.Balanced fetcher.policy.maxConcurrencyPerHost s.hostLimiters s.keys
  served : ∀ c url key, (s.calls c).awaited = some (url, key) → (s.hostLimiters key).isSome

/-- A limiter is never taken away. -/
theorem Moves.kept {max : Nat} {s' : State n} {e : Event n} (moves : Moves max s s' e) {key : Str}
    (there : (s.hostLimiters key).isSome) : (s'.hostLimiters key).isSome := by
  cases moves with
  | none limiters => rwa [limiters]
  | create other limiters =>
    rw [limiters, Permits.create]
    by_cases same : key = other
    · simp [same]
    · rwa [Function.update_of_ne same]
  | take c fetching other free waits room limiters =>
    rw [limiters]
    by_cases same : key = other
    · simp [same]
    · rwa [Function.update_of_ne same]
  | give c url other owned limiters =>
    rw [limiters]
    by_cases same : key = other
    · simpa [same] using same ▸ there
    · rwa [Function.update_of_ne same]

theorem initial_healthy : Healthy fetcher (State.initial n) where
  counted _ _ none := nomatch none
  balanced := (invariant_initial _ n).balanced
  served _ _ _ none := nomatch none

theorem Healthy.step (h : Healthy fetcher s) {e : Event n} (admitted : admits s e = true) :
    Healthy fetcher (Limiter.step crate semantics fetcher s e) := by
  have turn := @step_turn _ _ crate semantics fetcher s e admitted
  have moves := @step_moves _ crate semantics fetcher _ s e admitted
  refine ⟨fun c => ?_, moves.balanced h.balanced, fun c url key awaits => ?_⟩
  · by_cases own : c = e.of
    · exact own ▸ turn.goes.counted (h.counted e.of)
    · rw [turn.others c own]
      exact h.counted c
  · by_cases own : c = e.of
    · exact turn.served url key (own ▸ awaits)
    · rw [turn.others c own] at awaits
      exact moves.kept (h.served c url key awaits)

/-- The steps that are left to all the calls under way. -/
def State.steps (max : Nat) (s : State n) : Nat := Finset.univ.sum fun c => (s.calls c).steps max

theorem steps_fall (h : Healthy fetcher s) {e : Event n} (admitted : admits s e = true)
    (goesOn : e.goesOn) :
    (Limiter.step crate semantics fetcher s e).steps fetcher.policy.maxRedirects <
      s.steps fetcher.policy.maxRedirects := by
  have turn := @step_turn _ _ crate semantics fetcher s e admitted
  have busy : s.calls e.of ≠ .idle := by
    intro idle
    cases e with
    | fetch => exact goesOn
    | limiter c => simp [admits, show s.calls c = .idle from idle] at admitted
    | acquire c => simp [admits, show s.calls c = .idle from idle] at admitted
    | send c => simp [admits, show s.calls c = .idle from idle] at admitted
    | respond c => simp [admits, show s.calls c = .idle from idle] at admitted
    | drop => exact goesOn
  have own := turn.goes.falls busy (h.counted e.of)
  refine Finset.sum_lt_sum (fun c _ => ?_) ⟨e.of, Finset.mem_univ _, own⟩
  by_cases same : c = e.of
  · exact (same ▸ own).le
  · rw [turn.others c same]

theorem steps_le (s : State n) (fetcher : HttpFetcher) :
    s.steps fetcher.policy.maxRedirects ≤ n * (4 * (fetcher.policy.maxRedirects + 1)) := by
  have each : ∀ c ∈ Finset.univ, (s.calls c).steps fetcher.policy.maxRedirects ≤
      4 * (fetcher.policy.maxRedirects + 1) := by
    intro c _
    cases s.calls c <;> simp only [Call.steps, Call.left, Call.fetching, Option.elim] <;> omega
  simpa [State.steps] using Finset.sum_le_card_nsmul Finset.univ _ _ each

theorem concurrency_positive (fetcher : HttpFetcher) : 0 < fetcher.policy.maxConcurrencyPerHost := by
  have accepted := fetcher.validated
  unfold FetchPolicy.validate at accepted
  obtain ⟨_, accepted⟩ := Checks.check_ok accepted
  obtain ⟨_, accepted⟩ := Checks.check_ok accepted
  obtain ⟨_, accepted⟩ := Checks.check_ok accepted
  obtain ⟨_, accepted⟩ := Checks.check_ok accepted
  obtain ⟨range, _⟩ := Checks.check_ok accepted
  exact (not_not.mp range).1

/-- A call that waits in vain waits for others that hold their permits, and those can go on. -/
theorem Healthy.goesOn (h : Healthy fetcher s) (env : Environment) (result : Except Str Response)
    {c : Fin n} (busy : s.calls c ≠ .idle) : ∃ d, ∃ e ∈ turns env result d, admits s e = true := by
  cases here : s.calls c with
  | idle => exact absurd here busy
  | ready fetching => exact ⟨c, .limiter c, by simp [turns], by simp [admits, here]⟩
  | holding fetching key => exact ⟨c, .send c env, by simp [turns], by simp [admits, here]⟩
  | inFlight fetching key => exact ⟨c, .respond c result, by simp [turns], by simp [admits, here]⟩
  | waiting fetching key =>
    obtain ⟨free, room⟩ := Option.isSome_iff_exists.mp (h.served c _ key (by rw [here]; rfl))
    cases free with
    | succ free => exact ⟨c, .acquire c, by simp [turns], by simp [admits, here, room]⟩
    | zero =>
      obtain ⟨d, held⟩ := Permits.exists_holder h.balanced (concurrency_positive fetcher) room
      cases holder : s.calls d with
      | holding own => exact ⟨d, .send d env, by simp [turns], by simp [admits, holder]⟩
      | inFlight own => exact ⟨d, .respond d result, by simp [turns], by simp [admits, holder]⟩
      | idle => simp [State.keys, State.permits, holder, Call.permit] at held
      | ready => simp [State.keys, State.permits, holder, Call.permit] at held
      | waiting => simp [State.keys, State.permits, holder, Call.permit] at held

/-- Whatever the network answers, the calls under way come to an end, and give all permits back. -/
structure Finishes (crate : UrlCrate) (semantics : Semantics Input) (fetcher : HttpFetcher)
    (s : State n) : Prop where
  bounded : ∀ es, Runs.Admissible (Limiter.step crate semantics fetcher)
    (fun s e => admits s e = true ∧ e.goesOn) s es →
    es.length ≤ n * (4 * (fetcher.policy.maxRedirects + 1))
  goesOn : ∀ env result c, s.calls c ≠ .idle → ∃ d, ∃ e ∈ turns env result d, admits s e = true
  returned : (∀ c, s.calls c = .idle) → ∀ key free, s.hostLimiters key = some free →
    free = fetcher.policy.maxConcurrencyPerHost

end

/-- In every reachable state, however the calls were begun, dropped and answered before: some call
under way can go on, they take no more than four steps a round together, and no permit is lost. -/
theorem fetches_finish {Input : Type} (crate : UrlCrate) (semantics : Semantics Input)
    (fetcher : HttpFetcher) {n : Nat} (es : List (Event n))
    (admissible : Admissible crate semantics fetcher es) :
    Finishes crate semantics fetcher (run crate semantics fetcher es) := by
  have healthy : Healthy fetcher (run crate semantics fetcher es) :=
    Runs.run_invariant (fun _ _ h admitted => h.step admitted) initial_healthy admissible
  have falls : ∀ (s : State n) (e : Event n), Healthy fetcher s → admits s e = true ∧ e.goesOn →
      Healthy fetcher (step crate semantics fetcher s e) ∧
        (step crate semantics fetcher s e).steps fetcher.policy.maxRedirects <
          s.steps fetcher.policy.maxRedirects :=
    fun s e h guard => ⟨h.step guard.1, steps_fall h guard.1 guard.2⟩
  refine ⟨fun later goesOn => ?_, fun env result c busy => healthy.goesOn env result busy, ?_⟩
  · exact (Runs.length_le_of_falls falls healthy goesOn).trans (steps_le _ fetcher)
  · intro idle key free there
    refine Permits.free_of_idle healthy.balanced (fun c => ?_) there
    simp [State.keys, State.permits, idle c, Call.permit]

/-- Two calls hold the permits of a host, one of them redirected, and a third one waits for them. -/
theorem fetches_finish_waiting : Finishes spellingsCrate blogSemantics blogFetcher
    (run spellingsCrate blogSemantics blogFetcher (oneSpelling (0 : Fin 3) 1 ++
      [.fetch 2 ⟨"https://example.com/blog".toList, blogScope, ⟨none, none⟩⟩, .limiter 2])) :=
  fetches_finish spellingsCrate blogSemantics blogFetcher _ (by decide +kernel)

end EalSync.Ingestion.Limiter
