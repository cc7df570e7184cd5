import EalSync.Ingestion.FetchSafety
import EalSync.Lib.Permits
import EalSync.Lib.Runs

/-! src/ingestion/network/fetcher.rs: any number of concurrent calls of fetch on clones of one
fetcher. The clones share the limiters; a call waits wherever the source awaits, and may be dropped
there. What the DNS, the client and the server answer is part of the event. -/
namespace EalSync.Ingestion.Limiter

/-- The variables of the loop in fetch. -/
structure Fetching where
  request : FetchRequest
  requested : Url
  requestedHost : Str
  redirectCount : Nat
  current : Url

/-- Where a call is in a round of the loop: before the limiters, in the queue of the semaphore of
its host, connecting with a permit of it, or waiting for the response. -/
inductive Call where
  | idle
  | ready (fetching : Fetching)
  | waiting (fetching : Fetching) (key : Str)
  | holding (fetching : Fetching) (key : Str)
  | inFlight (fetching : Fetching) (key : Str)

/-- The permit of a call, with the URL that it is for. -/
def Call.permit : Call → Option (Url × Str)
  | holding fetching key | inFlight fetching key => some (fetching.current, key)
  | idle | ready _ | waiting _ _ => none

/-- The URL of the request that a call has in flight. -/
def Call.sent : Call → Option Url
  | inFlight fetching _ => some fetching.current
  | idle | ready _ | waiting _ _ | holding _ _ => none

/-- The URL and the limiter that a call waits for. -/
def Call.awaited : Call → Option (Url × Str)
  | waiting fetching key => some (fetching.current, key)
  | idle | ready _ | holding _ _ | inFlight _ _ => none

/-- normalize_host of the host of a URL. -/
def hostName (url : Url) : Option Str := url.hostStr.bind fun host => (normalizeHost host).toOption

structure State (n : Nat) where
  hostLimiters : Str → Option Nat
  calls : Fin n → Call

def State.initial (n : Nat) : State n := ⟨fun _ => none, fun _ => .idle⟩

inductive Event (n : Nat) where
  | fetch (c : Fin n) (request : FetchRequest)
  | limiter (c : Fin n)
  | acquire (c : Fin n)
  | send (c : Fin n) (env : Environment)
  | respond (c : Fin n) (result : Except Str Response)
  | drop (c : Fin n)

namespace State

variable {n : Nat} (s : State n) (c : Fin n)

def enter (call : Call) : State n := { s with calls := Function.update s.calls c call }

/-- The permit is dropped at the end of the round, or with the call. -/
def release (key : Str) (call : Call) : State n where
  hostLimiters := Function.update s.hostLimiters key ((s.hostLimiters key).map (· + 1))
  calls := Function.update s.calls c call

/-- How many requests are in flight to the hosts of this normalized name. -/
def inFlightTo (name : Str) : Nat :=
  (Finset.univ.filter fun c => (s.calls c).sent.bind hostName = some name).card

def permits : Fin n → Option (Url × Str) := fun c => (s.calls c).permit

def keys : Fin n → Option Str := fun c => (s.permits c).map Prod.snd

end State

section

variable {Input : Type} (crate : UrlCrate) (semantics : Semantics Input) (fetcher : HttpFetcher)
  {n : Nat}

/-- The call up to its loop. -/
def start (request : FetchRequest) : Call :=
  match prepareTargetUrl crate request.url request.scope with
  | .error _ => .idle
  | .ok requested =>
    match requireHost requested with
    | .error _ => .idle
    | .ok host => .ready ⟨request, requested, Str.toAsciiLowercase host, 0, requested⟩

/-- The next round, unless the loop falls through. -/
def nextRound (fetching : Fetching) (next : Url) : Call :=
  if fetching.redirectCount = fetcher.policy.maxRedirects then .idle
  else .ready { fetching with redirectCount := fetching.redirectCount + 1, current := next }

/-- limiters.entry(host).or_insert_with(..). -/
def askLimiter (s : State n) (c : Fin n) (fetching : Fetching) : State n :=
  match requireHost fetching.current with
  | .error _ => s.enter c .idle
  | .ok host =>
    let key := Str.toAsciiLowercase host
    { hostLimiters := Permits.create fetcher.policy.maxConcurrencyPerHost s.hostLimiters key
      calls := Function.update s.calls c (.waiting fetching key) }

def takePermit (s : State n) (c : Fin n) (fetching : Fetching) (key : Str) : State n :=
  match s.hostLimiters key with
  | some (free + 1) =>
    { hostLimiters := Function.update s.hostLimiters key (some free)
      calls := Function.update s.calls c (.holding fetching key) }
  | _ => s

def sendRequest (s : State n) (c : Fin n) (env : Environment) (fetching : Fetching) (key : Str) :
    State n :=
  match pinnedClient env fetcher fetching.redirectCount fetching.current with
  | .error _ => s.release c key .idle
  | .ok _ => s.enter c (.inFlight fetching key)

def finishRound (s : State n) (c : Fin n) (result : Except Str Response) (fetching : Fetching)
    (key : Str) : State n :=
  match result with
  | .error _ => s.release c key .idle
  | .ok response =>
    match handleResponse crate semantics fetcher fetching.request fetching.redirectCount
        fetching.requested fetching.current response with
    | .returned _ => s.release c key .idle
    | .redirected next => s.release c key (nextRound fetcher fetching next)

def step (s : State n) : Event n → State n
  | .fetch c request => s.enter c (start crate request)
  | .limiter c =>
    match s.calls c with
    | .ready fetching => askLimiter fetcher s c fetching
    | _ => s
  | .acquire c =>
    match s.calls c with
    | .waiting fetching key => takePermit s c fetching key
    | _ => s
  | .send c env =>
    match s.calls c with
    | .holding fetching key => sendRequest fetcher s c env fetching key
    | _ => s
  | .respond c result =>
    match s.calls c with
    | .inFlight fetching key => finishRound crate semantics fetcher s c result fetching key
    | _ => s
  | .drop c =>
    match s.calls c with
    | .holding _ key | .inFlight _ key => s.release c key .idle
    | _ => s.enter c .idle

/-- A slot makes one call at a time. -/
def admits (s : State n) : Event n → Bool
  | .fetch c _ => match s.calls c with
    | .idle => true
    | _ => false
  | .limiter c => match s.calls c with
    | .ready _ => true
    | _ => false
  | .acquire c => match s.calls c with
    | .waiting _ key => (s.hostLimiters key).any (0 < ·)
    | _ => false
  | .send c _ => match s.calls c with
    | .holding _ _ => true
    | _ => false
  | .respond c _ => match s.calls c with
    | .inFlight _ _ => true
    | _ => false
  | .drop _ => true

def run (es : List (Event n)) : State n := Runs.run (step crate semantics fetcher) (.initial n) es

def Admissible (es : List (Event n)) : Prop :=
  Runs.Admissible (step crate semantics fetcher) (fun s e => admits s e = true) (.initial n) es

instance (es : List (Event n)) : Decidable (Admissible crate semantics fetcher es) :=
  Runs.decidableAdmissible _ _ _ _

end

theorem State.permits_update {n : Nat} (s : State n) (c : Fin n) (limiters : Str → Option Nat)
    (call : Call) :
    State.permits ⟨limiters, Function.update s.calls c call⟩ =
      Function.update s.permits c call.permit := by
  funext c'
  by_cases same : c' = c
  · subst same
    simp [State.permits]
  · simp [State.permits, same]

theorem permits_keep {n : Nat} {s : State n} {c : Fin n} {before : Call} (limiters : Str → Option Nat)
    (call : Call) (here : s.calls c = before) (same : call.permit = before.permit) :
    State.permits ⟨limiters, Function.update s.calls c call⟩ = s.permits := by
  have own : call.permit = s.permits c := by rw [same, State.permits, here]
  rw [State.permits_update, own, Function.update_eq_self]

/-- What one event can do to the limiters and the permits. -/
inductive Moves (max : Nat) {n : Nat} (s s' : State n) : Event n → Prop
  | none {e : Event n} (limiters : s'.hostLimiters = s.hostLimiters)
    (permits : s'.permits = s.permits) : Moves max s s' e
  | create {e : Event n} (key : Str) (limiters : s'.hostLimiters = Permits.create max s.hostLimiters key)
    (permits : s'.permits = s.permits) : Moves max s s' e
  | take (c : Fin n) (fetching : Fetching) (key : Str) (free : Nat)
    (waits : s.calls c = .waiting fetching key) (room : s.hostLimiters key = some (free + 1))
    (limiters : s'.hostLimiters = Function.update s.hostLimiters key (some free))
    (permits : s'.permits = Function.update s.permits c (some (fetching.current, key))) :
    Moves max s s' (.acquire c)
  | give {e : Event n} (c : Fin n) (url : Url) (key : Str) (owned : s.permits c = some (url, key))
    (limiters : s'.hostLimiters =
      Function.update s.hostLimiters key ((s.hostLimiters key).map (· + 1)))
    (permits : s'.permits = Function.update s.permits c .none) : Moves max s s' e

section

variable {Input : Type} {crate : UrlCrate} {semantics : Semantics Input} {fetcher : HttpFetcher}
  {n : Nat} {s : State n} {max : Nat}

theorem moves_release {c : Fin n} {url : Url} {key : Str} (e : Event n) {call : Call}
    (owned : s.permits c = some (url, key)) (rests : call.permit = none) :
    Moves max s (s.release c key call) e := by
  refine .give c url key owned rfl ?_
  rw [State.release, State.permits_update, rests]

theorem moves_enter {c : Fin n} {before : Call} (e : Event n) {call : Call} (here : s.calls c = before)
    (same : call.permit = before.permit) : Moves max s (s.enter c call) e :=
  .none rfl (permits_keep _ call here same)

/-- A call that holds its permit, before or while its request is under way. -/
theorem permits_owned {c : Fin n} {fetching : Fetching} {key : Str}
    (here : s.calls c = .holding fetching key ∨ s.calls c = .inFlight fetching key) :
    s.permits c = some (fetching.current, key) := by
  rcases here with here | here
  · rw [State.permits, here]
    rfl
  · rw [State.permits, here]
    rfl

theorem start_rests (request : FetchRequest) : (start crate request).permit = none := by
  unfold start
  split
  · rfl
  · split <;> rfl

theorem nextRound_rests (fetching : Fetching) (next : Url) :
    (nextRound fetcher fetching next).permit = none := by
  unfold nextRound
  split <;> rfl

theorem step_moves (e : Event n) (admitted : admits s e = true) :
    Moves fetcher.policy.maxConcurrencyPerHost s (step crate semantics fetcher s e) e := by
  cases e with
  | fetch c request =>
    simp only [admits] at admitted
    split at admitted
    · rename_i here
      exact moves_enter _ here (start_rests request)
    · cases admitted
  | limiter c =>
    simp only [step]
    split
    · rename_i fetching here
      unfold askLimiter
      split
      · exact moves_enter _ here rfl
      · exact .create _ rfl (permits_keep _ _ here rfl)
    · exact .none rfl rfl
  | acquire c =>
    simp only [step]
    split
    · rename_i fetching key here
      unfold takePermit
      split
      · rename_i free room
        exact .take c fetching key free here room rfl (State.permits_update s c _ _)
      · exact .none rfl rfl
    · exact .none rfl rfl
  | send c env =>
    simp only [step]
    split
    · rename_i fetching key here
      unfold sendRequest
      split
      · exact moves_release _ (permits_owned (.inl here)) rfl
      · exact moves_enter _ here rfl
    · exact .none rfl rfl
  | respond c result =>
    simp only [step]
    split
    · rename_i fetching key here
      have owned := permits_owned (.inr here)
      unfold finishRound
      split
      · exact moves_release _ owned rfl
      · split
        · exact moves_release _ owned rfl
        · exact moves_release _ owned (nextRound_rests fetching _)
    · exact .none rfl rfl
  | drop c =>
    simp only [step]
    split
    · rename_i fetching key here
      exact moves_release _ (permits_owned (.inl here)) rfl
    · rename_i fetching key here
      exact moves_release _ (permits_owned (.inr here)) rfl
    · rename_i free busy
      refine moves_enter _ rfl ?_
      cases here : s.calls c with
      | holding fetching key => exact absurd here (free fetching key)
      | inFlight fetching key => exact absurd here (busy fetching key)
      | idle => rfl
      | ready fetching => rfl
      | waiting fetching key => rfl

end

/-- The two hosts have the same normalized name. -/
def SameName (a b : Url) : Prop := (hostName a).isSome ∧ hostName a = hostName b

instance (a b : Url) : Decidable (SameName a b) := inferInstanceAs (Decidable (_ ∧ _))

/-- The host is written one way: whoever holds a permit for this name took it from the same
limiter. -/
def Spelled {n : Nat} (s : State n) : Event n → Prop
  | .acquire c => ∀ w ∈ (s.calls c).awaited, ∀ c', ∀ held ∈ s.permits c',
    SameName held.1 w.1 → held.2 = w.2
  | _ => True

instance decidableSpelled {n : Nat} (s : State n) : ∀ e, Decidable (Spelled s e)
  | .acquire c => inferInstanceAs (Decidable (∀ w ∈ (s.calls c).awaited, _))
  | .fetch _ _ | .limiter _ | .send _ _ | .respond _ _ | .drop _ => inferInstanceAs (Decidable True)

theorem SameName.symm {a b : Url} (same : SameName a b) : SameName b a :=
  ⟨same.2 ▸ same.1, same.2.symm⟩

theorem Spelled.acquire {n : Nat} {s : State n} {c : Fin n} (spelled : Spelled s (.acquire c))
    {fetching : Fetching} {key : Str} (waits : s.calls c = .waiting fetching key) {c' : Fin n}
    {url : Url} {key' : Str} (held : s.permits c' = some (url, key'))
    (same : SameName url fetching.current) : key' = key :=
  spelled (fetching.current, key) (by rw [waits]; rfl) c' (url, key') held same

structure Invariant (max : Nat) {n : Nat} (s : State n) : Prop where
  balanced : Permits.Balanced max s.hostLimiters s.keys
  spelled : ∀ c c' url url' key key', s.permits c = some (url, key) →
    s.permits c' = some (url', key') → SameName url url' → key = key'

theorem invariant_initial (max n : Nat) : Invariant max (State.initial n) where
  balanced := Permits.balanced_initial fun _ => rfl
  spelled := by
    intro c c' url url' key key' own
    cases own

section

variable {n : Nat} {s s' : State n} {max : Nat}

theorem keys_eq (permits : s'.permits = s.permits) : s'.keys = s.keys := by
  unfold State.keys
  rw [permits]

theorem keys_update {c : Fin n} {permit : Option (Url × Str)}
    (permits : s'.permits = Function.update s.permits c permit) :
    s'.keys = Function.update s.keys c (permit.map Prod.snd) := by
  funext c'
  by_cases same : c' = c
  · subst same
    simp [State.keys, permits]
  · simp [State.keys, permits, same]

theorem keys_some {c : Fin n} {url : Url} {key : Str} (owned : s.permits c = some (url, key)) :
    s.keys c = some key := by
  rw [State.keys, owned]
  rfl

theorem waiting_rests {c : Fin n} {fetching : Fetching} {key : Str}
    (waits : s.calls c = .waiting fetching key) : s.keys c = none := by
  simp [State.keys, State.permits, waits, Call.permit]

theorem Moves.balanced {e : Event n} (moves : Moves max s s' e)
    (balanced : Permits.Balanced max s.hostLimiters s.keys) :
    Permits.Balanced max s'.hostLimiters s'.keys := by
  cases moves with
  | none limiters permits =>
    rw [limiters, keys_eq permits]
    exact balanced
  | create key limiters permits =>
    rw [limiters, keys_eq permits]
    exact Permits.balanced_create balanced key
  | take c fetching key free waits room limiters permits =>
    rw [limiters, keys_update permits]
    exact Permits.balanced_take balanced (waiting_rests waits) room
  | give c url key owned limiters permits =>
    rw [limiters, keys_update permits]
    exact Permits.balanced_give balanced (keys_some owned)

/-- A permit of the next state is one of this state, or the one that an acquire took. -/
theorem Moves.permit {e : Event n} (moves : Moves max s s' e) {c : Fin n} {url : Url} {key : Str}
    (owned : s'.permits c = some (url, key)) :
    s.permits c = some (url, key) ∨
      ∃ fetching, e = .acquire c ∧ s.calls c = .waiting fetching key ∧ fetching.current = url := by
  cases moves with
  | none limiters permits => exact .inl (permits ▸ owned)
  | create key limiters permits => exact .inl (permits ▸ owned)
  | take c' fetching key' free waits room limiters permits =>
    rw [permits] at owned
    by_cases same : c = c'
    · subst same
      rw [Function.update_self] at owned
      obtain ⟨rfl, rfl⟩ := Prod.mk.inj (Option.some.inj owned)
      exact .inr ⟨fetching, rfl, waits, rfl⟩
    · rw [Function.update_of_ne same] at owned
      exact .inl owned
  | give c' url' key' held limiters permits =>
    rw [permits] at owned
    by_cases same : c = c'
    · subst same
      rw [Function.update_self] at owned
      cases owned
    · rw [Function.update_of_ne same] at owned
      exact .inl owned

theorem Moves.invariant {e : Event n} (moves : Moves max s s' e) (invariant : Invariant max s)
    (spelled : Spelled s e) : Invariant max s' where
  balanced := moves.balanced invariant.balanced
  spelled := by
    intro c c' url url' key key' own own' same
    rcases moves.permit own with old | ⟨fetching, taken, waits, rfl⟩
    · rcases moves.permit own' with old' | ⟨fetching, taken, waits, rfl⟩
      · exact invariant.spelled c c' url url' key key' old old' same
      · subst taken
        exact spelled.acquire waits old same
    · rcases moves.permit own' with old' | ⟨fetching', taken', waits', rfl⟩
      · subst taken
        exact (spelled.acquire waits old' same.symm).symm
      · obtain rfl : c = c' := Event.acquire.inj (taken.symm.trans taken')
        obtain ⟨_, rfl⟩ := Call.waiting.inj (waits.symm.trans waits')
        rfl

theorem sent_permit {call : Call} {url : Url} (sent : call.sent = some url) :
    ∃ key, call.permit = some (url, key) := by
  cases call with
  | inFlight fetching key =>
    obtain rfl := Option.some.inj sent
    exact ⟨key, rfl⟩
  | idle => cases sent
  | ready fetching => cases sent
  | waiting fetching key => cases sent
  | holding fetching key => cases sent

/-- Every request in flight to a host holds a permit of one and the same limiter. -/
theorem Invariant.bounded (invariant : Invariant max s) (name : Str) : s.inFlightTo name ≤ max := by
  unfold State.inFlightTo
  rcases Finset.eq_empty_or_nonempty
    (Finset.univ.filter fun c => (s.calls c).sent.bind hostName = some name) with none | ⟨c, member⟩
  · rw [none, Finset.card_empty]
    exact Nat.zero_le max
  · have holds : ∀ c, (s.calls c).sent.bind hostName = some name →
        ∃ url key, s.permits c = some (url, key) ∧ hostName url = some name := by
      intro c flies
      obtain ⟨url, sent, named⟩ := Option.bind_eq_some_iff.mp flies
      obtain ⟨key, owned⟩ := sent_permit sent
      exact ⟨url, key, owned, named⟩
    obtain ⟨url, key, owned, named⟩ := holds c (Finset.mem_filter.mp member).2
    refine (Finset.card_le_card ?_).trans (Permits.holding_le invariant.balanced key)
    intro c' member'
    obtain ⟨url', key', owned', named'⟩ := holds c' (Finset.mem_filter.mp member').2
    obtain rfl := invariant.spelled c c' url url' key key' owned owned'
      ⟨named ▸ rfl, named.trans named'.symm⟩
    exact Finset.mem_filter.mpr ⟨Finset.mem_univ c', keys_some owned'⟩

end

theorem host_concurrency {Input : Type} (crate : UrlCrate) (semantics : Semantics Input)
    (fetcher : HttpFetcher) {n : Nat} (es : List (Event n))
    (admissible : Admissible crate semantics fetcher es)
    (spelled : Runs.Admissible (step crate semantics fetcher) Spelled (.initial n) es) (name : Str) :
    (run crate semantics fetcher es).inFlightTo name ≤ fetcher.policy.maxConcurrencyPerHost := by
  refine Invariant.bounded ?_ name
  refine Runs.run_invariant ?_ (invariant_initial _ n) (Runs.admissible_and.mpr ⟨admissible, spelled⟩)
  intro s e invariant guard
  exact (step_moves e guard.1).invariant invariant guard.2

def dottedUrl : Url :=
  .https "example.com.".toList "/blog".toList (by decide) blog_printable blog_absolute blog_resolved

/-- What the url crate answers on the two spellings of the registered URL. -/
def spellingsCrate : UrlCrate where
  parse s := if s = "https://example.com./blog".toList then .ok dottedUrl else blogCrate.parse s
  join base _ := .ok base

/-- A call on this URL, up to the request on the wire. -/
def opened {n : Nat} (c : Fin n) (url : String) : List (Event n) :=
  [.fetch c ⟨url.toList, blogScope, ⟨none, none⟩⟩, .limiter c, .acquire c, .send c blogEnvironment]

/-- Two calls on one host, of which the first is redirected and asks for a second permit. -/
def oneSpelling {n : Nat} (c d : Fin n) : List (Event n) :=
  opened c "https://example.com/blog" ++ opened d "https://example.com/blog" ++
    [.respond c (.ok ⟨302, [("location".toList, [47])], []⟩), .limiter c, .acquire c]

theorem host_concurrency_redirected :
    (run spellingsCrate blogSemantics blogFetcher (oneSpelling (0 : Fin 2) 1)).inFlightTo "example.com".toList ≤ 2 :=
  host_concurrency spellingsCrate blogSemantics blogFetcher (oneSpelling 0 1) (by decide +kernel)
    (by decide +kernel) _

/-- The two spellings have a limiter each. -/
def bothSpellings : List (Event 3) :=
  opened 0 "https://example.com/blog" ++ opened 1 "https://example.com/blog" ++
    opened 2 "https://example.com./blog"

theorem host_concurrency_exceeded : ¬∀ (Input : Type) (crate : UrlCrate) (semantics : Semantics Input)
    (fetcher : HttpFetcher) (n : Nat) (es : List (Event n)), Admissible crate semantics fetcher es →
    ∀ name, (run crate semantics fetcher es).inFlightTo name ≤ fetcher.policy.maxConcurrencyPerHost := by
  intro bounded
  have three : (run spellingsCrate blogSemantics blogFetcher bothSpellings).inFlightTo
      "example.com".toList = 3 := by decide +kernel
  have two := bounded Unit spellingsCrate blogSemantics blogFetcher 3 bothSpellings (by decide +kernel)
    "example.com".toList
  rw [three] at two
  exact absurd two (by decide)

end EalSync.Ingestion.Limiter
