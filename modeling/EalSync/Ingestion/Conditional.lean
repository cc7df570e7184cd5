import EalSync.Ingestion.FetchSafety

/-! When a fetch reports NotModified. The validators go with a request to the requested host only,
while a 304 ends the loop at whichever hop it arrives. -/
namespace EalSync.Ingestion

/-- The request carries a stored validator. -/
def Conditional (conditional : ConditionalState) (httpRequest : HttpRequest) : Prop :=
  (∃ etag ∈ conditional.etag, ("if-none-match".toList, etag) ∈ httpRequest.headers) ∨
    ∃ date ∈ conditional.lastModified, ("if-modified-since".toList, date) ∈ httpRequest.headers

instance (conditional : ConditionalState) (httpRequest : HttpRequest) :
    Decidable (Conditional conditional httpRequest) := inferInstanceAs (Decidable (_ ∨ _))

def ConditionalState.HasValidator (conditional : ConditionalState) : Prop :=
  conditional.etag.isSome ∨ conditional.lastModified.isSome

structure Answered where
  httpRequest : HttpRequest
  response : Response

/-- A request with its answer, if it got one. -/
def Sent.answered (env : Environment) (sent : Sent) : Option Answered :=
  match (sent.exchange env).result with
  | .error _ => none
  | .ok response => some ⟨sent.httpRequest, response⟩

section

variable {Input : Type} (crate : UrlCrate) (semantics : Semantics Input) (env : Environment)
  (fetcher : HttpFetcher) (request : FetchRequest)

/-- The requests of a fetch that were answered, in order. -/
def fetchExchanges : List Answered :=
  (fetch crate semantics env fetcher request).1.filterMap (Sent.answered env)

/-- NotModified is an answer to a conditional request. -/
def NotModifiedIsConditional : Prop :=
  ∀ metadata, (fetch crate semantics env fetcher request).2 = .ok (.notModified metadata) →
    ∃ last, (fetchExchanges crate semantics env fetcher request).getLast? = some last ∧
      last.response.status = 304 ∧ metadata.finalUrl = last.httpRequest.url.asStr ∧
      Conditional request.conditional last.httpRequest

/-- A 304 for a URL that has an identity comes from the requested host, and a validator is stored. -/
def SolicitedOnly : Prop :=
  ∀ requested host, prepareTargetUrl crate request.url request.scope = .ok requested →
    requested.hostStr = some host →
    ∀ x ∈ fetchExchanges crate semantics env fetcher request, x.response.status = 304 →
      (∃ identity, canonicalIdentity semantics x.httpRequest.url = .ok identity) →
      x.httpRequest.url.hostStr.map Str.toAsciiLowercase = some (Str.toAsciiLowercase host) ∧
        request.conditional.HasValidator

variable {crate semantics env fetcher request}

theorem conditional_iff {url : Url} {currentHost requestedHost : Str} :
    Conditional request.conditional ⟨url, requestHeaders request currentHost requestedHost⟩ ↔
      currentHost = requestedHost ∧ request.conditional.HasValidator := by
  unfold Conditional requestHeaders ConditionalState.HasValidator
  by_cases same : currentHost = requestedHost
  · cases request.conditional.etag with
    | some etag => simp [same]
    | none =>
      cases request.conditional.lastModified with
      | some date => simp [same]
      | none => simp
  · simp [same]

theorem prepareHop_headers {hop : Nat} {requestedHost : Str} {current : Url} {client : Client}
    {httpRequest : HttpRequest}
    (ok : prepareHop env fetcher request hop requestedHost current = .ok (client, httpRequest)) :
    ∃ host, current.hostStr = some host ∧
      httpRequest = ⟨current, requestHeaders request (Str.toAsciiLowercase host) requestedHost⟩ := by
  obtain ⟨host, required, ok⟩ := Checks.bind_ok ok
  obtain ⟨_, _, ok⟩ := Checks.bind_ok ok
  obtain ⟨_, _, ok⟩ := Checks.bind_ok ok
  cases ok
  exact ⟨host, okOr_ok.mp required, rfl⟩

theorem notModified_iff {requested current : Url} {response : Response} :
    (∃ metadata, notModified semantics request requested current response =
      .ok (.notModified metadata)) ↔ ∃ identity, canonicalIdentity semantics current = .ok identity := by
  unfold notModified
  cases canonicalIdentity semantics current with
  | error e =>
    constructor
    · rintro ⟨_, impossible⟩
      cases impossible
    · rintro ⟨_, impossible⟩
      cases impossible
  | ok identity => exact ⟨fun _ => ⟨identity, rfl⟩, fun _ => ⟨_, rfl⟩⟩

theorem changed_not {requested current : Url} {response : Response} {metadata : FetchMetadata} :
    changed semantics fetcher requested current response ≠ .ok (.notModified metadata) := by
  intro ok
  unfold changed at ok
  obtain ⟨_, ok⟩ := Checks.check_ok ok
  obtain ⟨_, _, ok⟩ := Checks.bind_ok ok
  obtain ⟨_, _, ok⟩ := Checks.bind_ok ok
  obtain ⟨_, _, ok⟩ := Checks.bind_ok ok
  obtain ⟨_, ok⟩ := Checks.check_ok ok
  obtain ⟨_, _, ok⟩ := Checks.bind_ok ok
  obtain ⟨_, _, ok⟩ := Checks.bind_ok ok
  obtain ⟨_, _, ok⟩ := Checks.bind_ok ok
  cases ok

/-- The only way to NotModified is a 304, which is never followed as a redirection. -/
theorem handleResponse_notModified {redirectCount : Nat} {requested current : Url}
    {response : Response} {metadata : FetchMetadata}
    (handled : handleResponse crate semantics fetcher request redirectCount requested current
      response = .returned (.ok (.notModified metadata))) : response.status = 304 := by
  unfold handleResponse at handled
  split at handled
  · assumption
  · split at handled
    · split at handled <;> cases handled
    · exact absurd (Round.returned.inj handled) changed_not

theorem Sent.answered_of_ok {sent : Sent} {response : Response}
    (ok : (sent.exchange env).result = .ok response) :
    sent.answered env = some ⟨sent.httpRequest, response⟩ := by
  rw [Sent.answered, ok]

theorem Sent.answered_of_error {sent : Sent} {e : Str} (failed : (sent.exchange env).result = .error e) :
    sent.answered env = none := by
  rw [Sent.answered, failed]

/-- What the loop does from one hop on: it stops before it sends or after, or follows a redirection. -/
theorem rounds_cons (requested : Url) (requestedHost : Str) (redirectCount : Nat) (rest : List Nat)
    (current : Url) :
    let after := rounds crate semantics env fetcher request requested requestedHost
      (redirectCount :: rest) current
    (∃ e, after = ([], some (.error e))) ∨
    ∃ client host, current.hostStr = some host ∧ pinnedClient env fetcher redirectCount current = .ok client ∧
      let sent : Sent := ⟨redirectCount, client,
        ⟨current, requestHeaders request (Str.toAsciiLowercase host) requestedHost⟩⟩
      (∃ e e', (sent.exchange env).result = .error e ∧ after = ([sent], some (.error e'))) ∨
      ∃ response, (sent.exchange env).result = .ok response ∧
        ((∃ result, handleResponse crate semantics fetcher request redirectCount requested current response =
            .returned result ∧ after = ([sent], some result)) ∨
          ∃ next, handleResponse crate semantics fetcher request redirectCount requested current response =
            .redirected next ∧
            after = (sent :: (rounds crate semantics env fetcher request requested requestedHost rest next).1,
              (rounds crate semantics env fetcher request requested requestedHost rest next).2)) := by
  simp only [rounds, round]
  cases prepared : prepareHop env fetcher request redirectCount requestedHost current with
  | error e => exact .inl ⟨e, rfl⟩
  | ok hop =>
    obtain ⟨client, httpRequest⟩ := hop
    obtain ⟨host, rendered, rfl⟩ := prepareHop_headers prepared
    refine .inr ⟨client, host, rendered, (prepareHop_ok prepared).1, ?_⟩
    dsimp only
    split
    · rename_i ended
      obtain ⟨rfl, handled⟩ := Prod.mk.inj ended
      split at handled
      · rename_i e failed
        obtain rfl := Round.returned.inj handled
        exact .inl ⟨e, _, failed, rfl⟩
      · rename_i response answered
        exact .inr ⟨response, answered, .inl ⟨_, handled, rfl⟩⟩
    · rename_i next ended
      obtain ⟨rfl, handled⟩ := Prod.mk.inj ended
      split at handled
      · cases handled
      · rename_i response answered
        exact .inr ⟨response, answered, .inr ⟨next, handled, rfl⟩⟩

structure LoopExchanges (semantics : Semantics Input) (request : FetchRequest) (requested : Url)
    (requestedHost : Str) (answered : List Answered)
    (result : Option (Except IngestionError (FetchOutcome Input))) : Prop where
  headers : ∀ x ∈ answered, ∃ host, x.httpRequest.url.hostStr = some host ∧ x.httpRequest =
    ⟨x.httpRequest.url, requestHeaders request (Str.toAsciiLowercase host) requestedHost⟩
  ends : ∀ x ∈ answered, x.response.status = 304 → answered.getLast? = some x ∧
    result = some (notModified semantics request requested x.httpRequest.url x.response)
  reported : ∀ metadata, result = some (.ok (.notModified metadata)) →
    ∃ x, answered.getLast? = some x ∧ x.response.status = 304

section Loop

variable {requested current : Url} {requestedHost host : Str} {redirectCount : Nat}
  {response : Response} (rendered : current.hostStr = some host)

include rendered

/-- The exchange that ends the loop. -/
theorem LoopExchanges.returned {result : Except IngestionError (FetchOutcome Input)}
    (handled : handleResponse crate semantics fetcher request redirectCount requested current
      response = .returned result) :
    LoopExchanges semantics request requested requestedHost
      [⟨⟨current, requestHeaders request (Str.toAsciiLowercase host) requestedHost⟩, response⟩]
      (some result) := by
  refine ⟨?_, ?_, ?_⟩
  · rintro x hx
    rw [List.mem_singleton.mp hx]
    exact ⟨host, rendered, rfl⟩
  · rintro x hx status
    rw [List.mem_singleton.mp hx] at status ⊢
    rw [handleResponse, if_pos status] at handled
    exact ⟨rfl, congrArg some (Round.returned.inj handled).symm⟩
  · intro metadata same
    rw [Option.some.inj same] at handled
    exact ⟨_, rfl, handleResponse_notModified handled⟩

/-- An exchange that is followed to another one. -/
theorem LoopExchanges.redirected {next : Url} {answered : List Answered}
    {result : Option (Except IngestionError (FetchOutcome Input))}
    (handled : handleResponse crate semantics fetcher request redirectCount requested current
      response = .redirected next)
    (later : LoopExchanges semantics request requested requestedHost answered result) :
    LoopExchanges semantics request requested requestedHost
      (⟨⟨current, requestHeaders request (Str.toAsciiLowercase host) requestedHost⟩, response⟩ ::
        answered) result := by
  have other : response.status ≠ 304 := by
    intro status
    rw [handleResponse, if_pos status] at handled
    cases handled
  refine ⟨?_, ?_, ?_⟩
  · intro x hx
    rcases List.mem_cons.mp hx with rfl | hx
    · exact ⟨host, rendered, rfl⟩
    · exact later.headers x hx
  · intro x hx status
    rcases List.mem_cons.mp hx with rfl | hx
    · exact absurd status other
    · obtain ⟨last, result⟩ := later.ends x hx status
      exact ⟨by rw [List.getLast?_cons, last, Option.getD_some], result⟩
  · intro metadata same
    obtain ⟨x, last, status⟩ := later.reported metadata same
    exact ⟨x, by rw [List.getLast?_cons, last, Option.getD_some], status⟩

end Loop

variable (crate semantics env fetcher request) in
/-- The invariant of the loop, over any list of remaining counts. -/
theorem exchanges_loop (requested : Url) (requestedHost : Str) (counts : List Nat) (current : Url) :
    LoopExchanges semantics request requested requestedHost
      ((rounds crate semantics env fetcher request requested requestedHost counts current).1.filterMap
        (Sent.answered env))
      (rounds crate semantics env fetcher request requested requestedHost counts current).2 := by
  induction counts generalizing current with
  | nil => exact ⟨by simp [rounds], by simp [rounds], by simp [rounds]⟩
  | cons redirectCount rest ih =>
    rcases rounds_cons requested requestedHost redirectCount rest current with
      ⟨e, stopped⟩ | ⟨client, host, rendered, _, ⟨e, e', failed, stopped⟩ | ⟨response, ok, handled⟩⟩
    · rw [stopped]
      exact ⟨by simp, by simp, by simp⟩
    · rw [stopped, List.filterMap_cons_none (Sent.answered_of_error failed), List.filterMap_nil]
      exact ⟨by simp, by simp, by simp⟩
    · rcases handled with ⟨result, returned, ended⟩ | ⟨next, redirected, followed⟩
      · rw [ended, List.filterMap_cons_some (Sent.answered_of_ok ok), List.filterMap_nil]
        exact .returned rendered returned
      · rw [followed, List.filterMap_cons_some (Sent.answered_of_ok ok)]
        exact .redirected rendered redirected (ih next)

theorem fetch_exchanges (crate : UrlCrate) (semantics : Semantics Input) (env : Environment)
    (fetcher : HttpFetcher) (request : FetchRequest) :
    ((∃ e, fetch crate semantics env fetcher request = ([], .error e)) ∧
      fetchExchanges crate semantics env fetcher request = []) ∨
    ∃ requested host result, prepareTargetUrl crate request.url request.scope = .ok requested ∧
      requested.hostStr = some host ∧
      LoopExchanges semantics request requested (Str.toAsciiLowercase host)
        (fetchExchanges crate semantics env fetcher request) (some result) ∧
      (fetch crate semantics env fetcher request).2 = result := by
  unfold fetchExchanges
  rcases fetch_runs crate semantics env fetcher request with
    ⟨e, refused⟩ | ⟨requested, host, result, prepared, rendered, ran, same⟩
  · exact .inl ⟨⟨e, refused⟩, by rw [refused]; rfl⟩
  · have loop := exchanges_loop crate semantics env fetcher request requested
      (Str.toAsciiLowercase host) (List.range (fetcher.policy.maxRedirects + 1)) requested
    rw [← fetchLoop, ran] at loop
    exact .inr ⟨requested, host, result, prepared, rendered, loop, same⟩

theorem notModified_conditional_iff (crate : UrlCrate) (semantics : Semantics Input)
    (env : Environment) (fetcher : HttpFetcher) (request : FetchRequest) :
    NotModifiedIsConditional crate semantics env fetcher request ↔
      SolicitedOnly crate semantics env fetcher request := by
  rcases fetch_exchanges crate semantics env fetcher request with
    ⟨⟨e, refused⟩, none⟩ | ⟨requested, host, result, prepared, rendered, loop, same⟩
  · unfold NotModifiedIsConditional SolicitedOnly
    rw [refused, none]
    simp
  · constructor
    · intro conditional requested' host' prepared' rendered' x hx status identity
      obtain rfl := Except.ok.inj (prepared.symm.trans prepared')
      obtain rfl := Option.some.inj (rendered.symm.trans rendered')
      obtain ⟨last, returned⟩ := loop.ends x hx status
      obtain ⟨metadata, reported⟩ := notModified_iff.mpr identity
      obtain ⟨y, last', _, _, carries⟩ := conditional metadata
        (by rw [same, Option.some.inj returned, reported])
      obtain rfl := Option.some.inj (last.symm.trans last')
      obtain ⟨current, currentHost, form⟩ := loop.headers x hx
      rw [form] at carries
      obtain ⟨sameHost, validator⟩ := conditional_iff.mp carries
      exact ⟨by rw [currentHost, Option.map_some, sameHost], validator⟩
    · intro solicited metadata returned
      rw [same] at returned
      obtain ⟨x, last, status⟩ := loop.reported metadata (congrArg some returned)
      have hx := List.mem_of_getLast? last
      have reported := Option.some.inj (loop.ends x hx status).2
      rw [returned] at reported
      obtain ⟨sameHost, validator⟩ := solicited requested host prepared rendered x hx status
        (notModified_iff.mp ⟨metadata, reported.symm⟩)
      obtain ⟨current, currentHost, form⟩ := loop.headers x hx
      rw [currentHost, Option.map_some] at sameHost
      refine ⟨x, last, status, notModified_ok reported.symm, ?_⟩
      rw [form]
      exact conditional_iff.mpr ⟨Option.some.inj sameHost, validator⟩

end

/-- Whether a result is a NotModified. -/
def isUnchanged {Input : Type} : Except IngestionError (FetchOutcome Input) → Bool
  | .ok (.notModified _) => true
  | _ => false

theorem isUnchanged_iff {Input : Type} {result : Except IngestionError (FetchOutcome Input)} :
    isUnchanged result = true ↔ ∃ metadata, result = .ok (.notModified metadata) := by
  cases result with
  | error e => simp [isUnchanged]
  | ok outcome => cases outcome <;> simp [isUnchanged]

theorem not_conditional {Input : Type} {crate : UrlCrate} {semantics : Semantics Input}
    {env : Environment} {fetcher : HttpFetcher} {request : FetchRequest}
    (unchanged : isUnchanged (fetch crate semantics env fetcher request).2 = true)
    (bare : ((fetchExchanges crate semantics env fetcher request).getLast?.all fun last =>
      !decide (Conditional request.conditional last.httpRequest)) = true) :
    ¬NotModifiedIsConditional crate semantics env fetcher request := by
  intro conditional
  obtain ⟨metadata, returned⟩ := isUnchanged_iff.mp unchanged
  obtain ⟨last, found, _, _, carries⟩ := conditional metadata returned
  rw [found, Option.all_some, Bool.not_eq_true', decide_eq_false_iff_not] at bare
  exact bare carries

def mirrorUrl : Url :=
  .https "mirror.example.org".toList "/blog".toList (by decide) blog_printable blog_absolute
    blog_resolved

/-- The crate on the registered URL and on the mirror that the server redirects to. -/
def mirrorCrate : UrlCrate where
  parse s := if s = mirrorUrl.asStr then .ok mirrorUrl else blogCrate.parse s
  join _ _ := .ok mirrorUrl

def mirrorScope : FetchScope := { blogScope with explicitlyAllowedHosts := {"mirror.example.org".toList} }

/-- Without a stored validator a 304 is taken as it comes, and with one it is taken also from the
host that the validator was withheld from. -/
theorem notModified_unconditional :
    ¬NotModifiedIsConditional blogCrate blogSemantics blogEnvironment blogFetcher
      ⟨"https://example.com/blog".toList, blogScope, ⟨none, none⟩⟩ ∧
    ¬NotModifiedIsConditional mirrorCrate blogSemantics blogEnvironment blogFetcher
      ⟨"https://example.com/blog".toList, mirrorScope, ⟨some "v1".toList, none⟩⟩ :=
  ⟨not_conditional (by decide +kernel) (by decide +kernel),
    not_conditional (by decide +kernel) (by decide +kernel)⟩

end EalSync.Ingestion
