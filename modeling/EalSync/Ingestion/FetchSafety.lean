import EalSync.Ingestion.FetchErrors
import EalSync.Ingestion.Scope

/-! A whole fetch stays in scope and on public addresses, whatever the DNS and the server answer
at each hop. The client is assumed to send what it was asked to, to the address it was pinned to. -/
namespace EalSync.Ingestion

theorem decimal_digit : ∀ n < 256, ∃ front last, decimal n = front ++ [last] ∧
    (∀ c ∈ decimal n, Char.toLower c = c) ∧ last ≠ '.' := by
  have each : ∀ n < 256, (∀ c ∈ decimal n, Char.toLower c = c) ∧ decimal n ≠ [] ∧
      ∀ h : decimal n ≠ [], (decimal n).getLast h ≠ '.' := by decide +kernel
  intro n small
  obtain ⟨lower, some, last⟩ := each n small
  exact ⟨_, _, (List.dropLast_append_getLast some).symm, lower, last some⟩

/-- An IPv4 address is its own canonical host, so normalize_host refuses it. -/
theorem canonicalHost_ipv4 (x : Ipv4Addr) : canonicalHost x.render = x.render := by
  obtain ⟨front, last, digits, lowerD, dot⟩ := decimal_digit x.d.toNat x.d.isLt
  obtain ⟨_, _, _, lowerA, _⟩ := decimal_digit x.a.toNat x.a.isLt
  obtain ⟨_, _, _, lowerB, _⟩ := decimal_digit x.b.toNat x.b.isLt
  obtain ⟨_, _, _, lowerC, _⟩ := decimal_digit x.c.toNat x.c.isLt
  have kept : Str.trimEndMatches '.' x.render = x.render := by
    rw [Ipv4Addr.render, digits]
    simp only [← List.append_assoc, ← List.cons_append]
    exact Str.trimEndMatches_eq_self _ dot
  have lower : ∀ c ∈ x.render, Char.toLower c = c := by
    intro c member
    simp only [Ipv4Addr.render, List.append_assoc, List.cons_append, List.mem_append,
      List.mem_cons] at member
    rcases member with h | rfl | h | rfl | h | rfl | h
    · exact lowerA c h
    · rfl
    · exact lowerB c h
    · rfl
    · exact lowerC c h
    · rfl
    · exact lowerD c h
  rw [canonicalHost, kept, Str.toAsciiLowercase, List.map_congr_left lower, List.map_id']

theorem not_dnsName_ipv4 (x : Ipv4Addr) : ¬DnsName (canonicalHost x.render) := by
  intro dns
  have literal := dns.notLiteral
  rw [canonicalHost_ipv4, IpAddr.parse_render] at literal
  cases literal

theorem not_dnsName_ipv6 (x : Ipv6Addr) : ¬DnsName (canonicalHost (Host.ipv6 x).render) := by
  intro dns
  have kept : Str.trimEndMatches '.' (Host.ipv6 x).render = (Host.ipv6 x).render := by
    rw [Host.render]
    exact Str.trimEndMatches_eq_self ('[' :: Host.writeIpv6 x) (by decide)
  have bracket : '[' ∈ canonicalHost (Host.ipv6 x).render := by
    rw [canonicalHost, kept]
    exact List.mem_cons_self
  obtain ⟨label, member, inside⟩ := Segments.mem_segment bracket (by decide : '[' ≠ '.')
  rcases (dns.valid label member).alphabet '[' inside with alphanumeric | hyphen
  · exact absurd alphanumeric (by decide)
  · exact absurd hyphen (by decide)

theorem allowsUrl_domain {scope : FetchScope} {url : Url} (allowed : scope.allowsUrl url = true) :
    ∃ name, url.host = some (.domain name) ∧ DnsName (canonicalHost name) := by
  obtain ⟨host, _, rendered, normalized, _⟩ := (allowsUrl_eq_true scope url).mp allowed
  obtain ⟨rfl, dns⟩ := normalizeHost_ok.mp normalized
  rw [Str.trim_eq_self (Url.hostStr_solid rendered)] at dns
  obtain ⟨value, found, rfl⟩ := Option.map_eq_some_iff.mp rendered
  cases value with
  | domain name => exact ⟨name, found, dns⟩
  | ipv4 x => exact absurd dns (not_dnsName_ipv4 x)
  | ipv6 x => exact absurd dns (not_dnsName_ipv6 x)

/-- A client without proxy and redirects sends a request for a named host it is pinned for to that
address, however often it tries, and sends nothing else. -/
structure HonoursPinning (env : Environment) : Prop where
  pinned : ∀ hop client (request : HttpRequest) name address, request.url.host = some (.domain name) →
    client.noProxy = true → client.redirect = .none → client.resolve = some (name, address) →
    ∀ wire ∈ (env.send hop client request).wires, wire = ⟨request.url, address⟩

/-- What was sent, and what it put on the wire. -/
structure SafeRequest (env : Environment) (scope : FetchScope) (sent : Sent) : Prop where
  target : Target scope sent.httpRequest.url
  named : ∃ name, sent.httpRequest.url.host = some (.domain name) ∧ DnsName (canonicalHost name)
  reached : ∀ wire ∈ (sent.exchange env).wires,
    wire.url = sent.httpRequest.url ∧ isPublicIp wire.address.ip = true ∧
    ∃ host port answers, wire.url.hostStr = some host ∧ wire.url.portOrKnownDefault = some port ∧
      env.lookupHost sent.hop host port = .ok answers ∧ wire.address ∈ answers

section

variable {Input : Type} {crate : UrlCrate} {semantics : Semantics Input} {env : Environment}
  {fetcher : HttpFetcher} {request : FetchRequest}

theorem pinnedClient_ok {hop : Nat} {url : Url} {client : Client}
    (ok : pinnedClient env fetcher hop url = .ok client) :
    ∃ host port answers selected, url.hostStr = some host ∧ url.portOrKnownDefault = some port ∧
      env.lookupHost hop host port = .ok answers ∧ selected ∈ answers ∧
      isPublicIp selected.ip = true ∧ client.noProxy = true ∧ client.redirect = .none ∧
      client.resolve = some (host, selected) := by
  obtain ⟨host, one, ok⟩ := Checks.bind_ok ok
  obtain ⟨port, two, ok⟩ := Checks.bind_ok ok
  obtain ⟨addresses, three, ok⟩ := Checks.bind_ok ok
  obtain ⟨selected, four, ok⟩ := Checks.bind_ok ok
  obtain ⟨_, _, ok⟩ := Checks.bind_ok ok
  obtain ⟨answers, looked, members⟩ := resolvePublicAddresses_ok three
  cases ok
  have member : selected ∈ addresses := by
    rcases Option.or_eq_some_iff.mp (okOr_ok.mp four) with found | ⟨_, first⟩
    · exact List.mem_of_find?_eq_some found
    · exact List.mem_of_mem_head? first
  exact ⟨host, port, answers, selected, okOr_ok.mp one, okOr_ok.mp two, looked,
    (members selected member).1, (members selected member).2, rfl, rfl, rfl⟩

theorem prepareHop_ok {hop : Nat} {requestedHost : Str} {current : Url} {client : Client}
    {httpRequest : HttpRequest}
    (ok : prepareHop env fetcher request hop requestedHost current = .ok (client, httpRequest)) :
    pinnedClient env fetcher hop current = .ok client ∧ httpRequest.url = current := by
  obtain ⟨_, _, ok⟩ := Checks.bind_ok ok
  obtain ⟨_, _, ok⟩ := Checks.bind_ok ok
  obtain ⟨_, pinned, ok⟩ := Checks.bind_ok ok
  cases ok
  exact ⟨pinned, rfl⟩

theorem notModified_ok {requested current : Url} {response : Response} {outcome : FetchOutcome Input}
    (ok : notModified semantics request requested current response = .ok outcome) :
    outcome.metadata.finalUrl = current.asStr := by
  obtain ⟨_, _, ok⟩ := Checks.bind_ok ok
  cases ok
  rfl

theorem changed_ok {requested current : Url} {response : Response} {outcome : FetchOutcome Input}
    (ok : changed semantics fetcher requested current response = .ok outcome) :
    outcome.metadata.finalUrl = current.asStr := by
  unfold changed at ok
  obtain ⟨_, ok⟩ := Checks.check_ok ok
  obtain ⟨_, _, ok⟩ := Checks.bind_ok ok
  obtain ⟨_, _, ok⟩ := Checks.bind_ok ok
  obtain ⟨_, _, ok⟩ := Checks.bind_ok ok
  obtain ⟨_, ok⟩ := Checks.check_ok ok
  obtain ⟨_, _, ok⟩ := Checks.bind_ok ok
  obtain ⟨_, _, ok⟩ := Checks.bind_ok ok
  obtain ⟨_, _, ok⟩ := Checks.bind_ok ok
  cases ok
  rfl

theorem redirectTarget_ok {redirectCount : Nat} {current next : Url} {headers : HeaderMap}
    (ok : redirectTarget crate fetcher request redirectCount current headers = .ok next) :
    redirectCount ≠ fetcher.policy.maxRedirects ∧ Target request.scope next := by
  unfold redirectTarget at ok
  obtain ⟨below, ok⟩ := Checks.check_ok ok
  obtain ⟨_, _, ok⟩ := Checks.bind_ok ok
  obtain ⟨_, _, ok⟩ := Checks.bind_ok ok
  obtain ⟨_, _, ok⟩ := Checks.bind_ok ok
  exact ⟨below, prepareTargetUrl_ok ok⟩

theorem handleResponse_cases {redirectCount : Nat} {requested current : Url} {response : Response}
    {next : Round Input}
    (handled : handleResponse crate semantics fetcher request redirectCount requested current response =
      next) :
    (∃ e, next = .returned (.error e)) ∨
    (∃ outcome, next = .returned (.ok outcome) ∧ outcome.metadata.finalUrl = current.asStr) ∨
    ∃ url, next = .redirected url ∧ redirectCount ≠ fetcher.policy.maxRedirects ∧
      Target request.scope url := by
  unfold handleResponse at handled
  subst handled
  split
  · cases result : notModified semantics request requested current response with
    | error e => exact .inl ⟨e, rfl⟩
    | ok outcome => exact .inr (.inl ⟨outcome, rfl, notModified_ok result⟩)
  · split
    · split
      · exact .inl ⟨_, rfl⟩
      · rename_i url found
        exact .inr (.inr ⟨url, rfl, redirectTarget_ok found⟩)
    · cases result : changed semantics fetcher requested current response with
      | error e => exact .inl ⟨e, rfl⟩
      | ok outcome => exact .inr (.inl ⟨outcome, rfl, changed_ok result⟩)

structure RoundSafe (env : Environment) (fetcher : HttpFetcher) (scope : FetchScope)
    (redirectCount : Nat) (sent : List Sent) (next : Round Input) : Prop where
  safe : ∀ x ∈ sent, SafeRequest env scope x
  once : sent.length ≤ 1
  final : ∀ outcome, next = .returned (.ok outcome) →
    ∃ x ∈ sent, outcome.metadata.finalUrl = x.httpRequest.url.asStr
  follows : ∀ url, next = .redirected url →
    redirectCount ≠ fetcher.policy.maxRedirects ∧ Target scope url

theorem prepareHop_safe (pinning : HonoursPinning env) {hop : Nat} {requestedHost : Str} {current : Url}
    (target : Target request.scope current) {client : Client} {httpRequest : HttpRequest}
    (prepared : prepareHop env fetcher request hop requestedHost current = .ok (client, httpRequest)) :
    SafeRequest env request.scope ⟨hop, client, httpRequest⟩ := by
  obtain ⟨pinned, rfl⟩ := prepareHop_ok prepared
  obtain ⟨host, port, answers, selected, rendered, known, looked, member, reachable, noProxy,
    noRedirect, resolve⟩ := pinnedClient_ok pinned
  obtain ⟨name, named, dns⟩ := allowsUrl_domain target.inScope
  have same : host = name := by
    rw [Url.hostStr, named] at rendered
    exact (Option.some.inj rendered).symm
  refine ⟨target, ⟨name, named, dns⟩, fun wire sent => ?_⟩
  rw [pinning.pinned hop client httpRequest name selected named noProxy noRedirect
    (by rw [resolve, same]) wire sent]
  exact ⟨rfl, reachable, host, port, answers, rendered, known, looked, member⟩

variable (crate semantics fetcher) in
theorem round_safe (pinning : HonoursPinning env) (redirectCount : Nat) (requested : Url)
    (requestedHost : Str) {current : Url} (target : Target request.scope current) :
    RoundSafe env fetcher request.scope redirectCount
      (round crate semantics env fetcher request redirectCount requested requestedHost current).1
      (round crate semantics env fetcher request redirectCount requested requestedHost current).2 := by
  unfold round
  split
  · exact ⟨by simp, by simp, by simp, by simp⟩
  · rename_i client httpRequest prepared
    obtain ⟨_, sameUrl⟩ := prepareHop_ok prepared
    dsimp only
    refine ⟨?_, le_rfl, ?_, ?_⟩
    · intro x hx
      rw [List.mem_singleton.mp hx]
      exact prepareHop_safe pinning target prepared
    · intro outcome returned
      refine ⟨_, List.mem_singleton_self _, ?_⟩
      split at returned
      · cases returned
      · rcases handleResponse_cases returned with ⟨_, h⟩ | ⟨_, h, final⟩ | ⟨_, h, _⟩
        · cases h
        · cases h
          rw [sameUrl]
          exact final
        · cases h
    · intro url redirected
      split at redirected
      · cases redirected
      · rcases handleResponse_cases redirected with ⟨_, h⟩ | ⟨_, h, _⟩ | ⟨_, h, below, safe⟩
        · cases h
        · cases h
        · cases h
          exact ⟨below, safe⟩

variable (crate semantics fetcher) in
/-- The invariant of the loop, over any list of remaining counts. -/
theorem rounds_safe (pinning : HonoursPinning env) (requested : Url) (requestedHost : Str)
    (counts : List Nat) {current : Url} (target : Target request.scope current) :
    let after := rounds crate semantics env fetcher request requested requestedHost counts current
    (∀ x ∈ after.1, SafeRequest env request.scope x) ∧ after.1.length ≤ counts.length ∧
      ∀ outcome, after.2 = some (.ok outcome) →
        ∃ x ∈ after.1, outcome.metadata.finalUrl = x.httpRequest.url.asStr := by
  induction counts generalizing current with
  | nil => exact ⟨by simp [rounds], by simp [rounds], by simp [rounds]⟩
  | cons redirectCount rest ih =>
    have one := round_safe crate semantics fetcher pinning redirectCount requested requestedHost target
    simp only [rounds]
    split
    · rename_i sent result ended
      rw [ended] at one
      refine ⟨one.safe, ?_, ?_⟩
      · have few : sent.length ≤ 1 := one.once
        simp only [List.length_cons]
        omega
      · intro outcome returned
        exact one.final outcome (congrArg Round.returned (Option.some.inj returned))
    · rename_i sent next followed
      rw [followed] at one
      obtain ⟨safe, few, final⟩ := ih (one.follows next rfl).2
      refine ⟨?_, ?_, ?_⟩
      · intro x hx
        rcases List.mem_append.mp hx with here | later
        · exact one.safe x here
        · exact safe x later
      · have single : sent.length ≤ 1 := one.once
        simp only [List.length_append, List.length_cons]
        omega
      · intro outcome returned
        obtain ⟨x, hx, same⟩ := final outcome returned
        exact ⟨x, List.mem_append_right _ hx, same⟩

/-- The last count refuses every redirection, so the loop never falls through. -/
theorem rounds_returns (requested : Url) (requestedHost : Str) (counts : List Nat) (current : Url) :
    (rounds crate semantics env fetcher request requested requestedHost
      (counts ++ [fetcher.policy.maxRedirects]) current).2 ≠ none := by
  induction counts generalizing current with
  | nil =>
    simp only [List.nil_append, rounds]
    split
    · simp
    · rename_i sent next followed
      unfold round at followed
      split at followed
      · cases followed
      · dsimp only at followed
        split at followed
        · cases followed
        · have handled := congrArg Prod.snd followed
          rcases handleResponse_cases handled with ⟨_, h⟩ | ⟨_, h, _⟩ | ⟨_, _, below, _⟩
          · cases h
          · cases h
          · exact absurd rfl below
  | cons redirectCount rest ih =>
    simp only [List.cons_append, rounds]
    split
    · simp
    · exact ih _

structure FetchSafe (crate : UrlCrate) (semantics : Semantics Input) (env : Environment)
    (fetcher : HttpFetcher) (request : FetchRequest) : Prop where
  requests : ∀ x ∈ (fetch crate semantics env fetcher request).1, SafeRequest env request.scope x
  few : (fetch crate semantics env fetcher request).1.length ≤ fetcher.policy.maxRedirects + 1
  final : ∀ outcome, (fetch crate semantics env fetcher request).2 = .ok outcome →
    ∃ x ∈ (fetch crate semantics env fetcher request).1,
      outcome.metadata.finalUrl = x.httpRequest.url.asStr
  returns : (fetch crate semantics env fetcher request).2 ≠ .error fellThrough

end

theorem fetchLoop_returns {Input : Type} (crate : UrlCrate) (semantics : Semantics Input)
    (env : Environment) (fetcher : HttpFetcher) (request : FetchRequest) (requested : Url)
    (requestedHost : Str) :
    (fetchLoop crate semantics env fetcher request requested requestedHost).2 ≠ none := by
  rw [fetchLoop, List.range_succ]
  exact rounds_returns requested requestedHost _ requested

/-- Either nothing was sent, or the loop ran from the prepared URL on. -/
theorem fetch_runs {Input : Type} (crate : UrlCrate) (semantics : Semantics Input)
    (env : Environment) (fetcher : HttpFetcher) (request : FetchRequest) :
    (∃ e, fetch crate semantics env fetcher request = ([], .error e)) ∨
    ∃ requested host result, prepareTargetUrl crate request.url request.scope = .ok requested ∧
      requested.hostStr = some host ∧
      fetchLoop crate semantics env fetcher request requested (Str.toAsciiLowercase host) =
        ((fetch crate semantics env fetcher request).1, some result) ∧
      (fetch crate semantics env fetcher request).2 = result := by
  unfold fetch
  split
  · exact .inl ⟨_, rfl⟩
  · rename_i requested prepared
    split
    · exact .inl ⟨_, rfl⟩
    · rename_i host required
      have returns := fetchLoop_returns crate semantics env fetcher request requested
        (Str.toAsciiLowercase host)
      split
      rename_i sent result looped
      rw [looped] at returns
      obtain ⟨value, rfl⟩ := Option.ne_none_iff_exists'.mp returns
      exact .inr ⟨requested, host, value, prepared, okOr_ok.mp required, looped, rfl⟩

theorem fetch_sent {Input : Type} (crate : UrlCrate) (semantics : Semantics Input)
    {env : Environment} (pinning : HonoursPinning env) (fetcher : HttpFetcher) (request : FetchRequest) :
    (∀ x ∈ (fetch crate semantics env fetcher request).1, SafeRequest env request.scope x) ∧
      (fetch crate semantics env fetcher request).1.length ≤ fetcher.policy.maxRedirects + 1 ∧
      ∀ outcome, (fetch crate semantics env fetcher request).2 = .ok outcome →
        ∃ x ∈ (fetch crate semantics env fetcher request).1,
          outcome.metadata.finalUrl = x.httpRequest.url.asStr := by
  rcases fetch_runs crate semantics env fetcher request with
    ⟨e, refused⟩ | ⟨requested, host, result, prepared, _, looped, same⟩
  · rw [refused]
    simp
  · obtain ⟨safe, few, final⟩ := rounds_safe crate semantics fetcher pinning requested
      (Str.toAsciiLowercase host) (List.range (fetcher.policy.maxRedirects + 1))
      (prepareTargetUrl_ok prepared)
    rw [← fetchLoop, looped] at safe few final
    rw [List.length_range] at few
    refine ⟨safe, few, ?_⟩
    intro outcome ok
    exact final outcome (congrArg some (same.symm.trans ok))

theorem fetch_returns {Input : Type} (crate : UrlCrate) {semantics : Semantics Input}
    (extracts : ∀ contentType body url, Returns (semantics.extractSemanticDocument contentType body url))
    (env : Environment) (fetcher : HttpFetcher) (request : FetchRequest) :
    Returns (fetch crate semantics env fetcher request).2 := by
  unfold fetch
  split
  · rename_i e refused
    exact .error (prepareTargetUrl_returns _ _ e refused)
  · rename_i requested _
    split
    · rename_i e refused
      exact .error (requireHost_returns _ e refused)
    · rename_i host _
      have returns := fetchLoop_returns crate semantics env fetcher request requested
        (Str.toAsciiLowercase host)
      obtain ⟨result, ended⟩ := Option.ne_none_iff_exists'.mp returns
      dsimp only
      rw [ended, Option.getD_some]
      exact rounds_result_returns extracts _ _ _ _ ended

theorem fetch_safe (unicode : Unicode) (serde : SerdeJson) (crate : UrlCrate)
    (canonicalizeUrl : Str → Except Str Str) (sha256Hex : Str → Str) (env : Environment)
    (pinning : HonoursPinning env) (fetcher : HttpFetcher) (request : FetchRequest) :
    FetchSafe crate (documentSemantics unicode serde crate canonicalizeUrl sha256Hex) env fetcher
      request := by
  obtain ⟨requests, few, final⟩ := fetch_sent crate
    (documentSemantics unicode serde crate canonicalizeUrl sha256Hex) pinning fetcher request
  refine ⟨requests, few, final, fun failed => ?_⟩
  exact fetch_returns crate (extractSemanticDocument_returns unicode serde crate) env fetcher request _
    failed rfl

def blogFetcher : HttpFetcher := ⟨FetchPolicy.default, by decide⟩

def blogSemantics : Semantics Unit where
  canonicalizeUrl := .ok
  sha256Hex _ := []
  extractSemanticDocument _ _ _ := .ok ⟨none, [], [], [], []⟩
  combinedEmbeddingText _ := []

/-- A lookup with a private and a public answer, a redirect to the same URL and then a 304. -/
def blogEnvironment : Environment where
  acquire _ _ := true
  lookupHost _ _ port := .ok [⟨.v4 ⟨10, 0, 0, 1⟩, port⟩, ⟨.v4 ⟨1, 1, 1, 1⟩, port⟩]
  build _ _ := .ok ()
  send hop client request :=
    match client.resolve with
    | none => ⟨[], .error "not pinned".toList⟩
    | some (_, address) => ⟨[⟨request.url, address⟩], .ok
        (if hop = 0 then ⟨302, [("location".toList, [47])], []⟩ else ⟨304, [], []⟩)⟩

theorem blogEnvironment_pinning : HonoursPinning blogEnvironment where
  pinned _ client _ _ _ _ _ _ resolve := by
    obtain ⟨_, _, _, _, _, pinnedTo⟩ := client
    cases resolve
    exact fun wire member => List.mem_singleton.mp member

theorem fetch_safe_redirected : FetchSafe blogCrate (documentSemantics Unicode.ascii ⟨fun _ => .error []⟩
    blogCrate .ok fun _ => []) blogEnvironment blogFetcher
    ⟨"https://example.com/blog".toList, blogScope, ⟨none, none⟩⟩ :=
  fetch_safe Unicode.ascii _ blogCrate _ _ blogEnvironment blogEnvironment_pinning blogFetcher _

example : (fetch blogCrate blogSemantics blogEnvironment blogFetcher
    ⟨"https://example.com/blog".toList, blogScope, ⟨none, none⟩⟩).1.flatMap
      (fun sent => (sent.exchange blogEnvironment).wires) =
    [⟨blogUrl, ⟨.v4 ⟨1, 1, 1, 1⟩, 443⟩⟩, ⟨blogUrl, ⟨.v4 ⟨1, 1, 1, 1⟩, 443⟩⟩] := by
  decide +kernel

end EalSync.Ingestion
