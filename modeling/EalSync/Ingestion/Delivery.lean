import EalSync.Ingestion.Conditional
import EalSync.Ingestion.Handoff

/-! What a fetch brings back. The requests that it sends are a chain of redirections from the requested
URL on, one for each hop, and the outcome is made of what the last server sent and of nothing else. -/
namespace EalSync.Ingestion

/-- A request that was answered with a redirection, and the request that follows it. -/
def Follows (crate : UrlCrate) (env : Environment) (request : FetchRequest) (x y : Sent) : Prop :=
  ∃ response value location redirected, (x.exchange env).result = .ok response ∧
    (300 ≤ response.status ∧ response.status ≤ 399 ∧ response.status ≠ 304) ∧
    response.headers.get "location".toList = some value ∧ toStr value = some location ∧
    crate.join x.httpRequest.url location = .ok redirected ∧
    prepareTargetUrl crate redirected.asStr request.scope = .ok y.httpRequest.url

/-- A request for the URL of its hop, through the client of that hop. -/
structure Asked (env : Environment) (fetcher : HttpFetcher) (request : FetchRequest)
    (requestedHost : Str) (x : Sent) : Prop where
  client : pinnedClient env fetcher x.hop x.httpRequest.url = .ok x.client
  headers : ∃ host, x.httpRequest.url.hostStr = some host ∧
    x.httpRequest.headers = requestHeaders request (Str.toAsciiLowercase host) requestedHost

/-- A document made of the whole body of a success. -/
structure Delivered {Input : Type} (semantics : Semantics Input) (fetcher : HttpFetcher)
    (requested : Url) (x : Answered) (document : FetchedDocument Input) : Prop where
  success : 200 ≤ x.response.status ∧ x.response.status ≤ 299
  allowed : isAllowedContentType document.contentType = true
  content : ∃ (chunks : List (List UInt8)) (semantic : SemanticDocument Input),
    x.response.body = chunks.map .ok ∧ document.contentBytes = chunks.flatten.length ∧
    chunks.flatten.length ≤ fetcher.policy.maxResponseBytes ∧
    semantics.extractSemanticDocument document.contentType chunks.flatten
      document.metadata.canonicalUrl = .ok semantic ∧
    semantic = ⟨document.title, document.contentText, document.keywords, document.entities,
      document.embeddingInputs⟩ ∧
    document.embeddingText = semantics.combinedEmbeddingText semantic
  hash : document.contentSha256 = semantics.sha256Hex document.contentText
  identity : canonicalIdentity semantics x.httpRequest.url = .ok document.metadata.canonicalUrl
  named : document.metadata.requestedUrl = requested.asStr ∧
    document.metadata.finalUrl = x.httpRequest.url.asStr ∧
    document.metadata.status = x.response.status

/-- The outcome of the exchange that a fetch ended with. -/
def EndsWith {Input : Type} (semantics : Semantics Input) (fetcher : HttpFetcher) (requested : Url)
    (x : Answered) : FetchOutcome Input → Prop
  | .notModified metadata => x.response.status = 304 ∧ metadata.requestedUrl = requested.asStr ∧
      metadata.finalUrl = x.httpRequest.url.asStr ∧ metadata.status = x.response.status
  | .changed document => Delivered semantics fetcher requested x document

theorem readBounded_ok {maxBytes : Nat} (representable : maxBytes < 2 ^ 64 - 1)
    {body result : List UInt8} {stream : List (Except Str (List UInt8))}
    (room : body.length ≤ maxBytes) (ok : readBounded maxBytes body stream = .ok result) :
    ∃ chunks : List (List UInt8), stream = chunks.map .ok ∧ result = body ++ chunks.flatten ∧
      result.length ≤ maxBytes := by
  induction stream generalizing body with
  | nil =>
    obtain rfl := Except.ok.inj ok
    exact ⟨[], rfl, by simp, room⟩
  | cons item rest ih =>
    cases item with
    | error e => cases ok
    | ok chunk =>
      rw [readBounded] at ok
      obtain ⟨fits, ok⟩ := Checks.check_ok ok
      rw [saturatingAdd_le representable, not_lt, ← List.length_append] at fits
      obtain ⟨chunks, rfl, rfl, short⟩ := ih fits ok
      exact ⟨chunk :: chunks, rfl, by simp, short⟩

theorem maxResponseBytes_le (fetcher : HttpFetcher) :
    fetcher.policy.maxResponseBytes ≤ 32 * 1024 * 1024 := by
  have accepted := fetcher.validated
  unfold FetchPolicy.validate at accepted
  obtain ⟨_, accepted⟩ := Checks.check_ok accepted
  obtain ⟨range, _⟩ := Checks.check_ok accepted
  exact (not_not.mp range).2

section

variable {Input : Type} {crate : UrlCrate} {semantics : Semantics Input} {env : Environment}
  {fetcher : HttpFetcher} {request : FetchRequest}

theorem changed_delivered {requested current : Url} {headers : List (Str × Str)} {response : Response}
    {outcome : FetchOutcome Input}
    (ok : changed semantics fetcher requested current response = .ok outcome) :
    EndsWith semantics fetcher requested ⟨⟨current, headers⟩, response⟩ outcome := by
  unfold changed at ok
  obtain ⟨success, ok⟩ := Checks.check_ok ok
  obtain ⟨_, _, ok⟩ := Checks.bind_ok ok
  obtain ⟨_, _, ok⟩ := Checks.bind_ok ok
  obtain ⟨contentType, _, ok⟩ := Checks.bind_ok ok
  obtain ⟨allowed, ok⟩ := Checks.check_ok ok
  obtain ⟨body, read, ok⟩ := Checks.bind_ok ok
  obtain ⟨canonicalUrl, identity, ok⟩ := Checks.bind_ok ok
  obtain ⟨semantic, extracted, ok⟩ := Checks.bind_ok ok
  cases ok
  have bound := maxResponseBytes_le fetcher
  obtain ⟨chunks, stream, rfl, short⟩ := readBounded_ok (by omega) (Nat.zero_le _) read
  exact ⟨not_not.mp success, by simpa using allowed,
    ⟨chunks, semantic, stream, rfl, short, extracted, rfl, rfl⟩, rfl, identity, rfl, rfl, rfl⟩

theorem redirectTarget_follows {redirectCount : Nat} {current next : Url} {headers : HeaderMap}
    (ok : redirectTarget crate fetcher request redirectCount current headers = .ok next) :
    ∃ value location redirected, headers.get "location".toList = some value ∧
      toStr value = some location ∧ crate.join current location = .ok redirected ∧
      prepareTargetUrl crate redirected.asStr request.scope = .ok next := by
  unfold redirectTarget at ok
  obtain ⟨_, ok⟩ := Checks.check_ok ok
  obtain ⟨value, found, ok⟩ := Checks.bind_ok ok
  obtain ⟨location, read, ok⟩ := Checks.bind_ok ok
  obtain ⟨redirected, joined, ok⟩ := Checks.bind_ok ok
  exact ⟨value, location, redirected, okOr_ok.mp found, okOr_ok.mp read, Checks.mapError_ok joined, ok⟩

theorem handleResponse_follows {redirectCount : Nat} {requested current next : Url} {response : Response}
    (handled : handleResponse crate semantics fetcher request redirectCount requested current response =
      .redirected next) :
    (300 ≤ response.status ∧ response.status ≤ 399 ∧ response.status ≠ 304) ∧
      redirectTarget crate fetcher request redirectCount current response.headers = .ok next := by
  unfold handleResponse at handled
  split at handled
  · cases handled
  · rename_i other
    split at handled
    · rename_i redirection
      split at handled
      · cases handled
      · rename_i found
        cases handled
        exact ⟨⟨redirection.1, redirection.2, other⟩, found⟩
    · cases handled

theorem handleResponse_ends {redirectCount : Nat} {requested current : Url} {headers : List (Str × Str)}
    {response : Response} {outcome : FetchOutcome Input}
    (handled : handleResponse crate semantics fetcher request redirectCount requested current response =
      .returned (.ok outcome)) :
    EndsWith semantics fetcher requested ⟨⟨current, headers⟩, response⟩ outcome := by
  unfold handleResponse at handled
  split at handled
  · rename_i status
    obtain ok := Round.returned.inj handled
    obtain ⟨_, _, ok⟩ := Checks.bind_ok ok
    cases ok
    exact ⟨status, rfl, rfl, rfl⟩
  · split at handled
    · split at handled <;> cases handled
    · exact changed_delivered (Round.returned.inj handled)

/-- The chain of the loop from a URL on. -/
structure LoopChain (crate : UrlCrate) (semantics : Semantics Input) (env : Environment)
    (fetcher : HttpFetcher) (request : FetchRequest) (requested : Url) (requestedHost : Str)
    (current : Url) (counts : List Nat) (sent : List Sent)
    (result : Option (Except IngestionError (FetchOutcome Input))) : Prop where
  hops : sent.map Sent.hop <+: counts
  first : ∀ x ∈ sent.head?, x.httpRequest.url = current
  asked : ∀ x ∈ sent, Asked env fetcher request requestedHost x
  linked : sent.IsChain (Follows crate env request)
  outcome : ∀ outcome, result = some (.ok outcome) → ∃ last response, sent.getLast? = some last ∧
    (last.exchange env).result = .ok response ∧
    EndsWith semantics fetcher requested ⟨last.httpRequest, response⟩ outcome

/-- Nothing was sent. -/
theorem LoopChain.nil {requested current : Url} {requestedHost : Str} {counts : List Nat}
    {e : Option IngestionError} :
    LoopChain crate semantics env fetcher request requested requestedHost current counts []
      (e.map Except.error : Option (Except IngestionError (FetchOutcome Input))) where
  hops := List.nil_prefix
  first _ none := by cases none
  asked _ none := absurd none List.not_mem_nil
  linked := .nil
  outcome _ ok := by cases e <;> cases ok

section Loop

variable {requested : Url} {requestedHost : Str} {x : Sent} {counts : List Nat}
  (asks : Asked env fetcher request requestedHost x)

include asks

/-- The last request. -/
theorem LoopChain.last {result : Except IngestionError (FetchOutcome Input)}
    (ends : ∀ outcome, result = .ok outcome → ∃ response, (x.exchange env).result = .ok response ∧
      EndsWith semantics fetcher requested ⟨x.httpRequest, response⟩ outcome) :
    LoopChain crate semantics env fetcher request requested requestedHost x.httpRequest.url
      (x.hop :: counts) [x] (some result) where
  hops := List.prefix_append [x.hop] counts
  first y member := by
    obtain rfl := Option.some.inj member
    rfl
  asked y member := by
    rw [List.mem_singleton.mp member]
    exact asks
  linked := .singleton _
  outcome outcome same := by
    obtain ⟨response, ok, made⟩ := ends outcome (Option.some.inj same)
    exact ⟨x, response, rfl, ok, made⟩

/-- A request that is followed to another one. -/
theorem LoopChain.follow {next : Url} {response : Response} {sent : List Sent}
    {result : Option (Except IngestionError (FetchOutcome Input))}
    (ok : (x.exchange env).result = .ok response)
    (handled : handleResponse crate semantics fetcher request x.hop requested x.httpRequest.url
      response = .redirected next)
    (later : LoopChain crate semantics env fetcher request requested requestedHost next counts sent
      result) :
    LoopChain crate semantics env fetcher request requested requestedHost x.httpRequest.url
      (x.hop :: counts) (x :: sent) result where
  hops := (List.prefix_cons_inj x.hop).mpr later.hops
  first y member := by
    obtain rfl := Option.some.inj member
    rfl
  asked := List.forall_mem_cons.mpr ⟨asks, later.asked⟩
  linked := by
    refine later.linked.cons fun y member => ?_
    obtain ⟨status, target⟩ := handleResponse_follows handled
    obtain ⟨value, location, redirected, found, read, joined, prepared⟩ := redirectTarget_follows target
    rw [← later.first y member] at prepared
    exact ⟨response, value, location, redirected, ok, status, found, read, joined, prepared⟩
  outcome outcome same := by
    obtain ⟨last, response, found, ended⟩ := later.outcome outcome same
    exact ⟨last, response, by rw [List.getLast?_cons, found, Option.getD_some], ended⟩

end Loop

variable (crate semantics env fetcher request) in
/-- The invariant of the loop, over any list of remaining counts. -/
theorem rounds_chain (requested : Url) (requestedHost : Str) (counts : List Nat) (current : Url) :
    LoopChain crate semantics env fetcher request requested requestedHost current counts
      (rounds crate semantics env fetcher request requested requestedHost counts current).1
      (rounds crate semantics env fetcher request requested requestedHost counts current).2 := by
  induction counts generalizing current with
  | nil => exact .nil (e := none)
  | cons redirectCount rest ih =>
    rcases rounds_cons requested requestedHost redirectCount rest current with
      ⟨e, stopped⟩ | ⟨client, host, rendered, pinned, sent⟩
    · rw [stopped]
      exact .nil (e := some e)
    · have asks : Asked env fetcher request requestedHost ⟨redirectCount, client,
          ⟨current, requestHeaders request (Str.toAsciiLowercase host) requestedHost⟩⟩ :=
        ⟨pinned, host, rendered, rfl⟩
      rcases sent with
        ⟨e, e', _, stopped⟩ | ⟨response, ok, ⟨result, handled, ended⟩ | ⟨next, handled, followed⟩⟩
      · rw [stopped]
        exact .last asks (by rintro _ ⟨⟩)
      · rw [ended]
        refine .last asks fun outcome same => ⟨response, ok, ?_⟩
        rw [same] at handled
        exact handleResponse_ends handled
      · rw [followed]
        exact .follow asks ok handled (ih next)

end

/-- Either nothing was sent, or the loop made a chain from the prepared URL on. -/
theorem fetch_loops {Input : Type} (crate : UrlCrate) (semantics : Semantics Input)
    (env : Environment) (fetcher : HttpFetcher) (request : FetchRequest) :
    (∃ e, fetch crate semantics env fetcher request = ([], .error e)) ∨
    ∃ requested host, prepareTargetUrl crate request.url request.scope = .ok requested ∧
      requested.hostStr = some host ∧
      LoopChain crate semantics env fetcher request requested (Str.toAsciiLowercase host) requested
        (List.range (fetcher.policy.maxRedirects + 1)) (fetch crate semantics env fetcher request).1
        (some (fetch crate semantics env fetcher request).2) := by
  rcases fetch_runs crate semantics env fetcher request with
    refused | ⟨requested, host, result, prepared, rendered, ran, same⟩
  · exact .inl refused
  · have chain := rounds_chain crate semantics env fetcher request requested
      (Str.toAsciiLowercase host) (List.range (fetcher.policy.maxRedirects + 1)) requested
    rw [← fetchLoop, ran, ← same] at chain
    exact .inr ⟨requested, host, prepared, rendered, chain⟩

/-- A fetch that succeeds ends with an answer, and that answer makes its outcome. -/
theorem fetch_ends {Input : Type} {crate : UrlCrate} {semantics : Semantics Input}
    {env : Environment} {fetcher : HttpFetcher} {request : FetchRequest} {outcome : FetchOutcome Input}
    (ok : (fetch crate semantics env fetcher request).2 = .ok outcome) :
    ∃ requested last response, prepareTargetUrl crate request.url request.scope = .ok requested ∧
      (fetch crate semantics env fetcher request).1.getLast? = some last ∧
      (last.exchange env).result = .ok response ∧
      EndsWith semantics fetcher requested ⟨last.httpRequest, response⟩ outcome := by
  rcases fetch_loops crate semantics env fetcher request with
    ⟨e, failed⟩ | ⟨requested, _, prepared, _, chain⟩
  · rw [failed] at ok
    cases ok
  · obtain ⟨last, response, found, ends⟩ := chain.outcome outcome (congrArg some ok)
    exact ⟨requested, last, response, prepared, found, ends⟩

/-- The extraction of this repository, with a digest that is one. -/
def pageSemantics (unicode : Unicode) (serde : SerdeJson) (crate : UrlCrate)
    (canonicalizeUrl : Str → Except Str Str) (sha256 : Str → Digest) : Semantics EmbeddingInput :=
  documentSemantics unicode serde crate canonicalizeUrl fun text => (sha256 text).text

theorem decideRevision_text (previous : Option Digest) (d : Digest) :
    decideRevision (previous.map Digest.text) d.text =
      .ok (if previous.map Digest.key = some d.key then .unchanged
        else .storeRevision (previous.map Digest.key) d.key) := by
  cases previous with
  | none => exact decideRevision_digest none d
  | some p =>
    simp only [Option.map_some, decideRevision, d.valid, p.valid, Str.eqIgnoreAsciiCase_iff,
      Option.some.injEq]
    show (if p.key = d.key then _ else _) = _
    split
    · rfl
    · rfl

section

variable {unicode : Unicode} {serde : SerdeJson} {crate : UrlCrate}
  {canonicalizeUrl : Str → Except Str Str} {sha256 : Str → Digest}

/-- The extraction that a fetched document comes from. -/
theorem fetched_extracted {env : Environment} {fetcher : HttpFetcher} {request : FetchRequest}
    {document : FetchedDocument EmbeddingInput}
    (fetched : (fetch crate (pageSemantics unicode serde crate canonicalizeUrl sha256) env fetcher
      request).2 = .ok (.changed document)) :
    document.contentSha256 = (sha256 document.contentText).text ∧
      (∃ url, canonicalizeUrl url = .ok document.metadata.canonicalUrl) ∧
      ∃ body semantic, extractSemanticDocument unicode serde crate document.contentType body
          document.metadata.canonicalUrl = .ok semantic ∧
        semantic.contentText = document.contentText ∧
        semantic.embeddingInputs = document.embeddingInputs ∧
        semantic.combinedEmbeddingText = document.embeddingText := by
  obtain ⟨_, last, _, _, _, _, delivered⟩ := fetch_ends fetched
  obtain ⟨chunks, semantic, _, _, _, extracted, rfl, text⟩ := delivered.content
  exact ⟨delivered.hash, ⟨_, Checks.mapError_ok delivered.identity⟩, _, _, extracted, rfl, rfl, text.symm⟩

end

/-- The work that a fetched document gives, for the identifiers of its source. -/
structure WorkOf (document : FetchedDocument EmbeddingInput) (item : EmbeddingWorkItem) : Prop where
  canonicalUrl : item.canonicalUrl = document.metadata.canonicalUrl
  contentSha256 : item.contentSha256 = document.contentSha256
  contentText : item.contentText = document.contentText
  embeddingText : item.embeddingText = document.embeddingText
  embeddingInputs : item.embeddingInputs = document.embeddingInputs
  ids : ∀ id ∈ [item.tenantId, item.sourceId, item.sourceRevisionId, item.embeddingSpaceId],
    Str.trim id ≠ []

theorem WorkOf.accepted {document : FetchedDocument EmbeddingInput} {item : EmbeddingWorkItem}
    (work : WorkOf document item) {semantic : SemanticDocument EmbeddingInput}
    (admissible : Admissible semantic) (content : semantic.contentText = document.contentText)
    (inputs : validateEmbeddingInputs document.embeddingInputs = .ok ())
    (text : semantic.combinedEmbeddingText = document.embeddingText) {digest : Digest}
    (hash : document.contentSha256 = digest.text) {canonicalizeUrl : Str → Except Str Str}
    {canonical : Str} (parsed : canonicalizeUrl document.metadata.canonicalUrl = .ok canonical)
    (named : Str.trim document.metadata.canonicalUrl ≠ []) :
    item.validate canonicalizeUrl = .ok () ∧ item.providerText = document.embeddingText := by
  have visible := SemanticDocument.combinedEmbeddingText_visible admissible
  have short := semantic.combinedEmbeddingText_length
  rw [text] at visible short
  rw [← work.embeddingText] at visible short
  constructor
  · rw [← work.canonicalUrl] at parsed
    refine EmbeddingWorkItem.validate_ok ?_ short (work.embeddingInputs ▸ inputs) ?_ parsed
    · have ids := work.ids
      simp only [List.forall_mem_cons] at ids
      simp only [EmbeddingWorkItem.requiredFields, List.forall_mem_cons, work.canonicalUrl,
        work.contentText]
      exact ⟨ids.1, ids.2.1, named, ids.2.2.1, content ▸ admissible.content, ids.2.2.2.1,
        fun _ none => absurd none List.not_mem_nil⟩
    · rw [work.contentSha256, hash]
      exact digest.valid
  · rw [EmbeddingWorkItem.providerText, if_neg (by simpa using visible), work.embeddingText]

/-- Whatever the servers sent, two fetched documents are compared by the digests of their texts, and
the second one is accepted as the work of the embedding. A canonical URL is assumed to be its own
canonical form, and nothing blank is a URL. -/
theorem fetched_work (unicode : Unicode) (serde : SerdeJson) (crate : UrlCrate)
    (canonicalizeUrl : Str → Except Str Str)
    (blank : ∀ url canonical, canonicalizeUrl url = .ok canonical → Str.trim url ≠ [])
    (again : ∀ url canonical, canonicalizeUrl url = .ok canonical →
      canonicalizeUrl canonical = .ok canonical)
    (sha256 : Str → Digest) (env env' : Environment) (fetcher fetcher' : HttpFetcher)
    (request request' : FetchRequest) (before document : FetchedDocument EmbeddingInput)
    (fetched : (fetch crate (pageSemantics unicode serde crate canonicalizeUrl sha256) env fetcher
      request).2 = .ok (.changed before))
    (fetched' : (fetch crate (pageSemantics unicode serde crate canonicalizeUrl sha256) env' fetcher'
      request').2 = .ok (.changed document)) :
    decideRevisionWithInputs (some before.contentSha256) document.contentSha256
        document.embeddingInputs =
      .ok (if (sha256 before.contentText).key = (sha256 document.contentText).key then .unchanged
        else .storeRevision (some (sha256 before.contentText).key) (sha256 document.contentText).key) ∧
    ∀ item, WorkOf document item →
      item.validate canonicalizeUrl = .ok () ∧ item.providerText = document.embeddingText := by
  obtain ⟨earlier, _⟩ := fetched_extracted fetched
  obtain ⟨hash, ⟨url, identified⟩, body, semantic, extracted, content, inputs, text⟩ :=
    fetched_extracted fetched'
  obtain ⟨valid, _, set⟩ := extractSemanticDocument_ok extracted
  have accepted := validateEmbeddingInputs_ok (validate_ok valid) set
  rw [inputs] at accepted
  have compared := decideRevision_text (some (sha256 before.contentText)) (sha256 document.contentText)
  refine ⟨?_, fun item work => ?_⟩
  · rw [decideRevisionWithInputs, accepted, earlier, hash]
    simpa using compared
  · exact work.accepted (validate_ok valid) content accepted text hash (again _ _ identified)
      (blank _ _ (again _ _ identified))

/-- A redirect to the same URL, and then a page. -/
def noteEnvironment : Environment :=
  { blogEnvironment with
    send := fun hop client request =>
      { blogEnvironment.send hop client request with
        result := .ok (if hop = 0 then ⟨302, [("location".toList, [47])], []⟩
          else ⟨200, [("content-type".toList, Percent.utf8Bytes "text/plain".toList)],
            [.ok (Percent.utf8Bytes "Ab ".toList), .ok (Percent.utf8Bytes " cd".toList)]⟩) } }

def noteSemantics : Semantics EmbeddingInput :=
  pageSemantics Unicode.ascii ⟨fun _ => .error []⟩ blogCrate canonicalUrls fun _ => Digest.pageA

def fetchedText {Input : Type} : Except IngestionError (FetchOutcome Input) → Option Str
  | .ok (.changed document) => some document.contentText
  | .ok (.notModified _) | .error _ => none

theorem fetchedText_some {Input : Type} {result : Except IngestionError (FetchOutcome Input)} {text : Str}
    (read : fetchedText result = some text) :
    ∃ document, result = .ok (.changed document) ∧ document.contentText = text := by
  cases result with
  | error e => cases read
  | ok outcome =>
    cases outcome with
    | notModified metadata => cases read
    | changed document => exact ⟨document, rfl, Option.some.inj read⟩

theorem fetched_work_note : ∃ document, (fetch blogCrate noteSemantics noteEnvironment blogFetcher
      ⟨"https://example.com/blog".toList, blogScope, ⟨none, none⟩⟩).2 = .ok (.changed document) ∧
    document.contentText = "Ab cd".toList ∧
    decideRevisionWithInputs (some document.contentSha256) document.contentSha256
      document.embeddingInputs = .ok .unchanged := by
  have read : fetchedText (fetch blogCrate noteSemantics noteEnvironment blogFetcher
      ⟨"https://example.com/blog".toList, blogScope, ⟨none, none⟩⟩).2 = some "Ab cd".toList := by
    decide +kernel
  obtain ⟨document, fetched, text⟩ := fetchedText_some read
  have again : ∀ url canonical, canonicalUrls url = .ok canonical →
      canonicalUrls canonical = .ok canonical := by
    intro url canonical ok
    have own := ok
    unfold canonicalUrls at own
    split at own
    · cases own
    · cases own
      exact ok
  refine ⟨document, fetched, text, ?_⟩
  have decided := (fetched_work Unicode.ascii ⟨fun _ => .error []⟩ blogCrate canonicalUrls
    canonicalUrls_blank again _ _ _ _ _ _ _ document document fetched fetched).1
  rwa [if_pos rfl] at decided

end EalSync.Ingestion
