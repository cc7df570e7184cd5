import EalSync.Ingestion.Response
import EalSync.Ingestion.Safety
import EalSync.Ingestion.SemanticViews

/-! src/ingestion/network/fetcher.rs. What the fetcher meets at each hop (the host limiter, the
DNS, the HTTP client and through it the server) is a parameter indexed by the hop, so it may
answer anything. -/
namespace EalSync.Ingestion

structure FetchMetadata where
  requestedUrl : Str
  canonicalUrl : Str
  finalUrl : Str
  status : Nat
  etag : Option Str
  lastModified : Option Str
  deriving DecidableEq, Repr

structure FetchedDocument (Input : Type) where
  metadata : FetchMetadata
  contentType : Str
  contentBytes : Nat
  contentSha256 : Str
  title : Option Str
  contentText : Str
  keywords : List Str
  entities : List Str
  embeddingText : Str
  embeddingInputs : List Input

inductive FetchOutcome (Input : Type) where
  | notModified (metadata : FetchMetadata)
  | changed (document : FetchedDocument Input)

def FetchOutcome.metadata {Input : Type} : FetchOutcome Input → FetchMetadata
  | notModified metadata => metadata
  | changed document => document.metadata

/-- What a response is made into: the eal_semantic crate and the extraction of a document. -/
structure Semantics (Input : Type) where
  canonicalizeUrl : Str → Except Str Str
  sha256Hex : Str → Str
  extractSemanticDocument : Str → List UInt8 → Str → Except IngestionError (SemanticDocument Input)
  combinedEmbeddingText : SemanticDocument Input → Str

inductive RedirectPolicy where
  | none
  | limited (max : Nat)
  deriving DecidableEq, Repr

structure Client where
  noProxy : Bool
  redirect : RedirectPolicy
  timeout : Nat
  connectTimeout : Nat
  userAgent : Str
  resolve : Option (Str × SocketAddr)
  deriving DecidableEq, Repr

structure HttpRequest where
  url : Url
  headers : List (Str × Str)
  deriving DecidableEq

structure Wire where
  url : Url
  address : SocketAddr
  deriving DecidableEq

/-- One call of send: the requests that it puts on the wire, which are several when the client
repeats one that the server has not processed, and what it returns. -/
structure Exchange where
  wires : List Wire
  result : Except Str Response

structure Environment where
  acquire : Nat → Str → Bool
  lookupHost : Nat → Str → Nat → Except Str (List SocketAddr)
  build : Nat → Client → Except Str Unit
  send : Nat → Client → HttpRequest → Exchange

structure HttpFetcher where
  policy : FetchPolicy
  validated : policy.validate = .ok ()

def HttpFetcher.new (policy : FetchPolicy) : Except IngestionError HttpFetcher :=
  match accepted : policy.validate with
  | .error e => .error e
  | .ok _ => .ok ⟨policy, accepted⟩

/-- safety.rs::canonical_identity. -/
def canonicalIdentity {Input : Type} (semantics : Semantics Input) (url : Url) :
    Except IngestionError Str :=
  (semantics.canonicalizeUrl url.asStr).mapError fun e => ⟨"invalid_url", String.ofList e⟩

/-- The extraction of this repository, with the canonicalization and the digest of eal_semantic. -/
def documentSemantics (unicode : Unicode) (serde : SerdeJson) (crate : UrlCrate)
    (canonicalizeUrl : Str → Except Str Str) (sha256Hex : Str → Str) : Semantics EmbeddingInput where
  canonicalizeUrl := canonicalizeUrl
  sha256Hex := sha256Hex
  extractSemanticDocument := extractSemanticDocument unicode serde crate
  combinedEmbeddingText := SemanticDocument.combinedEmbeddingText

/-- A request handed to send: the hop, the client of that hop, and the request. -/
structure Sent where
  hop : Nat
  client : Client
  httpRequest : HttpRequest
  deriving DecidableEq

def Sent.exchange (env : Environment) (sent : Sent) : Exchange :=
  env.send sent.hop sent.client sent.httpRequest

inductive Round (Input : Type) where
  | returned (result : Except IngestionError (FetchOutcome Input))
  | redirected (next : Url)

def defaultAccept : Str := ("text/html,application/xhtml+xml,application/json,application/feed+json," ++
  "application/rss+xml,application/atom+xml,application/xml,text/xml,text/plain;q=0.8").toList

section

variable {Input : Type} (crate : UrlCrate) (semantics : Semantics Input) (env : Environment)
  (fetcher : HttpFetcher) (request : FetchRequest)

def acquireHostPermit (hop : Nat) (host : Str) : Except IngestionError Unit :=
  if env.acquire hop host then .ok ()
  else .error ⟨"worker_shutdown", "host concurrency limiter was closed"⟩

def pinnedClient (hop : Nat) (url : Url) : Except IngestionError Client := do
  let host ← requireHost url
  let port ← okOr url.portOrKnownDefault ⟨"invalid_url", "URL does not have a usable network port"⟩
  let addresses ← resolvePublicAddresses (env.lookupHost hop host port)
  let selected ← okOr ((addresses.find? SocketAddr.isIpv4).or addresses.head?)
    ⟨"dns_no_public_address", "host has no public address"⟩
  let client : Client :=
    { noProxy := true, redirect := .none, timeout := fetcher.policy.requestTimeout
      connectTimeout := fetcher.policy.connectTimeout, userAgent := fetcher.policy.userAgent
      resolve := some (host, selected) }
  let _ ← (env.build hop client).mapError fun e =>
    ⟨"client_build_failed", "could not build pinned HTTP client: " ++ String.ofList e⟩
  .ok client

/-- The headers of a hop; the conditional ones go to the requested host only. -/
def requestHeaders (currentHost requestedHost : Str) : List (Str × Str) :=
  ("accept".toList, defaultAccept) ::
    if currentHost = requestedHost then
      (request.conditional.etag.elim [] fun etag => [("if-none-match".toList, etag)]) ++
        request.conditional.lastModified.elim [] fun date => [("if-modified-since".toList, date)]
    else []

def checkLength (maxResponseBytes : Nat) : Option Nat → Except IngestionError Unit
  | none => .ok ()
  | some length =>
    if length > maxResponseBytes then
      .error ⟨"response_too_large", "Content-Length " ++ toString length ++ " exceeds " ++
        toString maxResponseBytes ++ " bytes"⟩
    else .ok ()

/-- The outcome of a 304. -/
def notModified (requested current : Url) (response : Response) :
    Except IngestionError (FetchOutcome Input) := do
  let canonicalUrl ← canonicalIdentity semantics current
  .ok (.notModified
    { requestedUrl := requested.asStr, canonicalUrl, finalUrl := current.asStr
      status := response.status
      etag := (headerString response.headers "etag".toList).or request.conditional.etag
      lastModified := (headerString response.headers "last-modified".toList).or
        request.conditional.lastModified })

def redirectTarget (redirectCount : Nat) (current : Url) (headers : HeaderMap) :
    Except IngestionError Url :=
  if redirectCount = fetcher.policy.maxRedirects then
    .error ⟨"redirect_limit",
      "redirect limit of " ++ toString fetcher.policy.maxRedirects ++ " exceeded"⟩
  else do
    let value ← okOr (headers.get "location".toList)
      ⟨"invalid_redirect", "redirect response omitted the Location header"⟩
    let location ← okOr (toStr value)
      ⟨"invalid_redirect", "redirect Location is not valid ASCII/UTF-8"⟩
    let redirected ← (crate.join current location).mapError fun e =>
      ⟨"invalid_redirect", "could not resolve redirect target: " ++ String.ofList e⟩
    prepareTargetUrl crate redirected.asStr request.scope

/-- The outcome of any other status. -/
def changed (requested current : Url) (response : Response) :
    Except IngestionError (FetchOutcome Input) :=
  let status := response.status
  let headers := response.headers
  if ¬(200 ≤ status ∧ status ≤ 299) then
    let retryAfter := (headerString headers "retry-after".toList).elim "" fun value =>
      "; retry-after=" ++ String.ofList value
    .error ⟨if status = 429 ∨ status = 503 then "remote_throttled" else "remote_status",
      "remote returned HTTP " ++ toString status ++ retryAfter⟩
  else do
    let length ← contentLength headers
    let _ ← checkLength fetcher.policy.maxResponseBytes length
    let contentType ← contentType headers fetcher.policy.requireContentType
    if !isAllowedContentType contentType then
      .error ⟨"unsupported_content_type",
        "content type " ++ String.ofList (Str.debug contentType) ++ " is not ingestible"⟩
    else do
      let body ← readBoundedBody response fetcher.policy.maxResponseBytes
      let canonicalUrl ← canonicalIdentity semantics current
      let semantic ← semantics.extractSemanticDocument contentType body canonicalUrl
      .ok (.changed
        { metadata :=
            { requestedUrl := requested.asStr, canonicalUrl, finalUrl := current.asStr, status
              etag := headerString headers "etag".toList
              lastModified := headerString headers "last-modified".toList }
          contentType
          contentBytes := body.length
          contentSha256 := semantics.sha256Hex semantic.contentText
          title := semantic.title
          contentText := semantic.contentText
          keywords := semantic.keywords
          entities := semantic.entities
          embeddingText := semantics.combinedEmbeddingText semantic
          embeddingInputs := semantic.embeddingInputs })

/-- The body of the loop after the response has arrived. -/
def handleResponse (redirectCount : Nat) (requested current : Url) (response : Response) :
    Round Input :=
  if response.status = 304 then .returned (notModified semantics request requested current response)
  else if 300 ≤ response.status ∧ response.status ≤ 399 then
    match redirectTarget crate fetcher request redirectCount current response.headers with
    | .error e => .returned (.error e)
    | .ok next => .redirected next
  else .returned (changed semantics fetcher requested current response)

def prepareHop (redirectCount : Nat) (requestedHost : Str) (current : Url) :
    Except IngestionError (Client × HttpRequest) := do
  let host ← requireHost current
  let currentHost := Str.toAsciiLowercase host
  let _ ← acquireHostPermit env redirectCount currentHost
  let client ← pinnedClient env fetcher redirectCount current
  .ok (client, ⟨current, requestHeaders request currentHost requestedHost⟩)

/-- One round of the loop, with the request that it sent. -/
def round (redirectCount : Nat) (requested : Url) (requestedHost : Str) (current : Url) :
    List Sent × Round Input :=
  match prepareHop env fetcher request redirectCount requestedHost current with
  | .error e => ([], .returned (.error e))
  | .ok (client, httpRequest) =>
    let sent : Sent := ⟨redirectCount, client, httpRequest⟩
    ([sent],
      match (sent.exchange env).result with
      | .error e => .returned (.error ⟨"request_failed", "HTTP request failed: " ++ String.ofList e⟩)
      | .ok response =>
        handleResponse crate semantics fetcher request redirectCount requested current response)

/-- The loop over redirect_count; none when it falls through. -/
def rounds (requested : Url) (requestedHost : Str) : List Nat → Url →
    List Sent × Option (Except IngestionError (FetchOutcome Input))
  | [], _ => ([], none)
  | redirectCount :: rest, current =>
    match round crate semantics env fetcher request redirectCount requested requestedHost current with
    | (sent, .returned result) => (sent, some result)
    | (sent, .redirected next) =>
      let (more, result) := rounds requested requestedHost rest next
      (sent ++ more, result)

/-- for redirect_count in 0..=max_redirects. -/
def fetchLoop (requested : Url) (requestedHost : Str) :
    List Sent × Option (Except IngestionError (FetchOutcome Input)) :=
  rounds crate semantics env fetcher request requested requestedHost
    (List.range (fetcher.policy.maxRedirects + 1)) requested

/-- HttpFetcher::fetch, with the requests that it sent. -/
def fetch : List Sent × Except IngestionError (FetchOutcome Input) :=
  match prepareTargetUrl crate request.url request.scope with
  | .error e => ([], .error e)
  | .ok requested =>
    match requireHost requested with
    | .error e => ([], .error e)
    | .ok host =>
      let (sent, result) := fetchLoop crate semantics env fetcher request requested
        (Str.toAsciiLowercase host)
      (sent, result.getD (.error ⟨"redirect_limit", "redirect processing terminated unexpectedly"⟩))

end

end EalSync.Ingestion
