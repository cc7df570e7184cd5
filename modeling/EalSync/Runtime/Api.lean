import EalSync.Runtime.Types
import EalSync.Std.Stream

/-! runtime-worker/src/api.rs: the errors, the construction and the one call of the page-ingest
client. What the server answers is a parameter. -/
namespace EalSync.Runtime

structure IngestApiError where
  code : Str
  status : Option Nat
  message : Str
  deriving DecidableEq, Repr

namespace IngestApiError

def configuration (message : Str) : IngestApiError := ⟨"api_configuration".toList, none, message⟩

def transport (message : Str) : IngestApiError := ⟨"api_transport".toList, none, message⟩

def response (status : Nat) (message : Str) : IngestApiError :=
  ⟨"api_response".toList, some status, message⟩

def diagnostic (e : IngestApiError) : Json :=
  .object [("error_code".toList, .string e.code), ("message".toList, .string (e.message.take 500)),
    ("status".toList, e.status.elim .null fun status => .number (.posInt status))]

end IngestApiError

/-- What the client builder is asked for, without proxies and redirects; in seconds. -/
structure ClientOptions where
  connectTimeout : Nat
  timeout : Nat
  userAgent : Str

structure IngestApiClient where
  client : ClientOptions
  baseUrl : Url
  ingestToken : Str
  responseLimitBytes : Nat

def isLoopbackHost (host : Str) : Bool :=
  Str.eqIgnoreAsciiCase host "localhost".toList || (IpAddr.parse host).any fun
    | .v4 x => x.isLoopback
    | .v6 x => x.isLoopback

namespace IngestApiClient

def checkScheme (allowLoopbackHttp : Bool) (scheme host : Str) : Except IngestApiError Unit :=
  if scheme = "https".toList then .ok ()
  else if scheme = "http".toList then
    if allowLoopbackHttp && isLoopbackHost host then .ok ()
    else .error (.configuration
      "plain HTTP is allowed only for an explicitly enabled loopback API".toList)
  else .error (.configuration "API base URL must use HTTPS".toList)

/-- headerValue is what HeaderValue::from_str takes, build what reqwest answers to the builder. The path
set at the end is the one just checked. -/
def new (crate : UrlCrate) (headerValue : Str → Bool) (build : ClientOptions → Except Str Unit)
    (baseUrl : Str) (allowLoopbackHttp : Bool) (timeoutSeconds responseLimitBytes : Nat)
    (ingestToken : Str) : Except IngestApiError IngestApiClient :=
  if ¬(1 ≤ timeoutSeconds ∧ timeoutSeconds ≤ 120) then
    .error (.configuration "API timeout must be between 1 and 120 seconds".toList)
  else if ¬(64 * 1024 ≤ responseLimitBytes ∧ responseLimitBytes ≤ 16 * 1024 * 1024) then
    .error (.configuration "API response limit must be between 65536 and 16777216 bytes".toList)
  else if Str.trim ingestToken ≠ ingestToken ∨
      ¬(32 ≤ Str.len ingestToken ∧ Str.len ingestToken ≤ 512) then
    .error (.configuration ("ingest token must contain 32 to 512 bytes without leading or trailing " ++
      "whitespace").toList)
  else if !headerValue ingestToken then
    .error (.configuration "ingest token contains invalid HTTP header bytes".toList)
  else match crate.parse (Str.trim baseUrl) with
    | .error e => .error (.configuration ("invalid API base URL: ".toList ++ e))
    | .ok url =>
      if !url.username.isEmpty || url.password.isSome || url.query.isSome || url.fragment.isSome then
        .error (.configuration
          "API base URL must not contain credentials, query parameters, or fragments".toList)
      else match url.hostStr with
        | none => .error (.configuration "API base URL must contain a host".toList)
        | some host =>
          match checkScheme allowLoopbackHttp url.scheme host with
          | .error e => .error e
          | .ok () =>
            if url.path ≠ ['/'] ∧ url.path ≠ [] then
              .error (.configuration "API base URL must not contain a path prefix".toList)
            else
              let client : ClientOptions :=
                { connectTimeout := min timeoutSeconds 10, timeout := timeoutSeconds
                  userAgent := "embedded-alerts-crawl-runtime/0.1".toList }
              match build client with
              | .error e => .error (.configuration e)
              | .ok () => .ok { client, baseUrl := url, ingestToken, responseLimitBytes }

end IngestApiClient

/-- The POST of a page. -/
structure ApiRequest where
  url : Url
  tenantId : Str
  ingestToken : Str
  accept : Str
  payload : Json

/-- What arrives of a response: each chunk of the body, or why the stream broke off. -/
structure ApiResponse where
  status : Nat
  contentLength : Option Nat
  chunks : List (Except Str (List UInt8))

def sanitize (value : Str) : Str := (value.filter fun c => !Str.isControl c).take 300

def safeErrorMessage (value : Json) : Str :=
  let code := (((value.get "code".toList).bind Json.asStr).map sanitize).getD "api_error".toList
  let message := (((value.get "message".toList).bind Json.asStr).map sanitize).getD
    "the API rejected the page revision".toList
  code ++ ": ".toList ++ message

namespace IngestApiClient

/-- The loop over the stream. -/
def readChunks (status limit : Nat) : List UInt8 → List (Except Str (List UInt8)) →
    Except IngestApiError (List UInt8)
  | bytes, [] => .ok bytes
  | _, .error e :: _ => .error (.transport e)
  | bytes, .ok chunk :: rest =>
    if saturatingAdd bytes.length chunk.length > limit then
      .error (.response status "API response exceeded the byte limit".toList)
    else readChunks status limit (bytes ++ chunk) rest

/-- The body as a value; an empty one is null. -/
def bodyValue (serde : SerdeJson) (status : Nat) (bytes : List UInt8) : Except IngestApiError Json :=
  if bytes.isEmpty then .ok .null
  else (serde.fromSlice bytes).mapError fun e =>
    .response status ("API returned invalid JSON: ".toList ++ e)

/-- ingest_page from the response on. -/
def readResponse (serde : SerdeJson) (client : IngestApiClient) (response : ApiResponse) :
    Except IngestApiError Json :=
  let status := response.status
  if 300 ≤ status ∧ status ≤ 399 then
    .error (.response status "API redirects are blocked".toList)
  else if response.contentLength.any (client.responseLimitBytes < ·) then
    .error (.response status "API response exceeded the byte limit".toList)
  else do
    let bytes ← readChunks status client.responseLimitBytes [] response.chunks
    let value ← bodyValue serde status bytes
    if ¬(200 ≤ status ∧ status ≤ 299) then .error (.response status (safeErrorMessage value))
    else .ok value

section

variable (crate : UrlCrate) (uuids : UuidCrate) (client : IngestApiClient) (tenantId sourceId : Uuid)
  (payload : Json)

/-- ingest_page up to the request. -/
def ingestRequest : Except IngestApiError ApiRequest :=
  match crate.join client.baseUrl
      ("v1/sources/".toList ++ uuids.display sourceId ++ "/pages".toList) with
  | .error e => .error (.configuration e)
  | .ok url =>
    .ok { url, tenantId := uuids.display tenantId, ingestToken := client.ingestToken
          accept := "application/json".toList, payload }

/-- ingest_page, where answer is what the client returns for the request. -/
def ingestPage (serde : SerdeJson) (answer : Except Str ApiResponse) : Except IngestApiError Json := do
  let _ ← ingestRequest crate uuids client tenantId sourceId payload
  let response ← answer.mapError IngestApiError.transport
  readResponse serde client response

end

/-- What a response brought: a success with all of its body, as a value. -/
structure Body (serde : SerdeJson) (response : ApiResponse) (value : Json) : Prop where
  success : 200 ≤ response.status ∧ response.status ≤ 299
  value : ∃ chunks : List (List UInt8), response.chunks = chunks.map .ok ∧
    if chunks.flatten = [] then value = .null else serde.fromSlice chunks.flatten = .ok value

theorem readChunks_ok {status limit : Nat} {chunks : List (Except Str (List UInt8))}
    {bytes body : List UInt8} (h : readChunks status limit bytes chunks = .ok body) :
    ∃ parts : List (List UInt8), chunks = parts.map .ok ∧ body = bytes ++ parts.flatten := by
  induction chunks generalizing bytes with
  | nil => exact ⟨[], rfl, by simpa using (Except.ok.inj h).symm⟩
  | cons chunk rest ih =>
    cases chunk with
    | error e => cases h
    | ok part =>
      rw [readChunks] at h
      obtain ⟨_, h⟩ := Checks.check_ok h
      obtain ⟨parts, rfl, rfl⟩ := ih h
      exact ⟨part :: parts, rfl, by simp⟩

theorem bodyValue_ok {serde : SerdeJson} {status : Nat} {bytes : List UInt8} {value : Json}
    (h : bodyValue serde status bytes = .ok value) :
    if bytes = [] then value = .null else serde.fromSlice bytes = .ok value := by
  unfold bodyValue at h
  split at h
  · rename_i empty
    rw [if_pos (List.isEmpty_iff.mp empty)]
    exact (Except.ok.inj h).symm
  · rename_i nonempty
    rw [if_neg fun empty => nonempty (List.isEmpty_iff.mpr empty)]
    exact Checks.mapError_ok h

theorem readResponse_ok {serde : SerdeJson} {client : IngestApiClient} {response : ApiResponse}
    {value : Json} (h : readResponse serde client response = .ok value) : Body serde response value := by
  unfold readResponse at h
  obtain ⟨_, h⟩ := Checks.check_ok h
  obtain ⟨_, h⟩ := Checks.check_ok h
  obtain ⟨bytes, read, h⟩ := Checks.bind_ok h
  obtain ⟨value', decoded, h⟩ := Checks.bind_ok h
  obtain ⟨success, h⟩ := Checks.check_ok h
  obtain rfl := Except.ok.inj h
  obtain ⟨parts, same, rfl⟩ := readChunks_ok read
  exact ⟨not_not.mp success, parts, same, bodyValue_ok decoded⟩

theorem ingestPage_ok {crate : UrlCrate} {uuids : UuidCrate} {client : IngestApiClient}
    {tenantId sourceId : Uuid} {payload receipt : Json} {serde : SerdeJson}
    {answer : Except Str ApiResponse}
    (h : client.ingestPage crate uuids tenantId sourceId payload serde answer = .ok receipt) :
    ∃ request response, client.ingestRequest crate uuids tenantId sourceId payload = .ok request ∧
      answer = .ok response ∧ Body serde response receipt := by
  obtain ⟨request, sent, h⟩ := Checks.bind_ok h
  obtain ⟨response, answered, h⟩ := Checks.bind_ok h
  exact ⟨request, response, sent, Checks.mapError_ok answered, readResponse_ok h⟩

end IngestApiClient

end EalSync.Runtime
