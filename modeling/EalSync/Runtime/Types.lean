import EalSync.Lib.Checks
import EalSync.Std.Json
import EalSync.Std.Url

/-! runtime-worker/src/types.rs: the leased job, the crawl command's output, and the checks on
crawl URLs and on the result of the command. -/
namespace EalSync.Runtime

/-- An anyhow error, as its outermost message. -/
structure Error where
  message : String
  deriving DecidableEq, Repr

abbrev Uuid := Nat

structure CrawlJob where
  id : Uuid
  tenantId : Uuid
  sourceId : Uuid
  startUrl : Str
  intervalSeconds : Int
  attemptCount : Int
  maxAttempts : Int
  leaseToken : Uuid
  attemptId : Uuid
  deriving DecidableEq, Repr

structure CrawlCommandOutput where
  pageIngest : Json
  diagnostic : Json
  deriving Repr

structure CrawlCommandEnvelope where
  protocolVersion : Str
  pageIngest : Json
  diagnostic : Json
  deriving Repr

/-- The uuid crate: str::parse and Display. -/
structure UuidCrate where
  parse : Str → Except Str Uuid
  display : Uuid → Str

def isNonPublicIp : IpAddr → Bool
  | .v4 x =>
    x.isPrivate || x.isLoopback || x.isLinkLocal || x.isBroadcast || x.isDocumentation ||
      x.isUnspecified || x.a == 0 || 224 ≤ x.a
  | .v6 x =>
    x.isLoopback || x.isUnspecified || x.isUniqueLocal || x.isUnicastLinkLocal ||
      x.s0 &&& 0xffc0 == 0xfec0 || x.s0 &&& 0xff00 == 0xff00 || (x.s0 == 0x2001 && x.s1 == 0x0db8)

def validatePublicHttpsUrl (crate : UrlCrate) (value : Str) : Except Error Url :=
  match crate.parse value with
  | .error _ => .error ⟨"URL must be absolute"⟩
  | .ok url =>
    if url.scheme ≠ "https".toList then .error ⟨"crawl URLs must use HTTPS"⟩
    else if !url.username.isEmpty || url.password.isSome || url.fragment.isSome then
      .error ⟨"crawl URLs must not contain credentials or fragments"⟩
    else match url.hostStr with
      | none => .error ⟨"crawl URL must contain a host"⟩
      | some host =>
        if Str.eqIgnoreAsciiCase host "localhost".toList || Str.endsWith ".localhost".toList host ||
            (IpAddr.parse host).any isNonPublicIp then
          .error ⟨"crawl URL host must be publicly routable"⟩
        else .ok url

/-- An Option with the context that anyhow gives to its absence. -/
def context {α : Type} (value : Option α) (message : String) : Except Error α :=
  match value with
  | some a => .ok a
  | none => .error ⟨message⟩

def bailIf (condition : Bool) (message : String) : Except Error Unit :=
  if condition then .error ⟨message⟩ else .ok ()

namespace CrawlCommandEnvelope

def embeddingKeys : List String := ["model", "model_version", "dimensions", "normalization", "values"]

def validateEmbedding (embedding : List (Str × Json)) : Except Error Unit := do
  embeddingKeys.forM fun key => bailIf (List.lookup key.toList embedding).isNone
    ("page_ingest.embedding." ++ key ++ " is required")
  let dimensions ← context ((List.lookup "dimensions".toList embedding).bind Json.asU64)
    "page_ingest.embedding.dimensions must be an integer"
  let values ← context ((List.lookup "values".toList embedding).bind Json.asArray)
    "page_ingest.embedding.values must be an array"
  bailIf (dimensions == 0 || 65535 < dimensions || values.length != dimensions)
    "page_ingest embedding dimensions do not match values"
  -- A number is finite, so only what is no number fails the test.
  bailIf (values.any fun value => value.asNumber.isNone)
    "page_ingest embedding contains a non-finite value"

/-- The source that a page is for, as validate reads it. -/
def sourceText (page : List (Str × Json)) : Option Str :=
  (List.lookup "source_id".toList page).bind Json.asStr

def validatePage (crate : UrlCrate) (uuids : UuidCrate) (page : List (Str × Json)) (job : CrawlJob) :
    Except Error Unit := do
  let text ← context (sourceText page) "page_ingest.source_id is required"
  let sourceId ← context (uuids.parse text).toOption "page_ingest.source_id must be a UUID"
  bailIf (sourceId != job.sourceId) "crawl command source_id does not match the leased job"
  let canonicalUrl ← context ((List.lookup "canonical_url".toList page).bind Json.asStr)
    "page_ingest.canonical_url is required"
  let _ ← validatePublicHttpsUrl crate canonicalUrl
  let contentHash ← context ((List.lookup "content_hash".toList page).bind Json.asStr)
    "page_ingest.content_hash is required"
  bailIf (Str.len contentHash < 32 || 256 < Str.len contentHash)
    "page_ingest.content_hash has an invalid length"
  let embedding ← context ((List.lookup "embedding".toList page).bind Json.asObject)
    "page_ingest.embedding is required"
  validateEmbedding embedding

def validate (crate : UrlCrate) (uuids : UuidCrate) (envelope : CrawlCommandEnvelope)
    (job : CrawlJob) : Except Error CrawlCommandOutput := do
  bailIf (envelope.protocolVersion != "eal-crawl-result/v1".toList)
    "crawl command returned an unsupported protocol version"
  let page ← context envelope.pageIngest.asObject "page_ingest must be a JSON object"
  validatePage crate uuids page job
  .ok ⟨envelope.pageIngest, envelope.diagnostic⟩

end CrawlCommandEnvelope

theorem context_ok {α : Type} {value : Option α} {message : String} {a : α}
    (h : context value message = .ok a) : value = some a := by
  cases value with
  | none => cases h
  | some b => exact congrArg some (Except.ok.inj h)

theorem context_some {α : Type} {value : Option α} {a : α} (found : value = some a) (message : String) :
    context value message = .ok a := by
  rw [found]
  rfl

theorem bailIf_ok {condition : Bool} {message : String} {u : Unit}
    (h : bailIf condition message = .ok u) : condition = false := by
  cases condition with
  | false => rfl
  | true => cases h

theorem bailIf_false {condition : Bool} (passed : condition = false) (message : String) :
    bailIf condition message = .ok () := by
  rw [passed]
  rfl

namespace CrawlCommandEnvelope

variable {crate : UrlCrate} {uuids : UuidCrate} {job : CrawlJob}

theorem validatePage_ok {page : List (Str × Json)} {u : Unit}
    (h : validatePage crate uuids page job = .ok u) : ∃ text,
    List.lookup "source_id".toList page = some (.string text) ∧ uuids.parse text = .ok job.sourceId := by
  obtain ⟨text, found, h⟩ := Checks.bind_ok h
  obtain ⟨sourceId, parsed, h⟩ := Checks.bind_ok h
  obtain ⟨_, matching, _⟩ := Checks.bind_ok h
  obtain ⟨value, member, isText⟩ := Option.bind_eq_some_iff.mp (context_ok found)
  have same : sourceId = job.sourceId := by simpa using bailIf_ok matching
  refine ⟨text, ?_, ?_⟩
  · rw [member, Json.asStr_eq_some.mp isText]
  · have accepted := context_ok parsed
    cases answer : uuids.parse text with
    | error e =>
      rw [answer] at accepted
      cases accepted
    | ok id =>
      rw [answer] at accepted
      rw [Option.some.inj accepted, same]

/-- An accepted result is handed on as it is, and its page is for the source of the job. -/
theorem validate_ok {envelope : CrawlCommandEnvelope} {output : CrawlCommandOutput}
    (h : envelope.validate crate uuids job = .ok output) :
    output = ⟨envelope.pageIngest, envelope.diagnostic⟩ ∧
    ∃ page text, envelope.pageIngest = .object page ∧
      List.lookup "source_id".toList page = some (.string text) ∧
      uuids.parse text = .ok job.sourceId := by
  obtain ⟨_, _, h⟩ := Checks.bind_ok h
  obtain ⟨page, isObject, h⟩ := Checks.bind_ok h
  obtain ⟨_, checked, h⟩ := Checks.bind_ok h
  refine ⟨(Except.ok.inj h).symm, page, ?_⟩
  obtain ⟨text, member, parsed⟩ := validatePage_ok checked
  refine ⟨text, ?_, member, parsed⟩
  exact Json.asObject_eq_some.mp (context_ok isObject)

end CrawlCommandEnvelope

end EalSync.Runtime
