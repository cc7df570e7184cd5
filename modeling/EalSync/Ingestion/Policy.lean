import EalSync.Lib.Checks
import EalSync.Std.Url

/-! src/ingestion/network/policy.rs, with safety.rs::parse_http_url, which it calls: the limits of
a fetcher, the scope of a registered source and the URLs that the scope allows. -/
namespace EalSync.Ingestion

structure IngestionError where
  code : String
  message : String
  deriving DecidableEq, Repr

/-- The durations are in nanoseconds. -/
structure FetchPolicy where
  maxRedirects : Nat
  maxResponseBytes : Nat
  requestTimeout : Nat
  connectTimeout : Nat
  maxConcurrencyPerHost : Nat
  requireContentType : Bool
  userAgent : Str
  deriving Repr

namespace FetchPolicy

def secs (n : Nat) : Nat := n * 1000000000

def default : FetchPolicy where
  maxRedirects := 5
  maxResponseBytes := 2 * 1024 * 1024
  requestTimeout := secs 20
  connectTimeout := secs 5
  maxConcurrencyPerHost := 2
  requireContentType := true
  userAgent := "embedded-alerts/0.1 (+https://github.com/embedded-alerts/eal-sync)".toList

def validate (p : FetchPolicy) : Except IngestionError Unit :=
  if p.maxRedirects > 20 then
    .error ⟨"invalid_policy", "max_redirects must not exceed 20"⟩
  else if ¬(1024 ≤ p.maxResponseBytes ∧ p.maxResponseBytes ≤ 32 * 1024 * 1024) then
    .error ⟨"invalid_policy", "max_response_bytes must be between 1024 and 33554432"⟩
  else if p.requestTimeout = 0 ∨ p.requestTimeout > secs 120 then
    .error ⟨"invalid_policy", "request_timeout must be positive and at most 120 seconds"⟩
  else if p.connectTimeout = 0 ∨ p.connectTimeout > p.requestTimeout then
    .error ⟨"invalid_policy", "connect_timeout must be positive and no greater than request_timeout"⟩
  else if ¬(1 ≤ p.maxConcurrencyPerHost ∧ p.maxConcurrencyPerHost ≤ 32) then
    .error ⟨"invalid_policy", "max_concurrency_per_host must be between 1 and 32"⟩
  else if (Str.trim p.userAgent).isEmpty ∨ Str.len p.userAgent > 512 then
    .error ⟨"invalid_policy", "user_agent must contain between 1 and 512 bytes"⟩
  else .ok ()

example : default.validate = .ok () := by decide

end FetchPolicy

structure FetchScope where
  rootHost : Str
  includeSubdomains : Bool
  explicitlyAllowedHosts : Finset Str
  allowedPathPrefixes : Finset Str
  requireDefaultPort : Bool
  deriving DecidableEq

structure ConditionalState where
  etag : Option Str
  lastModified : Option Str
  deriving DecidableEq, Repr

structure FetchRequest where
  url : Str
  scope : FetchScope
  conditional : ConditionalState

/-- safety.rs::parse_http_url. -/
def parseHttpUrl (crate : UrlCrate) (input : Str) : Except IngestionError Url :=
  match crate.parse (Str.trim input) with
  | .error e => .error ⟨"invalid_url", "could not parse URL: " ++ String.ofList e⟩
  | .ok url =>
    if ¬(url.scheme = "http".toList ∨ url.scheme = "https".toList) then
      .error ⟨"invalid_url", "URL scheme must be http or https"⟩
    else if !url.username.isEmpty || url.password.isSome then
      .error ⟨"invalid_url", "URL user information is not allowed"⟩
    else if url.hostStr.isNone then .error ⟨"invalid_url", "URL host is required"⟩
    else .ok url.clearFragment

def okOr {α : Type} (x : Option α) (e : IngestionError) : Except IngestionError α :=
  match x with
  | some a => .ok a
  | none => .error e

def requireHost (url : Url) : Except IngestionError Str :=
  okOr url.hostStr ⟨"invalid_url", "URL host is required"⟩

/-- The labels_are_valid closure of normalize_host. -/
def validLabel (label : Str) : Bool :=
  !label.isEmpty && Str.len label ≤ 63 && !Str.startsWith ['-'] label && !Str.endsWith ['-'] label &&
    label.all fun c => Str.isAsciiAlphanumeric c || c == '-'

def normalizeHost (host : Str) : Except IngestionError Str :=
  let normalized := Str.toAsciiLowercase (Str.trimEndMatches '.' (Str.trim host))
  let labelsAreValid := (normalized.splitOn '.').all validLabel
  if normalized.isEmpty || Str.len normalized > 253 || !Str.contains ['.'] normalized ||
      Str.contains ['*'] normalized || (IpAddr.parse normalized).isSome || !labelsAreValid then
    .error ⟨"invalid_host",
      "allowed host must be a canonical DNS name, not a wildcard, IP literal, or local name"⟩
  else .ok normalized

def normalizePathPrefix (crate : UrlCrate) (pathPrefix : Str) : Except IngestionError Str :=
  let trimmed := Str.trim pathPrefix
  let lower := Str.toAsciiLowercase trimmed
  if trimmed.isEmpty || !Str.startsWith ['/'] trimmed ||
      trimmed.any (fun c => c == '?' || c == '#' || c == '\\') || trimmed.any Str.isControl ||
      Str.contains "//".toList trimmed || Str.contains "%2e".toList lower ||
      Str.contains "%2f".toList lower || Str.contains "%5c".toList lower then
    .error ⟨"invalid_path_scope", "path prefixes must be canonical absolute paths without queries, " ++
      "fragments, traversal, encoded separators, controls, or duplicate slashes"⟩
  else match crate.parse ("https://scope.invalid".toList ++ trimmed) with
    | .error e => .error ⟨"invalid_path_scope", "could not parse path prefix: " ++ String.ofList e⟩
    | .ok parsed => .ok parsed.path

def pathMatchesPrefix (path pathPrefix : Str) : Bool :=
  if pathPrefix = ['/'] then true
  else
    let boundary := Str.trimEndMatches '/' pathPrefix
    path == boundary || (Str.stripPrefix boundary path).any (Str.startsWith ['/'])

def usesDefaultPort (url : Url) : Bool :=
  (url.scheme == "http".toList && (url.port == none || url.port == some 80)) ||
    (url.scheme == "https".toList && (url.port == none || url.port == some 443))

namespace FetchScope

def forUrl (crate : UrlCrate) (url : Str) : Except IngestionError FetchScope := do
  let parsed ← parseHttpUrl crate url
  let host ← requireHost parsed
  let rootHost ← normalizeHost host
  let pathPrefix ← normalizePathPrefix crate parsed.path
  .ok { rootHost, includeSubdomains := false, explicitlyAllowedHosts := ∅
        allowedPathPrefixes := {pathPrefix}, requireDefaultPort := true }

/-- The mutating methods return the scope they leave. -/
def allowHost (scope : FetchScope) (host : Str) : Except IngestionError FetchScope := do
  let normalized ← normalizeHost host
  .ok { scope with explicitlyAllowedHosts := insert normalized scope.explicitlyAllowedHosts }

def allowPathPrefix (crate : UrlCrate) (scope : FetchScope) (pathPrefix : Str) :
    Except IngestionError FetchScope := do
  let normalized ← normalizePathPrefix crate pathPrefix
  .ok { scope with allowedPathPrefixes := insert normalized scope.allowedPathPrefixes }

def setAllowedPathPrefixes (crate : UrlCrate) (scope : FetchScope) (prefixes : List Str) :
    Except IngestionError FetchScope := do
  let normalized ← prefixes.mapM (normalizePathPrefix crate)
  if normalized.isEmpty then
    .error ⟨"invalid_path_scope", "at least one allowed path prefix is required"⟩
  else .ok { scope with allowedPathPrefixes := normalized.toFinset }

def allowsUrl (scope : FetchScope) (url : Url) : Bool :=
  match url.hostStr.bind fun host => (normalizeHost host).toOption with
  | none => false
  | some host =>
    let hostAllowed := host == scope.rootHost || host ∈ scope.explicitlyAllowedHosts ||
      (scope.includeSubdomains &&
        (Str.stripSuffix scope.rootHost host).any fun front =>
          Str.endsWith ['.'] front && !front.isEmpty)
    if !hostAllowed || (scope.requireDefaultPort && !usesDefaultPort url) then false
    else decide (∃ pathPrefix ∈ scope.allowedPathPrefixes, pathMatchesPrefix url.path pathPrefix = true)

end FetchScope

theorem okOr_ok {α : Type} {x : Option α} {e : IngestionError} {a : α} :
    okOr x e = .ok a ↔ x = some a := by
  cases x <;> simp [okOr]

end EalSync.Ingestion
