import EalSync.Ingestion.Delivery
import EalSync.Ingestion.Inputs

/-! src/bin/crawl_once.rs: one fetch of a source that an operator names in the process environment.
A request is sent only when all the variables can be read, and only to what they name. -/
namespace EalSync.Ingestion.CrawlOnce

/-- What the process environment holds under a name. -/
inductive Variable where
  | unset
  | notUnicode
  | set (value : Str)
  deriving DecidableEq, Repr

/-- env::var(name).ok(). -/
def Variable.value : Variable → Option Str
  | unset | notUnicode => none
  | set value => some value

abbrev Variables := String → Variable

/-- Box<dyn Error>. -/
inductive Failure where
  | message (text : String)
  | ingestion (error : IngestionError)
  deriving DecidableEq, Repr

structure SemanticSummary where
  title : Option Str
  keywords : List Str
  entities : List Str
  embeddingInputCount : Nat
  embeddingKinds : List String
  embeddingPreview : Str
  deriving DecidableEq

structure CrawlSummary where
  outcome : String
  requestedUrl : Str
  canonicalUrl : Str
  finalUrl : Str
  status : Nat
  etag : Option Str
  lastModified : Option Str
  contentType : Option Str
  contentBytes : Option Nat
  contentSha256 : Option Str
  contentPreview : Option Str
  semantic : Option SemanticSummary
  deriving DecidableEq

def embeddingKindName : EmbeddingInputKind → String
  | .title => "title"
  | .heading => "heading"
  | .summary => "summary"
  | .sentence => "sentence"
  | .entity => "entity"
  | .keyword => "keyword"
  | .urlSignal => "url_signal"
  | .document => "document"

def preview (value : Str) (maxCharacters : Nat) : Str :=
  if (value.drop maxCharacters).isEmpty then value.take maxCharacters
  else value.take maxCharacters ++ ['…']

example : preview "alert 🔔 page".toList 7 = "alert 🔔…".toList := by decide

section Environment

variable (vars : Variables)

def nonemptyEnv (name : String) : Option Str :=
  ((vars name).value.map Str.trim).filter fun value => !value.isEmpty

def requiredEnv (name : String) : Except Failure Str :=
  match nonemptyEnv vars name with
  | some value => .ok value
  | none => .error (.message (name ++ " is required"))

def truthy : List Str := ["1".toList, "true".toList, "yes".toList, "on".toList]

def falsy : List Str := ["0".toList, "false".toList, "no".toList, "off".toList]

def envBool (name : String) : Except Failure Bool :=
  match nonemptyEnv vars name with
  | none => .ok false
  | some value =>
    if truthy.contains (Str.toAsciiLowercase value) then .ok true
    else if falsy.contains (Str.toAsciiLowercase value) then .ok false
    else .error (.message (name ++ " must be true or false"))

/-- split(',').map(str::trim).filter(|value| !value.is_empty()). -/
def parts (value : Str) : List Str :=
  ((value.splitOn ',').map Str.trim).filter fun part => !part.isEmpty

def allowedHosts : List Str := parts ((vars "EAL_CRAWL_ALLOWED_HOSTS").value.getD [])

def ingestion {α : Type} (x : Except IngestionError α) : Except Failure α := x.mapError .ingestion

/-- The path prefixes of the start URL stay unless the variable names others. -/
def limitPaths (crate : UrlCrate) (scope : FetchScope) : Except Failure FetchScope :=
  match nonemptyEnv vars "EAL_CRAWL_ALLOWED_PATH_PREFIXES" with
  | none => .ok scope
  | some prefixes => ingestion (scope.setAllowedPathPrefixes crate (parts prefixes))

/-- main up to the request. -/
def crawlRequest (crate : UrlCrate) : Except Failure FetchRequest := do
  let url ← requiredEnv vars "EAL_CRAWL_URL"
  let start ← ingestion (FetchScope.forUrl crate url)
  let includeSubdomains ← envBool vars "EAL_CRAWL_INCLUDE_SUBDOMAINS"
  let hosted ← ingestion
    ((allowedHosts vars).foldlM FetchScope.allowHost { start with includeSubdomains })
  let scope ← limitPaths vars crate hosted
  .ok { url, scope
        conditional := ⟨nonemptyEnv vars "EAL_CRAWL_ETAG",
          nonemptyEnv vars "EAL_CRAWL_LAST_MODIFIED"⟩ }

end Environment

def summarize : FetchOutcome EmbeddingInput → CrawlSummary
  | .notModified metadata =>
    { outcome := "not_modified", requestedUrl := metadata.requestedUrl
      canonicalUrl := metadata.canonicalUrl, finalUrl := metadata.finalUrl
      status := metadata.status, etag := metadata.etag, lastModified := metadata.lastModified
      contentType := none, contentBytes := none, contentSha256 := none, contentPreview := none
      semantic := none }
  | .changed document =>
    { outcome := "changed", requestedUrl := document.metadata.requestedUrl
      canonicalUrl := document.metadata.canonicalUrl, finalUrl := document.metadata.finalUrl
      status := document.metadata.status, etag := document.metadata.etag
      lastModified := document.metadata.lastModified
      contentType := some document.contentType, contentBytes := some document.contentBytes
      contentSha256 := some document.contentSha256
      contentPreview := some (preview document.contentText 500)
      semantic := some
        { title := document.title, keywords := document.keywords, entities := document.entities
          embeddingInputCount := document.embeddingInputs.length
          embeddingKinds := document.embeddingInputs.map fun input => embeddingKindName input.kind
          embeddingPreview := preview document.embeddingText 1000 } }

/-- main, with the requests that it sent and the summary that it prints. -/
def crawlOnce (crate : UrlCrate) (semantics : Semantics EmbeddingInput) (env : Environment)
    (vars : Variables) : List Sent × Except Failure CrawlSummary :=
  match crawlRequest vars crate with
  | .error e => ([], .error e)
  | .ok request =>
    match HttpFetcher.new .default with
    | .error e => ([], .error (.ingestion e))
    | .ok fetcher =>
      let (sent, result) := fetch crate semantics env fetcher request
      (sent, ingestion (result.map summarize))

theorem trim_again (s : Str) : Str.trim (Str.trim s) = Str.trim s := by
  have start : (Str.trim s).dropWhile Str.isWhitespace = Str.trim s := by
    rw [List.dropWhile_eq_self_iff]
    intro nonempty blank
    have front : Str.trim s <+: s.dropWhile Str.isWhitespace := List.rdropWhile_prefix _ _
    have first := List.dropWhile_get_zero_not Str.isWhitespace s
      (lt_of_lt_of_le nonempty front.length_le)
    rw [List.get_eq_getElem, ← front.getElem nonempty] at first
    exact first blank
  rw [Str.trim, start]
  exact List.rdropWhile_idempotent _ _

theorem parts_trimmed {value part : Str} (member : part ∈ parts value) : Str.trim part = part := by
  obtain ⟨piece, _, rfl⟩ := List.mem_map.mp (List.mem_filter.mp member).1
  exact trim_again piece

theorem nonemptyEnv_eq_some {vars : Variables} {name : String} {value : Str}
    (found : nonemptyEnv vars name = some value) :
    ∃ written, vars name = .set written ∧ value = Str.trim written := by
  obtain ⟨found, _⟩ := Option.filter_eq_some_iff.mp found
  obtain ⟨written, read, rfl⟩ := Option.map_eq_some_iff.mp found
  refine ⟨written, ?_, rfl⟩
  cases holds : vars name with
  | unset =>
    rw [holds] at read
    cases read
  | notUnicode =>
    rw [holds] at read
    cases read
  | set value =>
    rw [holds] at read
    exact congrArg Variable.set (Option.some.inj read)

/-- The path prefixes that the variables name; the path of the start URL when they name none. -/
def writtenPrefixes (vars : Variables) (start : Url) : List Str :=
  (nonemptyEnv vars "EAL_CRAWL_ALLOWED_PATH_PREFIXES").elim [start.path] parts

/-- Every variable that decides where requests go is valid as a whole; one that is not Unicode counts
as unset, and only that of the URL has to be set. -/
structure Configured (crate : UrlCrate) (vars : Variables) (start : Url) (root : Str) : Prop where
  url : ∃ written, vars "EAL_CRAWL_URL" = .set written ∧ parseHttpUrl crate written = .ok start
  root : start.hostStr = some root ∧ DnsName (canonicalHost root)
  own : ∃ stored, normalizePathPrefix crate start.path = .ok stored
  flag : ∃ value, envBool vars "EAL_CRAWL_INCLUDE_SUBDOMAINS" = .ok value
  hosts : ∀ part ∈ allowedHosts vars, DnsName (canonicalHost part)
  listed : writtenPrefixes vars start ≠ []
  prefixes : ∀ written ∈ writtenPrefixes vars start, ∃ stored,
    normalizePathPrefix crate written = .ok stored

/-- A host that the variables name, next to the root host. -/
def NamedHost (vars : Variables) (root name : Str) : Prop :=
  name = canonicalHost root ∨ (∃ part ∈ allowedHosts vars, name = canonicalHost part) ∨
    (envBool vars "EAL_CRAWL_INCLUDE_SUBDOMAINS" = .ok true ∧
      ∃ front, front ≠ [] ∧ name.splitOn '.' = front ++ (canonicalHost root).splitOn '.')

/-- A URL that the variables name. -/
structure Registered (crate : UrlCrate) (vars : Variables) (start : Url) (root : Str) (url : Url) :
    Prop where
  scheme : url.scheme = "http".toList ∨ url.scheme = "https".toList
  anonymous : url.username = [] ∧ url.password = none
  port : url.port = none ∨ url.port = some (schemePort url.scheme)
  host : ∃ host, url.hostStr = some host ∧ DnsName (canonicalHost host) ∧
    NamedHost vars root (canonicalHost host)
  path : ∃ written ∈ writtenPrefixes vars start, ∃ stored,
    normalizePathPrefix crate written = .ok stored ∧
      (Str.trimEndMatches '/' stored).splitOn '/' <+: url.path.splitOn '/'

theorem allowHosts_ok {hosts : List Str} {scope scope' : FetchScope}
    (trimmed : ∀ host ∈ hosts, Str.trim host = host)
    (ok : hosts.foldlM FetchScope.allowHost scope = .ok scope') :
    (∀ host ∈ hosts, DnsName (canonicalHost host)) ∧
      scope' = { scope with explicitlyAllowedHosts :=
        scope.explicitlyAllowedHosts ∪ (hosts.map canonicalHost).toFinset } := by
  induction hosts generalizing scope with
  | nil =>
    cases ok
    simp
  | cons host rest ih =>
    rw [List.forall_mem_cons] at trimmed
    rw [List.foldlM_cons] at ok
    obtain ⟨next, allowed, ok⟩ := Checks.bind_ok ok
    obtain ⟨name, normalized, allowed⟩ := Checks.bind_ok allowed
    obtain ⟨rfl, dns⟩ := normalizeHost_ok.mp normalized
    rw [trimmed.1] at dns allowed
    cases allowed
    obtain ⟨others, rfl⟩ := ih trimmed.2 ok
    refine ⟨List.forall_mem_cons.mpr ⟨dns, others⟩, ?_⟩
    simp [Finset.insert_union, Finset.union_insert]

theorem limitPaths_ok {vars : Variables} {crate : UrlCrate} {start : Url} {own : Str}
    {scope scope' : FetchScope} (kept : normalizePathPrefix crate start.path = .ok own)
    (default : scope.allowedPathPrefixes = {own}) (ok : limitPaths vars crate scope = .ok scope') :
    ∃ prefixes : List Str, prefixes ≠ [] ∧
      List.Forall₂ (fun written stored => normalizePathPrefix crate written = .ok stored)
        (writtenPrefixes vars start) prefixes ∧
      scope' = { scope with allowedPathPrefixes := prefixes.toFinset } := by
  unfold limitPaths at ok
  unfold writtenPrefixes
  split at ok
  · rename_i none
    obtain rfl := Except.ok.inj ok
    rw [none]
    refine ⟨[own], List.cons_ne_nil _ _, .cons kept .nil, ?_⟩
    rw [List.toFinset_cons, List.toFinset_nil, insert_empty_eq, ← default]
  · rename_i found
    obtain ⟨prefixes, some, each, rfl⟩ := setAllowedPathPrefixes_ok (Checks.mapError_ok ok)
    rw [found]
    exact ⟨prefixes, some, mapM_ok each, rfl⟩

/-- A request, and the variables that it was read from. -/
structure ReadFrom (crate : UrlCrate) (vars : Variables) (start : Url) (root : Str)
    (request : FetchRequest) : Prop where
  configured : Configured crate vars start root
  started : parseHttpUrl crate request.url = .ok start
  rootHost : request.scope.rootHost = canonicalHost root
  subdomains : envBool vars "EAL_CRAWL_INCLUDE_SUBDOMAINS" = .ok request.scope.includeSubdomains
  hosts : ∀ host ∈ request.scope.explicitlyAllowedHosts,
    ∃ part ∈ allowedHosts vars, host = canonicalHost part
  prefixes : ∀ stored ∈ request.scope.allowedPathPrefixes, ∃ written ∈ writtenPrefixes vars start,
    normalizePathPrefix crate written = .ok stored
  defaultPort : request.scope.requireDefaultPort = true

theorem crawlRequest_ok {vars : Variables} {crate : UrlCrate} {request : FetchRequest}
    (ok : crawlRequest vars crate = .ok request) :
    ∃ start root, ReadFrom crate vars start root request := by
  obtain ⟨url, named, ok⟩ := Checks.bind_ok ok
  obtain ⟨scope, built, ok⟩ := Checks.bind_ok ok
  obtain ⟨value, flag, ok⟩ := Checks.bind_ok ok
  obtain ⟨hosted, allowed, ok⟩ := Checks.bind_ok ok
  obtain ⟨final, limited, ok⟩ := Checks.bind_ok ok
  obtain rfl := Except.ok.inj ok
  obtain ⟨start, root, rootHost, own, parsed, rendered, normalized, kept, rfl⟩ :=
    forUrl_ok (Checks.mapError_ok built)
  obtain ⟨rfl, dns⟩ := normalizeHost_ok.mp normalized
  rw [Str.trim_eq_self (Url.hostStr_solid rendered)] at dns
  obtain ⟨hosts, rfl⟩ := allowHosts_ok (fun _ => parts_trimmed) (Checks.mapError_ok allowed)
  have url : ∃ written, vars "EAL_CRAWL_URL" = .set written ∧
      parseHttpUrl crate written = .ok start := by
    unfold requiredEnv at named
    split at named
    · rename_i value found
      obtain rfl := Except.ok.inj named
      obtain ⟨written, set, rfl⟩ := nonemptyEnv_eq_some found
      refine ⟨written, set, ?_⟩
      rwa [parseHttpUrl, trim_again] at parsed
    · cases named
  obtain ⟨prefixes, some, each, rfl⟩ := limitPaths_ok kept rfl limited
  refine ⟨start, root, ⟨url, ⟨rendered, dns⟩, ⟨own, kept⟩, ⟨value, flag⟩, hosts, ?_, ?_⟩, parsed, ?_,
    flag, ?_, ?_, rfl⟩
  · intro none
    rw [none] at each
    cases each
    exact some rfl
  · intro written member
    obtain ⟨stored, _, made⟩ := forall₂_mem each member
    exact ⟨stored, made⟩
  · rw [Str.trim_eq_self (Url.hostStr_solid rendered)]
  · intro host member
    simp only [Finset.empty_union, List.mem_toFinset, List.mem_map] at member
    obtain ⟨part, listed, rfl⟩ := member
    exact ⟨part, listed, rfl⟩
  · intro stored member
    exact forall₂_mem each.flip (List.mem_toFinset.mp member)

theorem ReadFrom.registered {crate : UrlCrate} {vars : Variables} {start : Url} {root : Str}
    {request : FetchRequest} (h : ReadFrom crate vars start root request) {url : Url}
    (target : Target request.scope url) : Registered crate vars start root url := by
  obtain ⟨host, name, rendered, normalized, inScope, port, stored, member, begins⟩ :=
    (allowsUrl_eq_true request.scope url).mp target.inScope
  obtain ⟨rfl, dns⟩ := normalizeHost_ok.mp normalized
  rw [Str.trim_eq_self (Url.hostStr_solid rendered)] at dns inScope
  have absolute : url.path.head? = some '/' := by
    apply url.pathAbsolute
    rcases target.scheme with scheme | scheme <;> simp [scheme, specialScheme]
  have named : NamedHost vars root (canonicalHost host) := by
    rcases inScope with same | ⟨listed, member, same⟩ | ⟨allowed, front⟩
    · rw [Segments.splitOn_eq_iff, h.rootHost] at same
      exact .inl same
    · rw [Segments.splitOn_eq_iff] at same
      obtain ⟨part, inside, rfl⟩ := h.hosts listed member
      exact .inr (.inl ⟨part, inside, same⟩)
    · refine .inr (.inr ⟨?_, h.rootHost ▸ front⟩)
      rw [h.subdomains, allowed]
  obtain ⟨written, inside, made⟩ := h.prefixes stored member
  exact ⟨target.scheme, ⟨target.username, target.password⟩,
    (usesDefaultPort_iff target.scheme).mp (port h.defaultPort), ⟨host, rendered, dns, named⟩,
    ⟨written, inside, stored, made, (pathMatchesPrefix_iff absolute stored).mp begins⟩⟩

/-- Where the requests of a run come from: no variable is at fault, and one fetch with the default
policy sends them. -/
theorem crawlOnce_cases (crate : UrlCrate) (semantics : Semantics EmbeddingInput) (env : Environment)
    (vars : Variables) : (∃ e, crawlOnce crate semantics env vars = ([], .error e)) ∨
      ∃ request fetcher, crawlRequest vars crate = .ok request ∧ fetcher.policy = .default ∧
        crawlOnce crate semantics env vars = ((fetch crate semantics env fetcher request).1,
          ingestion ((fetch crate semantics env fetcher request).2.map summarize)) := by
  unfold crawlOnce
  split
  · exact .inl ⟨_, rfl⟩
  · rename_i request read
    split
    · exact .inl ⟨_, rfl⟩
    · rename_i fetcher created
      refine .inr ⟨request, fetcher, read, ?_, rfl⟩
      unfold HttpFetcher.new at created
      split at created
      · cases created
      · obtain rfl := Except.ok.inj created
        rfl

/-- Whatever the variables hold and whatever the servers answer, crawl_once hands at most six requests to
its clients, and one only when every variable that decides where it goes is valid as a whole: for a URL
whose host and path the variables name, and all that it puts on the wire goes to that URL, at a public
address. -/
theorem requests_registered (crate : UrlCrate) (semantics : Semantics EmbeddingInput)
    (env : Environment) (pinning : HonoursPinning env) (vars : Variables) :
    (crawlOnce crate semantics env vars).1.length ≤ 6 ∧
      ∀ sent ∈ (crawlOnce crate semantics env vars).1,
        (∀ wire ∈ (sent.exchange env).wires,
          wire.url = sent.httpRequest.url ∧ isPublicIp wire.address.ip = true) ∧
        ∃ start root, Configured crate vars start root ∧
          Registered crate vars start root sent.httpRequest.url := by
  rcases crawlOnce_cases crate semantics env vars with
    ⟨e, refused⟩ | ⟨request, fetcher, read, policy, ran⟩
  · rw [refused]
    exact ⟨Nat.zero_le _, fun _ none => absurd none List.not_mem_nil⟩
  · rw [ran]
    obtain ⟨safe, few, _⟩ := fetch_sent crate semantics pinning fetcher request
    rw [policy] at few
    refine ⟨few, fun sent member => ?_⟩
    obtain ⟨start, root, named⟩ := crawlRequest_ok read
    have inside := safe sent member
    exact ⟨fun wire put => ⟨(inside.reached wire put).1, (inside.reached wire put).2.1⟩, start, root,
      named.configured, named.registered inside.target⟩

def blogVariables : Variables := fun name =>
  if name = "EAL_CRAWL_URL" then .set " https://example.com/blog ".toList
  else if name = "EAL_CRAWL_INCLUDE_SUBDOMAINS" then .set "Yes".toList
  else if name = "EAL_CRAWL_ALLOWED_HOSTS" then .set "mirror.example.org, ,Docs.Example.net.".toList
  else if name = "EAL_CRAWL_ALLOWED_PATH_PREFIXES" then .notUnicode
  else .unset

theorem requests_registered_blog :
    ∃ sent ∈ (crawlOnce blogCrate noteSemantics blogEnvironment blogVariables).1,
      (sent.exchange blogEnvironment).wires = [⟨blogUrl, ⟨.v4 ⟨1, 1, 1, 1⟩, 443⟩⟩] ∧
      ∃ start root, Configured blogCrate blogVariables start root ∧
        Registered blogCrate blogVariables start root sent.httpRequest.url := by
  have sent : (crawlOnce blogCrate noteSemantics blogEnvironment blogVariables).1.head?.map
      (fun sent => (sent.exchange blogEnvironment).wires) =
      some [⟨blogUrl, ⟨.v4 ⟨1, 1, 1, 1⟩, 443⟩⟩] := by
    decide +kernel
  obtain ⟨first, found, put⟩ := Option.map_eq_some_iff.mp sent
  have member := List.mem_of_mem_head? found
  exact ⟨first, member, put, ((requests_registered blogCrate noteSemantics blogEnvironment
    blogEnvironment_pinning blogVariables).2 _ member).2⟩

/-- Every request went to a URL within the scope. -/
theorem chain_targets {crate : UrlCrate} {env : Environment} {request : FetchRequest} {sent : List Sent}
    (linked : sent.IsChain (Follows crate env request))
    (first : ∀ x ∈ sent.head?, Target request.scope x.httpRequest.url) :
    ∀ x ∈ sent, Target request.scope x.httpRequest.url := by
  induction sent with
  | nil => exact fun _ none => absurd none List.not_mem_nil
  | cons x rest ih =>
    obtain ⟨next, later⟩ := List.isChain_cons.mp linked
    refine List.forall_mem_cons.mpr ⟨first x rfl, ih later fun y member => ?_⟩
    obtain ⟨_, _, _, _, _, _, _, _, _, prepared⟩ := next y member
    exact prepareTargetUrl_ok prepared

theorem prepareTargetUrl_parsed {crate : UrlCrate} {input : Str} {scope : FetchScope} {url : Url}
    (ok : prepareTargetUrl crate input scope = .ok url) : parseHttpUrl crate input = .ok url := by
  obtain ⟨_, parsed, ok⟩ := Checks.bind_ok ok
  obtain ⟨_, ok⟩ := Checks.check_ok ok
  obtain rfl := Except.ok.inj ok
  exact parsed

/-- The kinds of the views in the order in which a document lists them. -/
def kindNames : List String :=
  ["title", "heading", "summary", "entity", "keyword", "sentence", "url_signal", "document"]

/-- The summary of a source that was answered with 304. -/
structure Unchanged (summary : CrawlSummary) : Prop where
  outcome : summary.outcome = "not_modified"
  status : summary.status = 304
  nothing : summary.contentType = none ∧ summary.contentBytes = none ∧ summary.contentSha256 = none ∧
    summary.contentPreview = none ∧ summary.semantic = none

/-- The summary of a document. -/
structure Described (sha256 : Str → Digest) (summary : CrawlSummary) : Prop where
  outcome : summary.outcome = "changed"
  status : 200 ≤ summary.status ∧ summary.status ≤ 299
  contentType : ∃ type, summary.contentType = some type ∧ isAllowedContentType type = true
  contentBytes : ∃ bytes, summary.contentBytes = some bytes ∧ bytes ≤ 2 * 1024 * 1024
  text : ∃ text, Str.trim text ≠ [] ∧ summary.contentSha256 = some (sha256 text).text ∧
    summary.contentPreview = some (preview text 500)
  semantic : ∃ semantic, summary.semantic = some semantic ∧
    semantic.embeddingKinds.length = semantic.embeddingInputCount ∧
    1 ≤ semantic.embeddingInputCount ∧ semantic.embeddingInputCount ≤ 86 ∧
    (semantic.embeddingKinds.map kindNames.idxOf).Pairwise (· ≤ ·) ∧
    (∀ kind ∈ semantic.embeddingKinds, kind ∈ kindNames) ∧
    ∃ text, Str.trim text ≠ [] ∧ text.length ≤ 24000 ∧ semantic.embeddingPreview = preview text 1000

theorem kindName_place (kind : EmbeddingInputKind) :
    kindNames.idxOf (embeddingKindName kind) = SemanticViews.place kind := by
  cases kind <;> rfl

theorem kindName_mem (kind : EmbeddingInputKind) : embeddingKindName kind ∈ kindNames := by
  cases kind <;> decide

section

variable {unicode : Unicode} {serde : SerdeJson} {crate : UrlCrate}

theorem extracted_kinds {contentType : Str} {body : List UInt8} {canonicalUrl : Str}
    {document : SemanticDocument EmbeddingInput}
    (ok : extractSemanticDocument unicode serde crate contentType body canonicalUrl = .ok document) :
    1 ≤ document.embeddingInputs.length ∧ document.embeddingInputs.length ≤ 86 ∧
      document.embeddingInputs.Pairwise fun x y =>
        SemanticViews.place x.kind ≤ SemanticViews.place y.kind := by
  obtain ⟨contentText, _, _, some, rfl⟩ := SemanticViews.extractSemanticDocument_iff.mp ok
  have kept := @SemanticViews.keptInputs_unnumbered unicode crate contentType body canonicalUrl contentText
  have viewed := mt SemanticViews.keptInputs_eq_nil.mp some
  have few := @SemanticViews.length_keptInputs_le unicode crate contentType body canonicalUrl contentText
  have places := SemanticViews.pushedInputs_places.sublist
    (@SemanticViews.dedupe_sublist unicode crate contentType body canonicalUrl contentText)
  rw [← kept, List.pairwise_map] at places
  simp only [SemanticViews.describedDocument]
  exact ⟨List.length_pos_iff.mpr viewed, few, places⟩

variable {canonicalizeUrl : Str → Except Str Str} {sha256 : Str → Digest} {fetcher : HttpFetcher}
  {requested : Url} {x : Answered}

theorem summarize_changed {document : FetchedDocument EmbeddingInput}
    (delivered : Delivered (pageSemantics unicode serde crate canonicalizeUrl sha256) fetcher requested
      x document) (policy : fetcher.policy = .default) :
    Described sha256 (summarize (.changed document)) := by
  obtain ⟨chunks, semantic, _, bytes, room, extracted, same, text⟩ := delivered.content
  have hash := delivered.hash
  dsimp only [pageSemantics, documentSemantics] at hash extracted text
  obtain ⟨valid, _⟩ := extractSemanticDocument_ok extracted
  obtain ⟨pos, few, places⟩ := extracted_kinds extracted
  have content := (validate_ok valid).content
  rw [← bytes, policy] at room
  rw [same] at pos few places content
  simp only [← kindName_place] at places
  refine
    { outcome := rfl
      status := ?_
      contentType := ⟨_, rfl, delivered.allowed⟩
      contentBytes := ⟨_, rfl, room⟩
      text := ⟨document.contentText, content, congrArg some hash, rfl⟩
      semantic := ⟨_, rfl, List.length_map _, pos, few, ?_, ?_, document.embeddingText, ?_, ?_, rfl⟩ }
  · dsimp only [summarize]
    rw [delivered.named.2.2]
    exact delivered.success
  · rw [List.map_map, List.pairwise_map]
    exact places
  · intro kind member
    obtain ⟨input, _, rfl⟩ := List.mem_map.mp member
    exact kindName_mem input.kind
  · rw [text]
    exact SemanticDocument.combinedEmbeddingText_visible (validate_ok valid)
  · rw [text]
    exact SemanticDocument.combinedEmbeddingText_length _

theorem summarize_ends {outcome : FetchOutcome EmbeddingInput}
    (ends : EndsWith (pageSemantics unicode serde crate canonicalizeUrl sha256) fetcher requested x outcome)
    (policy : fetcher.policy = .default) :
    (summarize outcome).requestedUrl = requested.asStr ∧
      (summarize outcome).finalUrl = x.httpRequest.url.asStr ∧
      (Unchanged (summarize outcome) ∨ Described sha256 (summarize outcome)) := by
  cases outcome with
  | notModified metadata =>
    obtain ⟨status, requested, final, same⟩ := ends
    exact ⟨requested, final, .inl ⟨rfl, same.trans status, rfl, rfl, rfl, rfl, rfl⟩⟩
  | changed document =>
    exact ⟨ends.named.1, ends.named.2.1, .inr (summarize_changed ends policy)⟩

end

theorem ingestion_ok {α : Type} {x : Except IngestionError α} {f : α → CrawlSummary}
    {summary : CrawlSummary} (ok : ingestion (x.map f) = .ok summary) :
    ∃ a, x = .ok a ∧ f a = summary := by
  have mapped := Checks.mapError_ok ok
  cases x with
  | error e => cases mapped
  | ok a => exact ⟨a, rfl, Except.ok.inj mapped⟩

/-- What crawl_once prints is about the source that the variables name: the URL is the one to start
from, the answer comes from a URL that they name, and the summary is either that of a 304 or that of one
bounded document, with the digest of the text that its preview begins. -/
theorem summary_told (unicode : Unicode) (serde : SerdeJson) (crate : UrlCrate)
    (canonicalizeUrl : Str → Except Str Str) (sha256 : Str → Digest) (env : Environment)
    (vars : Variables) (summary : CrawlSummary)
    (printed : (crawlOnce crate (pageSemantics unicode serde crate canonicalizeUrl sha256) env vars).2 =
      .ok summary) :
    ∃ start root url, Configured crate vars start root ∧ Registered crate vars start root url ∧
      summary.requestedUrl = start.asStr ∧ summary.finalUrl = url.asStr ∧
      (Unchanged summary ∨ Described sha256 summary) := by
  rcases crawlOnce_cases crate (pageSemantics unicode serde crate canonicalizeUrl sha256) env vars with
    ⟨e, refused⟩ | ⟨request, fetcher, read, policy, ran⟩
  · rw [refused] at printed
    cases printed
  · rw [ran] at printed
    obtain ⟨outcome, fetched, rfl⟩ := ingestion_ok printed
    obtain ⟨start, root, named⟩ := crawlRequest_ok read
    rcases fetch_loops crate (pageSemantics unicode serde crate canonicalizeUrl sha256) env fetcher
      request with ⟨e, failed⟩ | ⟨requested, _, prepared, _, chain⟩
    · rw [failed] at fetched
      cases fetched
    · obtain ⟨last, response, found, _, ends⟩ := chain.outcome outcome (congrArg some fetched)
      have target := chain_targets chain.linked
        (fun x member => chain.first x member ▸ prepareTargetUrl_ok prepared) last
        (List.mem_of_getLast? found)
      obtain rfl : requested = start :=
        Except.ok.inj ((prepareTargetUrl_parsed prepared).symm.trans named.started)
      obtain ⟨from', final, told⟩ := summarize_ends ends policy
      exact ⟨requested, root, last.httpRequest.url, named.configured, named.registered target, from',
        final, told⟩

theorem summary_told_note : ∃ summary,
    (crawlOnce blogCrate noteSemantics noteEnvironment blogVariables).2 = .ok summary ∧
    summary.contentPreview = some "Ab cd".toList ∧ ∃ start root url,
      Configured blogCrate blogVariables start root ∧
      Registered blogCrate blogVariables start root url ∧ summary.requestedUrl = start.asStr ∧
      summary.finalUrl = url.asStr ∧ (Unchanged summary ∨ Described (fun _ => Digest.pageA) summary) := by
  have shown : (crawlOnce blogCrate noteSemantics noteEnvironment blogVariables).2.toOption.bind
      (·.contentPreview) = some "Ab cd".toList := by
    decide +kernel
  cases printed : (crawlOnce blogCrate noteSemantics noteEnvironment blogVariables).2 with
  | error e =>
    rw [printed] at shown
    cases shown
  | ok summary =>
    rw [printed] at shown
    exact ⟨summary, rfl, shown, summary_told Unicode.ascii ⟨fun _ => .error []⟩ blogCrate canonicalUrls
      (fun _ => Digest.pageA) noteEnvironment blogVariables summary printed⟩

end EalSync.Ingestion.CrawlOnce
