import EalSync.Ingestion.Policy
import EalSync.Lib.Segments

/-! What a scope allows, in terms of labels and segments. The code compares strings; a string
suffix that begins at a dot is a suffix of labels, and a string prefix that ends at a slash is a
prefix of segments. -/
namespace EalSync.Ingestion

structure DnsLabel (label : Str) : Prop where
  length : 1 ≤ label.length ∧ label.length ≤ 63
  alphabet : ∀ c ∈ label, Str.isAsciiAlphanumeric c = true ∨ c = '-'
  inner : label.head? ≠ some '-' ∧ label.getLast? ≠ some '-'

/-- A DNS name of at least two labels that is not an IP literal. -/
structure DnsName (name : Str) : Prop where
  labels : 2 ≤ (name.splitOn '.').length
  valid : ∀ label ∈ name.splitOn '.', DnsLabel label
  length : Str.len name ≤ 253
  notLiteral : IpAddr.parse name = none

/-- A host in lower case and without trailing dots. -/
def canonicalHost (host : Str) : Str := Str.toAsciiLowercase (Str.trimEndMatches '.' host)

theorem label_ascii {label : Str}
    (alphabet : ∀ c ∈ label, Str.isAsciiAlphanumeric c = true ∨ c = '-') : Str.len label = label.length := by
  refine Str.len_of_ascii fun c hc => ?_
  rcases alphabet c hc with alphanumeric | rfl
  · exact lt_of_le_of_lt (alphanumeric_printable alphanumeric).2 (by decide)
  · decide

theorem validLabel_iff {label : Str} : validLabel label = true ↔ DnsLabel label := by
  have starts : Str.startsWith ['-'] label = true ↔ label.head? = some '-' := by
    rw [Str.startsWith_iff]
    cases label <;> simp [eq_comm]
  have ends : Str.endsWith ['-'] label = true ↔ label.getLast? = some '-' := by
    rw [Str.endsWith_iff, List.getLast?_eq_some_iff]
  simp only [validLabel, Bool.and_eq_true, Bool.not_eq_true', decide_eq_true_eq, List.all_eq_true,
    Bool.or_eq_true, beq_iff_eq, ← Bool.not_eq_true, starts, ends, List.isEmpty_iff,
    ← List.length_eq_zero_iff]
  constructor
  · rintro ⟨⟨⟨⟨some, short⟩, head⟩, last⟩, alphabet⟩
    rw [label_ascii alphabet] at short
    exact ⟨⟨by omega, short⟩, alphabet, head, last⟩
  · rintro ⟨⟨some, short⟩, alphabet, head, last⟩
    rw [← label_ascii alphabet] at short
    exact ⟨⟨⟨⟨by omega, short⟩, head⟩, last⟩, alphabet⟩

theorem contains_dot_iff {s : Str} : Str.contains ['.'] s = true ↔ 2 ≤ (s.splitOn '.').length := by
  rw [Segments.two_le_length_iff, Str.contains, decide_eq_true_eq, List.singleton_infix_iff]

theorem DnsName.starless {s : Str} (dns : DnsName s) : Str.contains ['*'] s = false := by
  rw [← Bool.not_eq_true, Str.contains, decide_eq_true_eq, List.singleton_infix_iff]
  intro star
  obtain ⟨label, member, inside⟩ := Segments.mem_segment star (by decide : '*' ≠ '.')
  rcases (dns.valid label member).alphabet '*' inside with alphanumeric | hyphen
  · exact absurd alphanumeric (by decide)
  · exact absurd hyphen (by decide)

/-- The checks on whole strings in normalize_host follow from those on labels. -/
theorem hostChecks_iff {s : Str} : (s.isEmpty || decide (Str.len s > 253) || !Str.contains ['.'] s ||
    Str.contains ['*'] s || (IpAddr.parse s).isSome || !(s.splitOn '.').all validLabel) = false ↔
      DnsName s := by
  simp only [Bool.or_eq_false_iff, Bool.not_eq_false', decide_eq_false_iff_not, contains_dot_iff,
    List.all_eq_true, validLabel_iff, Option.isSome_eq_false_iff, Option.isNone_iff_eq_none]
  constructor
  · rintro ⟨⟨⟨⟨⟨_, short⟩, labels⟩, _⟩, notLiteral⟩, valid⟩
    exact ⟨labels, valid, by omega, notLiteral⟩
  · intro dns
    have dot := Segments.two_le_length_iff.mp dns.labels
    have short := dns.length
    refine ⟨⟨⟨⟨⟨?_, by omega⟩, dns.labels⟩, dns.starless⟩, dns.notLiteral⟩, dns.valid⟩
    cases s with
    | nil => cases dot
    | cons c rest => rfl

theorem normalizeHost_ok {host name : Str} :
    normalizeHost host = .ok name ↔ name = canonicalHost (Str.trim host) ∧ DnsName name := by
  unfold normalizeHost
  dsimp only
  constructor
  · intro ok
    obtain ⟨passed, ok⟩ := Checks.check_ok ok
    cases ok
    exact ⟨rfl, hostChecks_iff.mp (by simpa using passed)⟩
  · rintro ⟨rfl, dns⟩
    have passed := hostChecks_iff.mpr dns
    unfold canonicalHost at passed ⊢
    rw [passed]
    rfl

/-- The scopes a caller can build. A call that fails leaves its scope as it was. -/
inductive Built (crate : UrlCrate) : FetchScope → Prop where
  | forUrl (url : Str) (scope : FetchScope) : FetchScope.forUrl crate url = .ok scope → Built crate scope
  | allowHost (scope scope' : FetchScope) (host : Str) :
      Built crate scope → scope.allowHost host = .ok scope' → Built crate scope'
  | allowPathPrefix (scope scope' : FetchScope) (pathPrefix : Str) :
      Built crate scope → scope.allowPathPrefix crate pathPrefix = .ok scope' → Built crate scope'
  | setAllowedPathPrefixes (scope scope' : FetchScope) (prefixes : List Str) :
      Built crate scope → scope.setAllowedPathPrefixes crate prefixes = .ok scope' →
      Built crate scope'
  | includeSubdomains (scope : FetchScope) (value : Bool) :
      Built crate scope → Built crate { scope with includeSubdomains := value }

theorem forUrl_ok {crate : UrlCrate} {url : Str} {scope : FetchScope}
    (ok : FetchScope.forUrl crate url = .ok scope) :
    ∃ parsed host rootHost pathPrefix, parseHttpUrl crate url = .ok parsed ∧
      parsed.hostStr = some host ∧ normalizeHost host = .ok rootHost ∧
      normalizePathPrefix crate parsed.path = .ok pathPrefix ∧
      scope = ⟨rootHost, false, ∅, {pathPrefix}, true⟩ := by
  obtain ⟨parsed, one, ok⟩ := Checks.bind_ok ok
  obtain ⟨host, two, ok⟩ := Checks.bind_ok ok
  obtain ⟨rootHost, three, ok⟩ := Checks.bind_ok ok
  obtain ⟨pathPrefix, four, ok⟩ := Checks.bind_ok ok
  cases ok
  exact ⟨parsed, host, rootHost, pathPrefix, one, okOr_ok.mp two, three, four, rfl⟩

theorem setAllowedPathPrefixes_ok {crate : UrlCrate} {scope scope' : FetchScope} {prefixes : List Str}
    (ok : scope.setAllowedPathPrefixes crate prefixes = .ok scope') :
    ∃ normalized : List Str, normalized ≠ [] ∧
      prefixes.mapM (normalizePathPrefix crate) = .ok normalized ∧
      scope' = { scope with allowedPathPrefixes := normalized.toFinset } := by
  obtain ⟨normalized, each, ok⟩ := Checks.bind_ok ok
  split at ok
  · cases ok
  · rename_i some
    cases ok
    exact ⟨normalized, by simpa using some, each, rfl⟩

/-- A list that is mapped without an error is mapped element by element. -/
theorem mapM_ok {f : Str → Except IngestionError Str} {inputs outputs : List Str}
    (ok : inputs.mapM f = .ok outputs) :
    List.Forall₂ (fun input output => f input = .ok output) inputs outputs := by
  induction inputs generalizing outputs with
  | nil =>
    cases ok
    exact .nil
  | cons input rest ih =>
    rw [List.mapM_cons] at ok
    obtain ⟨first, one, ok⟩ := Checks.bind_ok ok
    obtain ⟨more, later, ok⟩ := Checks.bind_ok ok
    cases ok
    exact .cons one (ih later)

theorem forall₂_mem {α β : Type} {R : α → β → Prop} {xs : List α} {ys : List β}
    (all : List.Forall₂ R xs ys) {x : α} (member : x ∈ xs) : ∃ y ∈ ys, R x y := by
  induction all with
  | nil => cases member
  | cons here _ ih =>
    rcases List.mem_cons.mp member with rfl | later
    · exact ⟨_, List.mem_cons_self, here⟩
    · obtain ⟨y, found, related⟩ := ih later
      exact ⟨y, List.mem_cons_of_mem _ found, related⟩

structure Formed (crate : UrlCrate) (scope : FetchScope) : Prop where
  root : ∃ host, normalizeHost host = .ok scope.rootHost
  defaultPort : scope.requireDefaultPort = true
  some : scope.allowedPathPrefixes.Nonempty
  prefixes : ∀ pathPrefix ∈ scope.allowedPathPrefixes,
    ∃ path, normalizePathPrefix crate path = .ok pathPrefix

theorem Built.formed {crate : UrlCrate} {scope : FetchScope} (built : Built crate scope) :
    Formed crate scope := by
  induction built with
  | forUrl _ _ ok =>
    obtain ⟨parsed, host, _, _, _, _, root, path, rfl⟩ := forUrl_ok ok
    exact ⟨⟨host, root⟩, rfl, Finset.singleton_nonempty _,
      fun _ member => ⟨parsed.path, by rwa [Finset.mem_singleton.mp member]⟩⟩
  | allowHost _ _ _ _ ok ih =>
    obtain ⟨_, _, ok⟩ := Checks.bind_ok ok
    cases ok
    exact ⟨ih.root, ih.defaultPort, ih.some, ih.prefixes⟩
  | allowPathPrefix _ _ path _ ok ih =>
    obtain ⟨_, normalized, ok⟩ := Checks.bind_ok ok
    cases ok
    refine ⟨ih.root, ih.defaultPort, Finset.insert_nonempty _ _, fun pathPrefix member => ?_⟩
    rcases Finset.mem_insert.mp member with rfl | member
    · exact ⟨path, normalized⟩
    · exact ih.prefixes pathPrefix member
  | setAllowedPathPrefixes _ _ _ _ ok ih =>
    obtain ⟨_, some, normalized, rfl⟩ := setAllowedPathPrefixes_ok ok
    refine ⟨ih.root, ih.defaultPort, List.toFinset_nonempty_iff _ |>.mpr some,
      fun pathPrefix member => ?_⟩
    obtain ⟨path, _, made⟩ := forall₂_mem (mapM_ok normalized).flip (List.mem_toFinset.mp member)
    exact ⟨path, made⟩
  | includeSubdomains _ _ _ ih => exact ⟨ih.root, ih.defaultPort, ih.some, ih.prefixes⟩

/-- The label list of the root, of an allowed host, or one with the root's as a proper suffix. -/
def HostInScope (scope : FetchScope) (name : Str) : Prop :=
  name.splitOn '.' = scope.rootHost.splitOn '.' ∨
    (∃ host ∈ scope.explicitlyAllowedHosts, name.splitOn '.' = host.splitOn '.') ∨
    (scope.includeSubdomains = true ∧
      ∃ front, front ≠ [] ∧ name.splitOn '.' = front ++ scope.rootHost.splitOn '.')

def schemePort (scheme : Str) : Nat := if scheme = "https".toList then 443 else 80

/-- The segments of some allowed prefix, without its trailing slashes, begin those of the path. -/
def PathInScope (scope : FetchScope) (path : Str) : Prop :=
  ∃ pathPrefix ∈ scope.allowedPathPrefixes,
    (Str.trimEndMatches '/' pathPrefix).splitOn '/' <+: path.splitOn '/'

theorem hostAllowed_iff (scope : FetchScope) (name : Str) :
    (name == scope.rootHost || decide (name ∈ scope.explicitlyAllowedHosts) ||
      (scope.includeSubdomains && (Str.stripSuffix scope.rootHost name).any fun front =>
        Str.endsWith ['.'] front && !front.isEmpty)) = true ↔ HostInScope scope name := by
  have subdomain : ((Str.stripSuffix scope.rootHost name).any fun front =>
      Str.endsWith ['.'] front && !front.isEmpty) = true ↔
      ∃ zs, name = zs ++ '.' :: scope.rootHost := by
    simp only [Option.any_eq_true, Str.stripSuffix_eq_some, Bool.and_eq_true, Str.endsWith_iff]
    constructor
    · rintro ⟨front, rfl, ⟨zs, rfl⟩, _⟩
      exact ⟨zs, by simp⟩
    · rintro ⟨zs, rfl⟩
      exact ⟨zs ++ ['.'], by simp, ⟨zs, rfl⟩, by simp⟩
  simp only [HostInScope, Segments.suffix_iff, Segments.splitOn_eq_iff, Bool.or_eq_true,
    Bool.and_eq_true, decide_eq_true_eq, beq_iff_eq, subdomain, exists_eq_right', or_assoc]

theorem pathMatchesPrefix_cases {path pathPrefix : Str} :
    pathMatchesPrefix path pathPrefix = true ↔ pathPrefix = ['/'] ∨
      path = Str.trimEndMatches '/' pathPrefix ∨
      ∃ rest, path = Str.trimEndMatches '/' pathPrefix ++ '/' :: rest := by
  rw [pathMatchesPrefix]
  by_cases root : pathPrefix = ['/']
  · exact iff_of_true (if_pos root) (.inl root)
  · rw [if_neg root, or_iff_right root]
    simp only [Bool.or_eq_true, beq_iff_eq, Option.any_eq_true, Str.stripPrefix_eq_some,
      Str.startsWith_iff]
    refine or_congr Iff.rfl ⟨?_, ?_⟩
    · rintro ⟨_, same, rest, rfl⟩
      exact ⟨rest, same⟩
    · rintro ⟨rest, same⟩
      exact ⟨_, same, rest, rfl⟩

theorem pathMatchesPrefix_iff {path : Str} (absolute : path.head? = some '/') (pathPrefix : Str) :
    pathMatchesPrefix path pathPrefix = true ↔
      (Str.trimEndMatches '/' pathPrefix).splitOn '/' <+: path.splitOn '/' := by
  rw [Segments.prefix_iff, pathMatchesPrefix_cases]
  refine ⟨?_, .inr⟩
  rintro (rfl | begins)
  · obtain ⟨rest, rfl⟩ := List.head?_eq_some_iff.mp absolute
    exact .inr ⟨rest, by simp [Str.trimEndMatches]⟩
  · exact begins

theorem usesDefaultPort_iff {url : Url}
    (http : url.scheme = "http".toList ∨ url.scheme = "https".toList) :
    usesDefaultPort url = true ↔ url.port = none ∨ url.port = some (schemePort url.scheme) := by
  rcases http with scheme | scheme <;>
  · simp only [usesDefaultPort, scheme, Bool.or_eq_true, Bool.and_eq_true, beq_iff_eq]
    simp [schemePort]

theorem allowsUrl_eq_true (scope : FetchScope) (url : Url) :
    scope.allowsUrl url = true ↔ ∃ host name, url.hostStr = some host ∧ normalizeHost host = .ok name ∧
      HostInScope scope name ∧ (scope.requireDefaultPort = true → usesDefaultPort url = true) ∧
      ∃ pathPrefix ∈ scope.allowedPathPrefixes, pathMatchesPrefix url.path pathPrefix = true := by
  unfold FetchScope.allowsUrl
  cases url.hostStr with
  | none => simp
  | some host =>
    cases normalized : normalizeHost host with
    | error e => simp [Except.toOption, normalized]
    | ok name =>
      simp only [Option.bind_some, normalized, Except.toOption, Option.some.injEq, Except.ok.injEq,
        exists_eq_left', exists_and_left, ← hostAllowed_iff]
      split
      · rename_i refused
        simp only [Bool.or_eq_true, Bool.not_eq_true', Bool.and_eq_true] at refused
        refine iff_of_false Bool.false_ne_true ?_
        rintro ⟨allowed, port, _⟩
        rcases refused with host | ⟨required, other⟩
        · rw [host] at allowed
          cases allowed
        · rw [port required] at other
          cases other
      · rename_i passed
        simp only [Bool.or_eq_true, Bool.not_eq_true', Bool.and_eq_true, not_or, not_and,
          Bool.not_eq_false] at passed
        rw [decide_eq_true_eq]
        simp only [Bool.or_eq_true, Bool.and_eq_true]
        exact ⟨fun path => ⟨passed.1, passed.2, path⟩, fun h => h.2.2⟩

theorem allowsUrl_iff (crate : UrlCrate) (scope : FetchScope) (built : Built crate scope) (url : Url)
    (http : url.scheme = "http".toList ∨ url.scheme = "https".toList) :
    scope.allowsUrl url = true ↔ ∃ host, url.hostStr = some host ∧ DnsName (canonicalHost host) ∧
      HostInScope scope (canonicalHost host) ∧
      (url.port = none ∨ url.port = some (schemePort url.scheme)) ∧ PathInScope scope url.path := by
  have absolute : url.path.head? = some '/' := by
    apply url.pathAbsolute
    rcases http with scheme | scheme <;> simp [scheme, specialScheme]
  have paths : (∃ pathPrefix ∈ scope.allowedPathPrefixes,
      pathMatchesPrefix url.path pathPrefix = true) ↔ PathInScope scope url.path := by
    simp only [PathInScope, pathMatchesPrefix_iff absolute]
  rw [allowsUrl_eq_true]
  simp only [built.formed.defaultPort, forall_const, paths, usesDefaultPort_iff http, normalizeHost_ok]
  constructor
  · rintro ⟨host, name, rendered, ⟨rfl, dns⟩, rest⟩
    rw [Str.trim_eq_self (Url.hostStr_solid rendered)] at dns rest
    exact ⟨host, rendered, dns, rest⟩
  · rintro ⟨host, rendered, dns, rest⟩
    have trimmed := Str.trim_eq_self (Url.hostStr_solid rendered)
    exact ⟨host, canonicalHost host, rendered, ⟨by rw [trimmed], dns⟩, rest⟩

theorem example_printable : ∀ c ∈ "example.com".toList, printable c := by decide

theorem blog_printable : ∀ c ∈ "/blog".toList, printable c ∧ c ≠ '?' ∧ c ≠ '#' ∧ c ≠ '\\' := by
  decide

theorem blog_absolute : "/blog".toList.head? = some '/' := rfl

theorem blog_resolved : ∀ segment ∈ "/blog".toList.splitOn '/', dotSegment segment = false := by
  decide

def blogUrl : Url :=
  .https "example.com".toList "/blog".toList example_printable blog_printable blog_absolute
    blog_resolved

/-- What the url crate answers on the registered URL, its path prefix and a redirect to itself. -/
def blogCrate : UrlCrate where
  parse s :=
    if s = "https://example.com/blog".toList then .ok blogUrl
    else if s = "https://scope.invalid/blog".toList then
      .ok (.https "scope.invalid".toList "/blog".toList (by decide) (by decide) rfl (by decide))
    else .error "relative URL without a base".toList
  join base _ := .ok base

def blogScope : FetchScope := ⟨"example.com".toList, false, ∅, {"/blog".toList}, true⟩

theorem blogScope_built : Built blogCrate blogScope :=
  .forUrl "https://example.com/blog".toList _ (by decide +kernel)

def postUrl : Url :=
  .https "example.com".toList "/blog/post".toList example_printable (by decide) rfl (by decide)

theorem allowsUrl_iff_post : ∃ host, postUrl.hostStr = some host ∧ DnsName (canonicalHost host) ∧
    HostInScope blogScope (canonicalHost host) ∧
    (postUrl.port = none ∨ postUrl.port = some (schemePort postUrl.scheme)) ∧
    PathInScope blogScope postUrl.path :=
  (allowsUrl_iff blogCrate blogScope blogScope_built postUrl (.inr rfl)).mp (by decide +kernel)

example : blogScope.allowsUrl
    (.https "example.com".toList "/blogger".toList (by decide) (by decide) rfl (by decide)) = false := by
  decide +kernel

example : blogScope.allowsUrl
    (.https "evilexample.com".toList "/blog".toList (by decide) (by decide) rfl (by decide)) = false := by
  decide +kernel

end EalSync.Ingestion
