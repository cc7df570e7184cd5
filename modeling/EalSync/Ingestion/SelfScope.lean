import EalSync.Ingestion.Safety
import EalSync.Ingestion.Traversal

/-! The URL that a scope is registered for. Registration and check read different parts of it: the
host and the path, which is parsed a second time, against the host, the port and the path. -/
namespace EalSync.Ingestion

open UrlPath

/-- Url::parse follows the standard on paths: prefixes are resolved as it says, and no character of
a path that it returned is left to encode. -/
structure FollowsPaths (crate : UrlCrate) (set : EncodeSet) : Prop where
  prefixes : ParsesPrefixes crate set
  encoded : ∀ input url, crate.parse input = .ok url → specialScheme url.scheme = true →
    ∀ c ∈ url.path, set.encodes c = false

/-- One call that succeeds. -/
inductive Widens (crate : UrlCrate) (scope scope' : FetchScope) : Prop where
  | allowHost (host : Str) : scope.allowHost host = .ok scope' → Widens crate scope scope'
  | allowPathPrefix (written : Str) : scope.allowPathPrefix crate written = .ok scope' →
      Widens crate scope scope'

structure Grows (scope scope' : FetchScope) : Prop where
  root : scope'.rootHost = scope.rootHost
  port : scope'.requireDefaultPort = scope.requireDefaultPort
  prefixes : scope.allowedPathPrefixes ⊆ scope'.allowedPathPrefixes

theorem Widens.grows {crate : UrlCrate} {scope scope' : FetchScope}
    (widens : Widens crate scope scope') : Grows scope scope' := by
  cases widens with
  | allowHost host ok =>
    obtain ⟨_, _, ok⟩ := Checks.bind_ok ok
    cases ok
    exact ⟨rfl, rfl, fun _ => id⟩
  | allowPathPrefix written ok =>
    obtain ⟨_, _, rfl⟩ := allowPathPrefix_ok.mp ok
    exact ⟨rfl, rfl, Finset.subset_insert _ _⟩

theorem widened_grows {crate : UrlCrate} {scope scope' : FetchScope}
    (widened : Relation.ReflTransGen (Widens crate) scope scope') : Grows scope scope' := by
  induction widened with
  | refl => exact ⟨rfl, rfl, fun _ => id⟩
  | tail _ last ih =>
    have step := last.grows
    exact ⟨step.root.trans ih.root, step.port.trans ih.port, ih.prefixes.trans step.prefixes⟩

theorem prepareTargetUrl_iff {crate : UrlCrate} {input : Str} {scope : FetchScope} {url : Url} :
    prepareTargetUrl crate input scope = .ok url ↔
      parseHttpUrl crate input = .ok url ∧ scope.allowsUrl url = true := by
  unfold prepareTargetUrl
  cases parseHttpUrl crate input with
  | error e => exact iff_of_false (by rintro ⟨⟩) (by rintro ⟨⟨⟩, _⟩)
  | ok parsed =>
    by_cases allowed : scope.allowsUrl parsed = true
    · simp only [bind, Except.bind, allowed, Bool.not_true, Bool.false_eq_true, if_false,
        Except.ok.injEq]
      exact ⟨by rintro rfl; exact ⟨rfl, allowed⟩, fun h => h.1⟩
    · have refused := Bool.not_eq_true _ ▸ allowed
      simp only [bind, Except.bind, refused, Bool.not_false, if_true]
      refine iff_of_false (by rintro ⟨⟩) ?_
      rintro ⟨⟨⟩, other⟩
      exact allowed other

theorem parseHttpUrl_parsed {crate : UrlCrate} {input : Str} {url : Url}
    (ok : parseHttpUrl crate input = .ok url) :
    ∃ whole, crate.parse (Str.trim input) = .ok whole ∧ url = whole.clearFragment := by
  unfold parseHttpUrl at ok
  split at ok
  · cases ok
  · rename_i whole parsed
    refine ⟨whole, parsed, ?_⟩
    repeat' split at ok
    all_goals cases ok
    rfl

/-- Every path lies under itself, with or without a slash at its end. -/
theorem pathMatchesPrefix_self (path : Str) : pathMatchesPrefix path path = true := by
  have whole : Str.trimEndMatches '/' path ++ path.rtakeWhile (· == '/') = path :=
    List.rdropWhile_append_rtakeWhile ..
  rw [pathMatchesPrefix_cases]
  cases slashes : path.rtakeWhile (· == '/') with
  | nil =>
    rw [slashes, List.append_nil] at whole
    exact .inr (.inl whole.symm)
  | cons c rest =>
    have slash : c = '/' := by
      have member : c ∈ path.rtakeWhile (· == '/') := slashes ▸ List.mem_cons_self
      simpa using List.mem_rtakeWhile_imp member
    rw [slashes, slash] at whole
    exact .inr (.inr ⟨rest, whole.symm⟩)

section Registered

variable {crate : UrlCrate} {set : EncodeSet} (follows : FollowsPaths crate set) {url : Url}

include follows in
/-- The second parse of the path of a URL returns that path. -/
theorem normalizePathPrefix_path {input stored : Str} (parsed : crate.parse input = .ok url)
    (special : specialScheme url.scheme = true)
    (normalized : normalizePathPrefix crate url.path = .ok stored) : stored = url.path := by
  have solid : ∀ c ∈ url.path, Str.isWhitespace c = false :=
    fun c member => printable_not_whitespace (url.pathPrintable special c member).1
  have valid := (normalizePathPrefix_ok.mp normalized).1
  rw [normalizePathPrefix_pathState follows.prefixes valid, Str.trim_eq_self solid,
    pathState_fixed (url.pathAbsolute special) (follows.encoded input url parsed special)
      (url.pathResolved special), Except.ok.injEq] at normalized
  exact normalized.symm

end Registered

/-- A registered URL is accepted by its scope, as it is and however it is widened, exactly when its
port is the default one of its scheme. -/
theorem registered_iff (crate : UrlCrate) (set : EncodeSet) (follows : FollowsPaths crate set)
    (u : Str) (scope : FetchScope) (registered : FetchScope.forUrl crate u = .ok scope) :
    ∃ url, parseHttpUrl crate u = .ok url ∧
      ∀ scope', Relation.ReflTransGen (Widens crate) scope scope' →
        (prepareTargetUrl crate u scope' = .ok url ↔ usesDefaultPort url = true) := by
  obtain ⟨url, host, rootHost, stored, parsed, rendered, root, normalized, rfl⟩ := forUrl_ok registered
  refine ⟨url, parsed, fun scope' widened => ?_⟩
  have grows := widened_grows widened
  rw [prepareTargetUrl_iff, allowsUrl_eq_true]
  constructor
  · rintro ⟨_, _, _, _, _, _, port, _⟩
    exact port grows.port
  · intro port
    obtain ⟨whole, first, rfl⟩ := parseHttpUrl_parsed parsed
    have special : specialScheme whole.scheme = true := by
      rcases (parseHttpUrl_ok parsed).1 with scheme | scheme <;>
      · rw [show whole.scheme = _ from scheme]
        decide
    obtain rfl : stored = whole.path := normalizePathPrefix_path follows first special normalized
    refine ⟨parsed, host, rootHost, rendered, root, .inl (by rw [grows.root]), fun _ => port, whole.path,
      grows.prefixes (Finset.mem_singleton_self _), pathMatchesPrefix_self _⟩

theorem root_printable : ∀ c ∈ "/".toList, printable c ∧ c ≠ '?' ∧ c ≠ '#' ∧ c ≠ '\\' := by decide

theorem root_resolved : ∀ segment ∈ "/".toList.splitOn '/', dotSegment segment = false := by decide

/-- A source on another port. -/
def portUrl : Url :=
  { Url.https "example.com".toList "/".toList example_printable root_printable rfl root_resolved with
    port := some 8443 }

def sourcesCrate : UrlCrate where
  parse s :=
    if s = "https://example.com:8443/".toList then .ok portUrl
    else if s = "https://example.com/blog".toList then .ok blogUrl
    else scopeCrate.parse s
  join _ _ := .error "relative URL without a base".toList

theorem scopeCrate_encoded {input : Str} {url : Url} (ok : scopeCrate.parse input = .ok url) :
    ∀ c ∈ url.path, pathEncodes c = false := by
  simp only [scopeCrate] at ok
  split at ok
  · cases ok
  · split at ok
    · rename_i plain
      cases ok
      exact pathState_kept plain
    · cases ok

theorem sourcesCrate_follows : FollowsPaths sourcesCrate pathSet := by
  constructor
  · intro path plain
    have other : ∀ source : Str, source[8]? ≠ some 's' →
        "https://scope.invalid".toList ++ path ≠ source := by
      rintro _ eighth rfl
      exact eighth (List.getElem?_append_left (by decide))
    simp only [sourcesCrate]
    rw [if_neg (other _ (by decide)), if_neg (other _ (by decide))]
    exact scopeCrate_parses path plain
  · intro input url ok _
    simp only [sourcesCrate] at ok
    split at ok
    · cases ok
      decide
    · split at ok
      · cases ok
        decide
      · exact scopeCrate_encoded ok

def portScope : FetchScope := ⟨"example.com".toList, false, ∅, {"/".toList}, true⟩

theorem registered_port : FollowsPaths sourcesCrate pathSet ∧
    FetchScope.forUrl sourcesCrate "https://example.com:8443/".toList = .ok portScope ∧
    ∀ url, prepareTargetUrl sourcesCrate "https://example.com:8443/".toList portScope ≠ .ok url := by
  refine ⟨sourcesCrate_follows, by decide +kernel, fun url ok => ?_⟩
  obtain ⟨parsed, allowed⟩ := prepareTargetUrl_iff.mp ok
  have whole : parseHttpUrl sourcesCrate "https://example.com:8443/".toList = .ok portUrl := by
    decide +kernel
  rw [whole, Except.ok.injEq] at parsed
  rw [← parsed] at allowed
  exact absurd allowed (by decide +kernel)

theorem registered_iff_blog : ∃ url, parseHttpUrl sourcesCrate "https://example.com/blog".toList = .ok url ∧
    ∀ scope', Relation.ReflTransGen (Widens sourcesCrate) blogScope scope' →
      (prepareTargetUrl sourcesCrate "https://example.com/blog".toList scope' = .ok url ↔
        usesDefaultPort url = true) :=
  registered_iff sourcesCrate pathSet sourcesCrate_follows "https://example.com/blog".toList blogScope
    (by decide +kernel)

end EalSync.Ingestion
