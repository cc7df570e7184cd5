import EalSync.Ingestion.Scope
import EalSync.Std.UrlPath

/-! Traversal in path prefixes. The checks of normalize_path_prefix refuse dot segments that hide
behind an encoding, and leave literal ones to the URL parser, which resolves them: the prefix that
is stored can be wider than the one that was written. -/
namespace EalSync.Ingestion

open UrlPath

/-- The characters that normalize_path_prefix checks, in a prefix without outer whitespace. -/
def canonicalPrefix (trimmed : Str) : Bool :=
  let lower := Str.toAsciiLowercase trimmed
  !(trimmed.isEmpty || !Str.startsWith ['/'] trimmed ||
      trimmed.any (fun c => c == '?' || c == '#' || c == '\\') || trimmed.any Str.isControl ||
      Str.contains "//".toList trimmed || Str.contains "%2e".toList lower ||
      Str.contains "%2f".toList lower || Str.contains "%5c".toList lower)

def dotted (segment : Str) : Prop := segment = ".".toList ∨ segment = "..".toList

instance (segment : Str) : Decidable (dotted segment) := inferInstanceAs (Decidable (_ ∨ _))

/-- Url::parse on the URLs that normalize_path_prefix builds follows the standard. -/
def ParsesPrefixes (crate : UrlCrate) (set : EncodeSet) : Prop :=
  ∀ path, PlainPath path →
    ∃ url, crate.parse ("https://scope.invalid".toList ++ path) = .ok url ∧ url.path = pathState set path

/-- The stored prefix has the segments of the written one, some of their characters encoded, and
no traversal was written. -/
structure Kept (written stored : Str) : Prop where
  named : ∀ segment ∈ (Str.trim written).splitOn '/', ¬dotted segment
  segments : List.Forall₂ (fun s t => ∃ encodes, t = percentEncode encodes s)
    ((Str.trim written).splitOn '/') (stored.splitOn '/')

/-- Wherever a caller can write the prefix, a scope that accepts it keeps it. -/
structure KeepsPrefix (crate : UrlCrate) (written : Str) : Prop where
  allowPathPrefix : ∀ scope scope' : FetchScope, scope.allowPathPrefix crate written = .ok scope' →
    ∃ stored, scope' = { scope with
      allowedPathPrefixes := insert stored scope.allowedPathPrefixes } ∧ Kept written stored
  setAllowedPathPrefixes : ∀ (scope scope' : FetchScope) (prefixes : List Str), written ∈ prefixes →
    scope.setAllowedPathPrefixes crate prefixes = .ok scope' →
    ∃ stored ∈ scope'.allowedPathPrefixes, Kept written stored
  forUrl : ∀ url parsed scope, parseHttpUrl crate url = .ok parsed → parsed.path = written →
    FetchScope.forUrl crate url = .ok scope →
    ∃ stored, scope.allowedPathPrefixes = {stored} ∧ Kept written stored

theorem normalizePathPrefix_ok {crate : UrlCrate} {written stored : Str} :
    normalizePathPrefix crate written = .ok stored ↔
      canonicalPrefix (Str.trim written) = true ∧ ∃ parsed,
        crate.parse ("https://scope.invalid".toList ++ Str.trim written) = .ok parsed ∧
          parsed.path = stored := by
  unfold normalizePathPrefix canonicalPrefix
  dsimp only
  split
  · rename_i refused
    refine iff_of_false (by simp) ?_
    rintro ⟨valid, _⟩
    rw [refused] at valid
    cases valid
  · rename_i passed
    rw [Bool.not_eq_true] at passed
    rw [passed, Bool.not_false, eq_self_iff_true, true_and]
    cases crate.parse ("https://scope.invalid".toList ++ Str.trim written) with
    | error e => simp
    | ok parsed => simp

theorem trim_last (s : Str) : (Str.trim s).getLast? ≠ some ' ' := by
  intro last
  have some : Str.trim s ≠ [] := fun none => by simp [none] at last
  have solid := List.rdropWhile_last_not Str.isWhitespace (s.dropWhile Str.isWhitespace) some
  rw [List.getLast?_eq_some_getLast some, Option.some.injEq] at last
  change ¬Str.isWhitespace ((Str.trim s).getLast some) = true at solid
  rw [last] at solid
  exact solid (by decide)

theorem canonicalPrefix_plain {written : Str} (valid : canonicalPrefix (Str.trim written) = true) :
    PlainPath (Str.trim written) ∧
      Str.contains "%2e".toList (Str.toAsciiLowercase (Str.trim written)) = false := by
  simp only [canonicalPrefix, Bool.not_eq_true', Bool.or_eq_false_iff, Bool.not_eq_false',
    List.any_eq_false, Bool.or_eq_true, beq_iff_eq, not_or, Bool.not_eq_true] at valid
  obtain ⟨⟨⟨⟨⟨⟨⟨_, absolute⟩, delimiters⟩, controls⟩, _⟩, plain⟩, _⟩, _⟩ := valid
  obtain ⟨rest, same⟩ := Str.startsWith_iff.mp absolute
  refine ⟨⟨by rw [same]; rfl, fun c member => ?_, trim_last written⟩, plain⟩
  have one := delimiters c member
  exact ⟨one.1.1, one.1.2, one.2, controls c member⟩

/-- A dot segment is a literal one, or it hides behind an encoding. -/
theorem dotSegment_literal {segment : Str} (dot : dotSegment segment = true) :
    dotted segment ∨ Str.contains "%2e".toList (Str.toAsciiLowercase segment) = true := by
  have literal : ∀ n, Str.toAsciiLowercase segment = List.replicate n '.' →
      segment = List.replicate n '.' := by
    intro n lower
    refine List.eq_replicate_iff.mpr ⟨by simpa [Str.toAsciiLowercase] using congrArg List.length lower,
      fun c member => ?_⟩
    have found := List.mem_map_of_mem (f := Char.toLower) member
    rw [← Str.toAsciiLowercase, lower] at found
    exact (Str.toLower_eq_iff (by decide)).mp (List.eq_of_mem_replicate found)
  simp only [dotSegment, decide_eq_true_eq, List.mem_cons, List.not_mem_nil, or_false] at dot
  rcases dot with one | lower | two | lower | lower | lower
  · exact .inl (.inl (literal 1 one))
  · rw [lower]
    exact .inr (by decide)
  · exact .inl (.inr (literal 2 two))
  all_goals
    rw [lower]
    exact .inr (by decide)

theorem kept_pathState {written : Str} (set : EncodeSet)
    (valid : canonicalPrefix (Str.trim written) = true)
    (named : ∀ segment ∈ (Str.trim written).splitOn '/', ¬dotted segment) :
    Kept written (pathState set (Str.trim written)) := by
  obtain ⟨path, plain⟩ := canonicalPrefix_plain valid
  refine ⟨named, ?_⟩
  obtain ⟨rest, same⟩ := List.head?_eq_some_iff.mp path.absolute
  have split : (Str.trim written).splitOn '/' = [] :: rest.splitOn '/' := by
    rw [same]
    exact List.splitOn_append_cons_self [] rest
  have kept : ∀ segment ∈ rest.splitOn '/', dotSegment (percentEncode set.encodes segment) = false := by
    intro segment member
    have inside : segment ∈ (Str.trim written).splitOn '/' := split ▸ List.mem_cons_of_mem _ member
    rw [← Bool.not_eq_true]
    intro dot
    rcases dotSegment_literal (dotSegment_percentEncode dot) with literal | encoded
    · exact named segment inside literal
    · rw [Str.contains, decide_eq_true_eq] at encoded
      have whole := encoded.trans ((Segments.segment_infix inside).map Char.toLower)
      rw [Str.contains, decide_eq_false_iff_not] at plain
      exact plain whole
  rw [pathState_segments fun c member => (path.characters c member).2.2.1, split, same, List.tail_cons,
    pathSteps_named kept, List.nil_append]
  refine .cons ⟨set.encodes, rfl⟩ ?_
  rw [List.forall₂_map_right_iff, List.forall₂_same]
  exact fun segment _ => ⟨set.encodes, rfl⟩

theorem allowPathPrefix_ok {crate : UrlCrate} {scope scope' : FetchScope} {written : Str} :
    scope.allowPathPrefix crate written = .ok scope' ↔ ∃ stored,
      normalizePathPrefix crate written = .ok stored ∧
      scope' = { scope with allowedPathPrefixes := insert stored scope.allowedPathPrefixes } := by
  constructor
  · intro ok
    obtain ⟨stored, normalized, ok⟩ := Checks.bind_ok ok
    cases ok
    exact ⟨stored, normalized, rfl⟩
  · rintro ⟨stored, normalized, rfl⟩
    rw [FetchScope.allowPathPrefix, normalized]
    rfl

section

variable {crate : UrlCrate} {set : EncodeSet} (parses : ParsesPrefixes crate set) {written : Str}

include parses in
theorem normalizePathPrefix_pathState (valid : canonicalPrefix (Str.trim written) = true) :
    normalizePathPrefix crate written = .ok (pathState set (Str.trim written)) := by
  obtain ⟨url, parsed, path⟩ := parses _ (canonicalPrefix_plain valid).1
  exact normalizePathPrefix_ok.mpr ⟨valid, url, parsed, path⟩

include parses in
theorem keepsPrefix_named
    (named : canonicalPrefix (Str.trim written) = true →
      ∀ segment ∈ (Str.trim written).splitOn '/', ¬dotted segment) : KeepsPrefix crate written := by
  have kept : ∀ stored, normalizePathPrefix crate written = .ok stored → Kept written stored := by
    intro stored normalized
    have valid := (normalizePathPrefix_ok.mp normalized).1
    rw [normalizePathPrefix_pathState parses valid, Except.ok.injEq] at normalized
    rw [← normalized]
    exact kept_pathState set valid (named valid)
  refine ⟨?_, ?_, ?_⟩
  · intro scope scope' ok
    obtain ⟨stored, normalized, same⟩ := allowPathPrefix_ok.mp ok
    exact ⟨stored, same, kept stored normalized⟩
  · intro scope scope' prefixes member ok
    obtain ⟨all, _, each, rfl⟩ := setAllowedPathPrefixes_ok ok
    obtain ⟨stored, found, normalized⟩ := forall₂_mem (mapM_ok each) member
    exact ⟨stored, List.mem_toFinset.mpr found, kept stored normalized⟩
  · rintro url parsed scope first rfl ok
    obtain ⟨again, _, _, stored, second, _, _, normalized, rfl⟩ := forUrl_ok ok
    rw [first, Except.ok.injEq] at second
    rw [← second] at normalized
    exact ⟨stored, rfl, kept stored normalized⟩

include parses in
/-- The first scope at hand takes the prefix, so it is not kept. -/
theorem not_keepsPrefix (valid : canonicalPrefix (Str.trim written) = true) {segment : Str}
    (member : segment ∈ (Str.trim written).splitOn '/') (dot : dotted segment) :
    ¬KeepsPrefix crate written := by
  intro keeps
  have normalized := normalizePathPrefix_pathState parses valid
  obtain ⟨_, _, kept⟩ := keeps.allowPathPrefix blogScope _
    (allowPathPrefix_ok.mpr ⟨_, normalized, rfl⟩)
  exact kept.named segment member dot

end

/-- A prefix is kept, wherever it is written, unless it passes the checks with a literal dot
segment. -/
theorem keepsPrefix_iff (crate : UrlCrate) (set : EncodeSet) (parses : ParsesPrefixes crate set)
    (written : Str) : KeepsPrefix crate written ↔
      ¬(canonicalPrefix (Str.trim written) = true ∧
        ∃ segment ∈ (Str.trim written).splitOn '/', dotted segment) := by
  constructor
  · rintro keeps ⟨valid, segment, member, dot⟩
    exact not_keepsPrefix parses valid member dot keeps
  · intro clean
    exact keepsPrefix_named parses fun valid segment member dot => clean ⟨valid, segment, member, dot⟩

/-- The path percent-encode set of the standard: with the space and what is not ASCII, the
characters with these codes. -/
def pathEncodes (c : Char) : Bool :=
  !decide (printable c) || c.toNat ∈ [34, 35, 60, 62, 63, 94, 96, 123, 125]

theorem pathEncodes_keeps (c : Char) (kept : pathEncodes c = false) :
    printable c ∧ c ≠ '?' ∧ c ≠ '#' := by
  simp only [pathEncodes, Bool.or_eq_false_iff, Bool.not_eq_false', decide_eq_true_eq,
    decide_eq_false_iff_not] at kept
  refine ⟨kept.1, ?_, ?_⟩ <;>
  · rintro rfl
    exact kept.2 (by decide)

theorem pathEncodes_spares : ∀ c ∈ '/' :: '.' :: encodingChars, pathEncodes c = false := by decide

def pathSet : EncodeSet := ⟨pathEncodes, pathEncodes_keeps, pathEncodes_spares⟩

theorem invalid_printable : ∀ c ∈ "scope.invalid".toList, printable c := by decide

/-- The crate on URLs of that host. -/
def scopeCrate : UrlCrate where
  parse s :=
    match Str.stripPrefix "https://scope.invalid".toList s with
    | none => .error "relative URL without a base".toList
    | some path =>
      if plain : ∀ c ∈ path, c ≠ '\\' then
        .ok (.https "scope.invalid".toList (pathState pathSet path) invalid_printable
          (pathState_printable plain) rfl (pathState_resolved plain))
      else .error "invalid domain character".toList
  join _ _ := .error "relative URL without a base".toList

theorem scopeCrate_parses : ParsesPrefixes scopeCrate pathSet := by
  intro path plainPath
  have plain : ∀ c ∈ path, c ≠ '\\' := fun c member => (plainPath.characters c member).2.2.1
  have front : Str.stripPrefix "https://scope.invalid".toList
      ("https://scope.invalid".toList ++ path) = some path := Str.stripPrefix_eq_some.mpr rfl
  refine ⟨.https "scope.invalid".toList (pathState pathSet path) invalid_printable
    (pathState_printable plain) rfl (pathState_resolved plain), ?_, rfl⟩
  simp only [scopeCrate, front]
  exact dif_pos plain

/-- The prefix that was to narrow the scope opens the whole host. -/
theorem keepsPrefix_dotdot : ParsesPrefixes scopeCrate pathSet ∧
    blogScope.allowPathPrefix scopeCrate "/blog/..".toList =
      .ok { blogScope with allowedPathPrefixes := insert "/".toList blogScope.allowedPathPrefixes } ∧
    ¬KeepsPrefix scopeCrate "/blog/..".toList := by
  have member : "..".toList ∈ (Str.trim "/blog/..".toList).splitOn '/' := by decide
  have normalized : normalizePathPrefix scopeCrate "/blog/..".toList = .ok "/".toList := by
    decide +kernel
  exact ⟨scopeCrate_parses, allowPathPrefix_ok.mpr ⟨_, normalized, rfl⟩,
    not_keepsPrefix scopeCrate_parses (by decide) member (.inr rfl)⟩

theorem keepsPrefix_iff_posts : KeepsPrefix scopeCrate "/blog/my posts".toList ↔
    ¬(canonicalPrefix (Str.trim "/blog/my posts".toList) = true ∧
      ∃ segment ∈ (Str.trim "/blog/my posts".toList).splitOn '/', dotted segment) :=
  keepsPrefix_iff scopeCrate pathSet scopeCrate_parses "/blog/my posts".toList

example : pathState pathSet "/blog/my posts/./".toList = "/blog/my%20posts/".toList := by decide +kernel

end EalSync.Ingestion
