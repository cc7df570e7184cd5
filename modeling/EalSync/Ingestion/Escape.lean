import EalSync.Ingestion.Scope
import EalSync.Lib.DotSegments
import EalSync.Std.Percent

/-! The paths of URLs in scope as a server may read them: percent-decoded once, split at slashes
and backslashes, and with dot segments resolved. The scope compares the encoded path, so an
encoded separator behind an allowed prefix can lead out of it. -/
namespace EalSync.Ingestion

open Percent

def isSeparator (b : UInt8) : Bool := b == 47 || b == 92

def decodedSegments (s : Str) : List (List UInt8) :=
  (percentDecode (utf8Bytes s)).splitOnP isSeparator

def isDot (segment : List UInt8) : Bool := segment == [46]

def isDotDot (segment : List UInt8) : Bool := segment == [46, 46]

/-- The directory an absolute path leads to; its first segment is the empty one before the root. -/
def resolvedPath (path : Str) : List (List UInt8) :=
  DotSegments.walk isDotDot isDot [] (decodedSegments path).tail

/-- The resolved path lies under an allowed prefix, read in the same way. -/
def StaysInScope (scope : FetchScope) (url : Url) : Prop :=
  ∃ pathPrefix ∈ scope.allowedPathPrefixes,
    resolvedPath (Str.trimEndMatches '/' pathPrefix) <+: resolvedPath url.path

instance (scope : FetchScope) (url : Url) : Decidable (StaysInScope scope url) :=
  inferInstanceAs (Decidable (∃ pathPrefix ∈ scope.allowedPathPrefixes, _))

/-- The root, written as it is or with encodings, is an allowed prefix. -/
def RootAllowed (scope : FetchScope) : Prop :=
  ∃ pathPrefix ∈ scope.allowedPathPrefixes, resolvedPath (Str.trimEndMatches '/' pathPrefix) = []

theorem decodedSegments_slash (front back : Str) :
    decodedSegments (front ++ '/' :: back) = decodedSegments front ++ decodedSegments back := by
  have slash : utf8Bytes (front ++ '/' :: back) = utf8Bytes front ++ 47 :: utf8Bytes back := by
    simp [utf8Bytes]
    rfl
  rw [decodedSegments, slash, percentDecode_slash, List.splitOnP_append_cons _ _ rfl]
  rfl

/-- A path behind a prefix continues from where the prefix leads. -/
theorem resolvedPath_slash (front back : Str) :
    resolvedPath (front ++ '/' :: back) =
      DotSegments.walk isDotDot isDot (resolvedPath front) (decodedSegments back) := by
  have some : decodedSegments front ≠ [] := List.splitOnP_ne_nil _ _
  rw [resolvedPath, decodedSegments_slash, List.tail_append_of_ne_nil some, DotSegments.walk_append]
  rfl

/-- Without a step up among its decoded segments, an accepted path only goes on down from the prefix. -/
theorem stays_of_named {scope : FetchScope} {url : Url} (allowed : scope.allowsUrl url = true)
    (named : ∀ segment ∈ decodedSegments url.path, isDotDot segment = false) :
    StaysInScope scope url := by
  obtain ⟨_, _, _, _, _, _, pathPrefix, member, matched⟩ := (allowsUrl_eq_true scope url).mp allowed
  refine ⟨pathPrefix, member, ?_⟩
  rcases pathMatchesPrefix_cases.mp matched with rfl | same | ⟨rest, same⟩
  · exact List.nil_prefix
  · rw [same]
  · rw [same, decodedSegments_slash] at named
    have below : DotSegments.contained isDotDot isDot 0 (decodedSegments rest) = true :=
      DotSegments.contained_of_named (fun segment hs => named segment (List.mem_append_right _ hs)) 0
    have inside := DotSegments.prefix_walk (resolvedPath (Str.trimEndMatches '/' pathPrefix)) [] below
    rwa [List.append_nil, ← resolvedPath_slash, ← same] at inside

/-- Behind a boundary, as many encoded steps up as it is deep, and then a name. -/
def escapeTail (depth n : Nat) : Str :=
  (List.replicate depth "..%2f".toList).flatten ++ List.replicate n 'a'

theorem decodedSegments_up (rest : Str) :
    decodedSegments ("..%2f".toList ++ rest) = [46, 46] :: decodedSegments rest := by
  have bytes : utf8Bytes ("..%2f".toList ++ rest) = 46 :: 46 :: 37 :: 50 :: 102 :: utf8Bytes rest := by
    simp [utf8Bytes]
    rfl
  have decoded : percentDecode (utf8Bytes ("..%2f".toList ++ rest)) =
      [46, 46] ++ 47 :: percentDecode (utf8Bytes rest) := by
    rw [bytes, percentDecode_none (by decide), percentDecode_none (by decide),
      percentDecode_some (by decide : percentTriple 37 50 102 = some 47)]
    rfl
  rw [decodedSegments, decoded, List.splitOnP_append_cons _ _ rfl]
  rfl

theorem decodedSegments_name (n : Nat) :
    decodedSegments (List.replicate n 'a') = [List.replicate n 97] := by
  have bytes : utf8Bytes (List.replicate n 'a') = List.replicate n 97 := by
    rw [utf8Bytes_ascii fun c member => by rw [List.eq_of_mem_replicate member]; decide,
      List.map_replicate]
    rfl
  have literal : percentDecode (List.replicate n 97) = List.replicate n 97 := by
    apply percentDecode_literal
    rintro b _ ⟨x, y, z, inside, value⟩
    rw [List.eq_of_mem_replicate (inside.subset List.mem_cons_self)] at value
    exact absurd value (by simp [percentTriple])
  rw [decodedSegments, bytes, literal]
  exact List.splitOnP_eq_singleton fun b member => by rw [List.eq_of_mem_replicate member]; rfl

theorem resolvedPath_escape (boundary : Str) (n : Nat) :
    resolvedPath (boundary ++ '/' :: escapeTail (resolvedPath boundary).length n) =
      [List.replicate n 97] := by
  have segments : ∀ depth, decodedSegments (escapeTail depth n) =
      List.replicate depth [46, 46] ++ [List.replicate n 97] := by
    intro depth
    induction depth with
    | zero => exact decodedSegments_name n
    | succ depth ih =>
      have next : escapeTail (depth + 1) n = "..%2f".toList ++ escapeTail depth n := by
        simp [escapeTail, List.replicate_succ]
      rw [next, decodedSegments_up, ih]
      rfl
  have top : DotSegments.walk isDotDot isDot (resolvedPath boundary)
      (List.replicate (resolvedPath boundary).length [46, 46]) = [] :=
    DotSegments.walk_up (fun segment member => by rw [List.eq_of_mem_replicate member]; rfl)
      (by rw [List.length_replicate])
  have named : isDotDot (List.replicate n 97) = false ∧ isDot (List.replicate n 97) = false := by
    match n with
    | 0 => decide
    | 1 => decide
    | n + 2 => simp [isDotDot, isDot, List.replicate_succ]
  rw [resolvedPath_slash, segments, DotSegments.walk_append, top]
  simp [DotSegments.walk, DotSegments.step, named]

/-- The hostile path is one that the parser can return. -/
theorem escapeTail_segment {depth : Nat} (below : depth ≠ 0) (n : Nat) :
    (∀ c ∈ escapeTail depth n, printable c ∧ c ≠ '?' ∧ c ≠ '#' ∧ c ≠ '\\' ∧ c ≠ '/') ∧
      dotSegment (escapeTail depth n) = false := by
  constructor
  · intro c member
    simp only [escapeTail, List.mem_append, List.mem_flatten, List.mem_replicate] at member
    have one : c ∈ "..%2fa".toList := by
      rcases member with ⟨_, ⟨_, rfl⟩, inside⟩ | ⟨_, rfl⟩
      · exact List.mem_append_left ['a'] inside
      · decide
    have all : ∀ c ∈ "..%2fa".toList, printable c ∧ c ≠ '?' ∧ c ≠ '#' ∧ c ≠ '\\' ∧ c ≠ '/' := by
      decide
    exact all c one
  · obtain ⟨m, rfl⟩ := Nat.exists_eq_succ_of_ne_zero below
    have front : escapeTail (m + 1) n = '.' :: '.' :: '%' :: '2' :: 'f' :: escapeTail m n := by
      simp [escapeTail, List.replicate_succ]
    simp [front, dotSegment, Str.toAsciiLowercase]

/-- A URL whose path begins with the boundary can have any such tail behind it instead. -/
theorem replace_tail {url : Url} {boundary tail : Str}
    (begins : url.path = boundary ∨ ∃ rest, url.path = boundary ++ '/' :: rest)
    (plain : ∀ c ∈ tail, printable c ∧ c ≠ '?' ∧ c ≠ '#' ∧ c ≠ '\\' ∧ c ≠ '/')
    (named : dotSegment tail = false) :
    ∃ other : Url, other.scheme = url.scheme ∧ other.host = url.host ∧ other.port = url.port ∧
      other.path = boundary ++ '/' :: tail := by
  have front : boundary <+: url.path := by
    rcases begins with same | ⟨rest, same⟩
    · exact same ▸ List.prefix_rfl
    · exact same ▸ List.prefix_append ..
  have segments : boundary.splitOn '/' <+: url.path.splitOn '/' := Segments.prefix_iff.mpr begins
  refine ⟨{ url with
    path := boundary ++ '/' :: tail, pathPrintable := ?_, pathAbsolute := ?_, pathResolved := ?_ },
    rfl, rfl, rfl, rfl⟩
  · intro special c member
    rcases List.mem_append.mp member with inside | behind
    · exact url.pathPrintable special c (front.subset inside)
    · rcases List.mem_cons.mp behind with rfl | inside
      · decide
      · have one := plain c inside
        exact ⟨one.1, one.2.1, one.2.2.1, one.2.2.2.1⟩
  · intro special
    cases boundary with
    | nil => rfl
    | cons c more =>
      obtain ⟨rest, same⟩ := front
      have first := url.pathAbsolute special
      rw [← same] at first
      exact first
  · intro special segment found
    rw [List.splitOn_append_cons_self, List.splitOn_eq_singleton fun slash =>
      (plain '/' slash).2.2.2.2 rfl] at found
    rcases List.mem_append.mp found with inside | last
    · exact url.pathResolved special segment (segments.subset inside)
    · rw [List.mem_singleton.mp last]
      exact named

/-- Below the root, an accepted URL has others beside it whose paths lead out to a new name. -/
theorem escape_allowed {scope : FetchScope} {url : Url} (allowed : scope.allowsUrl url = true)
    (below : ∀ pathPrefix ∈ scope.allowedPathPrefixes,
      resolvedPath (Str.trimEndMatches '/' pathPrefix) ≠ []) (n : Nat) :
    ∃ other : Url, scope.allowsUrl other = true ∧ resolvedPath other.path = [List.replicate n 97] := by
  obtain ⟨host, name, rendered, normalized, hostIn, port, pathPrefix, member, matched⟩ :=
    (allowsUrl_eq_true scope url).mp allowed
  have deep := below pathPrefix member
  rcases pathMatchesPrefix_cases.mp matched with rfl | begins
  · exact absurd rfl deep
  · obtain ⟨plain, named⟩ := escapeTail_segment (deep ∘ List.length_eq_zero_iff.mp) n
    obtain ⟨other, scheme, sameHost, samePort, path⟩ := replace_tail begins plain named
    refine ⟨other, ?_, by rw [path, resolvedPath_escape]⟩
    refine (allowsUrl_eq_true scope other).mpr ⟨host, name, ?_, normalized, hostIn, ?_, pathPrefix,
      member, pathMatchesPrefix_cases.mpr (.inr (.inr ⟨_, path⟩))⟩
    · rw [Url.hostStr, sameHost]
      exact rendered
    · rw [usesDefaultPort, scheme, samePort]
      exact port

/-- For every scope that accepts a URL: all that it accepts stay in scope just when the root is
allowed, and the URL stays if no segment of its decoded path is a step up. -/
theorem path_scope_kept (scope : FetchScope) (url : Url) (allowed : scope.allowsUrl url = true) :
    ((∀ other, scope.allowsUrl other = true → StaysInScope scope other) ↔ RootAllowed scope) ∧
      ((∀ segment ∈ decodedSegments url.path, isDotDot segment = false) → StaysInScope scope url) := by
  refine ⟨⟨fun kept => ?_, ?_⟩, stays_of_named allowed⟩
  · by_contra below
    simp only [RootAllowed, not_exists, not_and] at below
    -- a name that is the whole of no allowed prefix
    obtain ⟨n, fresh⟩ := Infinite.exists_notMem_finset (scope.allowedPathPrefixes.image fun pathPrefix =>
      (resolvedPath (Str.trimEndMatches '/' pathPrefix)).flatten.length)
    obtain ⟨other, accepted, path⟩ := escape_allowed allowed below n
    obtain ⟨pathPrefix, found, inside⟩ := kept other accepted
    rw [path] at inside
    have same := inside.eq_of_length_le (List.length_pos_iff.mpr (below pathPrefix found))
    exact fresh (Finset.mem_image.mpr ⟨pathPrefix, found, by simp [same]⟩)
  · rintro ⟨pathPrefix, member, root⟩ url _
    exact ⟨pathPrefix, member, root ▸ List.nil_prefix⟩

/-- An encoded dot and an encoded slash that lead nowhere else. -/
def versionUrl : Url :=
  .https "example.com".toList "/blog/v1%2e0%2fnotes".toList example_printable (by decide) rfl (by decide)

theorem path_scope_kept_version :
    ((∀ other, blogScope.allowsUrl other = true → StaysInScope blogScope other) ↔
        RootAllowed blogScope) ∧
      StaysInScope blogScope versionUrl :=
  have kept := path_scope_kept blogScope versionUrl (by decide +kernel)
  ⟨kept.1, kept.2 (by decide +kernel)⟩

/-- One encoded slash behind the allowed prefix leads to a sibling of it. -/
def adminUrl : Url :=
  .https "example.com".toList "/blog/..%2fadmin".toList example_printable (by decide) rfl (by decide)

/-- False even of the scopes that a caller can build. -/
theorem path_scope_escaped : ¬∀ (crate : UrlCrate) (scope : FetchScope), Built crate scope →
    ∀ url, scope.allowsUrl url = true → StaysInScope scope url :=
  fun kept => absurd (kept blogCrate blogScope blogScope_built adminUrl (by decide +kernel))
    (by decide +kernel)

end EalSync.Ingestion
