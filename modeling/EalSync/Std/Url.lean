import EalSync.Std.IpAddr

/-! The values of the url crate. The crate itself is outside the repository: its parser and its
resolution of relative references are the functions of a UrlCrate, arbitrary except that a Url
they return is well formed. That is recorded in the fields of Url, so no other value exists. -/
namespace EalSync

inductive Host where
  | domain (name : Str)
  | ipv4 (address : Ipv4Addr)
  | ipv6 (address : Ipv6Addr)
  deriving DecidableEq, Repr

namespace Host

def hex (n : Nat) : Str := Nat.toDigits 16 n

/-- The first longest run of at least two zero segments, as its bounds. -/
def longestZeroSequence (segments : List (BitVec 16)) : Option (Nat × Nat) :=
  let runs := (List.range 8).map fun i => (i, ((segments.drop i).takeWhile (· == 0)).length)
  let best := runs.foldl (fun best r => if best.2 < r.2 then r else best) (0, 0)
  if best.2 < 2 then none else some (best.1, best.1 + best.2)

def writeIpv6 (x : Ipv6Addr) : Str :=
  let groups := x.segments.map fun s => hex s.toNat
  match longestZeroSequence x.segments with
  | none => [':'].intercalate groups
  | some (start, stop) =>
    [':'].intercalate (groups.take start) ++ "::".toList ++ [':'].intercalate (groups.drop stop)

/-- Url::host_str of a URL with this host. -/
def render : Host → Str
  | domain name => name
  | ipv4 x => x.render
  | ipv6 x => '[' :: writeIpv6 x ++ [']']

end Host

def printable (c : Char) : Prop := 33 ≤ c.toNat ∧ c.toNat ≤ 126

instance (c : Char) : Decidable (printable c) := inferInstanceAs (Decidable (_ ∧ _))

theorem alphanumeric_printable {c : Char} (h : Str.isAsciiAlphanumeric c = true) : printable c := by
  simp only [Str.isAsciiAlphanumeric, Char.isAlphanum, Char.isAlpha, Char.isUpper, Char.isLower,
    Char.isDigit, Bool.or_eq_true, Bool.and_eq_true, decide_eq_true_eq] at h
  rcases h with (⟨low, high⟩ | ⟨low, high⟩) | ⟨low, high⟩ <;>
  · rw [ge_iff_le, UInt32.le_iff_toNat_le] at low
    rw [UInt32.le_iff_toNat_le] at high
    exact ⟨le_trans (by decide) low, le_trans high (by decide)⟩

theorem printable_not_whitespace {c : Char} (h : printable c) : Str.isWhitespace c = false := by
  simp only [printable] at h
  simp only [Str.isWhitespace, Bool.or_eq_false_iff, Bool.and_eq_false_iff, decide_eq_false_iff_not,
    beq_eq_false_iff_ne]
  omega

def specialScheme (scheme : Str) : Bool :=
  scheme ∈ ["http".toList, "https".toList, "ws".toList, "wss".toList, "ftp".toList, "file".toList]

/-- The path segments that the parser resolves. -/
def dotSegment (segment : Str) : Bool :=
  Str.toAsciiLowercase segment ∈ [".".toList, "%2e".toList, "..".toList, ".%2e".toList,
    "%2e.".toList, "%2e%2e".toList]

/-- A parsed URL. A host and the path of a special scheme are printable ASCII; such a path is
absolute and has neither dot segments, nor a backslash, which the parser turns into a slash, nor
a delimiter of the components after it. The port is absent when it is the default of the scheme. -/
structure Url where
  scheme : Str
  username : Str
  password : Option Str
  host : Option Host
  port : Option Nat
  path : Str
  query : Option Str
  fragment : Option Str
  hostPrintable : ∀ h, host = some h → ∀ c ∈ h.render, printable c
  pathPrintable : specialScheme scheme = true →
    ∀ c ∈ path, printable c ∧ c ≠ '?' ∧ c ≠ '#' ∧ c ≠ '\\'
  pathAbsolute : specialScheme scheme = true → path.head? = some '/'
  pathResolved : specialScheme scheme = true →
    ∀ segment ∈ path.splitOn '/', dotSegment segment = false
  deriving DecidableEq

namespace Url

def hostStr (u : Url) : Option Str := u.host.map Host.render

/-- Url::set_fragment(None). -/
def clearFragment (u : Url) : Url := { u with fragment := none }

def asStr (u : Url) : Str :=
  let credentials :=
    if u.username.isEmpty && u.password.isNone then []
    else u.username ++ (u.password.elim [] (':' :: ·)) ++ ['@']
  let authority := u.hostStr.elim [] fun host =>
    "//".toList ++ credentials ++ host ++ u.port.elim [] fun port => ':' :: decimal port
  u.scheme ++ ':' :: authority ++ u.path ++ u.query.elim [] ('?' :: ·) ++
    u.fragment.elim [] ('#' :: ·)

def portOrKnownDefault (u : Url) : Option Nat :=
  u.port.or (
    if u.scheme = "http".toList ∨ u.scheme = "ws".toList then some 80
    else if u.scheme = "https".toList ∨ u.scheme = "wss".toList then some 443
    else if u.scheme = "ftp".toList then some 21
    else none)

theorem hostStr_solid {u : Url} {host : Str} (h : u.hostStr = some host) :
    ∀ c ∈ host, Str.isWhitespace c = false := by
  simp only [hostStr, Option.map_eq_some_iff] at h
  obtain ⟨value, hv, rfl⟩ := h
  exact fun c hc => printable_not_whitespace (u.hostPrintable value hv c hc)

end Url

def Url.https (name path : Str) (hostPrintable : ∀ c ∈ name, printable c)
    (pathPrintable : ∀ c ∈ path, printable c ∧ c ≠ '?' ∧ c ≠ '#' ∧ c ≠ '\\')
    (pathAbsolute : path.head? = some '/')
    (pathResolved : ∀ segment ∈ path.splitOn '/', dotSegment segment = false) : Url where
  scheme := "https".toList
  username := []
  password := none
  host := some (.domain name)
  port := none
  path := path
  query := none
  fragment := none
  hostPrintable := by rintro h ⟨⟩; exact hostPrintable
  pathPrintable _ := pathPrintable
  pathAbsolute _ := pathAbsolute
  pathResolved _ := pathResolved

/-- Url::parse and Url::join; an error is the text of the crate's ParseError. -/
structure UrlCrate where
  parse : Str → Except Str Url
  join : Url → Str → Except Str Url

end EalSync
