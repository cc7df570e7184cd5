import EalSync.Ingestion.Policy

/-! src/ingestion/network/safety.rs: the URL of each hop and the addresses that it may go to. -/
namespace EalSync.Ingestion

/-- A socket address without the flow and scope fields, which are zero in a lookup answer. -/
structure SocketAddr where
  ip : IpAddr
  port : Nat
  deriving DecidableEq, Repr

namespace SocketAddr

def isIpv4 (x : SocketAddr) : Bool :=
  match x.ip with
  | .v4 _ => true
  | .v6 _ => false

/-- The derived order: IPv4 first, then octets, then port. -/
def key (x : SocketAddr) : List Nat :=
  match x.ip with
  | .v4 a => [0, a.a.toNat, a.b.toNat, a.c.toNat, a.d.toNat, x.port]
  | .v6 a => 1 :: (a.segments.map BitVec.toNat ++ [x.port])

def before (x y : SocketAddr) : Prop := x.key ≤ y.key

instance (x y : SocketAddr) : Decidable (before x y) := inferInstanceAs (Decidable (x.key ≤ y.key))

end SocketAddr

def isPublicIpv4 (x : Ipv4Addr) : Bool :=
  !((x.a == 0 || x.a == 10 || x.a == 127) ||
    (x.a == 100 && (64 ≤ x.b && x.b ≤ 127)) ||
    (x.a == 169 && x.b == 254) ||
    (x.a == 172 && (16 ≤ x.b && x.b ≤ 31)) ||
    (x.a == 192 && x.b == 0 && x.c == 0) ||
    (x.a == 192 && x.b == 0 && x.c == 2) ||
    (x.a == 192 && x.b == 88 && x.c == 99) ||
    (x.a == 192 && x.b == 168) ||
    (x.a == 198 && (x.b == 18 || x.b == 19)) ||
    (x.a == 198 && x.b == 51 && x.c == 100) ||
    (x.a == 203 && x.b == 0 && x.c == 113) ||
    224 ≤ x.a)

def isPublicIpv6 (x : Ipv6Addr) : Bool :=
  match x.toIpv4Mapped with
  | some mapped => isPublicIpv4 mapped
  | none =>
    let isGlobalUnicast := x.s0 &&& 0xe000 == 0x2000
    let isDocumentation := x.s0 == 0x2001 && x.s1 == 0x0db8
    isGlobalUnicast && !isDocumentation

def isPublicIp : IpAddr → Bool
  | .v4 x => isPublicIpv4 x
  | .v6 x => isPublicIpv6 x

def prepareTargetUrl (crate : UrlCrate) (input : Str) (scope : FetchScope) :
    Except IngestionError Url := do
  let url ← parseHttpUrl crate input
  if !scope.allowsUrl url then
    .error ⟨"out_of_scope", "host " ++ (url.hostStr.elim "None" fun host =>
      "Some(" ++ String.ofList (Str.debug host) ++ ")") ++ " is outside the registered source scope"⟩
  else .ok url

/-- The answer of lookup_host is a parameter. -/
def resolvePublicAddresses (lookup : Except Str (List SocketAddr)) :
    Except IngestionError (List SocketAddr) :=
  match lookup with
  | .error e => .error ⟨"dns_failed", "DNS lookup failed: " ++ String.ofList e⟩
  | .ok resolved =>
    let addresses := ((resolved.filter fun address => isPublicIp address.ip).dedup).insertionSort
      SocketAddr.before
    if addresses.isEmpty then
      .error ⟨"dns_no_public_address",
        "host resolved only to private, local, reserved, or documentation addresses"⟩
    else .ok addresses

theorem resolvePublicAddresses_ok {lookup : Except Str (List SocketAddr)} {addresses : List SocketAddr}
    (ok : resolvePublicAddresses lookup = .ok addresses) :
    ∃ resolved, lookup = .ok resolved ∧
      ∀ address ∈ addresses, address ∈ resolved ∧ isPublicIp address.ip = true := by
  unfold resolvePublicAddresses at ok
  split at ok
  · cases ok
  · rename_i resolved
    obtain ⟨_, ok⟩ := Checks.check_ok ok
    cases ok
    refine ⟨resolved, rfl, fun address member => ?_⟩
    rw [List.mem_insertionSort, List.mem_dedup] at member
    exact List.mem_filter.mp member

structure Target (scope : FetchScope) (url : Url) : Prop where
  scheme : url.scheme = "http".toList ∨ url.scheme = "https".toList
  username : url.username = []
  password : url.password = none
  inScope : scope.allowsUrl url = true

theorem parseHttpUrl_ok {crate : UrlCrate} {input : Str} {url : Url}
    (ok : parseHttpUrl crate input = .ok url) :
    (url.scheme = "http".toList ∨ url.scheme = "https".toList) ∧ url.username = [] ∧
      url.password = none := by
  unfold parseHttpUrl at ok
  split at ok
  · cases ok
  · obtain ⟨scheme, ok⟩ := Checks.check_ok ok
    obtain ⟨credentials, ok⟩ := Checks.check_ok ok
    obtain ⟨_, ok⟩ := Checks.check_ok ok
    cases ok
    simp only [Bool.or_eq_true, Bool.not_eq_true', not_or, Bool.not_eq_false, List.isEmpty_iff,
      Option.isSome_iff_ne_none, not_not] at credentials
    exact ⟨not_not.mp scheme, credentials⟩

theorem prepareTargetUrl_ok {crate : UrlCrate} {input : Str} {scope : FetchScope} {url : Url}
    (ok : prepareTargetUrl crate input scope = .ok url) : Target scope url := by
  obtain ⟨_, parsed, ok⟩ := Checks.bind_ok ok
  obtain ⟨allowed, ok⟩ := Checks.check_ok ok
  cases ok
  obtain ⟨scheme, username, password⟩ := parseHttpUrl_ok parsed
  exact ⟨scheme, username, password, by simpa using allowed⟩

example : isPublicIp (.v4 ⟨192, 0, 2, 1⟩) = false ∧ isPublicIp (.v4 ⟨1, 1, 1, 1⟩) = true := by decide
example : (["::1", "fc00::1", "fe80::1", "2001:db8::1", "2606:4700:4700::1111"].map fun address =>
    (IpAddr.parse address.toList).any isPublicIp) = [false, false, false, false, true] := by
  decide +kernel

end EalSync.Ingestion
