import EalSync.Runtime.Types

/-! Which local hosts the check on crawl URLs lets through. It parses the text of the host, in
which an IPv6 address stands in brackets, and compares names as they are written. -/
namespace EalSync.Runtime

/-- localhost or a name under it, in any letter case. -/
def LocalName (name : Str) : Prop :=
  Str.toAsciiLowercase name = "localhost".toList ∨
    ".localhost".toList <:+ Str.toAsciiLowercase name

/-- A local address or a local name, with or without a trailing dot. -/
inductive LocalHost : Host → Prop where
  | ipv4 (x : Ipv4Addr) : isNonPublicIp (.v4 x) = true → LocalHost (.ipv4 x)
  | ipv6 (x : Ipv6Addr) : isNonPublicIp (.v6 x) = true → LocalHost (.ipv6 x)
  | name (name : Str) : LocalName name → LocalHost (.domain name)
  | dotted (name : Str) : LocalName name → LocalHost (.domain (name ++ ['.']))

/-- The local hosts that the check does not recognize. -/
inductive Missed : Host → Prop where
  | ipv6 (x : Ipv6Addr) : isNonPublicIp (.v6 x) = true → Missed (.ipv6 x)
  | cased (name : Str) : ".localhost".toList <:+ Str.toAsciiLowercase name →
      ¬".localhost".toList <:+ name → Missed (.domain name)
  | dotted (name : Str) : LocalName name → Missed (.domain (name ++ ['.']))

theorem addressChar_lower {c : Char} (allowed : IpAddr.addressChar c = true) : c.toLower ≠ 'l' := by
  have each : ∀ n < 128, IpAddr.addressChar (Char.ofNat n) = true → (Char.ofNat n).toLower ≠ 'l' := by
    decide +kernel
  have ascii : c.toNat < 128 := by
    simp only [IpAddr.addressChar, Bool.or_eq_true, beq_iff_eq, Option.isSome_iff_exists] at allowed
    rcases allowed with (⟨d, digit⟩ | rfl) | rfl
    · unfold IpAddr.toDigit at digit
      grind
    · decide
    · decide
  have same := each c.toNat ascii
  rw [Char.ofNat_toNat] at same
  exact same allowed

/-- No local name is an address. -/
theorem LocalName.unparsed {name : Str} (isLocal : LocalName name) (rest : Str) :
    IpAddr.parse (name ++ rest) = none := by
  have letter : 'l' ∈ Str.toAsciiLowercase name := by
    rcases isLocal with whole | under
    · rw [whole]
      decide
    · exact under.subset (by decide)
  obtain ⟨c, member, lower⟩ := List.mem_map.mp letter
  cases parsed : IpAddr.parse (name ++ rest) with
  | none => rfl
  | some x =>
    have allowed := IpAddr.parse_alphabet parsed c (List.mem_append_left _ member)
    exact absurd lower (addressChar_lower allowed)

theorem bracketed_unparsed (text : Str) : IpAddr.parse ('[' :: text) = none := by
  cases parsed : IpAddr.parse ('[' :: text) with
  | none => rfl
  | some x => exact absurd (IpAddr.parse_alphabet parsed '[' List.mem_cons_self) (by decide)

/-- The test on the host text. -/
def nonPublicHost (host : Str) : Bool :=
  Str.eqIgnoreAsciiCase host "localhost".toList || Str.endsWith ".localhost".toList host ||
    (IpAddr.parse host).any isNonPublicIp

theorem nonPublicHost_eq_false {host : Str} : nonPublicHost host = false ↔
    Str.toAsciiLowercase host ≠ "localhost".toList ∧ ¬".localhost".toList <:+ host ∧
      ∀ x, IpAddr.parse host = some x → ¬isNonPublicIp x = true := by
  have lower : Str.toAsciiLowercase "localhost".toList = "localhost".toList := by decide
  rw [← Bool.not_eq_true]
  simp only [nonPublicHost, Str.eqIgnoreAsciiCase, lower, Bool.or_eq_true, beq_iff_eq, not_or,
    Str.endsWith, List.isSuffixOf_iff_suffix, and_assoc, ne_eq, Option.any_eq_true, not_exists, not_and]

/-- A text that does not end in a t is neither localhost nor a name under it. -/
theorem unmatched {front : Str} {last : Char} (other : last.toLower ≠ 't') :
    Str.toAsciiLowercase (front ++ [last]) ≠ "localhost".toList ∧
      ¬".localhost".toList <:+ front ++ [last] := by
  constructor
  · intro same
    have ends := congrArg List.getLast? same
    rw [Str.toAsciiLowercase, List.map_append, List.map_singleton, List.getLast?_concat] at ends
    exact other (Option.some.inj ends)
  · rintro ⟨before, same⟩
    have ends := congrArg List.getLast? same
    rw [List.getLast?_concat, List.getLast?_append] at ends
    have t := Option.some.inj ends
    rw [← t] at other
    exact other rfl

theorem localHost_unseen {host : Host} (isLocal : LocalHost host) :
    nonPublicHost host.render = false ↔ Missed host := by
  rw [nonPublicHost_eq_false]
  constructor
  · rintro ⟨notWhole, notUnder, notAddress⟩
    cases isLocal with
    | ipv4 x refused => exact absurd refused (notAddress (.v4 x) (IpAddr.parse_render x))
    | ipv6 x refused => exact .ipv6 x refused
    | name name isLocal =>
      rcases isLocal with whole | under
      · exact absurd whole notWhole
      · exact .cased name under notUnder
    | dotted name isLocal => exact .dotted name isLocal
  · rintro (⟨x, refused⟩ | ⟨name, under, notUnder⟩ | ⟨name, named⟩)
    · obtain ⟨notWhole, notUnder⟩ := @unmatched ('[' :: Host.writeIpv6 x) ']' (by decide)
      refine ⟨notWhole, notUnder, fun y parsed => ?_⟩
      rw [Host.render, List.cons_append, bracketed_unparsed] at parsed
      cases parsed
    · refine ⟨fun whole => ?_, notUnder, fun y parsed => ?_⟩
      · have shorter := under.length_le
        rw [Host.render] at whole
        rw [whole] at shorter
        exact absurd shorter (by decide)
      · have none := LocalName.unparsed (.inr under) []
        rw [List.append_nil] at none
        rw [Host.render, none] at parsed
        cases parsed
    · obtain ⟨notWhole, notUnder⟩ := @unmatched name '.' (by decide)
      refine ⟨notWhole, notUnder, fun y parsed => ?_⟩
      rw [Host.render, named.unparsed] at parsed
      cases parsed

theorem Missed.local {host : Host} (missed : Missed host) : LocalHost host := by
  cases missed with
  | ipv6 x refused => exact .ipv6 x refused
  | cased name under _ => exact .name name (.inr under)
  | dotted name isLocal => exact .dotted name isLocal

/-- What is checked before the host. -/
structure PlainHttps (url : Url) : Prop where
  scheme : url.scheme = "https".toList
  username : url.username = []
  password : url.password = none
  fragment : url.fragment = none

theorem validatePublicHttpsUrl_ok {crate : UrlCrate} {value : Str} {url : Url} :
    validatePublicHttpsUrl crate value = .ok url ↔ crate.parse value = .ok url ∧ PlainHttps url ∧
      ∃ host, url.host = some host ∧ nonPublicHost host.render = false := by
  unfold validatePublicHttpsUrl
  cases crate.parse value with
  | error e =>
    constructor
    · intro accepted
      cases accepted
    · rintro ⟨impossible, _⟩
      cases impossible
  | ok parsed =>
    dsimp only
    constructor
    · intro accepted
      obtain ⟨https, accepted⟩ := Checks.check_ok accepted
      obtain ⟨bare, accepted⟩ := Checks.check_ok accepted
      simp only [Bool.or_eq_true, Bool.not_eq_true', not_or, Bool.not_eq_false, List.isEmpty_iff,
        Option.isSome_iff_ne_none, not_not] at bare
      split at accepted
      · cases accepted
      · rename_i text rendered
        obtain ⟨host, found, rfl⟩ := Option.map_eq_some_iff.mp rendered
        obtain ⟨passed, accepted⟩ := Checks.check_ok accepted
        cases accepted
        exact ⟨rfl, ⟨not_not.mp https, bare.1.1, bare.1.2, bare.2⟩, host, found,
          by simpa only [nonPublicHost, Bool.not_eq_true] using passed⟩
    · rintro ⟨same, plain, host, found, passed⟩
      obtain rfl := Except.ok.inj same
      have rendered : parsed.hostStr = some host.render := by rw [Url.hostStr, found, Option.map_some]
      have bare : (!parsed.username.isEmpty || parsed.password.isSome || parsed.fragment.isSome) =
          false := by
        rw [plain.username, plain.password, plain.fragment]
        rfl
      rw [nonPublicHost] at passed
      rw [if_neg (not_not.mpr plain.scheme), bare, if_neg Bool.false_ne_true, rendered]
      dsimp only
      rw [passed, if_neg Bool.false_ne_true]

theorem validatePublicHttpsUrl_public_iff (crate : UrlCrate) (value : Str) :
    (∀ url, validatePublicHttpsUrl crate value = .ok url →
      ∀ host, url.host = some host → ¬LocalHost host) ↔
    ∀ url, crate.parse value = .ok url → PlainHttps url →
      ∀ host, url.host = some host → ¬Missed host := by
  simp only [validatePublicHttpsUrl_ok]
  constructor
  · intro isPublic url parsed plain host found missed
    exact isPublic url ⟨parsed, plain, host, found, (localHost_unseen missed.local).mpr missed⟩
      host found missed.local
  · rintro seen url ⟨parsed, plain, host, found, passed⟩ host' found' isLocal
    obtain rfl := Option.some.inj (found.symm.trans found')
    exact seen url parsed plain host found ((localHost_unseen isLocal).mp passed)

theorem docs_printable : ∀ c ∈ "docs.example.com".toList, printable c := by decide

theorem root_printable : ∀ c ∈ ['/'], printable c ∧ c ≠ '?' ∧ c ≠ '#' ∧ c ≠ '\\' := by decide

theorem root_resolved : ∀ segment ∈ ['/'].splitOn '/', dotSegment segment = false := by decide

/-- https://host/ -/
def rootUrl (host : Host) (hostPrintable : ∀ c ∈ host.render, printable c) : Url :=
  { Url.https "docs.example.com".toList ['/'] docs_printable root_printable rfl root_resolved with
    host := some host
    hostPrintable := fun _ same c member => hostPrintable c (Option.some.inj same ▸ member) }

/-- The crate on an IPv6 loopback address and on localhost with a trailing dot. -/
def loopbackCrate : UrlCrate where
  parse s :=
    if s = "https://[::1]/".toList then .ok (rootUrl (.ipv6 ⟨0, 0, 0, 0, 0, 0, 0, 1⟩) (by decide))
    else if s = "https://localhost./".toList then
      .ok (rootUrl (.domain "localhost.".toList) (by decide))
    else .error "relative URL without a base".toList
  join base _ := .ok base

theorem validatePublicHttpsUrl_local : ["https://[::1]/".toList, "https://localhost./".toList].Forall
    fun value => ∃ url host, validatePublicHttpsUrl loopbackCrate value = .ok url ∧
      url.host = some host ∧ LocalHost host := by
  refine ⟨⟨rootUrl (.ipv6 ⟨0, 0, 0, 0, 0, 0, 0, 1⟩) (by decide), _, by decide +kernel, rfl, ?_⟩,
    ⟨rootUrl (.domain "localhost.".toList) (by decide), _, by decide +kernel, rfl, ?_⟩⟩
  · exact .ipv6 _ (by decide)
  · exact .dotted "localhost".toList (.inl (by decide))

end EalSync.Runtime
