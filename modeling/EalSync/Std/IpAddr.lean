import EalSync.Std.Str

/-! std::net addresses: the octets and segments, the classification methods that the sources
call, and the parser behind str::parse. Octets and segments are the u8 and u16 of Rust. -/
namespace EalSync

structure Ipv4Addr where
  a : BitVec 8
  b : BitVec 8
  c : BitVec 8
  d : BitVec 8
  deriving DecidableEq, Repr

structure Ipv6Addr where
  s0 : BitVec 16
  s1 : BitVec 16
  s2 : BitVec 16
  s3 : BitVec 16
  s4 : BitVec 16
  s5 : BitVec 16
  s6 : BitVec 16
  s7 : BitVec 16
  deriving DecidableEq, Repr

inductive IpAddr where
  | v4 (address : Ipv4Addr)
  | v6 (address : Ipv6Addr)
  deriving DecidableEq, Repr

namespace Ipv4Addr

def isUnspecified (x : Ipv4Addr) : Bool := x.a == 0 && x.b == 0 && x.c == 0 && x.d == 0

def isLoopback (x : Ipv4Addr) : Bool := x.a == 127

def isPrivate (x : Ipv4Addr) : Bool :=
  x.a == 10 || (x.a == 172 && (16 ≤ x.b && x.b ≤ 31)) || (x.a == 192 && x.b == 168)

def isLinkLocal (x : Ipv4Addr) : Bool := x.a == 169 && x.b == 254

def isBroadcast (x : Ipv4Addr) : Bool := x.a == 255 && x.b == 255 && x.c == 255 && x.d == 255

def isDocumentation (x : Ipv4Addr) : Bool :=
  (x.a == 192 && x.b == 0 && x.c == 2) || (x.a == 198 && x.b == 51 && x.c == 100) ||
    (x.a == 203 && x.b == 0 && x.c == 113)

end Ipv4Addr

namespace Ipv6Addr

def segments (x : Ipv6Addr) : List (BitVec 16) := [x.s0, x.s1, x.s2, x.s3, x.s4, x.s5, x.s6, x.s7]

def ofSegments : List (BitVec 16) → Option Ipv6Addr
  | [s0, s1, s2, s3, s4, s5, s6, s7] => some ⟨s0, s1, s2, s3, s4, s5, s6, s7⟩
  | _ => none

def isUnspecified (x : Ipv6Addr) : Bool := x.segments.all (· == 0)

def isLoopback (x : Ipv6Addr) : Bool := (x.segments.take 7).all (· == 0) && x.s7 == 1

def isUniqueLocal (x : Ipv6Addr) : Bool := x.s0 &&& 0xfe00 == 0xfc00

def isUnicastLinkLocal (x : Ipv6Addr) : Bool := x.s0 &&& 0xffc0 == 0xfe80

def toIpv4Mapped (x : Ipv6Addr) : Option Ipv4Addr :=
  if (x.segments.take 5).all (· == 0) && x.s5 == 0xffff then
    some ⟨x.s6.extractLsb' 8 8, x.s6.extractLsb' 0 8, x.s7.extractLsb' 8 8, x.s7.extractLsb' 0 8⟩
  else none

end Ipv6Addr

namespace IpAddr

def toDigit (radix : Nat) (c : Char) : Option Nat :=
  let n := c.toNat
  let value :=
    if 48 ≤ n ∧ n ≤ 57 then some (n - 48)
    else if 97 ≤ n ∧ n ≤ 122 then some (n - 87)
    else if 65 ≤ n ∧ n ≤ 90 then some (n - 55)
    else none
  value.filter (· < radix)

def readDigits (radix : Nat) : Str → List Nat × Str
  | [] => ([], [])
  | c :: rest =>
    match toDigit radix c with
    | some d => let tail := readDigits radix rest; (d :: tail.1, tail.2)
    | none => ([], c :: rest)

/-- The run of digits ends the number; too many of them, none, or a leading zero where the
caller forbids one make it fail. -/
def readNumber (radix maxDigits : Nat) (allowZeroPrefix : Bool) (s : Str) : Option (Nat × Str) :=
  let (digits, rest) := readDigits radix s
  if digits.length > maxDigits then none
  else if digits.length = 0 then none
  else if !allowZeroPrefix && digits.head? == some 0 && digits.length > 1 then none
  else some (digits.foldl (fun n d => n * radix + d) 0, rest)

def readGivenChar (c : Char) : Str → Option Str
  | [] => none
  | x :: rest => if x = c then some rest else none

def readOctet (s : Str) : Option (BitVec 8 × Str) := do
  let (n, rest) ← readNumber 10 3 false s
  if n < 256 then some (BitVec.ofNat 8 n, rest) else none

def readIpv4Addr (s : Str) : Option (Ipv4Addr × Str) := do
  let (a, s) ← readOctet s
  let (b, s) ← (readGivenChar '.' s).bind readOctet
  let (c, s) ← (readGivenChar '.' s).bind readOctet
  let (d, s) ← (readGivenChar '.' s).bind readOctet
  some (⟨a, b, c, d⟩, s)

/-- Up to k more of limit groups; an embedded IPv4 address needs two and ends the series. -/
def readGroups (limit : Nat) : Nat → Str → List (BitVec 16) × Bool × Str
  | 0, s => ([], false, s)
  | k + 1, s =>
    let separated := if k + 1 = limit then some s else readGivenChar ':' s
    match if k = 0 then none else separated.bind readIpv4Addr with
    | some (quad, rest) => ([quad.a ++ quad.b, quad.c ++ quad.d], true, rest)
    | none =>
      match separated.bind (readNumber 16 4 true) with
      | some (g, rest) =>
        let (groups, embedded, rest) := readGroups limit k rest
        (BitVec.ofNat 16 g :: groups, embedded, rest)
      | none => ([], false, s)

def readIpv6Addr (s : Str) : Option (Ipv6Addr × Str) := do
  let (head, embedded, s) := readGroups 8 8 s
  if head.length = 8 then (Ipv6Addr.ofSegments head).map (·, s)
  else if embedded then none
  else do
    let s ← (readGivenChar ':' s).bind (readGivenChar ':')
    let limit := 8 - (head.length + 1)
    let (tail, _, s) := readGroups limit limit s
    (Ipv6Addr.ofSegments (head ++ List.replicate (8 - head.length - tail.length) 0 ++ tail)).map (·, s)

/-- str::parse::<IpAddr>: an address with nothing after it. -/
def parse (s : Str) : Option IpAddr :=
  match ((readIpv4Addr s).map fun (x, rest) => (v4 x, rest)).or
      ((readIpv6Addr s).map fun (x, rest) => (v6 x, rest)) with
  | some (x, []) => some x
  | _ => none

end IpAddr

def decimal (n : Nat) : Str := (Nat.repr n).toList

def Ipv4Addr.render (x : Ipv4Addr) : Str :=
  decimal x.a.toNat ++ '.' :: decimal x.b.toNat ++ '.' :: decimal x.c.toNat ++
    '.' :: decimal x.d.toNat

namespace IpAddr

theorem decimal_digits : ∀ n < 256, let ds := (decimal n).map (fun c => c.toNat - 48)
    (decimal n).map (toDigit 10) = ds.map some ∧ ds.length ≠ 0 ∧ ds.length ≤ 3 ∧
      (ds.head? = some 0 → ds.length = 1) ∧ ds.foldl (fun n d => n * 10 + d) 0 = n := by
  decide +kernel

theorem readDigits_append (radix : Nat) {digits : Str} {ds : List Nat} (rest : Str)
    (read : digits.map (toDigit radix) = ds.map some)
    (stop : ∀ c, rest.head? = some c → toDigit radix c = none) :
    readDigits radix (digits ++ rest) = (ds, rest) := by
  induction digits generalizing ds with
  | nil =>
    cases ds with
    | cons d ds => simp at read
    | nil =>
      cases rest with
      | nil => rfl
      | cons c rest => simp [readDigits, stop c rfl]
  | cons c digits ih =>
    cases ds with
    | nil => simp at read
    | cons d ds =>
      simp only [List.map_cons, List.cons.injEq] at read
      simp [readDigits, read.1, ih read.2]

theorem readOctet_decimal (n : BitVec 8) (rest : Str)
    (stop : ∀ c, rest.head? = some c → toDigit 10 c = none) :
    readOctet (decimal n.toNat ++ rest) = some (n, rest) := by
  obtain ⟨read, some, few, zero, value⟩ := decimal_digits n.toNat n.isLt
  have digits := readDigits_append 10 rest read stop
  simp only [readOctet, readNumber, digits, if_neg (Nat.not_lt.mpr few), if_neg some, value]
  split
  · rename_i leading
    simp only [Bool.not_false, Bool.true_and, Bool.and_eq_true, beq_iff_eq,
      decide_eq_true_eq] at leading
    have one := zero leading.1
    omega
  · simp [n.isLt]

theorem readIpv4Addr_render (x : Ipv4Addr) : readIpv4Addr x.render = some (x, []) := by
  have dot : ∀ rest c, ('.' :: rest : Str).head? = some c → toDigit 10 c = none := by
    intro rest c h
    cases h
    decide
  have last := readOctet_decimal x.d [] (by simp)
  rw [List.append_nil] at last
  simp only [readIpv4Addr, Ipv4Addr.render, List.append_assoc, List.cons_append,
    readOctet_decimal _ _ (dot _), readGivenChar, Option.bind_eq_bind, Option.bind_some,
    if_true, last]

theorem parse_render (x : Ipv4Addr) : parse x.render = some (.v4 x) := by
  simp [parse, readIpv4Addr_render]

example : parse "::ffff:1.2.3.4".toList = some (.v6 ⟨0, 0, 0, 0, 0, 0xffff, 0x0102, 0x0304⟩) := by decide
example : parse "2001:db8::1".toList = some (.v6 ⟨0x2001, 0xdb8, 0, 0, 0, 0, 0, 1⟩) := by decide
example : parse "01.2.3.4".toList = none := by decide

def addressChar (c : Char) : Bool := (toDigit 16 c).isSome || c == '.' || c == ':'

/-- The rest after a reader has consumed characters of addresses only. -/
def Reads (s rest : Str) : Prop := ∃ front, s = front ++ rest ∧ ∀ c ∈ front, addressChar c = true

theorem Reads.refl (s : Str) : Reads s s := ⟨[], rfl, by simp⟩

theorem Reads.trans {s t u : Str} (one : Reads s t) (two : Reads t u) : Reads s u := by
  obtain ⟨front, rfl, allowed⟩ := one
  obtain ⟨more, rfl, allowed'⟩ := two
  refine ⟨front ++ more, (List.append_assoc ..).symm, fun c hc => ?_⟩
  rcases List.mem_append.mp hc with here | there
  · exact allowed c here
  · exact allowed' c there

theorem reads_cons {c : Char} {s rest : Str} (allowed : addressChar c = true) (later : Reads s rest) :
    Reads (c :: s) rest :=
  Reads.trans ⟨[c], rfl, by simpa using allowed⟩ later

theorem toDigit_address {radix : Nat} {c : Char} {d : Nat} (le : radix ≤ 16)
    (digit : toDigit radix c = some d) : addressChar c = true := by
  unfold toDigit at digit
  obtain ⟨found, small⟩ := Option.filter_eq_some_iff.mp digit
  have wide : toDigit 16 c = some d := by
    refine Option.filter_eq_some_iff.mpr ⟨found, ?_⟩
    simp only [decide_eq_true_eq] at small ⊢
    omega
  simp [addressChar, wide]

theorem readDigits_reads {radix : Nat} (le : radix ≤ 16) (s : Str) :
    Reads s (readDigits radix s).2 := by
  induction s with
  | nil => exact .refl _
  | cons c rest ih =>
    unfold readDigits
    split
    · rename_i digit
      exact reads_cons (toDigit_address le digit) ih
    · exact .refl _

theorem readNumber_reads {radix maxDigits : Nat} {zero : Bool} {s rest : Str} {n : Nat} (le : radix ≤ 16)
    (read : readNumber radix maxDigits zero s = some (n, rest)) : Reads s rest := by
  have digits := readDigits_reads le s
  unfold readNumber at read
  grind

theorem readGivenChar_reads {c : Char} {s rest : Str} (allowed : addressChar c = true)
    (read : readGivenChar c s = some rest) : Reads s rest := by
  cases s with
  | nil => cases read
  | cons x more =>
    simp only [readGivenChar, Option.ite_none_right_eq_some, Option.some.injEq] at read
    obtain ⟨rfl, rfl⟩ := read
    exact reads_cons allowed (.refl _)

theorem readOctet_reads {s rest : Str} {x : BitVec 8} (read : readOctet s = some (x, rest)) :
    Reads s rest := by
  simp only [readOctet, Option.bind_eq_bind, Option.bind_eq_some_iff, Option.ite_none_right_eq_some,
    Option.some.injEq, Prod.mk.injEq, Prod.exists] at read
  obtain ⟨n, more, number, _, _, rfl⟩ := read
  exact readNumber_reads (by decide) number

theorem dottedOctet_reads {s rest : Str} {x : BitVec 8}
    (read : (readGivenChar '.' s).bind readOctet = some (x, rest)) : Reads s rest := by
  obtain ⟨more, dot, octet⟩ := Option.bind_eq_some_iff.mp read
  exact (readGivenChar_reads (by decide) dot).trans (readOctet_reads octet)

theorem readIpv4Addr_reads {s rest : Str} {x : Ipv4Addr} (read : readIpv4Addr s = some (x, rest)) :
    Reads s rest := by
  simp only [readIpv4Addr, Option.bind_eq_bind, Option.bind_eq_some_iff, Prod.exists] at read
  obtain ⟨a, one, first, b, two, second, c, three, third, d, four, fourth, last⟩ := read
  cases last
  exact (readOctet_reads first).trans ((dottedOctet_reads (Option.bind_eq_some_iff.mpr second)).trans
    ((dottedOctet_reads (Option.bind_eq_some_iff.mpr third)).trans
      (dottedOctet_reads (Option.bind_eq_some_iff.mpr fourth))))

theorem readGroups_reads (limit k : Nat) (s : Str) : Reads s (readGroups limit k s).2.2 := by
  induction k generalizing s with
  | zero => exact .refl _
  | succ k ih =>
    have separated : ∀ t, (if k + 1 = limit then some s else readGivenChar ':' s) = some t →
        Reads s t := by
      intro t h
      split at h
      · rw [← Option.some.inj h]
        exact .refl _
      · exact readGivenChar_reads (by decide) h
    simp only [readGroups]
    split
    · rename_i quad rest embedded
      split at embedded
      · cases embedded
      · obtain ⟨t, first, second⟩ := Option.bind_eq_some_iff.mp embedded
        exact (separated t first).trans (readIpv4Addr_reads second)
    · split
      · rename_i g rest number
        obtain ⟨t, first, second⟩ := Option.bind_eq_some_iff.mp number
        exact ((separated t first).trans (readNumber_reads (by decide) second)).trans (ih rest)
      · exact .refl _

theorem readIpv6Addr_reads {s rest : Str} {x : Ipv6Addr} (read : readIpv6Addr s = some (x, rest)) :
    Reads s rest := by
  have head := readGroups_reads 8 8 s
  unfold readIpv6Addr at read
  dsimp only at read
  split at read
  · obtain ⟨_, _, same⟩ := Option.map_eq_some_iff.mp read
    cases same
    exact head
  · split at read
    · cases read
    · obtain ⟨more, colons, read⟩ := Option.bind_eq_some_iff.mp read
      obtain ⟨one, first, second⟩ := Option.bind_eq_some_iff.mp colons
      obtain ⟨_, _, same⟩ := Option.map_eq_some_iff.mp read
      cases same
      exact ((head.trans (readGivenChar_reads (by decide) first)).trans
        (readGivenChar_reads (by decide) second)).trans (readGroups_reads _ _ more)

/-- What is read as an address is written in digits, dots and colons. -/
theorem parse_alphabet {s : Str} {x : IpAddr} (parsed : parse s = some x) :
    ∀ c ∈ s, addressChar c = true := by
  have whole : Reads s [] := by
    unfold parse at parsed
    split at parsed
    · rename_i y read
      rcases Option.or_eq_some_iff.mp read with read | ⟨_, read⟩
      · obtain ⟨⟨z, rest⟩, found, same⟩ := Option.map_eq_some_iff.mp read
        cases same
        exact readIpv4Addr_reads found
      · obtain ⟨⟨z, rest⟩, found, same⟩ := Option.map_eq_some_iff.mp read
        cases same
        exact readIpv6Addr_reads found
    · cases parsed
  obtain ⟨front, rfl, allowed⟩ := whole
  simpa using allowed

end IpAddr
end EalSync
