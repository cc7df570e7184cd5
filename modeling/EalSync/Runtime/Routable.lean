import EalSync.Ingestion.PublicAddress
import EalSync.Runtime.Types

/-! The address classifier of the crawl queue against that of the fetch boundary. -/
namespace EalSync.Runtime

open Ingestion (Mapped documentation globalUnicast isPublicIp isPublicIpv4 isPublicIpv4_iff
  isPublicIpv6_iff mappedBlock mapped_iff specialIpv4)

def refusedIpv4 : List (Ipv4Addr × Nat) :=
  [(⟨10, 0, 0, 0⟩, 8), (⟨172, 16, 0, 0⟩, 12), (⟨192, 168, 0, 0⟩, 16), (⟨127, 0, 0, 0⟩, 8),
    (⟨169, 254, 0, 0⟩, 16), (⟨192, 0, 2, 0⟩, 24), (⟨198, 51, 100, 0⟩, 24), (⟨203, 0, 113, 0⟩, 24),
    (⟨0, 0, 0, 0⟩, 8), (⟨224, 0, 0, 0⟩, 3)]

def unclassifiedIpv4 : List (Ipv4Addr × Nat) :=
  [(⟨100, 64, 0, 0⟩, 10), (⟨192, 0, 0, 0⟩, 24), (⟨192, 88, 99, 0⟩, 24), (⟨198, 18, 0, 0⟩, 15)]

def refusedIpv6 : List (Ipv6Addr × Nat) :=
  [(⟨0, 0, 0, 0, 0, 0, 0, 1⟩, 128), (⟨0, 0, 0, 0, 0, 0, 0, 0⟩, 128), (⟨0xfc00, 0, 0, 0, 0, 0, 0, 0⟩, 7),
    (⟨0xfe80, 0, 0, 0, 0, 0, 0, 0⟩, 10), (⟨0xfec0, 0, 0, 0, 0, 0, 0, 0⟩, 10),
    (⟨0xff00, 0, 0, 0, 0, 0, 0, 0⟩, 8)]

/-- The addresses that the fetch boundary refuses and the queue does not. -/
def Unclassified : IpAddr → Prop
  | .v4 x => ∃ block ∈ unclassifiedIpv4, x.In block
  | .v6 x => (∃ y, Mapped x y ∧ isPublicIp (.v4 y) = false) ∨
      (∀ y, ¬Mapped x y) ∧ ¬x.In globalUnicast ∧ ∀ block ∈ refusedIpv6, ¬x.In block

theorem isNonPublicIp_ipv4 (x : Ipv4Addr) :
    isNonPublicIp (.v4 x) = true ↔ ∃ block ∈ refusedIpv4, x.In block := by
  obtain ⟨a, b, c, d⟩ := x
  have private172 : 16 ≤ b.toNat ∧ b.toNat ≤ 31 ↔ b.toNat / 16 = 1 := by omega
  have multicast : 224 ≤ a.toNat ↔ a.toNat / 32 = 7 := by omega
  simp only [isNonPublicIp, Ipv4Addr.isPrivate, Ipv4Addr.isLoopback, Ipv4Addr.isLinkLocal,
    Ipv4Addr.isBroadcast, Ipv4Addr.isDocumentation, Ipv4Addr.isUnspecified, Bool.or_eq_true,
    Bool.and_eq_true, beq_iff_eq, decide_eq_true_eq, BitVec.le_def, ← BitVec.toNat_inj,
    BitVec.ofNat_eq_ofNat, BitVec.toNat_ofNat, Nat.reducePow, Nat.reduceMod, private172, multicast]
  simp only [refusedIpv4, Ipv4Addr.In, Ipv4Addr.octets, Cidr.within_cons, List.exists_mem_cons_iff,
    List.length_cons, List.length_nil, ← BitVec.toNat_inj, BitVec.ofNat_eq_ofNat,
    BitVec.toNat_ofNat, Nat.reducePow, Nat.reduceMod, Nat.reduceSub, Nat.reduceLeDiff,
    Nat.reduceDiv, if_true, if_false, Nat.div_one]
  simp only [List.not_mem_nil, false_and, exists_false, or_false, or_assoc, and_assoc]
  -- The broadcast and the unspecified address lie in the last two blocks.
  have broadcast : a.toNat = 255 → a.toNat / 32 = 7 := by omega
  grind

theorem isNonPublicIp_ipv6 (x : Ipv6Addr) :
    isNonPublicIp (.v6 x) = true ↔ (∃ block ∈ refusedIpv6, x.In block) ∨ x.In documentation := by
  obtain ⟨s0, s1, s2, s3, s4, s5, s6, s7⟩ := x
  have unique : s0 &&& 0xfe00 = 0xfc00 ↔ s0.toNat / 2 ^ 9 = 126 :=
    @Cidr.and_mask_eq_iff 16 s0 0xfc00 9
  have linkLocal : s0 &&& 0xffc0 = 0xfe80 ↔ s0.toNat / 2 ^ 6 = 1018 :=
    @Cidr.and_mask_eq_iff 16 s0 0xfe80 6
  have siteLocal : s0 &&& 0xffc0 = 0xfec0 ↔ s0.toNat / 2 ^ 6 = 1019 :=
    @Cidr.and_mask_eq_iff 16 s0 0xfec0 6
  have multicast : s0 &&& 0xff00 = 0xff00 ↔ s0.toNat / 2 ^ 8 = 255 :=
    @Cidr.and_mask_eq_iff 16 s0 0xff00 8
  have last : ∀ k : Nat, k < 2 ^ 16 → (s7.toNat = k ↔ s7 = BitVec.ofNat 16 k) := fun k small => by
    rw [← BitVec.toNat_inj, BitVec.toNat_ofNat, Nat.mod_eq_of_lt small]
  rw [Ingestion.in_documentation]
  simp only [isNonPublicIp, Ipv6Addr.isLoopback, Ipv6Addr.isUnspecified, Ipv6Addr.isUniqueLocal,
    Ipv6Addr.isUnicastLinkLocal, Ipv6Addr.segments, List.take_succ_cons, List.take_zero,
    List.all_cons, List.all_nil, Bool.and_true, Bool.or_eq_true, Bool.and_eq_true, beq_iff_eq,
    unique, linkLocal, siteLocal, multicast]
  simp only [refusedIpv6, Ipv6Addr.In, Ipv6Addr.segments, Cidr.within_cons, List.exists_mem_cons_iff,
    List.length_cons, List.length_nil, BitVec.ofNat_eq_ofNat, BitVec.toNat_ofNat, Nat.reducePow,
    Nat.reduceMod, Nat.reduceSub, Nat.reduceLeDiff, Nat.reduceDiv, if_true, if_false, Nat.div_one,
    last 0 (by decide), last 1 (by decide)]
  simp only [List.not_mem_nil, false_and, exists_false, or_false, or_assoc, and_assoc]

theorem special_split : ∀ block ∈ specialIpv4, block ∈ refusedIpv4 ∨ block ∈ unclassifiedIpv4 := by
  decide +kernel

theorem unclassified_special : ∀ block ∈ unclassifiedIpv4, block ∈ specialIpv4 ∧
    ∀ refused ∈ refusedIpv4, ¬block.1.In (refused.1, min refused.2 block.2) := by
  decide +kernel

theorem refused_apart : ∀ block ∈ refusedIpv6,
    ¬block.1.In (mappedBlock.1, min 96 block.2) ∧ ¬block.1.In (globalUnicast.1, min 3 block.2) := by
  decide +kernel

theorem agree_ipv4 (x : Ipv4Addr) :
    (isPublicIp (.v4 x) = false → isNonPublicIp (.v4 x) = true) ↔ ¬Unclassified (.v4 x) := by
  rw [isNonPublicIp_ipv4, ← Bool.not_eq_true, isPublicIp, isPublicIpv4_iff]
  constructor
  · rintro agree ⟨block, member, inside⟩
    obtain ⟨special, apart⟩ := unclassified_special block member
    obtain ⟨refused, member', inside'⟩ := agree fun none => none block special inside
    exact apart refused member' (Ipv4Addr.nested inside' inside)
  · intro classified special
    push Not at special
    obtain ⟨block, member, inside⟩ := special
    rcases special_split block member with refused | unclassified
    · exact ⟨block, refused, inside⟩
    · exact absurd ⟨block, unclassified, inside⟩ classified

theorem agree_ipv6 (x : Ipv6Addr) :
    (isPublicIp (.v6 x) = false → isNonPublicIp (.v6 x) = true) ↔ ¬Unclassified (.v6 x) := by
  rw [isNonPublicIp_ipv6, ← Bool.not_eq_true, isPublicIp, isPublicIpv6_iff]
  constructor
  · rintro agree (⟨y, mapped, reserved⟩ | ⟨unmapped, outside, none⟩)
    · have notPublic : ¬((∃ y, Mapped x y ∧ isPublicIpv4 y = true) ∨
          x.In globalUnicast ∧ ¬x.In documentation) := by
        rintro (⟨z, again, reachable⟩ | ⟨global, _⟩)
        · rw [mapped_iff] at mapped again
          rw [← Option.some.inj (mapped.symm.trans again), ← isPublicIp, reserved] at reachable
          cases reachable
        · exact absurd (Ipv6Addr.nested mapped.block global) (by decide)
      rcases agree notPublic with ⟨block, member, inside⟩ | documented
      · exact (refused_apart block member).1 (Ipv6Addr.nested mapped.block inside)
      · exact absurd (Ipv6Addr.nested mapped.block documented) (by decide)
    · rcases agree (by simp [unmapped, outside]) with ⟨block, member, inside⟩ | documented
      · exact none block member inside
      · exact outside (documented.outer (by decide) (by decide))
  · intro classified reserved
    by_cases global : x.In globalUnicast
    · refine .inr ?_
      by_contra undocumented
      exact reserved (.inr ⟨global, undocumented⟩)
    · refine .inl ?_
      by_contra none
      push Not at none
      by_cases embeds : ∃ y, Mapped x y
      · obtain ⟨y, mapped⟩ := embeds
        have notPublic : isPublicIp (.v4 y) = false := by
          rw [← Bool.not_eq_true]
          exact fun reachable => reserved (.inl ⟨y, mapped, reachable⟩)
        exact classified (.inl ⟨y, mapped, notPublic⟩)
      · exact classified (.inr ⟨not_exists.mp embeds, global, none⟩)

theorem isNonPublicIp_complete_iff (address : IpAddr) :
    (isPublicIp address = false → isNonPublicIp address = true) ↔ ¬Unclassified address := by
  cases address with
  | v4 x => exact agree_ipv4 x
  | v6 x => exact agree_ipv6 x

/-- Shared, benchmarking and translated addresses. -/
theorem isNonPublicIp_incomplete : [IpAddr.v4 ⟨100, 64, 0, 1⟩, .v4 ⟨192, 0, 0, 1⟩,
    .v4 ⟨192, 88, 99, 1⟩, .v4 ⟨198, 18, 0, 1⟩, .v6 ⟨0, 0, 0, 0, 0, 0xffff, 0x7f00, 1⟩,
    .v6 ⟨0x64, 0xff9b, 0, 0, 0, 0, 0x7f00, 1⟩].Forall
    fun address => isPublicIp address = false ∧ isNonPublicIp address = false := by
  rw [List.forall_iff_forall_mem]
  decide

end EalSync.Runtime
