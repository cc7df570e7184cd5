import EalSync.Ingestion.Safety
import EalSync.Lib.Cidr

/-! Which special-purpose blocks the filter of safety.rs keeps out. -/
namespace EalSync

def Ipv4Addr.octets (x : Ipv4Addr) : List (BitVec 8) := [x.a, x.b, x.c, x.d]

def Ipv4Addr.In (x : Ipv4Addr) (block : Ipv4Addr × Nat) : Prop :=
  Cidr.Within block.1.octets block.2 x.octets

instance (x : Ipv4Addr) (block : Ipv4Addr × Nat) : Decidable (x.In block) :=
  inferInstanceAs (Decidable (Cidr.Within _ _ _))

def Ipv6Addr.In (x : Ipv6Addr) (block : Ipv6Addr × Nat) : Prop :=
  Cidr.Within block.1.segments block.2 x.segments

instance (x : Ipv6Addr) (block : Ipv6Addr × Nat) : Decidable (x.In block) :=
  inferInstanceAs (Decidable (Cidr.Within _ _ _))

theorem Ipv4Addr.nested {x : Ipv4Addr} {p q : Ipv4Addr × Nat} (inP : x.In p) (inQ : x.In q) :
    q.1.In (p.1, min p.2 q.2) :=
  @Cidr.nested 8 p.1.octets q.1.octets x.octets p.2 q.2 rfl rfl inP inQ

theorem Ipv6Addr.nested {x : Ipv6Addr} {p q : Ipv6Addr × Nat} (inP : x.In p) (inQ : x.In q) :
    q.1.In (p.1, min p.2 q.2) :=
  @Cidr.nested 16 p.1.segments q.1.segments x.segments p.2 q.2 rfl rfl inP inQ

theorem Ipv6Addr.In.outer {x : Ipv6Addr} {p q : Ipv6Addr × Nat} (inside : x.In q) (inner : q.1.In p)
    (le : p.2 ≤ q.2) : x.In p :=
  @Cidr.within_trans 16 p.1.segments q.1.segments x.segments p.2 q.2 rfl le inner inside

namespace Ingestion

def specialIpv4 : List (Ipv4Addr × Nat) :=
  [(⟨0, 0, 0, 0⟩, 8), (⟨10, 0, 0, 0⟩, 8), (⟨127, 0, 0, 0⟩, 8), (⟨100, 64, 0, 0⟩, 10),
    (⟨169, 254, 0, 0⟩, 16), (⟨172, 16, 0, 0⟩, 12), (⟨192, 0, 0, 0⟩, 24), (⟨192, 0, 2, 0⟩, 24),
    (⟨192, 88, 99, 0⟩, 24), (⟨192, 168, 0, 0⟩, 16), (⟨198, 18, 0, 0⟩, 15), (⟨198, 51, 100, 0⟩, 24),
    (⟨203, 0, 113, 0⟩, 24), (⟨224, 0, 0, 0⟩, 3)]

def globalUnicast : Ipv6Addr × Nat := (⟨0x2000, 0, 0, 0, 0, 0, 0, 0⟩, 3)

def documentation : Ipv6Addr × Nat := (⟨0x2001, 0xdb8, 0, 0, 0, 0, 0, 0⟩, 32)

def newDocumentation : Ipv6Addr × Nat := (⟨0x3fff, 0, 0, 0, 0, 0, 0, 0⟩, 20)

def benchmarking : Ipv6Addr × Nat := (⟨0x2001, 2, 0, 0, 0, 0, 0, 0⟩, 48)

def mappedBlock : Ipv6Addr × Nat := (⟨0, 0, 0, 0, 0, 0xffff, 0, 0⟩, 96)

def sixToFourBlock : Ipv6Addr × Nat := (⟨0x2002, 0, 0, 0, 0, 0, 0, 0⟩, 16)

def specialIpv6 : List (Ipv6Addr × Nat) :=
  [(⟨0, 0, 0, 0, 0, 0, 0, 0⟩, 128), (⟨0, 0, 0, 0, 0, 0, 0, 1⟩, 128), (⟨0xfc00, 0, 0, 0, 0, 0, 0, 0⟩, 7),
    (⟨0xfe80, 0, 0, 0, 0, 0, 0, 0⟩, 10), (⟨0xff00, 0, 0, 0, 0, 0, 0, 0⟩, 8),
    (⟨0x64, 0xff9b, 0, 0, 0, 0, 0, 0⟩, 96), (⟨0x64, 0xff9b, 1, 0, 0, 0, 0, 0⟩, 48),
    documentation, newDocumentation, benchmarking]

/-- ::ffff:a.b.c.d -/
inductive Mapped : Ipv6Addr → Ipv4Addr → Prop where
  | embed (a b c d : BitVec 8) : Mapped ⟨0, 0, 0, 0, 0, 0xffff, a ++ b, c ++ d⟩ ⟨a, b, c, d⟩

/-- 2002:aabb:ccdd::/48 -/
inductive SixToFour : Ipv6Addr → Ipv4Addr → Prop where
  | embed (a b c d : BitVec 8) (s3 s4 s5 s6 s7 : BitVec 16) :
      SixToFour ⟨0x2002, a ++ b, c ++ d, s3, s4, s5, s6, s7⟩ ⟨a, b, c, d⟩

structure NoSpecialPurpose (address : IpAddr) : Prop where
  ipv4 : ∀ x, address = .v4 x → ∀ block ∈ specialIpv4, ¬x.In block
  ipv6 : ∀ x, address = .v6 x → ∀ block ∈ specialIpv6, ¬x.In block
  embedded : ∀ x y, address = .v6 x → Mapped x y ∨ SixToFour x y → isPublicIp (.v4 y) = true

/-- The special-purpose addresses that the filter has no case for. -/
def Overlooked (x : Ipv6Addr) : Prop :=
  x.In newDocumentation ∨ x.In benchmarking ∨ ∃ y, SixToFour x y ∧ isPublicIp (.v4 y) = false

theorem isPublicIpv4_iff (x : Ipv4Addr) :
    isPublicIpv4 x = true ↔ ∀ block ∈ specialIpv4, ¬x.In block := by
  obtain ⟨a, b, c, d⟩ := x
  have shared : 64 ≤ b.toNat ∧ b.toNat ≤ 127 ↔ b.toNat / 64 = 1 := by omega
  have private172 : 16 ≤ b.toNat ∧ b.toNat ≤ 31 ↔ b.toNat / 16 = 1 := by omega
  have benchmark : b.toNat = 18 ∨ b.toNat = 19 ↔ b.toNat / 2 = 9 := by omega
  have multicast : 224 ≤ a.toNat ↔ a.toNat / 32 = 7 := by omega
  rw [← not_iff_not, Bool.not_eq_true]
  simp only [isPublicIpv4, Bool.not_eq_false', Bool.or_eq_true, Bool.and_eq_true, beq_iff_eq,
    decide_eq_true_eq, BitVec.le_def, ← BitVec.toNat_inj, BitVec.ofNat_eq_ofNat, BitVec.toNat_ofNat,
    Nat.reducePow, Nat.reduceMod, shared, private172, benchmark, multicast]
  simp only [specialIpv4, Ipv4Addr.In, Ipv4Addr.octets, Cidr.within_cons, List.forall_mem_cons,
    List.length_cons, List.length_nil, ← BitVec.toNat_inj, BitVec.ofNat_eq_ofNat,
    BitVec.toNat_ofNat, Nat.reducePow, Nat.reduceMod, Nat.reduceSub, Nat.reduceLeDiff,
    Nat.reduceDiv, if_true, if_false, Nat.div_one]
  simp only [List.not_mem_nil, false_implies, implies_true, and_true, ← not_or, not_not, or_assoc,
    and_assoc]

theorem mapped_iff {x : Ipv6Addr} {y : Ipv4Addr} : Mapped x y ↔ x.toIpv4Mapped = some y := by
  constructor
  · rintro ⟨a, b, c, d⟩
    have high := fun x y : BitVec 8 => @BitVec.extractLsb'_append_eq_left 8 8 x y
    have low := fun x y : BitVec 8 => @BitVec.extractLsb'_append_eq_right 8 8 x y
    simp [Ipv6Addr.toIpv4Mapped, Ipv6Addr.segments, high, low]
  · intro mapped
    unfold Ipv6Addr.toIpv4Mapped at mapped
    split at mapped
    · rename_i front
      obtain ⟨s0, s1, s2, s3, s4, s5, s6, s7⟩ := x
      simp only [Ipv6Addr.segments, List.take_succ_cons, List.take_zero, List.all_cons,
        List.all_nil, Bool.and_true, Bool.and_eq_true, beq_iff_eq] at front
      obtain ⟨⟨rfl, rfl, rfl, rfl, rfl⟩, rfl⟩ := front
      have both : ∀ s : BitVec 16, s.extractLsb' 8 8 ++ s.extractLsb' 0 8 = s := fun s =>
        @BitVec.extractLsb'_append_extractLsb' 8 8 s
      have embedded := Mapped.embed (s6.extractLsb' 8 8) (s6.extractLsb' 0 8) (s7.extractLsb' 8 8)
        (s7.extractLsb' 0 8)
      rw [both, both] at embedded
      rw [← Option.some.inj mapped]
      exact embedded
    · cases mapped

theorem in_globalUnicast {x : Ipv6Addr} : x.In globalUnicast ↔ x.s0 &&& 0xe000 = 0x2000 := by
  simp only [globalUnicast, Ipv6Addr.In, Ipv6Addr.segments, Cidr.within_cons, List.length_cons,
    List.length_nil, Nat.reduceLeDiff, if_true]
  exact (@Cidr.and_mask_eq_iff 16 x.s0 0x2000 13).symm

theorem in_documentation {x : Ipv6Addr} : x.In documentation ↔ x.s0 = 0x2001 ∧ x.s1 = 0x0db8 := by
  simp only [documentation, Ipv6Addr.In, Ipv6Addr.segments, Cidr.within_cons, List.length_cons,
    List.length_nil, Nat.reduceLeDiff, Nat.reduceSub, if_true, if_false, pow_zero, Nat.div_one,
    BitVec.toNat_inj]

theorem Mapped.block {x : Ipv6Addr} {y : Ipv4Addr} (mapped : Mapped x y) : x.In mappedBlock := by
  cases mapped
  simp only [mappedBlock, Ipv6Addr.In, Ipv6Addr.segments, Cidr.within_cons, List.length_cons,
    List.length_nil, Nat.reduceLeDiff, Nat.reduceSub, if_true, if_false, and_self]

theorem SixToFour.block {x : Ipv6Addr} {y : Ipv4Addr} (embedded : SixToFour x y) :
    x.In sixToFourBlock := by
  cases embedded
  simp only [sixToFourBlock, Ipv6Addr.In, Ipv6Addr.segments, Cidr.within_cons, List.length_cons,
    List.length_nil, le_refl, if_true]

theorem isPublicIpv6_iff (x : Ipv6Addr) : isPublicIpv6 x = true ↔
    (∃ y, Mapped x y ∧ isPublicIpv4 y = true) ∨ x.In globalUnicast ∧ ¬x.In documentation := by
  unfold isPublicIpv6
  cases mapped : x.toIpv4Mapped with
  | some y =>
    have other : ¬x.In globalUnicast := fun global =>
      absurd (Ipv6Addr.nested (mapped_iff.mpr mapped).block global) (by decide)
    simp only [mapped_iff, mapped, Option.some.injEq, exists_eq_left', other, false_and, or_false]
  | none =>
    simp only [mapped_iff, mapped, reduceCtorEq, false_and, exists_false, false_or,
      in_globalUnicast, in_documentation, Bool.and_eq_true, Bool.not_eq_true', beq_iff_eq,
      Bool.and_eq_false_imp, beq_eq_false_iff_ne, not_and, ne_eq]

theorem isPublicIpv6_of_block {x : Ipv6Addr} {block : Ipv6Addr × Nat} (inside : x.In block)
    (global : block.1.In globalUnicast) (le : 3 ≤ block.2)
    (apart : ¬block.1.In (documentation.1, min 32 block.2)) : isPublicIpv6 x = true :=
  (isPublicIpv6_iff x).mpr (.inr ⟨inside.outer global le,
    fun documented => apart (Ipv6Addr.nested documented inside)⟩)

theorem mapped_apart : ∀ block ∈ specialIpv6, ¬block.1.In (mappedBlock.1, min 96 block.2) := by
  decide +kernel

theorem global_apart : ∀ block ∈ specialIpv6, block.1.In (globalUnicast.1, min 3 block.2) →
    block = documentation ∨ block = newDocumentation ∨ block = benchmarking := by
  decide +kernel

theorem noSpecialPurpose_v4 {x : Ipv4Addr} (admitted : isPublicIpv4 x = true) :
    NoSpecialPurpose (.v4 x) := by
  refine ⟨?_, ?_, ?_⟩
  · rintro _ ⟨⟩
    exact (isPublicIpv4_iff x).mp admitted
  · intro _ other
    cases other
  · intro _ _ other
    cases other

/-- A mapped address is in none of the blocks, and it embeds one address only. -/
theorem noSpecialPurpose_mapped {x : Ipv6Addr} {y : Ipv4Addr} (mapped : Mapped x y)
    (embeddedPublic : isPublicIpv4 y = true) : NoSpecialPurpose (.v6 x) := by
  refine ⟨?_, ?_, ?_⟩
  · intro _ other
    cases other
  · rintro _ ⟨⟩ block member inside
    exact mapped_apart block member (Ipv6Addr.nested mapped.block inside)
  · rintro _ z ⟨⟩ (again | sixToFour)
    · rw [mapped_iff] at mapped again
      rw [← Option.some.inj (mapped.symm.trans again)]
      exact embeddedPublic
    · exact absurd (Ipv6Addr.nested mapped.block sixToFour.block) (by decide)

theorem noSpecialPurpose_global {x : Ipv6Addr} (global : x.In globalUnicast)
    (undocumented : ¬x.In documentation) (unseen : ¬Overlooked x) : NoSpecialPurpose (.v6 x) := by
  refine ⟨?_, ?_, ?_⟩
  · intro _ other
    cases other
  · rintro _ ⟨⟩ block member inside
    rcases global_apart block member (Ipv6Addr.nested global inside) with rfl | rfl | rfl
    · exact undocumented inside
    · exact unseen (.inl inside)
    · exact unseen (.inr (.inl inside))
  · rintro _ z ⟨⟩ (mapped | sixToFour)
    · exact absurd (Ipv6Addr.nested mapped.block global) (by decide)
    · by_contra refused
      exact unseen (.inr (.inr ⟨z, sixToFour, by simpa using refused⟩))

theorem isPublicIp_noSpecialPurpose_iff (address : IpAddr) :
    (isPublicIp address = true → NoSpecialPurpose address) ↔
      ∀ x, address = .v6 x → ¬Overlooked x := by
  constructor
  · rintro kept x rfl (newDoc | bench | ⟨y, embedded, refused⟩)
    · have admitted := kept (isPublicIpv6_of_block newDoc (by decide) (by decide) (by decide))
      exact admitted.ipv6 x rfl newDocumentation (by decide) newDoc
    · have admitted := kept (isPublicIpv6_of_block bench (by decide) (by decide) (by decide))
      exact admitted.ipv6 x rfl benchmarking (by decide) bench
    · have admitted := kept
        (isPublicIpv6_of_block embedded.block (by decide) (by decide) (by decide))
      have embeddedPublic := admitted.embedded x y rfl (.inr embedded)
      rw [refused] at embeddedPublic
      cases embeddedPublic
  · intro seen admitted
    cases address with
    | v4 x => exact noSpecialPurpose_v4 admitted
    | v6 x =>
      rcases (isPublicIpv6_iff x).mp admitted with ⟨y, mapped, embeddedPublic⟩ | ⟨global, undocumented⟩
      · exact noSpecialPurpose_mapped mapped embeddedPublic
      · exact noSpecialPurpose_global global undocumented (seen x rfl)

/-- One address of each kind; the last is the 6to4 address of 127.0.0.1. -/
theorem isPublicIp_special : [IpAddr.v6 ⟨0x3fff, 0, 0, 0, 0, 0, 0, 1⟩,
    .v6 ⟨0x2001, 2, 0, 0, 0, 0, 0, 1⟩, .v6 ⟨0x2002, 0x7f00, 1, 0, 0, 0, 0, 0⟩].Forall
    fun address => isPublicIp address = true ∧ ¬NoSpecialPurpose address := by
  refine ⟨⟨by decide, fun none => ?_⟩, ⟨by decide, fun none => ?_⟩, ⟨by decide, fun none => ?_⟩⟩
  · exact absurd (none.ipv6 _ rfl newDocumentation (by decide)) (by decide)
  · exact absurd (none.ipv6 _ rfl benchmarking (by decide)) (by decide)
  · exact absurd (none.embedded _ ⟨127, 0, 0, 1⟩ rfl (.inr (.embed 127 0 0 1 0 0 0 0 0))) (by decide)

end Ingestion

end EalSync
