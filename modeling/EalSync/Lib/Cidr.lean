import Mathlib.Data.List.Basic
import Mathlib.Tactic.Linarith

/-! Address blocks. An address is a list of words of n bits, the most significant first; a block is
a base address with the number of leading bits that its members share with it. -/
namespace EalSync.Cidr

variable {n : Nat}

/-- The address as a number. -/
def value : List (BitVec n) → Nat
  | [] => 0
  | x :: xs => x.toNat * 2 ^ (n * xs.length) + value xs

/-- The address has the first length bits of the base. -/
def Within (base : List (BitVec n)) (length : Nat) (address : List (BitVec n)) : Prop :=
  value address / 2 ^ (n * address.length - length) = value base / 2 ^ (n * base.length - length)

instance (base : List (BitVec n)) (length : Nat) (address : List (BitVec n)) :
    Decidable (Within base length address) := inferInstanceAs (Decidable (_ = _))

theorem within_of_le {base address : List (BitVec n)} {l m : Nat}
    (same : address.length = base.length) (le : m ≤ l) (inside : Within base l address) :
    Within base m address := by
  have coarser : n * base.length - m =
      n * base.length - l + ((n * base.length - m) - (n * base.length - l)) := by omega
  rw [Within, same] at inside ⊢
  rw [coarser, pow_add, ← Nat.div_div_eq_div_mul, inside, Nat.div_div_eq_div_mul]

/-- A block inside another one. -/
theorem within_trans {b c address : List (BitVec n)} {l m : Nat} (same : address.length = c.length)
    (le : l ≤ m) (inner : Within b l c) (inside : Within c m address) : Within b l address := by
  have leading := within_of_le same le inside
  rw [Within] at inner leading ⊢
  rw [leading, inner]

/-- Two blocks that share an address are nested. -/
theorem nested {b c address : List (BitVec n)} {l m : Nat} (lengthB : address.length = b.length)
    (lengthC : address.length = c.length) (inB : Within b l address) (inC : Within c m address) :
    Within b (min l m) c := by
  have left := within_of_le lengthB (Nat.min_le_left l m) inB
  have right := within_of_le lengthC (Nat.min_le_right l m) inC
  rw [Within] at left right ⊢
  rw [← right, left]

theorem digits_eq_iff {b x y u v : Nat} (hu : u < b) (hv : v < b) :
    b * x + u = b * y + v ↔ x = y ∧ u = v := by
  have positive : 0 < b := Nat.lt_of_le_of_lt (Nat.zero_le u) hu
  constructor
  · intro same
    have quotient := congrArg (· / b) same
    simp only [Nat.mul_add_div positive, Nat.div_eq_of_lt hu, Nat.div_eq_of_lt hv,
      Nat.add_zero] at quotient
    rw [quotient] at same
    exact ⟨quotient, Nat.add_left_cancel same⟩
  · rintro ⟨rfl, rfl⟩
    rfl

theorem value_lt (xs : List (BitVec n)) : value xs < 2 ^ (n * xs.length) := by
  induction xs with
  | nil => simp [value]
  | cons x xs ih =>
    have top : x.toNat + 1 ≤ 2 ^ n := x.isLt
    calc value (x :: xs) < (x.toNat + 1) * 2 ^ (n * xs.length) := by rw [value]; linarith
      _ ≤ 2 ^ n * 2 ^ (n * xs.length) := Nat.mul_le_mul_right _ top
      _ = 2 ^ (n * (x :: xs).length) := by rw [← pow_add, List.length_cons, Nat.mul_succ, Nat.add_comm n]

/-- A block that ends inside the first word constrains that word only. -/
theorem within_cons_of_le {x p : BitVec n} {xs ps : List (BitVec n)} {length : Nat}
    (same : xs.length = ps.length) (short : length ≤ n) :
    Within (p :: ps) length (x :: xs) ↔ x.toNat / 2 ^ (n - length) = p.toNat / 2 ^ (n - length) := by
  have split : n * (ps.length + 1) - length = n * ps.length + (n - length) := by
    rw [Nat.mul_succ]
    omega
  have high : ∀ (y : BitVec n) (ys : List (BitVec n)), ys.length = ps.length →
      value (y :: ys) / 2 ^ (n * ps.length + (n - length)) = y.toNat / 2 ^ (n - length) := by
    intro y ys len
    have low := value_lt ys
    rw [len] at low
    rw [value, len, pow_add, ← Nat.div_div_eq_div_mul, mul_comm,
      Nat.mul_add_div (Nat.two_pow_pos _), Nat.div_eq_of_lt low, Nat.add_zero]
  rw [Within, List.length_cons, List.length_cons, same, split, high x xs same, high p ps rfl]

/-- A longer block fixes the first word and is a block of what follows. -/
theorem within_cons_of_ge {x p : BitVec n} {xs ps : List (BitVec n)} {length : Nat}
    (same : xs.length = ps.length) (long : n ≤ length) :
    Within (p :: ps) length (x :: xs) ↔ x = p ∧ Within ps (length - n) xs := by
  obtain ⟨more, rfl⟩ := Nat.exists_eq_add_of_le long
  have split : n * (ps.length + 1) - (n + more) = n * ps.length - more := by
    rw [Nat.mul_succ]
    omega
  generalize hk : n * ps.length - more = k
  obtain ⟨rest, whole⟩ : ∃ rest, n * ps.length = k + rest :=
    Nat.exists_eq_add_of_le (by omega)
  have high : ∀ (y : BitVec n) (ys : List (BitVec n)), ys.length = ps.length →
      value (y :: ys) / 2 ^ k = 2 ^ rest * y.toNat + value ys / 2 ^ k ∧
        value ys / 2 ^ k < 2 ^ rest := by
    intro y ys len
    have low := value_lt ys
    rw [len, whole, pow_add] at low
    refine ⟨?_, Nat.div_lt_of_lt_mul low⟩
    rw [value, len, whole, pow_add, mul_left_comm, Nat.mul_add_div (Nat.two_pow_pos _), mul_comm]
  obtain ⟨left, below⟩ := high x xs same
  obtain ⟨right, below'⟩ := high p ps rfl
  rw [Nat.add_sub_cancel_left, Within, Within, List.length_cons, List.length_cons, same, split, hk,
    left, right, digits_eq_iff below below', BitVec.toNat_inj]

theorem within_cons {x p : BitVec n} {xs ps : List (BitVec n)} {length : Nat}
    (same : xs.length = ps.length) : Within (p :: ps) length (x :: xs) ↔
      if length ≤ n then x.toNat / 2 ^ (n - length) = p.toNat / 2 ^ (n - length)
      else x = p ∧ Within ps (length - n) xs := by
  split
  · exact within_cons_of_le same ‹_›
  · exact within_cons_of_ge same (by omega)

/-- A comparison under a mask of leading ones is one of the leading bits. -/
theorem and_mask_eq_iff {x p : BitVec n} {k : Nat} :
    x &&& BitVec.allOnes n <<< k = p &&& BitVec.allOnes n <<< k ↔
      x.toNat / 2 ^ k = p.toNat / 2 ^ k := by
  have shifted : x.toNat / 2 ^ k = p.toNat / 2 ^ k ↔ x >>> k = p >>> k := by
    rw [← BitVec.toNat_inj, BitVec.toNat_ushiftRight, BitVec.toNat_ushiftRight,
      Nat.shiftRight_eq_div_pow, Nat.shiftRight_eq_div_pow]
  rw [shifted]
  constructor
  · intro same
    apply BitVec.eq_of_getLsbD_eq
    intro i hi
    have bit := congrArg (BitVec.getLsbD · (k + i)) same
    by_cases inside : k + i < n
    · simpa [inside] using bit
    · rw [BitVec.getLsbD_ushiftRight, BitVec.getLsbD_ushiftRight,
        BitVec.getLsbD_of_ge _ _ (by omega), BitVec.getLsbD_of_ge _ _ (by omega)]
  · intro same
    apply BitVec.eq_of_getLsbD_eq
    intro i hi
    by_cases low : i < k
    · simp [low]
    · obtain ⟨j, rfl⟩ := Nat.exists_eq_add_of_le (Nat.le_of_not_lt low)
      have bit := congrArg (BitVec.getLsbD · j) same
      simp only [BitVec.getLsbD_ushiftRight] at bit
      rw [BitVec.getLsbD_and, BitVec.getLsbD_and, bit]

end EalSync.Cidr
