import Mathlib.Data.Fintype.Card
import Mathlib.Logic.Function.Basic

/-! Counting semaphores, one for each key, and the processes that hold a permit of one. The free and
the held permits of a semaphore make up its capacity, whatever the processes do. -/
namespace EalSync.Permits

universe u v

variable {K : Type u} {P : Type v} [DecidableEq K] [Fintype P]

/-- How many processes hold a permit of this key. -/
def holding (held : P → Option K) (k : K) : Nat := (Finset.univ.filter fun p => held p = some k).card

/-- A semaphore that does not exist yet has no holder. -/
def Balanced (capacity : Nat) (free : K → Option Nat) (held : P → Option K) : Prop :=
  ∀ k, match free k with
    | none => holding held k = 0
    | some n => n + holding held k = capacity

/-- The semaphore of the key, made when it is first asked for. -/
def create (capacity : Nat) (free : K → Option Nat) (k : K) : K → Option Nat :=
  Function.update free k (some ((free k).getD capacity))

variable {capacity : Nat} {free : K → Option Nat} {held : P → Option K}

theorem holding_le (balanced : Balanced capacity free held) (k : K) : holding held k ≤ capacity := by
  have here := balanced k
  cases exists' : free k with
  | none =>
    rw [exists'] at here
    omega
  | some n =>
    rw [exists'] at here
    omega

/-- Who finds no permit waits for somebody who holds one. -/
theorem exists_holder (balanced : Balanced capacity free held) (positive : 0 < capacity) {k : K}
    (none : free k = some 0) : ∃ p, held p = some k := by
  have here := balanced k
  simp only [none, Nat.zero_add] at here
  obtain ⟨p, member⟩ := Finset.card_pos.mp (here ▸ positive)
  exact ⟨p, (Finset.mem_filter.mp member).2⟩

/-- When nobody holds a permit, all of them are free. -/
theorem free_of_idle (balanced : Balanced capacity free held) (idle : ∀ p, held p = none) {k : K}
    {n : Nat} (there : free k = some n) : n = capacity := by
  have here := balanced k
  rw [there] at here
  have unheld : holding held k = 0 := by simp [holding, idle]
  omega

theorem balanced_initial (idle : ∀ p, held p = none) : Balanced capacity (fun _ => none) held := by
  intro k
  simp [holding, idle]

theorem balanced_create (balanced : Balanced capacity free held) (k : K) :
    Balanced capacity (create capacity free k) held := by
  intro k'
  have here := balanced k'
  by_cases same : k' = k
  · subst same
    cases exists' : free k' with
    | none =>
      rw [exists'] at here
      simpa [create, exists'] using here
    | some n =>
      rw [exists'] at here
      simpa [create, exists'] using here
  · simpa [create, Function.update_of_ne same] using here

variable [DecidableEq P] {p : P} {k : K}

theorem holding_take (idle : held p = none) :
    holding (Function.update held p (some k)) k = holding held k + 1 := by
  have grown : (Finset.univ.filter fun q => Function.update held p (some k) q = some k) =
      insert p (Finset.univ.filter fun q => held q = some k) := by
    ext q
    by_cases same : q = p
    · simp [same]
    · simp [same]
  rw [holding, grown, Finset.card_insert_of_notMem (by simp [idle])]
  rfl

/-- Permits of another key stay where they are. -/
theorem holding_other {k' : K} (new : Option K) (before : held p ≠ some k') (after : new ≠ some k') :
    holding (Function.update held p new) k' = holding held k' := by
  have same : (Finset.univ.filter fun q => Function.update held p new q = some k') =
      Finset.univ.filter fun q => held q = some k' := by
    ext q
    by_cases own : q = p
    · simp [own, before, after]
    · simp [Function.update_of_ne own]
  rw [holding, same]
  rfl

theorem holding_give (owned : held p = some k) :
    holding (Function.update held p none) k + 1 = holding held k := by
  have idle : Function.update held p none p = none := Function.update_self ..
  have back : holding (Function.update (Function.update held p none) p (some k)) k = _ := holding_take idle
  rw [Function.update_idem, ← owned, Function.update_eq_self] at back
  exact back.symm

theorem balanced_take {n : Nat} (balanced : Balanced capacity free held) (idle : held p = none)
    (room : free k = some (n + 1)) :
    Balanced capacity (Function.update free k (some n)) (Function.update held p (some k)) := by
  intro k'
  have here := balanced k'
  by_cases same : k' = k
  · subst same
    rw [room] at here
    rw [Function.update_self, holding_take idle]
    dsimp only at here ⊢
    omega
  · rw [Function.update_of_ne same, holding_other _ (by simp [idle]) (by simpa using Ne.symm same)]
    exact here

theorem balanced_give (balanced : Balanced capacity free held) (owned : held p = some k) :
    Balanced capacity (Function.update free k ((free k).map (· + 1))) (Function.update held p none) := by
  intro k'
  have here := balanced k'
  by_cases same : k' = k
  · subst same
    have fewer := holding_give owned
    cases exists' : free k' with
    | none =>
      rw [exists'] at here
      dsimp only at here
      omega
    | some n =>
      rw [exists'] at here
      rw [Function.update_self, Option.map_some]
      dsimp only at here ⊢
      omega
  · rw [Function.update_of_ne same, holding_other _ (by simp [owned, Ne.symm same]) (by simp)]
    exact here

end EalSync.Permits
