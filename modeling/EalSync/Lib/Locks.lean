import EalSync.Lib.Table
import Mathlib.Logic.Relation
import Mathlib.Order.Basic

/-! Exclusive locks that transactions take one at a time and hold to their end. A transaction
that asks for a locked row waits. Where every transaction that waits asks for a row above those
it holds, in some order of the rows, no transactions wait for each other in a circle. -/
namespace EalSync.Locks

universe u v w

section Numbered

variable {T : Type u}

/-- What is open under numbers, without number tx. -/
def close (tx : Nat) (opened : List (Nat × T)) : List (Nat × T) := opened.filter fun x => x.1 != tx

theorem mem_close {tx : Nat} {opened : List (Nat × T)} {x : Nat × T} :
    x ∈ close tx opened ↔ x ∈ opened ∧ x.1 ≠ tx := by
  simp [close]

theorem close_txs (tx : Nat) {opened : List (Nat × T)} (unique : (opened.map Prod.fst).Nodup) :
    ((close tx opened).map Prod.fst).Nodup :=
  unique.sublist (List.filter_sublist.map _)

theorem close_absent {tx : Nat} {opened : List (Nat × T)} (absent : ∀ x ∈ opened, x.1 ≠ tx) :
    close tx opened = opened := by
  simpa [close] using absent

theorem close_close (tx : Nat) (opened : List (Nat × T)) :
    close tx (close tx opened) = close tx opened := by
  simp [close]

theorem close_comm (tx other : Nat) (opened : List (Nat × T)) :
    close tx (close other opened) = close other (close tx opened) := List.filter_comm ..

theorem close_cons_self (tx : Nat) (t : T) (opened : List (Nat × T)) :
    close tx ((tx, t) :: opened) = close tx opened := by
  simp [close]

theorem close_cons {tx : Nat} {x : Nat × T} (differ : x.1 ≠ tx) (opened : List (Nat × T)) :
    close tx (x :: opened) = x :: close tx opened := by
  simp [close, differ]

theorem lookup_close {tx other : Nat} (differ : tx ≠ other) (opened : List (Nat × T)) :
    Table.lookup Prod.fst tx (close other opened) = Table.lookup Prod.fst tx opened := by
  rw [Table.lookup, close, List.find?_filter, Table.lookup]
  congr 1
  funext x
  by_cases same : x.1 = tx <;> simp [same, differ]

end Numbered

/-- What the transaction does, the rows it locks in turn, how many of them it has locked, and
whether it waits for the next one. -/
structure Txn (P : Type u) (R : Type v) where
  call : P
  plan : List R
  locked : Nat
  waiting : Bool

variable {P : Type u} {R : Type v}

namespace Txn

def held (t : Txn P R) : List R := t.plan.take t.locked

def next (t : Txn P R) : Option R := t.plan[t.locked]?

def take (t : Txn P R) : Txn P R := { t with locked := t.locked + 1, waiting := false }

def wait (t : Txn P R) : Txn P R := { t with waiting := true }

theorem take_held {t : Txn P R} {r : R} (next : t.next = some r) : t.take.held = t.held ++ [r] := by
  rw [held, held, take, List.take_add_one]
  exact congrArg _ (congrArg Option.toList next)

theorem plan_split {t : Txn P R} {r : R} (next : t.next = some r) :
    ∃ rest, t.plan = t.held ++ r :: rest := by
  obtain ⟨bound, same⟩ := List.getElem?_eq_some_iff.mp next
  exact ⟨t.plan.drop (t.locked + 1), by
    rw [held, ← same, List.getElem_cons_drop, List.take_append_drop]⟩

end Txn

abbrev Opened (P : Type u) (R : Type v) := List (Nat × Txn P R)

def Free (opened : Opened P R) (r : R) : Prop := ∀ x ∈ opened, r ∉ x.2.held

instance [DecidableEq R] (opened : Opened P R) (r : R) : Decidable (Free opened r) :=
  inferInstanceAs (Decidable (∀ x ∈ opened, _))

def ask [DecidableEq R] (opened : Opened P R) (t : Txn P R) : Txn P R :=
  match t.next with
  | none => t
  | some r => if Free opened r then t.take else t.wait

def request [DecidableEq R] (tx : Nat) (opened : Opened P R) : Opened P R :=
  opened.map fun x => if x.1 = tx then (x.1, ask opened x.2) else x

theorem mem_request [DecidableEq R] {tx : Nat} {opened : Opened P R} {y : Nat × Txn P R}
    (member : y ∈ request tx opened) :
    ∃ x ∈ opened, y.1 = x.1 ∧ y.2.call = x.2.call ∧ y.2.plan = x.2.plan ∧
      x.2.locked ≤ y.2.locked ∧ (y.2.held = x.2.held ∨
        ∃ r, x.1 = tx ∧ x.2.next = some r ∧ Free opened r ∧ y.2.held = x.2.held ++ [r]) := by
  obtain ⟨x, found, rfl⟩ := List.mem_map.mp member
  refine ⟨x, found, ?_⟩
  by_cases mine : x.1 = tx
  · rw [if_pos mine]
    unfold ask
    cases next : x.2.next with
    | none => exact ⟨rfl, rfl, rfl, le_rfl, .inl rfl⟩
    | some r =>
      by_cases free : Free opened r
      · simp only [if_pos free]
        exact ⟨trivial, rfl, rfl, Nat.le_succ _, .inr ⟨r, mine, rfl, free, Txn.take_held next⟩⟩
      · simp only [if_neg free]
        exact ⟨trivial, rfl, rfl, le_rfl, .inl rfl⟩
  · rw [if_neg mine]
    exact ⟨rfl, rfl, rfl, le_rfl, .inl rfl⟩

structure Exclusive (opened : Opened P R) : Prop where
  txs : (opened.map Prod.fst).Nodup
  rows : ∀ x ∈ opened, ∀ y ∈ opened, ∀ r, r ∈ x.2.held → r ∈ y.2.held → x.1 = y.1

theorem empty_exclusive : Exclusive ([] : Opened P R) where
  txs := List.nodup_nil
  rows _ member := absurd member List.not_mem_nil

namespace Exclusive

variable {opened : Opened P R}

theorem same (h : Exclusive opened) {x y : Nat × Txn P R} (hx : x ∈ opened) (hy : y ∈ opened)
    (tx : x.1 = y.1) : x = y := Table.unique_row h.txs hx hy tx

theorem start (h : Exclusive opened) {tx : Nat} {t : Txn P R} (fresh : ∀ x ∈ opened, x.1 ≠ tx)
    (free : ∀ r ∈ t.held, Free opened r) : Exclusive ((tx, t) :: opened) where
  txs := by
    refine List.nodup_cons.mpr ⟨fun known => ?_, h.txs⟩
    obtain ⟨x, member, same⟩ := List.mem_map.mp known
    exact fresh x member same
  rows x hx y hy r one two := by
    rcases List.mem_cons.mp hx with rfl | oldX <;> rcases List.mem_cons.mp hy with rfl | oldY
    · rfl
    · exact absurd two (free r one y oldY)
    · exact absurd one (free r two x oldX)
    · exact h.rows x oldX y oldY r one two

theorem close (h : Exclusive opened) (tx : Nat) : Exclusive (close tx opened) where
  txs := close_txs tx h.txs
  rows x hx y hy := h.rows x (mem_close.mp hx).1 y (mem_close.mp hy).1

theorem request [DecidableEq R] (h : Exclusive opened) (tx : Nat) : Exclusive (request tx opened) where
  txs := by
    have same : (Locks.request tx opened).map Prod.fst = opened.map Prod.fst := by
      rw [Locks.request, List.map_map]
      refine List.map_congr_left fun x _ => ?_
      dsimp only [Function.comp]
      split <;> rfl
    rw [same]
    exact h.txs
  rows x hx y hy r one two := by
    obtain ⟨x', hx', idX, _, _, _, heldX⟩ := mem_request hx
    obtain ⟨y', hy', idY, _, _, _, heldY⟩ := mem_request hy
    rw [idX, idY]
    rcases heldX with sameX | ⟨r₁, mineX, _, freeX, moreX⟩ <;>
      rcases heldY with sameY | ⟨r₂, mineY, _, freeY, moreY⟩
    · exact h.rows x' hx' y' hy' r (sameX ▸ one) (sameY ▸ two)
    · rw [moreY, List.mem_append, List.mem_singleton] at two
      rcases two with old | rfl
      · exact h.rows x' hx' y' hy' r (sameX ▸ one) old
      · exact absurd (sameX ▸ one) (freeY x' hx')
    · rw [moreX, List.mem_append, List.mem_singleton] at one
      rcases one with old | rfl
      · exact h.rows x' hx' y' hy' r old (sameY ▸ two)
      · exact absurd (sameY ▸ two) (freeX y' hy')
    · rw [mineX, mineY]

end Exclusive

def WaitsFor (opened : Opened P R) (x y : Nat × Txn P R) : Prop :=
  x ∈ opened ∧ y ∈ opened ∧ x.1 ≠ y.1 ∧ x.2.waiting = true ∧ ∃ r ∈ y.2.held, x.2.next = some r

def Deadlocked (opened : Opened P R) : Prop := ∃ x, Relation.TransGen (WaitsFor opened) x x

/-- Along a chain of waits the rows waited for ascend, so that no chain closes. -/
theorem not_deadlocked {opened : Opened P R} {A : Type w} [Preorder A] (rank : R → A)
    (ascends : ∀ x y, WaitsFor opened x y → ∀ r, x.2.next = some r →
      ∀ h ∈ x.2.held, rank h < rank r) : ¬Deadlocked opened := by
  rintro ⟨x, circle⟩
  have chain : ∀ y, Relation.TransGen (WaitsFor opened) x y → ∀ r, x.2.next = some r →
      ∃ h ∈ y.2.held, rank r ≤ rank h := by
    intro y path r next
    induction path with
    | single waits =>
      obtain ⟨_, _, _, _, h, held, same⟩ := waits
      exact ⟨h, held, by rw [Option.some.inj (next.symm.trans same)]⟩
    | tail _ waits ih =>
      obtain ⟨h, held, below⟩ := ih
      have last := waits
      obtain ⟨_, _, _, _, r', held', next'⟩ := last
      exact ⟨r', held', below.trans (ascends _ _ waits r' next' h held).le⟩
  obtain ⟨y, waits, _⟩ := Relation.TransGen.head'_iff.mp circle
  have first := waits
  obtain ⟨_, _, _, _, r, _, next⟩ := first
  obtain ⟨h, held, below⟩ := chain x circle r next
  exact (ascends x y waits r next h held).not_ge below

/-- What stands before a row in a plan stands before it in every cut of the plan there. -/
theorem earlier {r next : R} {front rest : List R} (nodup : (front ++ next :: rest).Nodup)
    (order : List.Sublist [r, next] (front ++ next :: rest)) : r ∈ front := by
  obtain ⟨one, two, split, first, second⟩ := List.sublist_append_iff.mp order
  have apart := List.nodup_append.mp nodup
  have last := List.nodup_cons.mp apart.2.1
  cases one with
  | nil =>
    rw [List.nil_append] at split
    rw [← split] at second
    cases second with
    | cons _ tail => exact absurd (tail.subset (by simp)) last.1
    | cons_cons _ tail => exact absurd (tail.subset List.mem_cons_self) last.1
  | cons x one =>
    rw [List.cons_append, List.cons.injEq] at split
    rw [split.1]
    exact first.subset List.mem_cons_self

end EalSync.Locks
