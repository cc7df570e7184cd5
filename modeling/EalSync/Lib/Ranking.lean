import Mathlib.Data.List.Dedup
import Mathlib.Data.List.Sort

/-! The items of a list by how often they occur in it. Items that occur equally often are in their own
order, so the ranking is determined by the items alone. -/
namespace EalSync.Ranking

universe u

section

variable {κ : Type u} {r : κ → κ → Prop}

theorem before_omitted {l : List κ} (ordered : l.Pairwise r) {n : Nat} {kept omitted : κ}
    (first : kept ∈ l.take n) (later : omitted ∈ l) (out : omitted ∉ l.take n) : r kept omitted := by
  rw [← List.take_append_drop n l] at ordered later
  have behind := (List.mem_append.mp later).resolve_left out
  exact (List.pairwise_append.mp ordered).2.2 kept first omitted behind

/-- An item is among the first if few enough are before it. -/
theorem mem_take_iff [DecidableRel r] (asymm : ∀ a b, r a b → ¬r b a) {l : List κ} (ordered : l.Pairwise r)
    {n : Nat} {item : κ} :
    item ∈ l.take n ↔ item ∈ l ∧ (l.filter fun other => decide (r other item)).length < n := by
  induction l generalizing n with
  | nil => simp
  | cons x rest ih =>
    obtain ⟨first, later⟩ := List.pairwise_cons.mp ordered
    cases n with
    | zero => simp
    | succ n =>
      rw [List.take_succ_cons, List.mem_cons, ih later, List.mem_cons, List.filter_cons]
      by_cases own : item = x
      · have least : ∀ other ∈ x :: rest, ¬decide (r other item) = true := by
          rw [List.forall_mem_cons]
          simp only [own, decide_eq_true_eq]
          exact ⟨fun self => asymm x x self self, fun other member => asymm x other (first other member)⟩
        obtain ⟨self, none⟩ := List.forall_mem_cons.mp least
        rw [if_neg self, List.filter_eq_nil_iff.mpr none]
        simp [own]
      · rw [or_iff_right own, or_iff_right own]
        refine and_congr_right fun member => ?_
        rw [if_pos (decide_eq_true (first item member)), List.length_cons]
        omega

end

variable {κ : Type u} [LinearOrder κ] [BEq κ] (items : List κ)

/-- More frequent, or as frequent and smaller. -/
def Before (a b : κ) : Prop := items.count b < items.count a ∨ items.count a = items.count b ∧ a < b

instance : DecidableRel (Before items) := fun _ _ => inferInstanceAs (Decidable (_ ∨ _ ∧ _))

def ranking : List κ := items.dedup.insertionSort fun a b => ¬Before items b a

variable {items}

theorem before_asymm (a b : κ) (one : Before items a b) : ¬Before items b a := by
  rcases one with more | ⟨same, below⟩
  · rintro (less | ⟨same, _⟩)
    · omega
    · omega
  · rintro (less | ⟨_, above⟩)
    · omega
    · exact absurd above below.asymm

theorem before_of_not {a b : κ} (different : a ≠ b) (none : ¬Before items b a) : Before items a b := by
  rw [Before, not_or, not_and] at none
  by_cases more : items.count b < items.count a
  · exact .inl more
  · have same : items.count a = items.count b := by omega
    exact .inr ⟨same, lt_of_le_of_ne (not_lt.mp (none.2 same.symm)) different⟩

theorem not_before_trans {a b c : κ} (one : ¬Before items b a) (two : ¬Before items c b) :
    ¬Before items c a := by
  simp only [Before, not_or, not_and, not_lt] at one two ⊢
  refine ⟨two.1.trans one.1, fun same => ?_⟩
  have first : items.count a = items.count b := by omega
  have second : items.count b = items.count c := by omega
  exact (one.2 first.symm).trans (two.2 second.symm)

theorem mem_ranking {item : κ} : item ∈ ranking items ↔ item ∈ items := by
  rw [ranking, List.mem_insertionSort, List.mem_dedup]

theorem ranking_nodup : (ranking items).Nodup :=
  (List.perm_insertionSort _ _).nodup_iff.mpr (List.nodup_dedup items)

theorem length_ranking_le : (ranking items).length ≤ items.length := by
  rw [ranking, List.length_insertionSort]
  exact (List.dedup_sublist items).length_le

theorem ranking_pairwise : (ranking items).Pairwise (Before items) := by
  have total : Std.Total fun a b => ¬Before items b a := ⟨fun a b => by
    rw [← not_and_or]
    exact fun both => before_asymm a b both.2 both.1⟩
  have trans : IsTrans κ fun a b => ¬Before items b a := ⟨fun _ _ _ => not_before_trans⟩
  have weak := List.pairwise_insertionSort (fun a b => ¬Before items b a) items.dedup
  exact (weak.and ranking_nodup).imp fun both => before_of_not both.2 both.1

variable (items) in
/-- How many different items are before this one. -/
def ahead (item : κ) : Nat := (items.dedup.filter fun other => decide (Before items other item)).length

theorem mem_take_ranking {n : Nat} {item : κ} :
    item ∈ (ranking items).take n ↔ item ∈ items ∧ ahead items item < n := by
  have same : ((ranking items).filter fun other => decide (Before items other item)).length =
      ahead items item := ((List.perm_insertionSort _ _).filter _).length_eq
  rw [mem_take_iff before_asymm ranking_pairwise, mem_ranking, same]

/-- No other list ranks the items. -/
theorem ranking_unique {l : List κ} (ordered : l.Pairwise (Before items))
    (complete : ∀ item, item ∈ l ↔ item ∈ items) : l = ranking items := by
  have antisymm : Std.Antisymm (Before items) := ⟨fun a b one other => absurd other (before_asymm a b one)⟩
  have irrefl : Std.Irrefl (Before items) := ⟨fun a self => before_asymm a a self self⟩
  apply ordered.eq_of_mem_iff ranking_pairwise
  intro item
  rw [complete, mem_ranking]

theorem ranking_perm [LawfulBEq κ] {other : List κ} (perm : items.Perm other) :
    ranking items = ranking other := by
  have same : Before items = Before other := by
    funext a b
    rw [Before, Before, perm.count_eq, perm.count_eq]
  apply ranking_unique
  · rw [← same]
    exact ranking_pairwise
  · intro item
    rw [mem_ranking, perm.mem_iff]

end EalSync.Ranking
