import Mathlib.Data.List.Infix

/-! Strings as lists of segments between separators. The segments of a string determine it, and a
prefix or suffix of the segment list is a prefix or suffix of the string that ends at a separator. -/
namespace EalSync.Segments

universe u

theorem intercalate_append {α : Type u} {sep : α} {first second : List (List α)}
    (one : first ≠ []) (two : second ≠ []) :
    [sep].intercalate (first ++ second) =
      [sep].intercalate first ++ sep :: [sep].intercalate second := by
  induction first with
  | nil => exact absurd rfl one
  | cons l rest ih =>
    cases rest with
    | nil =>
      rw [List.singleton_append, List.intercalate_cons_of_ne_nil two, List.intercalate_singleton]
      simp
    | cons m rest =>
      have tail := ih (by simp)
      simp only [List.cons_append, List.intercalate_cons_cons] at tail ⊢
      rw [tail]
      simp

variable {α : Type u} [DecidableEq α] {sep : α} {xs ys : List α}

theorem splitOn_injective (same : xs.splitOn sep = ys.splitOn sep) : xs = ys := by
  have joined := congrArg [sep].intercalate same
  rwa [List.intercalate_splitOn, List.intercalate_splitOn] at joined

theorem splitOn_eq_iff : xs.splitOn sep = ys.splitOn sep ↔ xs = ys :=
  ⟨splitOn_injective, fun same => by rw [same]⟩

theorem suffix_iff : (∃ front, front ≠ [] ∧ ys.splitOn sep = front ++ xs.splitOn sep) ↔
    ∃ zs, ys = zs ++ sep :: xs := by
  constructor
  · rintro ⟨front, some, split⟩
    refine ⟨[sep].intercalate front, ?_⟩
    have joined := congrArg [sep].intercalate split
    rwa [intercalate_append some (List.splitOn_ne_nil sep xs), List.intercalate_splitOn,
      List.intercalate_splitOn] at joined
  · rintro ⟨zs, rfl⟩
    exact ⟨zs.splitOn sep, List.splitOn_ne_nil sep zs, List.splitOn_append_cons_self zs xs⟩

theorem prefix_iff : xs.splitOn sep <+: ys.splitOn sep ↔ ys = xs ∨ ∃ zs, ys = xs ++ sep :: zs := by
  constructor
  · rintro ⟨rest, split⟩
    by_cases all : rest = []
    · rw [all, List.append_nil] at split
      exact .inl (splitOn_injective split.symm)
    · refine .inr ⟨[sep].intercalate rest, ?_⟩
      have joined := congrArg [sep].intercalate split
      rw [intercalate_append (List.splitOn_ne_nil sep xs) all, List.intercalate_splitOn,
        List.intercalate_splitOn] at joined
      exact joined.symm
  · rintro (rfl | ⟨zs, rfl⟩)
    · exact List.prefix_rfl
    · rw [List.splitOn_append_cons_self]
      exact List.prefix_append ..

theorem two_le_length_iff : 2 ≤ (xs.splitOn sep).length ↔ sep ∈ xs := by
  constructor
  · intro two
    by_contra none
    rw [List.splitOn_eq_singleton none] at two
    simp at two
  · intro member
    obtain ⟨front, back, rfl⟩ := List.append_of_mem member
    rw [List.splitOn_append_cons_self, List.length_append]
    have one := List.length_pos_iff.mpr (List.splitOn_ne_nil sep front)
    have two := List.length_pos_iff.mpr (List.splitOn_ne_nil sep back)
    omega

theorem notMem_segment {l : List α} (member : l ∈ xs.splitOn sep) : sep ∉ l := by
  induction xs generalizing l with
  | nil => simp_all
  | cons y rest ih =>
    rw [List.splitOn_cons_eq_if_modifyHead] at member
    obtain ⟨first, more, split⟩ := List.exists_cons_of_ne_nil (List.splitOn_ne_nil sep rest)
    rw [split] at ih member
    by_cases here : y = sep
    · simp only [here, beq_self_eq_true, if_true, List.mem_cons] at member
      rcases member with rfl | later
      · simp
      · exact ih (List.mem_cons.mpr later)
    · simp only [beq_iff_eq, here, if_false, List.modifyHead_cons, List.mem_cons] at member
      rcases member with rfl | later
      · rw [List.mem_cons, not_or]
        exact ⟨Ne.symm here, ih List.mem_cons_self⟩
      · exact ih (List.mem_cons_of_mem _ later)

theorem segment_infix {l : List α} (member : l ∈ xs.splitOn sep) : l <:+: xs := by
  have inside : ∀ ls : List (List α), l ∈ ls → l <:+: [sep].intercalate ls := by
    intro ls
    induction ls with
    | nil => simp
    | cons first rest ih =>
      intro member
      by_cases last : rest = []
      · rw [last] at member ⊢
        rw [List.mem_singleton.mp member, List.intercalate_singleton]
      · rw [List.intercalate_cons_of_ne_nil last, List.append_assoc]
        rcases List.mem_cons.mp member with rfl | later
        · exact (List.prefix_append _ _).isInfix
        · rw [← List.append_assoc]
          exact (ih later).trans (List.suffix_append _ _).isInfix
  have whole := inside _ member
  rwa [List.intercalate_splitOn] at whole

theorem mem_segment {x : α} (member : x ∈ xs) (other : x ≠ sep) : ∃ l ∈ xs.splitOn sep, x ∈ l := by
  induction xs with
  | nil => simp at member
  | cons y rest ih =>
    rw [List.splitOn_cons_eq_if_modifyHead]
    obtain ⟨first, more, split⟩ := List.exists_cons_of_ne_nil (List.splitOn_ne_nil sep rest)
    rw [split] at ih ⊢
    rcases List.mem_cons.mp member with rfl | later
    · simp [other]
    · obtain ⟨l, hl, hx⟩ := ih later
      by_cases here : y = sep
      · simp only [here, beq_self_eq_true, if_true]
        exact ⟨l, List.mem_cons_of_mem _ hl, hx⟩
      · simp only [beq_iff_eq, here, if_false, List.modifyHead_cons]
        rcases List.mem_cons.mp hl with rfl | hl
        · exact ⟨_, List.mem_cons_self, List.mem_cons_of_mem _ hx⟩
        · exact ⟨l, List.mem_cons_of_mem _ hl, hx⟩

end EalSync.Segments
