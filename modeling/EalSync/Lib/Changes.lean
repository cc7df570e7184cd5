import Mathlib.Data.List.Destutter

/-! A list with its adjacent repetitions removed: what is kept of it, and when an element is kept
twice. -/
namespace EalSync.Changes

universe u

variable {α : Type u}

/-- An element comes again after another one. -/
def Returns (l : List α) : Prop := ∃ x y, x ≠ y ∧ [x, y, x].Sublist l

/-- Every element of a list so many times more in its place. -/
def stutter (l : List (α × Nat)) : List α := l.flatMap fun run => List.replicate (run.2 + 1) run.1

theorem map_stutter {β : Type u} (f : α → β) (l : List (α × Nat)) :
    (stutter l).map f = stutter (l.map fun run => (f run.1, run.2)) := by
  simp only [stutter, List.map_flatMap, List.flatMap_map, List.map_replicate]

theorem returns_cons_self {x : α} {l : List α} : Returns (x :: x :: l) ↔ Returns (x :: l) := by
  constructor
  · rintro ⟨a, b, differ, inside⟩
    refine ⟨a, b, differ, ?_⟩
    cases inside with
    | cons _ inside => exact inside
    | cons_cons _ inside =>
      cases inside with
      | cons _ inside => exact inside.cons_cons x
      | cons_cons _ inside => exact absurd rfl differ
  · rintro ⟨a, b, differ, inside⟩
    exact ⟨a, b, differ, inside.cons x⟩

theorem returns_cons {x y : α} {l : List α} (differ : x ≠ y) :
    Returns (x :: y :: l) ↔ x ∈ l ∨ Returns (y :: l) := by
  constructor
  · rintro ⟨a, b, other, inside⟩
    cases inside with
    | cons _ inside => exact .inr ⟨a, b, other, inside⟩
    | cons_cons _ inside =>
      have later := inside.subset (List.mem_cons_of_mem b List.mem_cons_self)
      exact .inl ((List.mem_cons.mp later).resolve_left differ)
  · rintro (again | ⟨a, b, other, inside⟩)
    · exact ⟨x, y, differ, ((List.singleton_sublist.mpr again).cons_cons y).cons_cons x⟩
    · exact ⟨a, b, other, inside.cons x⟩

variable [DecidableEq α]

theorem mem_destutter' {x a : α} {l : List α} : x ∈ l.destutter' (· ≠ ·) a ↔ x ∈ a :: l := by
  induction l generalizing a with
  | nil => rfl
  | cons b rest ih =>
    by_cases differ : a ≠ b
    · rw [List.destutter'_cons_pos rest differ, List.mem_cons, ih, ← List.mem_cons]
    · cases not_not.mp differ
      rw [List.destutter'_cons_neg rest differ, ih]
      simp

/-- An element is kept twice exactly when it comes again after another one. -/
theorem nodup_destutter' {a : α} {l : List α} :
    (l.destutter' (· ≠ ·) a).Nodup ↔ ¬Returns (a :: l) := by
  induction l generalizing a with
  | nil =>
    refine iff_of_true (List.nodup_singleton a) ?_
    rintro ⟨x, y, _, inside⟩
    exact absurd inside.length_le (by simp)
  | cons b rest ih =>
    by_cases differ : a ≠ b
    · rw [List.destutter'_cons_pos rest differ, List.nodup_cons, mem_destutter', ih,
        returns_cons differ, List.mem_cons, or_iff_right differ, not_or]
    · cases not_not.mp differ
      rw [List.destutter'_cons_neg rest differ, ih, returns_cons_self]

theorem nodup_destutter {l : List α} : (l.destutter (· ≠ ·)).Nodup ↔ ¬Returns l := by
  cases l with
  | nil =>
    refine iff_of_true List.nodup_nil ?_
    rintro ⟨x, y, _, inside⟩
    exact absurd inside.length_le (by simp)
  | cons a rest => exact nodup_destutter'

end EalSync.Changes
