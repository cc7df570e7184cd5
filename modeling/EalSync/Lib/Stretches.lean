import EalSync.Lib.Words

/-! The stretches of a list, each up to and with a mark, and what is left of one in a buffer that is
emptied whenever it is full. -/
namespace EalSync.Stretches

open Words

universe u

variable {α : Type u} (mark : α → Bool)

/-- What comes after the last mark belongs to no stretch. -/
def stretches : List α → List (List α)
  | [] => []
  | x :: rest =>
    if mark x then [x] :: stretches rest
    else match stretches rest with
      | [] => []
      | stretch :: more => (x :: stretch) :: more

variable {mark}

theorem stretches_solid {s : List α} (solid : Solid mark s) : stretches mark s = [] := by
  induction s with
  | nil => rfl
  | cons x rest ih =>
    obtain ⟨plain, later⟩ := List.forall_mem_cons.mp solid
    rw [stretches, plain, if_neg Bool.false_ne_true, ih later]

theorem stretches_append {body : List α} {x : α} (solid : Solid mark body) (marked : mark x = true)
    (back : List α) : stretches mark (body ++ x :: back) = (body ++ [x]) :: stretches mark back := by
  induction body with
  | nil => rw [List.nil_append, stretches, if_pos marked, List.nil_append]
  | cons y rest ih =>
    obtain ⟨plain, later⟩ := List.forall_mem_cons.mp solid
    rw [List.cons_append, stretches, plain, if_neg Bool.false_ne_true, ih later, List.cons_append]

/-- The list up to the end of each of its stretches is read in full. -/
theorem stretches_ended {front : List α} (ended : ∀ x ∈ front.getLast?, mark x = true) (back : List α) :
    stretches mark (front ++ back) = stretches mark front ++ stretches mark back := by
  induction size : front.length using Nat.strong_induction_on generalizing front with
  | _ n ih =>
    subst size
    by_cases solid : Solid mark front
    · have empty : front = [] := by
        rw [← List.getLast?_eq_none_iff, Option.eq_none_iff_forall_not_mem]
        intro x last
        have marked := ended x last
        rw [solid x (List.mem_of_getLast? last)] at marked
        cases marked
      rw [empty, List.nil_append, stretches, List.nil_append]
    · obtain ⟨body, x, rest, rfl, plain, marked⟩ := first_space solid
      have later : ∀ y ∈ rest.getLast?, mark y = true := by
        intro y last
        apply ended y
        rw [List.getLast?_append_of_ne_nil _ (List.cons_ne_nil x rest), List.getLast?_cons, last]
        rfl
      have shorter : rest.length < (body ++ x :: rest).length := by
        rw [List.length_append, List.length_cons]
        omega
      rw [List.append_assoc, List.cons_append, stretches_append plain marked,
        stretches_append plain marked, ih rest.length shorter later rfl, List.cons_append]

/-- A stretch begins after a mark or with the list, and ends with the next mark. -/
theorem mem_stretches {s stretch : List α} :
    stretch ∈ stretches mark s ↔ ∃ front body x back, s = front ++ body ++ x :: back ∧
      (∀ y ∈ front.getLast?, mark y = true) ∧ Solid mark body ∧ mark x = true ∧
      stretch = body ++ [x] := by
  constructor
  · intro member
    induction size : s.length using Nat.strong_induction_on generalizing s with
    | _ n ih =>
      subst size
      by_cases solid : Solid mark s
      · rw [stretches_solid solid] at member
        cases member
      · obtain ⟨body, x, rest, rfl, plain, marked⟩ := first_space solid
        rw [stretches_append plain marked, List.mem_cons] at member
        rcases member with rfl | later
        · exact ⟨[], body, x, rest, rfl, by simp, plain, marked, rfl⟩
        · have shorter : rest.length < (body ++ x :: rest).length := by
            rw [List.length_append, List.length_cons]
            omega
          obtain ⟨front, inner, y, back, rfl, ended, tail⟩ := ih rest.length shorter later rfl
          refine ⟨body ++ x :: front, inner, y, back, by simp, ?_, tail⟩
          intro z last
          rw [List.getLast?_append_of_ne_nil _ (List.cons_ne_nil x front), List.getLast?_cons] at last
          cases own : front.getLast? with
          | none =>
            rw [own] at last
            rwa [← Option.mem_some.mp last]
          | some w =>
            rw [own] at last
            rw [← Option.mem_some.mp last]
            exact ended w own
  · rintro ⟨front, body, x, back, rfl, ended, plain, marked, rfl⟩
    rw [List.append_assoc, stretches_ended ended, stretches_append plain marked]
    simp

section

variable (size : Nat)

/-- What a buffer holds that is emptied whenever it is full. -/
def remainder (s : List α) : List α := s.drop (size * (s.length / size))

variable {size}

theorem remainder_short {s : List α} (short : s.length < size) : remainder size s = s := by
  rw [remainder, Nat.div_eq_of_lt short, Nat.mul_zero, List.drop_zero]

theorem remainder_full {s : List α} (pos : 0 < size) (full : s.length = size) (more : List α) :
    remainder size (s ++ more) = remainder size more := by
  have count : size * ((s ++ more).length / size) = s.length + size * (more.length / size) := by
    rw [List.length_append, full, Nat.add_div_left _ pos, Nat.mul_succ, Nat.add_comm]
  rw [remainder, count, ← List.drop_drop, List.drop_left, remainder]

end

end EalSync.Stretches
