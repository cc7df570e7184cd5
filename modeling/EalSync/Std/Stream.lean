import Mathlib.Algebra.Group.Nat.Defs
import Mathlib.Data.List.Basic

/-! The arithmetic of usize and the readers of tokio: a pipe delivers what was written to it in chunks,
and a poll takes of the first one as much as there is room for. -/
namespace EalSync

/-- usize::saturating_add. -/
def saturatingAdd (a b : Nat) : Nat := min (a + b) (2 ^ 64 - 1)

theorem saturatingAdd_le {a b limit : Nat} (representable : limit < 2 ^ 64 - 1) :
    saturatingAdd a b > limit ↔ limit < a + b := by
  rw [saturatingAdd]
  omega

/-- AsyncReadExt::read_to_end of a pipe behind AsyncReadExt::take, which lets so many more bytes
through. Each poll has room for one byte or more; a chunk without bytes wakes no reader. -/
def readToEnd (room : Nat → Nat) (left : Nat) (bytes : List UInt8) : List (List UInt8) → List UInt8
  | [] => bytes
  | [] :: rest => readToEnd room left bytes rest
  | (b :: chunk) :: rest =>
    if left = 0 then bytes
    else
      let taken := min (min (room bytes.length + 1) left) (b :: chunk).length
      readToEnd room (left - taken) (bytes ++ (b :: chunk).take taken) ((b :: chunk).drop taken :: rest)
termination_by chunks => chunks.flatten.length + chunks.length
decreasing_by
  · simp
  · simp only [List.flatten_cons, List.length_append, List.length_cons, List.length_drop]
    omega

/-- However much each poll takes, the reader ends up with what is let through. -/
theorem readToEnd_eq (room : Nat → Nat) (left : Nat) (bytes : List UInt8)
    (chunks : List (List UInt8)) :
    readToEnd room left bytes chunks = bytes ++ chunks.flatten.take left := by
  fun_induction readToEnd room left bytes chunks with
  | case1 left bytes => rw [List.flatten_nil, List.take_nil, List.append_nil]
  | case2 left bytes rest ih => rw [ih, List.flatten_cons, List.nil_append]
  | case3 bytes b chunk rest => rw [List.take_zero, List.append_nil]
  | case4 left bytes b chunk rest more taken ih =>
    have within : taken ≤ left := Nat.le_trans (Nat.min_le_left _ _) (Nat.min_le_right _ _)
    have size : ((b :: chunk).take taken).length = taken :=
      List.length_take_of_le (Nat.min_le_right _ _)
    have parts : ((b :: chunk) :: rest).flatten =
        (b :: chunk).take taken ++ ((b :: chunk).drop taken :: rest).flatten := by
      rw [List.flatten_cons, List.flatten_cons, ← List.append_assoc, List.take_append_drop]
    rw [ih, parts, List.take_append, size, List.take_take, Nat.min_eq_right within, List.append_assoc]

end EalSync
