import Mathlib.Data.List.Infix

/-! Dot segments. A walk over segments goes down into a named one, stays where it is at a dot, and
goes up at a double dot, where the root is its own parent. -/
namespace EalSync.DotSegments

universe u

variable {α : Type u} (isUp isDot : α → Bool)

def step (here : List α) (segment : α) : List α :=
  if isUp segment then here.dropLast else if isDot segment then here else here ++ [segment]

def walk (start segments : List α) : List α := segments.foldl (step isUp isDot) start

/-- The walk, depth levels below some directory, never leaves it. -/
def contained : Nat → List α → Bool
  | _, [] => true
  | depth, segment :: rest =>
    if isUp segment then depth != 0 && contained (depth - 1) rest
    else if isDot segment then contained depth rest
    else contained (depth + 1) rest

variable {isUp isDot}

theorem walk_append (start first second : List α) :
    walk isUp isDot start (first ++ second) =
      walk isUp isDot (walk isUp isDot start first) second := List.foldl_append ..

theorem contained_of_named {segments : List α}
    (named : ∀ segment ∈ segments, isUp segment = false) (depth : Nat) :
    contained isUp isDot depth segments = true := by
  induction segments generalizing depth with
  | nil => rfl
  | cons segment rest ih =>
    have later := fun x hx => named x (List.mem_cons_of_mem _ hx)
    simp only [contained, named segment List.mem_cons_self, Bool.false_eq_true, if_false]
    split
    · exact ih later depth
    · exact ih later (depth + 1)

theorem prefix_walk (base below : List α) {segments : List α}
    (inside : contained isUp isDot below.length segments = true) :
    base <+: walk isUp isDot (base ++ below) segments := by
  induction segments generalizing below with
  | nil => exact List.prefix_append ..
  | cons segment rest ih =>
    simp only [walk, List.foldl_cons, step]
    simp only [contained] at inside
    split at inside
    · rename_i up
      simp only [Bool.and_eq_true, bne_iff_ne] at inside
      have some : below ≠ [] := fun none => inside.1 (by simp [none])
      rw [if_pos up, List.dropLast_append_of_ne_nil some]
      exact ih below.dropLast (by rw [List.length_dropLast]; exact inside.2)
    · rename_i notUp
      rw [if_neg notUp]
      split at inside
      · rename_i dot
        rw [if_pos dot]
        exact ih below inside
      · rename_i notDot
        rw [if_neg notDot, List.append_assoc]
        exact ih (below ++ [segment]) (by simpa using inside)

theorem walk_up {start segments : List α} (up : ∀ segment ∈ segments, isUp segment = true)
    (enough : start.length ≤ segments.length) : walk isUp isDot start segments = [] := by
  induction segments generalizing start with
  | nil =>
    rw [List.length_nil, Nat.le_zero, List.length_eq_zero_iff] at enough
    exact enough
  | cons segment rest ih =>
    simp only [walk, List.foldl_cons, step, up segment List.mem_cons_self, if_true]
    apply ih (fun x hx => up x (List.mem_cons_of_mem _ hx))
    rw [List.length_dropLast]
    rw [List.length_cons] at enough
    omega

end EalSync.DotSegments
