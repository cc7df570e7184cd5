import Mathlib.Data.List.Basic

/-! Loops that collect a stream of chunks in a buffer and give up before the buffer would grow past a
limit. What they read does not depend on where the stream was cut into chunks. -/
namespace EalSync.Bounded

universe u v w x

variable {α : Type u} {β : Type v} {χ : Type w} {ε : Type x} {τ : Type w}

/-- What a loop holds before each of its turns and at its end, as far as it comes. -/
def held (read : β → List χ → Except ε β) : β → List χ → List β
  | buffer, [] => [buffer]
  | buffer, item :: rest =>
    buffer :: match read buffer [item] with
      | .error _ => []
      | .ok next => held read next rest

/-- The loop takes the items one at a time, accepts the streams of no more items than the limit, which
it reads whole, and never holds more. -/
structure Reader (limit : Nat) (full : ε)
    (read : List α → List (Except τ (List α)) → Except ε (List α)) : Prop where
  turns : ∀ buffer item rest,
    read buffer (item :: rest) = (read buffer [item]).bind fun next => read next rest
  reads : ∀ chunks : List (List α),
    read [] (chunks.map .ok) =
      if chunks.flatten.length ≤ limit then .ok chunks.flatten else .error full
  holds : ∀ stream, ∀ buffer ∈ held read [] stream, buffer.length ≤ limit

variable (limit : Nat) (failed : τ → ε) (full : ε)

def collect : List α → List (Except τ (List α)) → Except ε (List α)
  | buffer, [] => .ok buffer
  | _, .error e :: _ => .error (failed e)
  | buffer, .ok chunk :: rest =>
    if limit < buffer.length + chunk.length then .error full else collect (buffer ++ chunk) rest

theorem collect_turns (buffer : List α) (item : Except τ (List α)) (rest : List (Except τ (List α))) :
    collect limit failed full buffer (item :: rest) =
      (collect limit failed full buffer [item]).bind fun next =>
        collect limit failed full next rest := by
  cases item with
  | error e => rfl
  | ok chunk =>
    rw [collect, collect]
    split
    · rfl
    · rfl

/-- The sizes add up, whatever the chunks are. -/
theorem collect_chunks {buffer : List α} (room : buffer.length ≤ limit) (chunks : List (List α)) :
    collect limit failed full buffer (chunks.map .ok) =
      if buffer.length + chunks.flatten.length ≤ limit then .ok (buffer ++ chunks.flatten)
      else .error full := by
  induction chunks generalizing buffer with
  | nil =>
    have fits : buffer.length + ([] : List (List α)).flatten.length ≤ limit := room
    rw [if_pos fits, List.flatten_nil, List.append_nil]
    rfl
  | cons chunk rest ih =>
    rw [List.map_cons, collect, List.flatten_cons, List.length_append]
    by_cases past : limit < buffer.length + chunk.length
    · rw [if_pos past, if_neg (by omega)]
    · rw [if_neg past, ih (by rw [List.length_append]; omega), List.length_append, List.append_assoc,
        Nat.add_assoc]

theorem collect_holds {buffer : List α} (room : buffer.length ≤ limit)
    (stream : List (Except τ (List α))) :
    ∀ inside ∈ held (collect limit failed full) buffer stream, inside.length ≤ limit := by
  induction stream generalizing buffer with
  | nil =>
    intro inside member
    rwa [List.mem_singleton.mp member]
  | cons item rest ih =>
    rw [held, List.forall_mem_cons]
    refine ⟨room, ?_⟩
    cases item with
    | error e => exact fun _ member => absurd member List.not_mem_nil
    | ok chunk =>
      rw [collect]
      by_cases past : limit < buffer.length + chunk.length
      · rw [if_pos past]
        exact fun _ member => absurd member List.not_mem_nil
      · rw [if_neg past, collect]
        exact ih (by rw [List.length_append]; omega)

theorem collect_reader : Reader limit full (collect (α := α) limit failed full) where
  turns := collect_turns limit failed full
  reads chunks := by
    have whole := @collect_chunks α ε τ limit failed full [] (Nat.zero_le limit) chunks
    rwa [List.length_nil, Nat.zero_add, List.nil_append] at whole
  holds := collect_holds limit failed full (Nat.zero_le limit)

end EalSync.Bounded
