import EalSync.Std.Percent
import EalSync.Std.Slice
import EalSync.Std.Text

/-! Loops over the bytes of a text. A test on bytes that gives the same answer on each byte of a
character stops such a loop only between two characters. -/
namespace EalSync

open Percent

theorem utf8EncodeChar_high {c : Char} (high : 128 ≤ c.toNat) {b : UInt8}
    (member : b ∈ String.utf8EncodeChar c) : 128 ≤ b.toNat := by
  have value : 128 ≤ c.val.toNat := high
  have low : ¬c.val.toNat ≤ 0x7f := by omega
  rw [String.utf8EncodeChar] at member
  rw [if_neg low] at member
  split at member
  · simp only [List.mem_cons, List.not_mem_nil, or_false] at member
    rcases member with rfl | rfl <;>
    · rw [UInt8.toNat_ofNat']
      omega
  · split at member
    · simp only [List.mem_cons, List.not_mem_nil, or_false] at member
      rcases member with rfl | rfl | rfl <;>
      · rw [UInt8.toNat_ofNat']
        omega
    · simp only [List.mem_cons, List.not_mem_nil, or_false] at member
      rcases member with rfl | rfl | rfl | rfl <;>
      · rw [UInt8.toNat_ofNat']
        omega

/-- A test on bytes is one on characters. -/
def Agree (p : UInt8 → Bool) (q : Char → Bool) : Prop := ∀ c, ∀ b ∈ String.utf8EncodeChar c, p b = q c

theorem agree_eq {k : Char} (ascii : k.toNat < 128) : Agree (· == k.toUInt8) (· == k) := by
  intro c b member
  by_cases low : c.toNat < 128
  · rw [String.utf8EncodeChar_eq_singleton (Str.utf8Size_ascii low), List.mem_singleton] at member
    have same : b = c.toUInt8 := member
    rw [same, Bool.eq_iff_iff, beq_iff_eq, beq_iff_eq]
    exact ⟨toUInt8_injective low ascii, congrArg Char.toUInt8⟩
  · have high := utf8EncodeChar_high (not_lt.mp low) member
    have byte : b ≠ k.toUInt8 := by
      rintro rfl
      have value : k.toUInt8.toNat = k.toNat % 256 := rfl
      omega
    have char : c ≠ k := by
      rintro rfl
      exact low ascii
    exact (beq_eq_false_iff_ne.mpr byte).trans (beq_eq_false_iff_ne.mpr char).symm

theorem Agree.or {p p' : UInt8 → Bool} {q q' : Char → Bool} (first : Agree p q) (second : Agree p' q') :
    Agree (fun b => p b || p' b) (fun c => q c || q' c) :=
  fun c b member => congrArg₂ Bool.or (first c b member) (second c b member)

theorem Agree.and {p p' : UInt8 → Bool} {q q' : Char → Bool} (first : Agree p q) (second : Agree p' q') :
    Agree (fun b => p b && p' b) (fun c => q c && q' c) :=
  fun c b member => congrArg₂ Bool.and (first c b member) (second c b member)

theorem Agree.not {p : UInt8 → Bool} {q : Char → Bool} (agree : Agree p q) :
    Agree (fun b => !p b) (fun c => !q c) :=
  fun c b member => congrArg Bool.not (agree c b member)

/-- while index < bytes.len() && p(bytes[index]) { index += 1 } -/
def skipWhile (p : UInt8 → Bool) (bytes : List UInt8) (index : Nat) : Nat :=
  if inside : index < bytes.length then
    if p bytes[index] then skipWhile p bytes (index + 1) else index
  else index
termination_by bytes.length - index

/-- &bytes[start..stop]. -/
def byteRange (bytes : List UInt8) (start stop : Nat) : Option (List UInt8) :=
  if start ≤ stop ∧ stop ≤ bytes.length then some ((bytes.drop start).take (stop - start)) else none

/-- &s[start..stop]. -/
def Str.slice (start stop : Nat) (s : Str) : Option Str :=
  if stop < start then none
  else (Str.sliceFrom start s).bind fun rest => (Str.splitAt (stop - start) rest).map Prod.fst

/-- u8::is_ascii_whitespace. -/
def isAsciiWhitespaceByte (b : UInt8) : Bool := b == 32 || b == 9 || b == 10 || b == 13 || b == 12

theorem agree_whitespace : Agree isAsciiWhitespaceByte Str.isAsciiWhitespace :=
  (((agree_eq (k := ' ') (by decide)).or (agree_eq (k := '\t') (by decide))).or
    (agree_eq (k := '\n') (by decide))).or (agree_eq (k := '\r') (by decide)) |>.or
    (agree_eq (k := Char.ofNat 12) (by decide))

theorem length_utf8Bytes (s : Str) : (utf8Bytes s).length = Str.len s := by
  rw [utf8Bytes, List.length_flatMap, Str.len]
  simp

theorem utf8Bytes_append (front back : Str) :
    utf8Bytes (front ++ back) = utf8Bytes front ++ utf8Bytes back := List.flatMap_append

theorem skipWhile_eq (p : UInt8 → Bool) (front back : List UInt8) :
    skipWhile p (front ++ back) front.length = front.length + (back.takeWhile p).length := by
  induction back generalizing front with
  | nil =>
    rw [skipWhile, List.append_nil, dif_neg (lt_irrefl _)]
    rfl
  | cons b rest ih =>
    have inside : front.length < (front ++ b :: rest).length := by
      rw [List.length_append, List.length_cons]
      omega
    have here : (front ++ b :: rest)[front.length] = b := by simp
    have later := ih (front ++ [b])
    rw [List.append_assoc, List.singleton_append, List.length_append, List.length_singleton] at later
    rw [skipWhile, dif_pos inside, here, List.takeWhile_cons]
    split
    · rw [later, List.length_cons]
      omega
    · rfl

theorem takeWhile_utf8Bytes {p : UInt8 → Bool} {q : Char → Bool} (agree : Agree p q) (s : Str) :
    (utf8Bytes s).takeWhile p = utf8Bytes (s.takeWhile q) := by
  induction s with
  | nil => rfl
  | cons c rest ih =>
    have whole : utf8Bytes (c :: rest) = String.utf8EncodeChar c ++ utf8Bytes rest := List.flatMap_cons
    rw [whole, List.takeWhile_cons]
    cases goes : q c with
    | true =>
      have each : ∀ b ∈ String.utf8EncodeChar c, p b = true := fun b member => by
        rw [agree c b member, goes]
      have more : utf8Bytes (c :: rest.takeWhile q) =
          String.utf8EncodeChar c ++ utf8Bytes (rest.takeWhile q) := List.flatMap_cons
      rw [List.takeWhile_append_of_pos each, ih, if_pos rfl, more]
    | false =>
      obtain ⟨b, bytes, same⟩ := List.exists_cons_of_ne_nil (String.utf8EncodeChar_ne_nil (c := c))
      have stops : p b = false := by
        rw [agree c b (by simp [same]), goes]
      rw [same, List.cons_append, List.takeWhile_cons, stops, if_neg Bool.false_ne_true,
        if_neg Bool.false_ne_true]
      rfl

theorem head_byte (c : Char) (rest : Str) :
    ∃ b ∈ String.utf8EncodeChar c, (utf8Bytes (c :: rest)).head? = some b := by
  obtain ⟨b, more, same⟩ := List.exists_cons_of_ne_nil (String.utf8EncodeChar_ne_nil (c := c))
  refine ⟨b, by simp [same], ?_⟩
  rw [utf8Bytes, List.flatMap_cons, same, List.cons_append, List.head?_cons]

/-- This part of the text begins at the byte offset. -/
def Offset (text : Str) (index : Nat) (back : Str) : Prop :=
  ∃ front, text = front ++ back ∧ index = Str.len front

namespace Offset

variable {text back : Str} {index : Nat}

theorem start (text : Str) : Offset text 0 text := ⟨[], rfl, rfl⟩

theorem le (here : Offset text index back) : index + Str.len back = Str.len text := by
  obtain ⟨front, rfl, rfl⟩ := here
  rw [Str.len_append]

theorem ahead {front : Str} (here : Offset text index (front ++ back)) :
    Offset text (index + Str.len front) back := by
  obtain ⟨before, rfl, rfl⟩ := here
  exact ⟨before ++ front, by rw [List.append_assoc], by rw [Str.len_append]⟩

theorem next {c : Char} (here : Offset text index (c :: back)) (ascii : c.toNat < 128) :
    Offset text (index + 1) back := by
  have one : Str.len [c] = 1 := by rw [Str.len_cons, Str.utf8Size_ascii ascii]; rfl
  have step := @ahead text back index [c] here
  rwa [one] at step

/-- A loop over bytes goes on as the one over characters. -/
theorem skip {p : UInt8 → Bool} {q : Char → Bool} (agree : Agree p q) (here : Offset text index back) :
    skipWhile p (utf8Bytes text) index = index + Str.len (back.takeWhile q) ∧
      Offset text (skipWhile p (utf8Bytes text) index) (back.dropWhile q) := by
  have stop : skipWhile p (utf8Bytes text) index = index + Str.len (back.takeWhile q) := by
    obtain ⟨front, rfl, rfl⟩ := here
    rw [utf8Bytes_append, ← length_utf8Bytes, skipWhile_eq, takeWhile_utf8Bytes agree, length_utf8Bytes,
      length_utf8Bytes]
  refine ⟨stop, ?_⟩
  rw [stop]
  exact ahead (by rwa [List.takeWhile_append_dropWhile])

theorem byte (here : Offset text index back) : (utf8Bytes text)[index]? = (utf8Bytes back).head? := by
  obtain ⟨front, rfl, rfl⟩ := here
  rw [utf8Bytes_append, ← length_utf8Bytes, List.getElem?_append_right le_rfl, Nat.sub_self,
    List.head?_eq_getElem?]

theorem range {front : Str} (here : Offset text index (front ++ back)) :
    byteRange (utf8Bytes text) index (index + Str.len front) = some (utf8Bytes front) := by
  have size := here.le
  obtain ⟨before, rfl, rfl⟩ := here
  rw [Str.len_append] at size
  rw [byteRange, length_utf8Bytes, if_pos (by omega), utf8Bytes_append, utf8Bytes_append,
    ← length_utf8Bytes before, List.drop_left, Nat.add_sub_cancel_left, ← length_utf8Bytes, List.take_left]

theorem slice (here : Offset text index back) : Str.sliceFrom index text = some back := by
  obtain ⟨front, rfl, rfl⟩ := here
  exact Str.sliceFrom_len front back

theorem between {front : Str} (here : Offset text index (front ++ back)) :
    Str.slice index (index + Str.len front) text = some front := by
  have inner := Str.splitAt_len front back
  rw [Str.slice, if_neg (by omega), here.slice, Option.bind_some, Nat.add_sub_cancel_left, inner,
    Option.map_some]

theorem of_slice (slice : Str.sliceFrom index text = some back) : Offset text index back := by
  obtain ⟨⟨front, after⟩, split, rfl⟩ := Option.map_eq_some_iff.mp slice
  obtain ⟨whole, size⟩ := Str.splitAt_some split
  exact ⟨front, whole, size⟩

/-- The lower-cased copy has the same offsets. -/
theorem lower (here : Offset text index back) :
    Offset (Str.toAsciiLowercase text) index (Str.toAsciiLowercase back) := by
  obtain ⟨front, rfl, rfl⟩ := here
  exact ⟨Str.toAsciiLowercase front, List.map_append, (Str.len_toAsciiLowercase front).symm⟩

theorem of_lower {rest : Str} (here : Offset (Str.toAsciiLowercase text) index rest) :
    ∃ back, Offset text index back ∧ rest = Str.toAsciiLowercase back := by
  obtain ⟨front, whole, rfl⟩ := here
  obtain ⟨before, back, rfl, rfl, rfl⟩ := List.map_eq_append_iff.mp whole
  exact ⟨back, ⟨before, rfl, Str.len_toAsciiLowercase before⟩, rfl⟩

/-- Where a word is found in the lower-cased copy, it stands in the text. -/
theorem found {pat : Str} {chars : Nat} (here : Offset text index back)
    (found : Search.find pat (Str.toAsciiLowercase back) = some chars) :
    ∃ relative, Str.find pat (Str.toAsciiLowercase back) = some relative ∧
      Offset text (index + relative) (back.drop chars) ∧
      Offset text (index + relative + Str.len pat) (back.drop (chars + pat.length)) := by
  obtain ⟨before, after, whole, rfl⟩ := Search.find_split found
  obtain ⟨first, tail, rfl, ends, rfl⟩ := List.map_eq_append_iff.mp whole
  obtain ⟨front, name, rfl, rfl, rfl⟩ := List.map_eq_append_iff.mp ends
  have relative : Str.find (name.map Char.toLower) (Str.toAsciiLowercase (front ++ name ++ tail)) =
      some (Str.len front) := by
    rw [Str.find, found, Option.map_some, whole, List.append_assoc, List.take_left]
    exact congrArg some (Str.len_toAsciiLowercase front)
  have size : Str.len (name.map Char.toLower) = Str.len name := Str.len_toAsciiLowercase name
  have behind : (front ++ (name ++ tail)).drop (front.length + name.length) = tail := by
    rw [← List.append_assoc, ← List.length_append, List.drop_left]
  rw [List.append_assoc] at here
  refine ⟨Str.len front, relative, ?_, ?_⟩
  · rw [List.length_map, List.append_assoc, List.drop_left]
    exact ahead here
  · rw [List.length_map, List.length_map, List.append_assoc, behind, size]
    exact ahead (ahead here)

end Offset

/-- The rounds of a loop that moves a byte cursor through a text. A round is none where the source
panics; else it ends the loop, or pushes a string, perhaps, and moves the cursor. At the offset where the
rest of the text begins, it does what read does with that rest. -/
structure Rounds (text : Str) (round : Nat → Option (Option (Option Str × Nat)))
    (read : Str → Option (Option Str × Str)) : Prop where
  between : ∀ index ran, round index = some ran → ∃ back, Offset text index back
  ends : ∀ index back, Offset text index back → read back = none → round index = some none
  goes : ∀ index back, Offset text index back → ∀ value rest, read back = some (value, rest) →
    ∃ next, round index = some (some (value, next)) ∧ Offset text next rest ∧ index < next

/-- Where the cursor can be at the beginning of a round. -/
inductive Cursor (round : Nat → Option (Option (Option Str × Nat))) : Nat → Prop where
  | start : Cursor round 0
  | next {cursor next : Nat} {value : Option Str} (before : Cursor round cursor)
      (ran : round cursor = some (some (value, next))) : Cursor round next

namespace Rounds

variable {text : Str} {round : Nat → Option (Option (Option Str × Nat))}
  {read : Str → Option (Option Str × Str)}

theorem forward (rounds : Rounds text round read) {index next : Nat} {value : Option Str}
    (ran : round index = some (some (value, next))) : index < next ∧ ∃ back, Offset text next back := by
  obtain ⟨back, here⟩ := rounds.between index _ ran
  cases step : read back with
  | none =>
    rw [rounds.ends index back here step] at ran
    cases ran
  | some parts =>
    obtain ⟨cursor, same, after, later⟩ := rounds.goes index back here parts.1 parts.2 step
    rw [ran] at same
    cases same
    exact ⟨later, parts.2, after⟩

theorem offset (rounds : Rounds text round read) {cursor : Nat} (reached : Cursor round cursor) :
    ∃ back, Offset text cursor back := by
  cases reached with
  | start => exact ⟨text, Offset.start text⟩
  | next _ ran => exact (rounds.forward ran).2

/-- The cursor stays between two characters, and no round panics or leaves it where it was. -/
theorem safe (rounds : Rounds text round read) (cursor : Nat) (reached : Cursor round cursor) :
    (∃ front back, text = front ++ back ∧ cursor = Str.len front) ∧ round cursor ≠ none ∧
      ∀ value next, round cursor = some (some (value, next)) → cursor < next ∧ next ≤ Str.len text := by
  obtain ⟨back, here⟩ := rounds.offset reached
  refine ⟨here.imp fun front split => ⟨back, split⟩, ?_, fun value next ran => ?_⟩
  · cases step : read back with
    | none => simp [rounds.ends cursor back here step]
    | some parts =>
      obtain ⟨next, ran, _⟩ := rounds.goes cursor back here parts.1 parts.2 step
      simp [ran]
  · obtain ⟨forward, rest, after⟩ := rounds.forward ran
    have within := after.le
    exact ⟨forward, by omega⟩

end Rounds

end EalSync
