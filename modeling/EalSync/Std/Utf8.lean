import EalSync.Std.Percent

/-! String::from_utf8_lossy: bytes to characters, with one replacement character for each longest
run of bytes that begins a character and cannot be completed. -/
namespace EalSync.Utf8

def continuation (b : UInt8) : Bool := 0x80 ≤ b && b ≤ 0xbf

/-- The bytes that may follow this first byte of a character of three or four. -/
def second (first b : UInt8) : Bool :=
  continuation b && !(first == 0xe0 && b < 0xa0) && !(first == 0xed && 0x9f < b) &&
    !(first == 0xf0 && b < 0x90) && !(first == 0xf4 && 0x8f < b)

/-- How many bytes one replacement character stands for. -/
def maximalSubpart : List UInt8 → Nat
  | first :: b :: rest =>
    if 0xe0 ≤ first && first ≤ 0xef && second first b then 2
    else if 0xf0 ≤ first && first ≤ 0xf4 && second first b then
      if rest.head?.any continuation then 3 else 2
    else 1
  | _ => 1

theorem maximalSubpart_pos (bytes : List UInt8) : 0 < maximalSubpart bytes := by
  unfold maximalSubpart
  repeat' split
  all_goals decide

def fromUtf8Lossy (bytes : List UInt8) : Str :=
  match bytes with
  | [] => []
  | b :: rest =>
    match (b :: rest).toByteArray.utf8DecodeChar? 0 with
    | some c => c :: fromUtf8Lossy ((b :: rest).drop c.utf8Size)
    | none => Char.ofNat 0xfffd :: fromUtf8Lossy ((b :: rest).drop (maximalSubpart (b :: rest)))
termination_by bytes.length
decreasing_by
  · have size := c.utf8Size_pos
    simp only [List.length_drop, List.length_cons]
    omega
  · have size := maximalSubpart_pos (b :: rest)
    simp only [List.length_drop, List.length_cons]
    omega

theorem fromUtf8Lossy_encode (c : Char) (rest : List UInt8) :
    fromUtf8Lossy (String.utf8EncodeChar c ++ rest) = c :: fromUtf8Lossy rest := by
  have decoded : (String.utf8EncodeChar c ++ rest).toByteArray.utf8DecodeChar? 0 = some c := by
    rw [List.toByteArray_append]
    exact ByteArray.utf8DecodeChar?_utf8EncodeChar_append
  have size := String.length_utf8EncodeChar c
  have left : (String.utf8EncodeChar c ++ rest).drop c.utf8Size = rest := by
    rw [← size, List.drop_left]
  obtain ⟨b, more, same⟩ := List.exists_cons_of_ne_nil
    (List.append_ne_nil_of_left_ne_nil String.utf8EncodeChar_ne_nil rest)
  rw [same] at decoded left ⊢
  rw [fromUtf8Lossy, decoded]
  exact congrArg (c :: fromUtf8Lossy ·) left

/-- What is valid UTF-8 loses nothing. -/
theorem fromUtf8Lossy_utf8Bytes (s : Str) : fromUtf8Lossy (Percent.utf8Bytes s) = s := by
  induction s with
  | nil => rw [Percent.utf8Bytes, List.flatMap_nil, fromUtf8Lossy]
  | cons c rest ih =>
    rw [Percent.utf8Bytes, List.flatMap_cons, fromUtf8Lossy_encode, ← Percent.utf8Bytes, ih]

example : fromUtf8Lossy [104, 0xe2, 0x82, 0x28, 0xff] = ['h', Char.ofNat 0xfffd, '(', Char.ofNat 0xfffd] := by
  decide +kernel

end EalSync.Utf8
