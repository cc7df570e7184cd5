import EalSync.Std.Str

/-! Percent-decoding of strings to bytes, where no percent sign and its two hexadecimal digits
reach across a slash. -/
namespace EalSync.Percent

def utf8Bytes (s : Str) : List UInt8 := s.flatMap String.utf8EncodeChar

def hexValue (b : UInt8) : Option UInt8 :=
  if 48 ≤ b && b ≤ 57 then some (b - 48)
  else if 65 ≤ b && b ≤ 70 then some (b - 55)
  else if 97 ≤ b && b ≤ 102 then some (b - 87)
  else none

def percentTriple (x y z : UInt8) : Option UInt8 :=
  if x = 37 then (hexValue y).bind fun high => (hexValue z).map (high * 16 + ·) else none

/-- Each percent sign with two hexadecimal digits after it becomes their byte. -/
def percentDecode : List UInt8 → List UInt8
  | [] => []
  | [x] => [x]
  | [x, y] => [x, y]
  | x :: y :: z :: rest =>
    match percentTriple x y z with
    | some b => b :: percentDecode rest
    | none => x :: percentDecode (y :: z :: rest)

theorem percentDecode_some {x y z b : UInt8} (triple : percentTriple x y z = some b)
    (rest : List UInt8) : percentDecode (x :: y :: z :: rest) = b :: percentDecode rest := by
  rw [percentDecode, triple]

theorem percentDecode_none {x y z : UInt8} (triple : percentTriple x y z = none)
    (rest : List UInt8) : percentDecode (x :: y :: z :: rest) = x :: percentDecode (y :: z :: rest) := by
  rw [percentDecode, triple]

/-- A slash is no hexadecimal digit, so no triple reaches across it. -/
theorem percentTriple_slash (x y : UInt8) :
    percentTriple x 47 y = none ∧ percentTriple x y 47 = none := by
  have slash : hexValue 47 = none := by decide
  simp [percentTriple, slash]

theorem percentDecode_slash_cons (back : List UInt8) :
    percentDecode (47 :: back) = 47 :: percentDecode back := by
  match back with
  | [] => rfl
  | [_] => rfl
  | y :: z :: rest =>
    have literal : percentTriple 47 y z = none := if_neg (by decide)
    exact percentDecode_none literal rest

theorem percentDecode_before_slash (x : UInt8) (back : List UInt8) :
    percentDecode (x :: 47 :: back) = x :: 47 :: percentDecode back := by
  match back with
  | [] => rfl
  | z :: rest => rw [percentDecode_none (percentTriple_slash x z).1, percentDecode_slash_cons]

theorem percentDecode_slash (front back : List UInt8) :
    percentDecode (front ++ 47 :: back) = percentDecode front ++ 47 :: percentDecode back := by
  induction front using percentDecode.induct with
  | case1 => exact percentDecode_slash_cons back
  | case2 x => exact percentDecode_before_slash x back
  | case3 x y =>
    have reach := percentDecode_none (percentTriple_slash x y).2 back
    rw [percentDecode_before_slash] at reach
    exact reach
  | case4 x y z rest b triple ih =>
    have step := percentDecode_some triple (rest ++ 47 :: back)
    rw [ih] at step
    rw [percentDecode_some triple]
    exact step
  | case5 x y z rest triple ih =>
    have step := percentDecode_none triple (rest ++ 47 :: back)
    rw [List.cons_append, List.cons_append] at ih
    rw [ih] at step
    rw [percentDecode_none triple]
    exact step

/-- Some triple of the string stands for the byte. -/
def Encodes (xs : List UInt8) (b : UInt8) : Prop :=
  ∃ x y z, [x, y, z] <:+: xs ∧ percentTriple x y z = some b

theorem Encodes.mono {xs ys : List UInt8} {b : UInt8} (inside : xs <:+: ys) :
    Encodes xs b → Encodes ys b :=
  fun ⟨x, y, z, triple, value⟩ => ⟨x, y, z, triple.trans inside, value⟩

/-- A string that encodes no byte of its decoded form is that form. -/
theorem percentDecode_literal {xs : List UInt8} (plain : ∀ b ∈ percentDecode xs, ¬Encodes xs b) :
    percentDecode xs = xs := by
  induction xs using percentDecode.induct with
  | case1 => rfl
  | case2 => rfl
  | case3 => rfl
  | case4 x y z rest value triple ih =>
    rw [percentDecode_some triple] at plain
    exact absurd ⟨x, y, z, List.prefix_append [x, y, z] rest |>.isInfix, triple⟩
      (plain value List.mem_cons_self)
  | case5 x y z rest triple ih =>
    rw [percentDecode_none triple] at plain ⊢
    have inside : y :: z :: rest <:+: x :: y :: z :: rest := (List.suffix_cons _ _).isInfix
    rw [ih fun b member encoded => plain b (List.mem_cons_of_mem _ member) (encoded.mono inside)]

theorem utf8Bytes_ascii {s : Str} (ascii : ∀ c ∈ s, c.toNat < 128) :
    utf8Bytes s = s.map Char.toUInt8 := by
  induction s with
  | nil => rfl
  | cons c rest ih =>
    have one := Str.utf8Size_ascii (ascii c List.mem_cons_self)
    rw [utf8Bytes, List.flatMap_cons, String.utf8EncodeChar_eq_singleton one, List.map_cons]
    exact congrArg _ (ih fun x member => ascii x (List.mem_cons_of_mem _ member))

theorem toUInt8_injective {c d : Char} (one : c.toNat < 128) (two : d.toNat < 128)
    (same : c.toUInt8 = d.toUInt8) : c = d := by
  have value := congrArg UInt8.toNat same
  change c.toNat % 256 = d.toNat % 256 at value
  rw [Nat.mod_eq_of_lt (by omega), Nat.mod_eq_of_lt (by omega)] at value
  exact Char.toNat_inj.mp value

end EalSync.Percent
