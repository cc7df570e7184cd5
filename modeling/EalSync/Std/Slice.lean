import EalSync.Lib.Search
import EalSync.Std.Str

/-! The methods of str that take byte offsets. An offset past the end or inside a character is a
panic of the source, here none. -/
namespace EalSync.Str

/-- What is before a byte offset, and what is from it. -/
def splitAt : Nat → Str → Option (Str × Str)
  | 0, s => some ([], s)
  | _ + 1, [] => none
  | offset + 1, c :: rest =>
    if c.utf8Size ≤ offset + 1 then
      (splitAt (offset + 1 - c.utf8Size) rest).map fun parts => (c :: parts.1, parts.2)
    else none

/-- str::find of a str, a byte offset. -/
def find (pat s : Str) : Option Nat := (Search.find pat s).map fun chars => len (s.take chars)

/-- s[start..]. -/
def sliceFrom (start : Nat) (s : Str) : Option Str := (splitAt start s).map Prod.snd

/-- String::replace_range(start..stop, new). -/
def replaceRange (s : Str) (start stop : Nat) (new : Str) : Option Str :=
  if stop < start then none
  else
    match splitAt start s with
    | none => none
    | some (front, rest) => (splitAt (stop - start) rest).map fun parts => front ++ new ++ parts.2

theorem find_none {pat s : Str} (absent : Search.find pat s = none) : find pat s = none := by
  rw [find, absent, Option.map_none]

theorem len_cons (c : Char) (rest : Str) : len (c :: rest) = c.utf8Size + len rest := by
  rw [len, len, List.map_cons, List.sum_cons]

theorem len_append (front back : Str) : len (front ++ back) = len front + len back := by
  rw [len, List.map_append, List.sum_append, len, len]

theorem splitAt_len (front back : Str) : splitAt (len front) (front ++ back) = some (front, back) := by
  induction front with
  | nil => cases back <;> rfl
  | cons c rest ih =>
    obtain ⟨size, known⟩ := Nat.exists_eq_succ_of_ne_zero c.utf8Size_pos.ne'
    have whole : len (c :: rest) = size + len rest + 1 := by
      rw [len_cons, known]
      omega
    have left : size + len rest + 1 - c.utf8Size = len rest := by omega
    rw [whole, List.cons_append, splitAt, if_pos (by omega), left, ih]
    rfl

/-- Only between two characters can a text be split. -/
theorem splitAt_some {offset : Nat} {s front back : Str} (split : splitAt offset s = some (front, back)) :
    s = front ++ back ∧ offset = len front := by
  induction s generalizing offset front with
  | nil =>
    cases offset with
    | zero =>
      cases split
      exact ⟨rfl, rfl⟩
    | succ offset => cases split
  | cons c rest ih =>
    cases offset with
    | zero =>
      cases split
      exact ⟨rfl, rfl⟩
    | succ offset =>
      rw [splitAt] at split
      split at split
      · rename_i room
        obtain ⟨⟨before, after⟩, inner, same⟩ := Option.map_eq_some_iff.mp split
        cases same
        obtain ⟨rfl, left⟩ := ih inner
        refine ⟨rfl, ?_⟩
        change offset + 1 = len (c :: before)
        rw [len_cons]
        omega
      · cases split

theorem sliceFrom_len (front back : Str) : sliceFrom (len front) (front ++ back) = some back := by
  rw [sliceFrom, splitAt_len]
  rfl

theorem replaceRange_len (front block back new : Str) :
    replaceRange (front ++ (block ++ back)) (len front) (len front + len block) new =
      some (front ++ new ++ back) := by
  have inner := splitAt_len block back
  rw [replaceRange, if_neg (by omega), splitAt_len, Nat.add_sub_cancel_left]
  dsimp only
  rw [inner]
  rfl

theorem alpha_ascii {c : Char} (alpha : c.isAlpha = true) : c.toNat < 128 := by
  simp only [Char.isAlpha, Char.isUpper, Char.isLower, Bool.or_eq_true, Bool.and_eq_true,
    decide_eq_true_eq] at alpha
  rcases alpha with ⟨_, high⟩ | ⟨_, high⟩ <;>
  · rw [UInt32.le_iff_toNat_le] at high
    exact lt_of_le_of_lt high (by decide)

theorem utf8Size_toLower (c : Char) : c.toLower.utf8Size = c.utf8Size := by
  cases alpha : c.isAlpha with
  | false => rw [(toLower_eq_iff alpha).mpr rfl]
  | true =>
    have lower : c.toLower.isAlpha = true := by rw [Char.isAlpha_toLower_eq_isAlpha, alpha]
    rw [utf8Size_ascii (alpha_ascii alpha), utf8Size_ascii (alpha_ascii lower)]

/-- Lower-casing ASCII keeps every offset. -/
theorem len_toAsciiLowercase (s : Str) : len (toAsciiLowercase s) = len s := by
  induction s with
  | nil => rfl
  | cons c rest ih =>
    rw [toAsciiLowercase, List.map_cons, len_cons, len_cons, utf8Size_toLower]
    exact congrArg _ ih

end EalSync.Str
