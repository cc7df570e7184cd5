import Mathlib

/-! Rust strings as lists of Unicode scalar values, with the methods of str and char that the
sources call. Lengths are those of the UTF-8 encoding. -/
namespace EalSync

abbrev Str := List Char

/-- U+0000. -/
def nul : Char := Char.ofNat 0

/-- A statement about the characters of a string is decided along the string. -/
instance (p : Char → Prop) [DecidablePred p] (s : Str) : Decidable (∀ c ∈ s, p c) :=
  List.decidableBAll p s

namespace Str

/-- char::is_whitespace, the Unicode property White_Space. -/
def isWhitespace (c : Char) : Bool :=
  let n := c.toNat
  (9 ≤ n && n ≤ 13) || n == 0x20 || n == 0x85 || n == 0xa0 || n == 0x1680 ||
    (0x2000 ≤ n && n ≤ 0x200a) || n == 0x2028 || n == 0x2029 || n == 0x202f || n == 0x205f ||
    n == 0x3000

/-- char::is_control, the Unicode category Cc. -/
def isControl (c : Char) : Bool := c.toNat < 0x20 || (0x7f ≤ c.toNat && c.toNat < 0xa0)

def isAsciiAlphanumeric (c : Char) : Bool := c.isAlphanum

/-- str::len, in bytes of UTF-8. -/
def len (s : Str) : Nat := (s.map Char.utf8Size).sum

def trim (s : Str) : Str := (s.dropWhile isWhitespace).rdropWhile isWhitespace

def trimEndMatches (c : Char) (s : Str) : Str := s.rdropWhile (· == c)

def toAsciiLowercase (s : Str) : Str := s.map Char.toLower

def eqIgnoreAsciiCase (s t : Str) : Bool := toAsciiLowercase s == toAsciiLowercase t

def startsWith (pat s : Str) : Bool := pat.isPrefixOf s

def endsWith (pat s : Str) : Bool := pat.isSuffixOf s

def stripPrefix (pat s : Str) : Option Str := if pat <+: s then some (s.drop pat.length) else none

def stripSuffix (pat s : Str) : Option Str :=
  if pat <:+ s then some (s.take (s.length - pat.length)) else none

def contains (pat s : Str) : Bool := decide (pat <:+: s)

/-- The Debug form, of the printable ASCII and tabs that the sources format so. -/
def debug (s : Str) : Str :=
  let quote := Char.ofNat 34
  quote :: (s.flatMap fun c =>
    if c == quote || c == '\\' then ['\\', c] else if c == '\t' then ['\\', 't'] else [c]) ++ [quote]

theorem trimEndMatches_eq_self {c last : Char} (front : Str) (other : last ≠ c) :
    trimEndMatches c (front ++ [last]) = front ++ [last] :=
  List.rdropWhile_concat_neg _ _ _ (by simpa using other)

theorem trim_eq_self {s : Str} (solid : ∀ c ∈ s, isWhitespace c = false) : trim s = s := by
  have front : s.dropWhile isWhitespace = s := by
    cases s with
    | nil => rfl
    | cons c rest => simp [solid c List.mem_cons_self]
  rw [trim, front, List.rdropWhile_eq_self_iff]
  intro hl
  simp [solid _ (List.getLast_mem hl)]

theorem toLower_eq_iff {c other : Char} (caseless : other.isAlpha = false) :
    c.toLower = other ↔ c = other := by
  constructor
  · rintro rfl
    rw [Char.isAlpha_toLower_eq_isAlpha] at caseless
    have lower : ¬c.isUpper = true := by
      intro upper
      simp [Char.isAlpha, upper] at caseless
    exact (Char.toLower_eq_of_not_isUpper lower).symm
  · rintro rfl
    have lower : ¬c.isUpper = true := by
      intro upper
      simp [Char.isAlpha, upper] at caseless
    exact Char.toLower_eq_of_not_isUpper lower

theorem stripPrefix_eq_some {pat s rest : Str} : stripPrefix pat s = some rest ↔ s = pat ++ rest := by
  unfold stripPrefix
  constructor
  · intro h
    split at h
    · rename_i front
      obtain ⟨more, rfl⟩ := front
      simpa using h
    · cases h
  · rintro rfl
    simp

theorem stripSuffix_eq_some {pat s rest : Str} : stripSuffix pat s = some rest ↔ s = rest ++ pat := by
  unfold stripSuffix
  constructor
  · intro h
    split at h
    · rename_i back
      obtain ⟨front, rfl⟩ := back
      simpa using h
    · cases h
  · rintro rfl
    simp

theorem startsWith_iff {pat s : Str} : startsWith pat s = true ↔ ∃ rest, s = pat ++ rest := by
  rw [startsWith, List.isPrefixOf_iff_prefix]
  exact ⟨fun ⟨rest, h⟩ => ⟨rest, h.symm⟩, fun ⟨rest, h⟩ => ⟨rest, h.symm⟩⟩

theorem endsWith_iff {pat s : Str} : endsWith pat s = true ↔ ∃ front, s = front ++ pat := by
  rw [endsWith, List.isSuffixOf_iff_suffix]
  exact ⟨fun ⟨front, h⟩ => ⟨front, h.symm⟩, fun ⟨front, h⟩ => ⟨front, h.symm⟩⟩

theorem utf8Size_ascii {c : Char} (ascii : c.toNat < 128) : c.utf8Size = 1 := by
  rw [Char.utf8Size_eq_one_iff, UInt32.le_iff_toNat_le]
  exact Nat.le_of_lt_succ ascii

theorem len_of_ascii {s : Str} (ascii : ∀ c ∈ s, c.toNat < 128) : len s = s.length := by
  induction s with
  | nil => rfl
  | cons c rest ih =>
    have one := utf8Size_ascii (ascii c List.mem_cons_self)
    have tail := ih fun x hx => ascii x (List.mem_cons_of_mem _ hx)
    simp only [len, List.map_cons, List.sum_cons, one, List.length_cons] at tail ⊢
    omega

end Str

end EalSync
