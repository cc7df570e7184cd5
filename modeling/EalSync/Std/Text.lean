import EalSync.Lib.Words
import EalSync.Std.Str

/-! The methods of str, char and the ordered collections that read a text word by word. The Unicode
tables of the standard library are the fields of a Unicode, so a result holds for every version. -/
namespace EalSync

structure Unicode where
  isAlphabetic : Char → Bool
  isNumeric : Char → Bool
  isUppercase : Char → Bool
  toLowercase : Char → Str

namespace Unicode

def isAlphanumeric (unicode : Unicode) (c : Char) : Bool :=
  unicode.isAlphabetic c || unicode.isNumeric c

/-- The tables on ASCII. -/
def ascii : Unicode where
  isAlphabetic := Char.isAlpha
  isNumeric := Char.isDigit
  isUppercase := Char.isUpper
  toLowercase c := [c.toLower]

end Unicode

namespace Str

def splitWhitespace (s : Str) : List Str := Words.words isWhitespace s

def isAsciiWhitespace (c : Char) : Bool :=
  c == ' ' || c == '\t' || c == '\n' || c == '\r' || c == Char.ofNat 12

def splitAsciiWhitespace (s : Str) : List Str := Words.words isAsciiWhitespace s

def trimEnd (s : Str) : Str := s.rdropWhile isWhitespace

def trimMatches (p : Char → Bool) (s : Str) : Str := (s.dropWhile p).rdropWhile p

def hexDigits : List Char := "0123456789abcdefABCDEF".toList

def isAsciiHexdigit (c : Char) : Bool := List.contains hexDigits c

/-- The order of the UTF-8 encodings, which is that of the scalar values. -/
def le (s t : Str) : Bool := decide (s ≤ t)

/-- counts.entry(key).or_default() += 1 on a map in the order of its keys. -/
def increment (key : Str) : List (Str × Nat) → List (Str × Nat)
  | [] => [(key, 1)]
  | (k, n) :: rest =>
    if key = k then (k, n + 1) :: rest
    else if le key k then (key, 1) :: (k, n) :: rest
    else (k, n) :: increment key rest

/-- A BTreeSet of the items, in order. -/
def sorted (items : List Str) : List Str :=
  (items.foldl (fun counts item => increment item counts) []).map Prod.fst

/-- The items kept by a filter on the insertion of a key into a HashSet. -/
def firsts {α : Type} (key : α → Str) : List Str → List α → List α
  | _, [] => []
  | seen, item :: rest =>
    if seen.contains (key item) then firsts key seen rest else item :: firsts key (key item :: seen) rest

/-- slice::chunks. -/
def chunks {α : Type} (size : Nat) (items : List α) : List (List α) := items.toChunks size

theorem trimEnd_eq_nil {s : Str} : trimEnd s = [] ↔ ∀ c ∈ s, isWhitespace c = true :=
  List.rdropWhile_eq_nil_iff

theorem trim_eq_nil {s : Str} : trim s = [] ↔ ∀ c ∈ s, isWhitespace c = true := by
  have split := List.takeWhile_append_dropWhile (p := isWhitespace) (l := s)
  rw [trim, List.rdropWhile_eq_nil_iff]
  constructor
  · intro all c member
    rw [← split, List.mem_append] at member
    rcases member with member | member
    · exact List.mem_takeWhile_imp member
    · exact all c member
  · exact fun all c member => all c (List.dropWhile_sublist _ |>.subset member)

/-- Trimming the end keeps a text that is not blank so. -/
theorem trim_trimEnd_eq_nil {s : Str} : trim (trimEnd s) = [] ↔ trim s = [] := by
  rw [trim_eq_nil, trim_eq_nil, ← trimEnd_eq_nil, ← trimEnd_eq_nil, trimEnd, trimEnd,
    List.rdropWhile_idempotent]

theorem length_trimEnd_le (s : Str) : (trimEnd s).length ≤ s.length :=
  (List.rdropWhile_prefix isWhitespace s).length_le

theorem hexdigit_toLower {c : Char} (hex : isAsciiHexdigit c = true) :
    isAsciiHexdigit c.toLower = true := by
  have closed : ∀ c ∈ hexDigits, isAsciiHexdigit c.toLower = true := by decide
  exact closed c (List.contains_iff_mem.mp hex)

theorem hexdigit_ascii {c : Char} (hex : isAsciiHexdigit c = true) : c.toNat < 128 := by
  have closed : ∀ c ∈ hexDigits, c.toNat < 128 := by decide
  exact closed c (List.contains_iff_mem.mp hex)

theorem toAsciiLowercase_idem (s : Str) : toAsciiLowercase (toAsciiLowercase s) = toAsciiLowercase s := by
  rw [toAsciiLowercase, toAsciiLowercase, List.map_map]
  exact List.map_congr_left fun c _ => Char.toLower_toLower_eq_toLower c

theorem eqIgnoreAsciiCase_iff {s t : Str} :
    eqIgnoreAsciiCase s t = true ↔ toAsciiLowercase s = toAsciiLowercase t := by
  rw [eqIgnoreAsciiCase, beq_iff_eq]

end Str

end EalSync
