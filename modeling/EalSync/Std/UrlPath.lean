import EalSync.Lib.Segments
import EalSync.Std.Url
import EalSync.Std.Utf8

/-! The path state of the URL standard, which Url::parse follows: the segments of an absolute path
are percent-encoded, and dot segments are resolved. Which printable characters of a path are
encoded is a parameter, as versions of the url crate differ in it. -/
namespace EalSync.UrlPath

def percentEncodeByte (b : UInt8) : Str :=
  ['%', (Nat.digitChar (b.toNat / 16)).toUpper, (Nat.digitChar (b.toNat % 16)).toUpper]

/-- The characters of a set become the encodings of their bytes. -/
def percentEncode (encodes : Char → Bool) (s : Str) : Str :=
  s.flatMap fun c => if encodes c then (String.utf8EncodeChar c).flatMap percentEncodeByte else [c]

def encodingChars : Str := "%0123456789ABCDEF".toList

/-- A percent-encode set for paths: what it leaves can stand in a path, and it leaves separators,
dots and encodings. -/
structure EncodeSet where
  encodes : Char → Bool
  keeps : ∀ c, encodes c = false → printable c ∧ c ≠ '?' ∧ c ≠ '#'
  spares : ∀ c ∈ '/' :: '.' :: encodingChars, encodes c = false

def singleDot (segment : Str) : Bool :=
  let lower := Str.toAsciiLowercase segment
  lower == ".".toList || lower == "%2e".toList

def doubleDot (segment : Str) : Bool :=
  let lower := Str.toAsciiLowercase segment
  lower == "..".toList || lower == ".%2e".toList || lower == "%2e.".toList || lower == "%2e%2e".toList

/-- One segment: a dot segment at the end leaves an empty one behind. -/
def pathStep (path : List Str) (buffer : Str) (last : Bool) : List Str :=
  if doubleDot buffer then path.dropLast ++ (if last then [[]] else [])
  else if singleDot buffer then path ++ (if last then [[]] else [])
  else path ++ [buffer]

def pathSteps (set : EncodeSet) (path : List Str) : List Str → List Str
  | [] => path
  | segment :: rest =>
    pathSteps set (pathStep path (percentEncode set.encodes segment) rest.isEmpty) rest

/-- The path of a special URL whose input after the authority is this. -/
def pathState (set : EncodeSet) (input : Str) : Str :=
  '/' :: ['/'].intercalate (pathSteps set [] (input.tail.splitOn '/'))

theorem dotSegment_cases {segment : Str} :
    dotSegment segment = true ↔ singleDot segment = true ∨ doubleDot segment = true := by
  simp only [dotSegment, singleDot, doubleDot, decide_eq_true_eq, List.mem_cons, List.not_mem_nil,
    Bool.or_eq_true, beq_iff_eq]
  tauto

theorem pathStep_named {path : List Str} {buffer : Str} (named : dotSegment buffer = false)
    (last : Bool) : pathStep path buffer last = path ++ [buffer] := by
  rw [← Bool.not_eq_true, dotSegment_cases, not_or, Bool.not_eq_true, Bool.not_eq_true] at named
  rw [pathStep, named.2, named.1]
  rfl

theorem pathSteps_named {set : EncodeSet} {segments : List Str}
    (named : ∀ segment ∈ segments, dotSegment (percentEncode set.encodes segment) = false)
    (path : List Str) :
    pathSteps set path segments = path ++ segments.map (percentEncode set.encodes) := by
  induction segments generalizing path with
  | nil => rw [pathSteps, List.map_nil, List.append_nil]
  | cons segment rest ih =>
    rw [pathSteps, pathStep_named (named segment List.mem_cons_self),
      ih fun x member => named x (List.mem_cons_of_mem _ member)]
    simp

/-- A buffer is kept, or the path is cut back and may be ended. -/
theorem pathStep_cases (path : List Str) (buffer : Str) (last : Bool) :
    (dotSegment buffer = false ∧ pathStep path buffer last = path ++ [buffer]) ∨
      ∃ front, front <+: path ∧ pathStep path buffer last = front ++ if last then [[]] else [] := by
  by_cases double : doubleDot buffer = true
  · exact .inr ⟨path.dropLast, List.dropLast_prefix path, if_pos double⟩
  · by_cases single : singleDot buffer = true
    · exact .inr ⟨path, List.prefix_rfl, by rw [pathStep, if_neg double, if_pos single]⟩
    · have named : dotSegment buffer = false := by
        rw [← Bool.not_eq_true, dotSegment_cases, not_or]
        exact ⟨single, double⟩
      exact .inl ⟨named, pathStep_named named last⟩

theorem pathSteps_ne_nil {set : EncodeSet} {segments : List Str} (some : segments ≠ [])
    (path : List Str) : pathSteps set path segments ≠ [] := by
  induction segments generalizing path with
  | nil => exact absurd rfl some
  | cons segment rest ih =>
    cases rest with
    | cons next more => exact ih (by simp) _
    | nil =>
      rw [pathSteps, pathSteps]
      rcases pathStep_cases path (percentEncode set.encodes segment) true with
        ⟨_, same⟩ | ⟨front, _, same⟩
      · simp [same]
      · simp [same]

/-- What holds of an empty segment and of the buffers that are kept holds of the whole path. -/
theorem pathSteps_forall {P : Str → Prop} (empty : P []) {set : EncodeSet} {segments : List Str}
    (named : ∀ segment ∈ segments, dotSegment (percentEncode set.encodes segment) = false →
      P (percentEncode set.encodes segment))
    {path : List Str} (holds : ∀ segment ∈ path, P segment) :
    ∀ segment ∈ pathSteps set path segments, P segment := by
  induction segments generalizing path with
  | nil => exact holds
  | cons segment rest ih =>
    refine ih (fun x member => named x (List.mem_cons_of_mem segment member)) fun x member => ?_
    rcases pathStep_cases path (percentEncode set.encodes segment) rest.isEmpty with
      ⟨kept, same⟩ | ⟨front, inside, same⟩
    · rw [same] at member
      rcases List.mem_append.mp member with old | new
      · exact holds x old
      · rw [List.mem_singleton.mp new]
        exact named segment List.mem_cons_self kept
    · rw [same] at member
      rcases List.mem_append.mp member with old | new
      · exact holds x (inside.subset old)
      · cases last : rest.isEmpty with
        | false => simp [last] at new
        | true =>
          rw [last, if_pos rfl] at new
          rwa [List.mem_singleton.mp new]

theorem mem_percentEncodeByte {b : UInt8} {c : Char} (member : c ∈ percentEncodeByte b) :
    c ∈ encodingChars := by
  have digits : ∀ n : Fin 16, (Nat.digitChar n.val).toUpper ∈ encodingChars := by decide
  have bound := b.toNat_lt
  simp only [percentEncodeByte, List.mem_cons, List.not_mem_nil, or_false] at member
  rcases member with rfl | rfl | rfl
  · decide
  · exact digits ⟨b.toNat / 16, by omega⟩
  · exact digits ⟨b.toNat % 16, by omega⟩

theorem mem_percentEncode {encodes : Char → Bool} {s : Str} {c : Char}
    (member : c ∈ percentEncode encodes s) : (c ∈ s ∧ encodes c = false) ∨ c ∈ encodingChars := by
  obtain ⟨x, inside, member⟩ := List.mem_flatMap.mp member
  split at member
  · obtain ⟨b, _, member⟩ := List.mem_flatMap.mp member
    exact .inr (mem_percentEncodeByte member)
  · rename_i kept
    rw [List.mem_singleton.mp member]
    exact .inl ⟨inside, by simpa using kept⟩

theorem percentEncode_kept {encodes : Char → Bool} {s : Str} (kept : ∀ c ∈ s, encodes c = false) :
    percentEncode encodes s = s := by
  induction s with
  | nil => rfl
  | cons c rest ih =>
    rw [percentEncode, List.flatMap_cons, kept c List.mem_cons_self]
    exact congrArg (c :: ·) (ih fun x member => kept x (List.mem_cons_of_mem _ member))

/-- Only the dot has an encoding that begins with the byte of a dot. -/
theorem utf8EncodeChar_dot {c : Char} {more : List UInt8}
    (bytes : String.utf8EncodeChar c = 46 :: more) : c = '.' := by
  have whole := Utf8.fromUtf8Lossy_encode c []
  have dot := Utf8.fromUtf8Lossy_encode '.' more
  rw [List.append_nil, bytes] at whole
  exact (List.cons.inj (whole.symm.trans dot)).1

theorem percentEncodeByte_lower (b : UInt8) : Str.toAsciiLowercase (percentEncodeByte b) =
    ['%', Nat.digitChar (b.toNat / 16), Nat.digitChar (b.toNat % 16)] := by
  have digits : ∀ n : Fin 16, (Nat.digitChar n.val).toUpper.toLower = Nat.digitChar n.val := by decide
  have bound := b.toNat_lt
  have high := digits ⟨b.toNat / 16, by omega⟩
  have low := digits ⟨b.toNat % 16, by omega⟩
  simp only [percentEncodeByte, Str.toAsciiLowercase, List.map_cons, List.map_nil, high, low]
  rfl

def dotForms : List Str :=
  [".".toList, "%2e".toList, "..".toList, ".%2e".toList, "%2e.".toList, "%2e%2e".toList]

/-- A percent sign in a dot segment begins the encoding of a dot. -/
theorem dotForms_percent : ∀ form ∈ dotForms, ∀ back ∈ form.tails, back.head? = some '%' →
    back.take 3 = "%2e".toList := by decide

theorem dotForms_encoding {b : UInt8} {form : Str} (member : form ∈ dotForms)
    (inside : Str.toAsciiLowercase (percentEncodeByte b) <:+: form) : b = 46 := by
  have digit : ∀ n : Fin 16, (Nat.digitChar n.val = '2' → n.val = 2) ∧
      (Nat.digitChar n.val = 'e' → n.val = 14) := by decide
  obtain ⟨back, ⟨rest, rfl⟩, suffix⟩ := List.infix_iff_prefix_suffix.mp inside
  rw [percentEncodeByte_lower] at suffix
  have dot := dotForms_percent form member _ ((List.mem_tails _ _).mpr suffix) rfl
  have same : [Nat.digitChar (b.toNat / 16), Nat.digitChar (b.toNat % 16)] = ['2', 'e'] :=
    (List.cons.inj dot).2
  have bound := b.toNat_lt
  have high := (digit ⟨b.toNat / 16, by omega⟩).1 (List.cons.inj same).1
  have low := (digit ⟨b.toNat % 16, by omega⟩).2 (List.cons.inj (List.cons.inj same).2).1
  apply UInt8.toNat_inj.mp
  change b.toNat = 46
  dsimp only at high low
  omega

/-- Encoding makes no dot segment of another one. -/
theorem dotSegment_percentEncode {set : EncodeSet} {s : Str}
    (dot : dotSegment (percentEncode set.encodes s) = true) : dotSegment s = true := by
  by_cases kept : ∀ c ∈ s, set.encodes c = false
  · rwa [percentEncode_kept kept] at dot
  · push Not at kept
    obtain ⟨c, member, encoded⟩ := kept
    rw [ne_eq, Bool.not_eq_false] at encoded
    obtain ⟨b, more, bytes⟩ := List.exists_cons_of_ne_nil (String.utf8EncodeChar_ne_nil (c := c))
    have inside : percentEncodeByte b <:+: percentEncode set.encodes s := by
      obtain ⟨front, back, rfl⟩ := List.append_of_mem member
      refine ⟨percentEncode set.encodes front,
        more.flatMap percentEncodeByte ++ percentEncode set.encodes back, ?_⟩
      simp [percentEncode, encoded, bytes]
    rw [dotSegment, decide_eq_true_eq] at dot
    rw [dotForms_encoding dot (inside.map Char.toLower)] at bytes
    rw [utf8EncodeChar_dot bytes, set.spares '.' (by simp)] at encoded
    cases encoded

section Fields

variable {set : EncodeSet} {input : Str}

/-- What may stand in the path part of a URL: no delimiter of what comes after it, no character
that the parser drops, and no backslash, which it takes for a slash. -/
structure PlainPath (path : Str) : Prop where
  absolute : path.head? = some '/'
  characters : ∀ c ∈ path, c ≠ '?' ∧ c ≠ '#' ∧ c ≠ '\\' ∧ Str.isControl c = false
  trimmed : path.getLast? ≠ some ' '

theorem pathSteps_characters (plain : ∀ c ∈ input, c ≠ '\\') :
    ∀ segment ∈ pathSteps set [] (input.tail.splitOn '/'), ∀ c ∈ segment,
      printable c ∧ c ≠ '?' ∧ c ≠ '#' ∧ c ≠ '\\' ∧ c ≠ '/' := by
  refine pathSteps_forall (by simp) ?_ (by simp)
  intro segment member _ c found
  rcases mem_percentEncode found with ⟨inside, kept⟩ | encoding
  · have allowed := set.keeps c kept
    have whole := (List.tail_suffix input).subset ((Segments.segment_infix member).subset inside)
    refine ⟨allowed.1, allowed.2.1, allowed.2.2, plain c whole, ?_⟩
    rintro rfl
    exact Segments.notMem_segment member inside
  · have all : ∀ c ∈ encodingChars, printable c ∧ c ≠ '?' ∧ c ≠ '#' ∧ c ≠ '\\' ∧ c ≠ '/' := by
      decide
    exact all c encoding

theorem pathState_segments (plain : ∀ c ∈ input, c ≠ '\\') :
    (pathState set input).splitOn '/' = [] :: pathSteps set [] (input.tail.splitOn '/') := by
  have solid : ∀ segment ∈ pathSteps set [] (input.tail.splitOn '/'), '/' ∉ segment :=
    fun segment member slash => (pathSteps_characters plain segment member '/' slash).2.2.2.2 rfl
  have some : pathSteps set [] (input.tail.splitOn '/') ≠ [] :=
    pathSteps_ne_nil (List.splitOn_ne_nil '/' input.tail) []
  have split := List.splitOn_append_cons_self (a := '/') []
    (['/'].intercalate (pathSteps set [] (input.tail.splitOn '/')))
  rw [List.splitOn_intercalate _ solid some] at split
  exact split

/-- Nothing in the path is left to encode. -/
theorem pathState_kept (plain : ∀ c ∈ input, c ≠ '\\') :
    ∀ c ∈ pathState set input, set.encodes c = false := by
  intro c member
  by_cases slash : c = '/'
  · exact slash ▸ set.spares '/' List.mem_cons_self
  · obtain ⟨segment, found, inside⟩ := Segments.mem_segment member slash
    rw [pathState_segments plain] at found
    rcases List.mem_cons.mp found with rfl | found
    · cases inside
    · refine pathSteps_forall (P := fun s => ∀ c ∈ s, set.encodes c = false) (by simp) ?_ (by simp)
        segment found c inside
      intro s _ _ x member
      rcases mem_percentEncode member with ⟨_, kept⟩ | encoding
      · exact kept
      · exact set.spares x (List.mem_cons_of_mem _ (List.mem_cons_of_mem _ encoding))

theorem pathState_printable (plain : ∀ c ∈ input, c ≠ '\\') :
    ∀ c ∈ pathState set input, printable c ∧ c ≠ '?' ∧ c ≠ '#' ∧ c ≠ '\\' := by
  intro c member
  by_cases slash : c = '/'
  · subst slash
    decide
  · obtain ⟨segment, found, inside⟩ := Segments.mem_segment member slash
    rw [pathState_segments plain] at found
    rcases List.mem_cons.mp found with rfl | found
    · cases inside
    · have one := pathSteps_characters plain segment found c inside
      exact ⟨one.1, one.2.1, one.2.2.1, one.2.2.2.1⟩

theorem pathState_resolved (plain : ∀ c ∈ input, c ≠ '\\') :
    ∀ segment ∈ (pathState set input).splitOn '/', dotSegment segment = false := by
  rw [pathState_segments plain]
  intro segment member
  rcases List.mem_cons.mp member with rfl | found
  · decide
  · exact pathSteps_forall (P := fun s => dotSegment s = false) (by decide) (fun _ _ named => named)
      (by simp) segment found

/-- A path that is already encoded and resolved stays as it is. -/
theorem pathState_fixed (absolute : input.head? = some '/') (kept : ∀ c ∈ input, set.encodes c = false)
    (resolved : ∀ segment ∈ input.splitOn '/', dotSegment segment = false) :
    pathState set input = input := by
  obtain ⟨rest, rfl⟩ := List.head?_eq_some_iff.mp absolute
  have literal : ∀ segment ∈ rest.splitOn '/', percentEncode set.encodes segment = segment :=
    fun segment member => percentEncode_kept fun c inside =>
      kept c (List.mem_cons_of_mem _ ((Segments.segment_infix member).subset inside))
  have named : ∀ segment ∈ rest.splitOn '/',
      dotSegment (percentEncode set.encodes segment) = false := by
    intro segment member
    rw [literal segment member]
    apply resolved
    rw [show '/' :: rest = [] ++ '/' :: rest from rfl, List.splitOn_append_cons_self]
    exact List.mem_append_right _ member
  rw [pathState, List.tail_cons, pathSteps_named named, List.nil_append, List.map_congr_left literal,
    List.map_id', List.intercalate_splitOn]

end Fields

end EalSync.UrlPath
