import EalSync.Ingestion.Links
import EalSync.Std.Bytes
import EalSync.Std.Utf8

/-! The scan for href values on byte offsets, as the source runs it: where its cursor goes, what it
slices and what it returns. -/
namespace EalSync.Ingestion.Links

open Percent

/-- The value goes on with this byte. -/
def valueByte (quote : Option UInt8) (b : UInt8) : Bool :=
  match quote with
  | some quote => b != quote
  | none => !isAsciiWhitespaceByte b && b != 62

/-- The end of a round: none is a panic of the source, else there is a value that is pushed, if any, and
the cursor. An index is at most isize::MAX, so its successor is no overflow. -/
def pushValue (bytes : List UInt8) (start index : Nat) : Option (Option (Option Str × Nat)) :=
  let cursor := min (index + 1) bytes.length
  if start < index then
    (byteRange bytes start index).map fun value => some (some (Utf8.fromUtf8Lossy value), cursor)
  else some (some (none, cursor))

/-- A round from behind the equals sign; the loop may also end. -/
def hrefValue (bytes : List UInt8) (index : Nat) : Option (Option (Option Str × Nat)) :=
  let index := skipWhile isAsciiWhitespaceByte bytes index
  match bytes[index]? with
  | none => some none
  | some first =>
    let quote := if first == 39 || first == 34 then some first else none
    let start := if quote.isSome then index + 1 else index
    pushValue bytes start (skipWhile (valueByte quote) bytes start)

/-- One round of the loop. -/
def hrefRound (html : Str) (cursor : Nat) : Option (Option (Option Str × Nat)) :=
  let bytes := utf8Bytes html
  match Str.sliceFrom cursor (Str.toAsciiLowercase html) with
  | none => none
  | some rest =>
    match Str.find hrefName rest with
    | none => some none
    | some relative =>
      let index := skipWhile isAsciiWhitespaceByte bytes (cursor + relative + 4)
      if bytes[index]? != some 61 then some (some (none, min index bytes.length))
      else hrefValue bytes (index + 1)

/-- The same round on the text that is still to be read. -/
def hrefRead (text : Str) : Option (Option Str × Str) :=
  match Search.find hrefName (Str.toAsciiLowercase text) with
  | none => none
  | some relative =>
    match (text.drop (relative + 4)).dropWhile Str.isAsciiWhitespace with
    | '=' :: more => (attributeValue more).map fun read =>
      (if read.1.isEmpty then none else some read.1, read.2)
    | rest => some (none, rest)

theorem hrefValues_eq (html : Str) :
    hrefValues html =
      ((hrefRead html).map fun read => read.1.toList ++ hrefValues read.2).getD [] := by
  rw [hrefValues, hrefRead]
  split
  · rename_i none
    rw [none]
    rfl
  · rename_i relative found
    rw [found]
    dsimp only
    split
    · rename_i text behind
      rw [behind]
      split
      · rename_i none
        change [] = (Option.map _ (Option.map _ (attributeValue text))).getD []
        rw [none]
        rfl
      · rename_i value rest read
        change _ = (Option.map _ (Option.map _ (attributeValue text))).getD []
        rw [read, Option.map_some, Option.map_some, Option.getD_some]
        cases empty : value.isEmpty with
        | true => rfl
        | false => rfl
    · rename_i other
      split
      · rename_i more equals
        exact absurd equals (other more)
      · rfl

section

variable {html text : Str} {index : Nat}

/-- The value goes on to a character that one byte encodes, behind which the cursor goes. -/
theorem pushValue_at {p : UInt8 → Bool} {q : Char → Bool} (agree : Agree p q)
    (ascii : ∀ c, q c = false → c.toNat < 128) (here : Offset html index text) :
    ∃ next, pushValue (utf8Bytes html) index (skipWhile p (utf8Bytes html) index) =
        some (some (if (text.takeWhile q).isEmpty then none else some (text.takeWhile q), next)) ∧
      Offset html next ((text.dropWhile q).drop 1) ∧ index ≤ next := by
  obtain ⟨stop, behind⟩ := here.skip agree
  have whole := behind.le
  have split : text.takeWhile q ++ text.dropWhile q = text := List.takeWhile_append_dropWhile
  have range := @Offset.range html (text.dropWhile q) index (text.takeWhile q) (by rwa [split])
  rw [← stop] at range
  refine ⟨min (skipWhile p (utf8Bytes html) index + 1) (utf8Bytes html).length, ?_, ?_, ?_⟩
  · rw [pushValue]
    cases value : text.takeWhile q with
    | nil =>
      rw [value] at stop
      rw [if_neg (by rw [stop]; exact lt_irrefl _), List.isEmpty_nil, if_pos rfl]
    | cons c rest =>
      have size := c.utf8Size_pos
      rw [value, Str.len_cons] at stop
      rw [value] at range
      rw [if_pos (by omega), range, Option.map_some, Utf8.fromUtf8Lossy_utf8Bytes, List.isEmpty_cons,
        if_neg Bool.false_ne_true]
  · rw [length_utf8Bytes]
    cases rest : text.dropWhile q with
    | nil =>
      rw [rest] at whole behind
      rw [Nat.min_eq_right (by rw [← whole]; exact Nat.le_succ _), ← whole]
      exact behind
    | cons c more =>
      have stops : q c = false := by
        have first := List.head?_dropWhile_not q text
        rw [rest] at first
        simpa using first
      rw [rest] at behind
      have next := behind.next (ascii c stops)
      have within := next.le
      rw [Nat.min_eq_left (by omega)]
      exact next
  · rw [length_utf8Bytes]
    omega

theorem agree_quote : Agree (fun b => b == 39 || b == 34) isQuote :=
  (agree_eq (k := Char.ofNat 39) (by decide)).or (agree_eq (k := Char.ofNat 34) (by decide))

theorem isQuote_ascii {c : Char} (quote : isQuote c = true) : c.toNat < 128 := by
  rw [isQuote, Bool.or_eq_true, beq_iff_eq, beq_iff_eq] at quote
  rcases quote with rfl | rfl <;> decide

theorem isAsciiWhitespace_ascii {c : Char} (space : Str.isAsciiWhitespace c = true) : c.toNat < 128 := by
  simp only [Str.isAsciiWhitespace, Bool.or_eq_true, beq_iff_eq] at space
  rcases space with (((rfl | rfl) | rfl) | rfl) | rfl <;> decide

theorem hrefValue_at (here : Offset html index text) :
    (attributeValue text = none → hrefValue (utf8Bytes html) index = some none) ∧
      ∀ value rest, attributeValue text = some (value, rest) →
        ∃ next, hrefValue (utf8Bytes html) index =
            some (some (if value.isEmpty then none else some value, next)) ∧
          Offset html next rest ∧ index ≤ next := by
  obtain ⟨spaces, behind⟩ := here.skip agree_whitespace
  have forward : index ≤ skipWhile isAsciiWhitespaceByte (utf8Bytes html) index := by omega
  rw [hrefValue, attributeValue]
  dsimp only
  cases start : text.dropWhile Str.isAsciiWhitespace with
  | nil =>
    rw [start] at behind
    rw [behind.byte]
    exact ⟨fun _ => rfl, fun value rest read => absurd read (by simp)⟩
  | cons first more =>
    rw [start] at behind
    obtain ⟨b, member, head⟩ := head_byte first more
    have quoted : (b == 39 || b == 34) = isQuote first := agree_quote first b member
    rw [behind.byte, head]
    dsimp only
    refine ⟨fun read => absurd read (by simp), fun value rest read => ?_⟩
    rw [quoted]
    cases quote : isQuote first with
    | true =>
      have ascii := isQuote_ascii quote
      have byte : b = first.toUInt8 := by
        rwa [String.utf8EncodeChar_eq_singleton (Str.utf8Size_ascii ascii), List.mem_singleton] at member
      have agree : Agree (valueByte (some b)) (valueGoesOn (some first)) := by
        rw [byte]
        exact (agree_eq ascii).not
      have stops (c : Char) (stop : valueGoesOn (some first) c = false) : c.toNat < 128 := by
        have same : c = first := by simpa [valueGoesOn] using stop
        rwa [same]
      obtain ⟨next, push, after, later⟩ := pushValue_at agree stops (behind.next ascii)
      rw [quote] at read
      cases read
      exact ⟨next, push, after, by omega⟩
    | false =>
      have agree : Agree (valueByte none) (valueGoesOn none) :=
        agree_whitespace.not.and (agree_eq (k := '>') (by decide)).not
      have stops (c : Char) (stop : valueGoesOn none c = false) : c.toNat < 128 := by
        rw [valueGoesOn, Bool.and_eq_false_iff, Bool.not_eq_false', bne_eq_false_iff_eq] at stop
        rcases stop with space | rfl
        · exact isAsciiWhitespace_ascii space
        · decide
      obtain ⟨next, push, after, later⟩ := pushValue_at agree stops behind
      rw [quote] at read
      cases read
      exact ⟨next, push, after, by omega⟩

/-- At the offset where the rest of the text begins, a round does what is done with that rest. -/
theorem hrefRound_at (here : Offset html index text) :
    (hrefRead text = none → hrefRound html index = some none) ∧
      ∀ value rest, hrefRead text = some (value, rest) →
        ∃ next, hrefRound html index = some (some (value, next)) ∧ Offset html next rest ∧
          index < next := by
  rw [hrefRound, hrefRead, here.lower.slice]
  dsimp only
  cases found : Search.find hrefName (Str.toAsciiLowercase text) with
  | none =>
    rw [Str.find_none found]
    exact ⟨fun _ => rfl, fun value rest read => absurd read (by simp)⟩
  | some chars =>
    obtain ⟨relative, find, _, named⟩ := here.found found
    change Offset html (index + relative + 4) (text.drop (chars + 4)) at named
    obtain ⟨spaces, behind⟩ := named.skip agree_whitespace
    have whole := behind.le
    have stays : min (skipWhile isAsciiWhitespaceByte (utf8Bytes html) (index + relative + 4))
        (Str.len html) = skipWhile isAsciiWhitespaceByte (utf8Bytes html) (index + relative + 4) :=
      Nat.min_eq_left (by omega)
    rw [find]
    dsimp only
    rw [length_utf8Bytes, stays]
    cases next : (text.drop (chars + 4)).dropWhile Str.isAsciiWhitespace with
    | nil =>
      rw [next] at behind
      rw [behind.byte]
      refine ⟨fun read => absurd read (by simp), fun value rest read => ?_⟩
      cases read
      exact ⟨_, rfl, behind, by omega⟩
    | cons c more =>
      rw [next] at behind
      obtain ⟨b, member, head⟩ := head_byte c more
      have equals : (b == 61) = (c == '=') := agree_eq (k := '=') (by decide) c b member
      rw [behind.byte, head]
      by_cases sign : c = '='
      · subst sign
        obtain ⟨ends, goes⟩ := hrefValue_at (behind.next (by decide))
        have byte : b = 61 := by simpa using equals
        rw [byte, if_neg (by decide)]
        refine ⟨fun read => ends (Option.map_eq_none_iff.mp read), fun value rest read => ?_⟩
        obtain ⟨⟨own, after⟩, inner, same⟩ := Option.map_eq_some_iff.mp read
        obtain ⟨cursor, push, begins, later⟩ := goes own after inner
        cases same
        exact ⟨cursor, push, begins, by omega⟩
      · have byte : b ≠ 61 := by simpa [sign] using equals
        rw [if_pos (by simpa using byte)]
        refine ⟨fun read => absurd read ?_, fun value rest read => ?_⟩
        · simp [sign]
        · have same : some (none, c :: more) = some (value, rest) := by
            simpa [sign] using read
          cases same
          exact ⟨_, rfl, behind, by omega⟩

end

theorem hrefRounds (html : Str) : Rounds html (hrefRound html) hrefRead where
  between index ran same := by
    cases slice : Str.sliceFrom index (Str.toAsciiLowercase html) with
    | none =>
      rw [hrefRound, slice] at same
      cases same
    | some rest =>
      obtain ⟨text, here, _⟩ := (Offset.of_slice slice).of_lower
      exact ⟨text, here⟩
  ends _ _ here := (hrefRound_at here).1
  goes _ _ here := (hrefRound_at here).2

/-- The loop on byte offsets with the values so far. -/
def hrefScan (html : Str) (cursor : Nat) (values : List Str) : Option (List Str) :=
  match _round : hrefRound html cursor with
  | none => none
  | some none => some values
  | some (some (value, next)) => hrefScan html next (values ++ value.toList)
termination_by Str.len html - cursor
decreasing_by
  obtain ⟨forward, text, here⟩ := (hrefRounds html).forward _round
  have within := here.le
  omega

theorem hrefScan_eq {html text : Str} {cursor : Nat} (here : Offset html cursor text) (values : List Str) :
    hrefScan html cursor values = some (values ++ hrefValues text) := by
  induction size : Str.len html - cursor using Nat.strong_induction_on
    generalizing cursor text values with
  | _ n ih =>
    subst size
    obtain ⟨ends, goes⟩ := hrefRound_at here
    rw [hrefValues_eq]
    cases read : hrefRead text with
    | none =>
      rw [hrefScan, ends read, Option.map_none, Option.getD_none, List.append_nil]
    | some parts =>
      obtain ⟨next, ran, after, later⟩ := goes parts.1 parts.2 read
      have within := after.le
      rw [hrefScan, ran, Option.map_some, Option.getD_some, ← List.append_assoc]
      exact ih (Str.len html - next) (by omega) after (values ++ parts.1.toList) rfl

theorem attributeValue_parts {text value rest : Str} (read : attributeValue text = some (value, rest)) :
    ∃ front ending, text = front ++ (value ++ (ending ++ rest)) := by
  have spaces := List.takeWhile_append_dropWhile (p := Str.isAsciiWhitespace) (l := text)
  rw [attributeValue] at read
  cases start : text.dropWhile Str.isAsciiWhitespace with
  | nil =>
    rw [start] at read
    cases read
  | cons first more =>
    rw [start] at read spaces
    dsimp only at read
    generalize (if isQuote first then some first else none) = quote at read
    have opening : ∃ before, first :: more = before ++ (if quote.isSome then more else first :: more) := by
      split
      · exact ⟨[first], rfl⟩
      · exact ⟨[], rfl⟩
    obtain ⟨before, opened⟩ := opening
    generalize (if quote.isSome then more else first :: more) = start at read opened
    cases read
    refine ⟨text.takeWhile Str.isAsciiWhitespace ++ before,
      (start.dropWhile (valueGoesOn quote)).take 1, ?_⟩
    rw [List.take_append_drop, List.takeWhile_append_dropWhile, List.append_assoc, ← opened, spaces]

/-- What a round has read of the text, with the value if there is one. -/
theorem hrefRead_parts {text rest : Str} {value : Option Str} (read : hrefRead text = some (value, rest)) :
    (∃ front ending, text = front ++ (value.getD [] ++ (ending ++ rest))) ∧ ∀ own ∈ value, own ≠ [] := by
  rw [hrefRead] at read
  split at read
  · cases read
  · rename_i relative _
    have spaces := List.takeWhile_append_dropWhile (p := Str.isAsciiWhitespace)
      (l := text.drop (relative + 4))
    have whole : text = (text.take (relative + 4) ++
        (text.drop (relative + 4)).takeWhile Str.isAsciiWhitespace) ++
          (text.drop (relative + 4)).dropWhile Str.isAsciiWhitespace := by
      rw [List.append_assoc, spaces, List.take_append_drop]
    split at read
    · rename_i more behind
      obtain ⟨⟨own, after⟩, inner, same⟩ := Option.map_eq_some_iff.mp read
      obtain ⟨front, ending, parts⟩ := attributeValue_parts inner
      cases same
      rw [behind, parts, ← List.cons_append, ← List.append_assoc] at whole
      cases own with
      | nil => exact ⟨⟨_, ending, whole⟩, by simp⟩
      | cons c tail => exact ⟨⟨_, ending, whole⟩, by simp⟩
    · cases read
      exact ⟨⟨_, [], whole⟩, by simp⟩

/-- The values stand in the text one after the other. -/
theorem hrefValues_inOrder (html : Str) :
    (∀ value ∈ hrefValues html, value ≠ []) ∧ Words.InOrder (hrefValues html) html := by
  induction size : Str.len html using Nat.strong_induction_on generalizing html with
  | _ n ih =>
    subst size
    rw [hrefValues_eq]
    cases read : hrefRead html with
    | none => exact ⟨by simp, trivial⟩
    | some parts =>
      obtain ⟨value, rest⟩ := parts
      obtain ⟨⟨front, ending, whole⟩, nonempty⟩ := hrefRead_parts read
      obtain ⟨next, _, here, later⟩ := (hrefRound_at (Offset.start html)).2 value rest read
      have within := here.le
      obtain ⟨each, occur⟩ := ih (Str.len rest) (by omega) rest rfl
      rw [Option.map_some, Option.getD_some]
      cases value with
      | none =>
        refine ⟨each, ?_⟩
        rw [whole]
        exact (occur.after ending).after front
      | some own =>
        refine ⟨List.forall_mem_cons.mpr ⟨nonempty own rfl, each⟩, front, ending ++ rest, ?_,
          occur.after ending⟩
        rw [List.append_assoc]
        exact whole

/-- The loop ends, no round panics or leaves the cursor where it was, and the values are parts of the
text. -/
structure HrefSafe (html : Str) : Prop where
  ends : hrefScan html 0 [] = some (extractHrefValues html)
  rounds : ∀ cursor, Cursor (hrefRound html) cursor →
    (∃ front back, html = front ++ back ∧ cursor = Str.len front) ∧ hrefRound html cursor ≠ none ∧
      ∀ value next, hrefRound html cursor = some (some (value, next)) →
        cursor < next ∧ next ≤ Str.len html
  nonempty : ∀ value ∈ extractHrefValues html, value ≠ []
  inOrder : Words.InOrder (extractHrefValues html) html

theorem extractHrefValues_safe (html : Str) : HrefSafe html where
  ends := by
    rw [hrefScan_eq (Offset.start html), List.nil_append, extractHrefValues]
  rounds := (hrefRounds html).safe
  nonempty := (hrefValues_inOrder html).1
  inOrder := (hrefValues_inOrder html).2

end EalSync.Ingestion.Links
