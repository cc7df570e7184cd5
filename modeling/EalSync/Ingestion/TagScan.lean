import EalSync.Ingestion.Describable
import EalSync.Std.Bytes

/-! The scan for the texts of one tag on byte offsets, as the source runs it: offsets are found in the
lower-cased copy and used on the original. -/
namespace EalSync.Ingestion.SemanticViews

open Percent

/-- What may follow the name in an opening tag. -/
def tagBoundaryByte (boundary : Option UInt8) : Bool :=
  boundary == some 62 || boundary == some 32 || boundary == some 9 || boundary == some 13 ||
    boundary == some 10

/-- The text that is pushed for an element, if it has any. -/
def elementText (content : Str) : Option Str :=
  let text := collapseWhitespace (decodeCommonEntities (stripMarkup content))
  if text.isEmpty then none else some (truncateChars text maxInputChars)

/-- A round from an opening tag on: none is a panic of the source. Else it is the end of the loop, or
the text that is pushed, if any, and the cursor. -/
def elementRound (html tag : Str) (opened : Nat) : Option (Option (Option Str × Nat)) :=
  let lower := Str.toAsciiLowercase html
  match Str.sliceFrom opened lower with
  | none => none
  | some fromOpen =>
    match Str.find ['>'] fromOpen with
    | none => some none
    | some openEnd =>
      let contentStart := opened + openEnd + 1
      match Str.sliceFrom contentStart lower with
      | none => none
      | some fromContent =>
        match Str.find (closingOf tag) fromContent with
        | none => some none
        | some close =>
          let contentEnd := contentStart + close
          (Str.slice contentStart contentEnd html).map fun content =>
            some (elementText content, contentEnd + Str.len (closingOf tag))

/-- One round of the loop. -/
def tagRound (html tag : Str) (cursor : Nat) : Option (Option (Option Str × Nat)) :=
  let lower := Str.toAsciiLowercase html
  match Str.sliceFrom cursor lower with
  | none => none
  | some rest =>
    match Str.find (openingOf tag) rest with
    | none => some none
    | some relative =>
      let opened := cursor + relative
      let boundary := (utf8Bytes lower)[opened + Str.len (openingOf tag)]?
      if !tagBoundaryByte boundary then some (some (none, opened + Str.len (openingOf tag)))
      else elementRound html tag opened

/-- The same round on the text that is still to be read. -/
def tagRead (tag text : Str) : Option (Option Str × Str) :=
  match Search.find (openingOf tag) (Str.toAsciiLowercase text) with
  | none => none
  | some opened =>
    if !tagBoundary (Str.toAsciiLowercase text)[opened + (openingOf tag).length]? then
      some (none, text.drop (opened + (openingOf tag).length))
    else (elementAt tag (text.drop opened)).map fun element => (elementText element.1, element.2)

theorem tagTexts_eq (tag : Str) (limit : Nat) (text : Str) :
    tagTexts tag limit text =
      if limit = 0 then []
      else ((tagRead tag text).map fun read =>
        read.1.toList ++ tagTexts tag (limit - read.1.toList.length) read.2).getD [] := by
  rw [tagTexts]
  split
  · rfl
  · rw [tagRead]
    split
    · rename_i none
      rw [none]
      rfl
    · rename_i opened found
      rw [found]
      dsimp only
      split
      · rfl
      · split
        · rename_i none
          rw [none]
          rfl
        · rename_i content after inside
          rw [inside, Option.map_some, Option.map_some, Option.getD_some]
          dsimp only [elementText]
          split
          · rfl
          · rfl

section

variable {html text tag : Str} {index : Nat}

theorem agree_boundary : Agree (fun b => tagBoundaryByte (some b)) (fun c => tagBoundary (some c)) :=
  ((((agree_eq (k := '>') (by decide)).or (agree_eq (k := ' ') (by decide))).or
    (agree_eq (k := '\t') (by decide))).or (agree_eq (k := '\r') (by decide))).or
    (agree_eq (k := '\n') (by decide))

/-- A byte of the lower-cased copy tells what the character there is. -/
theorem tagBoundary_at (here : Offset html index text) :
    tagBoundaryByte (utf8Bytes (Str.toAsciiLowercase html))[index]? =
      tagBoundary (Str.toAsciiLowercase text).head? := by
  rw [here.lower.byte]
  cases Str.toAsciiLowercase text with
  | nil => rfl
  | cons c rest =>
    obtain ⟨b, member, head⟩ := head_byte c rest
    rw [head]
    exact agree_boundary c b member

theorem elementRound_at (here : Offset html index text) :
    (elementAt tag text = none → elementRound html tag index = some none) ∧
      ∀ content after, elementAt tag text = some (content, after) →
        ∃ next, elementRound html tag index = some (some (elementText content, next)) ∧
          Offset html next after ∧ index < next := by
  rw [elementRound, elementAt, here.lower.slice]
  dsimp only
  cases found : Search.find ['>'] (Str.toAsciiLowercase text) with
  | none =>
    rw [Str.find_none found]
    exact ⟨fun _ => rfl, fun content after read => absurd read (by simp)⟩
  | some openEnd =>
    obtain ⟨relative, find, _, start⟩ := here.found found
    change Offset html (index + relative + 1) (text.drop (openEnd + 1)) at start
    rw [find]
    dsimp only
    rw [start.lower.slice]
    dsimp only
    cases closes : Search.find (closingOf tag) (Str.toAsciiLowercase (text.drop (openEnd + 1))) with
    | none =>
      rw [Str.find_none closes]
      exact ⟨fun _ => rfl, fun content after read => absurd read (by simp)⟩
    | some close =>
      obtain ⟨size, find, stop, after⟩ := start.found closes
      refine ⟨fun read => absurd read (by simp), fun content rest read => ?_⟩
      cases read
      have whole : Str.len (text.drop (openEnd + 1)) = Str.len ((text.drop (openEnd + 1)).take close) +
          Str.len ((text.drop (openEnd + 1)).drop close) := by
        rw [← Str.len_append, List.take_append_drop]
      have first := start.le
      have second := stop.le
      have taken : size = Str.len ((text.drop (openEnd + 1)).take close) := by omega
      have slice := @Offset.between html ((text.drop (openEnd + 1)).drop close) (index + relative + 1)
        ((text.drop (openEnd + 1)).take close) (by rwa [List.take_append_drop])
      rw [← taken] at slice
      rw [find]
      dsimp only
      rw [slice]
      exact ⟨_, rfl, after, by omega⟩

/-- At the offset where the rest of the text begins, a round does what is done with that rest. -/
theorem tagRound_at (here : Offset html index text) :
    (tagRead tag text = none → tagRound html tag index = some none) ∧
      ∀ value rest, tagRead tag text = some (value, rest) →
        ∃ next, tagRound html tag index = some (some (value, next)) ∧ Offset html next rest ∧
          index < next := by
  rw [tagRound, tagRead, here.lower.slice]
  dsimp only
  cases found : Search.find (openingOf tag) (Str.toAsciiLowercase text) with
  | none =>
    rw [Str.find_none found]
    exact ⟨fun _ => rfl, fun value rest read => absurd read (by simp)⟩
  | some opened =>
    obtain ⟨relative, find, opens, named⟩ := here.found found
    have boundary : (Str.toAsciiLowercase text)[opened + (openingOf tag).length]? =
        (Str.toAsciiLowercase (text.drop (opened + (openingOf tag).length))).head? := by
      rw [Str.toAsciiLowercase, Str.toAsciiLowercase, List.map_drop, List.head?_drop]
    have name : 1 ≤ Str.len (openingOf tag) := by
      rw [openingOf, Str.len_cons]
      exact Nat.le_add_right_of_le (Char.utf8Size_pos _)
    rw [find]
    dsimp only
    rw [tagBoundary_at named, boundary]
    cases ends : tagBoundary (Str.toAsciiLowercase (text.drop (opened + (openingOf tag).length))).head? with
    | false =>
      refine ⟨fun read => absurd read (by simp), fun value rest read => ?_⟩
      cases read
      exact ⟨_, rfl, named, by omega⟩
    | true =>
      obtain ⟨stops, goes⟩ := @elementRound_at html (text.drop opened) tag _ opens
      refine ⟨fun read => stops (Option.map_eq_none_iff.mp read), fun value rest read => ?_⟩
      obtain ⟨⟨content, after⟩, inner, same⟩ := Option.map_eq_some_iff.mp read
      obtain ⟨next, ran, begins, later⟩ := goes content after inner
      cases same
      exact ⟨next, ran, begins, by omega⟩

end

theorem tagRounds (html tag : Str) : Rounds html (tagRound html tag) (tagRead tag) where
  between index ran same := by
    cases slice : Str.sliceFrom index (Str.toAsciiLowercase html) with
    | none =>
      rw [tagRound, slice] at same
      cases same
    | some rest =>
      obtain ⟨text, here, _⟩ := (Offset.of_slice slice).of_lower
      exact ⟨text, here⟩
  ends _ _ here := (tagRound_at here).1
  goes _ _ here := (tagRound_at here).2

/-- The loop on byte offsets with the texts so far. -/
def tagScan (html tag : Str) (limit cursor : Nat) (result : List Str) : Option (List Str) :=
  if result.length < limit then
    match _round : tagRound html tag cursor with
    | none => none
    | some none => some result
    | some (some (value, next)) => tagScan html tag limit next (result ++ value.toList)
  else some result
termination_by Str.len html - cursor
decreasing_by
  obtain ⟨forward, text, here⟩ := (tagRounds html tag).forward _round
  have within := here.le
  omega

theorem tagScan_eq {html tag text : Str} {limit cursor : Nat} (here : Offset html cursor text)
    (result : List Str) :
    tagScan html tag limit cursor result =
      some (result ++ tagTexts tag (limit - result.length) text) := by
  induction size : Str.len html - cursor using Nat.strong_induction_on
    generalizing cursor text result with
  | _ n ih =>
    subst size
    rw [tagScan, tagTexts_eq]
    by_cases room : result.length < limit
    · rw [if_pos room, if_neg (by omega)]
      cases read : tagRead tag text with
      | none =>
        rw [(tagRound_at here).1 read, Option.map_none, Option.getD_none, List.append_nil]
      | some parts =>
        obtain ⟨next, ran, after, later⟩ := (tagRound_at here).2 parts.1 parts.2 read
        have within := after.le
        have left : limit - result.length - parts.1.toList.length =
            limit - (result ++ parts.1.toList).length := by
          rw [List.length_append]
          omega
        rw [ran, Option.map_some, Option.getD_some, ← List.append_assoc, left]
        exact ih (Str.len html - next) (by omega) after (result ++ parts.1.toList) rfl
    · rw [if_neg room, if_pos (by omega), List.append_nil]

theorem tagTexts_bounded (tag : Str) (limit : Nat) (rest : Str) :
    (tagTexts tag limit rest).length ≤ limit ∧
      ∀ text ∈ tagTexts tag limit rest, text ≠ [] ∧ text.length ≤ 700 := by
  fun_induction tagTexts tag limit rest with
  | case1 => simp
  | case2 => simp
  | case3 _ _ _ _ _ _ ih => exact ih
  | case4 => simp
  | case5 _ _ _ _ _ _ _ _ _ _ _ ih => exact ih
  | case6 limit _ some _ _ _ _ _ _ text visible ih =>
    have size := length_truncateChars (by decide : 0 < maxInputChars) text
    have long : 0 < text.length := List.length_pos_iff.mpr (by simpa using visible)
    have room : maxInputChars = 700 := rfl
    obtain ⟨few, each⟩ := ih
    rw [List.length_cons, List.forall_mem_cons]
    refine ⟨by omega, ⟨List.length_pos_iff.mp ?_, ?_⟩, each⟩
    · omega
    · omega

/-- The loop ends, no round panics or leaves the cursor where it was, and it returns at most so many
texts, none too long. -/
structure TagSafe (html tag : Str) (limit : Nat) : Prop where
  ends : tagScan html tag limit 0 [] = some (extractTagTexts html tag limit)
  rounds : ∀ cursor, Cursor (tagRound html tag) cursor →
    (∃ front back, html = front ++ back ∧ cursor = Str.len front) ∧ tagRound html tag cursor ≠ none ∧
      ∀ value next, tagRound html tag cursor = some (some (value, next)) →
        cursor < next ∧ next ≤ Str.len html
  few : (extractTagTexts html tag limit).length ≤ limit
  texts : ∀ text ∈ extractTagTexts html tag limit,
    text ≠ [] ∧ collapseWhitespace text = text ∧ text.length ≤ 700

theorem extractTagTexts_safe (html tag : Str) (limit : Nat) : TagSafe html tag limit where
  ends := by
    rw [tagScan_eq (Offset.start html), List.nil_append, List.length_nil, Nat.sub_zero, extractTagTexts]
  rounds := (tagRounds html tag).safe
  few := (tagTexts_bounded tag limit html).1
  texts text member := by
    obtain ⟨some, short⟩ := (tagTexts_bounded tag limit html).2 text member
    exact ⟨some, tagTexts_collapsed tag limit html text member, short⟩

end EalSync.Ingestion.SemanticViews
