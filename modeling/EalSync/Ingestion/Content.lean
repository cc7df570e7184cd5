import EalSync.Ingestion.Policy
import EalSync.Lib.Search
import EalSync.Std.Json
import EalSync.Std.Utf8

/-! src/ingestion/content.rs: the text of a response body. The source takes slices at byte
offsets; lower-casing ASCII keeps every offset, so here they count characters. -/
namespace EalSync.Ingestion

/-- value.split(';').next().unwrap_or(value).trim(). -/
def baseContentType (value : Str) : Str := Str.trim ((value.splitOn ';').headD value)

mutual

def collectJsonText (value : Json) (depth : Nat) (output : List Str) :
    Except IngestionError (List Str) :=
  if depth > 64 then .error ⟨"json_too_deep", "JSON nesting exceeds 64 levels"⟩
  else if output.length ≥ 20000 then
    .error ⟨"json_too_many_strings", "JSON contains more than 20000 text fragments"⟩
  else match value with
    | .string text => .ok (output ++ [text])
    | .array items => collectItems items depth output
    | .object members => collectMembers members depth output
    | .null | .bool _ | .number _ => .ok output

def collectItems (items : List Json) (depth : Nat) (output : List Str) :
    Except IngestionError (List Str) :=
  match items with
  | [] => .ok output
  | item :: rest =>
    match collectJsonText item (depth + 1) output with
    | .error e => .error e
    | .ok output => collectItems rest depth output

def collectMembers (members : List (Str × Json)) (depth : Nat) (output : List Str) :
    Except IngestionError (List Str) :=
  match members with
  | [] => .ok output
  | (key, value) :: rest =>
    match collectJsonText value (depth + 1) (output ++ [key]) with
    | .error e => .error e
    | .ok output => collectMembers rest depth output

end

def openingOf (tag : Str) : Str := '<' :: tag

def closingOf (tag : Str) : Str := '<' :: '/' :: tag ++ ['>']

/-- The end of the block that begins here: after its closing tag, or that of the document. -/
def blockEnd (tag output : Str) (start : Nat) : Nat :=
  ((Search.find (closingOf tag) ((Str.toAsciiLowercase output).drop start)).map fun relative =>
    start + relative + (closingOf tag).length).getD output.length

/-- String::replace_range(start..end, " "). -/
def blank (output : Str) (start stop : Nat) : Str := output.take start ++ ' ' :: output.drop stop

theorem opening_at {tag output : Str} {start : Nat}
    (found : Search.find (openingOf tag) (Str.toAsciiLowercase output) = some start) :
    ∃ front rest, output = front ++ '<' :: rest ∧ front.length = start ∧
      tag <+: Str.toAsciiLowercase rest := by
  obtain ⟨before, back, same, rfl⟩ := Search.find_split found
  rw [openingOf, List.append_assoc, Str.toAsciiLowercase, List.map_eq_append_iff] at same
  obtain ⟨front, block, rfl, lowered, same⟩ := same
  rw [List.cons_append, List.map_eq_cons_iff] at same
  obtain ⟨c, rest, rfl, angle, same⟩ := same
  cases (Str.toLower_eq_iff (by decide)).mp angle
  refine ⟨front, rest, rfl, by rw [← lowered, List.length_map], back, same.symm⟩

theorem start_lt_blockEnd {tag output : Str} {start : Nat} (inside : start < output.length) :
    start < blockEnd tag output start := by
  unfold blockEnd
  cases Search.find (closingOf tag) ((Str.toAsciiLowercase output).drop start) with
  | none => exact inside
  | some relative =>
    simp only [Option.map_some, Option.getD_some, closingOf, List.length_append, List.length_cons]
    omega

theorem count_blank {tag output : Str} {start : Nat}
    (found : Search.find (openingOf tag) (Str.toAsciiLowercase output) = some start) :
    (blank output start (blockEnd tag output start)).count '<' < output.count '<' := by
  obtain ⟨front, rest, rfl, rfl, _⟩ := opening_at found
  have later : front.length < blockEnd tag (front ++ '<' :: rest) front.length :=
    start_lt_blockEnd (by simp)
  obtain ⟨more, stop⟩ := Nat.exists_eq_add_of_lt later
  have left : (front ++ '<' :: rest).drop (front.length + more + 1) = rest.drop more := by
    rw [Nat.add_assoc, List.drop_append, List.drop_eq_nil_of_le (by omega), Nat.add_sub_cancel_left]
    rfl
  have fewer : (rest.drop more).count '<' ≤ rest.count '<' :=
    (List.drop_sublist more rest).count_le '<'
  rw [stop, blank, left, List.take_left]
  simp only [List.count_append, List.count_cons]
  simp
  omega

/-- The loop that removes the blocks of one tag. -/
def removeBlocks (tag output : Str) : Str :=
  match _found : Search.find (openingOf tag) (Str.toAsciiLowercase output) with
  | none => output
  | some start => removeBlocks tag (blank output start (blockEnd tag output start))
termination_by output.count '<'
decreasing_by exact count_blank _found

def ignoredTags : List Str :=
  ["script".toList, "style".toList, "noscript".toList, "template".toList, "svg".toList]

def removeIgnoredHtmlBlocks (input : Str) : Str :=
  ignoredTags.foldl (fun output tag => removeBlocks tag output) input

/-- The scan of strip_markup with its flag. -/
def strip : Bool → Str → Str
  | _, [] => []
  | insideTag, c :: rest =>
    if c = '<' then ' ' :: strip true rest
    else if c = '>' then ' ' :: strip false rest
    else if insideTag then strip insideTag rest
    else c :: strip insideTag rest

def stripMarkup (input : Str) : Str := strip false input

/-- The entities in the order of their replacement. -/
def commonEntities : List (Str × Char) :=
  [("&nbsp;".toList, ' '), ("&#160;".toList, ' '), ("&amp;".toList, '&'), ("&lt;".toList, '<'),
    ("&gt;".toList, '>'), ("&quot;".toList, Char.ofNat 34), ("&#39;".toList, Char.ofNat 39),
    ("&apos;".toList, Char.ofNat 39)]

def decodeCommonEntities (input : Str) : Str :=
  commonEntities.foldl (fun text entity => Search.replace entity.1 [entity.2] text) input

/-- The scan of collapse_whitespace with its output so far. -/
def collapse : Str → Bool → Str → Str
  | output, _, [] => output
  | output, pendingSpace, c :: rest =>
    if Str.isWhitespace c then collapse output (!output.isEmpty) rest
    else collapse (output ++ (if pendingSpace then [' '] else []) ++ [c]) false rest

def collapseWhitespace (input : Str) : Str := collapse [] false input

/-- The branches of extract_text on the base content type. -/
def decodedText (serde : SerdeJson) (base : Str) (body : List UInt8) : Except IngestionError Str :=
  let decoded := Utf8.fromUtf8Lossy body
  if base = "application/json".toList ∨ base = "application/feed+json".toList ∨
      Str.endsWith "+json".toList base then
    match serde.fromSlice body with
    | .error e => .error ⟨"invalid_json", "could not parse JSON: " ++ String.ofList e⟩
    | .ok value =>
      match collectJsonText value 0 [] with
      | .error e => .error e
      | .ok fragments => .ok ([' '].intercalate fragments)
  else if base = "text/html".toList ∨ base = "application/xhtml+xml".toList then
    .ok (stripMarkup (removeIgnoredHtmlBlocks decoded))
  else if base = "text/plain".toList then .ok decoded
  else .ok (stripMarkup decoded)

def extractText (serde : SerdeJson) (contentType : Str) (body : List UInt8) :
    Except IngestionError Str :=
  match decodedText serde (baseContentType contentType) body with
  | .error e => .error e
  | .ok text => .ok (collapseWhitespace (decodeCommonEntities text))

example : (extractText ⟨fun _ => .error []⟩ "text/html; charset=utf-8".toList (Percent.utf8Bytes
    "<style>.x</style><script>alert()</script><h1>New &amp; useful</h1><p>Rust".toList)).toOption =
    some "New & useful Rust".toList := by decide +kernel

end EalSync.Ingestion
