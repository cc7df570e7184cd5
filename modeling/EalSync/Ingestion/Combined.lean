import EalSync.Ingestion.Describable

/-! The combined text of a document as a code of its embedding inputs: one line for each, as many as
there is room for. -/
namespace EalSync.Ingestion

section

variable {α : Type} (weight : α → Nat)

/-- The first items, as many as there is room for. -/
def fitting : Nat → List α → List α
  | _, [] => []
  | room, item :: rest =>
    if weight item ≤ room then item :: fitting (room - weight item) rest else []

theorem fitting_prefix (room : Nat) (items : List α) : fitting weight room items <+: items := by
  induction items generalizing room with
  | nil => exact List.prefix_rfl
  | cons item rest ih =>
    rw [fitting]
    split
    · exact List.cons_prefix_cons.mpr ⟨rfl, ih _⟩
    · exact List.nil_prefix

theorem fitting_fits (room : Nat) (items : List α) :
    ((fitting weight room items).map weight).sum ≤ room := by
  induction items generalizing room with
  | nil => exact Nat.zero_le room
  | cons item rest ih =>
    rw [fitting]
    split
    · have later := ih (room - weight item)
      rw [List.map_cons, List.sum_cons]
      omega
    · exact Nat.zero_le room

/-- No longer prefix fits. -/
theorem fitting_longest {room : Nat} {items longer : List α} (front : longer <+: items)
    (fits : (longer.map weight).sum ≤ room) : longer.length ≤ (fitting weight room items).length := by
  induction items generalizing room longer with
  | nil => simp [List.prefix_nil.mp front]
  | cons item rest ih =>
    cases longer with
    | nil => exact Nat.zero_le _
    | cons first more =>
      obtain ⟨rfl, inside⟩ := List.cons_prefix_cons.mp front
      rw [List.map_cons, List.sum_cons] at fits
      have later := @ih (room - weight first) more inside (by omega)
      rw [fitting, if_pos (by omega)]
      exact Nat.succ_le_succ later

end

/-- A line without its newline. -/
def lineOf (input : EmbeddingInput) : Str := inputKindLabel input.kind ++ ": ".toList ++ input.text

/-- The label and the text of a line. -/
def decodeLine (line : Str) : Option (Str × Str) :=
  (Search.find ": ".toList line).map fun label => (line.take label, line.drop (label + 2))

/-- A text as the lines of some inputs. -/
def decodeLines (text : Str) : List (Option (Str × Str)) := (text.splitOn '\n').map decodeLine

theorem decodeLine_lineOf (input : EmbeddingInput) :
    decodeLine (lineOf input) = some (inputKindLabel input.kind, input.text) := by
  have headed : Search.Headed ": ".toList := ⟨':', [' '], rfl, by decide⟩
  have plain : ¬": ".toList <:+: inputKindLabel input.kind := by
    cases input.kind <;> decide
  have found := Search.find_here headed plain input.text
  rw [← List.append_assoc] at found
  rw [decodeLine, lineOf, found, Option.map_some]
  simp

namespace SemanticDocument

open SemanticViews Words

theorem inputLine_eq (input : EmbeddingInput) : inputLine input = lineOf input ++ ['\n'] := rfl

/-- The loop with its output so far. -/
theorem combineLines_eq {output : Str} (short : output.length ≤ maxEmbeddingTextChars)
    (inputs : List EmbeddingInput) :
    combineLines output inputs = output ++
      (fitting (fun input => (inputLine input).length) (maxEmbeddingTextChars - output.length)
        inputs).flatMap inputLine := by
  induction inputs generalizing output with
  | nil => simp [combineLines, fitting]
  | cons input rest ih =>
    have size : (output ++ inputLine input).length = output.length + (inputLine input).length :=
      List.length_append
    rw [combineLines, fitting]
    by_cases fits : output.length + (inputLine input).length > maxEmbeddingTextChars
    · rw [if_pos fits, if_neg (by omega), List.flatMap_nil, List.append_nil]
    · have left : maxEmbeddingTextChars - (output ++ inputLine input).length =
          maxEmbeddingTextChars - output.length - (inputLine input).length := by omega
      rw [if_neg fits, if_pos (by omega), ih (by omega), left, List.flatMap_cons, List.append_assoc]

/-- The lines end in a newline. -/
theorem flatMap_inputLine {kept : List EmbeddingInput} (some : kept ≠ []) :
    kept.flatMap inputLine = spaced '\n' (kept.map lineOf) ++ ['\n'] := by
  induction kept with
  | nil => exact absurd rfl some
  | cons input rest ih =>
    by_cases last : rest = []
    · simp [last, inputLine_eq, spaced]
    · rw [List.flatMap_cons, ih last, inputLine_eq, List.map_cons, spaced_cons _ (by simpa using last)]
      simp

theorem lines_end {kept : List EmbeddingInput} (some : kept ≠ []) :
    ∃ front, ∃ input ∈ kept, spaced '\n' (kept.map lineOf) = front ++ input.text := by
  obtain ⟨init, input, rfl⟩ := (List.eq_nil_or_concat kept).resolve_left some
  rw [List.concat_eq_append, List.map_append, List.map_singleton]
  by_cases first : init = []
  · exact ⟨inputKindLabel input.kind ++ ": ".toList, input, by simp, by simp [first, lineOf, spaced]⟩
  · refine ⟨spaced '\n' (init.map lineOf) ++ '\n' :: (inputKindLabel input.kind ++ ": ".toList), input,
      by simp, ?_⟩
    rw [spaced_concat _ (by simpa using first)]
    simp [lineOf]

/-- The newline at the end is all that is trimmed, for no input ends in whitespace. -/
theorem trimEnd_lines {kept : List EmbeddingInput} (some : kept ≠ [])
    (texts : ∀ input ∈ kept, input.text ≠ [] ∧ Tidy Str.isWhitespace input.text) :
    Str.trimEnd (kept.flatMap inputLine) = spaced '\n' (kept.map lineOf) := by
  obtain ⟨front, input, member, shape⟩ := lines_end some
  obtain ⟨nonempty, tidy⟩ := texts input member
  rw [flatMap_inputLine some, Str.trimEnd, List.rdropWhile_concat_pos _ _ _ (by decide), shape,
    List.rdropWhile_eq_self_iff]
  intro more
  have last := List.getLast?_eq_some_getLast more
  rw [List.getLast?_append_of_ne_nil _ nonempty] at last
  simp [tidy.last _ last]

end SemanticDocument

namespace SemanticViews

theorem viewInput_collapsed (kind : EmbeddingInputKind) (weight : ℚ) (text : Str) :
    ∀ input ∈ viewInput kind weight text, Collapsed input.text := by
  by_cases long : Viewable text
  · rw [viewInput_of_viewable long, List.forall_mem_singleton]
    apply Collapsed.truncate
    rw [collapseWhitespace_eq]
    exact collapsed_collapse text
  · simp [viewInput_of_short long]

section

variable {unicode : Unicode} {crate : UrlCrate} {contentType : Str} {body : List UInt8}
  {canonicalUrl contentText : Str}

theorem documentViews_collapsed :
    ∀ input ∈ documentViews unicode crate contentType body canonicalUrl contentText,
      Collapsed input.text := by
  intro input member
  rw [documentViews, pushedInputs_eq] at member
  obtain ⟨group, _, inside⟩ := List.mem_flatMap.mp member
  obtain ⟨text, _, pushed⟩ := List.mem_flatMap.mp inside
  exact viewInput_collapsed _ _ text input pushed

/-- Every input of a document has a text of three characters or more, in which all whitespace is
single spaces. -/
theorem keptInputs_collapsed :
    ∀ input ∈ keptInputs unicode crate contentType body canonicalUrl contentText,
      3 ≤ input.text.length ∧ Collapsed input.text := by
  intro input member
  refine ⟨(keptInputs_pushed input member).size.1, ?_⟩
  have inside := List.mem_map_of_mem (f := unnumbered) member
  rw [keptInputs_unnumbered] at inside
  exact documentViews_collapsed (unnumbered input) (dedupe_sublist.subset inside)

end

end SemanticViews

open SemanticViews SemanticDocument Words

/-- The text is the lines of the longest prefix of the inputs that there is room for, and can be read
back line by line. -/
structure DecodablePrefix (inputs kept : List EmbeddingInput) (text : Str) : Prop where
  front : kept <+: inputs
  fits : (kept.map fun input => (inputLine input).length).sum ≤ 24000
  longest : ∀ longer, longer <+: inputs →
    (longer.map fun input => (inputLine input).length).sum ≤ 24000 → longer.length ≤ kept.length
  lines : text = ['\n'].intercalate (kept.map lineOf)
  unterminated : text.getLast? ≠ some '\n'
  decoded : decodeLines text = kept.map fun input => some (inputKindLabel input.kind, input.text)

section

variable {document : SemanticDocument EmbeddingInput}

theorem label_plain (kind : EmbeddingInputKind) : '\n' ∉ inputKindLabel kind := by
  cases kind <;> decide

theorem lineOf_plain {input : EmbeddingInput} (collapsed : Collapsed input.text) :
    '\n' ∉ lineOf input := by
  intro member
  simp only [lineOf, List.mem_append] at member
  rcases member with (label | colon) | text
  · exact label_plain input.kind label
  · exact absurd colon (by decide)
  · exact absurd (collapsed.own '\n' text (by decide)) (by decide)

/-- The first line fits. -/
theorem fitting_ne_nil (some : document.embeddingInputs ≠ [])
    (texts : ∀ input ∈ document.embeddingInputs, input.text.length ≤ 700) :
    fitting (fun input => (inputLine input).length) 24000 document.embeddingInputs ≠ [] := by
  obtain ⟨input, rest, inputs⟩ := List.exists_cons_of_ne_nil some
  have text := texts input (by simp [inputs])
  have label := label_length input.kind
  have colon : ": ".toList.length = 2 := rfl
  have fits : (inputLine input).length ≤ 24000 := by
    simp only [inputLine_eq, lineOf, List.length_append, List.length_singleton]
    omega
  rw [inputs, fitting, if_pos fits]
  exact List.cons_ne_nil _ _

theorem decodeLines_lines {kept : List EmbeddingInput} (some : kept ≠ [])
    (texts : ∀ input ∈ kept, Collapsed input.text) :
    decodeLines (spaced '\n' (kept.map lineOf)) =
      kept.map fun input => Option.some (inputKindLabel input.kind, input.text) := by
  have plain : ∀ line ∈ kept.map lineOf, '\n' ∉ line := by
    intro line member
    obtain ⟨input, inside, rfl⟩ := List.mem_map.mp member
    exact lineOf_plain (texts input inside)
  rw [decodeLines, spaced, List.splitOn_intercalate _ plain (by simpa using some), List.map_map]
  exact List.map_congr_left fun input _ => decodeLine_lineOf input

/-- Of inputs without newlines, the first of which fits. -/
theorem decodablePrefix (some : document.embeddingInputs ≠ [])
    (texts : ∀ input ∈ document.embeddingInputs,
      (3 ≤ input.text.length ∧ input.text.length ≤ 700) ∧ Collapsed input.text) :
    DecodablePrefix document.embeddingInputs
      (fitting (fun input => (inputLine input).length) 24000 document.embeddingInputs)
      document.combinedEmbeddingText := by
  have nonempty := fitting_ne_nil some fun input member => (texts input member).1.2
  have fits := fitting_fits (fun input => (inputLine input).length) 24000 document.embeddingInputs
  have front := fitting_prefix (fun input => (inputLine input).length) 24000 document.embeddingInputs
  have longest (longer : List EmbeddingInput) (begins : longer <+: document.embeddingInputs)
      (room : (longer.map fun input => (inputLine input).length).sum ≤ 24000) :
      longer.length ≤ (fitting (fun input => (inputLine input).length) 24000
        document.embeddingInputs).length :=
    fitting_longest (fun input => (inputLine input).length) begins room
  generalize keep :
    fitting (fun input => (inputLine input).length) 24000 document.embeddingInputs = kept at *
  have inside (input : EmbeddingInput) (member : input ∈ kept) :
      input.text ≠ [] ∧ Tidy Str.isWhitespace input.text := by
    obtain ⟨size, collapsed⟩ := texts input (front.subset member)
    exact ⟨List.ne_nil_of_length_pos (by omega), collapsed.tidy⟩
  have lines : document.combinedEmbeddingText = spaced '\n' (kept.map lineOf) := by
    rw [combinedEmbeddingText, combineLines_eq (Nat.zero_le _), List.nil_append]
    change Str.trimEnd ((fitting _ 24000 _).flatMap inputLine) = _
    rw [keep]
    exact trimEnd_lines nonempty inside
  refine ⟨front, fits, longest, lines, ?_, ?_⟩
  · obtain ⟨before, input, member, shape⟩ := lines_end nonempty
    obtain ⟨visible, tidy⟩ := inside input member
    rw [lines, shape, List.getLast?_append_of_ne_nil _ visible]
    intro newline
    exact absurd (tidy.last '\n' newline) (by decide)
  · rw [lines]
    exact decodeLines_lines nonempty fun input member => (texts input (front.subset member)).2

end

theorem combinedEmbeddingText_decodable {unicode : Unicode} {serde : SerdeJson} {crate : UrlCrate}
    {contentType : Str} {body : List UInt8} {canonicalUrl : Str}
    {document : SemanticDocument EmbeddingInput}
    (ok : extractSemanticDocument unicode serde crate contentType body canonicalUrl = .ok document) :
    ∃ kept, DecodablePrefix document.embeddingInputs kept document.combinedEmbeddingText := by
  obtain ⟨contentText, _, _, some, same⟩ := extractSemanticDocument_iff.mp ok
  have inputs : document.embeddingInputs =
      keptInputs unicode crate contentType body canonicalUrl contentText := by
    rw [same, describedDocument]
  refine ⟨_, decodablePrefix ?_ ?_⟩
  · rw [inputs]
    exact keptInputs_eq_nil.not.mpr some
  · rw [inputs]
    intro input member
    exact ⟨(keptInputs_pushed input member).size, (keptInputs_collapsed input member).2⟩

theorem combinedEmbeddingText_decodable_note :
    ∃ kept, DecodablePrefix noteDocument.embeddingInputs kept noteDocument.combinedEmbeddingText :=
  @combinedEmbeddingText_decodable Unicode.ascii ⟨fun _ => .error []⟩ blogCrate "text/plain".toList
    (Percent.utf8Bytes "Ab  cd".toList) "https://example.com/blog".toList noteDocument
    (by decide +kernel)

end EalSync.Ingestion
