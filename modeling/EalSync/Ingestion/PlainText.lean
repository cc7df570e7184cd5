import EalSync.Ingestion.Visible
import EalSync.Std.Text

/-! The text of a plain-text body depends on its words alone. -/
namespace EalSync.Ingestion

open Words

/-- No entity has a space in it, so each is replaced within a word. -/
theorem wordsOf_decode (s : Str) :
    wordsOf (decodeCommonEntities s) = (wordsOf s).flatMap fun w => wordsOf (decodeCommonEntities w) := by
  have solid : ∀ entity ∈ commonEntities, ∀ c ∈ entity.1, Str.isWhitespace c = false := by decide
  apply words_parted (by decide)
  intro front sep back blank
  refine decode_before (fun entity member inside => ?_) front back
  rw [solid entity member sep inside] at blank
  cases blank

theorem extractText_plain (serde : SerdeJson) {contentType : Str}
    (plain : baseContentType contentType = "text/plain".toList) (s : Str) :
    extractText serde contentType (Percent.utf8Bytes s) =
      .ok (spaced ' ' (wordsOf (decodeCommonEntities s))) := by
  rw [extractText, plain, decodedText, Utf8.fromUtf8Lossy_utf8Bytes, if_neg (by decide),
    if_neg (by decide), if_pos rfl, ← collapseWhitespace_eq]

/-- Two bodies with the same words have the same text, which has one space between its words and
none around them. -/
theorem extractText_of_words (serde : SerdeJson) {contentType : Str}
    (plain : baseContentType contentType = "text/plain".toList) {first second : Str}
    (same : Str.splitWhitespace first = Str.splitWhitespace second) :
    ∃ text, extractText serde contentType (Percent.utf8Bytes first) = .ok text ∧
      extractText serde contentType (Percent.utf8Bytes second) = .ok text ∧
      Tidy Str.isWhitespace text := by
  have words : wordsOf (decodeCommonEntities first) = wordsOf (decodeCommonEntities second) := by
    rw [wordsOf_decode, wordsOf_decode, wordsOf, ← Str.splitWhitespace, same, Str.splitWhitespace]
  refine ⟨_, extractText_plain serde plain first, ?_, tidy_wordsOf _⟩
  rw [extractText_plain serde plain second, words]

theorem extractText_of_words_reflowed :
    ∃ text, extractText ⟨fun _ => .error []⟩ "text/plain; charset=utf-8".toList
        (Percent.utf8Bytes "one &amp;nbsp; two\r\n".toList) = .ok text ∧
      extractText ⟨fun _ => .error []⟩ "text/plain; charset=utf-8".toList
        (Percent.utf8Bytes " one\n\t&amp;nbsp;  two".toList) = .ok text ∧
      Tidy Str.isWhitespace text :=
  extractText_of_words _ (by decide) (by decide)

end EalSync.Ingestion
