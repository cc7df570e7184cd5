import EalSync.Ingestion.SemanticViews
import EalSync.Lib.Coding

/-! The entities of decode_common_entities against the text they were written for. -/
namespace EalSync.Ingestion

open Coding Search

/-- The entity of each character that markup escapes. -/
def escapes : Table Char :=
  [('&', "&amp;".toList), ('<', "&lt;".toList), ('>', "&gt;".toList),
    (Char.ofNat 34, "&quot;".toList), (Char.ofNat 39, "&#39;".toList)]

def escape (text : Str) : Str := encode escapes text

/-- The entities replaced after that of the ampersand. -/
def lateEntities : List (Str × Char) := commonEntities.drop 3

instance (mark : Char) (word : Str) : Decidable (Marked mark word) := inferInstanceAs (Decidable (_ ∧ _))

instance (pat word : Str) : Decidable (Distinct pat word) := inferInstanceAs (Decidable (_ ∧ _))

theorem separate_iff {mark : Char} {pat : Str} {table : Table Char} :
    Separate mark pat table ↔
      Marked mark pat ∧ ∀ entry ∈ table, Marked mark entry.2 ∧ Distinct pat entry.2 :=
  ⟨fun h => ⟨h.pattern, h.words⟩, fun h => ⟨h.1, h.2⟩⟩

instance (mark : Char) (pat : Str) (table : Table Char) : Decidable (Separate mark pat table) :=
  decidable_of_iff' _ separate_iff

theorem decodeCommonEntities_passes (s : Str) :
    decodeCommonEntities s = replaceEach lateEntities (replace "&amp;".toList ['&']
      (replace "&#160;".toList [' '] (replace "&nbsp;".toList [' '] s))) := rfl

/-- No escape is a space, and the ampersands are decoded first of all. -/
theorem early_passes (text : Str) :
    replace "&amp;".toList ['&'] (replace "&#160;".toList [' ']
      (replace "&nbsp;".toList [' '] (escape text))) = encode escapes.tail text := by
  have named : Separate '&' "&nbsp;".toList escapes := by decide
  have numbered : Separate '&' "&#160;".toList escapes := by decide
  have ampersand : Separate '&' "&amp;".toList escapes.tail := by decide
  rw [escape, replace_encode_other named (by decide), replace_encode_other numbered (by decide)]
  exact replace_encode_mark ampersand (by decide) text

/-- A decoded ampersand is read again: the passes after it also change the text as it was. -/
theorem late_passes (text : Str) :
    replaceEach lateEntities (encode escapes.tail text) = replaceEach lateEntities text := by
  have passes (s : Str) : replaceEach lateEntities s = replace "&apos;".toList [Char.ofNat 39]
      (replace "&#39;".toList [Char.ofNat 39] (replace "&quot;".toList [Char.ofNat 34]
        (replace "&gt;".toList ['>'] (replace "&lt;".toList ['<'] s)))) := rfl
  have less (s : Str) : replace "&lt;".toList ['<'] (encode escapes.tail s) =
      encode (escapes.drop 2) (replace "&lt;".toList ['<'] s) :=
    replace_encode (show Separate '&' _ _ by decide) (by decide) (by decide) (by decide) s
  have greater (s : Str) : replace "&gt;".toList ['>'] (encode (escapes.drop 2) s) =
      encode (escapes.drop 3) (replace "&gt;".toList ['>'] s) :=
    replace_encode (show Separate '&' _ _ by decide) (by decide) (by decide) (by decide) s
  have double (s : Str) : replace "&quot;".toList [Char.ofNat 34] (encode (escapes.drop 3) s) =
      encode (escapes.drop 4) (replace "&quot;".toList [Char.ofNat 34] s) :=
    replace_encode (show Separate '&' _ _ by decide) (by decide) (by decide) (by decide) s
  have single (s : Str) : replace "&#39;".toList [Char.ofNat 39] (encode (escapes.drop 4) s) =
      encode [] (replace "&#39;".toList [Char.ofNat 39] s) :=
    replace_encode (show Separate '&' _ _ by decide) (by decide) (by decide) (by decide) s
  have bare (s : Str) : encode [] s = s := encode_plain (by simp)
  rw [passes, passes, less, greater, double, single, bare]

/-- Both copies of the function give back a text from its escape if and only if it shows none of the
entities that come after the ampersand's. -/
theorem decodeCommonEntities_escape_iff (text : Str) :
    (decodeCommonEntities (escape text) = text ↔ ∀ entity ∈ lateEntities, ¬entity.1 <:+: text) ∧
      (SemanticViews.decodeCommonEntities (escape text) = text ↔
        ∀ entity ∈ lateEntities, ¬entity.1 <:+: text) := by
  have long : ∀ entity ∈ lateEntities, 1 < entity.1.length := by decide
  have decoded : decodeCommonEntities (escape text) = text ↔
      ∀ entity ∈ lateEntities, ¬entity.1 <:+: text := by
    rw [decodeCommonEntities_passes, early_passes, late_passes, replaceEach_eq_self long]
  exact ⟨decoded, decoded⟩

/-- A page that shows how to write a less-than sign. -/
theorem decodeCommonEntities_shown_entity :
    decodeCommonEntities (escape "write &lt; for <".toList) = "write < for <".toList ∧
      SemanticViews.decodeCommonEntities (escape "write &lt; for <".toList) = "write < for <".toList ∧
      "write < for <".toList ≠ "write &lt; for <".toList := by decide

end EalSync.Ingestion
