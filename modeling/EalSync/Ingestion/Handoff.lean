import EalSync.Ingestion.Scope
import EalSync.Ingestion.History

/-! From the extraction to the work of the embedding: what extract_semantic_document returns is what
revision.rs accepts, although each of the two files declares its own limits. -/
namespace EalSync.Ingestion

theorem validateEach_ok {inputs : List EmbeddingInput} :
    validateEach inputs = .ok () ↔ ∀ input ∈ inputs, input.validate = .ok () := by
  induction inputs with
  | nil => simp [validateEach]
  | cons input rest ih =>
    rw [validateEach, List.forall_mem_cons, ← ih]
    cases input.validate with
    | error e => simp
    | ok _ => simp

/-- What a document that passed its validation is. -/
structure Admissible (document : SemanticDocument EmbeddingInput) : Prop where
  content : Str.trim document.contentText ≠ []
  nonempty : document.embeddingInputs ≠ []
  few : document.embeddingInputs.length ≤ maxInputs
  each : ∀ input ∈ document.embeddingInputs, input.validate = .ok ()

theorem validate_ok {document : SemanticDocument EmbeddingInput} (ok : document.validate = .ok ()) :
    Admissible document := by
  unfold SemanticDocument.validate at ok
  obtain ⟨content, ok⟩ := Checks.check_ok ok
  obtain ⟨size, ok⟩ := Checks.check_ok ok
  rw [not_or, List.isEmpty_iff] at size
  exact ⟨by simpa using content, size.1, Nat.le_of_not_gt size.2, validateEach_ok.mp ok⟩

theorem input_length {input : EmbeddingInput} (ok : input.validate = .ok ()) :
    input.text.length ≤ maxInputChars := by
  unfold EmbeddingInput.validate at ok
  obtain ⟨size, _⟩ := Checks.check_ok ok
  rw [not_or] at size
  exact Nat.le_of_not_gt size.2

/-- The ordinals that the extraction sets are those that revision.rs expects. -/
theorem validateOrdinals_set {inputs numbered : List EmbeddingInput} {ordinal : Nat}
    (set : SemanticViews.setOrdinals ordinal inputs = .ok numbered)
    (each : ∀ input ∈ numbered, input.validate = .ok ()) :
    validateOrdinals ordinal numbered = .ok () := by
  induction inputs generalizing ordinal numbered with
  | nil =>
    cases set
    rfl
  | cons input rest ih =>
    rw [SemanticViews.setOrdinals] at set
    obtain ⟨_, set⟩ := Checks.check_ok set
    split at set
    · cases set
    · rename_i more later
      cases set
      rw [List.forall_mem_cons] at each
      simp only [validateOrdinals, each.1, ne_eq, not_true_eq_false, if_false]
      exact ih later each.2

section

variable {unicode : Unicode} {serde : SerdeJson} {crate : UrlCrate} {contentType : Str}
  {body : List UInt8} {canonicalUrl : Str} {document : SemanticDocument EmbeddingInput}

theorem extractSemanticDocument_ok
    (ok : extractSemanticDocument unicode serde crate contentType body canonicalUrl = .ok document) :
    document.validate = .ok () ∧
      ∃ inputs, SemanticViews.setOrdinals 0 inputs = .ok document.embeddingInputs := by
  unfold extractSemanticDocument at ok
  split at ok
  · cases ok
  · obtain ⟨_, ok⟩ := Checks.check_ok ok
    dsimp only at ok
    split at ok
    · cases ok
    · rename_i numbered set
      split at ok
      · cases ok
      · rename_i valid
        cases ok
        exact ⟨valid, _, set⟩

end

theorem label_length (kind : EmbeddingInputKind) : (inputKindLabel kind).length ≤ 8 := by
  cases kind <;> decide

theorem label_visible (kind : EmbeddingInputKind) :
    ∃ c ∈ inputKindLabel kind, Str.isWhitespace c = false := by
  have some : (inputKindLabel kind).any (fun c => !Str.isWhitespace c) = true := by
    cases kind <;> decide
  simpa using some

namespace SemanticDocument

theorem prefix_combineLines (output : Str) (inputs : List EmbeddingInput) :
    output <+: combineLines output inputs := by
  induction inputs generalizing output with
  | nil => exact List.prefix_rfl
  | cons input rest ih =>
    rw [combineLines]
    split
    · exact List.prefix_rfl
    · exact (List.prefix_append output (inputLine input)).trans (ih _)

theorem length_combineLines {output : Str} (room : output.length ≤ maxEmbeddingTextChars)
    (inputs : List EmbeddingInput) : (combineLines output inputs).length ≤ maxEmbeddingTextChars := by
  induction inputs generalizing output with
  | nil => exact room
  | cons input rest ih =>
    rw [combineLines]
    split
    · exact room
    · rename_i fits
      apply ih
      rw [List.length_append]
      omega

theorem combinedEmbeddingText_length (document : SemanticDocument EmbeddingInput) :
    document.combinedEmbeddingText.length ≤ maxEmbeddingTextChars := by
  have start : ([] : Str).length ≤ maxEmbeddingTextChars := by
    rw [List.length_nil]
    exact Nat.zero_le maxEmbeddingTextChars
  rw [combinedEmbeddingText]
  exact (Str.length_trimEnd_le _).trans (length_combineLines start document.embeddingInputs)

/-- The first line always fits, and it has a label. -/
theorem combinedEmbeddingText_visible {document : SemanticDocument EmbeddingInput}
    (admissible : Admissible document) : Str.trim document.combinedEmbeddingText ≠ [] := by
  obtain ⟨input, rest, inputs⟩ := List.exists_cons_of_ne_nil admissible.nonempty
  have short : input.text.length ≤ maxInputChars :=
    input_length (admissible.each input (by simp [inputs]))
  have label := label_length input.kind
  have fits : ¬(inputLine input).length > maxEmbeddingTextChars := by
    simp only [inputLine, List.length_append, List.length_cons, List.length_nil, maxInputChars,
      maxEmbeddingTextChars] at short ⊢
    have colon : ": ".toList.length = 2 := rfl
    omega
  have first : combineLines [] document.embeddingInputs = combineLines (inputLine input) rest := by
    rw [inputs, combineLines, List.length_nil, Nat.zero_add, if_neg fits, List.nil_append]
  rw [combinedEmbeddingText, Ne, Str.trim_trimEnd_eq_nil, first, Str.trim_eq_nil]
  intro blank
  obtain ⟨c, member, visible⟩ := label_visible input.kind
  have inside : c ∈ inputLine input := by simp [inputLine, member]
  rw [blank c ((prefix_combineLines (inputLine input) rest).subset inside)] at visible
  cases visible

end SemanticDocument

theorem decideRevision_ok (previous : Option Digest) (current : Digest) :
    ∃ decision, decideRevision (previous.map Digest.text) current.text = .ok decision := by
  unfold decideRevision
  rw [current.valid]
  cases previous with
  | none => exact ⟨_, rfl⟩
  | some p =>
    simp only [Option.map_some, p.valid]
    split <;> exact ⟨_, rfl⟩

theorem requireFields_ok {fields : List (String × Str)}
    (filled : ∀ field ∈ fields, Str.trim field.2 ≠ []) : requireFields fields = .ok () := by
  induction fields with
  | nil => rfl
  | cons field rest ih =>
    rw [List.forall_mem_cons] at filled
    rw [requireFields, if_neg (by simpa using filled.1)]
    exact ih filled.2

theorem validateEmbeddingInputs_ok {document : SemanticDocument EmbeddingInput}
    {inputs : List EmbeddingInput} (admissible : Admissible document)
    (set : SemanticViews.setOrdinals 0 inputs = .ok document.embeddingInputs) :
    validateEmbeddingInputs document.embeddingInputs = .ok () := by
  have size : ¬(document.embeddingInputs.isEmpty = true ∨
      document.embeddingInputs.length > maxEmbeddingInputs) := by
    rw [not_or, List.isEmpty_iff]
    exact ⟨admissible.nonempty, Nat.not_lt.mpr admissible.few⟩
  rw [validateEmbeddingInputs, if_neg size]
  exact validateOrdinals_set set admissible.each

/-- The checks of a work item, one by one. -/
theorem EmbeddingWorkItem.validate_ok {canonicalizeUrl : Str → Except Str Str}
    {item : EmbeddingWorkItem} {canonical : Str}
    (filled : ∀ field ∈ item.requiredFields, Str.trim field.2 ≠ [])
    (short : item.embeddingText.length ≤ maxTextChars)
    (inputs : validateEmbeddingInputs item.embeddingInputs = .ok ())
    (hash : validateSha256 item.contentSha256 = .ok ())
    (parsed : canonicalizeUrl item.canonicalUrl = .ok canonical) :
    item.validate canonicalizeUrl = .ok () := by
  have present : validatePresentInputs item.embeddingInputs = .ok () := by
    rw [validatePresentInputs]
    split
    · rfl
    · exact inputs
  rw [validate, requireFields_ok filled, present, hash, parsed]
  exact if_neg (Nat.not_lt.mpr short)

/-- What the extraction returns is accepted as a revision and as the work of the embedding. The
canonicalization is outside the repository; nothing blank is a URL to it. -/
theorem handoff (unicode : Unicode) (serde : SerdeJson) (crate : UrlCrate)
    (canonicalizeUrl : Str → Except Str Str)
    (blank : ∀ url canonical, canonicalizeUrl url = .ok canonical → Str.trim url ≠ [])
    {contentType : Str} {body : List UInt8} {canonicalUrl : Str}
    {document : SemanticDocument EmbeddingInput}
    (ok : extractSemanticDocument unicode serde crate contentType body canonicalUrl = .ok document) :
    Str.trim document.combinedEmbeddingText ≠ [] ∧
      document.combinedEmbeddingText.length ≤ 24000 ∧
      (∀ (previous : Option Digest) (current : Digest), ∃ decision,
        decideRevisionWithInputs (previous.map Digest.text) current.text document.embeddingInputs =
          .ok decision) ∧
      ∀ item : EmbeddingWorkItem, item.contentText = document.contentText →
        item.embeddingText = document.combinedEmbeddingText →
        item.embeddingInputs = document.embeddingInputs →
        (∀ id ∈ [item.tenantId, item.sourceId, item.sourceRevisionId, item.embeddingSpaceId],
          Str.trim id ≠ []) →
        (∃ canonical, canonicalizeUrl item.canonicalUrl = .ok canonical) →
        (∃ digest : Digest, item.contentSha256 = digest.text) →
        item.validate canonicalizeUrl = .ok () ∧
          item.providerText = document.combinedEmbeddingText := by
  obtain ⟨valid, inputs, set⟩ := extractSemanticDocument_ok ok
  have admissible := validate_ok valid
  have visible := SemanticDocument.combinedEmbeddingText_visible admissible
  have accepted := validateEmbeddingInputs_ok admissible set
  refine ⟨visible, document.combinedEmbeddingText_length, ?_, ?_⟩
  · intro previous current
    rw [decideRevisionWithInputs, accepted]
    exact decideRevision_ok previous current
  · rintro item content text same ids ⟨canonical, parsed⟩ ⟨digest, hash⟩
    have filled : ∀ field ∈ item.requiredFields, Str.trim field.2 ≠ [] := by
      simp only [List.forall_mem_cons] at ids
      simp only [EmbeddingWorkItem.requiredFields, List.forall_mem_cons, content]
      exact ⟨ids.1, ids.2.1, blank _ canonical parsed, ids.2.2.1, admissible.content, ids.2.2.2.1,
        fun _ none => absurd none List.not_mem_nil⟩
    constructor
    · refine EmbeddingWorkItem.validate_ok filled ?_ (same ▸ accepted) (hash ▸ digest.valid) parsed
      rw [text]
      exact document.combinedEmbeddingText_length
    · rw [EmbeddingWorkItem.providerText, text, if_neg (by simpa using visible)]

def noteDocument : SemanticDocument EmbeddingInput where
  title := none
  contentText := "Ab cd".toList
  keywords := []
  entities := []
  embeddingInputs := [⟨.summary, 0, "Ab cd".toList, 11 / 10⟩,
    ⟨.urlSignal, 1, "blog example".toList, 13 / 20⟩]

def noteItem : EmbeddingWorkItem where
  tenantId := "tenant".toList
  sourceId := "source".toList
  canonicalUrl := "https://example.com/blog".toList
  sourceRevisionId := "revision".toList
  contentSha256 := Digest.pageA.text
  contentText := noteDocument.contentText
  embeddingText := noteDocument.combinedEmbeddingText
  embeddingInputs := noteDocument.embeddingInputs
  embeddingSpaceId := "space".toList

def canonicalUrls (url : Str) : Except Str Str :=
  if (Str.trim url).isEmpty then .error "empty".toList else .ok url

theorem canonicalUrls_blank (url canonical : Str) (ok : canonicalUrls url = .ok canonical) :
    Str.trim url ≠ [] := by
  unfold canonicalUrls at ok
  split at ok
  · cases ok
  · rename_i visible
    simpa using visible

theorem handoff_note :
    Str.trim noteDocument.combinedEmbeddingText ≠ [] ∧
      noteDocument.combinedEmbeddingText.length ≤ 24000 ∧
      (∃ decision, decideRevisionWithInputs (some Digest.pageB.text) Digest.pageA.text
        noteDocument.embeddingInputs = .ok decision) ∧
      noteItem.validate canonicalUrls = .ok () ∧
      noteItem.providerText = noteDocument.combinedEmbeddingText := by
  have extracted : extractSemanticDocument Unicode.ascii ⟨fun _ => .error []⟩ blogCrate
      "text/plain".toList (Percent.utf8Bytes "Ab  cd".toList) "https://example.com/blog".toList =
      .ok noteDocument := by decide +kernel
  have ids : ∀ id ∈ [noteItem.tenantId, noteItem.sourceId, noteItem.sourceRevisionId,
      noteItem.embeddingSpaceId], Str.trim id ≠ [] := by decide +kernel
  obtain ⟨visible, short, decided, accepted⟩ := handoff Unicode.ascii ⟨fun _ => .error []⟩ blogCrate
    canonicalUrls canonicalUrls_blank extracted
  have parsed : ∃ canonical, canonicalUrls noteItem.canonicalUrl = .ok canonical :=
    ⟨noteItem.canonicalUrl, by decide +kernel⟩
  exact ⟨visible, short, decided (some Digest.pageB) Digest.pageA,
    accepted noteItem rfl rfl rfl ids parsed ⟨Digest.pageA, rfl⟩⟩

end EalSync.Ingestion
