import EalSync.Ingestion.SemanticViews
import EalSync.Lib.Changes

/-! src/ingestion/revision.rs: which poll of a document makes a revision, and the work that a
revision gives to the embedding. -/
namespace EalSync.Ingestion

inductive RevisionDecision where
  | unchanged
  | storeRevision (previousContentSha256 : Option Str) (contentSha256 : Str)
  deriving DecidableEq, Repr

/-- A character beyond ASCII has no byte that is a hexadecimal digit. -/
def validateSha256 (value : Str) : Except IngestionError Unit :=
  if Str.len value ≠ 64 ∨ ¬value.all Str.isAsciiHexdigit then
    .error ⟨"invalid_content_hash", "content hash must be a SHA-256 hexadecimal digest"⟩
  else .ok ()

def decideRevision (previousContentSha256 : Option Str) (currentContentSha256 : Str) :
    Except IngestionError RevisionDecision :=
  match validateSha256 currentContentSha256 with
  | .error e => .error e
  | .ok _ =>
    let stored := RevisionDecision.storeRevision (previousContentSha256.map Str.toAsciiLowercase)
      (Str.toAsciiLowercase currentContentSha256)
    match previousContentSha256 with
    | none => .ok stored
    | some previous =>
      match validateSha256 previous with
      | .error e => .error e
      | .ok _ =>
        if Str.eqIgnoreAsciiCase previous currentContentSha256 then .ok .unchanged else .ok stored

/-- The loop of validate_embedding_inputs from an expected ordinal on. -/
def validateOrdinals : Nat → List EmbeddingInput → Except IngestionError Unit
  | _, [] => .ok ()
  | expectedOrdinal, input :: rest =>
    match input.validate with
    | .error e => .error e
    | .ok _ =>
      if input.ordinal ≠ expectedOrdinal then
        .error ⟨"invalid_embedding_inputs",
          "embedding input ordinals must be contiguous and start at zero"⟩
      else validateOrdinals (expectedOrdinal + 1) rest

def maxEmbeddingInputs : Nat := 96

def validateEmbeddingInputs (inputs : List EmbeddingInput) : Except IngestionError Unit :=
  if inputs.isEmpty ∨ inputs.length > maxEmbeddingInputs then
    .error ⟨"invalid_embedding_inputs", "embedding work must contain 1 to " ++
      toString maxEmbeddingInputs ++ " structured inputs"⟩
  else validateOrdinals 0 inputs

def decideRevisionWithInputs (previousContentSha256 : Option Str) (currentContentSha256 : Str)
    (embeddingInputs : List EmbeddingInput) : Except IngestionError RevisionDecision :=
  match validateEmbeddingInputs embeddingInputs with
  | .error e => .error e
  | .ok _ => decideRevision previousContentSha256 currentContentSha256

structure EmbeddingWorkItem where
  tenantId : Str
  sourceId : Str
  canonicalUrl : Str
  sourceRevisionId : Str
  contentSha256 : Str
  contentText : Str
  embeddingText : Str
  embeddingInputs : List EmbeddingInput
  embeddingSpaceId : Str

/-- The first empty field is the one that the error names. -/
def requireFields : List (String × Str) → Except IngestionError Unit
  | [] => .ok ()
  | (field, value) :: rest =>
    if (Str.trim value).isEmpty then
      .error ⟨"invalid_embedding_work_item", field ++ " must not be empty"⟩
    else requireFields rest

namespace EmbeddingWorkItem

def requiredFields (item : EmbeddingWorkItem) : List (String × Str) :=
  [("tenant_id", item.tenantId), ("source_id", item.sourceId), ("canonical_url", item.canonicalUrl),
    ("source_revision_id", item.sourceRevisionId), ("content_text", item.contentText),
    ("embedding_space_id", item.embeddingSpaceId)]

/-- The limit on the text is declared in revision.rs apart from that of semantic_views.rs. -/
def maxTextChars : Nat := 24000

/-- The inputs are optional in a work item. -/
def validatePresentInputs (inputs : List EmbeddingInput) : Except IngestionError Unit :=
  if inputs.isEmpty then .ok () else validateEmbeddingInputs inputs

def validate (canonicalizeUrl : Str → Except Str Str) (item : EmbeddingWorkItem) :
    Except IngestionError Unit := do
  let _ ← requireFields item.requiredFields
  if item.embeddingText.length > maxTextChars then
    .error ⟨"invalid_embedding_work_item",
      "embedding_text must contain at most " ++ toString maxTextChars ++ " characters"⟩
  else do
    let _ ← validatePresentInputs item.embeddingInputs
    let _ ← validateSha256 item.contentSha256
    let _ ← (canonicalizeUrl item.canonicalUrl).mapError fun e =>
      ⟨"invalid_embedding_work_item", String.ofList e⟩
    .ok ()

def providerText (item : EmbeddingWorkItem) : Str :=
  if (Str.trim item.embeddingText).isEmpty then item.contentText else item.embeddingText

end EmbeddingWorkItem

end EalSync.Ingestion
