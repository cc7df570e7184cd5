import EalSync.Ingestion.Handoff
import EalSync.Ingestion.Visible
import EalSync.Std.Collections

/-! The views of a document that become its embedding inputs: what each of them may look like, how
many there are, and which of them are kept. -/
namespace EalSync.Ingestion

open Words

theorem tidy_collapse (s : Str) : Tidy Str.isWhitespace (collapseWhitespace s) := by
  rw [collapseWhitespace_eq]
  exact tidy_wordsOf s

namespace SemanticViews

theorem trim_tidy {s : Str} (tidy : Tidy Str.isWhitespace s) : Str.trim s = s := by
  have front : s.dropWhile Str.isWhitespace = s := by
    cases s with
    | nil => rfl
    | cons c rest => exact List.dropWhile_cons_of_neg (by simp [tidy.head c rfl])
  rw [Str.trim, front, List.rdropWhile_eq_self_iff]
  intro some
  simp [tidy.last _ (List.getLast?_eq_some_getLast some)]

theorem collapseWhitespace_eq (s : Str) : collapseWhitespace s = Ingestion.collapseWhitespace s :=
  trim_tidy (tidy_collapse s)

/-- Both copies of the function space the words of the text anew. -/
theorem collapseWhitespace_reference (s : Str) :
    Ingestion.collapseWhitespace s = [' '].intercalate (Str.splitWhitespace s) ∧
      collapseWhitespace s = [' '].intercalate (Str.splitWhitespace s) ∧
      collapseWhitespace s = Ingestion.collapseWhitespace s ∧
      Ingestion.collapseWhitespace (Ingestion.collapseWhitespace s) = Ingestion.collapseWhitespace s ∧
      collapseWhitespace (collapseWhitespace s) = collapseWhitespace s ∧
      Str.splitWhitespace (Ingestion.collapseWhitespace s) = Str.splitWhitespace s ∧
      Str.splitWhitespace (collapseWhitespace s) = Str.splitWhitespace s := by
  have reference (s : Str) : Ingestion.collapseWhitespace s = spaced ' ' (wordsOf s) :=
    Ingestion.collapseWhitespace_eq s
  have words : wordsOf (Ingestion.collapseWhitespace s) = wordsOf s := by
    rw [reference]
    exact wordsOf_spaced s
  have again : Ingestion.collapseWhitespace (Ingestion.collapseWhitespace s) =
      Ingestion.collapseWhitespace s := by
    rw [reference (Ingestion.collapseWhitespace s), words, reference]
  rw [collapseWhitespace_eq s, collapseWhitespace_eq]
  exact ⟨reference s, reference s, rfl, again, again, words, words⟩

theorem tidy_collapseWhitespace (s : Str) : Tidy Str.isWhitespace (collapseWhitespace s) := by
  rw [collapseWhitespace_eq]
  exact tidy_collapse s

theorem tidy_truncateChars {s : Str} (tidy : Tidy Str.isWhitespace s) (maxChars : Nat) :
    Tidy Str.isWhitespace (truncateChars s maxChars) := by
  rw [truncateChars]
  split
  · exact tidy
  · exact tidy.take_concat (maxChars - 1) (by decide)

theorem length_truncateChars {maxChars : Nat} (pos : 0 < maxChars) (s : Str) :
    (truncateChars s maxChars).length = min s.length maxChars := by
  rw [truncateChars]
  split
  · omega
  · rw [List.length_append, List.length_take, List.length_singleton]
    omega

/-- The input of a view, if it is long enough. -/
def viewInput (kind : EmbeddingInputKind) (weight : ℚ) (text : Str) : List EmbeddingInput :=
  pushInput [] kind text weight

theorem pushInput_eq (inputs : List EmbeddingInput) (kind : EmbeddingInputKind) (text : Str) (weight : ℚ) :
    pushInput inputs kind text weight = inputs ++ viewInput kind weight text := by
  unfold viewInput pushInput
  dsimp only
  split
  · rw [List.append_nil]
  · rfl

/-- A view is an input if it has three characters once its whitespace is collapsed. -/
def Viewable (text : Str) : Prop := 3 ≤ (collapseWhitespace text).length

theorem viewInput_of_viewable {kind : EmbeddingInputKind} {weight : ℚ} {text : Str}
    (long : Viewable text) : viewInput kind weight text =
      [⟨kind, 0, truncateChars (collapseWhitespace text) maxInputChars, weight⟩] := by
  have size := length_truncateChars (by decide : 0 < maxInputChars) (collapseWhitespace text)
  have some : ¬(truncateChars (collapseWhitespace text) maxInputChars).length < 3 := by
    rw [size, not_lt]
    exact le_min long (by decide)
  rw [viewInput, pushInput, if_neg some, List.nil_append]

theorem viewInput_of_short {kind : EmbeddingInputKind} {weight : ℚ} {text : Str}
    (short : ¬Viewable text) : viewInput kind weight text = [] := by
  have size := length_truncateChars (by decide : 0 < maxInputChars) (collapseWhitespace text)
  have few : (truncateChars (collapseWhitespace text) maxInputChars).length < 3 := by
    rw [size]
    exact (Nat.min_le_left _ _).trans_lt (not_le.mp short)
  rw [viewInput, pushInput, if_pos few]

theorem viewInput_eq_nil {kind : EmbeddingInputKind} {weight : ℚ} {text : Str} :
    viewInput kind weight text = [] ↔ ¬Viewable text := by
  by_cases long : Viewable text
  · simp [viewInput_of_viewable long, long]
  · simp [viewInput_of_short long, long]

theorem length_viewInput_le (kind : EmbeddingInputKind) (weight : ℚ) (text : Str) :
    (viewInput kind weight text).length ≤ 1 := by
  by_cases long : Viewable text
  · rw [viewInput_of_viewable long, List.length_singleton]
  · rw [viewInput_of_short long]
    exact Nat.zero_le 1

/-- What holds of every input when it is pushed. -/
structure Pushed (input : EmbeddingInput) : Prop where
  unnumbered : input.ordinal = 0
  size : 3 ≤ input.text.length ∧ input.text.length ≤ 700
  tidy : Tidy Str.isWhitespace input.text
  weight : 1 / 10 ≤ input.weight ∧ input.weight ≤ 2

theorem viewInput_pushed {kind : EmbeddingInputKind} {weight : ℚ}
    (heavy : 1 / 10 ≤ weight ∧ weight ≤ 2) (text : Str) :
    ∀ input ∈ viewInput kind weight text, Pushed input := by
  by_cases long : Viewable text
  · have size := length_truncateChars (by decide : 0 < maxInputChars) (collapseWhitespace text)
    rw [viewInput_of_viewable long, List.forall_mem_singleton]
    refine ⟨rfl, ?_, tidy_truncateChars (tidy_collapseWhitespace text) _, heavy⟩
    dsimp only
    rw [size]
    exact ⟨le_min long (by decide), Nat.min_le_right _ _⟩
  · simp [viewInput_of_short long]

theorem viewInput_kind {kind : EmbeddingInputKind} {weight : ℚ} (text : Str) :
    ∀ input ∈ viewInput kind weight text, input.kind = kind := by
  by_cases long : Viewable text
  · simp [viewInput_of_viewable long]
  · simp [viewInput_of_short long]

/-- The texts of one kind of view, in order. -/
structure ViewGroup where
  kind : EmbeddingInputKind
  weight : ℚ
  texts : List Str

namespace ViewGroup

def inputs (group : ViewGroup) : List EmbeddingInput :=
  group.texts.flatMap (viewInput group.kind group.weight)

theorem inputs_eq_nil {group : ViewGroup} :
    group.inputs = [] ↔ ∀ text ∈ group.texts, ¬Viewable text := by
  rw [inputs, List.flatMap_eq_nil_iff]
  simp only [viewInput_eq_nil]

theorem length_inputs_le (group : ViewGroup) : group.inputs.length ≤ group.texts.length := by
  obtain ⟨kind, weight, texts⟩ := group
  change (texts.flatMap (viewInput kind weight)).length ≤ texts.length
  induction texts with
  | nil => exact Nat.le_refl _
  | cons text rest ih =>
    have one := length_viewInput_le kind weight text
    rw [List.flatMap_cons, List.length_append, List.length_cons]
    omega

end ViewGroup

/-- Where the views of a kind come in the order of the pushes. -/
def place : EmbeddingInputKind → Nat
  | .title => 0
  | .heading => 1
  | .summary => 2
  | .entity => 3
  | .keyword => 4
  | .sentence => 5
  | .urlSignal => 6
  | .document => 7

section

variable (title : Option Str) (headings sentences keywords entities : List Str) (signal : Option Str)
  (contentText : Str)

def viewGroups : List ViewGroup :=
  [⟨.title, 5 / 4, title.toList⟩, ⟨.heading, 23 / 20, headings⟩,
    ⟨.summary, 11 / 10, [buildSummary sentences contentText]⟩,
    ⟨.entity, 21 / 20, (Str.chunks 6 entities).map ("; ".toList.intercalate ·)⟩,
    ⟨.keyword, 9 / 10, (Str.chunks 8 keywords).map (", ".toList.intercalate ·)⟩,
    ⟨.sentence, 1, sentences⟩, ⟨.urlSignal, 13 / 20, signal.toList⟩,
    ⟨.document, 3 / 4, [truncateChars contentText 2000]⟩]

theorem foldl_pushInput {α : Type} (kind : EmbeddingInputKind) (weight : ℚ) (text : α → Str)
    (items : List α) (inputs : List EmbeddingInput) :
    items.foldl (fun inputs item => pushInput inputs kind (text item) weight) inputs =
      inputs ++ ViewGroup.inputs ⟨kind, weight, items.map text⟩ := by
  rw [ViewGroup.inputs, List.flatMap_map]
  induction items generalizing inputs with
  | nil => simp
  | cons item rest ih => rw [List.foldl_cons, ih, pushInput_eq, List.flatMap_cons, List.append_assoc]

theorem elim_pushInput (kind : EmbeddingInputKind) (weight : ℚ) (text : Option Str)
    (inputs : List EmbeddingInput) :
    text.elim inputs (fun text => pushInput inputs kind text weight) =
      inputs ++ ViewGroup.inputs ⟨kind, weight, text.toList⟩ := by
  cases text with
  | none => simp [ViewGroup.inputs]
  | some text => simp [ViewGroup.inputs, pushInput_eq]

/-- The inputs are those of one kind of view after the other. -/
theorem pushedInputs_eq :
    pushedInputs title headings sentences keywords entities signal contentText =
      (viewGroups title headings sentences keywords entities signal contentText).flatMap
        ViewGroup.inputs := by
  have whole (texts : List Str) : texts.map (fun text => text) = texts := List.map_id' texts
  unfold pushedInputs viewGroups
  dsimp only
  rw [elim_pushInput, elim_pushInput, foldl_pushInput _ _ (fun text => text),
    foldl_pushInput _ _ ("; ".toList.intercalate ·), foldl_pushInput _ _ (", ".toList.intercalate ·),
    foldl_pushInput _ _ (fun text => text), pushInput_eq, pushInput_eq, whole, whole]
  simp only [List.flatMap_cons, List.flatMap_nil, List.append_nil, List.nil_append, List.append_assoc,
    ViewGroup.inputs]

variable {title headings sentences keywords entities signal contentText}

theorem pushedInputs_pushed :
    ∀ input ∈ pushedInputs title headings sentences keywords entities signal contentText,
      Pushed input := by
  have heavy : ∀ group ∈ viewGroups title headings sentences keywords entities signal contentText,
      1 / 10 ≤ group.weight ∧ group.weight ≤ 2 := by
    simp only [viewGroups, List.forall_mem_cons]
    norm_num
  intro input member
  rw [pushedInputs_eq] at member
  obtain ⟨group, own, inside⟩ := List.mem_flatMap.mp member
  obtain ⟨text, _, pushed⟩ := List.mem_flatMap.mp inside
  exact viewInput_pushed (heavy group own) text input pushed

/-- No view comes before one of an earlier kind. -/
theorem pushedInputs_places :
    (pushedInputs title headings sentences keywords entities signal contentText).Pairwise
      fun x y => place x.kind ≤ place y.kind := by
  have kinds (group : ViewGroup) : ∀ input ∈ group.inputs, input.kind = group.kind := by
    intro input inside
    obtain ⟨text, _, pushed⟩ := List.mem_flatMap.mp inside
    exact viewInput_kind text input pushed
  have rising : (viewGroups title headings sentences keywords entities signal contentText).Pairwise
      fun x y => place x.kind ≤ place y.kind := by
    simp [viewGroups, place]
  rw [pushedInputs_eq, List.pairwise_flatMap]
  constructor
  · intro group _
    refine List.pairwise_of_forall_mem_list fun x first y second => ?_
    rw [kinds group x first, kinds group y second]
  · refine rising.imp fun {g h} below x first y second => ?_
    rw [kinds g x first, kinds h y second]
    exact below

/-- The limits of the views add up. -/
theorem length_pushedInputs_le (few : headings.length ≤ 24 ∧ sentences.length ≤ 48 ∧
    keywords.length ≤ 32 ∧ entities.length ≤ 32) :
    (pushedInputs title headings sentences keywords entities signal contentText).length ≤ 86 := by
  have byGroup (groups : List ViewGroup) : (groups.flatMap ViewGroup.inputs).length ≤
      (groups.map fun group => group.texts.length).sum := by
    induction groups with
    | nil => exact Nat.le_refl _
    | cons group rest ih =>
      have own := group.length_inputs_le
      rw [List.flatMap_cons, List.length_append, List.map_cons, List.sum_cons]
      omega
  have entityGroups := Str.length_chunks (by decide : 0 < 6) entities
  have keywordGroups := Str.length_chunks (by decide : 0 < 8) keywords
  have titles : title.toList.length ≤ 1 := by cases title <;> simp
  have signals : signal.toList.length ≤ 1 := by cases signal <;> simp
  rw [pushedInputs_eq]
  refine (byGroup _).trans ?_
  simp only [viewGroups, List.map_cons, List.map_nil, List.sum_cons, List.sum_nil, List.length_map,
    List.length_singleton]
  omega

end

section

variable (unicode : Unicode) (crate : UrlCrate) (contentType : Str) (body : List UInt8)
  (canonicalUrl contentText : Str)

/-- The markup of a body that is a page. -/
def pageMarkup : Option Str :=
  let baseType := Str.trim ((contentType.splitOn ';').headD contentType)
  if baseType = "text/html".toList ∨ baseType = "application/xhtml+xml".toList then
    some (Utf8.fromUtf8Lossy body) else none

/-- All the inputs that are pushed for a document, before any is dropped. -/
def documentViews : List EmbeddingInput :=
  pushedInputs (pageTitle (pageMarkup contentType body)) (pageHeadings (pageMarkup contentType body))
    (completeSentences contentText 48) (extractKeywords unicode contentText 32)
    (extractEntities unicode contentText 32) (urlSignal crate canonicalUrl) contentText

theorem length_documentViews_le :
    (documentViews unicode crate contentType body canonicalUrl contentText).length ≤ 86 := by
  apply length_pushedInputs_le
  refine ⟨?_, ?_, ?_, ?_⟩
  · exact List.length_take_le _ _
  · exact List.length_take_le _ _
  · rw [extractKeywords, List.length_map]
    exact List.length_take_le _ _
  · rw [extractEntities, List.length_map]
    exact List.length_take_le _ _

end

/-- An input as it is pushed, before it has its ordinal. -/
def unnumbered (input : EmbeddingInput) : EmbeddingInput := { input with ordinal := 0 }

/-- The inputs with their ordinals from this one on. -/
def numbered : Nat → List EmbeddingInput → List EmbeddingInput
  | _, [] => []
  | ordinal, input :: rest => { input with ordinal } :: numbered (ordinal + 1) rest

theorem setOrdinals_numbered {ordinal : Nat} {inputs : List EmbeddingInput}
    (room : ordinal + inputs.length ≤ 2 ^ 16) :
    setOrdinals ordinal inputs = .ok (numbered ordinal inputs) := by
  induction inputs generalizing ordinal with
  | nil => rfl
  | cons input rest ih =>
    rw [List.length_cons] at room
    have below : ¬ordinal ≥ 2 ^ 16 := by omega
    rw [setOrdinals, if_neg below, ih (by omega)]
    rfl

theorem ordinals_numbered (ordinal : Nat) (inputs : List EmbeddingInput) :
    (numbered ordinal inputs).map (·.ordinal) = List.range' ordinal inputs.length := by
  induction inputs generalizing ordinal with
  | nil => rfl
  | cons input rest ih => rw [numbered, List.map_cons, ih, List.length_cons, List.range'_succ]

theorem unnumbered_numbered (ordinal : Nat) (inputs : List EmbeddingInput) :
    (numbered ordinal inputs).map unnumbered = inputs.map unnumbered := by
  induction inputs generalizing ordinal with
  | nil => rfl
  | cons input rest ih =>
    rw [numbered, List.map_cons, ih, List.map_cons]
    rfl

theorem unnumbered_pushed {inputs : List EmbeddingInput} (pushed : ∀ input ∈ inputs, Pushed input) :
    inputs.map unnumbered = inputs := by
  conv_rhs => rw [← List.map_id inputs]
  refine List.map_congr_left fun input member => ?_
  rw [unnumbered, ← (pushed input member).unnumbered]
  rfl

/-- Each numbered input is one that was pushed, but for its ordinal. -/
theorem mem_numbered {ordinal : Nat} {inputs : List EmbeddingInput}
    (pushed : ∀ input ∈ inputs, Pushed input) {input : EmbeddingInput}
    (member : input ∈ numbered ordinal inputs) : Pushed (unnumbered input) := by
  have same := unnumbered_numbered ordinal inputs
  have inside := List.mem_map_of_mem (f := unnumbered) member
  rw [same, unnumbered_pushed pushed] at inside
  exact pushed _ inside

theorem validate_of_pushed {input : EmbeddingInput} (pushed : Pushed (unnumbered input)) :
    input.validate = .ok () := by
  obtain ⟨_, size, tidy, weight⟩ := pushed
  dsimp only [unnumbered] at size tidy weight
  have some : ¬((Str.trim input.text).isEmpty = true ∨ input.text.length > maxInputChars) := by
    rw [trim_tidy tidy, List.isEmpty_iff, ← List.length_eq_zero_iff, maxInputChars]
    omega
  rw [EmbeddingInput.validate, if_neg some, if_neg (not_not.mpr weight)]

theorem dedupeInputs_eq_nil {inputs : List EmbeddingInput} : dedupeInputs inputs = [] ↔ inputs = [] := by
  cases inputs with
  | nil => simp [dedupeInputs, Str.firsts]
  | cons input rest => simp [dedupeInputs, Str.firsts]

section

variable {unicode : Unicode} {serde : SerdeJson} {crate : UrlCrate} {contentType : Str}
  {body : List UInt8} {canonicalUrl contentText : Str}

variable (unicode crate contentType body canonicalUrl contentText) in
/-- The inputs that are kept, with their ordinals. -/
def keptInputs : List EmbeddingInput :=
  numbered 0 (dedupeInputs (documentViews unicode crate contentType body canonicalUrl contentText))

theorem dedupe_sublist : (dedupeInputs
    (documentViews unicode crate contentType body canonicalUrl contentText)).Sublist
      (documentViews unicode crate contentType body canonicalUrl contentText) :=
  Str.firsts_sublist _ [] _

theorem length_dedupe_le : (dedupeInputs
    (documentViews unicode crate contentType body canonicalUrl contentText)).length ≤ 86 :=
  dedupe_sublist.length_le.trans (length_documentViews_le _ _ _ _ _ _)

theorem dedupe_pushed : ∀ input ∈ dedupeInputs
    (documentViews unicode crate contentType body canonicalUrl contentText), Pushed input :=
  fun input member => pushedInputs_pushed input (dedupe_sublist.subset member)

variable (unicode crate contentType body canonicalUrl contentText) in
def describedDocument : SemanticDocument EmbeddingInput where
  title := pageTitle (pageMarkup contentType body)
  contentText := contentText
  keywords := extractKeywords unicode contentText 32
  entities := extractEntities unicode contentText 32
  embeddingInputs := keptInputs unicode crate contentType body canonicalUrl contentText

theorem keptInputs_unnumbered :
    (keptInputs unicode crate contentType body canonicalUrl contentText).map unnumbered =
      dedupeInputs (documentViews unicode crate contentType body canonicalUrl contentText) := by
  rw [keptInputs, unnumbered_numbered, unnumbered_pushed dedupe_pushed]

theorem keptInputs_eq_nil :
    keptInputs unicode crate contentType body canonicalUrl contentText = [] ↔
      documentViews unicode crate contentType body canonicalUrl contentText = [] := by
  rw [← List.map_eq_nil_iff (f := unnumbered), keptInputs_unnumbered, dedupeInputs_eq_nil]

theorem length_keptInputs :
    (keptInputs unicode crate contentType body canonicalUrl contentText).length =
      (dedupeInputs (documentViews unicode crate contentType body canonicalUrl contentText)).length := by
  rw [← keptInputs_unnumbered, List.length_map]

theorem length_keptInputs_le :
    (keptInputs unicode crate contentType body canonicalUrl contentText).length ≤ 86 := by
  rw [length_keptInputs]
  exact length_dedupe_le

/-- No ordinal is too large. -/
theorem setOrdinals_kept :
    setOrdinals 0 (dedupeInputs (documentViews unicode crate contentType body canonicalUrl contentText)) =
      .ok (keptInputs unicode crate contentType body canonicalUrl contentText) := by
  have few := @length_dedupe_le unicode crate contentType body canonicalUrl contentText
  exact setOrdinals_numbered (by omega)

theorem keptInputs_pushed :
    ∀ input ∈ keptInputs unicode crate contentType body canonicalUrl contentText,
      Pushed (unnumbered input) :=
  fun _ member => mem_numbered dedupe_pushed member

/-- The validation of the document asks for an input, and for nothing else that can be missing. -/
theorem validate_described (visible : Str.trim contentText ≠ []) :
    (describedDocument unicode crate contentType body canonicalUrl contentText).validate = .ok () ↔
      documentViews unicode crate contentType body canonicalUrl contentText ≠ [] := by
  have few := @length_keptInputs_le unicode crate contentType body canonicalUrl contentText
  have each := validateEach_ok.mpr fun input member => validate_of_pushed
    (@keptInputs_pushed unicode crate contentType body canonicalUrl contentText input member)
  have blank : ¬(Str.trim contentText).isEmpty = true := by simpa using visible
  have missing : ((keptInputs unicode crate contentType body canonicalUrl contentText).isEmpty = true ∨
      (keptInputs unicode crate contentType body canonicalUrl contentText).length > maxInputs) ↔
        documentViews unicode crate contentType body canonicalUrl contentText = [] := by
    rw [or_iff_left (by rw [maxInputs]; omega), List.isEmpty_iff, keptInputs_eq_nil]
  rw [SemanticDocument.validate, describedDocument, if_neg blank]
  by_cases none : documentViews unicode crate contentType body canonicalUrl contentText = []
  · rw [if_pos (missing.mpr none)]
    simp [none]
  · rw [if_neg (missing.not.mpr none)]
    simp [none, each]

/-- No input is cut off and no ordinal is too large, so only the validation can fail. -/
theorem extractSemanticDocument_eq (text : extractText serde contentType body = .ok contentText)
    (visible : Str.trim contentText ≠ []) :
    extractSemanticDocument unicode serde crate contentType body canonicalUrl =
      match (describedDocument unicode crate contentType body canonicalUrl contentText).validate with
      | .error e => .error e
      | .ok _ => .ok (describedDocument unicode crate contentType body canonicalUrl contentText) := by
  have few := @length_dedupe_le unicode crate contentType body canonicalUrl contentText
  have kept : setOrdinals 0 ((dedupeInputs (documentViews unicode crate contentType body canonicalUrl
      contentText)).take maxInputs) =
        .ok (keptInputs unicode crate contentType body canonicalUrl contentText) := by
    rw [List.take_of_length_le (by rw [maxInputs]; omega)]
    exact setOrdinals_kept
  have blank : ¬(Str.trim contentText).isEmpty = true := by simpa using visible
  unfold documentViews pageMarkup at kept
  unfold extractSemanticDocument
  rw [text]
  dsimp only at kept ⊢
  rw [if_neg blank, kept]
  rfl

/-- A document is extracted from a text that is not blank if there is a view of it. -/
theorem extractSemanticDocument_iff {document : SemanticDocument EmbeddingInput} :
    extractSemanticDocument unicode serde crate contentType body canonicalUrl = .ok document ↔
      ∃ contentText, extractText serde contentType body = .ok contentText ∧
        Str.trim contentText ≠ [] ∧
        documentViews unicode crate contentType body canonicalUrl contentText ≠ [] ∧
        document = describedDocument unicode crate contentType body canonicalUrl contentText := by
  cases text : extractText serde contentType body with
  | error e =>
    rw [extractSemanticDocument, text]
    simp
  | ok contentText =>
    by_cases visible : Str.trim contentText = []
    · rw [extractSemanticDocument, text]
      simp [visible]
    · have valid := @validate_described unicode crate contentType body canonicalUrl contentText visible
      rw [extractSemanticDocument_eq text visible]
      cases checked :
          (describedDocument unicode crate contentType body canonicalUrl contentText).validate with
      | error e =>
        rw [checked] at valid
        constructor
        · intro ok
          cases ok
        · rintro ⟨_, same, _, some, _⟩
          cases same
          cases valid.mpr some
      | ok _ =>
        have some := valid.mp checked
        constructor
        · intro ok
          cases ok
          exact ⟨contentText, rfl, visible, some, rfl⟩
        · rintro ⟨_, same, _, _, rfl⟩
          cases same
          rfl

end

end SemanticViews

open SemanticViews

/-- The embedding inputs of a document against all the views that were pushed for it. -/
structure InputsOf (views inputs : List EmbeddingInput) : Prop where
  count : 1 ≤ inputs.length ∧ inputs.length ≤ 86
  complete : setOrdinals 0 (dedupeInputs views) = .ok inputs
  ordinals : inputs.map (·.ordinal) = List.range inputs.length
  texts : ∀ input ∈ inputs, 3 ≤ input.text.length ∧ input.text.length ≤ 700 ∧
    Tidy Str.isWhitespace input.text
  distinct : (inputs.map fun input => Str.toAsciiLowercase input.text).Nodup
  places : views.Pairwise fun x y => place x.kind ≤ place y.kind
  first : ∀ view, view ∈ inputs.map unnumbered ↔ ∃ front back, views = front ++ view :: back ∧
    ∀ earlier ∈ front, Str.toAsciiLowercase earlier.text ≠ Str.toAsciiLowercase view.text

theorem extractSemanticDocument_inputs {unicode : Unicode} {serde : SerdeJson} {crate : UrlCrate}
    {contentType : Str} {body : List UInt8} {canonicalUrl : Str}
    {document : SemanticDocument EmbeddingInput}
    (ok : extractSemanticDocument unicode serde crate contentType body canonicalUrl = .ok document) :
    InputsOf (documentViews unicode crate contentType body canonicalUrl document.contentText)
      document.embeddingInputs := by
  obtain ⟨contentText, _, _, some, rfl⟩ := extractSemanticDocument_iff.mp ok
  dsimp only [describedDocument]
  have kept := @keptInputs_unnumbered unicode crate contentType body canonicalUrl contentText
  have ordinals := ordinals_numbered 0
    (dedupeInputs (documentViews unicode crate contentType body canonicalUrl contentText))
  rw [← length_keptInputs, ← List.range_eq_range'] at ordinals
  have lower : (fun input : EmbeddingInput => Str.toAsciiLowercase input.text) =
      (fun input => Str.toAsciiLowercase input.text) ∘ unnumbered := rfl
  refine ⟨⟨List.length_pos_iff.mpr (keptInputs_eq_nil.not.mpr some), length_keptInputs_le⟩,
    setOrdinals_kept, ordinals, fun input member => ?_, ?_, pushedInputs_places, fun view => ?_⟩
  · have pushed := keptInputs_pushed input member
    exact ⟨pushed.size.1, pushed.size.2, pushed.tidy⟩
  · rw [lower, ← List.map_map, kept]
    exact Str.firsts_nodup [] _
  · rw [kept, dedupeInputs, Str.mem_firsts, and_iff_right List.not_mem_nil]

theorem extractSemanticDocument_inputs_note :
    InputsOf (documentViews Unicode.ascii blogCrate "text/plain".toList
      (Percent.utf8Bytes "Ab  cd".toList) "https://example.com/blog".toList noteDocument.contentText)
      noteDocument.embeddingInputs :=
  @extractSemanticDocument_inputs Unicode.ascii ⟨fun _ => .error []⟩ blogCrate "text/plain".toList
    (Percent.utf8Bytes "Ab  cd".toList) "https://example.com/blog".toList noteDocument
    (by decide +kernel)

end EalSync.Ingestion
