import EalSync.Ingestion.Inputs

/-! Which documents with a visible text have a view that is long enough to be an embedding input. -/
namespace EalSync.Ingestion

open Words

theorem length_collapse_le (output : Str) (pendingSpace : Bool) (s : Str) :
    (collapse output pendingSpace s).length ≤ output.length + s.length + pendingSpace.toNat := by
  induction s generalizing output pendingSpace with
  | nil =>
    rw [collapse]
    omega
  | cons c rest ih =>
    rw [collapse, List.length_cons]
    split
    · have later := ih output (!output.isEmpty)
      have one := Bool.toNat_le (!output.isEmpty)
      omega
    · have gap : (if pendingSpace then [' '] else []).length = pendingSpace.toNat := by
        cases pendingSpace <;> rfl
      have later := ih (output ++ (if pendingSpace then [' '] else []) ++ [c]) false
      rw [List.length_append, List.length_append, gap, List.length_singleton, Bool.toNat_false] at later
      omega

namespace SemanticViews

theorem length_collapseWhitespace_le (s : Str) : (collapseWhitespace s).length ≤ s.length := by
  rw [collapseWhitespace_eq, Ingestion.collapseWhitespace]
  simpa using length_collapse_le [] false s

theorem Viewable.length {text : Str} (long : Viewable text) : 3 ≤ text.length :=
  Nat.le_trans long (length_collapseWhitespace_le text)

/-- Its words are spaced as they would be. -/
def Collapsed (s : Str) : Prop := collapseWhitespace s = s

theorem collapsed_of_tidy {s : Str} (tidy : Tidy Str.isWhitespace s)
    (own : ∀ c ∈ s, Str.isWhitespace c = true → c = ' ') : Collapsed s := by
  rw [Collapsed, collapseWhitespace_eq, Ingestion.collapseWhitespace_eq]
  exact spaced_words tidy own

theorem Collapsed.tidy {s : Str} (collapsed : Collapsed s) : Tidy Str.isWhitespace s := by
  rw [← collapsed]
  exact tidy_collapseWhitespace s

theorem own_collapse (s : Str) :
    ∀ c ∈ Ingestion.collapseWhitespace s, Str.isWhitespace c = true → c = ' ' := by
  rw [Ingestion.collapseWhitespace_eq]
  intro c member
  exact eq_sep_of_mem_spaced (fun _ word => (mem_words word).2) member

theorem collapsed_collapse (s : Str) : Collapsed (Ingestion.collapseWhitespace s) :=
  collapsed_of_tidy (tidy_collapse s) (own_collapse s)

theorem Collapsed.own {s : Str} (collapsed : Collapsed s) :
    ∀ c ∈ s, Str.isWhitespace c = true → c = ' ' := by
  rw [← collapsed, collapseWhitespace_eq]
  exact own_collapse s

/-- No space is left at the end, for an ellipsis is put there. -/
theorem Collapsed.truncate {s : Str} (collapsed : Collapsed s) (maxChars : Nat) :
    Collapsed (truncateChars s maxChars) := by
  apply collapsed_of_tidy (tidy_truncateChars collapsed.tidy maxChars)
  rw [truncateChars]
  split
  · exact collapsed.own
  · intro c member blank
    rcases List.mem_append.mp member with inside | last
    · exact collapsed.own c (List.mem_of_mem_take inside) blank
    · rw [List.mem_singleton.mp last] at blank
      cases blank

theorem Collapsed.viewable {s : Str} (collapsed : Collapsed s) : Viewable s ↔ 3 ≤ s.length := by
  rw [Viewable, collapsed]

theorem tagTexts_collapsed (tag : Str) (limit : Nat) (rest : Str) :
    ∀ text ∈ tagTexts tag limit rest, Collapsed text := by
  fun_induction tagTexts tag limit rest with
  | case1 => simp
  | case2 => simp
  | case3 _ _ _ _ _ _ ih => exact ih
  | case4 => simp
  | case5 _ _ _ _ _ _ _ _ _ _ _ ih => exact ih
  | case6 _ _ _ _ _ _ content _ _ text _ ih =>
    rw [List.forall_mem_cons]
    refine ⟨Collapsed.truncate ?_ maxInputChars, ih⟩
    rw [show text = collapseWhitespace (decodeCommonEntities (stripMarkup content)) from rfl,
      collapseWhitespace_eq]
    exact collapsed_collapse _

theorem pageTitle_collapsed (html : Option Str) : ∀ title ∈ pageTitle html, Collapsed title := by
  intro title member
  obtain ⟨markup, _, first⟩ := Option.bind_eq_some_iff.mp member
  exact tagTexts_collapsed _ _ _ title (List.mem_of_mem_head? first)

theorem pageHeadings_collapsed (html : Option Str) : ∀ heading ∈ pageHeadings html, Collapsed heading := by
  intro heading member
  have own := (Str.firsts_sublist _ [] _).subset (List.mem_of_mem_take member)
  cases html with
  | none => cases own
  | some markup =>
    obtain ⟨tag, _, inside⟩ := List.mem_flatMap.mp own
    exact tagTexts_collapsed _ _ _ heading inside

/-- No candidate for a sentence is long enough. -/
theorem sentenceScan_short (limit : Nat) {buffer s : Str} (short : buffer.length + s.length < 36) :
    sentenceScan limit [] buffer s = [] := by
  induction s generalizing buffer with
  | nil => rfl
  | cons c rest ih =>
    rw [List.length_cons] at short
    have size : (buffer ++ [c]).length = buffer.length + 1 := by simp
    have candidate := length_collapseWhitespace_le (buffer ++ [c])
    have few : ¬36 ≤ (collapseWhitespace (buffer ++ [c])).length := by omega
    have cleared : sentenceScan limit [] [] rest = [] := ih (by rw [List.length_nil]; omega)
    rw [sentenceScan]
    dsimp only
    split
    · rw [if_neg fun whole => few whole.2.1]
      exact cleared
    · split
      · exact cleared
      · exact ih (by omega)

theorem completeSentences_short {text : Str} (short : text.length < 36) (limit : Nat) :
    completeSentences text limit = [] := by
  rw [completeSentences, sentenceScan_short limit (by rw [List.length_nil]; omega)]
  exact List.take_nil

theorem buildSummary_nil (contentText : Str) : buildSummary [] contentText = truncateChars contentText 900 :=
  rfl

section

variable (unicode : Unicode)

/-- A word of two characters is too short for an entity. -/
theorem entityScan_short {word : Str} (short : word.length < 3) : entityScan unicode [] [] [word] = [] := by
  have flushed (token : Str) (part : token <:+: word) : flushEntity [token] [] = [] := by
    have few : ¬3 ≤ token.length := by
      have := part.length_le
      omega
    rw [flushEntity, if_neg (by simp), List.intercalate_singleton]
    simp [few]
  rw [entityScan]
  split
  · rw [if_neg (by simp)]
    refine flushed _ ?_
    exact (List.rdropWhile_prefix _ _).isInfix.trans (List.dropWhile_suffix _).isInfix
  · rfl

theorem extractEntities_short {text : Str} (collapsed : Collapsed text) (short : text.length < 3)
    (limit : Nat) : extractEntities unicode text limit = [] := by
  have scanned : entityScan unicode [] [] (Str.splitWhitespace text) = [] := by
    rw [Collapsed, collapseWhitespace_eq, Ingestion.collapseWhitespace_eq] at collapsed
    rw [← collapsed] at short
    rw [Str.splitWhitespace]
    rcases short_spaced (fun _ word => (mem_words word).1) short with none | ⟨word, one⟩
    · rw [none]
      rfl
    · rw [wordsOf, one, spaced, List.intercalate_singleton] at short
      rw [one]
      exact entityScan_short unicode short
  rw [extractEntities, scanned, ranked, List.insertionSort_nil, List.take_nil, List.map_nil]

/-- Two tokens have a character between them. -/
theorem length_tokenScan_le (tokens : List Str) (current s : Str) :
    2 * (tokenScan unicode tokens current s).length ≤
      2 * tokens.length + s.length + (if current.isEmpty then 1 else 2) := by
  induction s generalizing tokens current with
  | nil =>
    rw [tokenScan]
    split
    · omega
    · rw [List.length_append, List.length_singleton]
      omega
  | cons c rest ih =>
    rw [tokenScan, List.length_cons]
    split
    · have later := ih tokens (current ++ unicode.toLowercase c)
      split at later <;> split <;> omega
    · split
      · rename_i some
        have later := ih (tokens ++ [current]) []
        rw [List.length_append, List.length_singleton, List.isEmpty_nil, if_pos rfl] at later
        rw [if_neg (by simpa using some)]
        omega
      · have later := ih tokens current
        omega

/-- What the filter of extract_keywords keeps. -/
def IsKeyword (token : Str) : Prop :=
  ¬(token.length < 3 || isStopword token || token.all unicode.isNumeric) = true

/-- A text of two characters has one token, which is long only if lower-casing it makes it so. -/
theorem keyword_views {text : Str} (short : text.length < 3) :
    (∃ group ∈ Str.chunks 8 (extractKeywords unicode text 32), Viewable (", ".toList.intercalate group)) ↔
      ∃ token ∈ normalizedTokens unicode text, IsKeyword unicode token ∧ Viewable token := by
  have few := length_tokenScan_le unicode [] [] text
  rw [← normalizedTokens, List.length_nil, List.isEmpty_nil, if_pos rfl] at few
  rw [extractKeywords]
  generalize normalizedTokens unicode text = tokens at few ⊢
  rcases tokens with _ | ⟨token, _ | ⟨second, rest⟩⟩
  · have none : Str.chunks 8 (((ranked []).take 32).map Prod.fst) = [] := rfl
    rw [List.foldl_nil, none]
    simp
  · rw [List.foldl_cons, List.foldl_nil]
    simp only [List.mem_singleton, exists_eq_left]
    by_cases own : IsKeyword unicode token
    · have one : Str.chunks 8 (((ranked [(token, 1)]).take 32).map Prod.fst) = [[token]] := rfl
      rw [if_neg own, Str.increment, one]
      simp only [List.mem_singleton, exists_eq_left, List.intercalate_singleton]
      exact (and_iff_right own).symm
    · have none : Str.chunks 8 (((ranked []).take 32).map Prod.fst) = [] := rfl
      rw [if_pos (not_not.mp own), none]
      simp [own]
  · simp only [List.length_cons] at few
    omega

end

section

variable (unicode : Unicode) (crate : UrlCrate) (contentType : Str) (body : List UInt8)
  (canonicalUrl contentText : Str)

/-- What a view of the document can be taken from. -/
inductive Describable : Prop where
  | text (long : 3 ≤ contentText.length)
  | title {title : Str} (own : title ∈ pageTitle (pageMarkup contentType body)) (long : 3 ≤ title.length)
  | heading {heading : Str} (own : heading ∈ pageHeadings (pageMarkup contentType body))
    (long : 3 ≤ heading.length)
  | keyword {token : Str} (own : token ∈ normalizedTokens unicode contentText)
    (keyword : IsKeyword unicode token) (long : Viewable token)
  | url {signal : Str} (own : signal ∈ urlSignal crate canonicalUrl) (long : Viewable signal)

theorem documentViews_ne_nil :
    documentViews unicode crate contentType body canonicalUrl contentText ≠ [] ↔
      ∃ group ∈ viewGroups (pageTitle (pageMarkup contentType body))
        (pageHeadings (pageMarkup contentType body)) (completeSentences contentText 48)
        (extractKeywords unicode contentText 32) (extractEntities unicode contentText 32)
        (urlSignal crate canonicalUrl) contentText, ∃ text ∈ group.texts, Viewable text := by
  rw [documentViews, pushedInputs_eq, Ne, List.flatMap_eq_nil_iff]
  simp only [ViewGroup.inputs_eq_nil]
  push Not
  rfl

variable {contentText}

/-- Of a short text there is no sentence, no entity and no view as a whole. -/
theorem views_short (collapsed : Collapsed contentText) (short : contentText.length < 3) :
    documentViews unicode crate contentType body canonicalUrl contentText ≠ [] ↔
      (∃ title ∈ pageTitle (pageMarkup contentType body), Viewable title) ∨
      (∃ heading ∈ pageHeadings (pageMarkup contentType body), Viewable heading) ∨
      (∃ group ∈ Str.chunks 8 (extractKeywords unicode contentText 32),
        Viewable (", ".toList.intercalate group)) ∨
      ∃ signal ∈ urlSignal crate canonicalUrl, Viewable signal := by
  have small : ¬Viewable contentText := fun long => absurd long.length (by omega)
  have whole (maxChars : Nat) (room : 3 ≤ maxChars) : truncateChars contentText maxChars = contentText :=
    if_pos (by omega)
  have entities : Str.chunks 6 (extractEntities unicode contentText 32) = [] := by
    rw [extractEntities_short unicode collapsed short]
    rfl
  rw [documentViews_ne_nil, completeSentences_short (by omega), viewGroups, entities, buildSummary_nil,
    whole 900 (by decide), whole 2000 (by decide)]
  simp [small]

theorem documentViews_iff (collapsed : Collapsed contentText) :
    documentViews unicode crate contentType body canonicalUrl contentText ≠ [] ↔
      Describable unicode crate contentType body canonicalUrl contentText := by
  by_cases long : 3 ≤ contentText.length
  · have size := length_truncateChars (by decide : 0 < 2000) contentText
    have view : Viewable (truncateChars contentText 2000) := by
      rw [(collapsed.truncate 2000).viewable, size]
      omega
    refine iff_of_true ?_ (.text long)
    rw [documentViews_ne_nil]
    exact ⟨⟨.document, 3 / 4, [truncateChars contentText 2000]⟩, by simp [viewGroups], _,
      List.mem_singleton_self _, view⟩
  · rw [views_short unicode crate contentType body canonicalUrl collapsed (not_le.mp long),
      keyword_views unicode (not_le.mp long)]
    constructor
    · rintro (⟨title, own, view⟩ | ⟨heading, own, view⟩ | ⟨token, own, keyword, view⟩ |
        ⟨signal, own, view⟩)
      · exact .title own view.length
      · exact .heading own view.length
      · exact .keyword own keyword view
      · exact .url own view
    · intro describable
      cases describable with
      | text also => exact absurd also long
      | title own size => exact .inl ⟨_, own, (pageTitle_collapsed _ _ own).viewable.mpr size⟩
      | heading own size =>
        exact .inr (.inl ⟨_, own, (pageHeadings_collapsed _ _ own).viewable.mpr size⟩)
      | keyword own keyword view => exact .inr (.inr (.inl ⟨_, own, keyword, view⟩))
      | url own view => exact .inr (.inr (.inr ⟨_, own, view⟩))

end

theorem collapsed_of_extractText {serde : SerdeJson} {contentType : Str} {body : List UInt8}
    {contentText : Str} (text : extractText serde contentType body = .ok contentText) :
    Collapsed contentText := by
  rw [extractText] at text
  split at text
  · cases text
  · cases text
    exact collapsed_collapse _

end SemanticViews

theorem short_host : ∀ c ∈ "x.com".toList, printable c := by decide

theorem short_path : ∀ c ∈ "/".toList, printable c ∧ c ≠ '?' ∧ c ≠ '#' ∧ c ≠ '\\' := by decide

theorem short_absolute : "/".toList.head? = some '/' := rfl

theorem short_resolved : ∀ segment ∈ "/".toList.splitOn '/', dotSegment segment = false := by decide

def shortUrl : Url := .https "x.com".toList "/".toList short_host short_path short_absolute short_resolved

/-- What the url crate answers on the shortest URL of a site. -/
def shortCrate : UrlCrate where
  parse s := if s = shortUrl.asStr then .ok shortUrl else blogCrate.parse s
  join _ _ := .ok shortUrl

open SemanticViews

section

variable {unicode : Unicode} {serde : SerdeJson} {crate : UrlCrate} {contentType : Str}
  {body : List UInt8} {canonicalUrl contentText : Str}

/-- A document is extracted from a visible text exactly if there is something to take a view from. -/
theorem extractSemanticDocument_describable (text : extractText serde contentType body = .ok contentText)
    (visible : Str.trim contentText ≠ []) :
    (∃ document, extractSemanticDocument unicode serde crate contentType body canonicalUrl = .ok document) ↔
      Describable unicode crate contentType body canonicalUrl contentText := by
  rw [← documentViews_iff unicode crate contentType body canonicalUrl (collapsed_of_extractText text)]
  constructor
  · rintro ⟨document, ok⟩
    obtain ⟨_, same, _, some, _⟩ := extractSemanticDocument_iff.mp ok
    rw [text] at same
    cases same
    exact some
  · intro some
    exact ⟨_, extractSemanticDocument_iff.mpr ⟨contentText, text, visible, some, rfl⟩⟩

end

theorem shout_read : extractText ⟨fun _ => .error []⟩ "text/plain".toList
    (Percent.utf8Bytes "OK!\n".toList) = .ok "OK!".toList := by decide +kernel

theorem extractSemanticDocument_describable_shout :
    ∃ document, extractSemanticDocument Unicode.ascii ⟨fun _ => .error []⟩ shortCrate "text/plain".toList
      (Percent.utf8Bytes "OK!\n".toList) "https://x.com/".toList = .ok document :=
  (extractSemanticDocument_describable shout_read (by decide +kernel)).mpr (.text (by decide))

/-- Two characters are a visible text that no view is taken from. -/
theorem extractSemanticDocument_two_characters :
    extractText ⟨fun _ => .error []⟩ "text/plain".toList (Percent.utf8Bytes "OK".toList) =
      .ok "OK".toList ∧
    Str.trim "OK".toList ≠ [] ∧
    extractSemanticDocument Unicode.ascii ⟨fun _ => .error []⟩ shortCrate "text/plain".toList
        (Percent.utf8Bytes "OK".toList) "https://x.com/".toList =
      .error ⟨"invalid_embedding_inputs",
        "a semantic document must contain 1 to 96 embedding inputs"⟩ := by
  decide +kernel

end EalSync.Ingestion
