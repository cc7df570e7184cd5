import EalSync.Ingestion.Content
import EalSync.Std.Text
import EalSync.Std.Url

/-! src/ingestion/semantic_views.rs: the views of a document that are embedded. A weight is an exact
rational; the cursor of a scan is the suffix that it has still to read. -/
namespace EalSync.Ingestion

inductive EmbeddingInputKind where
  | title
  | heading
  | summary
  | sentence
  | entity
  | keyword
  | urlSignal
  | document
  deriving DecidableEq, Repr

structure EmbeddingInput where
  kind : EmbeddingInputKind
  ordinal : Nat
  text : Str
  weight : ℚ
  deriving DecidableEq

def maxInputs : Nat := 96

def maxInputChars : Nat := 700

def maxEmbeddingTextChars : Nat := 24000

def EmbeddingInput.validate (input : EmbeddingInput) : Except IngestionError Unit :=
  if (Str.trim input.text).isEmpty ∨ input.text.length > maxInputChars then
    .error ⟨"invalid_embedding_input", "embedding input text must contain 1 to " ++
      toString maxInputChars ++ " characters"⟩
  else if ¬(1 / 10 ≤ input.weight ∧ input.weight ≤ 2) then
    .error ⟨"invalid_embedding_input",
      "embedding input weight must be finite and between 0.1 and 2.0"⟩
  else .ok ()

structure SemanticDocument (Input : Type) where
  title : Option Str
  contentText : Str
  keywords : List Str
  entities : List Str
  embeddingInputs : List Input
  deriving DecidableEq

def inputKindLabel : EmbeddingInputKind → Str
  | .title => "title".toList
  | .heading => "heading".toList
  | .summary => "summary".toList
  | .sentence => "sentence".toList
  | .entity => "entities".toList
  | .keyword => "keywords".toList
  | .urlSignal => "url".toList
  | .document => "document".toList

/-- input.validate()? for each input in turn. -/
def validateEach : List EmbeddingInput → Except IngestionError Unit
  | [] => .ok ()
  | input :: rest =>
    match input.validate with
    | .error e => .error e
    | .ok _ => validateEach rest

namespace SemanticDocument

def validate (document : SemanticDocument EmbeddingInput) : Except IngestionError Unit :=
  if (Str.trim document.contentText).isEmpty then
    .error ⟨"empty_content", "response did not contain extractable text"⟩
  else if document.embeddingInputs.isEmpty ∨ document.embeddingInputs.length > maxInputs then
    .error ⟨"invalid_embedding_inputs", "a semantic document must contain 1 to " ++
      toString maxInputs ++ " embedding inputs"⟩
  else validateEach document.embeddingInputs

def inputLine (input : EmbeddingInput) : Str :=
  inputKindLabel input.kind ++ ": ".toList ++ input.text ++ ['\n']

/-- The loop of combined_embedding_text with its output so far. -/
def combineLines : Str → List EmbeddingInput → Str
  | output, [] => output
  | output, input :: rest =>
    if output.length + (inputLine input).length > maxEmbeddingTextChars then output
    else combineLines (output ++ inputLine input) rest

def combinedEmbeddingText (document : SemanticDocument EmbeddingInput) : Str :=
  Str.trimEnd (combineLines [] document.embeddingInputs)

end SemanticDocument

namespace SemanticViews

/-- The module has copies of its own of these two. -/
def stripMarkup (input : Str) : Str := Ingestion.stripMarkup input

def decodeCommonEntities (input : Str) : Str := Ingestion.decodeCommonEntities input

/-- Its copy of this one trims the result. -/
def collapseWhitespace (input : Str) : Str := Str.trim (Ingestion.collapseWhitespace input)

def truncateChars (value : Str) (maxChars : Nat) : Str :=
  if value.length ≤ maxChars then value else value.take (maxChars - 1) ++ [Char.ofNat 0x2026]

def pushInput (inputs : List EmbeddingInput) (kind : EmbeddingInputKind) (text : Str) (weight : ℚ) :
    List EmbeddingInput :=
  let text := truncateChars (collapseWhitespace text) maxInputChars
  if text.length < 3 then inputs else inputs ++ [{ kind, ordinal := 0, text, weight }]

def dedupeInputs (inputs : List EmbeddingInput) : List EmbeddingInput :=
  Str.firsts (fun input => Str.toAsciiLowercase input.text) [] inputs

def dedupeText (items : List Str) (limit : Nat) : List Str :=
  (Str.firsts Str.toAsciiLowercase [] items).take limit

/-- What may follow the name in an opening tag. -/
def tagBoundary (boundary : Option Char) : Bool :=
  boundary == some '>' || boundary == some ' ' || boundary == some '\t' || boundary == some '\r' ||
    boundary == some '\n'

/-- The element at the opening tag that begins here: its content, and the rest after its end tag. -/
def elementAt (tag rest : Str) : Option (Str × Str) :=
  match Search.find ['>'] (Str.toAsciiLowercase rest) with
  | none => none
  | some openEnd =>
    let content := rest.drop (openEnd + 1)
    match Search.find (closingOf tag) (Str.toAsciiLowercase content) with
    | none => none
    | some close => some (content.take close, content.drop (close + (closingOf tag).length))

theorem elementAt_shorter {tag rest content after : Str} (h : elementAt tag rest = some (content, after)) :
    after.length < rest.length := by
  unfold elementAt at h
  split at h
  · cases h
  · rename_i openEnd found
    have room := Search.find_le found
    simp only [Str.toAsciiLowercase, List.length_map, List.length_cons, List.length_nil] at room
    dsimp only at h
    split at h
    · cases h
    · cases h
      simp only [List.length_drop]
      omega

/-- The loop of extract_tag_texts with the number of texts still wanted. -/
def tagTexts (tag : Str) (limit : Nat) (rest : Str) : List Str :=
  if limit = 0 then []
  else
    match _found : Search.find (openingOf tag) (Str.toAsciiLowercase rest) with
    | none => []
    | some opened =>
      if !tagBoundary (Str.toAsciiLowercase rest)[opened + (openingOf tag).length]? then
        tagTexts tag limit (rest.drop (opened + (openingOf tag).length))
      else
        match _inside : elementAt tag (rest.drop opened) with
        | none => []
        | some (content, after) =>
          let text := collapseWhitespace (decodeCommonEntities (stripMarkup content))
          if text.isEmpty then tagTexts tag limit after
          else truncateChars text maxInputChars :: tagTexts tag (limit - 1) after
termination_by rest.length
decreasing_by
  · have room := Search.find_le _found
    simp only [Str.toAsciiLowercase, List.length_map, openingOf, List.length_cons] at room
    simp only [List.length_drop, openingOf, List.length_cons]
    omega
  all_goals
    have shorter := elementAt_shorter _inside
    rw [List.length_drop] at shorter
    omega

def extractTagTexts (html tag : Str) (limit : Nat) : List Str := tagTexts tag limit html

/-- The loop of complete_sentences with the sentences and the buffer so far. -/
def sentenceScan (limit : Nat) : List Str → Str → Str → List Str
  | sentences, _, [] => sentences
  | sentences, buffer, c :: rest =>
    let buffer := buffer ++ [c]
    if c = '.' ∨ c = '!' ∨ c = '?' then
      let candidate := collapseWhitespace buffer
      let words := (Str.splitWhitespace candidate).length
      if (6 ≤ words ∧ words ≤ 110) ∧ 36 ≤ candidate.length ∧ candidate.length ≤ 900 then
        if sentences.length + 1 = limit then sentences ++ [candidate]
        else sentenceScan limit (sentences ++ [candidate]) [] rest
      else sentenceScan limit sentences [] rest
    else if buffer.length > 1000 then sentenceScan limit sentences [] rest
    else sentenceScan limit sentences buffer rest

def completeSentences (text : Str) (limit : Nat) : List Str :=
  dedupeText (sentenceScan limit [] [] text) limit

def buildSummary (sentences : List Str) (contentText : Str) : Str :=
  let summary := [' '].intercalate (sentences.take 3)
  if summary.length ≥ 80 then truncateChars summary 900 else truncateChars contentText 900

def stopwords : Str :=
  "a about after again all also am an and any are as at be because ".toList ++
  "been before being between both but by can could did do does doing ".toList ++
  "down during each few for from further had has have having he her ".toList ++
  "here hers herself him himself his how i if in into is it its ".toList ++
  "itself just me more most my myself no nor not now of off on once ".toList ++
  "only or other our ours ourselves out over own same she should so ".toList ++
  "some such than that the their theirs them themselves then there ".toList ++
  "these they this those through to too under until up very was we ".toList ++
  "were what when where which while who whom why will with would you ".toList ++
  "your yours yourself yourselves".toList

def isStopword (token : Str) : Bool :=
  (Str.splitAsciiWhitespace stopwords).any fun stopword => stopword == token

def commonSentenceLeads : List Str :=
  ["A".toList, "An".toList, "And".toList, "But".toList, "For".toList, "How".toList, "In".toList,
    "It".toList, "On".toList, "Or".toList, "The".toList, "This".toList, "To".toList, "We".toList,
    "What".toList, "When".toList, "Where".toList, "Why".toList, "You".toList]

def isCommonSentenceLead (candidate : Str) : Bool := commonSentenceLeads.contains candidate

/-- ranked.sort_by: by falling count, then by key. -/
def ranked (counts : List (Str × Nat)) : List (Str × Nat) :=
  counts.insertionSort fun left right =>
    right.2 < left.2 ∨ right.2 = left.2 ∧ left.1 ≤ right.1

/-- candidate is what flush_entity joins. -/
def flushEntity (phrase : List Str) (counts : List (Str × Nat)) : List (Str × Nat) :=
  if phrase.isEmpty then counts
  else
    let candidate := [' '].intercalate phrase
    if candidate.length ≥ 3 && !isCommonSentenceLead candidate then Str.increment candidate counts
    else counts

section

variable (unicode : Unicode)

/-- The loop of normalized_tokens with its tokens and the current one. -/
def tokenScan : List Str → Str → Str → List Str
  | tokens, current, [] => if current.isEmpty then tokens else tokens ++ [current]
  | tokens, current, c :: rest =>
    if unicode.isAlphanumeric c || (c == Char.ofNat 39 && !current.isEmpty) then
      tokenScan tokens (current ++ unicode.toLowercase c) rest
    else if !current.isEmpty then tokenScan (tokens ++ [current]) [] rest
    else tokenScan tokens current rest

def normalizedTokens (text : Str) : List Str := tokenScan unicode [] [] text

def extractKeywords (text : Str) (limit : Nat) : List Str :=
  let counts := (normalizedTokens unicode text).foldl (fun counts token =>
    if token.length < 3 || isStopword token || token.all unicode.isNumeric then counts
    else Str.increment token counts) []
  ((ranked counts).take limit).map Prod.fst

def isEntityToken (token : Str) : Bool :=
  if token.length < 2 || token.all unicode.isNumeric then false
  else match token.head? with
    | none => false
    | some first =>
      if !unicode.isUppercase first then false
      else
        let letters := token.filter unicode.isAlphabetic
        let uppercase := (letters.filter unicode.isUppercase).length
        uppercase == 1 || (uppercase == letters.length && letters.length ≤ 8)

/-- The loop of extract_entities with the phrase and the counts so far, and its last flush. -/
def entityScan : List Str → List (Str × Nat) → List Str → List (Str × Nat)
  | phrase, counts, [] => flushEntity phrase counts
  | phrase, counts, raw :: rest =>
    let token := Str.trimMatches
      (fun c => !unicode.isAlphanumeric c && c != '-' && c != Char.ofNat 39) raw
    if isEntityToken unicode token then
      if phrase.length + 1 = 5 then entityScan [] (flushEntity (phrase ++ [token]) counts) rest
      else entityScan (phrase ++ [token]) counts rest
    else entityScan [] (flushEntity phrase counts) rest

def extractEntities (text : Str) (limit : Nat) : List Str :=
  ((ranked (entityScan unicode [] [] (Str.splitWhitespace text))).take limit).map Prod.fst

end

/-- Url::path_segments. -/
def pathSegments (url : Url) : List Str :=
  match Str.stripPrefix ['/'] url.path with
  | none => []
  | some remainder => remainder.splitOn '/'

def urlSignal (crate : UrlCrate) (value : Str) : Option Str :=
  match crate.parse value with
  | .error _ => none
  | .ok url =>
    let hostTerms := url.hostStr.elim [] fun host => (host.splitOn '.').filter fun part =>
      Str.len part > 2 && !(["www".toList, "com".toList, "org".toList, "net".toList].contains part)
    let pathTerms := ((pathSegments url).flatMap fun segment =>
      segment.splitOnP fun c => c == '-' || c == '_').filter fun part => Str.len part > 2
    let terms := Str.sorted (hostTerms ++ pathTerms)
    if terms.isEmpty then none else some ([' '].intercalate terms)

/-- The title and the headings, of a page that is HTML only. -/
def pageTitle (html : Option Str) : Option Str :=
  html.bind fun markup => (extractTagTexts markup "title".toList 1).head?

def pageHeadings (html : Option Str) : List Str :=
  dedupeText (html.elim [] fun markup => ["h1".toList, "h2".toList, "h3".toList].flatMap fun tag =>
    extractTagTexts markup tag 12) 24

/-- The inputs in the order in which they are pushed. -/
def pushedInputs (title : Option Str) (headings sentences keywords entities : List Str)
    (signal : Option Str) (contentText : Str) : List EmbeddingInput :=
  let inputs := title.elim [] fun title => pushInput [] .title title (5 / 4)
  let inputs := headings.foldl (fun inputs heading => pushInput inputs .heading heading (23 / 20)) inputs
  let inputs := pushInput inputs .summary (buildSummary sentences contentText) (11 / 10)
  let inputs := (Str.chunks 6 entities).foldl (fun inputs group =>
    pushInput inputs .entity ("; ".toList.intercalate group) (21 / 20)) inputs
  let inputs := (Str.chunks 8 keywords).foldl (fun inputs group =>
    pushInput inputs .keyword (", ".toList.intercalate group) (9 / 10)) inputs
  let inputs := sentences.foldl (fun inputs sentence => pushInput inputs .sentence sentence 1) inputs
  let inputs := signal.elim inputs fun signal => pushInput inputs .urlSignal signal (13 / 20)
  pushInput inputs .document (truncateChars contentText 2000) (3 / 4)

/-- input.ordinal = u16::try_from(ordinal)? for each input in turn. -/
def setOrdinals : Nat → List EmbeddingInput → Except IngestionError (List EmbeddingInput)
  | _, [] => .ok []
  | ordinal, input :: rest =>
    if ordinal ≥ 2 ^ 16 then
      .error ⟨"invalid_embedding_inputs", "embedding ordinal overflow"⟩
    else match setOrdinals (ordinal + 1) rest with
      | .error e => .error e
      | .ok rest => .ok ({ input with ordinal } :: rest)

end SemanticViews

open SemanticViews in
def extractSemanticDocument (unicode : Unicode) (serde : SerdeJson) (crate : UrlCrate)
    (contentType : Str) (body : List UInt8) (canonicalUrl : Str) :
    Except IngestionError (SemanticDocument EmbeddingInput) :=
  match extractText serde contentType body with
  | .error e => .error e
  | .ok contentText =>
    if (Str.trim contentText).isEmpty then
      .error ⟨"empty_content", "response did not contain extractable text"⟩
    else
      let baseType := Str.trim ((contentType.splitOn ';').headD contentType)
      let html := if baseType = "text/html".toList ∨ baseType = "application/xhtml+xml".toList then
        some (Utf8.fromUtf8Lossy body) else none
      let title := pageTitle html
      let headings := pageHeadings html
      let sentences := completeSentences contentText 48
      let keywords := extractKeywords unicode contentText 32
      let entities := extractEntities unicode contentText 32
      let inputs := pushedInputs title headings sentences keywords entities
        (urlSignal crate canonicalUrl) contentText
      match setOrdinals 0 ((dedupeInputs inputs).take maxInputs) with
      | .error e => .error e
      | .ok embeddingInputs =>
        let document : SemanticDocument EmbeddingInput :=
          { title, contentText, keywords, entities, embeddingInputs }
        match document.validate with
        | .error e => .error e
        | .ok _ => .ok document

end EalSync.Ingestion
