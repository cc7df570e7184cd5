import EalSync.Ingestion.Response
import EalSync.Ingestion.Visible

/-! Feeds: XML made of tags, character data and CDATA sections. The scan of the markup takes a CDATA
section for a tag. XHTML is read as HTML, whose ignored blocks are cut out first. -/
namespace EalSync.Ingestion

open Words

structure FeedTag where
  body : Str
  plain : '<' ∉ body ∧ '>' ∉ body

inductive FeedItem where
  | tag (tag : FeedTag)
  | cdata (content : CharData)

/-- Character data, and each item with the character data after it. -/
structure Feed where
  lead : CharData
  rest : List (FeedItem × CharData)

namespace FeedItem

/-- What stands between the angles. -/
def body : FeedItem → Str
  | tag t => t.body
  | cdata content => "![CDATA[".toList ++ content.text ++ "]]".toList

def render (item : FeedItem) : Str := '<' :: (item.body ++ ['>'])

def sections : FeedItem → List Str
  | tag _ => []
  | cdata content => [content.text]

def words (item : FeedItem) : List Str := item.sections.flatMap wordsOf

/-- The first letters of a tag tell that it begins a block. -/
def opens (tag : Str) (item : FeedItem) : Bool := tag.isPrefixOf (Str.toAsciiLowercase item.body)

def closes (tag : Str) (item : FeedItem) : Bool := Str.toAsciiLowercase item.body == '/' :: tag

theorem body_cdata (content : CharData) :
    (cdata content).body = "![CDATA[".toList ++ content.text ++ "]]".toList := rfl

theorem body_plain (item : FeedItem) : '<' ∉ item.body ∧ '>' ∉ item.body := by
  cases item with
  | tag t => exact t.plain
  | cdata content =>
    have start : '<' ∉ "![CDATA[".toList ∧ '>' ∉ "![CDATA[".toList := by decide
    have stop : '<' ∉ "]]".toList ∧ '>' ∉ "]]".toList := by decide
    rw [body_cdata]
    simp only [List.mem_append, not_or]
    exact ⟨⟨⟨start.1, content.plain.1⟩, stop.1⟩, ⟨⟨start.2, content.plain.2⟩, stop.2⟩⟩

end FeedItem

/-- Two texts with a space for what stood between them. -/
def CharData.join (front back : CharData) : CharData where
  text := front.text ++ ' ' :: back.text
  plain := by simp [front.plain, back.plain]
  simple := by simp [front.simple, back.simple]

namespace Feed

def renderRest (rest : List (FeedItem × CharData)) : Str :=
  rest.flatMap fun part => part.1.render ++ part.2.text

def render (feed : Feed) : Str := feed.lead.text ++ renderRest feed.rest

def wordsOfRest (rest : List (FeedItem × CharData)) : List Str :=
  rest.flatMap fun part => part.1.words ++ wordsOf part.2.text

/-- The words of every run and every section, in document order. -/
def words (feed : Feed) : List Str := wordsOf feed.lead.text ++ wordsOfRest feed.rest

/-- The words of the character data alone. -/
def dataWords (feed : Feed) : List Str :=
  wordsOf feed.lead.text ++ feed.rest.flatMap fun part => wordsOf part.2.text

def sections (feed : Feed) : List Str := feed.rest.flatMap fun part => part.1.sections

/-- What is left without the blocks of a tag, read from inside such a block or from outside. -/
def cutFrom (tag : Str) : Bool → CharData → List (FeedItem × CharData) → Feed
  | false, lead, [] => ⟨lead, []⟩
  | true, lead, [] => ⟨lead.join .empty, []⟩
  | false, lead, (item, text) :: rest =>
    if item.opens tag then cutFrom tag true lead rest
    else ⟨lead, (item, (cutFrom tag false text rest).lead) :: (cutFrom tag false text rest).rest⟩
  | true, lead, (item, text) :: rest =>
    if item.closes tag then cutFrom tag false (lead.join text) rest else cutFrom tag true lead rest

def cut (tag : Str) (feed : Feed) : Feed := cutFrom tag false feed.lead feed.rest

/-- The texts in the blocks of a tag. -/
def insideFrom (tag : Str) : Bool → List (FeedItem × CharData) → List Str
  | _, [] => []
  | false, (item, text) :: rest =>
    if item.opens tag then item.sections ++ text.text :: insideFrom tag true rest
    else insideFrom tag false rest
  | true, (item, text) :: rest =>
    item.sections ++
      if item.closes tag then insideFrom tag false rest else text.text :: insideFrom tag true rest

/-- The texts that do not show: in the blocks of one tag after the other, and in the sections. -/
def hidden : List Str → Feed → List Str
  | [], feed => feed.sections
  | tag :: tags, feed => insideFrom tag false feed.rest ++ hidden tags (feed.cut tag)

end Feed

theorem lower_tag (body rest : Str) :
    Str.toAsciiLowercase ('<' :: (body ++ '>' :: rest)) =
      '<' :: (Str.toAsciiLowercase body ++ '>' :: Str.toAsciiLowercase rest) := by
  rw [Str.toAsciiLowercase, List.map_cons, List.map_append, List.map_cons]
  rfl

namespace FeedItem

variable {tag : Str}

theorem opens_iff (named : Nameable tag) (item : FeedItem) (rest : Str) :
    openingOf tag <+: Str.toAsciiLowercase ('<' :: (item.body ++ '>' :: rest)) ↔
      item.opens tag = true := by
  rw [lower_tag, openingOf, List.cons_prefix_cons, Search.prefix_before (named.not_mem rfl), opens,
    List.isPrefixOf_iff_prefix]
  simp only [true_and]

theorem closes_iff (named : Nameable tag) (item : FeedItem) (rest : Str) :
    closingOf tag <+: Str.toAsciiLowercase ('<' :: (item.body ++ '>' :: rest)) ↔
      item.closes tag = true := by
  have none : '>' ∉ '/' :: tag := by simpa using named.not_mem rfl
  have other : '>' ∉ Str.toAsciiLowercase item.body := mt (mem_lower rfl).mp item.body_plain.2
  rw [lower_tag, closingOf, List.cons_append, List.cons_prefix_cons, closes, beq_iff_eq,
    Search.stop_prefix_iff none other]
  simp only [true_and]

theorem opens_not_closes (named : Nameable tag) {item : FeedItem} (opens : item.opens tag = true) :
    item.closes tag = false := by
  rw [FeedItem.opens, List.isPrefixOf_iff_prefix] at opens
  rw [closes, beq_eq_false_iff_ne]
  intro same
  rw [same] at opens
  obtain ⟨c, rest, rfl⟩ := List.exists_cons_of_ne_nil named.1
  rw [List.cons_prefix_cons] at opens
  exact named.not_mem (show '/'.isAlpha = false from rfl) (by simp [opens.1])

/-- An item that begins no block, with the text before it. -/
theorem begins_none (named : Nameable tag) {item : FeedItem} (plain : item.opens tag = false)
    (lead : CharData) :
    ¬openingOf tag <:+: Str.toAsciiLowercase (lead.text ++ '<' :: item.body ++ ['>']) := by
  have here := (item.opens_iff named []).not.mpr (by simp [plain])
  have later : ¬openingOf tag <:+: Str.toAsciiLowercase (item.body ++ ['>']) :=
    opening_absent (by simp [item.body_plain.1])
  have before : '<' ∉ Str.toAsciiLowercase lead.text := mt (mem_lower rfl).mp lead.plain.1
  rw [List.append_assoc, lower_append, openingOf, Search.infix_append_of_head before, ← openingOf,
    List.cons_append, Str.toAsciiLowercase, List.map_cons, List.infix_cons_iff, not_or]
  exact ⟨here, later⟩

/-- An item that ends no block, behind the beginning of one. -/
theorem ends_none (named : Nameable tag) {item : FeedItem} (plain : item.closes tag = false)
    {block : Str} (unclosed : ¬closingOf tag <:+: Str.toAsciiLowercase block) (text : CharData) :
    ¬closingOf tag <:+: Str.toAsciiLowercase (block ++ '<' :: (item.body ++ '>' :: text.text)) := by
  have here := (item.closes_iff named text.text).not.mpr (by simp [plain])
  have later : ¬closingOf tag <:+: Str.toAsciiLowercase (item.body ++ '>' :: text.text) :=
    closing_absent (by simp [item.body_plain.1, text.plain.1])
  have apart : Search.Apart (closingOf tag) (Str.toAsciiLowercase block)
      (Str.toAsciiLowercase ('<' :: (item.body ++ '>' :: text.text))) :=
    Search.apart_of_head (closing_headed named) _ (.inl rfl)
  rw [lower_append, Search.infix_append apart unclosed, Str.toAsciiLowercase, List.map_cons,
    List.infix_cons_iff, not_or]
  exact ⟨here, later⟩

/-- An item that begins no block stays. -/
theorem removeBlocks_pass (named : Nameable tag) {item : FeedItem} (plain : item.opens tag = false)
    (lead : CharData) (back : Str) :
    removeBlocks tag (lead.text ++ '<' :: (item.body ++ '>' :: back)) =
      lead.text ++ '<' :: (item.body ++ '>' :: removeBlocks tag back) := by
  have apart : Search.Apart (openingOf tag)
      (Str.toAsciiLowercase (lead.text ++ '<' :: item.body ++ ['>'])) (Str.toAsciiLowercase back) := by
    rw [lower_append]
    exact Search.apart_of_stop (named.not_mem_opening rfl (by decide)) _
  have front := removeBlocks_front named (begins_none named plain lead) apart
  simpa using front

theorem opening_found (named : Nameable tag) {block : Str}
    (begins : openingOf tag <+: Str.toAsciiLowercase block) (lead : CharData) (rest : Str) :
    Search.find (openingOf tag) (Str.toAsciiLowercase (lead.text ++ (block ++ rest))) =
      some lead.text.length := by
  obtain ⟨back, same⟩ := begins
  have found := Search.find_here (opening_headed named) (opening_absent lead.plain.1)
    (back ++ Str.toAsciiLowercase rest)
  rw [lower_append, lower_append, ← same, List.append_assoc, found, lower_length]

/-- An item that ends the block goes with it. -/
theorem removeBlocks_end (named : Nameable tag) {item : FeedItem} (closes : item.closes tag = true)
    (lead : CharData) {block : Str} (begins : openingOf tag <+: Str.toAsciiLowercase block)
    (unclosed : ¬closingOf tag <:+: Str.toAsciiLowercase block) (back : Str) :
    removeBlocks tag (lead.text ++ (block ++ '<' :: (item.body ++ '>' :: back))) =
      removeBlocks tag (lead.text ++ ' ' :: back) := by
  have name : Str.toAsciiLowercase item.body = '/' :: tag := beq_iff_eq.mp closes
  have length : item.body.length = tag.length + 1 := by
    rw [← lower_length, name, List.length_cons]
  have lowered : Str.toAsciiLowercase (block ++ '<' :: (item.body ++ '>' :: back)) =
      Str.toAsciiLowercase block ++ (closingOf tag ++ Str.toAsciiLowercase back) := by
    rw [lower_append, lower_tag, name, closingOf]
    simp
  have ends := Search.find_here (closing_headed named) unclosed (Str.toAsciiLowercase back)
  have whole : block.length + (closingOf tag).length = (block ++ '<' :: item.body ++ ['>']).length := by
    simp only [closingOf, List.length_append, List.length_cons, List.length_nil, length]
    omega
  have shape : block ++ '<' :: (item.body ++ '>' :: back) = block ++ '<' :: item.body ++ ['>'] ++ back := by
    simp
  rw [← lowered, lower_length] at ends
  rw [removeBlocks_closed (opening_found named begins lead _) ends, whole, shape, List.drop_left]

end FeedItem

/-- The blocks of a tag, removed from the text of a feed. The second part reads on in a block. -/
theorem Feed.removeBlocks_rest {tag : Str} (named : Nameable tag)
    (rest : List (FeedItem × CharData)) :
    (∀ lead : CharData, removeBlocks tag (lead.text ++ renderRest rest) =
      (cutFrom tag false lead rest).render) ∧
    ∀ (lead : CharData) (block : Str), openingOf tag <+: Str.toAsciiLowercase block →
      ¬closingOf tag <:+: Str.toAsciiLowercase block →
      removeBlocks tag (lead.text ++ (block ++ renderRest rest)) = (cutFrom tag true lead rest).render := by
  induction rest with
  | nil =>
    refine ⟨fun lead => ?_, fun lead block begins unclosed => ?_⟩
    · rw [renderRest, List.flatMap_nil, List.append_nil, removeBlocks_absent (opening_absent lead.plain.1)]
      simp [cutFrom, render, renderRest]
    · have opens := FeedItem.opening_found named begins lead []
      have plain : '<' ∉ lead.text ++ [' '] := by simp [lead.plain.1]
      rw [List.append_nil] at opens
      rw [renderRest, List.flatMap_nil, List.append_nil, removeBlocks_unclosed opens unclosed,
        removeBlocks_absent (opening_absent plain)]
      simp [cutFrom, render, renderRest, CharData.join, CharData.empty]
  | cons part rest ih =>
    obtain ⟨item, text⟩ := part
    have shape : renderRest ((item, text) :: rest) =
        '<' :: (item.body ++ '>' :: (text.text ++ renderRest rest)) := by
      simp [renderRest, FeedItem.render]
    rw [shape]
    refine ⟨fun lead => ?_, fun lead block begins unclosed => ?_⟩
    · cases opens : item.opens tag with
      | true =>
        have begins := (item.opens_iff named text.text).mpr opens
        have unclosed := FeedItem.ends_none named (FeedItem.opens_not_closes named opens)
          (closing_absent List.not_mem_nil) text
        rw [cutFrom, if_pos opens, ← ih.2 lead _ begins unclosed]
        simp
      | false =>
        rw [FeedItem.removeBlocks_pass named opens, ih.1 text, cutFrom, if_neg (by simp [opens])]
        simp [render, renderRest, FeedItem.render]
    · cases closes : item.closes tag with
      | true =>
        rw [FeedItem.removeBlocks_end named closes lead begins unclosed, cutFrom, if_pos closes, ← ih.1]
        simp [CharData.join]
      | false =>
        have further := FeedItem.ends_none named closes unclosed text
        have longer := begins.trans
          (List.prefix_append _ (Str.toAsciiLowercase ('<' :: (item.body ++ '>' :: text.text))))
        rw [← lower_append] at longer
        rw [cutFrom, if_neg (by simp [closes]), ← ih.2 lead _ longer further]
        simp

theorem wordsOf_join (front back : CharData) :
    wordsOf (front.join back).text = wordsOf front.text ++ wordsOf back.text :=
  words_append (by decide) front.text back.text

namespace Feed

theorem wordsOfRest_cons (item : FeedItem) (text : CharData) (rest : List (FeedItem × CharData)) :
    wordsOfRest ((item, text) :: rest) = item.words ++ (wordsOf text.text ++ wordsOfRest rest) := by
  simp [wordsOfRest]

/-- What is left keeps the order, and with what was taken out it is all there was. -/
theorem cutFrom_words (tag : Str) (inside : Bool) (lead : CharData)
    (rest : List (FeedItem × CharData)) :
    (cutFrom tag inside lead rest).words.Sublist (wordsOf lead.text ++ wordsOfRest rest) ∧
      (wordsOf lead.text ++ wordsOfRest rest).length = (cutFrom tag inside lead rest).words.length +
        ((insideFrom tag inside rest).flatMap wordsOf).length := by
  induction rest generalizing inside lead with
  | nil =>
    cases inside with
    | false => simp [cutFrom, insideFrom, words]
    | true =>
      have blank : wordsOf CharData.empty.text = [] := rfl
      simp [cutFrom, insideFrom, words, wordsOf_join, blank]
  | cons part rest ih =>
    obtain ⟨item, text⟩ := part
    have own : item.words = item.sections.flatMap wordsOf := rfl
    rw [wordsOfRest_cons]
    -- an item in a block, be it the one that begins it
    have dropped : (cutFrom tag true lead rest).words.Sublist
          (wordsOf lead.text ++ (item.words ++ (wordsOf text.text ++ wordsOfRest rest))) ∧
        (wordsOf lead.text ++ (item.words ++ (wordsOf text.text ++ wordsOfRest rest))).length =
          (cutFrom tag true lead rest).words.length +
            ((item.sections ++ text.text :: insideFrom tag true rest).flatMap wordsOf).length := by
      obtain ⟨sub, length⟩ := ih true lead
      constructor
      · have skipped := List.sublist_append_right (item.words ++ wordsOf text.text) (wordsOfRest rest)
        rw [List.append_assoc] at skipped
        exact sub.trans (skipped.append_left _)
      · simp only [List.flatMap_append, List.flatMap_cons, List.length_append, own] at length ⊢
        omega
    cases inside with
    | false =>
      cases opens : item.opens tag with
      | true =>
        rw [cutFrom, if_pos opens, insideFrom, if_pos opens]
        exact dropped
      | false =>
        obtain ⟨sub, length⟩ := ih false text
        have shape : (cutFrom tag false lead ((item, text) :: rest)).words =
            wordsOf lead.text ++ (item.words ++ (cutFrom tag false text rest).words) := by
          rw [cutFrom, if_neg (by simp [opens]), words, wordsOfRest_cons, ← words]
        rw [insideFrom, if_neg (by simp [opens]), shape]
        constructor
        · exact (sub.append_left _).append_left _
        · simp only [List.length_append] at length ⊢
          omega
    | true =>
      cases closes : item.closes tag with
      | true =>
        obtain ⟨sub, length⟩ := ih false (lead.join text)
        rw [wordsOf_join, List.append_assoc] at sub length
        rw [cutFrom, if_pos closes, insideFrom, if_pos closes]
        constructor
        · exact sub.trans ((List.sublist_append_right _ _).append_left _)
        · simp only [List.flatMap_append, List.length_append, own] at length ⊢
          omega
      | false =>
        rw [cutFrom, if_neg (by simp [closes]), insideFrom, if_neg (by simp [closes])]
        exact dropped

/-- What is left without the blocks of all the tags. -/
def shown (tags : List Str) (feed : Feed) : Feed := tags.foldl (fun feed tag => feed.cut tag) feed

theorem dataWords_words (feed : Feed) : feed.dataWords.Sublist feed.words ∧
    feed.words.length = feed.dataWords.length + (feed.sections.flatMap wordsOf).length := by
  rw [dataWords, words, sections]
  generalize wordsOf feed.lead.text = front
  induction feed.rest generalizing front with
  | nil => simp [wordsOfRest]
  | cons part rest ih =>
    obtain ⟨item, text⟩ := part
    obtain ⟨sub, length⟩ := ih (wordsOf text.text)
    have own : item.words = item.sections.flatMap wordsOf := rfl
    rw [wordsOfRest_cons, List.flatMap_cons, List.flatMap_cons]
    constructor
    · exact (sub.trans (List.sublist_append_right item.words _)).append_left front
    · simp only [List.flatMap_append, List.length_append, own] at length ⊢
      omega

theorem shown_words (tags : List Str) (feed : Feed) :
    (feed.shown tags).dataWords.Sublist feed.words ∧ feed.words.length =
      (feed.shown tags).dataWords.length + ((feed.hidden tags).flatMap wordsOf).length := by
  induction tags generalizing feed with
  | nil => exact feed.dataWords_words
  | cons tag tags ih =>
    obtain ⟨sub, length⟩ := ih (feed.cut tag)
    obtain ⟨less, more⟩ := cutFrom_words tag false feed.lead feed.rest
    refine ⟨sub.trans less, ?_⟩
    rw [← words, ← cut] at more
    rw [hidden, List.flatMap_append, List.length_append, shown, List.foldl_cons, ← shown]
    omega

end Feed

/-- A media type that the fetcher accepts as XML. -/
def XmlType (contentType : Str) : Prop :=
  isAllowedContentType contentType = true ∧
    (baseContentType contentType = "application/xml".toList ∨
      baseContentType contentType = "text/xml".toList ∨
      Str.endsWith "+xml".toList (baseContentType contentType) = true)


theorem Feed.seen_render (feed : Feed) : seen false feed.render = feed.dataWords := by
  have tags : feed.render = feed.lead.text ++
      renderTags (feed.rest.map fun part => (part.1.body, part.2.text)) := by
    simp [render, renderRest, renderTags, FeedItem.render, List.flatMap_map]
  rw [tags, seen_tags, seen_text, dataWords, List.flatMap_map]
  simp only [seen_hidden (FeedItem.body_plain _), seen_text, List.nil_append]

theorem xml_not_json {base : Str} (xml : base = "application/xml".toList ∨ base = "text/xml".toList ∨
    Str.endsWith "+xml".toList base = true) :
    ¬(base = "application/json".toList ∨ base = "application/feed+json".toList ∨
      Str.endsWith "+json".toList base = true) := by
  have last : base.getLast? = some 'l' := by
    rcases xml with rfl | rfl | xml
    · rfl
    · rfl
    · obtain ⟨front, rfl⟩ := Str.endsWith_iff.mp xml
      simp
  rintro (rfl | rfl | json)
  · cases last
  · cases last
  · obtain ⟨front, rfl⟩ := Str.endsWith_iff.mp json
    simp at last

/-- The tags that are left out of a document of this type. -/
def ignoredIn (contentType : Str) : List Str :=
  if baseContentType contentType = "application/xhtml+xml".toList then ignoredTags else []

theorem removeIgnoredHtmlBlocks_feed (feed : Feed) :
    removeIgnoredHtmlBlocks feed.render = (feed.shown ignoredTags).render := by
  have named := ignored_nameable
  unfold removeIgnoredHtmlBlocks Feed.shown
  generalize ignoredTags = tags at named ⊢
  induction tags generalizing feed with
  | nil => rfl
  | cons tag rest ih =>
    rw [List.forall_mem_cons] at named
    rw [List.foldl_cons, List.foldl_cons, ← ih _ named.2, Feed.render,
      (Feed.removeBlocks_rest named.1 feed.rest).1 feed.lead, Feed.cut]

theorem extractText_xml (serde : SerdeJson) {contentType : Str} (xml : XmlType contentType) (feed : Feed) :
    extractText serde contentType (Percent.utf8Bytes feed.render) =
      .ok (spaced ' ' (feed.shown (ignoredIn contentType)).dataWords) := by
  rw [← Feed.seen_render, ignoredIn]
  by_cases xhtml : baseContentType contentType = "application/xhtml+xml".toList
  · rw [extractText_html serde (.inr xhtml), removeIgnoredHtmlBlocks_feed, collapseWhitespace_eq,
      if_pos xhtml]
    rfl
  · have other {base : Str} (same : baseContentType contentType = base)
        (text : ¬(base = "application/xml".toList ∨ base = "text/xml".toList ∨
          Str.endsWith "+xml".toList base = true)) : False := text (same ▸ xml.2)
    have html : ¬(baseContentType contentType = "text/html".toList ∨
        baseContentType contentType = "application/xhtml+xml".toList) := by
      rintro (same | same)
      · exact other same (by decide)
      · exact xhtml same
    have text : ¬baseContentType contentType = "text/plain".toList :=
      fun same => other same (by decide)
    rw [extractText, decodedText, Utf8.fromUtf8Lossy_utf8Bytes, if_neg (xml_not_json xml.2),
      if_neg html, if_neg text, if_neg xhtml]
    dsimp only
    rw [collapseWhitespace_eq]
    rfl

theorem Feed.words_parts (feed : Feed) : ∀ word ∈ feed.words, word ≠ [] ∧ Solid Str.isWhitespace word := by
  intro word member
  rw [words, wordsOfRest, List.mem_append, List.mem_flatMap] at member
  rcases member with member | ⟨⟨item, text⟩, _, member⟩
  · exact mem_words member
  · rw [List.mem_append] at member
    rcases member with member | member
    · obtain ⟨content, _, member⟩ := List.mem_flatMap.mp member
      exact mem_words member
    · exact mem_words member

/-- Every word of a feed comes out in order exactly when no text that does not show has a word. -/
theorem feed_words_kept (serde : SerdeJson) {contentType : Str} (xml : XmlType contentType)
    (feed : Feed) :
    ∃ text, extractText serde contentType (Percent.utf8Bytes feed.render) = .ok text ∧
      (InOrder feed.words text ↔ ∀ content ∈ feed.hidden (ignoredIn contentType), wordsOf content = []) := by
  refine ⟨_, extractText_xml serde xml feed, ?_⟩
  obtain ⟨inside, length⟩ := feed.shown_words (ignoredIn contentType)
  rw [inOrder_spaced_iff (by decide) inside feed.words_parts, ← List.flatMap_eq_nil_iff]
  constructor
  · intro all
    rw [all] at length
    apply List.eq_nil_of_length_eq_zero
    omega
  · intro none
    rw [none, List.length_nil] at length
    exact inside.eq_of_length length.symm

def rateTitle (rate : CharData) : Feed where
  lead := .empty
  rest := [(.tag ⟨"title".toList, by decide⟩, ⟨"Rate ".toList, by decide, by decide⟩),
    (.cdata rate, .empty), (.tag ⟨"/title".toList, by decide⟩, .empty)]

def raised : CharData := ⟨"raised".toList, by decide, by decide⟩

def lowered : CharData := ⟨"cut".toList, by decide, by decide⟩

theorem rss_xml : XmlType "application/rss+xml".toList := ⟨by decide +kernel, .inr (.inr (by decide))⟩

/-- A feed whose title changes in its CDATA section gives the same text. -/
theorem feed_words_lost :
    extractText ⟨fun _ => .error []⟩ "application/rss+xml".toList
        (Percent.utf8Bytes (rateTitle raised).render) = .ok "Rate".toList ∧
      extractText ⟨fun _ => .error []⟩ "application/rss+xml".toList
        (Percent.utf8Bytes (rateTitle lowered).render) = .ok "Rate".toList ∧
      (rateTitle raised).words = ["Rate".toList, "raised".toList] ∧
      ¬InOrder (rateTitle raised).words "Rate".toList := by
  refine ⟨?_, ?_, by decide +kernel, ?_⟩
  · rw [extractText_xml _ rss_xml]
    decide +kernel
  · rw [extractText_xml _ rss_xml]
    decide +kernel
  · intro occur
    have short := occur.length_le fun word member => ((rateTitle raised).words_parts word member).2
    revert short
    decide +kernel

theorem feed_words_kept_rss : ∃ text, extractText ⟨fun _ => .error []⟩ "application/rss+xml".toList
      (Percent.utf8Bytes (rateTitle raised).render) = .ok text ∧
    (InOrder (rateTitle raised).words text ↔
      ∀ content ∈ (rateTitle raised).hidden (ignoredIn "application/rss+xml".toList),
        wordsOf content = []) :=
  feed_words_kept _ rss_xml (rateTitle raised)

end EalSync.Ingestion
