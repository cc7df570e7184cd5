import EalSync.Ingestion.Page

/-! The words of a page, from its body to the text. The removal of the ignored blocks knows neither
quotes nor comments; a block that begins and ends in one value or comment is cut out of it. -/
namespace EalSync.Ingestion

open Words

theorem unquoted_iff {s : Str} : quote ∉ s ↔ ¬[quote] <:+: s := by
  rw [List.singleton_infix_iff]

def Attribute.cut (tag : Str) (a : Attribute) : Attribute where
  name := a.name
  value := removeBlocks tag a.value
  unquoted := unquoted_iff.mpr (removeBlocks_keeps (by decide) (unquoted_iff.mp a.unquoted))

def Comment.cut (tag : Str) (comment : Comment) : Comment where
  text := removeBlocks tag comment.text
  unfinished := removeBlocks_keeps (by decide) comment.unfinished

mutual

/-- The blocks of a tag are taken out of the attribute values and the comments. -/
def Node.cut (tag : Str) : Node → Node
  | .element name attributes lead children =>
    .element name (attributes.map (Attribute.cut tag)) lead (cutNodes tag children)
  | .void name attributes => .void name (attributes.map (Attribute.cut tag))
  | .comment comment => .comment (comment.cut tag)

def cutNodes (tag : Str) : List (Node × CharData) → List (Node × CharData)
  | [] => []
  | (node, text) :: rest => (node.cut tag, text) :: cutNodes tag rest

end

mutual

def Node.names : Node → List TagName
  | .element name _ _ children => name :: namesOfNodes children
  | .void name _ => [name]
  | .comment _ => []

def namesOfNodes : List (Node × CharData) → List TagName
  | [] => []
  | (node, _) :: rest => node.names ++ namesOfNodes rest

end

mutual

theorem Node.cut_words (tag : Str) (node : Node) : (node.cut tag).words = node.words := by
  cases node with
  | element name attributes lead children => rw [Node.cut, Node.words, Node.words, cutNodes_words]
  | void name attributes => rfl
  | comment comment => rfl

theorem cutNodes_words (tag : Str) (nodes : List (Node × CharData)) :
    wordsOfNodes (cutNodes tag nodes) = wordsOfNodes nodes := by
  match nodes with
  | [] => rfl
  | (node, text) :: rest => rw [cutNodes, wordsOfNodes, wordsOfNodes, node.cut_words, cutNodes_words]

end

mutual

theorem Node.cut_unseen (tag : Str) (node : Node) :
    (node.cut tag).unseen = node.unseen.map (removeBlocks tag) := by
  cases node with
  | element name attributes lead children =>
    have values : Attribute.value ∘ Attribute.cut tag = removeBlocks tag ∘ Attribute.value := rfl
    rw [Node.cut, Node.unseen, Node.unseen, cutNodes_unseen, List.map_append, List.map_map,
      List.map_map, values]
  | void name attributes =>
    have values : Attribute.value ∘ Attribute.cut tag = removeBlocks tag ∘ Attribute.value := rfl
    rw [Node.cut, Node.unseen, Node.unseen, List.map_map, List.map_map, values]
  | comment comment => rfl

theorem cutNodes_unseen (tag : Str) (nodes : List (Node × CharData)) :
    unseenOfNodes (cutNodes tag nodes) = (unseenOfNodes nodes).map (removeBlocks tag) := by
  match nodes with
  | [] => rfl
  | (node, text) :: rest =>
    rw [cutNodes, unseenOfNodes, unseenOfNodes, node.cut_unseen, cutNodes_unseen, List.map_append]

end

mutual

theorem Node.cut_names (tag : Str) (node : Node) : (node.cut tag).names = node.names := by
  cases node with
  | element name attributes lead children => rw [Node.cut, Node.names, Node.names, cutNodes_names]
  | void name attributes => rfl
  | comment comment => rfl

theorem cutNodes_names (tag : Str) (nodes : List (Node × CharData)) :
    namesOfNodes (cutNodes tag nodes) = namesOfNodes nodes := by
  match nodes with
  | [] => rfl
  | (node, text) :: rest => rw [cutNodes, namesOfNodes, namesOfNodes, node.cut_names, cutNodes_names]

end

section

variable {tag : Str} (named : Nameable tag)

include named

/-- What follows an angle begins no block if it differs from the tag before it is over. -/
theorem removeBlocks_angle {body : Str} (angle : '<' ∉ body)
    (differs : ¬tag <+: Str.toAsciiLowercase body) {back : Str}
    (next : ∃ sep rest, back = sep :: rest ∧ sep.isAlpha = false ∧ sep ≠ '<') :
    removeBlocks tag ('<' :: (body ++ back)) = '<' :: (body ++ removeBlocks tag back) := by
  obtain ⟨sep, rest, rfl, other, apart⟩ := next
  have absent : ¬openingOf tag <:+: Str.toAsciiLowercase ('<' :: body) := by
    rw [Str.toAsciiLowercase, List.map_cons, List.infix_cons_iff, not_or]
    refine ⟨?_, opening_absent angle⟩
    rintro begins
    exact differs (List.cons_prefix_cons.mp begins).2
  have parted := (Contained.absent absent).removeBlocks_append named other apart rest
  rw [removeBlocks_absent absent] at parted
  rw [removeBlocks_cons named apart]
  exact parted

theorem removeBlocks_attributes (attributes : List Attribute)
    (values : ∀ a ∈ attributes, Contained tag a.value) (back : Str) :
    removeBlocks tag (attributes.flatMap Attribute.render ++ back) =
      (attributes.map (Attribute.cut tag)).flatMap Attribute.render ++ removeBlocks tag back := by
  induction attributes with
  | nil => rfl
  | cons a rest ih =>
    rw [List.forall_mem_cons] at values
    have plain : '<' ∉ ' ' :: (a.name.text ++ ['=', quote]) := by
      simp [a.name.plain.1, quote]
    have shape : (a :: rest).flatMap Attribute.render ++ back =
        (' ' :: (a.name.text ++ ['=', quote])) ++
          (a.value ++ quote :: (rest.flatMap Attribute.render ++ back)) := by
      simp [Attribute.render]
    rw [shape, removeBlocks_plain named plain,
      values.1.removeBlocks_append named (by decide) (by decide), ih values.2]
    simp [Attribute.render, Attribute.cut]

theorem removeBlocks_start {name : TagName} (differs : ¬tag <+: Str.toAsciiLowercase name.text)
    (attributes : List Attribute) (values : ∀ a ∈ attributes, Contained tag a.value) (back : Str) :
    removeBlocks tag ('<' :: (startBody name attributes ++ '>' :: back)) =
      '<' :: (startBody name (attributes.map (Attribute.cut tag)) ++ '>' :: removeBlocks tag back) := by
  have next : ∃ sep rest, attributes.flatMap Attribute.render ++ '>' :: back = sep :: rest ∧
      sep.isAlpha = false ∧ sep ≠ '<' := by
    cases attributes with
    | nil => exact ⟨'>', back, rfl, rfl, by decide⟩
    | cons a rest => exact ⟨' ', _, rfl, rfl, by decide⟩
  rw [startBody, List.append_assoc, removeBlocks_angle named name.plain.1 differs next,
    removeBlocks_attributes named attributes values,
    removeBlocks_cons named (by decide), startBody, List.append_assoc]

/-- Nor does the angle of an end tag or a comment. -/
theorem removeBlocks_mark {mark : Char} (other : mark.isAlpha = false) (apart : mark ≠ '<') (back : Str) :
    removeBlocks tag ('<' :: mark :: back) = '<' :: mark :: removeBlocks tag back := by
  have none : ¬tag <+: Str.toAsciiLowercase [] := fun begins => named.1 (List.prefix_nil.mp begins)
  have angle := removeBlocks_angle named List.not_mem_nil none ⟨mark, back, rfl, other, apart⟩
  rwa [removeBlocks_cons named apart] at angle

theorem removeBlocks_endTag (name : TagName) (back : Str) :
    removeBlocks tag ('<' :: (endBody name ++ '>' :: back)) =
      '<' :: (endBody name ++ '>' :: removeBlocks tag back) := by
  have plain : '<' ∉ name.text ++ ['>'] := by simp [name.plain.1]
  have rest := removeBlocks_plain named plain back
  rw [List.append_assoc, List.append_assoc] at rest
  rw [endBody, List.cons_append, removeBlocks_mark named rfl (by decide)]
  exact congrArg (fun s => '<' :: '/' :: s) rest

theorem removeBlocks_comment {comment : Comment} (contained : Contained tag comment.text) (back : Str) :
    removeBlocks tag ('<' :: (commentBody comment ++ '>' :: back)) =
      '<' :: (commentBody (comment.cut tag) ++ '>' :: removeBlocks tag back) := by
  have start := removeBlocks_plain named (show '<' ∉ ['-', '-'] by decide)
    (comment.text ++ '-' :: '-' :: '>' :: back)
  have stop := removeBlocks_plain named (show '<' ∉ ['-', '>'] by decide) back
  have inner := contained.removeBlocks_append named (show '-'.isAlpha = false from rfl) (by decide)
    ('-' :: '>' :: back)
  have shape (text : Str) (rest : Str) :
      '!' :: '-' :: '-' :: (text ++ ['-', '-']) ++ '>' :: rest =
        '!' :: (['-', '-'] ++ (text ++ '-' :: '-' :: '>' :: rest)) := by simp
  rw [commentBody, shape, removeBlocks_mark named rfl (by decide), start, inner]
  rw [commentBody, shape]
  rw [List.cons_append] at stop
  exact congrArg (fun s => '<' :: '!' :: (['-', '-'] ++ (removeBlocks tag comment.text ++ '-' :: s))) stop

end

section

variable {tag : Str} (named : Nameable tag)

include named

mutual

/-- If its values and comments contain their blocks, a node is cut by itself. -/
theorem Node.removeBlocks_render (node : Node)
    (differ : ∀ name ∈ node.names, ¬tag <+: Str.toAsciiLowercase name.text)
    (values : ∀ value ∈ node.unseen, Contained tag value) (back : Str) :
    removeBlocks tag (node.render ++ back) = (node.cut tag).render ++ removeBlocks tag back := by
  cases node with
  | element name attributes lead children =>
    rw [Node.names, List.forall_mem_cons] at differ
    rw [Node.unseen, List.forall_mem_append, List.forall_mem_map] at values
    have inner := removeBlocks_renderNodes children differ.2 values.2 ('<' :: (endBody name ++ '>' :: back))
    have shape (attributes : List Attribute) (children : List (Node × CharData)) (back : Str) :
        (Node.element name attributes lead children).render ++ back =
          '<' :: (startBody name attributes ++ '>' :: (lead.text ++ (renderNodes children ++
            '<' :: (endBody name ++ '>' :: back)))) := by
      simp [Node.render]
    rw [Node.cut, shape, shape, removeBlocks_start named differ.1 attributes values.1,
      removeBlocks_plain named lead.plain.1, inner, removeBlocks_endTag named]
  | void name attributes =>
    rw [Node.names, List.forall_mem_cons] at differ
    rw [Node.unseen, List.forall_mem_map] at values
    have start := removeBlocks_start named differ.1 attributes values back
    simpa [Node.render, Node.cut] using start
  | comment comment =>
    rw [Node.unseen, List.forall_mem_singleton] at values
    have body := removeBlocks_comment named values back
    simpa [Node.render, Node.cut] using body

theorem removeBlocks_renderNodes (nodes : List (Node × CharData))
    (differ : ∀ name ∈ namesOfNodes nodes, ¬tag <+: Str.toAsciiLowercase name.text)
    (values : ∀ value ∈ unseenOfNodes nodes, Contained tag value) (back : Str) :
    removeBlocks tag (renderNodes nodes ++ back) =
      renderNodes (cutNodes tag nodes) ++ removeBlocks tag back := by
  match nodes with
  | [] => rfl
  | (node, text) :: rest =>
    rw [namesOfNodes, List.forall_mem_append] at differ
    rw [unseenOfNodes, List.forall_mem_append] at values
    have first := node.removeBlocks_render differ.1 values.1 (text.text ++ (renderNodes rest ++ back))
    have later := removeBlocks_renderNodes rest differ.2 values.2 back
    rw [renderNodes, List.append_assoc, List.append_assoc, first, removeBlocks_plain named text.plain.1, later,
      cutNodes, renderNodes, List.append_assoc, List.append_assoc]

end

end

namespace Page

def names (page : Page) : List TagName := namesOfNodes page.nodes

def cut (page : Page) (tag : Str) : Page := ⟨page.lead, cutNodes tag page.nodes⟩

theorem removeBlocks_render {tag : Str} (named : Nameable tag) (page : Page)
    (differ : ∀ name ∈ page.names, ¬tag <+: Str.toAsciiLowercase name.text)
    (values : ∀ value ∈ page.unseen, Contained tag value) :
    removeBlocks tag page.render = (page.cut tag).render := by
  have nodes := removeBlocks_renderNodes named page.nodes differ values []
  have none : removeBlocks tag [] = [] := removeBlocks_absent (opening_absent List.not_mem_nil)
  rw [none, List.append_nil, List.append_nil] at nodes
  rw [render, removeBlocks_plain named page.lead.plain.1, nodes, render, cut]

/-- The passes over a page in which all blocks are contained in values and comments. -/
theorem removeAll_render (tags : List Str) (named : ∀ tag ∈ tags, Nameable tag) (page : Page)
    (differ : ∀ name ∈ page.names, ∀ tag ∈ tags, ¬tag <+: Str.toAsciiLowercase name.text)
    (within : ∀ value ∈ page.unseen, Within tags value) :
    ∃ shown : Page, tags.foldl (fun output tag => removeBlocks tag output) page.render = shown.render ∧
      shown.words = page.words ∧ shown.unseen = page.unseen.map fun value =>
        tags.foldl (fun output tag => removeBlocks tag output) value := by
  induction tags generalizing page with
  | nil => exact ⟨page, rfl, rfl, by simp⟩
  | cons tag tags ih =>
    rw [List.forall_mem_cons] at named
    have words : (page.cut tag).words = page.words := by
      rw [Page.words, Page.words, cut, cutNodes_words]
    have unseen : (page.cut tag).unseen = page.unseen.map (removeBlocks tag) := cutNodes_unseen tag page.nodes
    have names : (page.cut tag).names = page.names := cutNodes_names tag page.nodes
    have first := removeBlocks_render named.1 page (fun name member => differ name member tag List.mem_cons_self)
      fun value member => (within value member).1
    obtain ⟨shown, rendered, sameWords, sameUnseen⟩ := ih named.2 (page.cut tag)
      (by
        rw [names]
        exact fun name member other inside => differ name member other (List.mem_cons_of_mem tag inside))
      (by rw [unseen, List.forall_mem_map]; exact fun value member => (within value member).2)
    refine ⟨shown, ?_, sameWords.trans words, ?_⟩
    · rw [List.foldl_cons, first, rendered]
    · rw [sameUnseen, unseen, List.map_map]
      rfl

end Page

/-- The words of a page come out alone exactly when nothing shows of its attribute values and
comments, if the ignored blocks that begin in one of them end in it. -/
theorem page_words (serde : SerdeJson) {contentType : Str}
    (html : baseContentType contentType = "text/html".toList ∨
      baseContentType contentType = "application/xhtml+xml".toList)
    (page : Page)
    (differ : ∀ name ∈ page.names, ∀ tag ∈ ignoredTags, ¬tag <+: Str.toAsciiLowercase name.text)
    (within : ∀ value ∈ page.unseen, Within ignoredTags value) :
    ∃ text, extractText serde contentType (Percent.utf8Bytes page.render) = .ok text ∧
      (Str.splitWhitespace text = page.words ↔
        ∀ value ∈ page.unseen, Hidden (removeIgnoredHtmlBlocks value)) := by
  obtain ⟨shown, rendered, words, unseen⟩ := page.removeAll_render ignoredTags ignored_nameable differ within
  rw [extractText_html serde html, removeIgnoredHtmlBlocks, rendered, collapseWhitespace_eq]
  refine ⟨_, rfl, ?_⟩
  have same := shown.words_iff
  rw [unseen, List.forall_mem_map, words] at same
  change _ ↔ ∀ value ∈ page.unseen, Hidden (ignoredTags.foldl (fun output tag => removeBlocks tag output) value)
  rw [← same]
  exact Eq.congr (words_spaced_seen false shown.render) rfl

def paragraph (title : Str) (unquoted : quote ∉ title) : Page where
  lead := .empty
  nodes := [(.element ⟨"p".toList, by unfold Angleless; decide⟩
    [⟨⟨"title".toList, by unfold Angleless; decide⟩, title, unquoted⟩]
    ⟨"Rust alerts".toList, by decide, by decide⟩ [], .empty)]

def comparison : Page := paragraph "1>0".toList (by decide)

/-- The rest of an attribute value comes out as text. -/
theorem page_words_leaked :
    ∃ text, extractText ⟨fun _ => .error []⟩ "text/html".toList
        (Percent.utf8Bytes comparison.render) = .ok text ∧
      comparison.words = ["Rust".toList, "alerts".toList] ∧
      Str.splitWhitespace text = [['0', quote], "Rust".toList, "alerts".toList] := by
  refine ⟨'0' :: quote :: " Rust alerts".toList, ?_, ?_, ?_⟩ <;> decide +kernel

theorem comparison_within : ∀ value ∈ comparison.unseen, Within ignoredTags value := by
  intro value member
  rw [List.mem_singleton.mp member]
  exact within_of_absent (by decide)

theorem page_words_comparison :
    ∃ text, extractText ⟨fun _ => .error []⟩ "text/html".toList
        (Percent.utf8Bytes comparison.render) = .ok text ∧
      (Str.splitWhitespace text = comparison.words ↔
        ∀ value ∈ comparison.unseen, Hidden (removeIgnoredHtmlBlocks value)) :=
  page_words _ (.inl (by decide)) comparison (by decide) comparison_within

end EalSync.Ingestion
