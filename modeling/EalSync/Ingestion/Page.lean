import EalSync.Ingestion.Visible
import EalSync.Std.Text

/-! HTML pages as trees. The scan of the markup knows neither quotes nor comments: a closing angle
in an attribute value or in a comment ends the tag for it. -/
namespace EalSync.Ingestion

open Words

def Angleless (s : Str) : Prop := '<' ∉ s ∧ '>' ∉ s

/-- Only text that decodes to white space comes before the next angle, and there is one. -/
def Resumes (s : Str) : Prop :=
  ∃ gap angle rest, s = gap ++ angle :: rest ∧ (angle = '<' ∨ angle = '>') ∧ Angleless gap ∧
    wordsOf (decodeCommonEntities gap) = []

/-- Nothing shows after a closing angle. -/
def Hidden (s : Str) : Prop := ∀ front back, s = front ++ '>' :: back → Resumes back

theorem leaves_append (insideTag : Bool) (front back : Str) :
    leaves insideTag (front ++ back) = leaves (leaves insideTag front) back := by
  induction front generalizing insideTag with
  | nil => rfl
  | cons c rest ih => exact ih _

theorem leaves_angleless {insideTag : Bool} {s : Str} (plain : Angleless s) :
    leaves insideTag s = insideTag := by
  induction s with
  | nil => rfl
  | cons c rest ih =>
    simp only [Angleless, List.mem_cons, not_or] at plain
    rw [leaves, if_neg (Ne.symm plain.1.1), if_neg (Ne.symm plain.2.1)]
    exact ih ⟨plain.1.2, plain.2.2⟩

/-- A text up to its first angle. -/
theorem angle_cases (s : Str) : Angleless s ∨ ∃ gap angle rest, s = gap ++ angle :: rest ∧
    (angle = '<' ∨ angle = '>') ∧ Angleless gap := by
  induction s with
  | nil => exact .inl ⟨List.not_mem_nil, List.not_mem_nil⟩
  | cons c rest ih =>
    by_cases angle : c = '<' ∨ c = '>'
    · exact .inr ⟨[], c, rest, rfl, angle, List.not_mem_nil, List.not_mem_nil⟩
    · rw [not_or] at angle
      have grown (s : Str) (plain : Angleless s) : Angleless (c :: s) := by
        simp only [Angleless, List.mem_cons, not_or]
        exact ⟨⟨Ne.symm angle.1, plain.1⟩, ⟨Ne.symm angle.2, plain.2⟩⟩
      rcases ih with plain | ⟨gap, next, more, rfl, is, plain⟩
      · exact .inl (grown rest plain)
      · exact .inr ⟨c :: gap, next, more, rfl, is, grown gap plain⟩

/-- The same from the other side. -/
theorem last_angle_cases (s : Str) : Angleless s ∨ ∃ front angle gap, s = front ++ angle :: gap ∧
    (angle = '<' ∨ angle = '>') ∧ Angleless gap := by
  induction s with
  | nil => exact .inl ⟨List.not_mem_nil, List.not_mem_nil⟩
  | cons c rest ih =>
    rcases ih with plain | ⟨front, angle, gap, rfl, is, plain⟩
    · by_cases angle : c = '<' ∨ c = '>'
      · exact .inr ⟨[], c, rest, rfl, angle, plain⟩
      · rw [not_or] at angle
        simp only [Angleless, List.mem_cons, not_or]
        exact .inl ⟨⟨Ne.symm angle.1, plain.1⟩, ⟨Ne.symm angle.2, plain.2⟩⟩
    · exact .inr ⟨c :: front, angle, gap, rfl, is, plain⟩

theorem seen_gap {gap : Str} (plain : Angleless gap) (insideTag : Bool) :
    seen insideTag gap = if insideTag then [] else wordsOf (decodeCommonEntities gap) := by
  cases insideTag with
  | true => exact seen_hidden plain
  | false => rw [seen, strip_false plain, if_neg Bool.false_ne_true]

theorem seen_begin_open (insideTag : Bool) (rest : Str) :
    seen insideTag ('<' :: rest) = seen true rest := by
  have parted := seen_open insideTag [] rest
  rwa [seen_nil, List.nil_append, List.nil_append] at parted

theorem seen_begin_close (insideTag : Bool) (rest : Str) :
    seen insideTag ('>' :: rest) = seen false rest := by
  have parted := seen_close insideTag [] rest
  rwa [seen_nil, List.nil_append, List.nil_append] at parted

/-- An angle is read alike from outside and from inside a tag. -/
theorem seen_gap_angle {gap rest : Str} {angle : Char} (is : angle = '<' ∨ angle = '>')
    (plain : Angleless gap) (insideTag : Bool) :
    seen insideTag (gap ++ angle :: rest) = seen insideTag gap ++ seen true (angle :: rest) ∧
      leaves insideTag (gap ++ angle :: rest) = leaves true (angle :: rest) := by
  rw [leaves_append, leaves_angleless plain]
  rcases is with rfl | rfl
  · exact ⟨by rw [seen_open, seen_begin_open], rfl⟩
  · exact ⟨by rw [seen_close, seen_begin_close], rfl⟩

theorem gap_unique {gap gap' rest rest' : Str} {angle angle' : Char}
    (is : angle = '<' ∨ angle = '>') (is' : angle' = '<' ∨ angle' = '>')
    (plain : Angleless gap) (plain' : Angleless gap')
    (same : gap ++ angle :: rest = gap' ++ angle' :: rest') : gap = gap' := by
  induction gap generalizing gap' with
  | nil =>
    cases gap' with
    | nil => rfl
    | cons c more =>
      cases same
      simp only [Angleless, List.mem_cons, not_or] at plain'
      rcases is with rfl | rfl
      · exact absurd rfl plain'.1.1
      · exact absurd rfl plain'.2.1
  | cons c gap ih =>
    simp only [Angleless, List.mem_cons, not_or] at plain
    cases gap' with
    | nil =>
      cases same
      rcases is' with rfl | rfl
      · exact absurd rfl plain.1.1
      · exact absurd rfl plain.2.1
    | cons c' more =>
      simp only [Angleless, List.mem_cons, not_or] at plain'
      rw [List.cons_append, List.cons_append] at same
      obtain ⟨first, later⟩ := List.cons.inj same
      rw [first, ih ⟨plain.1.2, plain.2.2⟩ ⟨plain'.1.2, plain'.2.2⟩ later]

theorem resumes_iff {gap rest : Str} {angle : Char} (is : angle = '<' ∨ angle = '>')
    (plain : Angleless gap) :
    Resumes (gap ++ angle :: rest) ↔ wordsOf (decodeCommonEntities gap) = [] := by
  constructor
  · rintro ⟨gap', angle', rest', same, is', plain', blank⟩
    rw [gap_unique is is' plain plain' same, blank]
  · exact fun blank => ⟨gap, angle, rest, rfl, is, plain, blank⟩

theorem resumes_angleless {s : Str} (plain : Angleless s) : ¬Resumes s := by
  rintro ⟨gap, angle, rest, rfl, rfl | rfl, _⟩
  · exact plain.1 (by simp)
  · exact plain.2 (by simp)

theorem hidden_skip {front : Str} (none : '>' ∉ front) (rest : Str) :
    Hidden (front ++ rest) ↔ Hidden rest := by
  constructor
  · rintro hidden before back rfl
    exact hidden (front ++ before) back (List.append_assoc ..).symm
  · intro hidden before back same
    rcases List.append_eq_append_iff.mp same with ⟨more, rfl, inside⟩ | ⟨more, split, inside⟩
    · exact hidden more back inside
    · cases more with
      | nil => exact hidden [] back inside.symm
      | cons c more =>
        cases inside
        exact absurd (by simp [split]) none

theorem hidden_close (rest : Str) : Hidden ('>' :: rest) ↔ Resumes rest ∧ Hidden rest := by
  constructor
  · intro hidden
    exact ⟨hidden [] rest rfl, fun front back same => hidden ('>' :: front) back (by rw [same]; rfl)⟩
  · rintro ⟨resumes, hidden⟩ front back same
    cases front with
    | nil =>
      cases same
      exact resumes
    | cons c front =>
      cases same
      exact hidden front back rfl

/-- A text is hidden when the scan of it ends in the tag and leaves no word of it. The second part
is the same for a scan from outside a tag; both are by induction over the angles. -/
theorem hidden_iff_seen (s : Str) :
    (Hidden s ↔ leaves true s = true ∧ seen true s = []) ∧
      (Resumes s ∧ Hidden s ↔ leaves false s = true ∧ seen false s = []) := by
  induction size : s.length using Nat.strong_induction_on generalizing s with
  | _ n ih =>
    subst size
    rcases angle_cases s with plain | ⟨gap, angle, rest, rfl, is, plain⟩
    · have hidden : Hidden s := by
        rintro front back rfl
        exact absurd plain.2 (by simp)
      rw [leaves_angleless plain, leaves_angleless plain, seen_gap plain]
      exact ⟨by simp [hidden], by simp [resumes_angleless plain]⟩
    · have shorter : rest.length < (gap ++ angle :: rest).length := by
        simp only [List.length_append, List.length_cons]
        omega
      obtain ⟨inside, outside⟩ := ih rest.length shorter rest rfl
      have step : Hidden (angle :: rest) ↔
          leaves true (angle :: rest) = true ∧ seen true (angle :: rest) = [] := by
        rcases is with rfl | rfl
        · rw [seen_begin_open, ← List.singleton_append, hidden_skip (by simp), inside]
          rfl
        · rw [seen_begin_close, hidden_close, outside]
          rfl
      obtain ⟨seenInside, leavesInside⟩ := @seen_gap_angle _ rest _ is plain true
      obtain ⟨seenOutside, leavesOutside⟩ := @seen_gap_angle _ rest _ is plain false
      rw [hidden_skip plain.2, resumes_iff is plain, step, seenInside, leavesInside, seenOutside,
        leavesOutside, seen_gap plain, seen_gap plain, if_pos rfl, if_neg Bool.false_ne_true,
        List.nil_append, List.append_eq_nil_iff]
      exact ⟨Iff.rfl, and_left_comm⟩

theorem seen_skip {front : Str} (plain : Angleless front) (rest : Str) :
    seen true (front ++ rest) = seen true rest := by
  rw [seen, strip_append, strip_true plain, leaves_angleless plain, List.nil_append]
  rfl

/-- A mark that closes a value or a comment, and that shows outside a tag. -/
structure Mark (mark : Char) : Prop where
  angle : Angleless [mark]
  visible : Str.isWhitespace mark = false
  literal : ∀ entity ∈ commonEntities, mark ∉ entity.1

theorem seen_mark {mark : Char} (is : Mark mark) {gap : Str} (plain : Angleless gap) (rest : Str) :
    seen false (gap ++ mark :: rest) ≠ [] := by
  have shape : strip false (gap ++ mark :: rest) = gap ++ mark :: strip false rest := by
    rw [List.append_cons, strip_append, strip_append, strip_false plain, leaves_angleless plain,
      strip_false is.angle, leaves_append, leaves_angleless plain, leaves_angleless is.angle,
      ← List.append_cons]
  rw [seen, shape, decode_before is.literal]
  intro none
  have blank := words_eq_nil.mp none mark (by simp)
  rw [is.visible] at blank
  cases blank

/-- What a tag shows after a value is over: the value itself, or else its closing mark. -/
theorem seen_value {mark : Char} (is : Mark mark) (value rest : Str) :
    seen true (value ++ mark :: rest) = [] ↔ Hidden value ∧ seen true rest = [] := by
  have skip : seen true (mark :: rest) = seen true rest := seen_skip is.angle rest
  rw [(hidden_iff_seen value).1]
  rcases last_angle_cases value with plain | ⟨front, angle, gap, rfl, rfl | rfl, plain⟩
  · rw [seen_skip plain, skip, leaves_angleless plain, seen_gap plain, if_pos rfl]
    simp
  · rw [List.append_assoc, List.cons_append, seen_open, seen_open, seen_skip plain, skip,
      leaves_append, leaves, if_pos rfl, leaves_angleless plain, seen_gap plain, if_pos rfl,
      List.append_nil, List.append_eq_nil_iff]
    simp
  · rw [List.append_assoc, List.cons_append, seen_close, leaves_append, leaves, if_neg (by decide),
      if_pos rfl, leaves_angleless plain, List.append_eq_nil_iff]
    simp [seen_mark is plain rest]

def quote : Char := Char.ofNat 34

theorem quote_mark : Mark quote := ⟨by unfold Angleless; decide, by decide, by decide⟩

theorem dash_mark : Mark '-' := ⟨by unfold Angleless; decide, by decide, by decide⟩

structure TagName where
  text : Str
  plain : Angleless text

structure Attribute where
  name : TagName
  value : Str
  unquoted : quote ∉ value

structure Comment where
  text : Str
  unfinished : ¬"-->".toList <:+: text

/-- Between two nodes there is one text, which may be empty: text nodes are never adjacent. -/
inductive Node where
  | element (name : TagName) (attributes : List Attribute) (lead : CharData)
      (children : List (Node × CharData))
  | void (name : TagName) (attributes : List Attribute)
  | comment (comment : Comment)

structure Page where
  lead : CharData
  nodes : List (Node × CharData)

def Attribute.render (a : Attribute) : Str :=
  ' ' :: (a.name.text ++ '=' :: quote :: (a.value ++ [quote]))

/-- What stands between the angles of a start tag. -/
def startBody (name : TagName) (attributes : List Attribute) : Str :=
  name.text ++ attributes.flatMap Attribute.render

def endBody (name : TagName) : Str := '/' :: name.text

def commentBody (comment : Comment) : Str := '!' :: '-' :: '-' :: (comment.text ++ ['-', '-'])

mutual

def Node.render : Node → Str
  | .element name attributes lead children =>
    '<' :: (startBody name attributes ++ '>' :: (lead.text ++ (renderNodes children ++
      '<' :: (endBody name ++ ['>']))))
  | .void name attributes => '<' :: (startBody name attributes ++ ['>'])
  | .comment comment => '<' :: (commentBody comment ++ ['>'])

def renderNodes : List (Node × CharData) → Str
  | [] => []
  | (node, text) :: rest => node.render ++ (text.text ++ renderNodes rest)

end

mutual

/-- The words of the text nodes, in document order. -/
def Node.words : Node → List Str
  | .element _ _ lead children => wordsOf lead.text ++ wordsOfNodes children
  | .void _ _ => []
  | .comment _ => []

def wordsOfNodes : List (Node × CharData) → List Str
  | [] => []
  | (node, text) :: rest => node.words ++ (wordsOf text.text ++ wordsOfNodes rest)

end

mutual

/-- The attribute values and the comments. -/
def Node.unseen : Node → List Str
  | .element _ attributes _ children => attributes.map Attribute.value ++ unseenOfNodes children
  | .void _ attributes => attributes.map Attribute.value
  | .comment comment => [comment.text]

def unseenOfNodes : List (Node × CharData) → List Str
  | [] => []
  | (node, _) :: rest => node.unseen ++ unseenOfNodes rest

end

mutual

/-- The tags in document order, each with the text after it; text follows the node itself. -/
def Node.tags : Node → CharData → List (Str × CharData)
  | .element name attributes lead children, text =>
    (startBody name attributes, lead) :: (tagsOfNodes children ++ [(endBody name, text)])
  | .void name attributes, text => [(startBody name attributes, text)]
  | .comment comment, text => [(commentBody comment, text)]

def tagsOfNodes : List (Node × CharData) → List (Str × CharData)
  | [] => []
  | (node, text) :: rest => node.tags text ++ tagsOfNodes rest

end

namespace Page

def render (page : Page) : Str := page.lead.text ++ renderNodes page.nodes

def words (page : Page) : List Str := wordsOf page.lead.text ++ wordsOfNodes page.nodes

def unseen (page : Page) : List Str := unseenOfNodes page.nodes

end Page

/-- The render of tags that are each followed by their text. -/
def flatRender (tags : List (Str × CharData)) : Str :=
  renderTags (tags.map fun tag => (tag.1, tag.2.text))

theorem flatRender_append (front back : List (Str × CharData)) :
    flatRender (front ++ back) = flatRender front ++ flatRender back := by
  simp [flatRender, renderTags]

theorem flatRender_single (body : Str) (text : CharData) :
    flatRender [(body, text)] = '<' :: (body ++ '>' :: text.text) := by
  simp [flatRender, renderTags]

mutual

theorem Node.render_eq (node : Node) (text : CharData) :
    node.render ++ text.text = flatRender (node.tags text) := by
  cases node with
  | element name attributes lead children =>
    have inner := renderNodes_eq children
    have shape : Node.tags (.element name attributes lead children) text =
        [(startBody name attributes, lead)] ++ tagsOfNodes children ++ [(endBody name, text)] := rfl
    rw [shape, flatRender_append, flatRender_append, flatRender_single, flatRender_single, ← inner,
      Node.render]
    simp only [List.cons_append, List.append_assoc, List.nil_append]
  | void name attributes =>
    rw [Node.tags, flatRender_single, Node.render]
    simp only [List.cons_append, List.append_assoc, List.nil_append]
  | comment comment =>
    rw [Node.tags, flatRender_single, Node.render]
    simp only [List.cons_append, List.append_assoc, List.nil_append]

theorem renderNodes_eq (nodes : List (Node × CharData)) :
    renderNodes nodes = flatRender (tagsOfNodes nodes) := by
  match nodes with
  | [] => rfl
  | (node, text) :: rest =>
    have first := node.render_eq text
    have later := renderNodes_eq rest
    rw [renderNodes, tagsOfNodes, flatRender_append, ← first, ← later, List.append_assoc]

end

theorem angleless_cons {c : Char} {s : Str} (angle : c ≠ '<' ∧ c ≠ '>') (plain : Angleless s) :
    Angleless (c :: s) := by
  simp only [Angleless, List.mem_cons, not_or]
  exact ⟨⟨Ne.symm angle.1, plain.1⟩, ⟨Ne.symm angle.2, plain.2⟩⟩

theorem seen_attributes (attributes : List Attribute) :
    seen true (attributes.flatMap Attribute.render) = [] ↔ ∀ a ∈ attributes, Hidden a.value := by
  induction attributes with
  | nil => simp [seen_nil]
  | cons a rest ih =>
    have named : Angleless (' ' :: (a.name.text ++ ['=', quote])) := by
      refine angleless_cons (by decide) ?_
      have sign : Angleless ['=', quote] := by unfold Angleless; decide
      simp only [Angleless, List.mem_append, not_or]
      exact ⟨⟨a.name.plain.1, sign.1⟩, ⟨a.name.plain.2, sign.2⟩⟩
    have shape : (a :: rest).flatMap Attribute.render =
        (' ' :: (a.name.text ++ ['=', quote])) ++ (a.value ++ quote :: rest.flatMap Attribute.render) := by
      simp [Attribute.render]
    rw [shape, seen_skip named, seen_value quote_mark, ih, List.forall_mem_cons]

theorem seen_startBody (name : TagName) (attributes : List Attribute) :
    seen true (startBody name attributes) = [] ↔ ∀ a ∈ attributes, Hidden a.value := by
  rw [startBody, seen_skip name.plain, seen_attributes]

theorem seen_endBody (name : TagName) : seen true (endBody name) = [] :=
  seen_hidden (angleless_cons (by decide) name.plain)

theorem seen_commentBody (comment : Comment) :
    seen true (commentBody comment) = [] ↔ Hidden comment.text := by
  have start : Angleless ['!', '-', '-'] := by unfold Angleless; decide
  have dash : seen true ['-'] = [] := seen_hidden dash_mark.angle
  have shape : commentBody comment = ['!', '-', '-'] ++ (comment.text ++ '-' :: ['-']) := rfl
  rw [shape, seen_skip start, seen_value dash_mark, dash]
  simp

mutual

theorem Node.words_eq (node : Node) (text : CharData) :
    node.words ++ wordsOf text.text = (node.tags text).flatMap fun tag => wordsOf tag.2.text := by
  cases node with
  | element name attributes lead children =>
    have inner := wordsOfNodes_eq children
    simp only [Node.words, Node.tags, inner, List.flatMap_cons, List.flatMap_append,
      List.flatMap_nil, List.append_assoc, List.append_nil]
  | void name attributes => simp [Node.words, Node.tags]
  | comment comment => simp [Node.words, Node.tags]

theorem wordsOfNodes_eq (nodes : List (Node × CharData)) :
    wordsOfNodes nodes = (tagsOfNodes nodes).flatMap fun tag => wordsOf tag.2.text := by
  match nodes with
  | [] => rfl
  | (node, text) :: rest =>
    have first := node.words_eq text
    have later := wordsOfNodes_eq rest
    rw [wordsOfNodes, tagsOfNodes, List.flatMap_append, ← first, ← later, List.append_assoc]

end

mutual

theorem Node.unseen_iff (node : Node) (text : CharData) :
    (∀ tag ∈ node.tags text, seen true tag.1 = []) ↔ ∀ value ∈ node.unseen, Hidden value := by
  cases node with
  | element name attributes lead children =>
    have inner := unseenOfNodes_iff children
    simp only [Node.tags, Node.unseen, List.forall_mem_cons, List.forall_mem_append, inner,
      seen_startBody, seen_endBody, List.forall_mem_map, List.not_mem_nil, IsEmpty.forall_iff,
      implies_true, and_true]
  | void name attributes =>
    simp only [Node.tags, Node.unseen, List.forall_mem_cons, List.not_mem_nil, IsEmpty.forall_iff,
      implies_true, and_true, seen_startBody, List.forall_mem_map]
  | comment comment =>
    simp only [Node.tags, Node.unseen, List.forall_mem_cons, List.not_mem_nil, IsEmpty.forall_iff,
      implies_true, and_true, seen_commentBody]

theorem unseenOfNodes_iff (nodes : List (Node × CharData)) :
    (∀ tag ∈ tagsOfNodes nodes, seen true tag.1 = []) ↔ ∀ value ∈ unseenOfNodes nodes, Hidden value := by
  match nodes with
  | [] => simp [tagsOfNodes, unseenOfNodes]
  | (node, text) :: rest =>
    have first := node.unseen_iff text
    have later := unseenOfNodes_iff rest
    simp only [tagsOfNodes, unseenOfNodes, List.forall_mem_append, first, later]

end

theorem length_interleaved {α β : Type} (f g : β → List α) (l : List β) :
    (l.flatMap fun x => f x ++ g x).length = (l.flatMap f).length + (l.flatMap g).length := by
  induction l with
  | nil => rfl
  | cons x rest ih =>
    simp only [List.flatMap_cons, List.length_append] at ih ⊢
    omega

/-- What is put in between changes a list unless it is empty everywhere. -/
theorem interleaved_iff {α β : Type} (f g : β → List α) (l : List β) :
    (l.flatMap fun x => f x ++ g x) = l.flatMap g ↔ ∀ x ∈ l, f x = [] := by
  constructor
  · intro same
    have size := length_interleaved f g l
    rw [same] at size
    have none : l.flatMap f = [] := List.length_eq_zero_iff.mp (by omega)
    exact List.flatMap_eq_nil_iff.mp none
  · intro none
    exact List.flatMap_congr fun x member => by rw [none x member, List.nil_append]

namespace Page

theorem seen_render (page : Page) :
    seen false page.render = wordsOf page.lead.text ++
      (tagsOfNodes page.nodes).flatMap fun tag => seen true tag.1 ++ wordsOf tag.2.text := by
  rw [render, renderNodes_eq, flatRender, seen_tags, seen_text, List.flatMap_map]
  simp only [seen_text]

theorem words_iff (page : Page) :
    seen false page.render = page.words ↔ ∀ value ∈ page.unseen, Hidden value := by
  rw [seen_render, words, wordsOfNodes_eq, List.append_cancel_left_eq, interleaved_iff,
    unseenOfNodes_iff]
  rfl

end Page

end EalSync.Ingestion
