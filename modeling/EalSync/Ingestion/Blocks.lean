import EalSync.Ingestion.Content

/-! The blocks that remove_ignored_html_blocks takes out, and what stands in a script element. -/
namespace EalSync.Ingestion

theorem lower_append (front back : Str) :
    Str.toAsciiLowercase (front ++ back) = Str.toAsciiLowercase front ++ Str.toAsciiLowercase back :=
  List.map_append

theorem lower_length (s : Str) : (Str.toAsciiLowercase s).length = s.length := List.length_map _

theorem removeBlocks_absent {tag s : Str} (absent : ¬openingOf tag <:+: Str.toAsciiLowercase s) :
    removeBlocks tag s = s := by
  have none := Search.find_eq_none.mpr absent
  rw [removeBlocks]
  split
  · rfl
  · rename_i found
    rw [none] at found
    cases found

theorem removeBlocks_found {tag s : Str} {start : Nat}
    (found : Search.find (openingOf tag) (Str.toAsciiLowercase s) = some start) :
    removeBlocks tag s = removeBlocks tag (blank s start (blockEnd tag s start)) := by
  rw [removeBlocks]
  split
  · rename_i none
    rw [none] at found
    cases found
  · rename_i other same
    rw [same] at found
    cases found
    rfl

theorem blank_closed {tag block : Str} {relative : Nat} (front : Str)
    (closes : Search.find (closingOf tag) (Str.toAsciiLowercase block) = some relative) :
    blank (front ++ block) front.length (blockEnd tag (front ++ block) front.length) =
      front ++ ' ' :: block.drop (relative + (closingOf tag).length) := by
  rw [blockEnd, lower_append, ← lower_length front, List.drop_left, closes, lower_length, blank,
    List.take_left, Option.map_some, Option.getD_some, Nat.add_assoc, List.drop_append,
    List.drop_eq_nil_of_le (Nat.le_add_right _ _), Nat.add_sub_cancel_left, List.nil_append]

theorem removeBlocks_closed {tag front block : Str} {relative : Nat}
    (opens : Search.find (openingOf tag) (Str.toAsciiLowercase (front ++ block)) = some front.length)
    (closes : Search.find (closingOf tag) (Str.toAsciiLowercase block) = some relative) :
    removeBlocks tag (front ++ block) =
      removeBlocks tag (front ++ ' ' :: block.drop (relative + (closingOf tag).length)) := by
  rw [removeBlocks_found opens, blank_closed front closes]

/-- A block that does not end goes to the end. -/
theorem removeBlocks_unclosed {tag front block : Str}
    (opens : Search.find (openingOf tag) (Str.toAsciiLowercase (front ++ block)) = some front.length)
    (unclosed : ¬closingOf tag <:+: Str.toAsciiLowercase block) :
    removeBlocks tag (front ++ block) = removeBlocks tag (front ++ [' ']) := by
  have stop : blockEnd tag (front ++ block) front.length = (front ++ block).length := by
    rw [blockEnd, lower_append, ← lower_length front, List.drop_left, Search.find_eq_none.mpr unclosed]
    rfl
  rw [removeBlocks_found opens, stop, blank, List.take_left, List.drop_length]

/-- A block that is cut out: what it begins with, and what is around it. -/
theorem block_cut {tag s : Str} {start : Nat}
    (found : Search.find (openingOf tag) (Str.toAsciiLowercase s) = some start) :
    ∃ front block back, s = front ++ (block ++ back) ∧ openingOf tag <+: Str.toAsciiLowercase block ∧
      front.length = start ∧ blank s start (blockEnd tag s start) = front ++ ' ' :: back := by
  obtain ⟨front, rest, rfl, rfl, begins⟩ := opening_at found
  have opens : openingOf tag <+: Str.toAsciiLowercase ('<' :: rest) :=
    List.cons_prefix_cons.mpr ⟨rfl, begins⟩
  cases closes : Search.find (closingOf tag) (Str.toAsciiLowercase ('<' :: rest)) with
  | none =>
    refine ⟨front, '<' :: rest, [], by rw [List.append_nil], opens, rfl, ?_⟩
    rw [blockEnd, lower_append, ← lower_length front, List.drop_left, closes, lower_length, blank,
      List.take_left, Option.map_none, Option.getD_none, List.drop_length]
  | some relative =>
    have long : (openingOf tag).length ≤ relative + (closingOf tag).length := by
      simp only [openingOf, closingOf, List.length_cons, List.length_append]
      omega
    refine ⟨front, _, _, by rw [List.take_append_drop (relative + (closingOf tag).length)], ?_, rfl,
      blank_closed front closes⟩
    rw [Str.toAsciiLowercase, List.map_take]
    exact List.prefix_take_iff.mpr ⟨opens, long⟩

/-- What holds with a space for each block that begins at an opening holds after the removal. -/
theorem removeBlocks_preserves {tag : Str} {P : Str → Prop}
    (cut : ∀ front block back, openingOf tag <+: Str.toAsciiLowercase block →
      P (front ++ (block ++ back)) → P (front ++ ' ' :: back)) {s : Str} (h : P s) :
    P (removeBlocks tag s) := by
  induction s using removeBlocks.induct tag with
  | case1 s none => rwa [removeBlocks_absent (Search.find_eq_none.mp none)]
  | case2 s start found ih =>
    rw [removeBlocks_found found]
    apply ih
    obtain ⟨front, block, back, rfl, opens, _, shape⟩ := block_cut found
    rw [shape]
    exact cut front block back opens h

theorem mem_lower {c : Char} (caseless : c.isAlpha = false) {s : Str} :
    c ∈ Str.toAsciiLowercase s ↔ c ∈ s := by
  simp only [Str.toAsciiLowercase, List.mem_map, Str.toLower_eq_iff caseless, exists_eq_right]

/-- Without an angle no block begins. -/
theorem opening_absent {tag s : Str} (plain : '<' ∉ s) : ¬openingOf tag <:+: Str.toAsciiLowercase s :=
  fun inside => plain ((mem_lower rfl).mp (inside.subset List.mem_cons_self))

theorem closing_absent {tag s : Str} (plain : '<' ∉ s) : ¬closingOf tag <:+: Str.toAsciiLowercase s :=
  fun inside => plain ((mem_lower rfl).mp (inside.subset List.mem_cons_self))

/-- The name of a tag, in letters. -/
def Nameable (tag : Str) : Prop := tag ≠ [] ∧ ∀ c ∈ tag, c.isAlpha = true

theorem ignored_nameable : ∀ tag ∈ ignoredTags, Nameable tag := by unfold Nameable; decide

theorem Nameable.not_mem {tag : Str} (named : Nameable tag) {c : Char}
    (other : c.isAlpha = false) : c ∉ tag := by
  intro member
  rw [named.2 c member] at other
  cases other

theorem Nameable.not_mem_opening {tag : Str} (named : Nameable tag) {c : Char}
    (other : c.isAlpha = false) (angle : c ≠ '<') : c ∉ openingOf tag := by
  rw [openingOf, List.mem_cons, not_or]
  exact ⟨angle, named.not_mem other⟩

theorem opening_headed {tag : Str} (named : Nameable tag) : Search.Headed (openingOf tag) :=
  ⟨'<', tag, rfl, named.not_mem rfl⟩

theorem closing_headed {tag : Str} (named : Nameable tag) : Search.Headed (closingOf tag) :=
  ⟨'<', '/' :: tag ++ ['>'], rfl, by simpa using named.not_mem rfl⟩

theorem blank_append (front back : Str) (start stop : Nat) :
    blank (front ++ back) (front.length + start) (front.length + stop) =
      front ++ blank back start stop := by
  rw [blank, blank, List.take_length_add_append, List.drop_length_add_append, List.append_assoc]

theorem blockEnd_append (tag front back : Str) (start : Nat) :
    blockEnd tag (front ++ back) (front.length + start) = front.length + blockEnd tag back start := by
  rw [blockEnd, blockEnd, lower_append, ← lower_length front, List.drop_length_add_append]
  cases Search.find (closingOf tag) ((Str.toAsciiLowercase back).drop start) with
  | none => simp [lower_length]
  | some relative =>
    simp only [Option.map_some, Option.getD_some, lower_length]
    omega

/-- What is before the blocks stays, if none of them begins in it. -/
theorem removeBlocks_front {tag : Str} (named : Nameable tag) {front back : Str}
    (absent : ¬openingOf tag <:+: Str.toAsciiLowercase front)
    (apart : Search.Apart (openingOf tag) (Str.toAsciiLowercase front) (Str.toAsciiLowercase back)) :
    removeBlocks tag (front ++ back) = front ++ removeBlocks tag back := by
  induction back using removeBlocks.induct tag with
  | case1 back none =>
    have whole := Search.find_append_right apart absent
    rw [none, Option.map_none, ← lower_append] at whole
    rw [removeBlocks_absent (Search.find_eq_none.mp none),
      removeBlocks_absent (Search.find_eq_none.mp whole)]
  | case2 back start found ih =>
    have whole := Search.find_append_right apart absent
    rw [found, Option.map_some, ← lower_append, lower_length, Nat.add_comm] at whole
    rw [removeBlocks_found whole, removeBlocks_found found, blockEnd_append, blank_append]
    apply ih
    rw [← List.take_append_drop start back, lower_append] at apart
    rw [blank, lower_append]
    exact apart.cut (named.not_mem_opening rfl (by decide)) _

theorem removeBlocks_plain {tag : Str} (named : Nameable tag) {front : Str} (plain : '<' ∉ front)
    (back : Str) : removeBlocks tag (front ++ back) = front ++ removeBlocks tag back :=
  removeBlocks_front named (opening_absent plain) (Search.apart_of_plain (mt (mem_lower rfl).mp plain) _)

/-- What the removal does not take from a text with a space in its place. -/
theorem removeBlocks_keeps {tag pat : Str} (spaceless : ' ' ∉ pat) {s : Str} (absent : ¬pat <:+: s) :
    ¬pat <:+: removeBlocks tag s := by
  refine removeBlocks_preserves (P := fun s => ¬pat <:+: s) ?_ absent
  intro front block back _ before inside
  rcases (Search.infix_around spaceless).mp inside with left | right
  · exact before (left.trans (List.prefix_append front _).isInfix)
  · exact before (right.trans ((List.suffix_append block back).trans
      (List.suffix_append front _)).isInfix)

theorem removeBlocks_cons {tag : Str} (named : Nameable tag) {c : Char} (plain : c ≠ '<') (back : Str) :
    removeBlocks tag (c :: back) = c :: removeBlocks tag back :=
  @removeBlocks_plain tag named [c] (by simpa using plain.symm) back

/-- Every block of the tag that begins in the text ends in it. -/
inductive Contained (tag : Str) : Str → Prop where
  | absent {s : Str} (none : ¬openingOf tag <:+: Str.toAsciiLowercase s) : Contained tag s
  | block {s : Str} {start : Nat}
      (found : Search.find (openingOf tag) (Str.toAsciiLowercase s) = some start)
      (ends : closingOf tag <:+: (Str.toAsciiLowercase s).drop start)
      (rest : Contained tag (blank s start (blockEnd tag s start))) : Contained tag s

/-- Blocks that end before a separator are removed apart from what is behind it. -/
theorem Contained.removeBlocks_append {tag s : Str} (h : Contained tag s) (named : Nameable tag)
    {sep : Char} (other : sep.isAlpha = false) (angle : sep ≠ '<') (back : Str) :
    removeBlocks tag (s ++ sep :: back) = removeBlocks tag s ++ sep :: removeBlocks tag back := by
  have lowered : sep.toLower = sep := (Str.toLower_eq_iff other).mpr rfl
  induction h with
  | @absent s none =>
    have apart : Search.Apart (openingOf tag) (Str.toAsciiLowercase s)
        (Str.toAsciiLowercase (sep :: back)) := by
      rw [Str.toAsciiLowercase, Str.toAsciiLowercase, List.map_cons, lowered]
      exact Search.apart_of_start (named.not_mem_opening other angle) _
    rw [removeBlocks_absent none, removeBlocks_front named none apart,
      removeBlocks_cons named angle]
  | @block s start found ends rest ih =>
    have whole := Search.find_append_left found (Str.toAsciiLowercase (sep :: back))
    rw [← lower_append] at whole
    rw [removeBlocks_found whole, removeBlocks_found found, ← ih]
    obtain ⟨relative, closes⟩ :=
      Option.ne_none_iff_exists'.mp (mt Search.find_eq_none.mp (not_not.mpr ends))
    have still := Search.find_append_left closes (Str.toAsciiLowercase (sep :: back))
    have room := Search.find_le found
    have inside := Search.find_le closes
    rw [List.length_drop] at inside
    have same : blockEnd tag (s ++ sep :: back) start = blockEnd tag s start := by
      rw [blockEnd, blockEnd, lower_append, List.drop_append_of_le_length (by omega), closes, still]
      rfl
    have short : blockEnd tag s start ≤ s.length := by
      rw [lower_length] at inside room
      rw [blockEnd, closes, Option.map_some, Option.getD_some]
      omega
    rw [lower_length] at room
    rw [same, blank, blank, List.take_append_of_le_length (by omega),
      List.drop_append_of_le_length short, List.append_assoc]
    rfl

/-- Each pass over the text finds its blocks contained. -/
def Within : List Str → Str → Prop
  | [], _ => True
  | tag :: tags, s => Contained tag s ∧ Within tags (removeBlocks tag s)

theorem within_of_absent {tags : List Str} {s : Str}
    (none : ∀ tag ∈ tags, ¬openingOf tag <:+: Str.toAsciiLowercase s) : Within tags s := by
  induction tags with
  | nil => trivial
  | cons tag rest ih =>
    rw [List.forall_mem_cons] at none
    refine ⟨.absent none.1, ?_⟩
    rw [removeBlocks_absent none.1]
    exact ih none.2

def script : Str := "script".toList

/-- A document with one script element written out. -/
def withScript (front text back : Str) : Str :=
  front ++ "<script>".toList ++ text ++ "</script>".toList ++ back

theorem withScript_append (front block text back : Str) :
    withScript (front ++ block) text back = front ++ withScript block text back := by
  simp only [withScript, List.append_assoc]

/-- The text of a script element, which its first end tag would end. -/
def ScriptText (text : Str) : Prop := ¬"</script>".toList <:+: Str.toAsciiLowercase text

theorem script_nameable : Nameable script := ignored_nameable script (by decide)

theorem withScript_lower (front text back : Str) :
    Str.toAsciiLowercase (withScript front text back) =
      Str.toAsciiLowercase front ++ (openingOf script ++ ('>' :: Str.toAsciiLowercase text ++
        (closingOf script ++ Str.toAsciiLowercase back))) := by
  simp only [withScript, lower_append, List.append_assoc]
  rfl

theorem closing_absent_script {text : Str} (clean : ScriptText text) :
    ¬closingOf script <:+: openingOf script ++ '>' :: Str.toAsciiLowercase text := by
  have here : ¬closingOf script <+: openingOf script ++ '>' :: Str.toAsciiLowercase text := by
    simp [openingOf, closingOf, script]
  have later : ¬closingOf script <:+: (script ++ ['>']) ++ Str.toAsciiLowercase text := by
    rw [closingOf, List.cons_append, Search.infix_append_of_head (by decide)]
    exact clean
  rw [openingOf, List.cons_append, List.infix_cons_iff, not_or] at *
  exact ⟨here, by simpa using later⟩

theorem closing_found {block text : Str} (back : Str) (clean : ScriptText text)
    (never : ¬closingOf script <:+: Str.toAsciiLowercase block) :
    Search.find (closingOf script) (Str.toAsciiLowercase (withScript block text back)) =
      some (block.length + text.length + 8) := by
  have apart : Search.Apart (closingOf script) (Str.toAsciiLowercase block)
      (openingOf script ++ '>' :: Str.toAsciiLowercase text) :=
    Search.apart_of_head (closing_headed script_nameable) _ (.inl rfl)
  have absent := (Search.infix_append apart never).not.mpr (closing_absent_script clean)
  have found := Search.find_here (closing_headed script_nameable) absent (Str.toAsciiLowercase back)
  rw [List.append_assoc, List.append_assoc, ← withScript_lower] at found
  have length : (openingOf script).length = 7 := rfl
  rw [found]
  simp only [List.length_append, List.length_cons, lower_length, length]
  congr 1
  omega

theorem drop_withScript (block text back : Str) :
    (withScript block text back).drop (block.length + text.length + 8 + (closingOf script).length) =
      back := by
  have whole : block.length + text.length + 8 + (closingOf script).length =
      (block ++ "<script>".toList ++ text ++ "</script>".toList).length := by
    have opening : "<script>".toList.length = 8 := rfl
    have closing : "</script>".toList.length = (closingOf script).length := rfl
    simp only [List.length_append, opening, closing]
    omega
  rw [whole]
  exact List.drop_left

/-- The end tag of the element ends the block that begins at the element or before it. -/
theorem removeBlocks_across {front block text : Str} (back : Str) (clean : ScriptText text)
    (opens : Search.find (openingOf script) (Str.toAsciiLowercase (withScript (front ++ block) text back)) =
      some front.length)
    (never : ¬closingOf script <:+: Str.toAsciiLowercase block) :
    removeBlocks script (withScript (front ++ block) text back) =
      removeBlocks script (front ++ ' ' :: back) := by
  rw [withScript_append] at opens ⊢
  rw [removeBlocks_closed opens (closing_found back clean never), drop_withScript]

/-- A block that ends before the element. -/
theorem removeBlocks_before {front block : Str} {relative : Nat} (text back : Str)
    (opens : Search.find (openingOf script) (Str.toAsciiLowercase (withScript (front ++ block) text back)) =
      some front.length)
    (closes : Search.find (closingOf script) (Str.toAsciiLowercase block) = some relative) :
    removeBlocks script (withScript (front ++ block) text back) = removeBlocks script
      (withScript (front ++ ' ' :: block.drop (relative + (closingOf script).length)) text back) := by
  have room := Search.find_le closes
  rw [lower_length] at room
  have found := Search.find_append_left closes (Str.toAsciiLowercase (withScript [] text back))
  rw [← lower_append, ← withScript_append, List.append_nil] at found
  have shape := withScript_append block [] text back
  rw [List.append_nil] at shape
  rw [withScript_append] at opens ⊢
  rw [removeBlocks_closed opens found, shape, List.drop_append_of_le_length room]
  simp only [withScript, List.cons_append, List.append_assoc, List.nil_append]

/-- What is left depends on the text around the script element only. The induction is on the
opening angles before it. -/
theorem removeBlocks_withScript (front back : Str) :
    ∃ result, ∀ text, ScriptText text → removeBlocks script (withScript front text back) = result := by
  induction angles : front.count '<' using Nat.strong_induction_on generalizing front with
  | _ n ih =>
    subst angles
    cases opened : Search.find (openingOf script) (Str.toAsciiLowercase front) with
    | none =>
      have absent := Search.find_eq_none.mp opened
      refine ⟨removeBlocks script (front ++ ' ' :: back), fun text clean => ?_⟩
      have opens := Search.find_here (opening_headed script_nameable) absent ('>' :: Str.toAsciiLowercase text ++
        (closingOf script ++ Str.toAsciiLowercase back))
      have never : ¬closingOf script <:+: Str.toAsciiLowercase [] := by decide
      have across := @removeBlocks_across front [] text back clean
      rw [List.append_nil] at across
      rw [← withScript_lower, lower_length] at opens
      exact across opens never
    | some start =>
      have fewer := count_blank opened
      obtain ⟨before, rest, rfl, rfl, _⟩ := opening_at opened
      have opens (text : Str) : Search.find (openingOf script)
          (Str.toAsciiLowercase (withScript (before ++ '<' :: rest) text back)) = some before.length := by
        have found := Search.find_append_left opened (Str.toAsciiLowercase (withScript [] text back))
        rw [← lower_append, ← withScript_append, List.append_nil] at found
        exact found
      cases closed : Search.find (closingOf script) (Str.toAsciiLowercase ('<' :: rest)) with
      | none =>
        have never := Search.find_eq_none.mp closed
        exact ⟨_, fun text clean => removeBlocks_across back clean (opens text) never⟩
      | some relative =>
        rw [blank_closed before closed] at fewer
        obtain ⟨result, same⟩ := ih _ fewer _ rfl
        refine ⟨result, fun text clean => ?_⟩
        rw [removeBlocks_before text back (opens text) closed, ← same text clean]

theorem removeIgnoredHtmlBlocks_withScript (front back : Str) {first second : Str}
    (cleanFirst : ScriptText first) (cleanSecond : ScriptText second) :
    removeIgnoredHtmlBlocks (withScript front first back) =
      removeIgnoredHtmlBlocks (withScript front second back) := by
  obtain ⟨result, same⟩ := removeBlocks_withScript front back
  simp only [removeIgnoredHtmlBlocks, ignoredTags, List.foldl_cons]
  rw [← script, same first cleanFirst, same second cleanSecond]

theorem extractText_html (serde : SerdeJson) {contentType : Str}
    (html : baseContentType contentType = "text/html".toList ∨
      baseContentType contentType = "application/xhtml+xml".toList) (s : Str) :
    extractText serde contentType (Percent.utf8Bytes s) =
      .ok (collapseWhitespace (decodeCommonEntities (stripMarkup (removeIgnoredHtmlBlocks s)))) := by
  rcases html with html | html <;>
  · rw [extractText, html, decodedText, Utf8.fromUtf8Lossy_utf8Bytes, if_neg (by decide),
      if_pos (by decide)]

/-- The text of a page says nothing of what its scripts are. -/
theorem extractText_ignores_script (serde : SerdeJson) {contentType : Str}
    (html : baseContentType contentType = "text/html".toList) (front back : Str)
    {first second : Str} (cleanFirst : ScriptText first) (cleanSecond : ScriptText second) :
    extractText serde contentType (Percent.utf8Bytes (withScript front first back)) =
      extractText serde contentType (Percent.utf8Bytes (withScript front second back)) := by
  rw [extractText_html serde (.inl html), extractText_html serde (.inl html),
    removeIgnoredHtmlBlocks_withScript front back cleanFirst cleanSecond]

theorem extractText_ignores_script_pages :
    extractText ⟨fun _ => .error []⟩ "text/html; charset=utf-8".toList
      (Percent.utf8Bytes (withScript "<p>one<script".toList "tick(1)".toList "<p>two".toList)) =
    extractText ⟨fun _ => .error []⟩ "text/html; charset=utf-8".toList
      (Percent.utf8Bytes (withScript "<p>one<script".toList "<SCRIPT>".toList "<p>two".toList)) :=
  extractText_ignores_script _ (by decide) _ _ (by unfold ScriptText; decide)
    (by unfold ScriptText; decide)

end EalSync.Ingestion
