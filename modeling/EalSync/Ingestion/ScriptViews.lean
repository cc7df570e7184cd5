import EalSync.Ingestion.Scope
import EalSync.Ingestion.TagElements

/-! What a script element can do to the semantic views of a page. The title and the headings are
scanned in the page as it came, with its scripts. -/
namespace EalSync.Ingestion.SemanticViews

/-- The texts that the document is searched for, with their limits. -/
def scans : List (Str × Nat) :=
  [("title".toList, 1), ("h1".toList, 12), ("h2".toList, 12), ("h3".toList, 12)]

/-- In what the elements before the script leave of the page, and in the script, no element begins but
such as have no visible text and close before the script does. -/
def Silent (tag rest text back : Str) : Prop :=
  ∃ blank contents left, rest ++ "<script>".toList ++ text = blank ++ left ∧
    Elements tag blank contents ∧ (∀ content ∈ contents, elementText content = none) ∧
    NoElement tag left ("</script>".toList ++ back)

/-- The elements before the script give the scan as many texts as it wants, or it finds none that
reaches into either script. -/
def Unread (scan : Str × Nat) (front back first second : Str) : Prop :=
  ∃ whole contents rest, front = whole ++ rest ∧ Elements scan.1 whole contents ∧
    (scan.2 ≤ (contents.filterMap elementText).length ∨
      Silent scan.1 rest first back ∧ Silent scan.1 rest second back)

/-- Before it has its texts, the scan comes to an element that lies in part in the script and has visible
text, or is closed only behind the script. -/
def ScriptRead (scan : Str × Nat) (front text back : Str) : Prop :=
  ∃ before contents gap element content after,
    withScript front text back = before ++ (gap ++ (element ++ after)) ∧
    Elements scan.1 before contents ∧ (contents.filterMap elementText).length < scan.2 ∧
    Unopened scan.1 gap ∧ elementHere scan.1 element = some (content, []) ∧
    before.length + gap.length < (front ++ "<script>".toList ++ text).length ∧
    front.length < before.length + gap.length + element.length ∧
    (elementText content ≠ none ∨
      (front ++ "<script>".toList ++ text).length < before.length + gap.length + element.length)

theorem tagTexts_silent {tag rest text back : Str} (plain : '<' ∉ tag) (silent : Silent tag rest text back)
    (limit : Nat) :
    tagTexts tag limit (rest ++ ("<script>".toList ++ text ++ "</script>".toList ++ back)) =
      tagTexts tag limit ("</script>".toList ++ back) := by
  obtain ⟨blank, contents, left, split, elements, invisible, absent⟩ := silent
  have shape : rest ++ ("<script>".toList ++ text ++ "</script>".toList ++ back) =
      blank ++ (left ++ ("</script>".toList ++ back)) := by
    rw [← List.append_assoc blank, ← split]
    simp only [List.append_assoc]
  have angle : "</script>".toList ++ back = '<' :: ("/script>".toList ++ back) := rfl
  rw [angle] at absent
  rw [shape, elements.tagTexts plain, List.filterMap_eq_nil_iff.mpr invisible, angle,
    tagTexts_noElement plain absent, List.take_nil, List.nil_append, List.length_nil, Nat.sub_zero]

theorem tagTexts_unread {scan : Str × Nat} {front back first second : Str} (plain : '<' ∉ scan.1)
    (unread : Unread scan front back first second) :
    extractTagTexts (withScript front first back) scan.1 scan.2 =
      extractTagTexts (withScript front second back) scan.1 scan.2 := by
  obtain ⟨whole, contents, rest, rfl, elements, ends⟩ := unread
  have shape (text : Str) : withScript (whole ++ rest) text back =
      whole ++ (rest ++ ("<script>".toList ++ text ++ "</script>".toList ++ back)) := by
    simp only [withScript, List.append_assoc]
  rw [extractTagTexts, extractTagTexts, shape, shape, elements.tagTexts plain, elements.tagTexts plain]
  congr 1
  rcases ends with full | ⟨silentFirst, silentSecond⟩
  · rw [Nat.sub_eq_zero_of_le full, tagTexts_zero, tagTexts_zero]
  · rw [tagTexts_silent plain silentFirst, tagTexts_silent plain silentSecond]

/-- A scan that goes on from an element to an element reads nothing of the script, or one in it. -/
theorem silent_or_read {scan : Str × Nat} {whole rest text back : Str} {contents : List Str}
    (named : '>' ∉ scan.1) (elements : Elements scan.1 whole contents)
    (room : (contents.filterMap elementText).length < scan.2) (closed : NoElement scan.1 rest [])
    {left blank : Str} {passed : List Str} (split : rest ++ "<script>".toList ++ text = blank ++ left)
    (row : Elements scan.1 blank passed) (invisible : ∀ content ∈ passed, elementText content = none) :
    Silent scan.1 rest text back ∨ ScriptRead scan (whole ++ rest) text back := by
  induction size : left.length using Nat.strong_induction_on generalizing left blank passed with
  | _ n ih =>
    subst size
    by_cases absent : NoElement scan.1 left ("</script>".toList ++ back)
    · exact .inl ⟨blank, passed, left, split, row, invisible, absent⟩
    · obtain ⟨gap, element, content, after, same, begins, unopened, here⟩ := first_element named absent
      have behind : rest ++ ("<script>".toList ++ text ++ ("</script>".toList ++ back)) =
          blank ++ gap ++ (element ++ after) := by
        rw [List.append_assoc blank, ← same, ← List.append_assoc blank, ← split]
        simp only [List.append_assoc]
      have late := closed.late here behind
      have sizes := congrArg List.length split
      simp only [List.length_append] at late sizes
      by_cases shown : elementText content ≠ none ∨ left.length < gap.length + element.length
      · refine .inr ⟨whole ++ blank, contents ++ passed, gap, element, content, after, ?_,
          elements.append row, ?_, unopened, here, ?_, ?_, shown.imp_right fun beyond => ?_⟩
        · rw [List.append_assoc whole, ← List.append_assoc blank, ← behind]
          simp only [withScript, List.append_assoc]
        · rwa [List.filterMap_append, List.filterMap_eq_nil_iff.mpr invisible, List.append_nil]
        all_goals
          simp only [List.length_append]
          omega
      · -- an element without visible text, closed in the script: the scan goes on behind it
        simp only [ne_eq, not_or, not_not, not_lt] at shown
        obtain ⟨more, rfl⟩ : gap ++ element <+: left := by
          rw [← List.append_assoc gap] at same
          refine List.prefix_of_prefix_length_le ⟨after, same.symm⟩ (List.prefix_append left _) ?_
          rw [List.length_append]
          exact shown.2
        refine ih more.length ?_ ?_ (row.append (.one unopened here)) (fun value member => ?_) rfl
        · obtain ⟨⟨_, rfl⟩, _⟩ := tagRead_element here
          simp only [List.length_append, List.length_cons]
          omega
        · rw [split]
          simp only [List.append_assoc]
        · rcases List.mem_append.mp member with old | last
          · exact invisible value old
          · rw [List.mem_singleton.mp last]
            exact shown.1

/-- A scan that is not as the condition says reads an element in one of the scripts. -/
theorem unread_or_read {scan : Str × Nat} (named : '>' ∉ scan.1) (front back first second : Str) :
    Unread scan front back first second ∨ ScriptRead scan front first back ∨
      ScriptRead scan front second back := by
  obtain ⟨whole, contents, rest, rfl, elements, closed⟩ := elements_rest named front
  rcases Nat.lt_or_ge (contents.filterMap elementText).length scan.2 with room | full
  · have reads (text : Str) := @silent_or_read scan whole rest text back contents named elements room
      closed _ [] [] rfl .nil fun _ member => absurd member List.not_mem_nil
    rcases reads first with silentFirst | read
    · rcases reads second with silentSecond | read
      · exact .inl ⟨whole, contents, rest, rfl, elements, .inr ⟨silentFirst, silentSecond⟩⟩
      · exact .inr (.inr read)
    · exact .inr (.inl read)
  · exact .inl ⟨whole, contents, rest, rfl, elements, .inl full⟩

theorem scans_plain : ∀ scan ∈ scans, '<' ∉ scan.1 ∧ '>' ∉ scan.1 := by decide

theorem views_unread {front back first second : Str}
    (unread : ∀ scan ∈ scans, Unread scan front back first second) :
    pageTitle (some (withScript front first back)) = pageTitle (some (withScript front second back)) ∧
      pageHeadings (some (withScript front first back)) =
        pageHeadings (some (withScript front second back)) := by
  have same (scan : Str × Nat) (member : scan ∈ scans) :=
    tagTexts_unread (scans_plain scan member).1 (unread scan member)
  have title := same ("title".toList, 1) (by simp [scans])
  have h1 := same ("h1".toList, 12) (by simp [scans])
  have h2 := same ("h2".toList, 12) (by simp [scans])
  have h3 := same ("h3".toList, 12) (by simp [scans])
  dsimp only at title h1 h2 h3
  simp only [pageTitle, pageHeadings, Option.bind_some, Option.elim_some, List.flatMap_cons,
    List.flatMap_nil, title, h1, h2, h3, and_self]

end EalSync.Ingestion.SemanticViews

namespace EalSync.Ingestion

open SemanticViews

theorem document_unread (unicode : Unicode) (serde : SerdeJson) (crate : UrlCrate) {contentType : Str}
    (html : baseContentType contentType = "text/html".toList) {front back : Str} (canonicalUrl : Str)
    {first second : Str} (cleanFirst : ScriptText first) (cleanSecond : ScriptText second)
    (unread : ∀ scan ∈ scans, Unread scan front back first second) :
    extractSemanticDocument unicode serde crate contentType
        (Percent.utf8Bytes (withScript front first back)) canonicalUrl =
      extractSemanticDocument unicode serde crate contentType
        (Percent.utf8Bytes (withScript front second back)) canonicalUrl := by
  have views := views_unread unread
  have page (text : Str) : (if baseContentType contentType = "text/html".toList ∨
      baseContentType contentType = "application/xhtml+xml".toList then
        some (Utf8.fromUtf8Lossy (Percent.utf8Bytes (withScript front text back))) else none) =
      some (withScript front text back) := by
    rw [if_pos (.inl html), Utf8.fromUtf8Lossy_utf8Bytes]
  rw [baseContentType] at page
  unfold extractSemanticDocument
  rw [extractText_html serde (.inl html), extractText_html serde (.inl html),
    removeIgnoredHtmlBlocks_withScript front back cleanFirst cleanSecond]
  dsimp only
  rw [page, page, views.1, views.2]

/-- Where no scan of the page for its title and headings reads a script, the document says nothing
of what the script is; else a scan reads an element in one of the scripts. -/
theorem semantic_ignores_script (unicode : Unicode) (serde : SerdeJson) (crate : UrlCrate)
    {contentType : Str} (html : baseContentType contentType = "text/html".toList)
    (front back canonicalUrl : Str) {first second : Str} (cleanFirst : ScriptText first)
    (cleanSecond : ScriptText second) :
    ((∀ scan ∈ scans, Unread scan front back first second) →
      extractSemanticDocument unicode serde crate contentType
          (Percent.utf8Bytes (withScript front first back)) canonicalUrl =
        extractSemanticDocument unicode serde crate contentType
          (Percent.utf8Bytes (withScript front second back)) canonicalUrl ∧
      pageHeadings (some (withScript front first back)) =
        pageHeadings (some (withScript front second back))) ∧
    ((¬∀ scan ∈ scans, Unread scan front back first second) →
      ∃ scan ∈ scans, ScriptRead scan front first back ∨ ScriptRead scan front second back) := by
  refine ⟨fun unread => ⟨?_, (views_unread unread).2⟩, fun read => ?_⟩
  · exact document_unread unicode serde crate html canonicalUrl cleanFirst cleanSecond unread
  · simp only [not_forall] at read
    obtain ⟨scan, member, read⟩ := read
    exact ⟨scan, member,
      (unread_or_read (scans_plain scan member).2 front back first second).resolve_left read⟩

def titled (title : Str) : Str :=
  withScript "<p>Ab cd".toList ("<title>".toList ++ title ++ "</title>".toList) []

def viewsOf (page : Str) : Option (SemanticDocument EmbeddingInput) :=
  (extractSemanticDocument Unicode.ascii ⟨fun _ => .error []⟩ blogCrate "text/html".toList
    (Percent.utf8Bytes page) "https://example.com/blog".toList).toOption

/-- A title that only a script writes is the title of the document. -/
theorem script_titles_page :
    ScriptText "<title>Sun</title>".toList ∧ ScriptText "<title>Rain</title>".toList ∧
      (viewsOf (titled "Sun".toList)).map (·.title) = some (some "Sun".toList) ∧
      (viewsOf (titled "Rain".toList)).map (·.title) = some (some "Rain".toList) ∧
      (viewsOf (titled "Sun".toList)).map (·.contentText) = some "Ab cd".toList ∧
      (viewsOf (titled "Rain".toList)).map (·.contentText) = some "Ab cd".toList ∧
      (viewsOf (titled "Sun".toList)).map (·.embeddingInputs) ≠
        (viewsOf (titled "Rain".toList)).map (·.embeddingInputs) := by
  refine ⟨by unfold ScriptText; decide, by unfold ScriptText; decide, ?_⟩
  decide +kernel

/-- A heading that is left open before the script, with two closed elements before it. -/
def newsFront : Str := "<title>Acme</title><h2>News</h2><h1>Ab cd".toList

theorem newsFront_unread : ∀ scan ∈ scans,
    Unread scan newsFront "<p>tail".toList "one()".toList "two(<h3>, <h1></h1 >)".toList := by
  have silent (tag rest text : Str)
      (absent : NoElement tag (rest ++ "<script>".toList ++ text) ("</script>".toList ++ "<p>tail".toList)) :
      Silent tag rest text "<p>tail".toList :=
    ⟨[], [], _, rfl, .nil, fun _ member => absurd member List.not_mem_nil, absent⟩
  simp only [scans, List.forall_mem_cons]
  refine ⟨?title, ?h1, ?h2, ?h3, fun _ member => absurd member List.not_mem_nil⟩
  case title =>
    exact ⟨_, ["Acme".toList], "<h2>News</h2><h1>Ab cd".toList, rfl,
      @Elements.one _ [] "<title>Acme</title>".toList _ (by decide) (by decide +kernel),
      .inl (by decide +kernel)⟩
  case h1 =>
    exact ⟨[], [], _, rfl, .nil, .inr ⟨silent _ _ _ (by decide +kernel), silent _ _ _ (by decide +kernel)⟩⟩
  case h2 =>
    exact ⟨_, ["News".toList], "<h1>Ab cd".toList, rfl,
      @Elements.one _ "<title>Acme</title>".toList "<h2>News</h2>".toList _ (by decide +kernel)
        (by decide +kernel),
      .inr ⟨silent _ _ _ (by decide +kernel), silent _ _ _ (by decide +kernel)⟩⟩
  case h3 =>
    exact ⟨[], [], _, rfl, .nil, .inr ⟨silent _ _ _ (by decide +kernel), silent _ _ _ (by decide +kernel)⟩⟩

theorem semantic_ignores_script_news :
    extractSemanticDocument Unicode.ascii ⟨fun _ => .error []⟩ blogCrate "text/html".toList
        (Percent.utf8Bytes (withScript newsFront "one()".toList "<p>tail".toList))
        "https://example.com/blog".toList =
      extractSemanticDocument Unicode.ascii ⟨fun _ => .error []⟩ blogCrate "text/html".toList
        (Percent.utf8Bytes
          (withScript newsFront "two(<h3>, <h1></h1 >)".toList "<p>tail".toList))
        "https://example.com/blog".toList ∧
    pageHeadings (some (withScript newsFront "one()".toList "<p>tail".toList)) =
      pageHeadings (some (withScript newsFront "two(<h3>, <h1></h1 >)".toList "<p>tail".toList)) :=
  (semantic_ignores_script _ _ _ (by decide) newsFront _ _ (by unfold ScriptText; decide)
    (by unfold ScriptText; decide)).1 newsFront_unread

end EalSync.Ingestion
