import EalSync.Ingestion.Blocks
import EalSync.Lib.Words

/-! The words that the extraction leaves of marked-up text. An angle parts them, whatever stands
around it, since it becomes a space and no entity reaches across a space. -/
namespace EalSync.Ingestion

open Words

abbrev wordsOf (s : Str) : List Str := words Str.isWhitespace s

theorem spaced_grow (ws : List Str) (w : Str) (c : Char) :
    spaced ' ' (ws ++ [w]) ++ [c] = spaced ' ' (ws ++ [w ++ [c]]) := by
  by_cases first : ws = []
  · subst first
    simp [spaced]
  · rw [spaced_concat w first, spaced_concat (w ++ [c]) first]
    simp

theorem spaced_next (ws : List Str) (c : Char) :
    spaced ' ' ws ++ (if ws = [] then [] else [' ']) ++ [c] = spaced ' ' (ws ++ [[c]]) := by
  by_cases first : ws = []
  · subst first
    simp [spaced]
  · rw [spaced_concat [c] first, if_neg first]
    simp

theorem spaced_isEmpty {ws : List Str} (parts : ∀ w ∈ ws, w ≠ []) :
    (spaced ' ' ws).isEmpty = decide (ws = []) := by
  rw [Bool.eq_iff_iff, List.isEmpty_iff, spaced_eq_nil parts, decide_eq_true_eq]

/-- The scan inside a word, and between two words, by one induction. -/
theorem collapse_eq (s : Str) : ∀ ws : List Str, (∀ w ∈ ws, w ≠ []) →
    (∀ w, w ≠ [] → Solid Str.isWhitespace w →
      collapse (spaced ' ' (ws ++ [w])) false s = spaced ' ' (ws ++ wordsOf (w ++ s))) ∧
    collapse (spaced ' ' ws) (!decide (ws = [])) s = spaced ' ' (ws ++ wordsOf s) := by
  induction s with
  | nil =>
    intro ws parts
    refine ⟨fun w nonempty solid => ?_, ?_⟩
    · rw [collapse, List.append_nil, wordsOf, words_solid solid nonempty]
    · rw [collapse, wordsOf, words_nil, List.append_nil]
  | cons c rest ih =>
    intro ws parts
    have grown (w : Str) (nonempty : w ≠ []) : ∀ x ∈ ws ++ [w], x ≠ [] := by
      simpa [or_imp, forall_and] using ⟨parts, nonempty⟩
    cases blank : Str.isWhitespace c with
    | true =>
      refine ⟨fun w nonempty solid => ?_, ?_⟩
      · have later := (ih (ws ++ [w]) (grown w nonempty)).2
        rw [collapse, if_pos blank, spaced_isEmpty (grown w nonempty), later, wordsOf, wordsOf,
          words_append blank, words_solid solid nonempty, List.append_assoc]
      · rw [collapse, if_pos blank, spaced_isEmpty parts, (ih ws parts).2, wordsOf, wordsOf,
          words_cons_space blank]
    | false =>
      have off : ¬Str.isWhitespace c = true := by simp [blank]
      refine ⟨fun w nonempty solid => ?_, ?_⟩
      · have later := (ih ws parts).1 (w ++ [c]) (by simp) (solid_concat solid blank)
        rw [collapse, if_neg off, if_neg Bool.false_ne_true, List.append_nil, spaced_grow, later,
          List.append_assoc]
        rfl
      · have alone : Solid Str.isWhitespace [c] := by simpa [Solid] using blank
        have later := (ih ws parts).1 [c] (by simp) alone
        rw [← List.singleton_append, ← later, ← spaced_next, List.singleton_append, collapse, if_neg off]
        by_cases first : ws = [] <;> simp [first]

theorem collapseWhitespace_eq (s : Str) : collapseWhitespace s = spaced ' ' (wordsOf s) :=
  (collapse_eq s [] (by simp)).2

theorem wordsOf_spaced (s : Str) : wordsOf (spaced ' ' (wordsOf s)) = wordsOf s :=
  words_spaced (by decide) fun _ member => mem_words member

theorem tidy_wordsOf (s : Str) : Tidy Str.isWhitespace (spaced ' ' (wordsOf s)) :=
  tidy_spaced ' ' fun _ member => mem_words member

/-- Whether a scan ends inside a tag. -/
def leaves : Bool → Str → Bool
  | insideTag, [] => insideTag
  | insideTag, c :: rest => leaves (if c = '<' then true else if c = '>' then false else insideTag) rest

theorem strip_append (insideTag : Bool) (front back : Str) :
    strip insideTag (front ++ back) = strip insideTag front ++ strip (leaves insideTag front) back := by
  induction front generalizing insideTag with
  | nil => rfl
  | cons c rest ih =>
    simp only [List.cons_append, strip, leaves]
    split
    · rw [ih, List.cons_append]
    · split
      · rw [ih, List.cons_append]
      · split
        · exact ih insideTag
        · rw [ih, List.cons_append]

/-- An entity that a separator is not part of is replaced on each side of it. -/
theorem decode_before {sep : Char} (other : ∀ entity ∈ commonEntities, sep ∉ entity.1)
    (front back : Str) :
    decodeCommonEntities (front ++ sep :: back) =
      decodeCommonEntities front ++ sep :: decodeCommonEntities back := by
  have nonempty : ∀ entity ∈ commonEntities, entity.1 ≠ [] := by decide
  unfold decodeCommonEntities
  generalize commonEntities = entities at other nonempty ⊢
  induction entities generalizing front back with
  | nil => rfl
  | cons entity rest ih =>
    rw [List.forall_mem_cons] at other nonempty
    simp only [List.foldl_cons]
    rw [Search.replace_before _ nonempty.1 other.1, ih _ _ other.2 nonempty.2]

theorem decode_eq_self {s : Str} (plain : '&' ∉ s) : decodeCommonEntities s = s := by
  have begins : ∀ entity ∈ commonEntities, '&' ∈ entity.1 := by decide
  unfold decodeCommonEntities
  generalize commonEntities = entities at begins ⊢
  induction entities with
  | nil => rfl
  | cons entity rest ih =>
    rw [List.forall_mem_cons] at begins
    have absent : ¬entity.1 <:+: s := fun inside => plain (inside.subset begins.1)
    rw [List.foldl_cons, Search.replace_eq_self _ absent]
    exact ih begins.2

/-- The words that a scan leaves of a text, from outside or from inside a tag. -/
def seen (insideTag : Bool) (s : Str) : List Str := wordsOf (decodeCommonEntities (strip insideTag s))

theorem words_spaced_seen (insideTag : Bool) (s : Str) :
    words Str.isWhitespace (spaced ' ' (seen insideTag s)) = seen insideTag s :=
  wordsOf_spaced _

theorem seen_nil (insideTag : Bool) : seen insideTag [] = [] := by
  cases insideTag <;> decide

theorem seen_space (insideTag : Bool) {front back : Str} {next : Bool} {s : Str}
    (split : strip insideTag s = strip insideTag front ++ ' ' :: strip next back) :
    seen insideTag s = seen insideTag front ++ seen next back := by
  rw [seen, split, decode_before (by decide), wordsOf, words_append (by decide)]
  rfl

theorem seen_open (insideTag : Bool) (front back : Str) :
    seen insideTag (front ++ '<' :: back) = seen insideTag front ++ seen true back :=
  seen_space insideTag (by rw [strip_append, strip, if_pos rfl])

theorem seen_close (insideTag : Bool) (front back : Str) :
    seen insideTag (front ++ '>' :: back) = seen insideTag front ++ seen false back :=
  seen_space insideTag (by rw [strip_append, strip, if_neg (by decide), if_pos rfl])

/-- The tags of a document by what stands between their angles, each with the text after it. -/
def renderTags (tags : List (Str × Str)) : Str :=
  tags.flatMap fun tag => '<' :: (tag.1 ++ '>' :: tag.2)

/-- A tag, whatever stands in it, parts what is before it from what is after it. -/
theorem seen_tags (front : Str) (tags : List (Str × Str)) :
    seen false (front ++ renderTags tags) =
      seen false front ++ tags.flatMap fun tag => seen true tag.1 ++ seen false tag.2 := by
  induction tags generalizing front with
  | nil => simp [renderTags]
  | cons tag rest ih =>
    rw [renderTags, List.flatMap_cons, List.cons_append, List.append_assoc, List.cons_append,
      seen_open, seen_close, ← renderTags, ih, List.flatMap_cons, List.append_assoc]

theorem strip_false {s : Str} (plain : '<' ∉ s ∧ '>' ∉ s) : strip false s = s := by
  induction s with
  | nil => rfl
  | cons c rest ih =>
    simp only [List.mem_cons, not_or] at plain
    rw [strip, if_neg (Ne.symm plain.1.1), if_neg (Ne.symm plain.2.1), if_neg Bool.false_ne_true,
      ih ⟨plain.1.2, plain.2.2⟩]

theorem strip_true {s : Str} (plain : '<' ∉ s ∧ '>' ∉ s) : strip true s = [] := by
  induction s with
  | nil => rfl
  | cons c rest ih =>
    simp only [List.mem_cons, not_or] at plain
    rw [strip, if_neg (Ne.symm plain.1.1), if_neg (Ne.symm plain.2.1), if_pos rfl,
      ih ⟨plain.1.2, plain.2.2⟩]

/-- Characters that need no escape. -/
structure CharData where
  text : Str
  plain : '<' ∉ text ∧ '>' ∉ text
  simple : '&' ∉ text

def CharData.empty : CharData := ⟨[], by decide, by decide⟩

/-- Text without markup is seen as it is. -/
theorem seen_text (data : CharData) : seen false data.text = wordsOf data.text := by
  rw [seen, strip_false data.plain, decode_eq_self data.simple]

theorem seen_hidden {s : Str} (plain : '<' ∉ s ∧ '>' ∉ s) : seen true s = [] := by
  rw [seen, strip_true plain]
  exact seen_nil true

end EalSync.Ingestion
