import EalSync.Ingestion.Blocks
import EalSync.Std.Slice

/-! What remove_ignored_html_blocks leaves of a text: the loop on byte offsets as the source runs it,
and the text it returns against the one it was given. -/
namespace EalSync.Ingestion

/-- One turn of the loop on byte offsets: a panic, the break, or the text that is scanned next. -/
def removalTurn (tag output : Str) : Option (Option Str) :=
  let lowered := Str.toAsciiLowercase output
  match Str.find (openingOf tag) lowered with
  | none => some none
  | some start =>
    match Str.sliceFrom start lowered with
    | none => none
    | some rest =>
      let stop := ((Str.find (closingOf tag) rest).map fun relative =>
        start + relative + Str.len (closingOf tag)).getD (Str.len output)
      (Str.replaceRange output start stop [' ']).map some

/-- The range of the turn, when there is one, is cut out. -/
theorem removalTurn_eq (tag output : Str) :
    removalTurn tag output = some ((Search.find (openingOf tag) (Str.toAsciiLowercase output)).map
      fun start => blank output start (blockEnd tag output start)) := by
  unfold removalTurn Str.find
  dsimp only
  cases found : Search.find (openingOf tag) (Str.toAsciiLowercase output) with
  | none => rfl
  | some start =>
    obtain ⟨front, block, rfl, rfl, _⟩ := opening_at found
    have offset : Str.len ((Str.toAsciiLowercase (front ++ '<' :: block)).take front.length) =
        Str.len front := by
      rw [lower_append, ← lower_length front, List.take_left, Str.len_toAsciiLowercase]
    have slice := Str.sliceFrom_len (Str.toAsciiLowercase front) (Str.toAsciiLowercase ('<' :: block))
    rw [Str.len_toAsciiLowercase, ← lower_append] at slice
    simp only [Option.map_some, offset, slice]
    cases closes : Search.find (closingOf tag) (Str.toAsciiLowercase ('<' :: block)) with
    | none =>
      have whole := Str.replaceRange_len front ('<' :: block) [] [' ']
      have stop : blockEnd tag (front ++ '<' :: block) front.length = (front ++ '<' :: block).length := by
        rw [blockEnd, lower_append, ← lower_length front, List.drop_left, closes]
        rfl
      rw [List.append_nil, List.append_nil] at whole
      rw [Option.map_none, Option.map_none, Option.getD_none, Str.len_append, whole, stop, blank, List.take_left,
        List.drop_length]
      rfl
    | some relative =>
      obtain ⟨before, after, same, rfl⟩ := Search.find_split closes
      have cut := Str.replaceRange_len front
        (('<' :: block).take (before.length + (closingOf tag).length))
        (('<' :: block).drop (before.length + (closingOf tag).length)) [' ']
      have taken : Str.len (('<' :: block).take (before.length + (closingOf tag).length)) =
          Str.len before + Str.len (closingOf tag) := by
        rw [← Str.len_toAsciiLowercase, Str.toAsciiLowercase, List.map_take]
        change Str.len ((Str.toAsciiLowercase ('<' :: block)).take _) = _
        rw [same, ← List.length_append, List.take_left, Str.len_append]
      rw [taken, List.take_append_drop, ← Nat.add_assoc] at cut
      rw [blank_closed front closes, same, Option.map_some, Option.map_some, Option.getD_some,
        List.append_assoc, List.take_left, cut]
      simp

/-- The loop of the blocks of one tag on byte offsets. -/
def removeBlocksSliced (tag output : Str) : Option Str :=
  match _turn : removalTurn tag output with
  | none => none
  | some none => some output
  | some (some next) => removeBlocksSliced tag next
termination_by output.count '<'
decreasing_by
  rw [removalTurn_eq, Option.some_inj, Option.map_eq_some_iff] at _turn
  obtain ⟨start, found, rfl⟩ := _turn
  exact count_blank found

def removeIgnoredHtmlBlocksSliced (input : Str) : Option Str :=
  ignoredTags.foldlM (fun output tag => removeBlocksSliced tag output) input

theorem removeBlocksSliced_eq (tag output : Str) :
    removeBlocksSliced tag output = some (removeBlocks tag output) := by
  induction output using removeBlocks.induct tag with
  | case1 output none =>
    rw [removeBlocks_absent (Search.find_eq_none.mp none), removeBlocksSliced, removalTurn_eq, none]
    rfl
  | case2 output start found ih =>
    rw [removeBlocks_found found, removeBlocksSliced, removalTurn_eq, found]
    exact ih

theorem removeIgnoredHtmlBlocksSliced_eq (input : Str) :
    removeIgnoredHtmlBlocksSliced input = some (removeIgnoredHtmlBlocks input) := by
  unfold removeIgnoredHtmlBlocksSliced removeIgnoredHtmlBlocks
  generalize ignoredTags = tags
  induction tags generalizing input with
  | nil => rfl
  | cons tag rest ih =>
    rw [List.foldlM_cons, removeBlocksSliced_eq, List.foldl_cons]
    exact ih (removeBlocks tag input)

/-- The text begins with an opening of an ignored tag. -/
def Opens (s : Str) : Prop := ∃ tag ∈ ignoredTags, openingOf tag <+: Str.toAsciiLowercase s

/-- An opening of an ignored tag occurs in the text. -/
def HasOpening (s : Str) : Prop := ∃ tag ∈ ignoredTags, openingOf tag <:+: Str.toAsciiLowercase s

/-- The second text is the first with a space for each of some parts, apart from each other, that
begin at an opening. -/
inductive Blanked : Str → Str → Prop where
  | nil : Blanked [] []
  | keep (c : Char) {s t : Str} (rest : Blanked s t) : Blanked (c :: s) (c :: t)
  | cut (block : Str) {s t : Str} (opens : Opens block) (rest : Blanked s t) :
      Blanked (block ++ s) (' ' :: t)

namespace Blanked

theorem refl (s : Str) : Blanked s s := by
  induction s with
  | nil => exact .nil
  | cons c rest ih => exact .keep c ih

theorem append {s t u v : Str} (first : Blanked s t) (second : Blanked u v) :
    Blanked (s ++ u) (t ++ v) := by
  induction first with
  | nil => exact second
  | keep c _ ih => exact .keep c ih
  | cut block opens _ ih =>
    rw [List.append_assoc]
    exact .cut block opens ih

/-- A part of the second text comes from a part of the first. -/
theorem split {s front back : Str} (h : Blanked s (front ++ back)) :
    ∃ u v, s = u ++ v ∧ Blanked u front ∧ Blanked v back := by
  generalize whole : front ++ back = t at h
  induction h generalizing front with
  | nil =>
    obtain ⟨rfl, rfl⟩ := List.append_eq_nil_iff.mp whole
    exact ⟨[], [], rfl, .nil, .nil⟩
  | keep c rest ih =>
    rcases List.append_eq_cons_iff.mp whole with ⟨rfl, rfl⟩ | ⟨front, rfl, same⟩
    · exact ⟨[], _, rfl, .nil, .keep c rest⟩
    · obtain ⟨u, v, rfl, before, after⟩ := ih same.symm
      exact ⟨c :: u, v, rfl, .keep c before, after⟩
  | cut block opens rest ih =>
    rcases List.append_eq_cons_iff.mp whole with ⟨rfl, rfl⟩ | ⟨front, rfl, same⟩
    · exact ⟨[], _, rfl, .nil, .cut block opens rest⟩
    · obtain ⟨u, v, rfl, before, after⟩ := ih same.symm
      exact ⟨block ++ u, v, by rw [List.append_assoc], .cut block opens before, after⟩

/-- What has no space in it was there before. -/
theorem prefix_of_spaceless {s t pat : Str} (h : Blanked s t) (spaceless : ' ' ∉ pat)
    (begins : pat <+: Str.toAsciiLowercase t) : pat <+: Str.toAsciiLowercase s := by
  induction h generalizing pat with
  | nil => exact begins
  | keep c _ ih =>
    cases pat with
    | nil => exact List.nil_prefix
    | cons x pat =>
      rw [Str.toAsciiLowercase, List.map_cons, List.cons_prefix_cons] at begins ⊢
      exact ⟨begins.1, ih (fun member => spaceless (List.mem_cons_of_mem x member)) begins.2⟩
  | cut block _ _ _ =>
    cases pat with
    | nil => exact List.nil_prefix
    | cons x pat =>
      rw [Str.toAsciiLowercase, List.map_cons, List.cons_prefix_cons] at begins
      exact absurd (by rw [begins.1]; exact List.mem_cons_self) spaceless

/-- One more block cut out of what is left. -/
theorem step {s front block back : Str} (h : Blanked s (front ++ (block ++ back)))
    (opens : Opens block) : Blanked s (front ++ ' ' :: back) := by
  obtain ⟨u, rest, rfl, before, later⟩ := h.split
  obtain ⟨v, w, rfl, middle, after⟩ := later.split
  obtain ⟨tag, ignored, begins⟩ := opens
  have spaceless := (ignored_nameable tag ignored).not_mem_opening (c := ' ') rfl (by decide)
  exact before.append (.cut v ⟨tag, ignored, middle.prefix_of_spaceless spaceless begins⟩ after)

end Blanked

theorem removeBlocks_lower_keeps {tag pat : Str} (spaceless : ' ' ∉ pat) {s : Str}
    (absent : ¬pat <:+: Str.toAsciiLowercase s) : ¬pat <:+: Str.toAsciiLowercase (removeBlocks tag s) := by
  refine removeBlocks_preserves (P := fun s => ¬pat <:+: Str.toAsciiLowercase s) ?_ absent
  intro front block back _ before inside
  rw [lower_append, Str.toAsciiLowercase, Str.toAsciiLowercase, List.map_cons] at inside
  rcases (Search.infix_around spaceless).mp inside with left | right
  · rw [lower_append] at before
    exact before (left.trans (List.prefix_append _ _).isInfix)
  · rw [lower_append, lower_append] at before
    exact before (right.trans ((List.suffix_append _ _).trans (List.suffix_append _ _)).isInfix)

theorem removeBlocks_clean (tag s : Str) :
    ¬openingOf tag <:+: Str.toAsciiLowercase (removeBlocks tag s) := by
  induction s using removeBlocks.induct tag with
  | case1 s none =>
    rw [removeBlocks_absent (Search.find_eq_none.mp none)]
    exact Search.find_eq_none.mp none
  | case2 s start found ih => rwa [removeBlocks_found found]

section

variable {tags : List Str}

theorem removal_keeps {pat : Str} (spaceless : ' ' ∉ pat) {s : Str}
    (absent : ¬pat <:+: Str.toAsciiLowercase s) :
    ¬pat <:+: Str.toAsciiLowercase (tags.foldl (fun output tag => removeBlocks tag output) s) := by
  induction tags generalizing s with
  | nil => exact absent
  | cons tag rest ih => exact ih (removeBlocks_lower_keeps spaceless absent)

/-- No later pass brings back what an earlier one took out. -/
theorem removal_clean (ignored : tags ⊆ ignoredTags) {tag : Str} (member : tag ∈ tags) (s : Str) :
    ¬openingOf tag <:+:
      Str.toAsciiLowercase (tags.foldl (fun output tag => removeBlocks tag output) s) := by
  induction tags generalizing s with
  | nil => cases member
  | cons first rest ih =>
    rw [List.cons_subset] at ignored
    rcases List.mem_cons.mp member with rfl | later
    · have named := ignored_nameable tag ignored.1
      rw [List.foldl_cons]
      exact removal_keeps (named.not_mem_opening rfl (by decide)) (removeBlocks_clean tag s)
    · exact ih ignored.2 later (removeBlocks first s)

theorem removal_blanked (ignored : tags ⊆ ignoredTags) {h s : Str} (blanked : Blanked h s) :
    Blanked h (tags.foldl (fun output tag => removeBlocks tag output) s) := by
  induction tags generalizing s with
  | nil => exact blanked
  | cons tag rest ih =>
    rw [List.cons_subset] at ignored
    apply ih ignored.2
    exact removeBlocks_preserves (fun _ _ _ begins before => before.step ⟨tag, ignored.1, begins⟩)
      blanked

theorem removal_absent {s : Str} (absent : ∀ tag ∈ tags, ¬openingOf tag <:+: Str.toAsciiLowercase s) :
    tags.foldl (fun output tag => removeBlocks tag output) s = s := by
  induction tags with
  | nil => rfl
  | cons tag rest ih =>
    rw [List.forall_mem_cons] at absent
    rw [List.foldl_cons, removeBlocks_absent absent.1, ih absent.2]

end

/-- The removal does not panic on an offset, leaves no opening, and puts a space for each of some
parts of the text that begin at one. -/
theorem removeIgnoredHtmlBlocks_cuts (h : Str) :
    removeIgnoredHtmlBlocksSliced h = some (removeIgnoredHtmlBlocks h) ∧
      ¬HasOpening (removeIgnoredHtmlBlocks h) ∧ Blanked h (removeIgnoredHtmlBlocks h) := by
  refine ⟨removeIgnoredHtmlBlocksSliced_eq h, ?_, removal_blanked (List.Subset.refl _) (.refl h)⟩
  rintro ⟨tag, ignored, inside⟩
  exact removal_clean (List.Subset.refl _) ignored h inside

theorem removeIgnoredHtmlBlocks_eq_self {h : Str} :
    removeIgnoredHtmlBlocks h = h ↔ ¬HasOpening h := by
  constructor
  · rintro same ⟨tag, ignored, inside⟩
    rw [← same] at inside
    exact removal_clean (List.Subset.refl _) ignored h inside
  · exact fun clean => removal_absent fun tag ignored inside => clean ⟨tag, ignored, inside⟩

/-- What may follow the name of an ignored tag in the name of another element. -/
def nameGoesOn (c : Char) : Bool := Char.isAlphanum c || c == '-' || c == ':'

/-- Every occurrence of an angle and the name of an ignored tag goes on to a longer name. -/
def LongerNames (h : Str) : Prop :=
  ∀ rest ∈ (Str.toAsciiLowercase h).tails, ∀ tag ∈ ignoredTags, openingOf tag <+: rest →
    rest[(openingOf tag).length]?.any nameGoesOn = true

/-- What follows a custom element is lost. -/
theorem removeIgnoredHtmlBlocks_custom_element :
    LongerNames "<p>Old<svg-icon></svg-icon><p>New".toList ∧
      removeIgnoredHtmlBlocks "<p>Old<svg-icon></svg-icon><p>New".toList = "<p>Old ".toList ∧
      "<p>Old ".toList ≠ "<p>Old<svg-icon></svg-icon><p>New".toList := by
  refine ⟨?_, by decide +kernel, by decide⟩
  unfold LongerNames
  decide

end EalSync.Ingestion
