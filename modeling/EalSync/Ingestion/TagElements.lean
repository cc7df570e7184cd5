import EalSync.Ingestion.Blocks
import EalSync.Ingestion.TagScan

/-! The elements of one name that extract_tag_texts finds in a page, as they stand in it. -/
namespace EalSync.Ingestion.SemanticViews

/-- An opening tag of this name stands here. -/
def opens (tag text : Str) : Bool :=
  (openingOf tag).isPrefixOf (Str.toAsciiLowercase text) &&
    tagBoundary (Str.toAsciiLowercase text)[(openingOf tag).length]?

/-- The content of the element that begins here, and the rest behind it. -/
def elementHere (tag text : Str) : Option (Str × Str) :=
  if opens tag text then elementAt tag text else none

/-- Where an opening tag stands in the text, no end tag follows, in the text or behind it. -/
def NoElement (tag text behind : Str) : Prop :=
  ∀ n < text.length, elementHere tag (text.drop n ++ behind) = none

instance (tag text behind : Str) : Decidable (NoElement tag text behind) :=
  inferInstanceAs (Decidable (∀ n < text.length, _))

/-- No opening tag stands in the text. -/
def Unopened (tag text : Str) : Prop := ∀ n < text.length, opens tag (text.drop n) = false

instance (tag text : Str) : Decidable (Unopened tag text) :=
  inferInstanceAs (Decidable (∀ n < text.length, _))

/-- A text that is made up of whole elements, each behind text where none opens, and their contents. -/
inductive Elements (tag : Str) : Str → List Str → Prop where
  | nil : Elements tag [] []
  | cons {gap element content rest : Str} {contents : List Str} (unopened : Unopened tag gap)
      (whole : elementHere tag element = some (content, [])) (later : Elements tag rest contents) :
      Elements tag (gap ++ (element ++ rest)) (content :: contents)

/-- No end tag of this name stands behind a closing angle. -/
def Unended (tag text : Str) : Prop :=
  ∀ before after, Str.toAsciiLowercase text = before ++ '>' :: after → ¬closingOf tag <:+: after

theorem Unended.suffix {tag front text : Str} (unended : Unended tag (front ++ text)) :
    Unended tag text := by
  intro before after same
  apply unended (Str.toAsciiLowercase front ++ before) after
  rw [lower_append, same, List.append_assoc]

theorem elementAt_eq_none {tag text : Str} : elementAt tag text = none ↔ Unended tag text := by
  rw [elementAt]
  cases found : Search.find ['>'] (Str.toAsciiLowercase text) with
  | none =>
    refine iff_of_true rfl fun before after same _ => Search.find_eq_none.mp found ?_
    exact ⟨before, after, by rw [same, List.append_assoc, List.singleton_append]⟩
  | some openEnd =>
    have behind : Str.toAsciiLowercase (text.drop (openEnd + 1)) =
        (Str.toAsciiLowercase text).drop (openEnd + 1) := List.map_drop
    dsimp only
    rw [behind]
    cases closes : Search.find (closingOf tag) ((Str.toAsciiLowercase text).drop (openEnd + 1)) with
    | none =>
      refine iff_of_true rfl fun before after same inside => Search.find_eq_none.mp closes ?_
      -- the first closing angle has behind it all that stands behind another
      have first : openEnd ≤ before.length := by
        rw [same, List.append_cons] at found
        exact Search.find_first found
      have rest : (before ++ '>' :: after).drop (before.length + 1) = after := by simp
      have suffix := List.drop_suffix_drop_left (before ++ '>' :: after) (Nat.succ_le_succ first)
      rw [rest, ← same] at suffix
      exact inside.trans suffix.isInfix
    | some close =>
      refine iff_of_false (by simp) fun unended => ?_
      obtain ⟨before, after, split, size⟩ := Search.find_split found
      rw [List.append_assoc, List.singleton_append] at split
      have inside : closingOf tag <:+: (Str.toAsciiLowercase text).drop (openEnd + 1) := by
        by_contra absent
        rw [Search.find_eq_none.mpr absent] at closes
        cases closes
      rw [split, ← size, List.drop_append, List.drop_eq_nil_of_le (Nat.le_succ _)] at inside
      exact unended before after split (by simpa using inside)

theorem tagTexts_zero (tag text : Str) : tagTexts tag 0 text = [] := by rw [tagTexts_eq, if_pos rfl]

/-- Where an opening tag is not closed, nothing behind it is. -/
theorem tagTexts_unended {tag text : Str} (unended : Unended tag text) (limit : Nat) :
    tagTexts tag limit text = [] := by
  have later (n : Nat) : Unended tag (text.drop n) :=
    @Unended.suffix tag (text.take n) _ (by rwa [List.take_append_drop])
  fun_induction tagTexts tag limit text with
  | case1 => rfl
  | case2 => rfl
  | case3 _ _ _ _ _ _ ih =>
    exact ih (later _) fun n => by rw [List.drop_drop]; exact later _
  | case4 => rfl
  | case5 _ _ _ opened _ _ _ _ inside =>
    rw [elementAt_eq_none.mpr (later opened)] at inside
    cases inside
  | case6 _ _ _ opened _ _ _ _ inside =>
    rw [elementAt_eq_none.mpr (later opened)] at inside
    cases inside

theorem headed_opening {tag : Str} (plain : '<' ∉ tag) : Search.Headed (openingOf tag) :=
  ⟨'<', tag, rfl, plain⟩

/-- An opening angle is no boundary, and neither is the end of the text. -/
theorem boundary_append (front back : Str) {i : Nat} (room : i ≤ front.length) :
    tagBoundary (Str.toAsciiLowercase (front ++ '<' :: back))[i]? =
      tagBoundary (Str.toAsciiLowercase front)[i]? := by
  rw [lower_append]
  rcases Nat.lt_or_eq_of_le room with inside | rfl
  · rw [List.getElem?_append_left (by rw [lower_length]; exact inside)]
  · rw [← lower_length front, List.getElem?_append_right (Nat.le_refl _), Nat.sub_self,
      List.getElem?_eq_none (Nat.le_refl _)]
    rfl

theorem opens_append {tag text : Str} (plain : '<' ∉ tag) (some : text ≠ []) (back : Str) :
    opens tag (text ++ '<' :: back) = opens tag text := by
  have apart : Search.Apart (openingOf tag) (Str.toAsciiLowercase text)
      (Str.toAsciiLowercase ('<' :: back)) :=
    Search.apart_of_head (headed_opening plain) _ (.inl rfl)
  rw [Bool.eq_iff_iff, opens, opens, Bool.and_eq_true, Bool.and_eq_true, List.isPrefixOf_iff_prefix,
    List.isPrefixOf_iff_prefix]
  have named : openingOf tag <+: Str.toAsciiLowercase (text ++ '<' :: back) ↔
      openingOf tag <+: Str.toAsciiLowercase text := by
    rw [lower_append]
    refine ⟨apart _ (List.map_eq_nil_iff.not.mpr some) List.suffix_rfl, fun begins => ?_⟩
    exact begins.trans (List.prefix_append ..)
  rw [named]
  refine and_congr_right fun begins => ?_
  have room := begins.length_le
  rw [lower_length] at room
  rw [boundary_append text back room]

/-- A round that finds an opening angle and the name reads an element there, or goes on behind it. -/
theorem tagRead_found {tag text : Str} {opened : Nat}
    (found : Search.find (openingOf tag) (Str.toAsciiLowercase text) = some opened) :
    tagRead tag text =
      if opens tag (text.drop opened) then
        (elementAt tag (text.drop opened)).map fun element => (elementText element.1, element.2)
      else some (none, text.drop (opened + (openingOf tag).length)) := by
  obtain ⟨front, back, split, size⟩ := Search.find_split found
  have behind : Str.toAsciiLowercase (text.drop opened) = openingOf tag ++ back := by
    rw [← size, Str.toAsciiLowercase, List.map_drop]
    rw [Str.toAsciiLowercase] at split
    rw [split, List.append_assoc, List.drop_left]
  have named : (openingOf tag).isPrefixOf (Str.toAsciiLowercase (text.drop opened)) = true := by
    rw [List.isPrefixOf_iff_prefix, behind]
    exact List.prefix_append ..
  have boundary : (Str.toAsciiLowercase (text.drop opened))[(openingOf tag).length]? =
      (Str.toAsciiLowercase text)[opened + (openingOf tag).length]? := by
    rw [Str.toAsciiLowercase, List.map_drop, List.getElem?_drop]
    rfl
  rw [tagRead, found]
  dsimp only
  rw [opens, named, Bool.true_and, boundary]
  cases tagBoundary (Str.toAsciiLowercase text)[opened + (openingOf tag).length]? <;> rfl

/-- Text without an opening tag is passed over. -/
theorem tagRead_behind {tag front : Str} (plain : '<' ∉ tag)
    (absent : Search.find (openingOf tag) (Str.toAsciiLowercase front) = none) (back : Str) :
    tagRead tag (front ++ '<' :: back) = tagRead tag ('<' :: back) := by
  have apart : Search.Apart (openingOf tag) (Str.toAsciiLowercase front)
      (Str.toAsciiLowercase ('<' :: back)) :=
    Search.apart_of_head (headed_opening plain) _ (.inl rfl)
  have found := Search.find_append_right apart (Search.find_eq_none.mp absent)
  rw [← lower_append, lower_length] at found
  cases later : Search.find (openingOf tag) (Str.toAsciiLowercase ('<' :: back)) with
  | none =>
    rw [later] at found
    rw [tagRead, tagRead, found, later]
    rfl
  | some opened =>
    have shift (i : Nat) : (front ++ '<' :: back).drop (i + front.length) = ('<' :: back).drop i := by
      rw [Nat.add_comm, List.drop_append, List.drop_eq_nil_of_le (Nat.le_add_right _ _),
        Nat.add_sub_cancel_left, List.nil_append]
    rw [later, Option.map_some] at found
    rw [tagRead_found found, tagRead_found later, shift, Nat.add_right_comm, shift]

/-- A scan reads nothing of a text in which no element begins. -/
theorem tagTexts_noElement {tag text back : Str} (plain : '<' ∉ tag)
    (absent : NoElement tag text ('<' :: back)) (limit : Nat) :
    tagTexts tag limit (text ++ '<' :: back) = tagTexts tag limit ('<' :: back) := by
  induction size : text.length using Nat.strong_induction_on generalizing text with
  | _ n ih =>
    subst size
    cases found : Search.find (openingOf tag) (Str.toAsciiLowercase text) with
    | none => rw [tagTexts_eq, tagTexts_eq tag limit ('<' :: back), tagRead_behind plain found]
    | some opened =>
      have room := Search.find_le found
      have short : 0 < (openingOf tag).length := Nat.succ_pos _
      have whole := Search.find_append_left found (Str.toAsciiLowercase ('<' :: back))
      rw [lower_length] at room
      rw [← lower_append] at whole
      have here := absent opened (by omega)
      have read := tagRead_found whole
      rw [List.drop_append_of_le_length (by omega), List.drop_append_of_le_length room] at read
      rw [elementHere] at here
      rw [tagTexts_eq, read]
      split at here
      · rename_i begins
        have unended := elementAt_eq_none.mp here
        rw [tagTexts_unended unended.suffix, if_pos begins, here]
        exact ite_self _
      · rename_i longer
        rw [if_neg longer]
        by_cases full : limit = 0
        · rw [if_pos full, full, tagTexts_zero]
        · rw [if_neg full]
          refine ih _ ?_ (fun n below => ?_) rfl
          · rw [List.length_drop]
            omega
          · rw [List.length_drop] at below
            rw [List.drop_drop]
            exact absent _ (by omega)

theorem elementAt_append {tag rest content after : Str} (back : Str)
    (inside : elementAt tag rest = some (content, after)) :
    elementAt tag (rest ++ back) = some (content, after ++ back) := by
  unfold elementAt at inside ⊢
  split at inside
  · cases inside
  · rename_i openEnd found
    have room := Search.find_le found
    rw [lower_length] at room
    dsimp only at inside
    split at inside
    · cases inside
    · rename_i close closes
      cases inside
      have left : (rest ++ back).drop (openEnd + 1) = rest.drop (openEnd + 1) ++ back :=
        List.drop_append_of_le_length room
      have opens := Search.find_append_left found (Str.toAsciiLowercase back)
      have ends := Search.find_append_left closes (Str.toAsciiLowercase back)
      have size := Search.find_le closes
      rw [← lower_append] at opens ends
      rw [lower_length] at size
      rw [opens]
      dsimp only
      rw [left, ends]
      dsimp only
      rw [List.take_append_of_le_length (by omega), List.drop_append_of_le_length size]

theorem opens_grows {tag text : Str} (begins : opens tag text = true) (back : Str) :
    opens tag (text ++ back) = true := by
  rw [opens, Bool.and_eq_true, List.isPrefixOf_iff_prefix] at begins ⊢
  obtain ⟨named, boundary⟩ := begins
  rw [lower_append]
  refine ⟨named.trans (List.prefix_append ..), ?_⟩
  rcases Nat.lt_or_ge (openingOf tag).length (Str.toAsciiLowercase text).length with inside | outside
  · rw [List.getElem?_append_left inside]
    exact boundary
  · rw [List.getElem?_eq_none outside] at boundary
    cases boundary

theorem elementHere_append {tag element content rest : Str}
    (here : elementHere tag element = some (content, rest)) (tail : Str) :
    elementHere tag (element ++ tail) = some (content, rest ++ tail) := by
  unfold elementHere at here ⊢
  split at here
  · rename_i begins
    rw [if_pos (opens_grows begins tail), elementAt_append tail here]
  · cases here

/-- An element begins with an angle, and is read whole wherever it stands. -/
theorem tagRead_element {tag element content : Str} (whole : elementHere tag element = some (content, [])) :
    (∃ more, element = '<' :: more) ∧
      ∀ tail, tagRead tag (element ++ tail) = some (elementText content, tail) := by
  have begins : opens tag element = true := by
    by_contra closed
    rw [elementHere, if_neg closed] at whole
    cases whole
  have grown := opens_grows begins
  rw [opens, Bool.and_eq_true, List.isPrefixOf_iff_prefix] at begins
  obtain ⟨behind, named⟩ := begins.1
  refine ⟨?_, fun tail => ?_⟩
  · obtain ⟨c, more, same, lowered, _⟩ := List.map_eq_cons_iff.mp named.symm
    exact ⟨more, by rw [same, (Str.toLower_eq_iff (by decide)).mp lowered]⟩
  · have found : Search.find (openingOf tag) (Str.toAsciiLowercase (element ++ tail)) = some 0 := by
      rw [lower_append, ← named, List.append_assoc]
      exact if_pos (List.prefix_append ..)
    have read := tagRead_found found
    have here := elementHere_append whole tail
    rw [elementHere, if_pos (grown tail)] at here
    rw [List.drop_zero, if_pos (grown tail), here] at read
    exact read

/-- What a scan makes of whole elements: their texts, as many as are wanted, and then what is behind. -/
theorem Elements.tagTexts {tag whole : Str} {contents : List Str} (plain : '<' ∉ tag)
    (elements : Elements tag whole contents) (limit : Nat) (tail : Str) :
    tagTexts tag limit (whole ++ tail) =
      (contents.filterMap elementText).take limit ++
        SemanticViews.tagTexts tag (limit - (contents.filterMap elementText).length) tail := by
  induction elements generalizing limit with
  | nil => simp
  | @cons gap element content rest contents unopened whole _ ih =>
    obtain ⟨⟨more, angle⟩, read⟩ := tagRead_element whole
    have absent : NoElement tag gap ('<' :: (more ++ (rest ++ tail))) := by
      intro n below
      have some : gap.drop n ≠ [] := List.length_pos_iff.mp (by rw [List.length_drop]; omega)
      rw [elementHere, opens_append plain some, unopened n below]
      rfl
    have passed := tagTexts_noElement plain absent limit
    have shape : gap ++ (element ++ rest) ++ tail = gap ++ '<' :: (more ++ (rest ++ tail)) := by
      simp [angle]
    have shape' : '<' :: (more ++ (rest ++ tail)) = element ++ (rest ++ tail) := by simp [angle]
    rw [shape, passed, shape', tagTexts_eq, read, Option.map_some, Option.getD_some]
    cases text : elementText content with
    | none =>
      rw [List.filterMap_cons_none text]
      by_cases full : limit = 0
      · simp [full, tagTexts_zero]
      · rw [if_neg full]
        exact ih limit
    | some value =>
      rw [List.filterMap_cons_some text]
      cases limit with
      | zero => simp [tagTexts_zero]
      | succ limit =>
        rw [if_neg (Nat.succ_ne_zero limit), List.length_cons, List.take_succ_cons, List.cons_append,
          Nat.add_sub_add_right]
        exact congrArg _ (ih limit)

theorem Elements.append {tag front back : Str} {first second : List Str}
    (elements : Elements tag front first) (later : Elements tag back second) :
    Elements tag (front ++ back) (first ++ second) := by
  induction elements with
  | nil => exact later
  | @cons gap element content rest contents unopened whole _ ih =>
    have grown := Elements.cons unopened whole ih
    simpa only [List.append_assoc, List.cons_append] using grown

theorem Elements.one {tag gap element content : Str} (unopened : Unopened tag gap)
    (whole : elementHere tag element = some (content, [])) : Elements tag (gap ++ element) [content] := by
  simpa only [List.append_nil] using Elements.cons unopened whole .nil

/-- An element that is read in a text is one without what stands behind it. -/
theorem elementHere_cut {tag text content after : Str} (named : '>' ∉ tag)
    (inside : elementHere tag text = some (content, after)) :
    ∃ element, text = element ++ after ∧ elementHere tag element = some (content, []) := by
  unfold elementHere at inside
  split at inside
  · rename_i begins
    unfold elementAt at inside
    split at inside
    · cases inside
    · rename_i openEnd found
      dsimp only at inside
      split at inside
      · cases inside
      · rename_i close closes
        cases inside
        have lower (s : Str) (n : Nat) :
            Str.toAsciiLowercase (s.take n) = (Str.toAsciiLowercase s).take n := List.map_take
        refine ⟨text.take (openEnd + 1 + (close + (closingOf tag).length)), ?_, ?_⟩
        · rw [List.drop_drop, List.take_append_drop]
        · rw [opens, Bool.and_eq_true, List.isPrefixOf_iff_prefix] at begins
          -- the name stands before the first closing angle
          have short : (openingOf tag).length ≤ openEnd := by
            obtain ⟨front, back, split, rfl⟩ := Search.find_split found
            have before := begins.1
            rw [split, List.append_assoc, List.singleton_append,
              Search.prefix_before (by simpa [openingOf] using named)] at before
            exact before.length_le
          have still : opens tag (text.take (openEnd + 1 + (close + (closingOf tag).length))) = true := by
            rw [opens, Bool.and_eq_true, List.isPrefixOf_iff_prefix, lower, List.prefix_take_iff,
              List.getElem?_take_of_lt (by omega)]
            exact ⟨⟨begins.1, by omega⟩, begins.2⟩
          have angle := Search.find_take found
            (Nat.le_add_right (openEnd + 1) (close + (closingOf tag).length))
          have ends := Search.find_take closes (Nat.le_refl (close + (closingOf tag).length))
          rw [← lower] at angle ends
          rw [elementHere, if_pos still, elementAt, angle]
          dsimp only
          rw [List.drop_take, Nat.add_sub_cancel_left, ends]
          dsimp only
          rw [List.take_take, Nat.min_eq_left (Nat.le_add_right ..),
            List.drop_eq_nil_of_le (List.length_take_le (close + (closingOf tag).length) _)]
  · cases inside

/-- Where an element begins in a text, there is a first one. -/
theorem first_element {tag text behind : Str} (named : '>' ∉ tag) (some : ¬NoElement tag text behind) :
    ∃ gap element content after, text ++ behind = gap ++ (element ++ after) ∧ gap.length < text.length ∧
      Unopened tag gap ∧ elementHere tag element = .some (content, []) := by
  simp only [NoElement, not_forall] at some
  obtain ⟨n, below, here⟩ := some
  have found : ∃ m, opens tag (text.drop m ++ behind) = true := by
    refine ⟨n, ?_⟩
    by_contra closed
    exact here (if_neg closed)
  have least : Nat.find found ≤ n := by
    apply Nat.find_min' found
    by_contra closed
    exact here (if_neg closed)
  have split : text ++ behind = text.take (Nat.find found) ++ (text.drop (Nat.find found) ++ behind) := by
    rw [← List.append_assoc, List.take_append_drop]
  have size : (text.take (Nat.find found)).length = Nat.find found :=
    List.length_take_of_le (by omega)
  obtain ⟨⟨content, after⟩, inside⟩ :
      ∃ read, elementHere tag (text.drop (Nat.find found) ++ behind) = .some read := by
    rw [← Option.ne_none_iff_exists', elementHere, if_pos (Nat.find_spec found)]
    intro none
    -- what is closed later would close this one
    have whole : text.drop (Nat.find found) ++ behind =
        (text.drop (Nat.find found)).take (n - Nat.find found) ++ (text.drop n ++ behind) := by
      rw [← List.append_assoc, ← Nat.add_sub_cancel' least, ← List.drop_drop, Nat.add_sub_cancel',
        List.take_append_drop]
      omega
    rw [elementAt_eq_none, whole] at none
    apply here
    rw [elementHere, elementAt_eq_none.mpr none.suffix]
    exact ite_self _
  obtain ⟨element, same, whole⟩ := elementHere_cut named inside
  refine ⟨_, element, content, after, same ▸ split, by omega, fun k before => ?_, whole⟩
  rw [size] at before
  rw [Bool.eq_false_iff]
  intro begins
  have grown := opens_grows begins (text.drop (Nat.find found) ++ behind)
  rw [← List.append_assoc, ← List.drop_append_of_le_length (by omega), List.take_append_drop] at grown
  exact Nat.find_min found before grown

/-- Every text is a row of elements and a rest in which none is closed. -/
theorem elements_rest {tag : Str} (named : '>' ∉ tag) (text : Str) : ∃ whole contents rest,
    text = whole ++ rest ∧ Elements tag whole contents ∧ NoElement tag rest [] := by
  induction size : text.length using Nat.strong_induction_on generalizing text with
  | _ n ih =>
    subst size
    by_cases absent : NoElement tag text []
    · exact ⟨[], [], text, rfl, .nil, absent⟩
    · obtain ⟨gap, element, content, after, split, _, unopened, here⟩ := first_element named absent
      obtain ⟨⟨more, angle⟩, _⟩ := tagRead_element here
      rw [List.append_nil] at split
      obtain ⟨whole, contents, rest, same, elements, closed⟩ := ih after.length
        (by simp [split, angle]; omega) after rfl
      exact ⟨gap ++ element ++ whole, content :: contents, rest, by simp [split, same],
        (Elements.one unopened here).append elements, closed⟩

/-- Behind a text in which no element is closed, each is closed later. -/
theorem NoElement.late {tag rest tail front element content after : Str} (closed : NoElement tag rest [])
    (here : elementHere tag element = some (content, []))
    (same : rest ++ tail = front ++ (element ++ after)) :
    rest.length < front.length + element.length := by
  by_contra early
  rw [← List.append_assoc] at same
  obtain ⟨more, rfl⟩ : front ++ element <+: rest := by
    refine List.prefix_of_prefix_length_le ⟨after, same.symm⟩ (List.prefix_append rest tail) ?_
    rw [List.length_append]
    omega
  obtain ⟨⟨_, angle⟩, _⟩ := tagRead_element here
  have none := closed front.length (by simp [angle])
  rw [List.append_nil, List.append_assoc, List.drop_left, elementHere_append here] at none
  cases none

end EalSync.Ingestion.SemanticViews
