import Mathlib.Data.List.Chain
import Mathlib.Data.List.Flatten
import Mathlib.Data.List.Infix

/-! The words of a list: its longest runs without a space, for any notion of space. -/
namespace EalSync.Words

universe u

variable {α : Type u} (space : α → Bool)

def words (s : List α) : List (List α) := (s.splitOnP space).filter fun word => !word.isEmpty

/-- The words one after the other, with one separator between. -/
def spaced (sep : α) (ws : List (List α)) : List α := [sep].intercalate ws

def Solid (word : List α) : Prop := ∀ x ∈ word, space x = false

/-- The parts occur in the list one after the other, without overlap. -/
def InOrder : List (List α) → List α → Prop
  | [], _ => True
  | part :: parts, s => ∃ front back, s = front ++ part ++ back ∧ InOrder parts back

variable {space}

theorem words_nil : words space [] = [] := rfl

theorem words_append {sep : α} (blank : space sep = true) (front back : List α) :
    words space (front ++ sep :: back) = words space front ++ words space back := by
  rw [words, List.splitOnP_append_cons _ _ blank, List.filter_append, words, words]

theorem words_cons_space {sep : α} (blank : space sep = true) (s : List α) :
    words space (sep :: s) = words space s := words_append blank [] s

theorem words_solid {word : List α} (solid : Solid space word) (nonempty : word ≠ []) :
    words space word = [word] := by
  rw [words, List.splitOnP_eq_singleton solid]
  simp [nonempty]

theorem words_spaces {s : List α} (blank : ∀ x ∈ s, space x = true) : words space s = [] := by
  induction s with
  | nil => rfl
  | cons x rest ih =>
    rw [words_cons_space (blank x List.mem_cons_self)]
    exact ih fun y member => blank y (List.mem_cons_of_mem x member)

theorem words_solid_or_nil {word : List α} (solid : Solid space word) :
    words space word = if word = [] then [] else [word] := by
  split
  · rename_i empty
    rw [empty, words_nil]
  · rename_i nonempty
    exact words_solid solid nonempty

theorem solid_concat {word : List α} {x : α} (solid : Solid space word) (visible : space x = false) :
    Solid space (word ++ [x]) := by
  intro y member
  rcases List.mem_append.mp member with member | member
  · exact solid y member
  · rw [List.mem_singleton.mp member, visible]

theorem mem_words_solid {front word : List α} (solid : Solid space front)
    (member : word ∈ words space front) : word ≠ [] ∧ Solid space word := by
  rw [words_solid_or_nil solid] at member
  split at member
  · cases member
  · rename_i nonempty
    cases List.mem_singleton.mp member
    exact ⟨nonempty, solid⟩

theorem flatten_words_solid {front : List α} (solid : Solid space front) :
    (words space front).flatten = front := by
  rw [words_solid_or_nil solid]
  split
  · rename_i empty
    rw [empty, List.flatten_nil]
  · exact List.flatten_singleton

/-- The list is read with a part of a word before it. -/
theorem mem_words_from {front : List α} (solid : Solid space front) {s word : List α}
    (member : word ∈ words space (front ++ s)) : word ≠ [] ∧ Solid space word := by
  induction s generalizing front with
  | nil =>
    rw [List.append_nil] at member
    exact mem_words_solid solid member
  | cons x rest ih =>
    cases blank : space x with
    | true =>
      rw [words_append blank, List.mem_append] at member
      rcases member with member | member
      · exact mem_words_solid solid member
      · exact @ih [] (by simp [Solid]) member
    | false =>
      rw [List.append_cons] at member
      exact ih (solid_concat solid blank) member

theorem mem_words {s word : List α} (member : word ∈ words space s) : word ≠ [] ∧ Solid space word :=
  @mem_words_from α space [] (by simp [Solid]) s word member

theorem flatten_words_from {front : List α} (solid : Solid space front) (s : List α) :
    (words space (front ++ s)).flatten = front ++ s.filter fun x => !space x := by
  induction s generalizing front with
  | nil => rw [List.append_nil, flatten_words_solid solid, List.filter_nil, List.append_nil]
  | cons x rest ih =>
    cases blank : space x with
    | true =>
      have later := @ih [] (by simp [Solid])
      rw [words_append blank, List.flatten_append, flatten_words_solid solid]
      simpa [blank] using later
    | false =>
      rw [List.append_cons, ih (solid_concat solid blank)]
      simp [blank]

/-- The words are what is no space. -/
theorem flatten_words (s : List α) : (words space s).flatten = s.filter fun x => !space x :=
  @flatten_words_from α space [] (by simp [Solid]) s

theorem words_eq_nil {s : List α} : words space s = [] ↔ ∀ x ∈ s, space x = true := by
  constructor
  · intro none
    have visible : (words space s).flatten = s.filter fun x => !space x := flatten_words s
    rw [none] at visible
    simpa using visible.symm
  · exact words_spaces

theorem spaced_cons {sep : α} (w : List α) {ws : List (List α)} (more : ws ≠ []) :
    spaced sep (w :: ws) = w ++ sep :: spaced sep ws := by
  rw [spaced, List.intercalate_cons_of_ne_nil more, List.append_assoc]
  rfl

theorem spaced_concat {sep : α} {ws : List (List α)} (w : List α) (some : ws ≠ []) :
    spaced sep (ws ++ [w]) = spaced sep ws ++ sep :: w := by
  induction ws with
  | nil => exact absurd rfl some
  | cons first rest ih =>
    by_cases last : rest = []
    · subst last
      simp [spaced]
    · rw [List.cons_append, spaced_cons first (by simp), ih last, spaced_cons first last]
      simp

theorem spaced_eq_nil {sep : α} {ws : List (List α)} (parts : ∀ w ∈ ws, w ≠ []) :
    spaced sep ws = [] ↔ ws = [] := by
  cases ws with
  | nil => simp [spaced]
  | cons first rest =>
    have some := parts first List.mem_cons_self
    by_cases last : rest = []
    · subst last
      simp [spaced, some]
    · simp [spaced_cons first last]

theorem words_spaced {sep : α} (blank : space sep = true) {ws : List (List α)}
    (parts : ∀ w ∈ ws, w ≠ [] ∧ Solid space w) : words space (spaced sep ws) = ws := by
  induction ws with
  | nil => rfl
  | cons first rest ih =>
    rw [List.forall_mem_cons] at parts
    by_cases last : rest = []
    · subst last
      rw [spaced, List.intercalate_singleton, words_solid parts.1.2 parts.1.1]
    · rw [spaced_cons first last, words_append blank, words_solid parts.1.2 parts.1.1, ih parts.2]
      rfl

theorem InOrder.after {ws : List (List α)} {s : List α} (occur : InOrder ws s) (front : List α) :
    InOrder ws (front ++ s) := by
  cases ws with
  | nil => trivial
  | cons first rest =>
    obtain ⟨before, back, rfl, later⟩ := occur
    exact ⟨front ++ before, back, by simp only [List.append_assoc], later⟩

theorem inOrder_spaced (sep : α) (ws : List (List α)) : InOrder ws (spaced sep ws) := by
  induction ws with
  | nil => trivial
  | cons first rest ih =>
    by_cases last : rest = []
    · subst last
      exact ⟨[], [], by simp [spaced], trivial⟩
    · refine ⟨[], sep :: spaced sep rest, ?_, ih.after [sep]⟩
      rw [spaced_cons first last, List.nil_append]

/-- What occurs in order is no longer than what is no space. -/
theorem InOrder.length_le {ws : List (List α)} {s : List α} (occur : InOrder ws s)
    (solid : ∀ w ∈ ws, Solid space w) :
    ws.flatten.length ≤ (words space s).flatten.length := by
  rw [flatten_words]
  induction ws generalizing s with
  | nil => simp
  | cons first rest ih =>
    obtain ⟨front, back, rfl, later⟩ := occur
    rw [List.forall_mem_cons] at solid
    have own : first.filter (fun x => !space x) = first := by
      rw [List.filter_eq_self]
      intro x member
      rw [solid.1 x member]
      rfl
    have more := ih later solid.2
    simp only [List.flatten_cons, List.length_append, List.filter_append, own] at more ⊢
    omega

theorem sublist_eq_of_flatten {ws kept : List (List α)} (inside : kept.Sublist ws)
    (parts : ∀ w ∈ ws, w ≠ []) (long : ws.flatten.length ≤ kept.flatten.length) : kept = ws := by
  induction inside with
  | slnil => rfl
  | cons w _ ih =>
    rename_i rest later
    have some := List.length_pos_iff.mpr (parts w List.mem_cons_self)
    have short := later.flatten.length_le
    simp only [List.flatten_cons, List.length_append] at long
    omega
  | cons_cons w _ ih =>
    rw [List.forall_mem_cons] at parts
    simp only [List.flatten_cons, List.length_append] at long
    rw [ih parts.2 (by omega)]

/-- Of the words of a list, some of which are kept, all occur only if all are kept. -/
theorem inOrder_spaced_iff {sep : α} (blank : space sep = true) {ws kept : List (List α)}
    (inside : kept.Sublist ws) (parts : ∀ w ∈ ws, w ≠ [] ∧ Solid space w) :
    InOrder ws (spaced sep kept) ↔ kept = ws := by
  constructor
  · intro occur
    have short := occur.length_le fun w member => (parts w member).2
    rw [words_spaced blank fun w member => parts w (inside.subset member)] at short
    exact sublist_eq_of_flatten inside (fun w member => (parts w member).1) short
  · rintro rfl
    exact inOrder_spaced sep kept

section

variable {f : List α → List α}

/-- The list is read with a part of a word before it. -/
theorem words_parted_from (empty : f [] = [])
    (parted : ∀ front sep back, space sep = true → f (front ++ sep :: back) = f front ++ sep :: f back)
    {front : List α} (solid : Solid space front) (s : List α) :
    words space (f (front ++ s)) = (words space (front ++ s)).flatMap fun w => words space (f w) := by
  have alone {front : List α} (solid : Solid space front) :
      words space (f front) = (words space front).flatMap fun w => words space (f w) := by
    rw [words_solid_or_nil solid]
    split
    · rename_i none
      rw [none, empty, words_nil, List.flatMap_nil]
    · rw [List.flatMap_singleton]
  induction s generalizing front with
  | nil =>
    rw [List.append_nil]
    exact alone solid
  | cons x rest ih =>
    cases blank : space x with
    | true =>
      have later := @ih [] (by simp [Solid])
      rw [List.nil_append] at later
      rw [parted front x rest blank, words_append blank, words_append blank, List.flatMap_append,
        alone solid, later]
    | false =>
      rw [List.append_cons]
      exact ih (solid_concat solid blank)

/-- A rewriting that no space is part of goes word by word. -/
theorem words_parted (empty : f [] = [])
    (parted : ∀ front sep back, space sep = true → f (front ++ sep :: back) = f front ++ sep :: f back)
    (s : List α) : words space (f s) = (words space s).flatMap fun w => words space (f w) :=
  @words_parted_from α space f empty parted [] (by simp [Solid]) s

end

variable (space) in
/-- No space at either end, and no two together. -/
structure Tidy (s : List α) : Prop where
  head : ∀ x ∈ s.head?, space x = false
  last : ∀ x ∈ s.getLast?, space x = false
  single : s.IsChain fun x y => space x = false ∨ space y = false

theorem Solid.tidy {s : List α} (solid : Solid space s) : Tidy space s where
  head x member := solid x (List.mem_of_mem_head? member)
  last x member := solid x (List.mem_of_mem_getLast? member)
  single := by
    apply List.Pairwise.isChain
    exact List.pairwise_of_forall_mem_list fun x member y _ => .inl (solid x member)

theorem Tidy.append_space {front back : List α} (first : Tidy space front) (second : Tidy space back)
    (sep : α) (some : front ≠ []) (more : back ≠ []) : Tidy space (front ++ sep :: back) where
  head x member := by
    rw [List.head?_append_of_ne_nil _ some] at member
    exact first.head x member
  last x member := by
    rw [List.getLast?_append_of_ne_nil _ (by simp), List.getLast?_cons_of_ne_nil more] at member
    exact second.last x member
  single := by
    apply first.single.append
    · exact second.single.cons fun y member => .inr (second.head y member)
    · intro x member _ _
      exact .inl (first.last x member)

theorem tidy_spaced (sep : α) {ws : List (List α)} (parts : ∀ w ∈ ws, w ≠ [] ∧ Solid space w) :
    Tidy space (spaced sep ws) := by
  induction ws with
  | nil => exact Solid.tidy (by simp [Solid, spaced])
  | cons first rest ih =>
    rw [List.forall_mem_cons] at parts
    by_cases last : rest = []
    · subst last
      rw [spaced, List.intercalate_singleton]
      exact parts.1.2.tidy
    · have more := (@spaced_eq_nil α sep rest fun w member => (parts.2 w member).1).not.mpr last
      rw [spaced_cons first last]
      exact parts.1.2.tidy.append_space (ih parts.2) sep parts.1.1 more

theorem eq_sep_of_mem_spaced {sep : α} {ws : List (List α)} (solid : ∀ w ∈ ws, Solid space w) {x : α}
    (member : x ∈ spaced sep ws) (blank : space x = true) : x = sep := by
  induction ws with
  | nil => cases member
  | cons first rest ih =>
    rw [List.forall_mem_cons] at solid
    have visible : x ∉ first := fun inside => by
      rw [solid.1 x inside] at blank
      cases blank
    by_cases last : rest = []
    · subst last
      rw [spaced, List.intercalate_singleton] at member
      exact absurd member visible
    · rw [spaced_cons first last, List.mem_append, List.mem_cons] at member
      rcases member with inside | same | later
      · exact absurd inside visible
      · exact same
      · exact ih solid.2 later

/-- Two words take three characters. -/
theorem short_spaced {sep : α} {ws : List (List α)} (parts : ∀ w ∈ ws, w ≠ [])
    (short : (spaced sep ws).length < 3) : ws = [] ∨ ∃ w, ws = [w] := by
  cases ws with
  | nil => exact .inl rfl
  | cons first rest =>
    rw [List.forall_mem_cons] at parts
    by_cases last : rest = []
    · exact .inr ⟨first, by rw [last]⟩
    · have one := List.length_pos_iff.mpr parts.1
      have two := List.length_pos_iff.mpr ((@spaced_eq_nil α sep rest parts.2).not.mpr last)
      rw [spaced_cons first last, List.length_append, List.length_cons] at short
      omega

/-- A part of a tidy list with something visible behind it. -/
theorem Tidy.take_concat {s : List α} (tidy : Tidy space s) (n : Nat) {x : α} (visible : space x = false) :
    Tidy space (s.take n ++ [x]) where
  head y member := by
    cases n with
    | zero =>
      cases Option.mem_some.mp member
      exact visible
    | succ n =>
      cases s with
      | nil =>
        cases Option.mem_some.mp member
        exact visible
      | cons first rest => exact tidy.head y member
  last y member := by
    rw [List.getLast?_concat, Option.mem_some] at member
    rwa [← member]
  single := (tidy.single.take n).append (List.isChain_singleton x) fun _ _ y member => by
    cases Option.mem_some.mp member
    exact .inr visible

theorem first_space {s : List α} (some : ¬Solid space s) :
    ∃ front x back, s = front ++ x :: back ∧ Solid space front ∧ space x = true := by
  induction s with
  | nil => exact absurd (by simp [Solid]) some
  | cons x rest ih =>
    cases blank : space x with
    | true => exact ⟨[], x, rest, rfl, by simp [Solid], blank⟩
    | false =>
      have later : ¬Solid space rest := fun solid => some (List.forall_mem_cons.mpr ⟨blank, solid⟩)
      obtain ⟨front, y, back, rfl, solid, spaced⟩ := ih later
      exact ⟨x :: front, y, back, rfl, List.forall_mem_cons.mpr ⟨blank, solid⟩, spaced⟩

/-- A tidy list stays as it is when its words are spaced again. -/
theorem spaced_words {sep : α} {s : List α} (tidy : Tidy space s)
    (own : ∀ x ∈ s, space x = true → x = sep) : spaced sep (words space s) = s := by
  induction size : s.length using Nat.strong_induction_on generalizing s with
  | _ n ih =>
    subst size
    by_cases solid : Solid space s
    · rw [words_solid_or_nil solid]
      split
      · rename_i empty
        rw [empty]
        rfl
      · rw [spaced, List.intercalate_singleton]
    · obtain ⟨front, x, back, rfl, visible, blank⟩ := first_space solid
      have some : front ≠ [] := by
        rintro rfl
        rw [tidy.head x rfl] at blank
        cases blank
      have more : back ≠ [] := by
        rintro rfl
        rw [tidy.last x (by simp)] at blank
        cases blank
      have chain := tidy.single.right_of_append
      have later : Tidy space back :=
        { head := fun y member => by
            rcases chain.rel_head? member with off | off
            · rw [off] at blank
              cases blank
            · exact off
          last := fun y member => tidy.last y (by
            rw [List.getLast?_append_of_ne_nil _ (by simp), List.getLast?_cons_of_ne_nil more]
            exact member)
          single := chain.tail }
      have again := ih back.length (by simp; omega) later
        (fun y member => own y (by simp [member])) rfl
      have words : words space back ≠ [] := by
        intro none
        rw [none] at again
        exact more again.symm
      rw [words_append blank, words_solid visible some, List.singleton_append, spaced_cons front words,
        again, own x (by simp) blank]

end EalSync.Words
