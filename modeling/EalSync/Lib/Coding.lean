import EalSync.Lib.Search

/-! A code writes some elements of a list as words that begin with a mark, and leaves the others as
they are. Replacing one of the words by its element takes the element out of the code. -/
namespace EalSync.Coding

open Search

universe u

variable {α : Type u} [DecidableEq α]

/-- The words of a code under the elements they stand for. -/
abbrev Table (α : Type u) := List (α × List α)

def code (table : Table α) (x : α) : List α := (table.lookup x).getD [x]

def encode (table : Table α) (s : List α) : List α := s.flatMap (code table)

/-- The word begins with the mark, and has it nowhere else. -/
def Marked (mark : α) (word : List α) : Prop := word.head? = some mark ∧ mark ∉ word.tail

/-- Neither of two words begins with the other. -/
def Distinct (pat word : List α) : Prop := ¬pat <+: word ∧ ¬word <+: pat

omit [DecidableEq α] in
theorem Marked.cons {mark : α} {word : List α} (marked : Marked mark word) :
    ∃ tail, word = mark :: tail ∧ mark ∉ tail := by
  obtain ⟨head, once⟩ := marked
  obtain ⟨tail, rfl⟩ := List.head?_eq_some_iff.mp head
  exact ⟨tail, rfl, once⟩

theorem code_cons_self (table : Table α) (x : α) (word : List α) : code ((x, word) :: table) x = word := by
  simp [code]

theorem code_cons_ne {table : Table α} {x y : α} (word : List α) (other : x ≠ y) :
    code ((y, word) :: table) x = code table x := by
  have differs : (x == y) = false := by simpa using other
  rw [code, code, List.lookup_cons, differs]

theorem code_of_mem {table : Table α} {x : α} (member : x ∈ table.map Prod.fst) :
    ∃ word, (x, word) ∈ table ∧ code table x = word := by
  induction table with
  | nil => cases member
  | cons entry rest ih =>
    obtain ⟨key, word⟩ := entry
    by_cases same : x = key
    · subst same
      exact ⟨word, List.mem_cons_self, code_cons_self rest x word⟩
    · obtain ⟨found, inside, coded⟩ := ih ((List.mem_cons.mp member).resolve_left same)
      exact ⟨found, List.mem_cons_of_mem _ inside, by rw [code_cons_ne word same, coded]⟩

theorem code_of_not_mem {table : Table α} {x : α} (other : x ∉ table.map Prod.fst) :
    code table x = [x] := by
  have none : table.lookup x = none := by
    rw [List.lookup_eq_none_iff]
    intro entry member
    simpa using fun same : x = entry.1 => other (same ▸ List.mem_map_of_mem member)
  rw [code, none, Option.getD_none]

theorem encode_cons (table : Table α) (x : α) (rest : List α) :
    encode table (x :: rest) = code table x ++ encode table rest := List.flatMap_cons

theorem encode_append (table : Table α) (front back : List α) :
    encode table (front ++ back) = encode table front ++ encode table back := List.flatMap_append

/-- A scan for a marked pattern goes past another word. -/
theorem replace_word {mark : α} {pat word : List α} (new : List α) (marked : Marked mark pat)
    (other : Marked mark word) (distinct : Distinct pat word) (back : List α) :
    replace pat new (word ++ back) = word ++ replace pat new back := by
  obtain ⟨tail, rfl, once⟩ := marked.cons
  obtain ⟨more, rfl, plain⟩ := other.cons
  have absent : ¬mark :: tail <+: mark :: (more ++ back) := by
    intro begins
    rcases List.prefix_or_prefix_of_prefix begins (List.prefix_append (mark :: more) back) with h | h
    · exact distinct.1 h
    · exact distinct.2 h
  rw [List.cons_append, replace_cons new absent, replace_plain new plain, List.cons_append]

/-- A table whose words begin with the mark, distinct from the pattern. -/
structure Separate (mark : α) (pat : List α) (table : Table α) : Prop where
  pattern : Marked mark pat
  words : ∀ entry ∈ table, Marked mark entry.2 ∧ Distinct pat entry.2

/-- A pattern that is no word of the code, where the mark itself is coded. -/
theorem replace_encode_other {mark : α} {pat : List α} {table : Table α} (separate : Separate mark pat table)
    (coded : mark ∈ table.map Prod.fst) (new s : List α) :
    replace pat new (encode table s) = encode table s := by
  induction s with
  | nil => rfl
  | cons x rest ih =>
    rw [encode_cons]
    by_cases member : x ∈ table.map Prod.fst
    · obtain ⟨word, inside, same⟩ := code_of_mem member
      have fits := separate.words _ inside
      rw [same, replace_word new separate.pattern fits.1 fits.2, ih]
    · obtain ⟨tail, shape, _⟩ := separate.pattern.cons
      have plain : mark ∉ [x] := by
        rw [List.mem_singleton]
        rintro rfl
        exact member coded
      rw [code_of_not_mem member, shape, replace_plain new plain, ← shape, ih]

/-- The word of a coded element, where the pattern is the word of one of them. -/
theorem replace_code {mark e : α} {pat : List α} {table : Table α} (separate : Separate mark pat table)
    (uncoded : e ∉ table.map Prod.fst) {x : α} (coded : x ∈ ((e, pat) :: table).map Prod.fst)
    (back : List α) :
    replace pat [e] (code ((e, pat) :: table) x ++ back) = code table x ++ replace pat [e] back := by
  by_cases here : x = e
  · obtain ⟨tail, shape, _⟩ := separate.pattern.cons
    rw [here, code_cons_self, code_of_not_mem uncoded, replace_here _ (by simp [shape])]
  · obtain ⟨word, inside, same⟩ := code_of_mem ((List.mem_cons.mp coded).resolve_left here)
    have fits := separate.words _ inside
    rw [code_cons_ne pat here, same, replace_word _ separate.pattern fits.1 fits.2]

/-- The word of the mark replaced by the mark. -/
theorem replace_encode_mark {mark : α} {pat : List α} {table : Table α} (separate : Separate mark pat table)
    (uncoded : mark ∉ table.map Prod.fst) (s : List α) :
    replace pat [mark] (encode ((mark, pat) :: table) s) = encode table s := by
  obtain ⟨tail, shape, _⟩ := separate.pattern.cons
  induction s with
  | nil => rfl
  | cons x rest ih =>
    rw [encode_cons, encode_cons]
    by_cases coded : x ∈ ((mark, pat) :: table).map Prod.fst
    · rw [replace_code separate uncoded coded, ih]
    · rw [List.map_cons, List.mem_cons, not_or] at coded
      have plain : mark ∉ [x] := by simpa using Ne.symm coded.1
      rw [code_cons_ne pat coded.1, code_of_not_mem coded.2, shape, replace_plain _ plain, ← shape, ih]

/-- What begins an encoded list, and has neither the mark nor a coded element, begins the list. -/
theorem prefix_of_encode {mark : α} {table : Table α} (words : ∀ entry ∈ table, Marked mark entry.2)
    {pat s : List α} (plain : ∀ x ∈ pat, x ≠ mark ∧ x ∉ table.map Prod.fst)
    (begins : pat <+: encode table s) : pat <+: s := by
  induction pat generalizing s with
  | nil => exact List.nil_prefix
  | cons y pat ih =>
    rw [List.forall_mem_cons] at plain
    cases s with
    | nil => exact absurd (List.prefix_nil.mp begins) (by simp)
    | cons x rest =>
      rw [encode_cons] at begins
      by_cases member : x ∈ table.map Prod.fst
      · obtain ⟨word, inside, same⟩ := code_of_mem member
        obtain ⟨tail, rfl, _⟩ : ∃ tail, word = mark :: tail ∧ mark ∉ tail := (words _ inside).cons
        rw [same, List.cons_append, List.cons_prefix_cons] at begins
        exact absurd begins.1 plain.1.1
      · rw [code_of_not_mem member, List.singleton_append, List.cons_prefix_cons] at begins
        exact List.cons_prefix_cons.mpr ⟨begins.1, ih plain.2 begins.2⟩

theorem encode_plain {table : Table α} {s : List α} (plain : ∀ x ∈ s, x ∉ table.map Prod.fst) :
    encode table s = s := by
  induction s with
  | nil => rfl
  | cons x rest ih =>
    rw [List.forall_mem_cons] at plain
    rw [encode_cons, code_of_not_mem plain.1, ih plain.2, List.singleton_append]

/-- The word of another element replaced by it, where the mark stands for itself. The pattern may
then occur in the list that was encoded, and is replaced there too. The induction is on the length,
for the scan goes on behind an occurrence. -/
theorem replace_encode {mark e : α} {pat : List α} {table : Table α} (separate : Separate mark pat table)
    (uncoded : e ∉ table.map Prod.fst) (raw : mark ∉ ((e, pat) :: table).map Prod.fst)
    (plain : ∀ x ∈ pat.tail, x ∉ ((e, pat) :: table).map Prod.fst) (s : List α) :
    replace pat [e] (encode ((e, pat) :: table) s) = encode table (replace pat [e] s) := by
  obtain ⟨tail, rfl, once⟩ := separate.pattern.cons
  have words : ∀ entry ∈ (e, mark :: tail) :: table, Marked mark entry.2 := by
    rw [List.forall_mem_cons]
    exact ⟨separate.pattern, fun entry member => (separate.words entry member).1⟩
  induction size : s.length using Nat.strong_induction_on generalizing s with
  | _ n ih =>
    subst size
    cases s with
    | nil => rfl
    | cons x rest =>
      have later := ih rest.length (by simp) rest rfl
      by_cases coded : x ∈ ((e, mark :: tail) :: table).map Prod.fst
      · have absent : ¬mark :: tail <+: x :: rest := fun begins =>
          raw ((List.cons_prefix_cons.mp begins).1 ▸ coded)
        rw [encode_cons, replace_code separate uncoded coded, later, replace_cons _ absent, encode_cons]
      · have kept : x ∉ table.map Prod.fst := fun member => coded (List.mem_cons_of_mem _ member)
        by_cases begins : mark :: tail <+: x :: rest
        · obtain ⟨back, split⟩ := begins
          have own : encode ((e, mark :: tail) :: table) (mark :: tail) = mark :: tail :=
            encode_plain (List.forall_mem_cons.mpr ⟨raw, plain⟩)
          have left : encode table [e] = [e] := encode_plain (by simpa using uncoded)
          have shorter : back.length < (x :: rest).length := by
            rw [← split, List.length_append, List.length_cons]
            omega
          rw [← split, encode_append, own, replace_here _ (by simp), replace_here _ (by simp),
            encode_append, ih back.length shorter back rfl, left]
        · have absent : ¬mark :: tail <+: x :: encode ((e, mark :: tail) :: table) rest := by
            intro inside
            rw [List.cons_prefix_cons] at inside
            have follows := prefix_of_encode words (fun y member =>
              ⟨fun same => once (same ▸ member), plain y member⟩) inside.2
            exact begins (List.cons_prefix_cons.mpr ⟨inside.1, follows⟩)
          rw [encode_cons, code_of_not_mem coded, List.singleton_append, replace_cons _ absent,
            replace_cons _ begins, encode_cons, code_of_not_mem kept, later, List.singleton_append]

theorem mem_encode {table : Table α} {x : α} {s : List α} (member : x ∈ encode table s) :
    x ∉ table.map Prod.fst ∨ ∃ entry ∈ table, x ∈ entry.2 := by
  obtain ⟨y, _, inside⟩ := List.mem_flatMap.mp member
  by_cases coded : y ∈ table.map Prod.fst
  · obtain ⟨word, there, same⟩ := code_of_mem coded
    rw [same] at inside
    exact .inr ⟨(y, word), there, inside⟩
  · rw [code_of_not_mem coded, List.mem_singleton] at inside
    exact .inl (inside ▸ coded)

theorem length_le_encode {table : Table α} (some : ∀ entry ∈ table, 1 < entry.2.length) (s : List α) :
    s.length ≤ (encode table s).length := by
  induction s with
  | nil => exact Nat.le_refl _
  | cons x rest ih =>
    have one : 1 ≤ (code table x).length := by
      by_cases member : x ∈ table.map Prod.fst
      · obtain ⟨word, inside, same⟩ := code_of_mem member
        rw [same]
        exact Nat.le_of_lt (some _ inside)
      · rw [code_of_not_mem member, List.length_singleton]
    rw [encode_cons, List.length_append, List.length_cons]
    omega

/-- Longer words leave a list as it is only if they are not used. -/
theorem encode_eq_self {table : Table α} (long : ∀ entry ∈ table, 1 < entry.2.length) {s : List α} :
    encode table s = s ↔ ∀ x ∈ s, x ∉ table.map Prod.fst := by
  refine ⟨fun same => ?_, encode_plain⟩
  induction s with
  | nil => simp
  | cons x rest ih =>
    rw [encode_cons] at same
    by_cases member : x ∈ table.map Prod.fst
    · obtain ⟨word, inside, coded⟩ := code_of_mem member
      have size := congrArg List.length same
      have two := long _ inside
      have grows := length_le_encode long rest
      rw [coded, List.length_append, List.length_cons] at size
      dsimp only at two
      omega
    · rw [code_of_not_mem member, List.singleton_append, List.cons_inj_right] at same
      exact List.forall_mem_cons.mpr ⟨member, ih same⟩

end EalSync.Coding
