import Mathlib.Data.List.Infix

/-! The first occurrence of a pattern in a list, and the replacement of every occurrence. Where no
occurrence reaches from one part of a list into the next, the two parts are searched apart. -/
namespace EalSync.Search

universe u

variable {α : Type u}

/-- No occurrence of the pattern begins in the first part and ends beyond it. -/
def Apart (pat front back : List α) : Prop :=
  ∀ x, x ≠ [] → x <:+ front → pat <+: x ++ back → pat <+: x

theorem Apart.tail {pat back rest : List α} {x : α} (h : Apart pat (x :: rest) back) :
    Apart pat rest back :=
  fun y nonempty inside => h y nonempty (inside.trans (List.suffix_cons x rest))

/-- The head of the pattern does not come again in it. -/
def Headed (pat : List α) : Prop := ∃ head tail, pat = head :: tail ∧ head ∉ tail

theorem longer_of_straddle {pat x back : List α} (begins : pat <+: x ++ back) (within : ¬pat <+: x) :
    ∃ beyond, beyond ≠ [] ∧ pat = x ++ beyond ∧ beyond <+: back := by
  rcases List.prefix_or_prefix_of_prefix begins (List.prefix_append x back) with inside | ⟨beyond, rfl⟩
  · exact absurd inside within
  · refine ⟨beyond, ?_, rfl, (List.prefix_append_right_inj x).mp begins⟩
    rintro rfl
    exact within (by simp)

theorem apart_of_head {pat : List α} (headed : Headed pat) (front : List α) {back : List α}
    (same : back.head? = pat.head? ∨ back = []) : Apart pat front back := by
  intro x nonempty _ begins
  by_contra within
  obtain ⟨beyond, more, split, inside⟩ := longer_of_straddle begins within
  obtain ⟨head, tail, rfl, once⟩ := headed
  obtain ⟨y, beyond, rfl⟩ := List.exists_cons_of_ne_nil more
  obtain ⟨z, x, rfl⟩ := List.exists_cons_of_ne_nil nonempty
  obtain ⟨rest, rfl⟩ := inside
  rcases same with same | empty
  · cases same
    cases split
    exact once (by simp)
  · cases empty

theorem prefix_before {pat x back : List α} {sep : α} (other : sep ∉ pat) :
    pat <+: x ++ sep :: back ↔ pat <+: x := by
  constructor
  · intro begins
    by_contra within
    obtain ⟨beyond, more, rfl, inside⟩ := longer_of_straddle begins within
    obtain ⟨y, beyond, rfl⟩ := List.exists_cons_of_ne_nil more
    rw [List.cons_prefix_cons] at inside
    exact other (by simp [inside.1])
  · exact fun begins => begins.trans (List.prefix_append x _)

theorem apart_of_plain {head : α} {tail front : List α} (plain : head ∉ front) (back : List α) :
    Apart (head :: tail) front back := by
  intro x nonempty inside begins
  obtain ⟨y, x, rfl⟩ := List.exists_cons_of_ne_nil nonempty
  rw [List.cons_append, List.cons_prefix_cons] at begins
  exact absurd (inside.subset (by simp [begins.1])) plain

theorem apart_of_start {pat front : List α} {sep : α} (other : sep ∉ pat) (back : List α) :
    Apart pat front (sep :: back) :=
  fun _ _ _ begins => (prefix_before other).mp begins

theorem apart_of_stop {pat front : List α} {sep : α} (other : sep ∉ pat) (back : List α) :
    Apart pat (front ++ [sep]) back := by
  intro x nonempty inside begins
  rcases List.suffix_concat_iff.mp inside with empty | ⟨y, rfl, _⟩
  · exact absurd empty nonempty
  · rw [List.append_assoc, List.singleton_append, prefix_before other] at begins
    exact begins.trans (List.prefix_append y [sep])

/-- What stands behind a separator may change. -/
theorem Apart.cut {pat front before rest : List α} {sep : α} (h : Apart pat front (before ++ rest))
    (other : sep ∉ pat) (back : List α) : Apart pat front (before ++ sep :: back) := by
  intro x nonempty inside begins
  rw [← List.append_assoc, prefix_before other] at begins
  apply h x nonempty inside
  rw [← List.append_assoc]
  exact begins.trans (List.prefix_append _ rest)

/-- A separator that the pattern lacks is in no occurrence of it. -/
theorem infix_around {pat front back : List α} {sep : α} (other : sep ∉ pat) :
    pat <:+: front ++ sep :: back ↔ pat <:+: front ∨ pat <:+: back := by
  constructor
  · intro inside
    induction front with
    | nil =>
      rcases List.infix_cons_iff.mp inside with here | later
      · exact .inl ((@prefix_before _ _ [] back _ other).mp here).isInfix
      · exact .inr later
    | cons x rest ih =>
      rcases List.infix_cons_iff.mp inside with here | later
      · exact .inl ((@prefix_before _ _ (x :: rest) back _ other).mp here).isInfix
      · exact (ih later).imp_left fun within => within.trans (List.suffix_cons x rest).isInfix
  · rintro (before | after)
    · exact before.trans (List.prefix_append front _).isInfix
    · exact after.trans ((List.suffix_cons sep back).trans (List.suffix_append front _)).isInfix

/-- A pattern up to its separator is all that comes before the first one. -/
theorem stop_prefix_iff {pat s rest : List α} {sep : α} (none : sep ∉ pat) (other : sep ∉ s) :
    pat ++ [sep] <+: s ++ sep :: rest ↔ s = pat := by
  constructor
  · intro begins
    have front := (prefix_before none).mp ((List.prefix_append pat [sep]).trans begins)
    obtain ⟨more, rfl⟩ := front
    rw [List.append_assoc, List.prefix_append_right_inj] at begins
    cases more with
    | nil => rw [List.append_nil]
    | cons x more =>
      rw [List.cons_append, List.cons_prefix_cons] at begins
      exact absurd (by simp [begins.1]) other
  · rintro rfl
    exact ⟨rest, by simp⟩

variable [DecidableEq α]

/-- Where the pattern first begins. -/
def find (pat : List α) : List α → Option Nat
  | [] => if pat = [] then some 0 else none
  | x :: rest => if pat <+: x :: rest then some 0 else (find pat rest).map (· + 1)

theorem find_eq_none {pat s : List α} : find pat s = none ↔ ¬pat <:+: s := by
  induction s with
  | nil => simp [find]
  | cons x rest ih =>
    by_cases here : pat <+: x :: rest
    · simp [find, here, here.isInfix]
    · simp [find, here, ih, List.infix_cons_iff]

/-- What a found pattern cuts the list into. -/
theorem find_split {pat s : List α} {i : Nat} (found : find pat s = some i) :
    ∃ front back, s = front ++ pat ++ back ∧ front.length = i := by
  induction s generalizing i with
  | nil =>
    simp only [find] at found
    split at found
    · rename_i empty
      cases found
      exact ⟨[], [], by simp [empty], rfl⟩
    · cases found
  | cons x rest ih =>
    simp only [find] at found
    split at found
    · rename_i here
      cases found
      obtain ⟨back, same⟩ := here
      exact ⟨[], back, same.symm, rfl⟩
    · obtain ⟨j, later, rfl⟩ := Option.map_eq_some_iff.mp found
      obtain ⟨front, back, rfl, rfl⟩ := ih later
      exact ⟨x :: front, back, rfl, rfl⟩

theorem find_le {pat s : List α} {i : Nat} (found : find pat s = some i) :
    i + pat.length ≤ s.length := by
  obtain ⟨front, back, rfl, rfl⟩ := find_split found
  simp only [List.length_append]
  omega

/-- A pattern found in the first part is found there in the whole. -/
theorem find_append_left {pat front : List α} {i : Nat} (found : find pat front = some i)
    (back : List α) : find pat (front ++ back) = some i := by
  induction front generalizing i with
  | nil =>
    simp only [find] at found
    split at found
    · rename_i empty
      cases found
      subst empty
      cases back <;> simp [find]
    · cases found
  | cons x rest ih =>
    have room := find_le found
    simp only [find] at found
    split at found
    · rename_i here
      cases found
      have still : pat <+: x :: (rest ++ back) := here.trans (List.prefix_append (x :: rest) back)
      simp [find, still]
    · rename_i absent
      obtain ⟨j, later, rfl⟩ := Option.map_eq_some_iff.mp found
      have straddles : ¬pat <+: x :: (rest ++ back) := by
        intro here
        exact absent (List.prefix_of_prefix_length_le here (List.prefix_append (x :: rest) back)
          (by simp only [List.length_cons] at room ⊢; omega))
      simp [find, straddles, ih later]

/-- Where the pattern stands it is found, or before. -/
theorem find_first {pat front back : List α} {i : Nat}
    (found : find pat (front ++ pat ++ back) = some i) : i ≤ front.length := by
  cases inside : find pat (front ++ pat) with
  | none => exact absurd (List.suffix_append front pat).isInfix (find_eq_none.mp inside)
  | some j =>
    have room := find_le inside
    rw [find_append_left inside] at found
    cases found
    rw [List.length_append] at room
    omega

theorem find_take {pat s : List α} {i n : Nat} (found : find pat s = some i) (room : i + pat.length ≤ n) :
    find pat (s.take n) = some i := by
  cases inside : find pat (s.take n) with
  | none =>
    obtain ⟨front, back, rfl, rfl⟩ := find_split found
    have taken : front ++ pat <+: (front ++ pat ++ back).take n :=
      List.prefix_take_iff.mpr ⟨List.prefix_append .., by rwa [List.length_append]⟩
    exact absurd ((List.suffix_append front pat).isInfix.trans taken.isInfix) (find_eq_none.mp inside)
  | some j =>
    have whole := find_append_left inside (s.drop n)
    rw [List.take_append_drop] at whole
    exact whole.symm.trans found

theorem find_append_right {pat front back : List α} (apart : Apart pat front back)
    (absent : ¬pat <:+: front) :
    find pat (front ++ back) = (find pat back).map (· + front.length) := by
  induction front with
  | nil => simp
  | cons x rest ih =>
    have here : ¬pat <+: x :: (rest ++ back) := fun begins =>
      absent (apart (x :: rest) (by simp) List.suffix_rfl begins).isInfix
    have later := ih apart.tail fun inside => absent (inside.trans (List.suffix_cons x rest).isInfix)
    rw [List.cons_append, find, if_neg here, later, Option.map_map]
    congr 1

theorem infix_append {pat front back : List α} (apart : Apart pat front back)
    (absent : ¬pat <:+: front) : pat <:+: front ++ back ↔ pat <:+: back := by
  have found := find_append_right apart absent
  rw [← not_iff_not, ← find_eq_none, ← find_eq_none, found, Option.map_eq_none_iff]

omit [DecidableEq α] in
theorem infix_append_of_head {head : α} {tail front back : List α} (plain : head ∉ front) :
    head :: tail <:+: front ++ back ↔ head :: tail <:+: back := by
  induction front with
  | nil => rfl
  | cons x rest ih =>
    rw [List.mem_cons, not_or] at plain
    rw [List.cons_append, List.infix_cons_iff, List.cons_prefix_cons, ih plain.2]
    simp [plain.1]

/-- The first occurrence of a headed pattern that is written out. -/
theorem find_here {pat front : List α} (headed : Headed pat) (absent : ¬pat <:+: front)
    (back : List α) : find pat (front ++ (pat ++ back)) = some front.length := by
  obtain ⟨head, tail, rfl, once⟩ := headed
  have apart : Apart (head :: tail) front (head :: tail ++ back) :=
    apart_of_head ⟨head, tail, rfl, once⟩ front (.inl rfl)
  have first : find (head :: tail) (head :: tail ++ back) = some 0 := by
    simp [find]
  rw [find_append_right apart absent, first]
  simp

/-- The rest of a replacement, with so many elements still to skip of the last occurrence. -/
def replaceFrom (pat new : List α) : Nat → List α → List α
  | _, [] => []
  | skip + 1, _ :: rest => replaceFrom pat new skip rest
  | 0, x :: rest =>
    if pat <+: x :: rest then new ++ replaceFrom pat new (pat.length - 1) rest
    else x :: replaceFrom pat new 0 rest

/-- Every occurrence replaced, from left to right. -/
def replace (pat new s : List α) : List α := replaceFrom pat new 0 s

theorem replaceFrom_before {pat new : List α} {sep : α} (nonempty : pat ≠ []) (other : sep ∉ pat)
    {front : List α} {skip : Nat} (room : skip ≤ front.length) (back : List α) :
    replaceFrom pat new skip (front ++ sep :: back) =
      replaceFrom pat new skip front ++ sep :: replaceFrom pat new 0 back := by
  induction front generalizing skip with
  | nil =>
    have here : ¬pat <+: [] ++ sep :: back := by
      rw [prefix_before other]
      simpa using nonempty
    cases Nat.le_zero.mp room
    exact if_neg here
  | cons x rest ih =>
    cases skip with
    | succ skip => exact ih (Nat.le_of_succ_le_succ room)
    | zero =>
      have same := @prefix_before _ _ (x :: rest) back _ other
      rw [List.cons_append] at same ⊢
      simp only [replaceFrom, same]
      split
      · rename_i here
        have short := here.length_le
        rw [ih (by simp only [List.length_cons] at short; omega), List.append_assoc]
      · rw [ih (Nat.zero_le _), List.cons_append]

/-- An element that the pattern lacks parts the replacement. -/
theorem replace_before {pat : List α} (new : List α) {sep : α} (nonempty : pat ≠ []) (other : sep ∉ pat)
    (front back : List α) :
    replace pat new (front ++ sep :: back) = replace pat new front ++ sep :: replace pat new back :=
  replaceFrom_before nonempty other (Nat.zero_le _) back

theorem replace_eq_self {pat : List α} (new : List α) {s : List α} (absent : ¬pat <:+: s) :
    replace pat new s = s := by
  induction s with
  | nil => rfl
  | cons x rest ih =>
    rw [List.infix_cons_iff, not_or] at absent
    have tail := ih absent.2
    rw [replace] at tail ⊢
    rw [replaceFrom, if_neg absent.1, tail]

theorem replaceFrom_skip (pat new front back : List α) :
    replaceFrom pat new front.length (front ++ back) = replace pat new back := by
  induction front with
  | nil => rfl
  | cons x rest ih => exact ih

theorem replace_here {pat : List α} (new : List α) (nonempty : pat ≠ []) (back : List α) :
    replace pat new (pat ++ back) = new ++ replace pat new back := by
  obtain ⟨head, tail, rfl⟩ := List.exists_cons_of_ne_nil nonempty
  have here : head :: tail <+: head :: (tail ++ back) := List.prefix_append (head :: tail) back
  rw [replace, List.cons_append, replaceFrom, if_pos here, List.length_cons, Nat.add_sub_cancel,
    replaceFrom_skip]

theorem replace_cons {pat : List α} (new : List α) {x : α} {rest : List α}
    (absent : ¬pat <+: x :: rest) : replace pat new (x :: rest) = x :: replace pat new rest := by
  rw [replace, replaceFrom, if_neg absent, replace]

theorem replace_plain {head : α} {tail front : List α} (new : List α) (plain : head ∉ front)
    (back : List α) :
    replace (head :: tail) new (front ++ back) = front ++ replace (head :: tail) new back := by
  induction front with
  | nil => rfl
  | cons x rest ih =>
    rw [List.mem_cons, not_or] at plain
    have absent : ¬head :: tail <+: x :: (rest ++ back) := fun begins =>
      plain.1 (List.cons_prefix_cons.mp begins).1
    rw [List.cons_append, replace_cons new absent, ih plain.2, List.cons_append]

theorem length_replace_le {pat new : List α} (short : new.length < pat.length) (s : List α) :
    (replace pat new s).length ≤ s.length := by
  induction size : s.length using Nat.strong_induction_on generalizing s with
  | _ n ih =>
    subst size
    cases s with
    | nil => exact Nat.le_refl _
    | cons x rest =>
      by_cases here : pat <+: x :: rest
      · obtain ⟨back, same⟩ := here
        have sizes := congrArg List.length same
        rw [List.length_append] at sizes
        have later := ih back.length (by omega) back rfl
        rw [← same, replace_here new (List.ne_nil_of_length_pos (by omega)), List.length_append,
          List.length_append]
        omega
      · have later := ih rest.length (by simp) rest rfl
        rw [replace_cons new here, List.length_cons, List.length_cons]
        omega

/-- A replacement by something shorter shows in the length. -/
theorem length_replace_lt {pat new s : List α} (short : new.length < pat.length)
    (inside : pat <:+: s) : (replace pat new s).length < s.length := by
  induction s with
  | nil =>
    rw [List.infix_nil.mp inside] at short
    cases short
  | cons x rest ih =>
    by_cases here : pat <+: x :: rest
    · obtain ⟨back, same⟩ := here
      have later := length_replace_le short back
      rw [← same, replace_here new (List.ne_nil_of_length_pos (by omega)), List.length_append,
        List.length_append]
      omega
    · have later := ih ((List.infix_cons_iff.mp inside).resolve_left here)
      rw [replace_cons new here, List.length_cons, List.length_cons]
      omega

/-- One pass for each pattern, which puts one element for every occurrence. -/
def replaceEach (rules : List (List α × α)) (s : List α) : List α :=
  rules.foldl (fun s rule => replace rule.1 [rule.2] s) s

section

variable {rules : List (List α × α)} (long : ∀ rule ∈ rules, 1 < rule.1.length)

include long

theorem length_replaceEach_le (s : List α) : (replaceEach rules s).length ≤ s.length := by
  induction rules generalizing s with
  | nil => exact Nat.le_refl _
  | cons rule rest ih =>
    rw [List.forall_mem_cons] at long
    have short : [rule.2].length < rule.1.length := long.1
    exact (ih long.2 (replace rule.1 [rule.2] s)).trans (length_replace_le short s)

/-- The passes change a list only if it has a pattern in it from the start. -/
theorem replaceEach_eq_self {s : List α} :
    replaceEach rules s = s ↔ ∀ rule ∈ rules, ¬rule.1 <:+: s := by
  induction rules with
  | nil => simp [replaceEach]
  | cons rule rest ih =>
    rw [List.forall_mem_cons] at long ⊢
    have step : replaceEach (rule :: rest) s = replaceEach rest (replace rule.1 [rule.2] s) := rfl
    have short : [rule.2].length < rule.1.length := long.1
    rw [step, ← ih long.2]
    constructor
    · intro same
      have size := length_replaceEach_le long.2 (replace rule.1 [rule.2] s)
      rw [same] at size
      have absent : ¬rule.1 <:+: s := fun inside =>
        absurd (length_replace_lt short inside) (Nat.not_lt.mpr size)
      rw [replace_eq_self _ absent] at same
      exact ⟨absent, same⟩
    · rintro ⟨absent, same⟩
      rw [replace_eq_self _ absent, same]

end

end EalSync.Search
