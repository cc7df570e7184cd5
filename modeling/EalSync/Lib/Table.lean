import Mathlib.Data.List.Find
import Mathlib.Data.List.Nodup
import Mathlib.Data.List.Sort

/-! Tables as lists of rows. A statement selects rows by a predicate and rewrites them in
place; a key is a projection without repetitions. -/
namespace EalSync.Table

universe u v

variable {Row : Type u} {Key : Type v}

def update (p : Row → Bool) (f : Row → Row) (rows : List Row) : List Row :=
  rows.map (fun r => if p r then f r else r)

def affected (p : Row → Bool) (rows : List Row) : Nat := rows.countP p

theorem mem_update {p : Row → Bool} {f : Row → Row} {rows : List Row} {x : Row} :
    x ∈ update p f rows ↔ (∃ r ∈ rows, p r = true ∧ f r = x) ∨ (x ∈ rows ∧ p x = false) := by
  simp only [update, List.mem_map]
  constructor
  · rintro ⟨r, hr, rfl⟩
    by_cases hp : p r = true
    · exact .inl ⟨r, hr, hp, by simp [hp]⟩
    · exact .inr ⟨by simpa [hp] using hr, by simp [hp]⟩
  · rintro (⟨r, hr, hp, rfl⟩ | ⟨hx, hp⟩)
    · exact ⟨r, hr, by simp [hp]⟩
    · exact ⟨x, hx, by simp [hp]⟩

theorem mem_update_of_selected {p : Row → Bool} (f : Row → Row) {rows : List Row} {r : Row}
    (member : r ∈ rows) (selected : p r = true) : f r ∈ update p f rows :=
  mem_update.mpr (.inl ⟨r, member, selected, rfl⟩)

theorem mem_update_of_skipped {p : Row → Bool} (f : Row → Row) {rows : List Row} {r : Row}
    (member : r ∈ rows) (skipped : p r = false) : r ∈ update p f rows :=
  mem_update.mpr (.inr ⟨member, skipped⟩)

theorem update_map {p : Row → Bool} {f : Row → Row} (g : Row → Key)
    (keeps : ∀ r, g (f r) = g r) (rows : List Row) : (update p f rows).map g = rows.map g := by
  simp only [update, List.map_map]
  apply List.map_congr_left
  intro r _
  by_cases hp : p r = true <;> simp [hp, keeps]

/-- Every row is still there, as far as the projection tells. -/
theorem exists_update {p : Row → Bool} {f : Row → Row} (g : Row → Key)
    (keeps : ∀ r, g (f r) = g r) {rows : List Row} {r : Row} (member : r ∈ rows) :
    ∃ r' ∈ update p f rows, g r' = g r := by
  have kept := List.mem_map_of_mem (f := g) member
  rw [← update_map (p := p) g keeps] at kept
  exact List.mem_map.mp kept

theorem update_eq_self {p : Row → Bool} {f : Row → Row} {rows : List Row}
    (none : ∀ r ∈ rows, p r = false) : update p f rows = rows := by
  have same : ∀ r ∈ rows, (if p r then f r else r) = r := fun r hr => by simp [none r hr]
  rw [update, List.map_congr_left same, List.map_id']

theorem update_congr {p q : Row → Bool} {f g : Row → Row} {rows : List Row}
    (same : ∀ r ∈ rows, p r = q r ∧ (p r = true → f r = g r)) :
    update p f rows = update q g rows := by
  apply List.map_congr_left
  intro r hr
  have h := same r hr
  by_cases hp : p r = true
  · simp [hp, ← h.1, h.2 hp]
  · simp [hp, ← h.1]

/-- A table and its update, row by row. -/
theorem forall₂_update {p : Row → Bool} {f : Row → Row} {rows : List Row} {R : Row → Row → Prop}
    (writes : ∀ r ∈ rows, p r = true → R r (f r)) (keeps : ∀ r ∈ rows, p r = false → R r r) :
    List.Forall₂ R rows (update p f rows) := by
  rw [update, List.forall₂_map_right_iff, List.forall₂_same]
  intro r hr
  by_cases hp : p r = true
  · rw [if_pos hp]
    exact writes r hr hp
  · rw [if_neg hp]
    exact keeps r hr (by simpa using hp)

theorem forall_update {p : Row → Bool} {f : Row → Row} {rows : List Row} {P : Row → Prop}
    (all : ∀ r ∈ rows, P r) (rewrites : ∀ r ∈ rows, p r = true → P r → P (f r)) :
    ∀ r ∈ update p f rows, P r := by
  intro r hr
  rcases mem_update.mp hr with ⟨old, hold, hp, rfl⟩ | ⟨hold, _⟩
  · exact rewrites old hold hp (all old hold)
  · exact all r hold

theorem unique_row {key : Row → Key} {rows : List Row} (unique : (rows.map key).Nodup)
    {x y : Row} (hx : x ∈ rows) (hy : y ∈ rows) (same : key x = key y) : x = y :=
  List.inj_on_of_nodup_map unique hx hy same

theorem affected_pos {p : Row → Bool} {rows : List Row} :
    0 < affected p rows ↔ ∃ r ∈ rows, p r = true := List.countP_pos_iff

theorem affected_le_one {key : Row → Key} {rows : List Row} (unique : (rows.map key).Nodup)
    {p : Row → Bool} (k : Key) (fixes : ∀ r ∈ rows, p r = true → key r = k) :
    affected p rows ≤ 1 := by
  induction rows with
  | nil => simp [affected]
  | cons r rest ih =>
    have tail := ih (List.nodup_cons.mp unique).2 (fun x hx => fixes x (List.mem_cons_of_mem _ hx))
    by_cases hp : p r = true
    · have none : rest.countP p = 0 := by
        rw [List.countP_eq_zero]
        intro x hx hpx
        have same : key x = key r :=
          (fixes x (List.mem_cons_of_mem _ hx) hpx).trans (fixes r List.mem_cons_self hp).symm
        exact (List.nodup_cons.mp unique).1 (same ▸ List.mem_map_of_mem hx)
      simp [affected, hp, none]
    · simpa [affected, hp] using tail

theorem affected_eq_one {key : Row → Key} {rows : List Row} (unique : (rows.map key).Nodup)
    {p : Row → Bool} (k : Key) (fixes : ∀ r ∈ rows, p r = true → key r = k) :
    affected p rows = 1 ↔ ∃ r ∈ rows, p r = true := by
  have upper := affected_le_one unique k fixes
  rw [← affected_pos]
  omega

theorem filter_eq_singleton {key : Row → Key} {rows : List Row} (unique : (rows.map key).Nodup)
    {p : Row → Bool} {r : Row} (member : r ∈ rows) (selected : p r = true)
    (only : ∀ x ∈ rows, p x = true → key x = key r) : rows.filter p = [r] := by
  have one := (affected_eq_one unique (key r) only).mpr ⟨r, member, selected⟩
  rw [affected, List.countP_eq_length_filter] at one
  obtain ⟨x, alone⟩ := List.length_eq_one_iff.mp one
  have inside : r ∈ rows.filter p := List.mem_filter.mpr ⟨member, selected⟩
  rw [alone, List.mem_singleton] at inside
  rw [alone, inside]

section Lookup

variable [DecidableEq Key]

def lookup (key : Row → Key) (k : Key) (rows : List Row) : Option Row :=
  rows.find? (fun r => key r == k)

theorem lookup_mem {key : Row → Key} {k : Key} {rows : List Row} {r : Row}
    (h : lookup key k rows = some r) : r ∈ rows ∧ key r = k :=
  ⟨List.mem_of_find?_eq_some h, by simpa using List.find?_some h⟩

theorem lookup_eq_none {key : Row → Key} {k : Key} {rows : List Row} :
    lookup key k rows = none ↔ ∀ r ∈ rows, key r ≠ k := by
  simp [lookup, List.find?_eq_none]

theorem lookup_of_mem {key : Row → Key} {rows : List Row} (unique : (rows.map key).Nodup)
    {r : Row} (member : r ∈ rows) : lookup key (key r) rows = some r := by
  cases found : lookup key (key r) rows with
  | none => exact absurd rfl (lookup_eq_none.mp found r member)
  | some x =>
    have hx := lookup_mem found
    rw [unique_row unique hx.1 member hx.2]

theorem lookup_update {key : Row → Key} {p : Row → Bool} {f : Row → Row}
    (keeps : ∀ r, key (f r) = key r) (k : Key) (rows : List Row) :
    lookup key k (update p f rows) =
      (lookup key k rows).map (fun r => if p r then f r else r) := by
  rw [lookup, update, List.find?_map]
  congr 2
  funext r
  by_cases hp : p r = true <;> simp [hp, keeps]

theorem lookup_append (key : Row → Key) (k : Key) (rows : List Row) (r : Row) :
    lookup key k (rows ++ [r]) =
      (lookup key k rows).or (if key r = k then some r else none) := by
  rw [lookup, List.find?_append]
  by_cases h : key r = k <;> simp [h, lookup]

end Lookup

section Order

variable (le : Row → Row → Prop) [DecidableRel le]

/-- ORDER BY le LIMIT 1 over the rows that meet p. -/
def first (p : Row → Bool) (rows : List Row) : Option Row :=
  ((rows.filter p).insertionSort le).head?

variable {le}

theorem mem_of_first {p : Row → Bool} {rows : List Row} {r : Row}
    (h : first le p rows = some r) : r ∈ rows ∧ p r = true := by
  have member : r ∈ (rows.filter p).insertionSort le := List.mem_of_mem_head? h
  rw [List.mem_insertionSort] at member
  exact List.mem_filter.mp member

theorem first_eq_none {p : Row → Bool} {rows : List Row} :
    first le p rows = none ↔ ∀ r ∈ rows, p r = false := by
  rw [first, List.head?_eq_none_iff, ← List.length_eq_zero_iff, List.length_insertionSort,
    List.length_eq_zero_iff, List.filter_eq_nil_iff]
  simp

theorem first_least [Std.Total le] [IsTrans Row le] {p : Row → Bool} {rows : List Row} {r : Row}
    (h : first le p rows = some r) : ∀ x ∈ rows, p x = true → x = r ∨ le r x := by
  intro x hx hp
  have sorted := List.pairwise_insertionSort le (rows.filter p)
  have member : x ∈ (rows.filter p).insertionSort le := by
    rw [List.mem_insertionSort]
    exact List.mem_filter.mpr ⟨hx, hp⟩
  unfold first at h
  cases list : (rows.filter p).insertionSort le with
  | nil => simp [list] at h
  | cons y rest =>
    rw [list] at h member sorted
    have head : y = r := by simpa using h
    subst head
    rcases List.mem_cons.mp member with rfl | later
    · exact .inl rfl
    · exact .inr ((List.pairwise_cons.mp sorted).1 x later)

/-- The first of all the rows is the first of any rows it is kept among. -/
theorem first_filter [Std.Total le] [IsTrans Row le] {p q : Row → Bool} {rows : List Row} {r : Row}
    (antisymm : ∀ x ∈ rows, ∀ y ∈ rows, le x y → le y x → x = y)
    (h : first le p rows = some r) (kept : q r = true) : first le p (rows.filter q) = some r := by
  obtain ⟨member, selected⟩ := mem_of_first h
  have inside : r ∈ rows.filter q := List.mem_filter.mpr ⟨member, kept⟩
  cases found : first le p (rows.filter q) with
  | none =>
    rw [first_eq_none.mp found r inside] at selected
    cases selected
  | some x =>
    obtain ⟨hx, px⟩ := mem_of_first found
    have hx := (List.mem_filter.mp hx).1
    rcases first_least h x hx px with same | after
    · rw [same]
    · rcases first_least found r inside selected with same | back
      · rw [same]
      · rw [antisymm x hx r member back after]

variable (le) in
/-- ORDER BY le over the rows that meet p. -/
def queue (p : Row → Bool) (rows : List Row) : List Row := (rows.filter p).insertionSort le

theorem first_eq_head (p : Row → Bool) (rows : List Row) : first le p rows = (queue le p rows).head? :=
  rfl

theorem mem_queue {p : Row → Bool} {rows : List Row} {r : Row} :
    r ∈ queue le p rows ↔ r ∈ rows ∧ p r = true := by
  rw [queue, List.mem_insertionSort, List.mem_filter]

theorem length_queue_le (p : Row → Bool) (rows : List Row) :
    (queue le p rows).length ≤ rows.length := by
  rw [queue, List.length_insertionSort]
  exact List.length_filter_le p rows

/-- A statement that takes the first row out of the queue leaves the rest of it, in its order. -/
theorem queue_update [DecidableEq Key] [Std.Total le] [IsTrans Row le] {key : Row → Key}
    {p : Row → Bool} {rows : List Row}
    (antisymm : ∀ x ∈ rows, ∀ y ∈ rows, le x y → le y x → x = y)
    (unique : (rows.map key).Nodup) {r : Row} {rest : List Row} (next : queue le p rows = r :: rest)
    {f : Row → Row} (leaves : p (f r) = false) :
    queue le p (update (fun x => key x == key r) f rows) = rest := by
  have member : r ∈ rows := (mem_queue.mp (next ▸ List.mem_cons_self)).1
  have kept : (update (fun x => key x == key r) f rows).filter p =
      rows.filter fun x => key x != key r && p x := by
    have selected : ∀ x ∈ rows, (p ∘ fun x => if key x == key r then f x else x) x =
        (key x != key r && p x) := by
      intro x hx
      by_cases same : key x = key r
      · simp [unique_row unique hx member same, leaves]
      · simp [same]
    have unchanged : ∀ x ∈ rows.filter (fun x => key x != key r && p x),
        (if key x == key r then f x else x) = x := by
      intro x hx
      have other := (List.mem_filter.mp hx).2
      rw [Bool.and_eq_true, bne_iff_ne] at other
      simp [other.1]
    rw [update, List.filter_map, List.filter_congr selected, List.map_congr_left unchanged,
      List.map_id']
  have whole : (rows.filter p).Perm (r :: rest) :=
    next ▸ (List.perm_insertionSort le (rows.filter p)).symm
  have sorted : (r :: rest).Pairwise le := next ▸ List.pairwise_insertionSort le (rows.filter p)
  have keys : ((r :: rest).map key).Nodup :=
    (whole.map key).nodup_iff.mp (unique.sublist (List.filter_sublist.map key))
  have others : (rows.filter fun x => key x != key r && p x).Perm rest := by
    have parted := whole.filter fun x => key x != key r
    have rest_kept : rest.filter (fun x => key x != key r) = rest := by
      refine List.filter_eq_self.mpr fun x hx => bne_iff_ne.mpr fun same => ?_
      exact (List.nodup_cons.mp keys).1 (same ▸ List.mem_map_of_mem hx)
    rwa [List.filter_filter, List.filter_cons_of_neg (by simp), rest_kept] at parted
  rw [queue, kept]
  refine List.Perm.eq_of_pairwise ?_ (List.pairwise_insertionSort le _)
    (List.pairwise_cons.mp sorted).2 ((List.perm_insertionSort le _).trans others)
  intro x y hx hy
  have inside : y ∈ rows := (mem_queue.mp (next ▸ List.mem_cons_of_mem r hy)).1
  rw [List.mem_insertionSort, List.mem_filter] at hx
  exact antisymm x hx.1 y inside

end Order

section Restriction

variable {p q : Row → Bool} {f : Row → Row} {rows : List Row}

/-- A statement that keeps a column commutes with keeping the rows of one value of it. -/
theorem filter_update (p : Row → Bool) (rows : List Row) (keeps : ∀ r, q (f r) = q r) :
    (update p f rows).filter q = update p f (rows.filter q) := by
  rw [update, List.filter_map, update]
  congr 1
  refine List.filter_congr fun r _ => ?_
  by_cases hp : p r = true <;> simp [hp, keeps]

theorem affected_filter (inside : ∀ r ∈ rows, p r = true → q r = true) :
    affected p (rows.filter q) = affected p rows := by
  rw [affected, affected, List.countP_filter]
  refine List.countP_congr fun r hr => ?_
  by_cases hp : p r = true <;> simp [hp, inside r hr]

theorem lookup_filter [DecidableEq Key] {key : Row → Key} {k : Key}
    (inside : ∀ r ∈ rows, key r = k → q r = true) :
    lookup key k (rows.filter q) = lookup key k rows := by
  rw [lookup, lookup, List.find?_filter]
  refine List.find?_congr fun r hr => ?_
  by_cases same : key r = k <;> simp [same, inside r hr]

end Restriction

end EalSync.Table
