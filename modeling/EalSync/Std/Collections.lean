import EalSync.Std.Text

/-! The ordered map and the filter on a set of keys: what each keeps of a list of items, where the
first of a key wins. -/
namespace EalSync.Str

variable {α : Type}

/-- entry(key).or_insert(value) on a map in the order of its keys. -/
def orInsert (key : Str) (value : α) : List (Str × α) → List (Str × α)
  | [] => [(key, value)]
  | (k, v) :: rest =>
    if key = k then (k, v) :: rest
    else if le key k then (key, value) :: (k, v) :: rest
    else (k, v) :: orInsert key value rest

/-- The entries of a BTreeMap. -/
def Ordered (map : List (Str × α)) : Prop := map.Pairwise fun x y => x.1 < y.1

theorem orInsert_of_mem {key : Str} (value : α) {map : List (Str × α)} (ordered : Ordered map)
    (member : key ∈ map.map Prod.fst) : orInsert key value map = map := by
  induction map with
  | nil => cases member
  | cons entry rest ih =>
    obtain ⟨k, v⟩ := entry
    obtain ⟨first, later⟩ := List.pairwise_cons.mp ordered
    by_cases same : key = k
    · simp [orInsert, same]
    · have inside := (List.mem_cons.mp member).resolve_left same
      obtain ⟨found, there, rfl⟩ := List.mem_map.mp inside
      have above : ¬found.1 ≤ k := not_le.mpr (first found there)
      simp [orInsert, same, le, above, ih later inside]

theorem orInsert_perm {key : Str} (value : α) {map : List (Str × α)} (fresh : key ∉ map.map Prod.fst) :
    (orInsert key value map).Perm ((key, value) :: map) := by
  induction map with
  | nil => exact List.Perm.refl _
  | cons entry rest ih =>
    obtain ⟨k, v⟩ := entry
    rw [List.map_cons, List.mem_cons, not_or] at fresh
    rw [orInsert, if_neg fresh.1]
    split
    · exact List.Perm.refl _
    · exact ((ih fresh.2).cons _).trans (List.Perm.swap _ _ _)

theorem orInsert_ordered {key : Str} (value : α) {map : List (Str × α)} (ordered : Ordered map) :
    Ordered (orInsert key value map) := by
  by_cases member : key ∈ map.map Prod.fst
  · rwa [orInsert_of_mem value ordered member]
  · induction map with
    | nil => exact List.pairwise_singleton _ _
    | cons entry rest ih =>
      obtain ⟨k, v⟩ := entry
      obtain ⟨first, later⟩ := List.pairwise_cons.mp ordered
      rw [List.map_cons, List.mem_cons, not_or] at member
      rw [orInsert, if_neg member.1]
      split
      · rename_i below
        have lower : key < k := lt_of_le_of_ne (of_decide_eq_true below) member.1
        refine List.pairwise_cons.mpr ⟨?_, ordered⟩
        rw [List.forall_mem_cons]
        exact ⟨lower, fun x there => lower.trans (first x there)⟩
      · rename_i above
        have upper : k < key := not_le.mp fun below => above (decide_eq_true below)
        refine List.pairwise_cons.mpr ⟨fun x there => ?_, ih later member.2⟩
        rcases List.mem_cons.mp ((orInsert_perm value member.2).subset there) with rfl | there
        · exact upper
        · exact first x there

/-- A key that is not there yet is inserted. -/
theorem increment_fresh {key : Str} {map : List (Str × Nat)} (fresh : key ∉ map.map Prod.fst) :
    increment key map = orInsert key 1 map := by
  induction map with
  | nil => rfl
  | cons entry rest ih =>
    rw [List.map_cons, List.mem_cons, not_or] at fresh
    rw [increment, orInsert, if_neg fresh.1, if_neg fresh.1, ih fresh.2]

theorem increment_here {key : Str} {n : Nat} {front back : List (Str × Nat)}
    (ordered : Ordered (front ++ (key, n) :: back)) :
    increment key (front ++ (key, n) :: back) = front ++ (key, n + 1) :: back := by
  induction front with
  | nil => rw [List.nil_append, List.nil_append, increment, if_pos rfl]
  | cons entry rest ih =>
    obtain ⟨first, later⟩ := List.pairwise_cons.mp ordered
    have below : entry.1 < key := first (key, n) (by simp)
    have above : ¬le key entry.1 = true := by
      rw [le, decide_eq_true_eq]
      exact not_le.mpr below
    rw [List.cons_append, increment, if_neg below.ne', if_neg above, ih later, List.cons_append]

/-- The entries of a map that counts the items. -/
structure Counts (items : List Str) (map : List (Str × Nat)) : Prop where
  ordered : Ordered map
  keys : ∀ key, key ∈ map.map Prod.fst ↔ key ∈ items
  values : ∀ entry ∈ map, entry.2 = items.count entry.1

theorem Counts.push_fresh {items : List Str} {map : List (Str × Nat)} (counts : Counts items map)
    {key : Str} (fresh : key ∉ items) : Counts (items ++ [key]) (increment key map) := by
  have new := (counts.keys key).not.mpr fresh
  have perm := orInsert_perm 1 new
  rw [increment_fresh new]
  refine ⟨orInsert_ordered 1 counts.ordered, fun k => ?_, fun entry member => ?_⟩
  · rw [(perm.map Prod.fst).mem_iff, List.map_cons, List.mem_cons, counts.keys, List.mem_append,
      List.mem_singleton, or_comm]
  · rcases List.mem_cons.mp (perm.subset member) with rfl | inside
    · rw [List.count_append, List.count_eq_zero.mpr fresh, List.count_singleton_self]
    · have other : entry.1 ≠ key := fun same => new (same ▸ List.mem_map_of_mem inside)
      rw [List.count_append, counts.values entry inside, List.count_singleton,
        if_neg (by simpa using other.symm), Nat.add_zero]

theorem Counts.push_again {items : List Str} {map : List (Str × Nat)} (counts : Counts items map)
    {key : Str} (again : key ∈ items) : Counts (items ++ [key]) (increment key map) := by
  obtain ⟨⟨k, n⟩, there, same⟩ := List.mem_map.mp ((counts.keys key).mpr again)
  obtain rfl : k = key := same
  obtain ⟨front, back, rfl⟩ := List.append_of_mem there
  have keys : (front ++ (k, n + 1) :: back).map Prod.fst = (front ++ (k, n) :: back).map Prod.fst := by
    simp
  obtain ⟨_, later, across⟩ := List.pairwise_append.mp counts.ordered
  have unchanged : ∀ entry ∈ front ++ back, entry.1 ≠ k := by
    intro entry member
    rcases List.mem_append.mp member with before | behind
    · exact (across entry before (k, n) List.mem_cons_self).ne
    · exact (List.rel_of_pairwise_cons later behind).ne'
  rw [increment_here counts.ordered]
  refine ⟨?_, fun other => ?_, fun entry member => ?_⟩
  · have ordered := List.pairwise_map.mpr counts.ordered
    rw [← keys] at ordered
    exact List.pairwise_map.mp ordered
  · rw [keys, counts.keys, List.mem_append, List.mem_singleton]
    exact ⟨.inl, fun either => either.elim id fun same => same ▸ again⟩
  · have own := counts.values (k, n) there
    rw [List.mem_append, List.mem_cons, or_left_comm, ← List.mem_append] at member
    rcases member with rfl | inside
    · rw [List.count_append, List.count_singleton_self, ← own]
    · have old : entry ∈ front ++ (k, n) :: back := by
        rw [List.mem_append, List.mem_cons, or_left_comm, ← List.mem_append]
        exact .inr inside
      rw [List.count_append, counts.values entry old, List.count_singleton,
        if_neg (by simpa using (unchanged entry inside).symm), Nat.add_zero]

/-- entry(item).or_default() += 1 for each item counts them. -/
theorem counts_foldl (items : List Str) :
    Counts items (items.foldl (fun map item => increment item map) []) := by
  induction items using List.reverseRecOn with
  | nil => exact ⟨List.Pairwise.nil, fun _ => Iff.rfl, fun _ member => absurd member List.not_mem_nil⟩
  | append_singleton items item ih =>
    rw [List.foldl_append, List.foldl_cons, List.foldl_nil]
    by_cases again : item ∈ items
    · exact ih.push_again again
    · exact ih.push_fresh again

section

variable (key : α → Str)

theorem firsts_sublist (seen : List Str) (items : List α) : (firsts key seen items).Sublist items := by
  induction items generalizing seen with
  | nil => exact List.Sublist.refl _
  | cons item rest ih =>
    rw [firsts]
    split
    · exact (ih seen).cons item
    · exact (ih (key item :: seen)).cons_cons item

/-- Only which keys were seen matters. -/
theorem firsts_congr {seen other : List Str} (same : ∀ k, k ∈ seen ↔ k ∈ other) (items : List α) :
    firsts key seen items = firsts key other items := by
  induction items generalizing seen other with
  | nil => rfl
  | cons item rest ih =>
    have tail : ∀ k, k ∈ key item :: seen ↔ k ∈ key item :: other := fun k => by
      rw [List.mem_cons, List.mem_cons, same]
    simp only [firsts, List.contains_iff_mem, same, ih same, ih tail]

variable {key}

/-- The items whose key was not seen, neither before nor in the list. -/
theorem mem_firsts {seen : List Str} {items : List α} {item : α} :
    item ∈ firsts key seen items ↔ key item ∉ seen ∧
      ∃ front back, items = front ++ item :: back ∧ ∀ earlier ∈ front, key earlier ≠ key item := by
  induction items generalizing seen with
  | nil => simp [firsts]
  | cons x rest ih =>
    rw [firsts]
    split
    · rename_i known
      rw [List.contains_iff_mem] at known
      rw [ih]
      refine and_congr_right fun fresh => ?_
      constructor
      · rintro ⟨front, back, rfl, none⟩
        refine ⟨x :: front, back, rfl, List.forall_mem_cons.mpr ⟨fun same => ?_, none⟩⟩
        exact fresh (same ▸ known)
      · rintro ⟨front, back, whole, none⟩
        rcases List.cons_eq_append_iff.mp whole with ⟨rfl, same⟩ | ⟨front, rfl, rest⟩
        · cases same
          exact absurd known fresh
        · exact ⟨front, back, rest, (List.forall_mem_cons.mp none).2⟩
    · rename_i unknown
      rw [List.contains_iff_mem] at unknown
      rw [List.mem_cons, ih, List.mem_cons, not_or]
      constructor
      · rintro (rfl | ⟨fresh, front, back, rfl, none⟩)
        · exact ⟨unknown, [], rest, rfl, by simp⟩
        · exact ⟨fresh.2, x :: front, back, rfl, List.forall_mem_cons.mpr ⟨Ne.symm fresh.1, none⟩⟩
      · rintro ⟨fresh, front, back, whole, none⟩
        rcases List.cons_eq_append_iff.mp whole with ⟨rfl, same⟩ | ⟨front, rfl, rest⟩
        · cases same
          exact .inl rfl
        · rw [List.forall_mem_cons] at none
          exact .inr ⟨⟨Ne.symm none.1, fresh⟩, front, back, rest, none.2⟩

theorem firsts_nodup (seen : List Str) (items : List α) : ((firsts key seen items).map key).Nodup := by
  induction items generalizing seen with
  | nil => exact List.nodup_nil
  | cons x rest ih =>
    rw [firsts]
    split
    · exact ih seen
    · rw [List.map_cons, List.nodup_cons]
      refine ⟨fun member => ?_, ih (key x :: seen)⟩
      obtain ⟨item, inside, same⟩ := List.mem_map.mp member
      exact (mem_firsts.mp inside).1 (same ▸ List.mem_cons_self)

theorem firsts_eq_nil {seen : List Str} {items : List α} :
    firsts key seen items = [] ↔ ∀ item ∈ items, key item ∈ seen := by
  induction items with
  | nil => simp [firsts]
  | cons x rest ih =>
    rw [firsts, List.forall_mem_cons]
    split
    · rename_i known
      rw [ih, and_iff_right (List.contains_iff_mem.mp known)]
    · rename_i unknown
      simp [List.contains_iff_mem.not.mp unknown]

theorem firsts_append (seen : List Str) (front back : List α) :
    firsts key seen (front ++ back) =
      firsts key seen front ++ firsts key (front.map key ++ seen) back := by
  induction front generalizing seen with
  | nil => rfl
  | cons x rest ih =>
    rw [List.cons_append, firsts, firsts]
    split
    · rename_i known
      rw [List.contains_iff_mem] at known
      have same : ∀ k, k ∈ rest.map key ++ seen ↔ k ∈ (x :: rest).map key ++ seen := by
        intro k
        simp only [List.map_cons, List.cons_append, List.mem_append, List.mem_cons]
        grind
      rw [ih, firsts_congr key same]
    · have same : ∀ k, k ∈ rest.map key ++ key x :: seen ↔ k ∈ (x :: rest).map key ++ seen := by
        intro k
        simp only [List.map_cons, List.cons_append, List.mem_append, List.mem_cons]
        grind
      rw [ih, firsts_congr key same, List.cons_append]

theorem firsts_eq_self {items : List α} : firsts key [] items = items ↔ (items.map key).Nodup := by
  constructor
  · intro whole
    have distinct : ((firsts key [] items).map key).Nodup := firsts_nodup [] items
    rwa [whole] at distinct
  · intro distinct
    induction items using List.reverseRecOn with
    | nil => rfl
    | append_singleton front x ih =>
      rw [List.map_append, List.map_singleton, List.nodup_append] at distinct
      have fresh : key x ∉ front.map key ++ [] := by
        rw [List.append_nil]
        exact fun member => distinct.2.2 _ member _ (List.mem_singleton_self _) rfl
      rw [firsts_append, ih distinct.1, firsts, if_neg (List.contains_iff_mem.not.mpr fresh), firsts]

/-- The first items without repetitions against the first of those without repetitions: they are the
same if nothing is repeated, or if nothing new comes later. -/
theorem firsts_take_iff {n : Nat} {items : List α} :
    firsts key [] (items.take n) = (firsts key [] items).take n ↔
      ((items.take n).map key).Nodup ∨ ∀ item ∈ items.drop n, key item ∈ (items.take n).map key := by
  have parts : firsts key [] items =
      firsts key [] (items.take n) ++ firsts key ((items.take n).map key ++ []) (items.drop n) := by
    rw [← firsts_append, List.take_append_drop]
  have few := (firsts_sublist key [] (items.take n)).length_le
  have front := List.length_take_le n items
  rw [parts, List.take_append, List.take_of_length_le (few.trans front), List.self_eq_append_right,
    List.take_eq_nil_iff, firsts_eq_nil, List.append_nil, ← firsts_eq_self]
  refine or_congr_left' fun later => ?_
  have long : n < items.length := by
    by_contra short
    rw [List.drop_of_length_le (not_lt.mp short)] at later
    simp at later
  have size : (items.take n).length = n := List.length_take_of_le long.le
  constructor
  · intro none
    exact (firsts_sublist key [] (items.take n)).eq_of_length (by omega)
  · intro whole
    rw [whole, size, Nat.sub_self]

variable (key)

/-- A loop that inserts the items until the map has so many entries. -/
def insertUpTo (limit : Nat) : List (Str × α) → List α → List (Str × α)
  | map, [] => map
  | map, item :: rest =>
    let map := orInsert (key item) item map
    if map.length ≥ limit then map else insertUpTo limit map rest

variable {key}

theorem insertUpTo_ordered (limit : Nat) {map : List (Str × α)} (ordered : Ordered map)
    (items : List α) : Ordered (insertUpTo key limit map items) := by
  induction items generalizing map with
  | nil => exact ordered
  | cons item rest ih =>
    have still := @orInsert_ordered α (key item) item map ordered
    rw [insertUpTo]
    split
    · exact still
    · exact ih still

/-- The loop adds the first items of new keys, as many as there is room for. -/
theorem insertUpTo_perm {limit : Nat} {map : List (Str × α)} (ordered : Ordered map)
    (room : map.length < limit) (items : List α) :
    (insertUpTo key limit map items).Perm (map ++ ((firsts key (map.map Prod.fst) items).take
      (limit - map.length)).map fun item => (key item, item)) := by
  induction items generalizing map with
  | nil => simp [insertUpTo, firsts]
  | cons item rest ih =>
    rw [insertUpTo, firsts]
    by_cases known : key item ∈ map.map Prod.fst
    · have full : ¬map.length ≥ limit := by omega
      rw [orInsert_of_mem item ordered known, if_neg full,
        if_pos (List.contains_iff_mem.mpr known)]
      exact ih ordered room
    · have grown := orInsert_perm item known
      have size := grown.length_eq
      rw [List.length_cons] at size
      obtain ⟨more, left⟩ := Nat.exists_eq_add_of_lt room
      have next : limit - map.length = more + 1 := by omega
      rw [if_neg (mt List.contains_iff_mem.mp known), next, List.take_succ_cons, List.map_cons]
      apply List.Perm.trans _ List.perm_middle.symm
      split
      · have none : more = 0 := by omega
        rw [none, List.take_zero, List.map_nil, List.append_nil]
        exact grown
      · have same : ∀ k, k ∈ (orInsert (key item) item map).map Prod.fst ↔
            k ∈ key item :: map.map Prod.fst := fun k => (grown.map Prod.fst).mem_iff
        have later := ih (@orInsert_ordered α (key item) item map ordered) (by omega)
        rw [firsts_congr key same, size, show limit - (map.length + 1) = more by omega] at later
        exact later.trans (grown.append_right _)

theorem insertUpTo_values {limit : Nat} (pos : 0 < limit) (items : List α) :
    ((insertUpTo key limit [] items).map Prod.snd).Perm ((firsts key [] items).take limit) := by
  have found := @insertUpTo_perm α key limit [] List.Pairwise.nil pos items
  have values := found.map Prod.snd
  have self : (Prod.snd ∘ fun item => (key item, item)) = id := rfl
  rw [List.nil_append, List.map_map, self, List.map_id] at values
  exact values

theorem insertUpTo_sorted {limit : Nat} (pos : 0 < limit) (items : List α) :
    ((insertUpTo key limit [] items).map Prod.snd).Pairwise fun x y => key x < key y := by
  have found := @insertUpTo_perm α key limit [] List.Pairwise.nil pos items
  have ordered := @insertUpTo_ordered α key limit [] List.Pairwise.nil items
  have own : ∀ entry ∈ insertUpTo key limit [] items, entry.1 = key entry.2 := by
    intro entry member
    obtain ⟨item, _, rfl⟩ := List.mem_map.mp (found.subset member)
    rfl
  rw [List.pairwise_map]
  exact List.Pairwise.imp_of_mem (fun first second below => own _ first ▸ own _ second ▸ below) ordered

end

theorem length_toChunks_go {size : Nat} (items : List α) (chunk : Array α) (done : Array (List α))
    (some : 1 ≤ chunk.size ∧ chunk.size ≤ size) :
    (List.toChunks.go size items chunk done).length * size <
      done.size * size + chunk.size + items.length + size := by
  induction items generalizing chunk done with
  | nil =>
    simp only [List.toChunks.go, Array.length_toList, Array.size_push, List.length_nil, Nat.add_mul]
    omega
  | cons item rest ih =>
    rw [List.toChunks.go]
    split
    · rename_i full
      have one : ((Array.mkEmpty size).push item).size = 1 := by simp
      have later := ih ((Array.mkEmpty size).push item) (done.push chunk.toList) (by omega)
      rw [one, Array.size_push, Nat.add_mul] at later
      have whole := eq_of_beq full
      rw [List.length_cons]
      omega
    · rename_i unfilled
      have room : chunk.size ≠ size := fun same => unfilled (beq_iff_eq.mpr same)
      have later := ih (chunk.push item) done (by rw [Array.size_push]; omega)
      rw [Array.size_push] at later
      rw [List.length_cons]
      omega

/-- Only the last chunk may be short. -/
theorem length_chunks {size : Nat} (pos : 0 < size) (items : List α) :
    (chunks size items).length * size < items.length + size := by
  cases items with
  | nil => simpa [chunks, List.toChunks] using pos
  | cons item rest =>
    obtain ⟨n, rfl⟩ := Nat.exists_eq_succ_of_ne_zero pos.ne'
    have counted := @length_toChunks_go α (n + 1) rest #[item] #[] (by simp)
    simp only [List.size_toArray, List.length_nil, Nat.zero_mul, List.length_cons] at counted
    rw [List.length_cons, Nat.add_comm rest.length]
    simpa [chunks, List.toChunks] using counted

end EalSync.Str
