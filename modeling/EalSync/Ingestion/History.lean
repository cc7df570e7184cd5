import EalSync.Ingestion.Revision

/-! The polls of one document: each revision that is stored gives the previous hash of the next
decision. What a run decides is a function of the digests in lower case. -/
namespace EalSync.Ingestion

/-- A SHA-256 hexadecimal digest, in any case. -/
structure Digest where
  text : Str
  length : text.length = 64
  hexadecimal : ∀ c ∈ text, Str.isAsciiHexdigit c = true

theorem validateSha256_ok {value : Str} : validateSha256 value = .ok () ↔
    value.length = 64 ∧ ∀ c ∈ value, Str.isAsciiHexdigit c = true := by
  by_cases hex : ∀ c ∈ value, Str.isAsciiHexdigit c = true
  · have len := Str.len_of_ascii fun c member => Str.hexdigit_ascii (hex c member)
    simp [validateSha256, len, List.all_eq_true]
  · simp [validateSha256, List.all_eq_true, hex]

namespace Digest

theorem valid (d : Digest) : validateSha256 d.text = .ok () :=
  validateSha256_ok.mpr ⟨d.length, d.hexadecimal⟩

def lower (d : Digest) : Digest where
  text := Str.toAsciiLowercase d.text
  length := by rw [Str.toAsciiLowercase, List.length_map, d.length]
  hexadecimal := by
    intro c member
    obtain ⟨upper, inside, rfl⟩ := List.mem_map.mp member
    exact Str.hexdigit_toLower (d.hexadecimal upper inside)

/-- What the chain keeps of a digest. -/
def key (d : Digest) : Str := d.lower.text

theorem lower_key (d : Digest) : Str.toAsciiLowercase d.key = d.key :=
  Str.toAsciiLowercase_idem d.text

end Digest

/-- One poll: the decision, and the previous hash of the next poll. -/
def poll (previous : Option Str) (digest : Str) :
    Except IngestionError (RevisionDecision × Option Str) :=
  match decideRevision previous digest with
  | .error e => .error e
  | .ok .unchanged => .ok (.unchanged, previous)
  | .ok (.storeRevision before content) => .ok (.storeRevision before content, some content)

def polls : Option Str → List Str → Except IngestionError (List RevisionDecision)
  | _, [] => .ok []
  | previous, digest :: rest => do
    let (decision, next) ← poll previous digest
    let more ← polls next rest
    .ok (decision :: more)

/-- The previous and the own hash of each revision that is stored. -/
def stored (decisions : List RevisionDecision) : List (Option Str × Str) :=
  decisions.filterMap fun decision => match decision with
    | .unchanged => none
    | .storeRevision previous content => some (previous, content)

/-- The decisions on polls after one that had this key. -/
def decisions : Option Str → List Str → List RevisionDecision
  | _, [] => []
  | previous, key :: rest =>
    (if previous = some key then .unchanged else .storeRevision previous key) ::
      decisions (some key) rest

theorem decideRevision_digest (previous : Option Digest) (d : Digest) :
    decideRevision (previous.map Digest.key) d.text =
      .ok (if previous.map Digest.key = some d.key then .unchanged
        else .storeRevision (previous.map Digest.key) d.key) := by
  cases previous with
  | none => simp [decideRevision, d.valid, Digest.key, Digest.lower]
  | some p =>
    have before : validateSha256 p.key = .ok () := p.lower.valid
    have same : Str.eqIgnoreAsciiCase p.key d.text = true ↔ p.key = d.key := by
      rw [Str.eqIgnoreAsciiCase_iff, p.lower_key]
      rfl
    simp only [Option.map_some, decideRevision, d.valid, before, same, p.lower_key,
      Option.some.injEq]
    split <;> rfl

theorem poll_digest (previous : Option Digest) (d : Digest) :
    poll (previous.map Digest.key) d.text =
      .ok (if previous.map Digest.key = some d.key then .unchanged
        else .storeRevision (previous.map Digest.key) d.key, some d.key) := by
  rw [poll, decideRevision_digest]
  by_cases same : previous.map Digest.key = some d.key
  · simp [same]
  · simp [same]

/-- Every poll succeeds, and its decision depends on the keys alone. -/
theorem polls_eq (previous : Option Digest) (digests : List Digest) :
    polls (previous.map Digest.key) (digests.map Digest.text) =
      .ok (decisions (previous.map Digest.key) (digests.map Digest.key)) := by
  induction digests generalizing previous with
  | nil => rfl
  | cons d rest ih =>
    rw [List.map_cons, polls, poll_digest]
    have more := ih (some d)
    rw [Option.map_some] at more
    simp only [bind, Except.bind, more]
    rfl

theorem polls_start (digests : List Digest) :
    polls none (digests.map Digest.text) = .ok (decisions none (digests.map Digest.key)) :=
  polls_eq none digests

def Stores (decisions : List RevisionDecision) (i : Nat) : Prop :=
  ∃ previous content, decisions[i]? = some (.storeRevision previous content)

/-- Each revision links to the content of the one before it. -/
def Linked : Option Str → List (Option Str × Str) → Prop
  | _, [] => True
  | last, (previous, content) :: rest => previous = last ∧ Linked (some content) rest

section

variable (previous : Option Str) (keys : List Str)

theorem length_decisions : (decisions previous keys).length = keys.length := by
  induction keys generalizing previous with
  | nil => rfl
  | cons key rest ih => rw [decisions, List.length_cons, ih, List.length_cons]

theorem stored_unchanged (key : Str) (rest : List Str) :
    stored (decisions (some key) (key :: rest)) = stored (decisions (some key) rest) := by
  rw [decisions, if_pos rfl]
  rfl

theorem stored_changed {previous : Option Str} {key : Str} (rest : List Str)
    (differ : previous ≠ some key) :
    stored (decisions previous (key :: rest)) =
      (previous, key) :: stored (decisions (some key) rest) := by
  rw [decisions, if_neg differ]
  rfl

/-- The decision at each place compares two polls that are next to each other. -/
theorem stores_iff {keys : List Str} {i : Nat} {key : Str} (here : keys[i]? = some key) :
    Stores (decisions previous keys) i ↔ (if i = 0 then previous else keys[i - 1]?) ≠ some key := by
  induction keys generalizing previous i with
  | nil => cases here
  | cons first rest ih =>
    cases i with
    | zero =>
      cases here
      by_cases same : previous = some key <;> simp [Stores, decisions, same]
    | succ i =>
      have later := ih (some first) here
      cases i with
      | zero => simpa [Stores, decisions] using later
      | succ i => simpa [Stores, decisions] using later

theorem linked_stored : Linked previous (stored (decisions previous keys)) := by
  induction keys generalizing previous with
  | nil => trivial
  | cons key rest ih =>
    by_cases same : previous = some key
    · subst same
      rw [stored_unchanged]
      exact ih (some key)
    · rw [stored_changed rest same]
      exact ⟨rfl, ih (some key)⟩

/-- What holds of every key holds of every hash that is stored. -/
theorem stored_forall {P : Str → Prop} {previous : Option Str} {keys : List Str}
    (start : ∀ key, previous = some key → P key) (all : ∀ key ∈ keys, P key) :
    ∀ revision ∈ stored (decisions previous keys),
      P revision.2 ∧ ∀ key, revision.1 = some key → P key := by
  induction keys generalizing previous with
  | nil => exact fun _ none => absurd none List.not_mem_nil
  | cons first rest ih =>
    have here := all first List.mem_cons_self
    have later := @ih (some first) (fun key same => by cases same; exact here)
      fun key inside => all key (List.mem_cons_of_mem first inside)
    by_cases same : previous = some first
    · subst same
      rw [stored_unchanged]
      exact later
    · rw [stored_changed rest same]
      intro revision inside
      rcases List.mem_cons.mp inside with rfl | inside
      · exact ⟨here, start⟩
      · exact later revision inside

/-- A poll that is repeated at once stores nothing. -/
theorem stored_replicate (n : Nat) (key : Str) :
    stored (decisions (some key) (List.replicate n key ++ keys)) = stored (decisions (some key) keys) := by
  induction n with
  | zero => rfl
  | succ n ih => rw [List.replicate_succ, List.cons_append, stored_unchanged, ih]

theorem stored_stutter (runs : List (Str × Nat)) :
    stored (decisions previous (Changes.stutter runs)) =
      stored (decisions previous (runs.map Prod.fst)) := by
  induction runs generalizing previous with
  | nil => rfl
  | cons run rest ih =>
    obtain ⟨key, n⟩ := run
    have split : Changes.stutter ((key, n) :: rest) =
        key :: (List.replicate n key ++ Changes.stutter rest) := by
      rw [Changes.stutter, List.flatMap_cons, List.replicate_succ]
      rfl
    rw [split, List.map_cons]
    by_cases same : previous = some key
    · subst same
      rw [stored_unchanged, stored_unchanged, stored_replicate, ih]
    · rw [stored_changed _ same, stored_changed _ same, stored_replicate, ih]

theorem contents_destutter' (key : Str) :
    key :: (stored (decisions (some key) keys)).map Prod.snd = keys.destutter' (· ≠ ·) key := by
  induction keys generalizing key with
  | nil => rfl
  | cons next rest ih =>
    by_cases differ : key ≠ next
    · have other : some key ≠ some next := fun same => differ (Option.some.inj same)
      rw [stored_changed rest other, List.map_cons, ih, List.destutter'_cons_pos rest differ]
    · cases not_not.mp differ
      rw [stored_unchanged, ih, List.destutter'_cons_neg rest differ]

/-- The chain is the list of polled digests without its adjacent repetitions. -/
theorem contents_destutter :
    (stored (decisions none keys)).map Prod.snd = keys.destutter (· ≠ ·) := by
  cases keys with
  | nil => rfl
  | cons key rest =>
    rw [stored_changed rest (by simp), List.map_cons, contents_destutter']
    rfl

end

/-- Any run of polls succeeds and stores a chain of revisions. -/
theorem revision_chain (digests : List Digest) :
    ∃ run, polls none (digests.map Digest.text) = .ok run ∧
      run.length = digests.length ∧
      (∀ i d, digests[i]? = some d → (Stores run i ↔ i = 0 ∨ ∃ before, digests[i - 1]? = some before ∧
        Str.eqIgnoreAsciiCase before.text d.text = false)) ∧
      Linked none (stored run) ∧
      (∀ revision ∈ stored run, Str.toAsciiLowercase revision.2 = revision.2 ∧
        ∀ previous, revision.1 = some previous → Str.toAsciiLowercase previous = previous) ∧
      ∀ repeated : List (Digest × Nat), repeated.map Prod.fst = digests →
        ∃ again, polls none ((Changes.stutter repeated).map Digest.text) = .ok again ∧
          stored again = stored run := by
  refine ⟨_, polls_start digests, ?_, ?_, linked_stored none _, ?_, ?_⟩
  · rw [length_decisions, List.length_map]
  · intro i d here
    have place : (digests.map Digest.key)[i]? = some d.key := by rw [List.getElem?_map, here]; rfl
    have differ (before : Digest) :
        Str.eqIgnoreAsciiCase before.text d.text = false ↔ before.key ≠ d.key := by
      rw [← Bool.not_eq_true, Str.eqIgnoreAsciiCase_iff]
      rfl
    rw [stores_iff none place]
    cases i with
    | zero => simp
    | succ i =>
      have room : i < digests.length := by
        have bound := (List.getElem?_eq_some_iff.mp here).1
        omega
      simp [differ, List.getElem?_eq_getElem room]
  · have lowered : ∀ key ∈ digests.map Digest.key, Str.toAsciiLowercase key = key := by
      intro key inside
      obtain ⟨d, _, rfl⟩ := List.mem_map.mp inside
      exact d.lower_key
    exact @stored_forall (fun s => Str.toAsciiLowercase s = s) none _ (by simp) lowered
  · rintro repeated rfl
    refine ⟨_, polls_start _, ?_⟩
    rw [Changes.map_stutter, stored_stutter, List.map_map, List.map_map]
    rfl

namespace Digest

/-- The digest of one digit. -/
def filled (c : Char) (hex : Str.isAsciiHexdigit c = true) : Digest where
  text := List.replicate 64 c
  length := List.length_replicate
  hexadecimal := by
    intro x inside
    rw [List.eq_of_mem_replicate inside, hex]

def pageA : Digest := filled 'a' (by decide)

def pageB : Digest := filled 'B' (by decide)

end Digest

/-- A page that returns to an earlier content is stored again. -/
theorem content_stored_again : ∃ run,
    polls none ([Digest.pageA, Digest.pageB, Digest.pageA].map Digest.text) = .ok run ∧
      ¬((stored run).map Prod.snd).Nodup := by
  refine ⟨_, polls_start _, ?_⟩
  decide +kernel

/-- No content is stored twice exactly when no digest is polled again after another one. -/
theorem content_stored_once (digests : List Digest) :
    ∃ run, polls none (digests.map Digest.text) = .ok run ∧
      (((stored run).map Prod.snd).Nodup ↔
        ¬Changes.Returns (digests.map fun d => Str.toAsciiLowercase d.text)) := by
  refine ⟨_, polls_start digests, ?_⟩
  rw [contents_destutter, Changes.nodup_destutter]
  rfl

end EalSync.Ingestion
