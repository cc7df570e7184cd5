import EalSync.Ingestion.Keywords

/-! The entities of a text as a ranking of its phrases, and the phrases that reach from one sentence
into the next. -/
namespace EalSync.Ingestion

namespace SemanticViews

open Ranking

section

variable (unicode : Unicode)

/-- A raw token without the punctuation around it. -/
def entityToken (raw : Str) : Str :=
  Str.trimMatches (fun c => !unicode.isAlphanumeric c && c != '-' && c != Char.ofNat 39) raw

/-- The raw tokens of each phrase that is flushed, where one has begun. -/
def phrases : List Str → List Str → List (List Str)
  | phrase, [] => [phrase]
  | phrase, raw :: rest =>
    if isEntityToken unicode (entityToken unicode raw) then
      if phrase.length + 1 = 5 then (phrase ++ [raw]) :: phrases [] rest
      else phrases (phrase ++ [raw]) rest
    else phrase :: phrases [] rest

/-- The space-joined form of a phrase. -/
def joinPhrase (phrase : List Str) : Str := [' '].intercalate (phrase.map (entityToken unicode))

/-- A phrase that counts as an entity. -/
def Counted (phrase : List Str) : Prop :=
  phrase ≠ [] ∧ 3 ≤ (joinPhrase unicode phrase).length ∧
    isCommonSentenceLead (joinPhrase unicode phrase) = false

instance : DecidablePred (Counted unicode) := fun _ => inferInstanceAs (Decidable (_ ∧ _))

/-- The entities of some phrases, with their repetitions. -/
def entitiesOf (flushed : List (List Str)) : List Str :=
  (flushed.filter fun phrase => decide (Counted unicode phrase)).map (joinPhrase unicode)

def textPhrases (text : Str) : List (List Str) := phrases unicode [] (Str.splitWhitespace text)

theorem flushEntity_eq (phrase : List Str) (counts : List (Str × Nat)) :
    flushEntity (phrase.map (entityToken unicode)) counts =
      if Counted unicode phrase then Str.increment (joinPhrase unicode phrase) counts else counts := by
  have empty : (phrase.map (entityToken unicode)).isEmpty = true ↔ phrase = [] := by
    rw [List.isEmpty_iff, List.map_eq_nil_iff]
  rw [flushEntity]
  by_cases none : phrase = []
  · rw [if_pos (empty.mpr none), if_neg fun counted => counted.1 none]
  · rw [if_neg (empty.not.mpr none)]
    simp [Counted, none, joinPhrase]

/-- The loop counts the entities of the phrases. -/
theorem entityScan_eq (phrase : List Str) (counts : List (Str × Nat)) (raws : List Str) :
    entityScan unicode (phrase.map (entityToken unicode)) counts raws =
      (entitiesOf unicode (phrases unicode phrase raws)).foldl
        (fun counts entity => Str.increment entity counts) counts := by
  have flush (phrase : List Str) (more : List (List Str)) (counts : List (Str × Nat)) :
      (entitiesOf unicode (phrase :: more)).foldl
          (fun counts entity => Str.increment entity counts) counts =
        (entitiesOf unicode more).foldl (fun counts entity => Str.increment entity counts)
          (flushEntity (phrase.map (entityToken unicode)) counts) := by
    rw [entitiesOf, List.filter_cons, flushEntity_eq]
    by_cases counted : Counted unicode phrase
    · rw [if_pos (decide_eq_true counted), if_pos counted, List.map_cons, List.foldl_cons, entitiesOf]
    · rw [if_neg (by simpa using counted), if_neg counted, entitiesOf]
  induction raws generalizing phrase counts with
  | nil =>
    rw [entityScan, phrases, flush]
    rfl
  | cons raw rest ih =>
    have longer : phrase.map (entityToken unicode) ++ [entityToken unicode raw] =
        (phrase ++ [raw]).map (entityToken unicode) := by rw [List.map_append, List.map_singleton]
    rw [entityScan, phrases, List.length_map]
    rw [← entityToken]
    split
    · split
      · rw [flush, longer]
        exact ih [] _
      · rw [longer]
        exact ih (phrase ++ [raw]) counts
    · rw [flush]
      exact ih [] _

theorem extractEntities_eq (text : Str) (limit : Nat) :
    extractEntities unicode text limit =
      (ranking (entitiesOf unicode (textPhrases unicode text))).take limit := by
  have scanned := entityScan_eq unicode [] [] (Str.splitWhitespace text)
  rw [List.map_nil] at scanned
  rw [extractEntities, List.map_take, scanned, ranked_eq (Str.counts_foldl _), textPhrases]

variable {unicode}

/-- A phrase is made up of raw tokens that stand one after the other. -/
theorem mem_phrases {phrase raws flushed : List Str} (short : phrase.length < 5)
    (accepted : ∀ raw ∈ phrase, isEntityToken unicode (entityToken unicode raw) = true)
    (member : flushed ∈ phrases unicode phrase raws) :
    flushed <:+: phrase ++ raws ∧ flushed.length ≤ 5 ∧
      ∀ raw ∈ flushed, isEntityToken unicode (entityToken unicode raw) = true := by
  induction raws generalizing phrase with
  | nil =>
    rw [phrases, List.mem_singleton] at member
    rw [member, List.append_nil]
    exact ⟨List.infix_rfl, short.le, accepted⟩
  | cons raw rest ih =>
    have none : ∀ raw ∈ ([] : List Str), isEntityToken unicode (entityToken unicode raw) = true :=
      fun _ member => absurd member List.not_mem_nil
    have start : ([] : List Str).length < 5 := by decide
    have size : (phrase ++ [raw]).length = phrase.length + 1 := List.length_append
    have later : rest <:+: phrase ++ raw :: rest := ⟨phrase ++ [raw], [], by simp⟩
    rw [phrases] at member
    split at member
    · rename_i own
      have longer : ∀ other ∈ phrase ++ [raw],
          isEntityToken unicode (entityToken unicode other) = true := by
        rw [List.forall_mem_append, List.forall_mem_singleton]
        exact ⟨accepted, own⟩
      have front : phrase ++ [raw] <:+: phrase ++ raw :: rest := ⟨[], rest, by simp⟩
      split at member
      · rcases List.mem_cons.mp member with rfl | member
        · exact ⟨front, by omega, longer⟩
        · obtain ⟨inside, facts⟩ := ih start none member
          exact ⟨inside.trans later, facts⟩
      · obtain ⟨inside, facts⟩ := ih (by omega) longer member
        rw [List.append_assoc, List.singleton_append] at inside
        exact ⟨inside, facts⟩
    · rcases List.mem_cons.mp member with rfl | member
      · exact ⟨⟨[], raw :: rest, by simp⟩, short.le, accepted⟩
      · obtain ⟨inside, facts⟩ := ih start none member
        exact ⟨inside.trans later, facts⟩

/-- The raw token ends a sentence. -/
def endsSentence (raw : Str) : Bool := raw.getLast? == some '!' || raw.getLast? == some '?'

variable (unicode) in
/-- The joined form of one to five consecutive raw tokens of the text, none of which ends a sentence
but perhaps the last. -/
def InSentence (text entity : Str) : Prop :=
  ∃ front phrase back, Str.splitWhitespace text = front ++ phrase ++ back ∧
    (1 ≤ phrase.length ∧ phrase.length ≤ 5) ∧
    (∀ raw ∈ phrase, isEntityToken unicode (entityToken unicode raw) = true) ∧
    entity = joinPhrase unicode phrase ∧ ∀ raw ∈ phrase.dropLast, endsSentence raw = false

/-- The entities are each within one sentence exactly if those of the phrases are that have the end of
a sentence inside and are among the first. -/
theorem extractEntities_sentence_iff (text : Str) (limit : Nat) :
    (∀ entity ∈ extractEntities unicode text limit, InSentence unicode text entity) ↔
      ∀ phrase ∈ textPhrases unicode text, Counted unicode phrase →
        (∃ raw ∈ phrase.dropLast, endsSentence raw = true) →
        ahead (entitiesOf unicode (textPhrases unicode text)) (joinPhrase unicode phrase) < limit →
        InSentence unicode text (joinPhrase unicode phrase) := by
  have returned (entity : Str) : entity ∈ extractEntities unicode text limit ↔
      (∃ phrase ∈ textPhrases unicode text, Counted unicode phrase ∧ joinPhrase unicode phrase = entity) ∧
        ahead (entitiesOf unicode (textPhrases unicode text)) entity < limit := by
    rw [extractEntities_eq, mem_take_ranking]
    simp [entitiesOf, and_assoc]
  constructor
  · intro each phrase member counted _ room
    exact each _ ((returned _).mpr ⟨⟨phrase, member, counted, rfl⟩, room⟩)
  · intro crossing entity member
    obtain ⟨⟨phrase, inside, counted, rfl⟩, room⟩ := (returned entity).mp member
    by_cases across : ∃ raw ∈ phrase.dropLast, endsSentence raw = true
    · exact crossing phrase inside counted across room
    · obtain ⟨⟨front, back, split⟩, few, accepted⟩ := mem_phrases (by decide) (by simp) inside
      have within : ∀ raw ∈ phrase.dropLast, endsSentence raw = false := by simpa using across
      exact ⟨front, phrase, back, split.symm, ⟨List.length_pos_iff.mpr counted.1, few⟩, accepted, rfl,
        within⟩

end

theorem extractEntities_crossing :
    ¬∀ entity ∈ extractEntities Unicode.ascii "We met Anna! Bob left.".toList 1,
      InSentence Unicode.ascii "We met Anna! Bob left.".toList entity := by
  intro each
  have member : "Anna Bob".toList ∈ extractEntities Unicode.ascii "We met Anna! Bob left.".toList 1 := by
    decide +kernel
  obtain ⟨front, phrase, back, split, _, _, same, within⟩ := each _ member
  have inside : phrase ∈ (Str.splitWhitespace "We met Anna! Bob left.".toList).sublists := by
    rw [List.mem_sublists, split]
    exact (List.infix_append front phrase back).sublist
  have only : ∀ phrase ∈ (Str.splitWhitespace "We met Anna! Bob left.".toList).sublists,
      "Anna Bob".toList = joinPhrase Unicode.ascii phrase →
      ¬∀ raw ∈ phrase.dropLast, endsSentence raw = false := by
    decide +kernel
  exact only phrase inside same within

end SemanticViews

end EalSync.Ingestion
