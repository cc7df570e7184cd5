import EalSync.Ingestion.Inputs
import EalSync.Lib.Stretches
import EalSync.Std.Collections

/-! The sentences of a text: what the loop of complete_sentences makes of each stretch up to a
terminator, and how the limit, the long stretches and the repetitions act together. -/
namespace EalSync.Ingestion

namespace SemanticViews

open Stretches Words

def terminator (c : Char) : Bool := c == '.' || c == '!' || c == '?'

def Fits (candidate : Str) : Prop :=
  (6 ≤ (Str.splitWhitespace candidate).length ∧ (Str.splitWhitespace candidate).length ≤ 110) ∧
    36 ≤ candidate.length ∧ candidate.length ≤ 900

instance : DecidablePred Fits := fun _ => inferInstanceAs (Decidable (_ ∧ _))

/-- What the buffer holds at the end of a stretch: its last characters, without the full buffers
before them. -/
def lastPart (stretch : Str) : Str := stretch.drop (1001 * ((stretch.length - 1) / 1001))

def candidate (stretch : Str) : Str := collapseWhitespace (lastPart stretch)

/-- The candidates of some stretches that are within the bounds. -/
def fittings (parts : List Str) : List Str := (parts.map candidate).filter fun s => decide (Fits s)

def candidates (text : Str) : List Str := fittings (stretches terminator text)

theorem terminator_iff {c : Char} : terminator c = true ↔ c = '.' ∨ c = '!' ∨ c = '?' := by
  simp [terminator, or_assoc]

theorem lastPart_eq (body : Str) (x : Char) : lastPart (body ++ [x]) = remainder 1001 body ++ [x] := by
  have within : 1001 * (body.length / 1001) ≤ body.length := Nat.mul_div_le _ _
  rw [lastPart, List.length_append, List.length_singleton, Nat.add_sub_cancel,
    List.drop_append_of_le_length within, remainder]

theorem lastPart_short {stretch : Str} (short : stretch.length ≤ 1001) : lastPart stretch = stretch := by
  rw [lastPart, Nat.div_eq_of_lt (by omega), Nat.mul_zero, List.drop_zero]

section

variable (limit : Nat) (sentences : List Str)

theorem empty_buffer : ([] : Str).length ≤ 1000 := Nat.zero_le 1000

/-- Before a terminator, the loop only fills its buffer. -/
theorem sentenceScan_body {buffer body : Str} (room : buffer.length ≤ 1000)
    (plain : Solid terminator body) (rest : Str) :
    sentenceScan limit sentences buffer (body ++ rest) =
      sentenceScan limit sentences (remainder 1001 (buffer ++ body)) rest := by
  induction body generalizing buffer with
  | nil => rw [List.nil_append, List.append_nil, remainder_short (by omega)]
  | cons c body ih =>
    obtain ⟨inside, later⟩ := List.forall_mem_cons.mp plain
    have go_on : ¬(c = '.' ∨ c = '!' ∨ c = '?') := by
      rw [← terminator_iff, inside]
      exact Bool.false_ne_true
    have size : (buffer ++ [c]).length = buffer.length + 1 := List.length_append
    have parts : buffer ++ c :: body = buffer ++ [c] ++ body := List.append_cons _ _ _
    rw [List.cons_append, sentenceScan, if_neg go_on, parts]
    by_cases full : (buffer ++ [c]).length > 1000
    · rw [if_pos full, ih empty_buffer later, List.nil_append,
        remainder_full (by decide) (by omega) body]
    · rw [if_neg full, ih (by omega) later]

theorem sentenceScan_solid {text : Str} (plain : Solid terminator text) :
    sentenceScan limit sentences [] text = sentences := by
  have through := sentenceScan_body limit sentences empty_buffer plain []
  rw [List.append_nil] at through
  rw [through, sentenceScan]

/-- At a terminator, the stretch is a sentence or nothing. -/
theorem sentenceScan_stretch {body : Str} {c : Char} (plain : Solid terminator body)
    (ends : terminator c = true) (rest : Str) :
    sentenceScan limit sentences [] (body ++ c :: rest) =
      if Fits (candidate (body ++ [c])) then
        if sentences.length + 1 = limit then sentences ++ [candidate (body ++ [c])]
        else sentenceScan limit (sentences ++ [candidate (body ++ [c])]) [] rest
      else sentenceScan limit sentences [] rest := by
  have through := sentenceScan_body limit sentences empty_buffer plain (c :: rest)
  rw [through, List.nil_append, sentenceScan, if_pos (terminator_iff.mp ends), candidate, lastPart_eq]
  rfl

/-- The loop takes the first candidates that fit. -/
theorem sentenceScan_eq (text : Str) (room : sentences.length < limit) :
    sentenceScan limit sentences [] text =
      sentences ++ (candidates text).take (limit - sentences.length) := by
  induction size : text.length using Nat.strong_induction_on generalizing text sentences with
  | _ n ih =>
    subst size
    by_cases plain : Solid terminator text
    · rw [sentenceScan_solid limit sentences plain, candidates, stretches_solid plain, fittings,
        List.map_nil, List.filter_nil, List.take_nil, List.append_nil]
    · obtain ⟨body, c, rest, rfl, solid, ends⟩ := first_space plain
      have shorter : rest.length < (body ++ c :: rest).length := by
        rw [List.length_append, List.length_cons]
        omega
      have one : (sentences ++ [candidate (body ++ [c])]).length = sentences.length + 1 :=
        List.length_append
      rw [sentenceScan_stretch limit sentences solid ends, candidates, stretches_append solid ends,
        fittings, List.map_cons, List.filter_cons]
      by_cases fits : Fits (candidate (body ++ [c]))
      · rw [if_pos fits, if_pos (decide_eq_true fits)]
        by_cases last : sentences.length + 1 = limit
        · rw [if_pos last, ← last, Nat.add_sub_cancel_left, List.take_succ_cons, List.take_zero]
        · have left : limit - sentences.length = limit - (sentences.length + 1) + 1 := by omega
          rw [if_neg last, ih rest.length shorter _ rest (by omega) rfl, one, left, List.take_succ_cons,
            List.append_assoc]
          rfl
      · rw [if_neg fits, if_neg (by simpa using fits), ih rest.length shorter _ rest room rfl]
        rfl

end

/-- The first candidates that fit, without repetitions. -/
theorem completeSentences_eq (text : Str) (limit : Nat) :
    completeSentences text limit = Str.firsts Str.toAsciiLowercase [] ((candidates text).take limit) := by
  cases limit with
  | zero => rw [completeSentences, dedupeText, List.take_zero, List.take_zero, Str.firsts]
  | succ n =>
    have few := (Str.firsts_sublist Str.toAsciiLowercase [] ((candidates text).take (n + 1))).length_le
    have taken := List.length_take_le (n + 1) (candidates text)
    rw [completeSentences, sentenceScan_eq (n + 1) [] text (Nat.succ_pos n), List.nil_append,
      List.length_nil, Nat.sub_zero, dedupeText, List.take_of_length_le (few.trans taken)]

theorem mem_completeSentences {text : Str} {limit : Nat} {s : Str} :
    s ∈ completeSentences text limit ↔ ∃ front back, candidates text = front ++ s :: back ∧
      front.length < limit ∧
      ∀ earlier ∈ front, Str.toAsciiLowercase earlier ≠ Str.toAsciiLowercase s := by
  rw [completeSentences_eq, Str.mem_firsts, and_iff_right List.not_mem_nil]
  constructor
  · rintro ⟨front, back, taken, fresh⟩
    have size := List.length_take_le limit (candidates text)
    rw [taken, List.length_append, List.length_cons] at size
    refine ⟨front, back ++ (candidates text).drop limit, ?_, by omega, fresh⟩
    rw [← List.cons_append, ← List.append_assoc, ← taken, List.take_append_drop]
  · rintro ⟨front, back, whole, room, fresh⟩
    obtain ⟨left, size⟩ := Nat.exists_eq_add_of_lt room
    refine ⟨front, back.take left, ?_, fresh⟩
    have count : limit - front.length = left + 1 := by omega
    rw [whole, List.take_append, List.take_of_length_le room.le, count, List.take_succ_cons]

theorem fittings_append (front back : List Str) :
    fittings (front ++ back) = fittings front ++ fittings back := by
  rw [fittings, List.map_append, List.filter_append, fittings, fittings]

theorem fittings_cons {stretch : Str} (fits : Fits (candidate stretch)) (more : List Str) :
    fittings (stretch :: more) = candidate stretch :: fittings more := by
  rw [fittings, List.map_cons, List.filter_cons, if_pos (decide_eq_true fits), fittings]

theorem fits_of_fittings {parts : List Str} {s : Str} (member : s ∈ fittings parts) : Fits s :=
  of_decide_eq_true (List.mem_filter.mp member).2

/-- Each candidate that fits comes from a stretch. -/
theorem fittings_split {parts front back : List Str} {s : Str}
    (whole : fittings parts = front ++ s :: back) :
    ∃ before stretch after, parts = before ++ stretch :: after ∧ fittings before = front ∧
      candidate stretch = s := by
  obtain ⟨l, r, split, rfl, tail⟩ := List.filter_eq_append_iff.mp whole
  obtain ⟨skipped, rest, rfl, plain, _, _⟩ := List.filter_eq_cons_iff.mp tail
  obtain ⟨before, more, rfl, first, later⟩ := List.map_eq_append_iff.mp split
  obtain ⟨dropped, last, rfl, none, own⟩ := List.map_eq_append_iff.mp later
  obtain ⟨stretch, after, rfl, same, _⟩ := List.map_eq_cons_iff.mp own
  refine ⟨before ++ dropped, stretch, after, by rw [List.append_assoc], ?_, same⟩
  rw [fittings, List.map_append, List.filter_append, first, none, List.filter_eq_nil_iff.mpr plain,
    List.append_nil]

/-- The text from a terminator or the start up to the next terminator, with its whitespace collapsed. -/
def Whole (text s : Str) : Prop :=
  ∃ front body x back, text = front ++ body ++ x :: back ∧
    (∀ y ∈ front.getLast?, terminator y = true) ∧ (∀ c ∈ body, terminator c = false) ∧
    terminator x = true ∧ s = collapseWhitespace (body ++ [x])

theorem whole_iff {text s : Str} :
    Whole text s ↔ ∃ stretch ∈ stretches terminator text, s = collapseWhitespace stretch := by
  constructor
  · rintro ⟨front, body, x, back, split, ended, plain, ends, rfl⟩
    exact ⟨body ++ [x], mem_stretches.mpr ⟨front, body, x, back, split, ended, plain, ends, rfl⟩, rfl⟩
  · rintro ⟨stretch, member, rfl⟩
    obtain ⟨front, body, x, back, split, ended, plain, ends, rfl⟩ := mem_stretches.mp member
    exact ⟨front, body, x, back, split, ended, plain, ends, rfl⟩

/-- The returned sentences are whole exactly if those are that come from the stretches which do not
fit into the buffer, are within the bounds and within the limit, and repeat nothing. -/
theorem completeSentences_whole_iff (text : Str) (limit : Nat) :
    (∀ s ∈ completeSentences text limit, Whole text s ∧ Fits s) ↔
      ∀ front stretch back, stretches terminator text = front ++ stretch :: back →
        1001 < stretch.length → Fits (candidate stretch) → (fittings front).length < limit →
        (∀ earlier ∈ fittings front,
          Str.toAsciiLowercase earlier ≠ Str.toAsciiLowercase (candidate stretch)) →
        Whole text (candidate stretch) := by
  constructor
  · intro each front stretch back split _ fits room fresh
    have taken : candidates text = fittings front ++ candidate stretch :: fittings back := by
      rw [candidates, split, fittings_append, fittings_cons fits]
    exact (each _ (mem_completeSentences.mpr ⟨_, _, taken, room, fresh⟩)).1
  · intro long s member
    obtain ⟨front, back, taken, room, fresh⟩ := mem_completeSentences.mp member
    have inside : s ∈ candidates text := by simp [taken]
    have fits : Fits s := fits_of_fittings inside
    obtain ⟨before, stretch, after, split, rfl, rfl⟩ := fittings_split taken
    refine ⟨?_, fits⟩
    by_cases short : stretch.length ≤ 1001
    · refine whole_iff.mpr ⟨stretch, by simp [split], ?_⟩
      rw [candidate, lastPart_short short]
    · exact long before stretch after split (not_le.mp short) fits room fresh

/-- A list of a thousand characters before a sentence. -/
def listText : Str :=
  List.replicate 1000 'a' ++ " the end of a long list is returned as a sentence".toList ++ ['.']

theorem listText_plain :
    Solid terminator
      (List.replicate 1000 'a' ++ " the end of a long list is returned as a sentence".toList) := by
  have tail : ∀ c ∈ " the end of a long list is returned as a sentence".toList,
      terminator c = false := by decide
  intro c member
  rcases List.mem_append.mp member with first | later
  · rw [List.eq_of_mem_replicate first]
    rfl
  · exact tail c later

theorem listText_stretches : stretches terminator listText = [listText] := by
  rw [listText, stretches_append listText_plain (by decide) [], stretches]

theorem listText_eq :
    listText = List.replicate 1000 'a' ++
      ' ' :: "the end of a long list is returned as a sentence.".toList := by
  have tail : " the end of a long list is returned as a sentence".toList ++ ['.'] =
      ' ' :: "the end of a long list is returned as a sentence.".toList := by decide
  rw [listText, List.append_assoc, tail]

theorem listText_candidate :
    candidate listText = "the end of a long list is returned as a sentence.".toList := by
  have front : (List.replicate 1000 'a' ++ [' ']).length = 1001 := by
    rw [List.length_append, List.length_replicate, List.length_singleton]
  have tail : "the end of a long list is returned as a sentence.".toList.length = 49 := by decide
  have size : listText.length = 1050 := by
    rw [listText_eq, List.append_cons, List.length_append, front, tail]
  rw [candidate, lastPart, size, listText_eq, List.append_cons, List.drop_append_of_le_length front.ge,
    List.drop_of_length_le front.le]
  decide +kernel

theorem listText_collapse : (collapseWhitespace listText).head? = some 'a' := by
  have solid : Solid Str.isWhitespace (List.replicate 1000 'a') := by
    intro c member
    rw [List.eq_of_mem_replicate member]
    rfl
  have long : List.replicate 1000 'a' ≠ [] := by
    rw [List.replicate_succ]
    exact List.cons_ne_nil _ _
  have more : words Str.isWhitespace "the end of a long list is returned as a sentence.".toList ≠ [] := by
    decide +kernel
  rw [collapseWhitespace_eq, Ingestion.collapseWhitespace_eq, listText_eq, wordsOf,
    words_append (by decide), words_solid solid long, List.singleton_append, spaced_cons _ more,
    List.replicate_succ, List.cons_append, List.head?_cons]

theorem completeSentences_tail :
    ¬∀ s ∈ completeSentences listText 1, Whole listText s ∧ Fits s := by
  intro each
  have fits : Fits (candidate listText) := by
    rw [listText_candidate]
    decide +kernel
  have taken : candidates listText = [] ++ candidate listText :: fittings [] := by
    rw [candidates, listText_stretches, fittings_cons fits, List.nil_append]
  have returned := mem_completeSentences.mpr ⟨_, _, taken, Nat.one_pos, by simp⟩
  obtain ⟨stretch, member, same⟩ := whole_iff.mp (each _ returned).1
  rw [listText_stretches, List.mem_singleton] at member
  have first := listText_collapse
  rw [← member, ← same, listText_candidate] at first
  exact absurd first (by decide)

/-- The candidates without repetitions. -/
def distinctCandidates (text : Str) : List Str := Str.firsts Str.toAsciiLowercase [] (candidates text)

/-- The limit cuts the candidates before the repetitions are removed, which is the same exactly if
there are none within the limit or nothing new beyond it. -/
theorem completeSentences_distinct_iff (text : Str) (limit : Nat) :
    completeSentences text limit =
        (distinctCandidates text).take (min limit (distinctCandidates text).length) ↔
      (((candidates text).take limit).map Str.toAsciiLowercase).Nodup ∨
        ∀ later ∈ (candidates text).drop limit,
          Str.toAsciiLowercase later ∈ ((candidates text).take limit).map Str.toAsciiLowercase := by
  rw [completeSentences_eq, distinctCandidates, ← List.take_eq_take_min, Str.firsts_take_iff]

/-- A notice that is repeated takes the place of the sentence after it. -/
def noticeText : Str :=
  "We use cookies to improve your visit here. We use cookies to improve your visit here. ".toList ++
  "The solar plant opened in the north today.".toList

theorem completeSentences_crowded :
    completeSentences noticeText 2 ≠
      (distinctCandidates noticeText).take (min 2 (distinctCandidates noticeText).length) := by
  decide +kernel

end SemanticViews

end EalSync.Ingestion
