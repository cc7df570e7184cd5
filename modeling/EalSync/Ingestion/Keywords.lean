import EalSync.Ingestion.Describable
import EalSync.Lib.Ranking

/-! The keywords of a text as a ranking of its tokens, and what quotes around its words do to them. -/
namespace EalSync.Ingestion

namespace SemanticViews

open Ranking Words

/-- The sorted entries of a map that counts the items. -/
theorem ranked_eq {items : List Str} {map : List (Str × Nat)} (counts : Str.Counts items map) :
    (ranked map).map Prod.fst = ranking items := by
  have perm : (ranked map).Perm map := List.perm_insertionSort _ map
  have keys : ((ranked map).map Prod.fst).Nodup := by
    rw [(perm.map Prod.fst).nodup_iff]
    exact (List.pairwise_map.mpr counts.ordered).imp fun below => below.ne
  have total : Std.Total fun left right : Str × Nat =>
      right.2 < left.2 ∨ right.2 = left.2 ∧ left.1 ≤ right.1 := ⟨fun left right => by
    have either := le_total left.1 right.1
    grind⟩
  have trans : IsTrans (Str × Nat) fun left right =>
      right.2 < left.2 ∨ right.2 = left.2 ∧ left.1 ≤ right.1 := ⟨fun a b c one two => by
    rcases one with more | ⟨same, below⟩
    · rcases two with less | ⟨equal, _⟩
      · exact .inl (less.trans more)
      · exact .inl (equal ▸ more)
    · rcases two with less | ⟨equal, above⟩
      · exact .inl (same ▸ less)
      · exact .inr ⟨equal.trans same, below.trans above⟩⟩
  have weak : (ranked map).Pairwise _ := List.pairwise_insertionSort _ map
  have strict := weak.and (List.pairwise_map.mp keys)
  apply ranking_unique
  · rw [List.pairwise_map]
    refine strict.imp_of_mem fun {left right} first second both => ?_
    have one := counts.values left (perm.subset first)
    have two := counts.values right (perm.subset second)
    rcases both.1 with more | ⟨same, below⟩
    · exact .inl (by omega)
    · exact .inr ⟨by omega, lt_of_le_of_ne below both.2⟩
  · intro item
    rw [(perm.map Prod.fst).mem_iff, counts.keys]

section

variable (unicode : Unicode)

theorem isKeyword_iff {token : Str} :
    IsKeyword unicode token ↔
      3 ≤ token.length ∧ isStopword token = false ∧ ∃ c ∈ token, unicode.isNumeric c = false := by
  simp [IsKeyword, and_assoc]

instance : DecidablePred (IsKeyword unicode) := fun _ => inferInstanceAs (Decidable ¬_)

def keywordTokens (text : Str) : List Str :=
  (normalizedTokens unicode text).filter fun token => decide (IsKeyword unicode token)

/-- The loop passes over the tokens that are no keywords. -/
theorem extractKeywords_eq (text : Str) (limit : Nat) :
    extractKeywords unicode text limit = (ranking (keywordTokens unicode text)).take limit := by
  have kept (map : List (Str × Nat)) (tokens : List Str) :
      tokens.foldl (fun counts token =>
          if token.length < 3 || isStopword token || token.all unicode.isNumeric then counts
          else Str.increment token counts) map =
        (tokens.filter fun token => decide (IsKeyword unicode token)).foldl
          (fun counts token => Str.increment token counts) map := by
    induction tokens generalizing map with
    | nil => rfl
    | cons token rest ih =>
      rw [List.foldl_cons, List.filter_cons]
      by_cases own : IsKeyword unicode token
      · rw [if_neg own, if_pos (decide_eq_true own), List.foldl_cons, ih]
      · rw [if_pos (not_not.mp own), if_neg (by simpa using own), ih]
  rw [extractKeywords, List.map_take, kept, ← keywordTokens, ranked_eq (Str.counts_foldl _)]

/-- The keywords of a text are the first of its tokens, ranked by how often they occur in it. -/
structure KeywordRanking (text : Str) (limit : Nat) : Prop where
  first : extractKeywords unicode text limit = (ranking (keywordTokens unicode text)).take limit
  complete : ∀ token, token ∈ ranking (keywordTokens unicode text) ↔
    token ∈ normalizedTokens unicode text ∧
      3 ≤ token.length ∧ isStopword token = false ∧ ∃ c ∈ token, unicode.isNumeric c = false
  ordered : (ranking (keywordTokens unicode text)).Pairwise (Before (normalizedTokens unicode text))
  distinct : (extractKeywords unicode text limit).Nodup
  omitted : ∀ token ∈ keywordTokens unicode text, token ∉ extractKeywords unicode text limit →
    ∀ kept ∈ extractKeywords unicode text limit, Before (normalizedTokens unicode text) kept token
  smaller : ∀ fewer, fewer ≤ limit →
    extractKeywords unicode text fewer <+: extractKeywords unicode text limit
  unordered : ∀ other, (normalizedTokens unicode text).Perm (normalizedTokens unicode other) →
    extractKeywords unicode text limit = extractKeywords unicode other limit

theorem ranking_ordered (text : Str) :
    (ranking (keywordTokens unicode text)).Pairwise (Before (normalizedTokens unicode text)) := by
  have count (token : Str) (member : token ∈ ranking (keywordTokens unicode text)) :
      (keywordTokens unicode text).count token = (normalizedTokens unicode text).count token := by
    rw [mem_ranking, keywordTokens, List.mem_filter] at member
    rw [keywordTokens, List.count_filter (by simpa using member.2)]
  refine ranking_pairwise.imp_of_mem fun {a b} first second before => ?_
  rwa [Before, count a first, count b second] at before

theorem extractKeywords_ranking (text : Str) (limit : Nat) : KeywordRanking unicode text limit where
  first := extractKeywords_eq unicode text limit
  complete token := by
    rw [mem_ranking, keywordTokens, List.mem_filter, decide_eq_true_eq, isKeyword_iff]
  ordered := ranking_ordered unicode text
  distinct := by
    rw [extractKeywords_eq]
    exact ranking_nodup.sublist (List.take_sublist _ _)
  omitted token member out kept first := by
    rw [extractKeywords_eq] at out first
    exact before_omitted (ranking_ordered unicode text) first (mem_ranking.mpr member) out
  smaller fewer less := by
    rw [extractKeywords_eq, extractKeywords_eq]
    exact List.take_prefix_take_left less
  unordered other perm := by
    have same : (keywordTokens unicode text).Perm (keywordTokens unicode other) := perm.filter _
    rw [extractKeywords_eq, extractKeywords_eq, ranking_perm same]

/-- What the Unicode tables say about the apostrophe and the space. -/
structure Quotable : Prop where
  apostrophe : unicode.isAlphanumeric (Char.ofNat 39) = false
  space : unicode.isAlphanumeric ' ' = false
  own : unicode.toLowercase (Char.ofNat 39) = [Char.ofNat 39]
  plain : ∀ c, unicode.isAlphanumeric c = true → Char.ofNat 39 ∉ unicode.toLowercase c

def lowered (word : Str) : Str := word.flatMap unicode.toLowercase

def Alphanumeric (word : Str) : Prop := ∀ c ∈ word, unicode.isAlphanumeric c = true

/-- The tokens so far stay in front. -/
theorem tokenScan_tokens (tokens : List Str) (current s : Str) :
    tokenScan unicode tokens current s = tokens ++ tokenScan unicode [] current s := by
  induction s generalizing tokens current with
  | nil =>
    rw [tokenScan, tokenScan]
    split
    · rw [List.append_nil]
    · rfl
  | cons c rest ih =>
    rw [tokenScan, tokenScan]
    split
    · exact ih tokens _
    · split
      · rw [ih (tokens ++ [current]), ih ([] ++ [current]), List.append_assoc, List.nil_append]
      · exact ih tokens current

variable {unicode}

theorem tokenScan_word {word : Str} (alnum : Alphanumeric unicode word) (tokens : List Str)
    (current rest : Str) :
    tokenScan unicode tokens current (word ++ rest) =
      tokenScan unicode tokens (current ++ lowered unicode word) rest := by
  induction word generalizing current with
  | nil => rw [List.nil_append, lowered, List.flatMap_nil, List.append_nil]
  | cons c word ih =>
    obtain ⟨first, later⟩ := List.forall_mem_cons.mp alnum
    have size : lowered unicode (c :: word) = unicode.toLowercase c ++ lowered unicode word :=
      List.flatMap_cons
    rw [List.cons_append, tokenScan, first, Bool.true_or, if_pos rfl, ih later, size, List.append_assoc]

/-- A space separates tokens. -/
theorem tokenScan_space (quotable : Quotable unicode) (current front back : Str) :
    tokenScan unicode [] current (front ++ ' ' :: back) =
      tokenScan unicode [] current front ++ normalizedTokens unicode back := by
  have other : (' ' == Char.ofNat 39) = false := by decide
  induction front generalizing current with
  | nil =>
    rw [List.nil_append, tokenScan, tokenScan, quotable.space, other, Bool.false_and, Bool.false_or,
      if_neg Bool.false_ne_true, normalizedTokens]
    cases none : current.isEmpty with
    | true =>
      rw [List.isEmpty_iff.mp none]
      rfl
    | false =>
      rw [Bool.not_false, if_pos rfl, if_neg Bool.false_ne_true, tokenScan_tokens]
  | cons c front ih =>
    rw [List.cons_append, tokenScan, tokenScan]
    split
    · exact ih _
    · split
      · rw [tokenScan_tokens, ih, tokenScan_tokens unicode ([] ++ [current]), List.append_assoc,
          List.append_assoc, List.append_assoc]
      · exact ih current

/-- The tokens of words with spaces between are those of each word. -/
theorem normalizedTokens_spaced (quotable : Quotable unicode) (pieces : List Str) :
    normalizedTokens unicode (spaced ' ' pieces) = pieces.flatMap (normalizedTokens unicode) := by
  induction pieces with
  | nil => rfl
  | cons first rest ih =>
    by_cases last : rest = []
    · rw [last, spaced, List.intercalate_singleton, List.flatMap_singleton]
    · rw [spaced_cons first last, normalizedTokens, tokenScan_space quotable, ih, List.flatMap_cons,
        ← normalizedTokens]

/-- A word, between apostrophes if it is quoted. -/
def written (word : Bool × Str) : Str :=
  if word.1 then Char.ofNat 39 :: (word.2 ++ [Char.ofNat 39]) else word.2

def joinWords (ws : List (Bool × Str)) : Str := spaced ' ' (ws.map written)

def unquoted (word : Bool × Str) : Bool × Str := (false, word.2)

variable (unicode) in
/-- The apostrophe before a word is left out, and the one after it is not. -/
def tokenOf (word : Bool × Str) : List Str :=
  if (lowered unicode word.2).isEmpty then []
  else [if word.1 then lowered unicode word.2 ++ [Char.ofNat 39] else lowered unicode word.2]

theorem tokens_plain {word : Str} (alnum : Alphanumeric unicode word) :
    normalizedTokens unicode word = tokenOf unicode (false, word) := by
  have through := tokenScan_word alnum [] [] []
  rw [List.append_nil, List.nil_append, tokenScan] at through
  rw [normalizedTokens, through, tokenOf]
  rfl

theorem tokens_quoted (quotable : Quotable unicode) {word : Str} (alnum : Alphanumeric unicode word) :
    normalizedTokens unicode (Char.ofNat 39 :: (word ++ [Char.ofNat 39])) =
      tokenOf unicode (true, word) := by
  rw [normalizedTokens, tokenScan, quotable.apostrophe, List.isEmpty_nil, Bool.not_true, Bool.and_false,
    Bool.or_false, if_neg Bool.false_ne_true, if_neg Bool.false_ne_true, tokenScan_word alnum,
    List.nil_append, tokenScan, quotable.apostrophe, Bool.false_or, beq_self_eq_true, Bool.true_and,
    tokenOf]
  cases none : (lowered unicode word).isEmpty with
  | true =>
    rw [Bool.not_true, if_neg Bool.false_ne_true, if_neg Bool.false_ne_true, if_pos rfl, tokenScan, none,
      if_pos rfl]
  | false =>
    rw [Bool.not_false, if_pos rfl, if_neg Bool.false_ne_true, if_pos rfl, quotable.own, tokenScan,
      if_neg (by simp), List.nil_append]

theorem tokens_joined (quotable : Quotable unicode) {ws : List (Bool × Str)}
    (alnum : ∀ word ∈ ws, Alphanumeric unicode word.2) :
    normalizedTokens unicode (joinWords ws) = ws.flatMap (tokenOf unicode) := by
  rw [joinWords, normalizedTokens_spaced quotable, List.flatMap_map]
  refine List.flatMap_congr fun word member => ?_
  obtain ⟨quote, word⟩ := word
  cases quote with
  | true => exact tokens_quoted quotable (alnum _ member)
  | false => exact tokens_plain (alnum _ member)

variable (unicode) in
/-- The quoted words are so short that they are no keywords either way. -/
def ShortQuotes (ws : List (Bool × Str)) : Prop :=
  ∀ word ∈ ws, word.1 = true → (lowered unicode word.2).length ≤ 1

theorem isKeyword_short {token : Str} (short : token.length < 3) : ¬IsKeyword unicode token := by
  rw [isKeyword_iff]
  exact fun own => absurd own.1 (not_le.mpr short)

theorem stopword_last {token : Str} (stop : isStopword token = true) :
    token.getLast?.all Char.isAlpha = true := by
  have each : ((Str.splitAsciiWhitespace stopwords).all fun stopword =>
      stopword.getLast?.all Char.isAlpha) = true := by decide +kernel
  obtain ⟨stopword, member, same⟩ := List.any_eq_true.mp stop
  rw [← eq_of_beq same]
  exact List.all_eq_true.mp each stopword member

/-- A longer quoted word is a keyword, also where the word itself is none. -/
theorem isKeyword_quoted (quotable : Quotable unicode) {token : Str} (long : 2 ≤ token.length) :
    IsKeyword unicode (token ++ [Char.ofNat 39]) := by
  have numeric : unicode.isNumeric (Char.ofNat 39) = false :=
    (Bool.or_eq_false_iff.mp quotable.apostrophe).2
  rw [isKeyword_iff]
  refine ⟨by rw [List.length_append, List.length_singleton]; omega, ?_, Char.ofNat 39, by simp, numeric⟩
  rw [Bool.eq_false_iff]
  intro stop
  have last := stopword_last stop
  rw [List.getLast?_concat] at last
  exact absurd last (by decide)

theorem keywordTokens_joined (quotable : Quotable unicode) {ws : List (Bool × Str)}
    (alnum : ∀ word ∈ ws, Alphanumeric unicode word.2) :
    keywordTokens unicode (joinWords ws) =
      ws.flatMap fun word =>
        (tokenOf unicode word).filter fun token => decide (IsKeyword unicode token) := by
  rw [keywordTokens, tokens_joined quotable alnum, List.filter_flatMap]

theorem alphanumeric_unquoted {ws : List (Bool × Str)} (alnum : ∀ word ∈ ws, Alphanumeric unicode word.2) :
    ∀ word ∈ ws.map unquoted, Alphanumeric unicode word.2 := by
  rw [List.forall_mem_map]
  exact alnum

theorem keywordTokens_short (quotable : Quotable unicode) {ws : List (Bool × Str)}
    (alnum : ∀ word ∈ ws, Alphanumeric unicode word.2) (short : ShortQuotes unicode ws) :
    keywordTokens unicode (joinWords ws) = keywordTokens unicode (joinWords (ws.map unquoted)) := by
  rw [keywordTokens_joined quotable alnum, keywordTokens_joined quotable (alphanumeric_unquoted alnum),
    List.flatMap_map]
  refine List.flatMap_congr fun word member => ?_
  obtain ⟨quote, word⟩ := word
  cases quote with
  | false => rfl
  | true =>
    have few : (lowered unicode word).length ≤ 1 := short _ member rfl
    rw [unquoted, tokenOf, tokenOf]
    split
    · rfl
    · have one : ¬IsKeyword unicode (lowered unicode word ++ [Char.ofNat 39]) :=
        isKeyword_short (by rw [List.length_append, List.length_singleton]; omega)
      have other : ¬IsKeyword unicode (lowered unicode word) := isKeyword_short (by omega)
      simp [one, other]

/-- No token of unquoted words has an apostrophe. -/
theorem keywordTokens_plain (quotable : Quotable unicode) {ws : List (Bool × Str)}
    (alnum : ∀ word ∈ ws, Alphanumeric unicode word.2) {token : Str}
    (member : token ∈ keywordTokens unicode (joinWords (ws.map unquoted))) : Char.ofNat 39 ∉ token := by
  rw [keywordTokens_joined quotable (alphanumeric_unquoted alnum), List.flatMap_map,
    List.mem_flatMap] at member
  obtain ⟨word, inside, member⟩ := member
  have own := (List.mem_filter.mp member).1
  rw [unquoted, tokenOf] at own
  split at own
  · cases own
  · rw [List.mem_singleton.mp own, if_neg Bool.false_ne_true, lowered, List.mem_flatMap]
    rintro ⟨c, there, apostrophe⟩
    exact quotable.plain c (alnum word inside c there) apostrophe

theorem length_ranking_joined (quotable : Quotable unicode) {ws : List (Bool × Str)}
    (alnum : ∀ word ∈ ws, Alphanumeric unicode word.2) :
    (ranking (keywordTokens unicode (joinWords ws))).length ≤ ws.length := by
  have tokens : (normalizedTokens unicode (joinWords ws)).length ≤ ws.length := by
    rw [tokens_joined quotable alnum]
    clear alnum
    induction ws with
    | nil => exact le_rfl
    | cons word rest ih =>
      have one : (tokenOf unicode word).length ≤ 1 := by
        rw [tokenOf]
        split
        · exact Nat.zero_le 1
        · exact le_rfl
      rw [List.flatMap_cons, List.length_append, List.length_cons]
      omega
  have filtered : (keywordTokens unicode (joinWords ws)).length ≤ _ := List.length_filter_le _ _
  exact length_ranking_le.trans (filtered.trans tokens)

theorem keywords_quoted_iff (quotable : Quotable unicode) {ws : List (Bool × Str)}
    (alnum : ∀ word ∈ ws, Alphanumeric unicode word.2) {limit : Nat} (room : ws.length ≤ limit) :
    extractKeywords unicode (joinWords ws) limit =
        extractKeywords unicode (joinWords (ws.map unquoted)) limit ↔ ShortQuotes unicode ws := by
  constructor
  · intro same word member quote
    by_contra long
    have token : lowered unicode word.2 ++ [Char.ofNat 39] ∈ keywordTokens unicode (joinWords ws) := by
      rw [keywordTokens_joined quotable alnum, List.mem_flatMap]
      refine ⟨word, member, List.mem_filter.mpr ⟨?_, ?_⟩⟩
      · have some : ¬(lowered unicode word.2).isEmpty = true := by
          rw [List.isEmpty_iff]
          intro none
          rw [none] at long
          exact long (Nat.zero_le 1)
        rw [tokenOf, if_neg some, quote, if_pos rfl]
        exact List.mem_singleton_self _
      · exact decide_eq_true (isKeyword_quoted quotable (by omega))
    have returned : lowered unicode word.2 ++ [Char.ofNat 39] ∈
        extractKeywords unicode (joinWords ws) limit := by
      rw [extractKeywords_eq,
        List.take_of_length_le ((length_ranking_joined quotable alnum).trans room), mem_ranking]
      exact token
    rw [same, extractKeywords_eq] at returned
    have plain := keywordTokens_plain quotable alnum (mem_ranking.mp (List.mem_of_mem_take returned))
    exact plain (by simp)
  · intro short
    rw [extractKeywords_eq, extractKeywords_eq, keywordTokens_short quotable alnum short]

/-- Quotes change no keywords exactly if no quoted word has two characters, and where one has, they do
from the limit on that leaves nothing out. -/
theorem extractKeywords_quoted_iff (quotable : Quotable unicode) {ws : List (Bool × Str)}
    (alnum : ∀ word ∈ ws, Alphanumeric unicode word.2) :
    ((∀ limit, extractKeywords unicode (joinWords ws) limit =
        extractKeywords unicode (joinWords (ws.map unquoted)) limit) ↔ ShortQuotes unicode ws) ∧
      ∀ limit, ws.length ≤ limit →
        (extractKeywords unicode (joinWords ws) limit =
          extractKeywords unicode (joinWords (ws.map unquoted)) limit ↔ ShortQuotes unicode ws) := by
  refine ⟨⟨fun same => ?_, fun short limit => ?_⟩, fun limit room =>
    keywords_quoted_iff quotable alnum room⟩
  · exact (keywords_quoted_iff quotable alnum le_rfl).mp (same ws.length)
  · rw [extractKeywords_eq, extractKeywords_eq, keywordTokens_short quotable alnum short]

end

theorem quotable_ascii : Quotable Unicode.ascii where
  apostrophe := by decide
  space := by decide
  own := by decide
  plain c alnum member := by
    have same : Char.ofNat 39 = c.toLower := List.mem_singleton.mp member
    cases alpha : c.isAlpha with
    | true =>
      have lower : c.toLower.isAlpha = true := by rw [Char.isAlpha_toLower_eq_isAlpha, alpha]
      rw [← same] at lower
      exact absurd lower (by decide)
    | false =>
      rw [(Str.toLower_eq_iff alpha).mpr rfl] at same
      rw [← same] at alnum
      exact absurd alnum (by decide)

theorem extractKeywords_quoted_note :
    ((∀ limit, extractKeywords Unicode.ascii (joinWords [(false, "solar".toList), (true, "I".toList)]) limit =
        extractKeywords Unicode.ascii
          (joinWords ([(false, "solar".toList), (true, "I".toList)].map unquoted)) limit) ↔
        ShortQuotes Unicode.ascii [(false, "solar".toList), (true, "I".toList)]) ∧
      ∀ limit, 2 ≤ limit →
        (extractKeywords Unicode.ascii (joinWords [(false, "solar".toList), (true, "I".toList)]) limit =
          extractKeywords Unicode.ascii
            (joinWords ([(false, "solar".toList), (true, "I".toList)].map unquoted)) limit ↔
          ShortQuotes Unicode.ascii [(false, "solar".toList), (true, "I".toList)]) :=
  extractKeywords_quoted_iff quotable_ascii (by unfold Alphanumeric; decide)

theorem extractKeywords_quoted_stopword :
    extractKeywords Unicode.ascii (joinWords [(true, "the".toList)]) 1 ≠
      extractKeywords Unicode.ascii (joinWords [(false, "the".toList)]) 1 := by
  intro same
  have alnum : ∀ word ∈ [(true, "the".toList)], Alphanumeric Unicode.ascii word.2 := by
    unfold Alphanumeric
    decide
  have short := (keywords_quoted_iff quotable_ascii alnum le_rfl).mp same
  exact absurd (short _ (List.mem_singleton_self _) rfl) (by decide)

end SemanticViews

end EalSync.Ingestion
