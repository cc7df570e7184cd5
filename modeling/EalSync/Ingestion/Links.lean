import EalSync.Ingestion.Blocks
import EalSync.Ingestion.Entities
import EalSync.Ingestion.Scope
import EalSync.Std.Collections

/-! src/ingestion/content.rs: the links of a page. The cursor of the scan for href values is the
suffix that it has still to read. -/
namespace EalSync.Ingestion

structure DiscoveredLink where
  url : Str
  canonicalUrl : Str
  deriving DecidableEq, Repr

namespace Links

def hrefName : Str := "href".toList

def isQuote (c : Char) : Bool := c == Char.ofNat 39 || c == Char.ofNat 34

/-- The value goes on with this character. -/
def valueGoesOn (quote : Option Char) (c : Char) : Bool :=
  match quote with
  | some quote => c != quote
  | none => !Str.isAsciiWhitespace c && c != '>'

/-- The value behind an equals sign, and what is left behind the character that ends it; none at the
end of the text. -/
def attributeValue (text : Str) : Option (Str × Str) :=
  match text.dropWhile Str.isAsciiWhitespace with
  | [] => none
  | first :: more =>
    let quote := if isQuote first then some first else none
    let start := if quote.isSome then more else first :: more
    some (start.takeWhile (valueGoesOn quote), (start.dropWhile (valueGoesOn quote)).drop 1)

theorem attributeValue_shorter {text value rest : Str} (h : attributeValue text = some (value, rest)) :
    rest.length < text.length := by
  have spaces := (List.dropWhile_sublist Str.isAsciiWhitespace (l := text)).length_le
  unfold attributeValue at h
  split at h
  · cases h
  · rename_i first more shape
    cases h
    have value := (List.dropWhile_sublist (valueGoesOn (if isQuote first then some first else none))
      (l := if (if isQuote first then some first else none).isSome then more else first :: more)).length_le
    have short : (if (if isQuote first then some first else none).isSome then more
        else first :: more).length ≤ more.length + 1 := by
      split <;> simp
    rw [shape, List.length_cons] at spaces
    rw [List.length_drop]
    omega

theorem behind_shorter {html : Str} {relative : Nat}
    (found : Search.find hrefName (Str.toAsciiLowercase html) = some relative) :
    ((html.drop (relative + 4)).dropWhile Str.isAsciiWhitespace).length < html.length := by
  have room := Search.find_le found
  have spaces := (List.dropWhile_sublist Str.isAsciiWhitespace (l := html.drop (relative + 4))).length_le
  have size : hrefName.length = 4 := rfl
  rw [lower_length, size] at room
  rw [List.length_drop] at spaces
  omega

/-- The loop of extract_href_values. -/
def hrefValues (html : Str) : List Str :=
  match _found : Search.find hrefName (Str.toAsciiLowercase html) with
  | none => []
  | some relative =>
    match _behind : (html.drop (relative + 4)).dropWhile Str.isAsciiWhitespace with
    | '=' :: text =>
      match _value : attributeValue text with
      | none => []
      | some (value, rest) =>
        if value.isEmpty then hrefValues rest else value :: hrefValues rest
    | rest => hrefValues rest
termination_by html.length
decreasing_by
  all_goals have shorter := behind_shorter _found
  · have value := attributeValue_shorter _value
    rw [_behind, List.length_cons] at shorter
    omega
  · have value := attributeValue_shorter _value
    rw [_behind, List.length_cons] at shorter
    omega
  · rwa [_behind] at shorter

end Links

def extractHrefValues (html : Str) : List Str := Links.hrefValues html

namespace Links

/-- The module has copies of its own of these two. -/
def parseHttpUrl (crate : UrlCrate) (input : Str) : Except IngestionError Url :=
  Ingestion.parseHttpUrl crate input

def canonicalIdentity (canonicalizeUrl : Str → Except Str Str) (url : Url) :
    Except IngestionError Str :=
  (canonicalizeUrl url.asStr).mapError fun e => ⟨"invalid_url", String.ofList e⟩

section

variable (crate : UrlCrate) (canonicalizeUrl : Str → Except Str Str)

/-- The link of an href value, unless the loop goes on to the next one. -/
def candidateLink (base : Url) (baseHost : Str) (sameHostOnly : Bool) (href : Str) :
    Option DiscoveredLink :=
  if Str.startsWith ['#'] href || Str.startsWith "mailto:".toList href ||
      Str.startsWith "javascript:".toList href || Str.startsWith "data:".toList href then none
  else
    match crate.join base href with
    | .error _ => none
    | .ok candidate =>
      let candidate := candidate.clearFragment
      if ¬(candidate.scheme = "http".toList ∨ candidate.scheme = "https".toList) ∨
          !candidate.username.isEmpty ∨ candidate.password.isSome then none
      else if sameHostOnly ∧ candidate.hostStr ≠ some baseHost then none
      else
        match canonicalIdentity canonicalizeUrl candidate with
        | .error _ => none
        | .ok canonicalUrl => some { url := candidate.asStr, canonicalUrl }

/-- The loop over the href values with the map of the links so far. -/
def collectLinks (base : Url) (baseHost : Str) (sameHostOnly : Bool) (maxLinks : Nat) :
    List (Str × DiscoveredLink) → List Str → List (Str × DiscoveredLink)
  | links, [] => links
  | links, href :: rest =>
    match candidateLink crate canonicalizeUrl base baseHost sameHostOnly href with
    | none => collectLinks base baseHost sameHostOnly maxLinks links rest
    | some link =>
      let links := Str.orInsert link.canonicalUrl link links
      if links.length ≥ maxLinks then links
      else collectLinks base baseHost sameHostOnly maxLinks links rest

end

end Links

open Links in
def discoverLinks (crate : UrlCrate) (canonicalizeUrl : Str → Except Str Str) (baseUrl html : Str)
    (sameHostOnly : Bool) (maxLinks : Nat) : Except IngestionError (List DiscoveredLink) :=
  if maxLinks = 0 ∨ maxLinks > 10000 then
    .error ⟨"invalid_link_limit", "max_links must be between 1 and 10000"⟩
  else
    match Links.parseHttpUrl crate baseUrl with
    | .error e => .error e
    | .ok base =>
      match base.hostStr with
      | none => .error ⟨"invalid_url", "base URL host is required"⟩
      | some baseHost =>
        let links := collectLinks crate canonicalizeUrl base baseHost sameHostOnly maxLinks []
          (extractHrefValues html)
        .ok (links.map Prod.snd)

/-- What makes an href value a link: it is no reference within the page or to another scheme, and it
resolves to an HTTP URL without user information, on the host of the base if that is asked for, that
has a canonical form. -/
structure Eligible (crate : UrlCrate) (canonicalizeUrl : Str → Except Str Str) (base : Url)
    (sameHostOnly : Bool) (href : Str) (link : DiscoveredLink) : Prop where
  reference : ∀ start ∈ ["#".toList, "mailto:".toList, "javascript:".toList, "data:".toList],
    ¬start <+: href
  resolves : ∃ target, crate.join base href = .ok target ∧
    (target.scheme = "http".toList ∨ target.scheme = "https".toList) ∧
    target.username = [] ∧ target.password = none ∧
    (sameHostOnly = true → target.hostStr = base.hostStr) ∧
    link.url = target.clearFragment.asStr ∧ canonicalizeUrl link.url = .ok link.canonicalUrl

namespace Links

variable {crate : UrlCrate} {canonicalizeUrl : Str → Except Str Str} {base : Url}

theorem canonicalIdentity_ok {url : Url} {canonical : Str} :
    canonicalIdentity canonicalizeUrl url = .ok canonical ↔ canonicalizeUrl url.asStr = .ok canonical := by
  unfold canonicalIdentity
  cases canonicalizeUrl url.asStr <;> simp [Except.mapError]

/-- The first check of the loop. -/
theorem reference_iff {href : Str} :
    (Str.startsWith ['#'] href || Str.startsWith "mailto:".toList href ||
      Str.startsWith "javascript:".toList href || Str.startsWith "data:".toList href) = true ↔
    ¬∀ start ∈ ["#".toList, "mailto:".toList, "javascript:".toList, "data:".toList],
      ¬start <+: href := by
  simp only [Str.startsWith, Bool.or_eq_true, List.isPrefixOf_iff_prefix, List.forall_mem_cons,
    not_and_or, not_not, or_assoc]
  simp

/-- The check of the resolved URL. -/
theorem unsafe_iff {target : Url} :
    (¬(target.scheme = "http".toList ∨ target.scheme = "https".toList) ∨
      !target.username.isEmpty ∨ target.password.isSome) ↔
    ¬((target.scheme = "http".toList ∨ target.scheme = "https".toList) ∧ target.username = [] ∧
      target.password = none) := by
  rw [not_and_or, not_and_or, Bool.not_eq_true', ← Bool.not_eq_true, List.isEmpty_iff,
    Option.isSome_iff_ne_none]

theorem candidateLink_eq_some {baseHost : Str} (host : base.hostStr = some baseHost)
    (sameHostOnly : Bool) (href : Str) (link : DiscoveredLink) :
    candidateLink crate canonicalizeUrl base baseHost sameHostOnly href = some link ↔
      Eligible crate canonicalizeUrl base sameHostOnly href link := by
  unfold candidateLink
  simp only [reference_iff, unsafe_iff]
  constructor
  · intro found
    split at found
    · cases found
    · rename_i reference
      split at found
      · cases found
      · rename_i target joined
        split at found
        · cases found
        · rename_i safe
          split at found
          · cases found
          · rename_i near
            split at found
            · cases found
            · rename_i canonical identity
              cases found
              have kept := not_not.mp safe
              have sameHost : sameHostOnly = true → target.hostStr = base.hostStr := by
                intro only
                rw [host]
                exact not_not.mp fun other => near ⟨only, other⟩
              exact ⟨not_not.mp reference, target, joined, kept.1, kept.2.1, kept.2.2, sameHost, rfl,
                canonicalIdentity_ok.mp identity⟩
  · rintro ⟨reference, target, joined, scheme, username, password, near, url, canonical⟩
    have identity := canonicalIdentity_ok.mpr (url ▸ canonical)
    have sameHost : ¬(sameHostOnly = true ∧ target.clearFragment.hostStr ≠ some baseHost) := by
      rintro ⟨only, other⟩
      exact other ((near only).trans host)
    rw [if_neg (not_not.mpr reference), joined]
    dsimp only
    rw [if_neg (not_not.mpr ⟨scheme, username, password⟩), if_neg sameHost, identity]
    dsimp only
    rw [← url]

theorem parseHttpUrl_host {input : Str} (parsed : Links.parseHttpUrl crate input = .ok base) :
    base.hostStr.isSome = true := by
  unfold Links.parseHttpUrl Ingestion.parseHttpUrl at parsed
  split at parsed
  · cases parsed
  · obtain ⟨_, parsed⟩ := Checks.check_ok parsed
    obtain ⟨_, parsed⟩ := Checks.check_ok parsed
    obtain ⟨host, parsed⟩ := Checks.check_ok parsed
    cases parsed
    rw [Option.isNone_iff_eq_none] at host
    exact Option.isSome_iff_ne_none.mpr host

theorem collectLinks_eq (baseHost : Str) (sameHostOnly : Bool) (maxLinks : Nat)
    (links : List (Str × DiscoveredLink)) (hrefs : List Str) :
    collectLinks crate canonicalizeUrl base baseHost sameHostOnly maxLinks links hrefs =
      Str.insertUpTo DiscoveredLink.canonicalUrl maxLinks links
        (hrefs.filterMap (candidateLink crate canonicalizeUrl base baseHost sameHostOnly)) := by
  induction hrefs generalizing links with
  | nil => rfl
  | cons href rest ih =>
    rw [collectLinks]
    cases eligible : candidateLink crate canonicalizeUrl base baseHost sameHostOnly href with
    | none => rw [List.filterMap_cons_none eligible, ih]
    | some link =>
      rw [List.filterMap_cons_some eligible, Str.insertUpTo]
      dsimp only
      rw [ih]

end Links

open Links in
/-- The links are those of the first distinct canonical URLs, as many as are asked for, each with the
URL that came first, in the order of the canonical URLs. -/
theorem discoverLinks_spec (crate : UrlCrate) (canonicalizeUrl : Str → Except Str Str) {baseUrl : Str}
    {base : Url} (parsed : Links.parseHttpUrl crate baseUrl = .ok base) (html : Str)
    (sameHostOnly : Bool) {maxLinks : Nat} (limit : 1 ≤ maxLinks ∧ maxLinks ≤ 10000) :
    ∃ links linkOf, (∀ href link,
        linkOf href = some link ↔ Eligible crate canonicalizeUrl base sameHostOnly href link) ∧
      discoverLinks crate canonicalizeUrl baseUrl html sameHostOnly maxLinks = .ok links ∧
      links.Pairwise (fun x y => x.canonicalUrl < y.canonicalUrl) ∧
      links.Perm ((Str.firsts DiscoveredLink.canonicalUrl []
        ((extractHrefValues html).filterMap linkOf)).take maxLinks) := by
  obtain ⟨baseHost, host⟩ := Option.isSome_iff_exists.mp (parseHttpUrl_host parsed)
  have inRange : ¬(maxLinks = 0 ∨ maxLinks > 10000) := by omega
  refine ⟨_, _, candidateLink_eq_some host sameHostOnly, ?_, Str.insertUpTo_sorted limit.1 _,
    Str.insertUpTo_values limit.1 _⟩
  rw [discoverLinks, if_neg inRange, parsed]
  dsimp only
  rw [host]
  dsimp only
  rw [collectLinks_eq]

/-- A page with two spellings of one link and a link to another host. -/
def linkedPage : Str :=
  "<a href='?utm_source=x#frag'>one</a><a href=/blog>two</a><a href='https://other.test/b'>".toList

def trackedUrl : Url :=
  { blogUrl with query := some "utm_source=x".toList, fragment := some "frag".toList }

theorem other_printable : ∀ c ∈ "other.test".toList, printable c := by decide

def linkedCrate : UrlCrate where
  parse := blogCrate.parse
  join _ href :=
    if href = "?utm_source=x#frag".toList then .ok trackedUrl
    else if href = "/blog".toList then .ok blogUrl
    else .ok (.https "other.test".toList "/blog".toList other_printable blog_printable blog_absolute
      blog_resolved)

/-- The canonical form has no query. -/
def withoutQuery (url : Str) : Except Str Str := .ok (url.takeWhile (· != '?'))

theorem discoverLinks_spec_page : ∃ links linkOf, (∀ href link,
      linkOf href = some link ↔ Eligible linkedCrate withoutQuery blogUrl true href link) ∧
    discoverLinks linkedCrate withoutQuery "https://example.com/blog".toList linkedPage true 10 = .ok links ∧
    links.Pairwise (fun x y => x.canonicalUrl < y.canonicalUrl) ∧
    links.Perm ((Str.firsts DiscoveredLink.canonicalUrl []
      ((extractHrefValues linkedPage).filterMap linkOf)).take 10) :=
  discoverLinks_spec linkedCrate withoutQuery rfl linkedPage true (by decide)

example : (discoverLinks linkedCrate withoutQuery "https://example.com/blog".toList linkedPage true
    10).toOption = some [⟨"https://example.com/blog?utm_source=x".toList,
      "https://example.com/blog".toList⟩] := by decide +kernel

namespace Links

theorem hrefValues_absent {html : Str}
    (absent : Search.find hrefName (Str.toAsciiLowercase html) = none) : hrefValues html = [] := by
  rw [hrefValues]
  split
  · rfl
  · rename_i found
    rw [absent] at found
    cases found

theorem hrefValues_value {html text value rest : Str} {relative : Nat}
    (found : Search.find hrefName (Str.toAsciiLowercase html) = some relative)
    (behind : (html.drop (relative + 4)).dropWhile Str.isAsciiWhitespace = '=' :: text)
    (read : attributeValue text = some (value, rest)) (some : value ≠ []) :
    hrefValues html = value :: hrefValues rest := by
  rw [hrefValues]
  split
  · rename_i none
    rw [found] at none
    cases none
  · rename_i other same
    rw [found] at same
    cases same
    split
    · rename_i shape
      rw [behind] at shape
      cases shape
      split
      · rename_i none
        rw [read] at none
        cases none
      · rename_i again
        rw [read] at again
        cases again
        rw [if_neg (by simpa using some)]
    · rename_i shape
      exact absurd behind (shape text)

end Links

/-- The characters that an attribute value in double quotes is written with entities for. -/
def hrefEscapes : Coding.Table Char := escapes.take 4

/-- A link in markup, with a value in double quotes. -/
def anchor (value : Str) : Str :=
  "<a href=".toList ++ Char.ofNat 34 :: (value ++ [Char.ofNat 34, '>'])

theorem find_anchor (value : Str) :
    Search.find Links.hrefName (Str.toAsciiLowercase (anchor value)) = some 3 := by
  have headed : Search.Headed Links.hrefName := ⟨'h', "ref".toList, rfl, by decide⟩
  have absent : ¬Links.hrefName <:+: Str.toAsciiLowercase "<a ".toList := by decide
  have found := Search.find_here headed absent
    (Str.toAsciiLowercase ('=' :: Char.ofNat 34 :: (value ++ [Char.ofNat 34, '>'])))
  have parts : anchor value = "<a ".toList ++ (Links.hrefName ++
      '=' :: Char.ofNat 34 :: (value ++ [Char.ofNat 34, '>'])) := rfl
  have same : Str.toAsciiLowercase Links.hrefName = Links.hrefName := by decide
  rw [parts, lower_append, lower_append, same, found, lower_length]
  rfl

theorem attributeValue_quoted {value : Str} (unquoted : Char.ofNat 34 ∉ value) (rest : Str) :
    Links.attributeValue (Char.ofNat 34 :: (value ++ Char.ofNat 34 :: rest)) = some (value, rest) := by
  have visible : ¬Str.isAsciiWhitespace (Char.ofNat 34) = true := by decide
  have inside : ∀ c ∈ value, Links.valueGoesOn (some (Char.ofNat 34)) c = true := by
    intro c member
    simp only [Links.valueGoesOn, bne_iff_ne]
    rintro rfl
    exact unquoted member
  have ends : ¬Links.valueGoesOn (some (Char.ofNat 34)) (Char.ofNat 34) = true := by decide
  have quoted : Links.isQuote (Char.ofNat 34) = true := by decide
  unfold Links.attributeValue
  rw [List.dropWhile_cons_of_neg visible]
  dsimp only
  rw [if_pos quoted, Option.isSome_some, if_pos rfl, List.takeWhile_append_of_pos inside,
    List.dropWhile_append_of_pos inside, List.takeWhile_cons_of_neg ends,
    List.dropWhile_cons_of_neg ends, List.append_nil]
  rfl

theorem extractHrefValues_anchor {value : Str} (some : value ≠ []) (unquoted : Char.ofNat 34 ∉ value) :
    extractHrefValues (anchor value) = [value] := by
  have behind : ((anchor value).drop (3 + 4)).dropWhile Str.isAsciiWhitespace =
      '=' :: Char.ofNat 34 :: (value ++ [Char.ofNat 34, '>']) := by
    have equals : ¬Str.isAsciiWhitespace '=' = true := by decide
    exact List.dropWhile_cons_of_neg equals
  have last : Links.hrefValues ['>'] = [] := Links.hrefValues_absent (by decide)
  rw [extractHrefValues, Links.hrefValues_value (find_anchor value) behind
    (attributeValue_quoted unquoted ['>']) some, last]

/-- An href value is read as it stands, so it is the URL that was written if and only if the URL has
none of the characters that markup writes as entities. -/
theorem extractHrefValues_escaped {url : Str} (some : url ≠ []) :
    extractHrefValues (anchor (Coding.encode hrefEscapes url)) = [url] ↔
      ∀ c ∈ url, c ∉ hrefEscapes.map Prod.fst := by
  have long : ∀ entry ∈ hrefEscapes, 1 < entry.2.length := by decide
  have grows := Coding.length_le_encode long url
  have written : Coding.encode hrefEscapes url ≠ [] := by
    apply List.ne_nil_of_length_pos
    have size := List.length_pos_iff.mpr some
    omega
  have unquoted : Char.ofNat 34 ∉ Coding.encode hrefEscapes url := by
    have quoteless : ∀ entry ∈ hrefEscapes, Char.ofNat 34 ∉ entry.2 := by decide
    intro member
    rcases Coding.mem_encode member with other | ⟨entry, coded, inside⟩
    · exact other (by decide)
    · exact quoteless entry coded inside
  rw [extractHrefValues_anchor written unquoted, List.singleton_inj, Coding.encode_eq_self long]

theorem extractHrefValues_plain :
    "https://example.com/?q=rust".toList ≠ [] ∧
      (extractHrefValues (anchor (Coding.encode hrefEscapes "https://example.com/?q=rust".toList)) =
        ["https://example.com/?q=rust".toList] ↔
          ∀ c ∈ "https://example.com/?q=rust".toList, c ∉ hrefEscapes.map Prod.fst) :=
  ⟨by decide, extractHrefValues_escaped (by decide)⟩

/-- A query with two parameters. -/
theorem extractHrefValues_query :
    extractHrefValues (anchor (Coding.encode hrefEscapes "https://example.com/?a=1&b=2".toList)) =
        ["https://example.com/?a=1&amp;b=2".toList] ∧
      "https://example.com/?a=1&amp;b=2".toList ≠ "https://example.com/?a=1&b=2".toList := by
  decide +kernel

end EalSync.Ingestion
