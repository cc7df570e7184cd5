import EalSync.Ingestion.Fetcher

/-! The errors of a fetch. The last one of the source stands behind a loop that always returns, and no
other one is like it. -/
namespace EalSync.Ingestion

def fellThrough : IngestionError := ⟨"redirect_limit", "redirect processing terminated unexpectedly"⟩

/-- No error that the computation can have is the one behind the loop. -/
abbrev Returns {α : Type} (x : Except IngestionError α) : Prop := Checks.Fails (· ≠ fellThrough) x

theorem coded_other {code message : String} (other : code ≠ "redirect_limit") :
    (⟨code, message⟩ : IngestionError) ≠ fellThrough := fun same => other (congrArg IngestionError.code same)

theorem okOr_returns {α : Type} {x : Option α} {e : IngestionError} (other : e ≠ fellThrough) :
    Returns (okOr x e) := by
  cases x with
  | none => exact .error other
  | some a => exact .ok a

mutual

theorem collectJsonText_returns (value : Json) (depth : Nat) (output : List Str) :
    Returns (collectJsonText value depth output) := by
  rw [collectJsonText.eq_def]
  refine .check (coded_other (by decide)) (.check (coded_other (by decide)) ?_)
  cases value with
  | string text => exact .ok _
  | array items => exact collectItems_returns items depth output
  | object members => exact collectMembers_returns members depth output
  | null => exact .ok _
  | bool b => exact .ok _
  | number n => exact .ok _

theorem collectItems_returns (items : List Json) (depth : Nat) (output : List Str) :
    Returns (collectItems items depth output) := by
  cases items with
  | nil =>
    rw [collectItems]
    exact .ok output
  | cons item rest =>
    have first := collectJsonText_returns item (depth + 1) output
    rw [collectItems]
    split
    · rename_i e failed
      exact .error (first e failed)
    · rename_i output _
      exact collectItems_returns rest depth output

theorem collectMembers_returns (members : List (Str × Json)) (depth : Nat) (output : List Str) :
    Returns (collectMembers members depth output) := by
  cases members with
  | nil =>
    rw [collectMembers]
    exact .ok output
  | cons member rest =>
    obtain ⟨key, value⟩ := member
    have first := collectJsonText_returns value (depth + 1) (output ++ [key])
    rw [collectMembers]
    split
    · rename_i e failed
      exact .error (first e failed)
    · rename_i output _
      exact collectMembers_returns rest depth output

end

theorem extractText_returns (serde : SerdeJson) (contentType : Str) (body : List UInt8) :
    Returns (extractText serde contentType body) := by
  have decoded : Returns (decodedText serde (baseContentType contentType) body) := by
    unfold decodedText
    dsimp only
    split
    · split
      · exact .error (coded_other (by decide))
      · rename_i value _
        split
        · rename_i e failed
          exact .error (collectJsonText_returns value 0 [] e failed)
        · exact .ok _
    · split
      · exact .ok _
      · split
        · exact .ok _
        · exact .ok _
  unfold extractText
  split
  · rename_i e failed
    exact .error (decoded e failed)
  · exact .ok _

theorem setOrdinals_returns (ordinal : Nat) (inputs : List EmbeddingInput) :
    Returns (SemanticViews.setOrdinals ordinal inputs) := by
  induction inputs generalizing ordinal with
  | nil => exact .ok _
  | cons input rest ih =>
    rw [SemanticViews.setOrdinals]
    refine .check (coded_other (by decide)) ?_
    split
    · rename_i e failed
      exact .error (ih (ordinal + 1) e failed)
    · exact .ok _

theorem validateEach_returns (inputs : List EmbeddingInput) : Returns (validateEach inputs) := by
  induction inputs with
  | nil => exact .ok _
  | cons input rest ih =>
    have first : Returns input.validate :=
      .check (coded_other (by decide)) (.check (coded_other (by decide)) (.ok _))
    rw [validateEach]
    split
    · rename_i e failed
      exact .error (first e failed)
    · exact ih

theorem validate_returns (document : SemanticDocument EmbeddingInput) : Returns document.validate :=
  .check (coded_other (by decide))
    (.check (coded_other (by decide)) (validateEach_returns document.embeddingInputs))

theorem extractSemanticDocument_returns (unicode : Unicode) (serde : SerdeJson) (crate : UrlCrate)
    (contentType : Str) (body : List UInt8) (canonicalUrl : Str) :
    Returns (extractSemanticDocument unicode serde crate contentType body canonicalUrl) := by
  unfold extractSemanticDocument
  split
  · rename_i e failed
    exact .error (extractText_returns serde contentType body e failed)
  · refine .check (coded_other (by decide)) ?_
    dsimp only
    split
    · rename_i e failed
      exact .error (setOrdinals_returns _ _ e failed)
    · split
      · rename_i e failed
        exact .error (validate_returns _ e failed)
      · exact .ok _

section

variable {Input : Type} {crate : UrlCrate} {semantics : Semantics Input} {env : Environment}
  {fetcher : HttpFetcher} {request : FetchRequest}

theorem requireHost_returns (url : Url) : Returns (requireHost url) := okOr_returns (coded_other (by decide))

theorem prepareTargetUrl_returns (input : Str) (scope : FetchScope) :
    Returns (prepareTargetUrl crate input scope) := by
  refine .bind ?_ fun url => .check (coded_other (by decide)) (.ok url)
  unfold parseHttpUrl
  split
  · exact .error (coded_other (by decide))
  · exact .check (coded_other (by decide)) (.check (coded_other (by decide))
      (.check (coded_other (by decide)) (.ok _)))

theorem resolvePublicAddresses_returns (lookup : Except Str (List SocketAddr)) :
    Returns (resolvePublicAddresses lookup) := by
  unfold resolvePublicAddresses
  split
  · exact .error (coded_other (by decide))
  · exact .check (coded_other (by decide)) (.ok _)

theorem pinnedClient_returns (hop : Nat) (url : Url) : Returns (pinnedClient env fetcher hop url) := by
  refine .bind (requireHost_returns url) fun host => ?_
  refine .bind (okOr_returns (coded_other (by decide))) fun port => ?_
  refine .bind (resolvePublicAddresses_returns _) fun addresses => ?_
  refine .bind (okOr_returns (coded_other (by decide))) fun selected => ?_
  exact .bind (.mapError fun e => coded_other (by decide)) fun _ => .ok _

theorem prepareHop_returns (hop : Nat) (requestedHost : Str) (current : Url) :
    Returns (prepareHop env fetcher request hop requestedHost current) := by
  refine .bind (requireHost_returns current) fun host => ?_
  refine .bind ?_ fun _ => .bind (pinnedClient_returns hop current) fun client => .ok _
  unfold acquireHostPermit
  split
  · exact .ok _
  · exact .error (coded_other (by decide))

theorem canonicalIdentity_returns (url : Url) : Returns (canonicalIdentity semantics url) :=
  .mapError fun _ => coded_other (by decide)

theorem notModified_returns (requested current : Url) (response : Response) :
    Returns (notModified semantics request requested current response) :=
  .bind (canonicalIdentity_returns current) fun _ => .ok _

/-- The limit that is exceeded is told in other words. -/
theorem redirectTarget_returns (redirectCount : Nat) (current : Url) (headers : HeaderMap) :
    Returns (redirectTarget crate fetcher request redirectCount current headers) := by
  unfold redirectTarget
  refine .check ?_ ?_
  · intro same
    have told := congrArg (fun e : IngestionError => e.message.toList.take 18) same
    rw [fellThrough] at told
    simp only [String.toList_append, List.append_assoc] at told
    rw [List.take_append_of_le_length (by decide)] at told
    exact absurd told (by decide)
  · refine .bind (okOr_returns (coded_other (by decide))) fun value => ?_
    refine .bind (okOr_returns (coded_other (by decide))) fun location => ?_
    refine .bind (.mapError fun e => coded_other (by decide)) fun redirected => ?_
    exact prepareTargetUrl_returns _ _

theorem contentLength_returns (headers : HeaderMap) : Returns (contentLength headers) := by
  unfold contentLength
  split
  · exact .ok _
  · split
    · exact .error (coded_other (by decide))
    · split
      · exact .error (coded_other (by decide))
      · exact .ok _

theorem checkLength_returns (maxResponseBytes : Nat) (length : Option Nat) :
    Returns (checkLength maxResponseBytes length) := by
  cases length with
  | none => exact .ok _
  | some length => exact .check (coded_other (by decide)) (.ok _)

theorem contentType_returns (headers : HeaderMap) (required : Bool) :
    Returns (contentType headers required) := by
  unfold contentType
  split
  · split
    · exact .ok _
    · exact .error (coded_other (by decide))
  · exact .check (coded_other (by decide)) (.ok _)

theorem readBounded_returns (maxBytes : Nat) (body : List UInt8) (stream : List (Except Str (List UInt8))) :
    Returns (readBounded maxBytes body stream) := by
  induction stream generalizing body with
  | nil => exact .ok body
  | cons item rest ih =>
    cases item with
    | error e => exact .error (coded_other (by decide))
    | ok chunk => exact .check (coded_other (by decide)) (ih _)

section

variable (extracts : ∀ contentType body url,
  Returns (semantics.extractSemanticDocument contentType body url))

include extracts

theorem changed_returns (requested current : Url) (response : Response) :
    Returns (changed semantics fetcher requested current response) := by
  unfold changed
  refine .check (coded_other ?_) ?_
  · split <;> decide
  · refine .bind (contentLength_returns _) fun length => ?_
    refine .bind (checkLength_returns _ length) fun _ => ?_
    refine .bind (contentType_returns _ _) fun type => .check (coded_other (by decide)) ?_
    refine .bind (readBounded_returns _ _ _) fun body => ?_
    refine .bind (canonicalIdentity_returns current) fun canonicalUrl => ?_
    exact .bind (extracts _ _ _) fun _ => .ok _

theorem rounds_result_returns (requested : Url) (requestedHost : Str) (counts : List Nat) (current : Url)
    {result : Except IngestionError (FetchOutcome Input)}
    (ended : (rounds crate semantics env fetcher request requested requestedHost counts current).2 =
      some result) : Returns result := by
  induction counts generalizing current with
  | nil => cases ended
  | cons redirectCount rest ih =>
    simp only [rounds, round] at ended
    cases prepared : prepareHop env fetcher request redirectCount requestedHost current with
    | error e =>
      rw [prepared] at ended
      obtain rfl := Option.some.inj ended
      exact .error (prepareHop_returns _ _ _ e prepared)
    | ok hop =>
      simp only [prepared] at ended
      split at ended
      · rename_i handled
        obtain rfl := Option.some.inj ended
        have handled := congrArg Prod.snd handled
        dsimp only at handled
        split at handled
        · obtain rfl := Round.returned.inj handled
          exact .error (coded_other (by decide))
        · unfold handleResponse at handled
          split at handled
          · obtain rfl := Round.returned.inj handled
            exact notModified_returns _ _ _
          · split at handled
            · split at handled
              · rename_i e refused
                obtain rfl := Round.returned.inj handled
                exact .error (redirectTarget_returns _ _ _ e refused)
              · cases handled
            · obtain rfl := Round.returned.inj handled
              exact changed_returns extracts _ _ _
      · rename_i next handled
        exact ih next ended

end

end

end EalSync.Ingestion
