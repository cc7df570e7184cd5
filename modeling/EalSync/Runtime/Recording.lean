import EalSync.Runtime.Worker

/-! Which outcomes of the crawl command PostgreSQL can store. What the command writes reaches a jsonb
column as a diagnostic and in the texts of the errors. -/
namespace EalSync.Runtime.Worker

/-- The details that process_next hands to complete or to fail for a run of the command. -/
def handedDetails : Except CrawlRunError CrawlCommandOutput → Json
  | .ok output => output.diagnostic
  | .error e => e.diagnostic

/-- What is left to decode: the command ended in time and within its limits, with success. -/
def CommandOutcome.result (config : CrawlCommandConfig) : CommandOutcome → Option (List UInt8)
  | finished (.ok stdout) (.ok stderr) (.ok status) =>
    if config.absolute ∧ stdout.length ≤ config.stdoutLimitBytes ∧
        stderr.length ≤ config.stderrLimitBytes ∧ status.success then some stdout else none
  | _ => none

theorem plain_digits (n : Nat) : nul ∉ (toString n).toList := by
  intro member
  rw [Nat.toString_eq_ofList_toDigits, String.toList_ofList] at member
  exact absurd (Nat.isDigit_of_mem_toDigits (by decide) (by decide) member) (by decide)

theorem trim_subset {c : Char} {s : Str} (member : c ∈ Str.trim s) : c ∈ s :=
  List.dropWhile_subset _ (List.rdropWhile_prefix _ _ |>.subset member)

theorem plain_sanitizeDiagnostic (bytes : List UInt8) : nul ∉ sanitizeDiagnostic bytes := by
  intro member
  have kept := List.mem_of_mem_take (trim_subset member)
  exact absurd (List.mem_filter.mp kept).2 (by decide)

theorem plain_iff {s : Str} : s.all (· != nul) = true ↔ nul ∉ s := by
  rw [List.all_eq_true]
  refine ⟨fun all member => absurd (all nul member) (by decide), fun absent c member => ?_⟩
  exact bne_iff_ne.mpr fun same => absent (same ▸ member)

theorem plain_append {s t : Str} (front : nul ∉ s) (back : nul ∉ t) : nul ∉ s ++ t :=
  fun member => (List.mem_append.mp member).elim front back

/-- A literal is checked character by character. -/
theorem plain_text {l : Str} (plain : l.all (· != nul) = true) : nul ∉ (String.ofList l).toList := by
  rw [String.toList_ofList]
  exact plain_iff.mp plain

theorem plain_signalNames : ∀ name ∈ ExitStatus.signalNames, nul ∉ name.toList := by decide

theorem plain_signalString (signal : Nat) : nul ∉ ExitStatus.signalString signal := by
  unfold ExitStatus.signalString
  split
  · rename_i name found
    have plain := plain_signalNames name (List.mem_of_getElem? found)
    split
    · exact List.not_mem_nil
    · exact plain_append (plain_append (plain_text (by decide)) plain) (plain_text (by decide))
  · exact List.not_mem_nil

theorem plain_display (status : ExitStatus) : nul ∉ status.display := by
  cases status with
  | exited code => exact plain_append (plain_text (by decide)) (plain_digits code)
  | signaled signal coreDumped =>
    refine plain_append (plain_append (plain_append (plain_text (by decide)) (plain_digits signal))
      (plain_signalString signal)) ?_
    cases coreDumped <;> decide

/-- No text that an error of this computation can have holds a U+0000. -/
abbrev Plainly {α : Type} (x : Except Error α) : Prop := Checks.Fails (fun e => nul ∉ e.message.toList) x

section

variable {α : Type} {message : String} (plain : nul ∉ message.toList)

include plain

theorem plainly_context {value : Option α} : Plainly (Runtime.context value message) := by
  cases value with
  | none => exact .error plain
  | some a => exact .ok a

theorem plainly_bailIf {condition : Bool} : Plainly (Runtime.bailIf condition message) := by
  cases condition with
  | false => exact .ok ()
  | true => exact .error plain

end

theorem plainly_validatePublicHttpsUrl (crate : UrlCrate) (value : Str) :
    Plainly (validatePublicHttpsUrl crate value) := by
  unfold validatePublicHttpsUrl
  split
  · exact .error (plain_text (by decide))
  · split
    · exact .error (plain_text (by decide))
    · split
      · exact .error (plain_text (by decide))
      · split
        · exact .error (plain_text (by decide))
        · split
          · exact .error (plain_text (by decide))
          · exact .ok _

open CrawlCommandEnvelope

theorem plain_embeddingKeys : ∀ key ∈ embeddingKeys, nul ∉ key.toList := by decide

theorem plain_required {key : String} (plain : nul ∉ key.toList) :
    nul ∉ ("page_ingest.embedding." ++ key ++ " is required").toList := by
  rw [String.toList_append, String.toList_append]
  exact plain_append (plain_append (plain_text (by decide)) plain) (plain_text (by decide))

theorem plainly_validateEmbedding (embedding : List (Str × Json)) :
    Plainly (validateEmbedding embedding) := by
  refine .bind (.forM fun key member => plainly_bailIf (plain_required (plain_embeddingKeys key member)))
    fun _ => ?_
  refine .bind (plainly_context (plain_text (by decide))) fun dimensions => ?_
  refine .bind (plainly_context (plain_text (by decide))) fun values => ?_
  exact .bind (plainly_bailIf (plain_text (by decide))) fun _ => plainly_bailIf (plain_text (by decide))

theorem plainly_validatePage (crate : UrlCrate) (uuids : UuidCrate) (page : List (Str × Json))
    (job : CrawlJob) : Plainly (validatePage crate uuids page job) := by
  refine .bind (plainly_context (plain_text (by decide))) fun text => ?_
  refine .bind (plainly_context (plain_text (by decide))) fun sourceId => ?_
  refine .bind (plainly_bailIf (plain_text (by decide))) fun _ => ?_
  refine .bind (plainly_context (plain_text (by decide))) fun canonicalUrl => ?_
  refine .bind (plainly_validatePublicHttpsUrl crate canonicalUrl) fun _ => ?_
  refine .bind (plainly_context (plain_text (by decide))) fun contentHash => ?_
  refine .bind (plainly_bailIf (plain_text (by decide))) fun _ => ?_
  exact .bind (plainly_context (plain_text (by decide))) fun embedding => plainly_validateEmbedding embedding

theorem plainly_validate (crate : UrlCrate) (uuids : UuidCrate) (envelope : CrawlCommandEnvelope)
    (job : CrawlJob) : Plainly (envelope.validate crate uuids job) := by
  refine .bind (plainly_bailIf (plain_text (by decide))) fun _ => ?_
  refine .bind (plainly_context (plain_text (by decide))) fun page => ?_
  exact .bind (plainly_validatePage crate uuids page job) fun _ => .ok _

theorem diagnostic_accepted (e : CrawlRunError) :
    jsonbAccepts e.diagnostic = true ↔ nul ∉ e.code ∧ nul ∉ e.message.take 500 := by
  have keys : ("error_code".toList.all (· != nul)) = true ∧ ("message".toList.all (· != nul)) = true := by
    decide
  rw [← plain_iff, ← plain_iff]
  simp only [CrawlRunError.diagnostic, jsonbAccepts, jsonbAcceptsMembers, keys, Bool.true_and,
    Bool.and_true, Bool.and_eq_true]

/-- The texts of an error hold no U+0000. -/
def CrawlRunError.Plain (e : CrawlRunError) : Prop := nul ∉ e.code ∧ nul ∉ e.message

theorem CrawlRunError.Plain.accepted {e : CrawlRunError} (h : e.Plain) :
    jsonbAccepts e.diagnostic = true :=
  (diagnostic_accepted e).mpr ⟨h.1, fun member => h.2 (List.mem_of_mem_take member)⟩

theorem plain_error {code message : Str} (plainCode : nul ∉ code) (plainMessage : nul ∉ message) :
    CrawlRunError.Plain ⟨code, message⟩ := ⟨plainCode, plainMessage⟩

theorem plain_literals {code message : Str} (plainCode : code.all (· != nul) = true)
    (plainMessage : message.all (· != nul) = true) :
    CrawlRunError.Plain ⟨(String.ofList code).toList, (String.ofList message).toList⟩ :=
  plain_error (plain_text plainCode) (plain_text plainMessage)

/-- An error that quotes the text of another one behind a literal. -/
theorem plain_quoting {code text quoted : Str} (plainCode : code.all (· != nul) = true)
    (plainText : text.all (· != nul) = true) (plain : nul ∉ quoted) :
    CrawlRunError.Plain ⟨(String.ofList code).toList, (String.ofList text).toList ++ quoted⟩ :=
  plain_error (plain_text plainCode) (plain_append (plain_text plainText) plain)

theorem plain_exitError (status : ExitStatus) (stderr : List UInt8) : (exitError status stderr).Plain := by
  have exited := plain_append (plain_text (by decide) : nul ∉ "crawl command exited with ".toList)
    (plain_display status)
  refine ⟨(plain_text (by decide) : nul ∉ "crawl_command_exit".toList), ?_⟩
  unfold exitError
  dsimp only
  split
  · exact exited
  · exact plain_append (plain_append exited (plain_text (by decide))) (plain_sanitizeDiagnostic stderr)

theorem readLimited_exceeded {limit : Nat} {stream : List UInt8} :
    (readLimited limit stream).exceeded = true ↔ limit < stream.length := by
  rw [readLimited_eq, decide_eq_true_eq]

theorem readLimited_bytes {limit : Nat} {stream : List UInt8} (within : stream.length ≤ limit) :
    (readLimited limit stream).bytes = stream := by
  rw [readLimited_eq, List.take_of_length_le within]

section

variable (crate : UrlCrate) (uuids : UuidCrate) (serde : EnvelopeCrate) (config : CrawlCommandConfig)
  (job : CrawlJob)

theorem readResult_cases (stdout stderr : List UInt8) (status : ExitStatus) :
    (stdout.length ≤ config.stdoutLimitBytes ∧ stderr.length ≤ config.stderrLimitBytes ∧
        status.success = true ∧ readResult crate uuids serde config job stdout stderr status =
          readEnvelope crate uuids serde job stdout) ∨
      ¬(stdout.length ≤ config.stdoutLimitBytes ∧ stderr.length ≤ config.stderrLimitBytes ∧
        status.success = true) ∧
      ∃ e, readResult crate uuids serde config job stdout stderr status = .error e ∧ e.Plain := by
  unfold readResult
  dsimp only
  split
  · rename_i exceeded
    have longer := readLimited_exceeded.mp exceeded
    exact .inr ⟨fun h => absurd h.1 (by omega), _, rfl, plain_literals (by decide) (by decide)⟩
  · rename_i out
    split
    · rename_i exceeded
      have longer := readLimited_exceeded.mp exceeded
      exact .inr ⟨fun h => absurd h.2.1 (by omega), _, rfl, plain_literals (by decide) (by decide)⟩
    · rename_i err
      split
      · rename_i failed
        exact .inr ⟨fun h => absurd h.2.2 (by simpa using failed), _, rfl, plain_exitError status _⟩
      · rename_i success
        have short := not_lt.mp (readLimited_exceeded.not.mp out)
        refine .inl ⟨short, not_lt.mp (readLimited_exceeded.not.mp err), by simpa using success, ?_⟩
        rw [readLimited_bytes short]

theorem runCrawlCommand_cases (outcome : CommandOutcome) :
    (∃ stdout, outcome.result config = some stdout ∧
      runCrawlCommand crate uuids serde config job outcome = readEnvelope crate uuids serde job stdout) ∨
    outcome.result config = none ∧
      ∃ e, runCrawlCommand crate uuids serde config job outcome = .error e ∧ e.Plain := by
  unfold runCrawlCommand
  by_cases absolute : config.absolute = true
  · rw [if_neg (by simp [absolute])]
    cases outcome with
    | unencoded e => exact .inr ⟨rfl, _, rfl, plain_quoting (by decide) (by decide) e.plain⟩
    | unspawned e => exact .inr ⟨rfl, _, rfl, plain_quoting (by decide) (by decide) e.plain⟩
    | noStdin => exact .inr ⟨rfl, _, rfl, plain_literals (by decide) (by decide)⟩
    | noStdout => exact .inr ⟨rfl, _, rfl, plain_literals (by decide) (by decide)⟩
    | noStderr => exact .inr ⟨rfl, _, rfl, plain_literals (by decide) (by decide)⟩
    | stdinFailed call e =>
      have called : nul ∉ call.message := by cases call <;> exact plain_text (by decide)
      exact .inr ⟨rfl, _, rfl, plain_error (plain_text (by decide)) (plain_append called e.plain)⟩
    | timedOut => exact .inr ⟨rfl, _, rfl, plain_literals (by decide) (by decide)⟩
    | finished stdout stderr status =>
      cases stdout with
      | error e => exact .inr ⟨rfl, _, rfl, plain_quoting (by decide) (by decide) e.plain⟩
      | ok stdout =>
        cases stderr with
        | error e => exact .inr ⟨rfl, _, rfl, plain_quoting (by decide) (by decide) e.plain⟩
        | ok stderr =>
          cases status with
          | error e => exact .inr ⟨rfl, _, rfl, plain_quoting (by decide) (by decide) e.plain⟩
          | ok status =>
            dsimp only [CommandOutcome.result]
            rcases readResult_cases crate uuids serde config job stdout stderr status with
              ⟨short, quiet, success, read⟩ | ⟨unread, e, failed, plain⟩
            · exact .inl ⟨stdout, if_pos ⟨absolute, short, quiet, success⟩, read⟩
            · exact .inr ⟨if_neg fun h => unread h.2, e, failed, plain⟩
  · rw [if_pos (by simpa using absolute)]
    refine .inr ⟨?_, _, rfl, plain_literals (by decide) (by decide)⟩
    unfold CommandOutcome.result
    split
    · exact if_neg fun h => absolute h.1
    · rfl

end

theorem take_around {front key back : Str} (n : Nat) (plainFront : nul ∉ front) (plainBack : nul ∉ back) :
    nul ∉ (front ++ (key ++ back)).take (front.length + n) ↔ nul ∉ key.take n := by
  rw [List.take_length_add_append, List.take_append, List.mem_append, List.mem_append]
  have rest : nul ∉ back.take (n - key.length) := fun member => plainBack (List.mem_of_mem_take member)
  tauto

/-- What is kept of the message of a decode error, around the key that it quotes. -/
theorem decode_message_plain (key : Str) (line column : Nat) :
    nul ∉ ("decode crawl command result: ".toList ++
      (EnvelopeError.unknownField key line column).display).take 500 ↔ nul ∉ key.take 456 := by
  have grouped : ∀ a b k c l d m : Str,
      a ++ (b ++ k ++ c ++ l ++ d ++ m) = (a ++ b) ++ (k ++ (c ++ l ++ d ++ m)) := by
    intros
    simp only [List.append_assoc]
  have front : nul ∉ "decode crawl command result: ".toList ++ "unknown field `".toList :=
    plain_append (plain_text (by decide)) (plain_text (by decide))
  have long : ("decode crawl command result: ".toList ++ "unknown field `".toList).length = 44 := by decide
  have back : nul ∉ "`, expected one of `protocol_version`, `page_ingest`, `diagnostic` at line ".toList ++
      (toString line).toList ++ " column ".toList ++ (toString column).toList :=
    plain_append (plain_append (plain_append (plain_text (by decide)) (plain_digits line))
      (plain_text (by decide)))
      (plain_digits column)
  have kept := @take_around _ key _ 456 front back
  rw [long, ← grouped] at kept
  exact kept

/-- What the command wrote can be stored: the diagnostic of a result that validate accepts, and what
the message keeps of a key that serde_json does not know. -/
def Recordable (crate : UrlCrate) (uuids : UuidCrate) (serde : EnvelopeCrate) (job : CrawlJob)
    (stdout : List UInt8) : Prop :=
  match serde.fromSlice stdout with
  | .ok envelope => (envelope.validate crate uuids job).isOk = true → jsonbAccepts envelope.diagnostic = true
  | .error (.unknownField key _ _) => nul ∉ key.take 456
  | .error (.other _) => True

theorem readEnvelope_recordable (crate : UrlCrate) (uuids : UuidCrate) (serde : EnvelopeCrate)
    (job : CrawlJob) (stdout : List UInt8) :
    jsonbAccepts (handedDetails (readEnvelope crate uuids serde job stdout)) = true ↔
      Recordable crate uuids serde job stdout := by
  unfold readEnvelope Recordable
  cases serde.fromSlice stdout with
  | error e =>
    cases e with
    | unknownField key line column =>
      have code : nul ∉ "crawl_command_protocol".toList := plain_text (by decide)
      dsimp only [handedDetails]
      rw [diagnostic_accepted, decode_message_plain]
      exact and_iff_right code
    | other text =>
      have plain := plain_append (plain_text (by decide) : nul ∉ "decode crawl command result: ".toList)
        text.plain
      exact iff_of_true (plain_error (plain_text (by decide)) plain).accepted trivial
  | ok envelope =>
    dsimp only
    cases checked : envelope.validate crate uuids job with
    | ok output =>
      obtain ⟨rfl, _⟩ := CrawlCommandEnvelope.validate_ok checked
      exact ⟨fun accepted _ => accepted, fun accepted => accepted rfl⟩
    | error e =>
      have plain := plain_append (plain_text (by decide) : nul ∉ "validate crawl command result: ".toList)
        (plainly_validate crate uuids envelope job e checked)
      exact iff_of_true (plain_error (plain_text (by decide)) plain).accepted
        fun isOk => Bool.noConfusion isOk

/-- PostgreSQL takes the details of a run of the command exactly when what it wrote with success
and within its limits, if anything, is recordable. -/
theorem outcome_recordable_iff (crate : UrlCrate) (uuids : UuidCrate) (serde : EnvelopeCrate)
    (config : CrawlCommandConfig) (job : CrawlJob) (outcome : CommandOutcome) :
    jsonbAccepts (handedDetails (runCrawlCommand crate uuids serde config job outcome)) = true ↔
      ∀ stdout ∈ outcome.result config, Recordable crate uuids serde job stdout := by
  rcases runCrawlCommand_cases crate uuids serde config job outcome with
    ⟨stdout, result, read⟩ | ⟨none, e, failed, plain⟩
  · rw [read, result, readEnvelope_recordable]
    simp
  · rw [failed, none]
    exact iff_of_true plain.accepted fun _ member => nomatch member

def adapter : CrawlCommandConfig := ⟨"/usr/bin/eal-crawl-adapter".toList, 120, 8388608, 65536⟩

theorem outcome_refused : ¬∀ (crate : UrlCrate) (uuids : UuidCrate) (serde : EnvelopeCrate)
    (config : CrawlCommandConfig) (job : CrawlJob) (outcome : CommandOutcome),
    jsonbAccepts (handedDetails (runCrawlCommand crate uuids serde config job outcome)) = true := by
  intro accepted
  have refused : jsonbAccepts (handedDetails (runCrawlCommand releasesCrate firstUuids releasesEnvelopes
      adapter (releasesJob 20 30)
      (.finished (.ok (releasesResult nulMember)) (.ok []) (.ok (.exited 0))))) = false := by
    decide +kernel
  rw [accepted] at refused
  cases refused

end EalSync.Runtime.Worker
