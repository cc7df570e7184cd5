import EalSync.Runtime.Types
import EalSync.Std.Utf8

/-! runtime-worker/src/runner.rs: one run of the crawl command. How far the child process came and
what it wrote is a parameter, and so is the decoder of its result. -/
namespace EalSync.Runtime.Worker

structure CrawlRunError where
  code : Str
  message : Str
  deriving DecidableEq, Repr

def CrawlRunError.diagnostic (e : CrawlRunError) : Json :=
  .object [("error_code".toList, .string e.code), ("message".toList, .string (e.message.take 500))]

structure CrawlCommandConfig where
  executable : Str
  timeoutSeconds : Nat
  stdoutLimitBytes : Nat
  stderrLimitBytes : Nat

/-- Path::is_absolute. -/
def CrawlCommandConfig.absolute (config : CrawlCommandConfig) : Bool := config.executable.head? == some '/'

/-- The text of an error that quotes nothing as it is: a C string of the system, or a message of
serde_json that shows what it found in escapes. -/
structure PlainText where
  text : Str
  plain : nul ∉ text

/-- How the process ended, as wait reports it. -/
inductive ExitStatus where
  | exited (code : Nat)
  | signaled (signal : Nat) (coreDumped : Bool)
  deriving DecidableEq, Repr

namespace ExitStatus

def success : ExitStatus → Bool
  | exited code => code == 0
  | signaled _ _ => false

/-- The signals of Linux, from 1 on. -/
def signalNames : List String :=
  ["SIGHUP", "SIGINT", "SIGQUIT", "SIGILL", "SIGTRAP", "SIGABRT", "SIGBUS", "SIGFPE", "SIGKILL",
    "SIGUSR1", "SIGSEGV", "SIGUSR2", "SIGPIPE", "SIGALRM", "SIGTERM", "SIGSTKFLT", "SIGCHLD", "SIGCONT",
    "SIGSTOP", "SIGTSTP", "SIGTTIN", "SIGTTOU", "SIGURG", "SIGXCPU", "SIGXFSZ", "SIGVTALRM", "SIGPROF",
    "SIGWINCH", "SIGIO", "SIGPWR", "SIGSYS"]

def signalString (signal : Nat) : Str :=
  match signalNames[signal - 1]? with
  | some name => if signal = 0 then [] else " (".toList ++ name.toList ++ ")".toList
  | none => []

def display : ExitStatus → Str
  | exited code => "exit status: ".toList ++ (toString code).toList
  | signaled signal coreDumped =>
    "signal: ".toList ++ (toString signal).toList ++ signalString signal ++
      if coreDumped then " (core dumped)".toList else []

end ExitStatus

/-- Which of the calls on the pipe to the command failed. -/
inductive StdinCall where
  | write
  | terminate
  | close
  deriving DecidableEq, Repr

def StdinCall.message : StdinCall → Str
  | write => "write crawl request: ".toList
  | terminate => "terminate crawl request: ".toList
  | close => "close crawl command stdin: ".toList

/-- How far a run of the command came. -/
inductive CommandOutcome where
  | unencoded (error : PlainText)
  | unspawned (error : PlainText)
  | noStdin
  | noStdout
  | noStderr
  | stdinFailed (call : StdinCall) (error : PlainText)
  | timedOut
  | finished (stdout stderr : Except PlainText (List UInt8)) (status : Except PlainText ExitStatus)

/-- An error of serde_json on an envelope. -/
inductive EnvelopeError where
  | unknownField (key : Str) (line column : Nat)
  | other (text : PlainText)

def EnvelopeError.display : EnvelopeError → Str
  | unknownField key line column =>
    "unknown field `".toList ++ key ++
      "`, expected one of `protocol_version`, `page_ingest`, `diagnostic` at line ".toList ++
      (toString line).toList ++ " column ".toList ++ (toString column).toList
  | other text => text.text

/-- serde_json::from_slice of an envelope. -/
structure EnvelopeCrate where
  fromSlice : List UInt8 → Except EnvelopeError CrawlCommandEnvelope

structure LimitedBytes where
  bytes : List UInt8
  exceeded : Bool

/-- read_limited of a stream that holds these bytes; it reads one more than the limit. -/
def readLimited (limit : Nat) (stream : List UInt8) : LimitedBytes :=
  let bytes := stream.take (limit + 1)
  if limit < bytes.length then ⟨bytes.take limit, true⟩ else ⟨bytes, false⟩

/-- The byte after the limit is only there to tell that the stream goes on. -/
theorem readLimited_eq (limit : Nat) (stream : List UInt8) :
    readLimited limit stream = ⟨stream.take limit, decide (limit < stream.length)⟩ := by
  have size : (stream.take (limit + 1)).length = min (limit + 1) stream.length := List.length_take
  rw [readLimited]
  by_cases longer : limit < stream.length
  · rw [if_pos (by omega), List.take_take, Nat.min_eq_left (Nat.le_succ limit), decide_eq_true longer]
  · rw [if_neg (by omega), List.take_of_length_le (by omega), List.take_of_length_le (by omega),
      decide_eq_false longer]

def sanitizeDiagnostic (bytes : List UInt8) : Str :=
  Str.trim (((Utf8.fromUtf8Lossy bytes).filter fun c => !Str.isControl c || c == ' ').take 500)

def exitError (status : ExitStatus) (stderr : List UInt8) : CrawlRunError :=
  let diagnostic := sanitizeDiagnostic stderr
  ⟨"crawl_command_exit".toList,
    if diagnostic.isEmpty then "crawl command exited with ".toList ++ status.display
    else "crawl command exited with ".toList ++ status.display ++ ": ".toList ++ diagnostic⟩

section

variable (crate : UrlCrate) (uuids : UuidCrate) (serde : EnvelopeCrate) (config : CrawlCommandConfig)
  (job : CrawlJob)

def readEnvelope (stdout : List UInt8) : Except CrawlRunError CrawlCommandOutput :=
  match serde.fromSlice stdout with
  | .error e =>
    .error ⟨"crawl_command_protocol".toList, "decode crawl command result: ".toList ++ e.display⟩
  | .ok envelope => (envelope.validate crate uuids job).mapError fun e =>
    ⟨"crawl_command_protocol".toList, "validate crawl command result: ".toList ++ e.message.toList⟩

/-- run_crawl_command after the command has ended and its pipes are read. -/
def readResult (stdout stderr : List UInt8) (status : ExitStatus) :
    Except CrawlRunError CrawlCommandOutput :=
  let stdout := readLimited config.stdoutLimitBytes stdout
  let stderr := readLimited config.stderrLimitBytes stderr
  if stdout.exceeded then
    .error ⟨"crawl_command_stdout_limit".toList, "crawl command stdout exceeded its byte limit".toList⟩
  else if stderr.exceeded then
    .error ⟨"crawl_command_stderr_limit".toList, "crawl command stderr exceeded its byte limit".toList⟩
  else if !status.success then .error (exitError status stderr.bytes)
  else readEnvelope crate uuids serde job stdout.bytes

def runCrawlCommand (outcome : CommandOutcome) : Except CrawlRunError CrawlCommandOutput :=
  if !config.absolute then
    .error ⟨"crawl_command_invalid".toList, "crawl command path must be absolute".toList⟩
  else match outcome with
  | .unencoded e => .error ⟨"crawl_request_encode".toList, "encode crawl request: ".toList ++ e.text⟩
  | .unspawned e => .error ⟨"crawl_command_spawn".toList, "spawn crawl command: ".toList ++ e.text⟩
  | .noStdin =>
    .error ⟨"crawl_command_stdin".toList, "crawl command stdin was unavailable".toList⟩
  | .noStdout =>
    .error ⟨"crawl_command_stdout".toList, "crawl command stdout was unavailable".toList⟩
  | .noStderr =>
    .error ⟨"crawl_command_stderr".toList, "crawl command stderr was unavailable".toList⟩
  | .stdinFailed call e => .error ⟨"crawl_command_stdin".toList, call.message ++ e.text⟩
  | .timedOut =>
    .error ⟨"crawl_command_timeout".toList, "crawl command exceeded its execution deadline".toList⟩
  | .finished (.error e) _ _ =>
    .error ⟨"crawl_command_stdout".toList, "read crawl command stdout: ".toList ++ e.text⟩
  | .finished _ (.error e) _ =>
    .error ⟨"crawl_command_stderr".toList, "read crawl command stderr: ".toList ++ e.text⟩
  | .finished _ _ (.error e) =>
    .error ⟨"crawl_command_wait".toList, "wait for crawl command: ".toList ++ e.text⟩
  | .finished (.ok stdout) (.ok stderr) (.ok status) =>
    readResult crate uuids serde config job stdout stderr status

end

/-- The command was accepted: what it wrote is an envelope that validate hands on. -/
theorem runCrawlCommand_ok {crate : UrlCrate} {uuids : UuidCrate} {serde : EnvelopeCrate}
    {config : CrawlCommandConfig} {job : CrawlJob} {outcome : CommandOutcome}
    {output : CrawlCommandOutput}
    (h : runCrawlCommand crate uuids serde config job outcome = .ok output) :
    ∃ envelope : CrawlCommandEnvelope, envelope.validate crate uuids job = .ok output := by
  unfold runCrawlCommand at h
  obtain ⟨_, h⟩ := Checks.check_ok h
  split at h
  all_goals try cases h
  unfold readResult at h
  obtain ⟨_, h⟩ := Checks.check_ok h
  obtain ⟨_, h⟩ := Checks.check_ok h
  obtain ⟨_, h⟩ := Checks.check_ok h
  unfold readEnvelope at h
  split at h
  · cases h
  · exact ⟨_, Checks.mapError_ok h⟩

/-- The text of the first UUIDs. -/
def firstUuids : UuidCrate where
  parse s :=
    match (List.range 10).find? fun id => s = "00000000-0000-0000-0000-00000000000".toList ++ Nat.toDigits 10 id with
    | some id => .ok id
    | none => .error "invalid length".toList
  display id := "00000000-0000-0000-0000-00000000000".toList ++ Nat.toDigits 10 id

def releasesHash : Str := List.replicate 32 'a'

/-- A page of the releases, for source 2. -/
def releasesPage : Json :=
  .object [("source_id".toList, .string (firstUuids.display 2)),
    ("canonical_url".toList, .string "https://docs.example.com/releases".toList),
    ("content_hash".toList, .string releasesHash),
    ("embedding".toList, .object [("model".toList, .string "test".toList),
      ("model_version".toList, .string "v1".toList), ("dimensions".toList, .number (.posInt 1)),
      ("normalization".toList, .string "none".toList),
      ("values".toList, .array [.number (.posInt 1)])])]

/-- What a command writes for that page, with more members of the envelope at its end. -/
def releasesResult (more : Str) : List UInt8 :=
  Percent.utf8Bytes ("\x7b\"protocol_version\":\"eal-crawl-result/v1\",\"page_ingest\":".toList ++
    "\x7b\"source_id\":\"".toList ++ firstUuids.display 2 ++ "\",\"canonical_url\":".toList ++
    "\"https://docs.example.com/releases\",\"content_hash\":\"".toList ++ releasesHash ++
    "\",\"embedding\":\x7b\"model\":\"test\",\"model_version\":\"v1\",".toList ++
    "\"dimensions\":1,\"normalization\":\"none\",\"values\":[1]\x7d\x7d".toList ++ more ++ ['\x7d'])

/-- A diagnostic that is one escaped U+0000. -/
def nulMember : Str := ",\"diagnostic\":\"\\u0000\"".toList

def releasesEnvelopes : EnvelopeCrate where
  fromSlice bytes :=
    if bytes = releasesResult [] then .ok ⟨"eal-crawl-result/v1".toList, releasesPage, .null⟩
    else if bytes = releasesResult nulMember then
      .ok ⟨"eal-crawl-result/v1".toList, releasesPage, .string [nul]⟩
    else .error (.other ⟨"EOF while parsing a value at line 1 column 0".toList, by decide⟩)

end EalSync.Runtime.Worker
