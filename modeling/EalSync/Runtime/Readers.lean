import EalSync.Ingestion.Response
import EalSync.Lib.Bounded
import EalSync.Runtime.Api
import EalSync.Runtime.Runner

/-! The three readers of a stream with a limit on its bytes: of a response body, of the answer of the
page-ingest API and of what the crawl command writes. How the stream is cut into chunks is up to the
network and to the pipe. -/
namespace EalSync.Runtime

open Worker

/-- read_limited of a pipe that these chunks are written to, whatever room each poll has. -/
def readLimitedFrom (room : Nat → Nat) (limit : Nat) (chunks : List (List UInt8)) : LimitedBytes :=
  let bytes := readToEnd room (saturatingAdd limit 1) [] chunks
  let exceeded := decide (bytes.length > limit)
  ⟨if exceeded then bytes.take limit else bytes, exceeded⟩

section

variable {limit : Nat}

/-- The loops count with a saturating addition, which is exact as far as the limit. -/
theorem readBounded_eq (representable : limit < 2 ^ 64 - 1) :
    Ingestion.readBounded limit =
      Bounded.collect limit
        (fun e : Str => ⟨"body_read_failed", "could not read response body: " ++ String.ofList e⟩)
        ⟨"response_too_large", "decompressed response exceeds " ++ toString limit ++ " bytes"⟩ := by
  funext body stream
  induction stream generalizing body with
  | nil => rfl
  | cons item rest ih =>
    cases item with
    | error e => rfl
    | ok chunk => simp only [Ingestion.readBounded, Bounded.collect, saturatingAdd_le representable, ih]

theorem readChunks_eq (status : Nat) (representable : limit < 2 ^ 64 - 1) :
    IngestApiClient.readChunks status limit =
      Bounded.collect limit IngestApiError.transport
        (.response status "API response exceeded the byte limit".toList) := by
  funext bytes chunks
  induction chunks generalizing bytes with
  | nil => rfl
  | cons item rest ih =>
    cases item with
    | error e => rfl
    | ok chunk =>
      simp only [IngestApiClient.readChunks, Bounded.collect, saturatingAdd_le representable, ih]

theorem readLimitedFrom_eq (representable : limit < 2 ^ 64 - 1) (room : Nat → Nat)
    (chunks : List (List UInt8)) :
    readLimitedFrom room limit chunks = readLimited limit chunks.flatten := by
  have one : saturatingAdd limit 1 = limit + 1 := by
    rw [saturatingAdd]
    omega
  rw [readLimitedFrom, readToEnd_eq, one, readLimited]
  by_cases longer : limit < (chunks.flatten.take (limit + 1)).length
  · rw [if_pos longer, List.nil_append, decide_eq_true longer, if_pos rfl]
  · rw [if_neg longer, List.nil_append, decide_eq_false longer, if_neg Bool.false_ne_true]

/-- A limit on what is read, whatever the chunks are. -/
structure ChunkingFree (limit : Nat) : Prop where
  responseBody : Bounded.Reader limit
    (⟨"response_too_large", "decompressed response exceeds " ++ toString limit ++ " bytes"⟩ :
      Ingestion.IngestionError) (Ingestion.readBounded limit)
  apiBody : ∀ status, Bounded.Reader limit
    (IngestApiError.response status "API response exceeded the byte limit".toList)
    (IngestApiClient.readChunks status limit)
  commandOutput : ∀ room chunks, readLimitedFrom room limit chunks =
    ⟨chunks.flatten.take limit, decide (limit < chunks.flatten.length)⟩

theorem readers_chunkingFree (representable : limit < 2 ^ 64 - 1) : ChunkingFree limit where
  responseBody := by
    rw [readBounded_eq representable]
    exact Bounded.collect_reader limit _ _
  apiBody status := by
    rw [readChunks_eq status representable]
    exact Bounded.collect_reader limit _ _
  commandOutput room chunks := by
    rw [readLimitedFrom_eq representable, readLimited_eq]

end

theorem readers_chunkingFree_small : ChunkingFree 1024 := readers_chunkingFree (by decide)

end EalSync.Runtime
