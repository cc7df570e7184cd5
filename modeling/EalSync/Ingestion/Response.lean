import EalSync.Ingestion.Policy
import EalSync.Std.Stream

/-! src/ingestion/network/response.rs: the headers and the body of a response, which the server
chooses byte by byte. -/
namespace EalSync.Ingestion

/-- Header names are lower-case; a name may occur more than once. -/
abbrev HeaderMap := List (Str × List UInt8)

structure Response where
  status : Nat
  headers : HeaderMap
  body : List (Except Str (List UInt8))

namespace HeaderMap

def get (headers : HeaderMap) (name : Str) : Option (List UInt8) :=
  (headers.find? fun header => header.1 == name).map Prod.snd

end HeaderMap

/-- HeaderValue::to_str: visible ASCII, space and tab. -/
def toStr (value : List UInt8) : Option Str :=
  if value.all fun b => b == 9 || (32 ≤ b && b < 127) then some (value.map fun b => Char.ofNat b.toNat)
  else none

def headerString (headers : HeaderMap) (name : Str) : Option Str := (headers.get name).bind toStr

/-- str::parse::<u64>. -/
def parseU64 (s : Str) : Option Nat :=
  let digits := match s with
    | '+' :: rest => rest
    | _ => s
  if digits.isEmpty || !digits.all Char.isDigit then none
  else
    let n := digits.foldl (fun n c => n * 10 + (c.toNat - 48)) 0
    if n < 2 ^ 64 then some n else none

def contentLength (headers : HeaderMap) : Except IngestionError (Option Nat) :=
  match headers.get "content-length".toList with
  | none => .ok none
  | some value =>
    match toStr value with
    | none => .error ⟨"invalid_content_length", "Content-Length is not valid ASCII"⟩
    | some text =>
      match parseU64 text with
      | none => .error ⟨"invalid_content_length", "Content-Length is not an unsigned integer"⟩
      | some n => .ok (some n)

def contentType (headers : HeaderMap) (required : Bool) : Except IngestionError Str :=
  match headers.get "content-type".toList with
  | some value =>
    match toStr value with
    | some text => .ok (Str.toAsciiLowercase text)
    | none => .error ⟨"invalid_content_type", "Content-Type is not valid ASCII/UTF-8"⟩
  | none =>
    if required then .error ⟨"missing_content_type", "response omitted Content-Type"⟩
    else .ok "text/plain".toList

def isAllowedContentType (value : Str) : Bool :=
  let base := Str.trim ((value.splitOn ';').headD value)
  ["text/html".toList, "application/xhtml+xml".toList, "text/plain".toList,
    "application/json".toList, "application/feed+json".toList, "application/xml".toList,
    "text/xml".toList, "application/rss+xml".toList, "application/atom+xml".toList].contains base ||
    Str.endsWith "+json".toList base || Str.endsWith "+xml".toList base

/-- The loop over the chunks of the body stream. -/
def readBounded (maxBytes : Nat) : List UInt8 → List (Except Str (List UInt8)) →
    Except IngestionError (List UInt8)
  | body, [] => .ok body
  | _, .error e :: _ =>
    .error ⟨"body_read_failed", "could not read response body: " ++ String.ofList e⟩
  | body, .ok chunk :: stream =>
    if saturatingAdd body.length chunk.length > maxBytes then
      .error ⟨"response_too_large", "decompressed response exceeds " ++ toString maxBytes ++ " bytes"⟩
    else readBounded maxBytes (body ++ chunk) stream

def readBoundedBody (response : Response) (maxBytes : Nat) : Except IngestionError (List UInt8) :=
  readBounded maxBytes [] response.body

end EalSync.Ingestion
