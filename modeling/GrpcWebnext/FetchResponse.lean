import GrpcWebnext.Backend

/-! The response side of Fetch in both servers: `+proto` streams the body behind the
compression flag and appends the Trailer, JSON buffers and carries the status in a
header. -/
namespace GrpcWebnext
open Framing (Bytes)
open Text (Str)

structure Trailer where
  statusCode : Nat
  statusMessage : Bytes
  trailers : List Metadatum
  deriving DecidableEq

/-- The Trailer an empty byte string decodes to. -/
def Trailer.default : Trailer := ⟨0, [], []⟩

/-- A `+proto` response: the header block whose metadata is merged into the response
head, the streamed chunks, and the Trailer that ends the body unless it is cut off. -/
structure FetchResponse where
  initial : HeaderMap
  blocks : List Bytes
  trailer : Option Trailer

def emptyMessageBlock : Bytes := [0, 0, 0, 0]

/-- `fetch_status`: a status before any response body is available. -/
def fetchStatus (code : Nat) (message : String) : FetchResponse :=
  ⟨[], [emptyMessageBlock], some ⟨code, utf8 message, []⟩⟩

/-- The forwarding loop: the first `skip` bytes are dropped, empty rests not written. -/
def relay : Nat → List Bytes → List Bytes
  | _, [] => []
  | skip, chunk :: rest =>
      let data := chunk.drop skip
      if data = [] then relay (skip - chunk.length) rest
      else data :: relay (skip - chunk.length) rest

/-- A native JSON response: the status in a header, the body empty unless it is OK. -/
structure JsonResponse where
  statusCode : Nat
  statusMessage : Bytes
  body : Bytes
  initial : HeaderMap
  trailing : HeaderMap

def jsonStatus (code : Nat) (message : String) : JsonResponse := ⟨code, utf8 message, [], [], []⟩

namespace Rust

/-- The Trailer of a body that ended on its own. The trailing metadata of a
trailers-only response rides in its headers. -/
def trailerOf (fromBase64 : Bytes → Option Bytes) (r : Response Bytes) : Trailer :=
  let trailersOnly := (HeaderMap.get r.headers "grpc-status").isSome
  let trailing := if r.trailers = [] ∧ trailersOnly then r.headers else r.trailers
  ⟨(readStatus r.trailers r.headers).1, (readStatus r.trailers r.headers).2,
    metadataToVec fromBase64 trailing⟩

/-- The stream of `unary_proto` behind the response head. A body error and a deadline
in the middle of the message end it without a Trailer. -/
def streamResponse (fromBase64 : Bytes → Option Bytes) (r : Response Bytes) : FetchResponse :=
  let trailersOnly := (HeaderMap.get r.headers "grpc-status").isSome
  let sent := relay 1 r.chunks
  let blocks := if sent = [] then [emptyMessageBlock] else sent
  let initial := if trailersOnly then [] else r.headers
  match r.ending with
  | .failed _ => ⟨initial, sent, none⟩
  | .expired =>
      if sent = [] then
        ⟨initial, blocks, some ⟨Code.deadlineExceeded, utf8 "deadline exceeded",
          metadataToVec fromBase64 (if trailersOnly then r.headers else [])⟩⟩
      else ⟨initial, sent, none⟩
  | _ => ⟨initial, blocks, some (trailerOf fromBase64 r)⟩

def unaryProto (fromBase64 : Bytes → Option Bytes) : Call → FetchResponse
  | .refused reason => fetchStatus Code.unavailable ("upstream: " ++ reason)
  | .late => fetchStatus Code.deadlineExceeded "deadline exceeded"
  | .answered r => streamResponse fromBase64 r

/-- The end of `json_upstream`, once the body is collected. -/
def renderJson (toJson : Bytes → Except String Bytes) (r : Response Bytes) : JsonResponse :=
  let message := r.messages.head?.getD []
  let (code, details) := readStatus r.trailers r.headers
  if code = 0 ∧ message ≠ [] then
    match toJson message with
    | .ok body => ⟨code, details, body, r.headers, r.trailers⟩
    | .error e => jsonStatus Code.internal ("bad json response: " ++ e)
  else ⟨code, details, [], r.headers, r.trailers⟩

def jsonUpstream (toJson : Bytes → Except String Bytes) : Call → JsonResponse
  | .refused reason => jsonStatus Code.unavailable ("upstream: " ++ reason)
  | .late => jsonStatus Code.deadlineExceeded "deadline exceeded"
  | .answered r => match r.ending with
    | .failed reason => jsonStatus Code.unavailable ("upstream body: " ++ reason)
    | .expired => jsonStatus Code.deadlineExceeded "deadline exceeded"
    | _ => renderJson toJson r

end Rust

namespace Go

/-- What `proto.Marshal` accepts: it refuses a string field that is not UTF-8. -/
def marshals (t : Trailer) : Bool :=
  Utf8.valid t.statusMessage && t.trailers.all fun m => match m.value with
    | some (.ascii value) => Utf8.valid value
    | _ => true

/-- The Trailer that `encodeTrailerBlock` puts on the wire: one that does not marshal
becomes an empty block. -/
def sealed (t : Trailer) : Trailer := if marshals t then t else .default

def trailerOf (fromBase64 : Bytes → Option Bytes) (r : Response Bytes) : Trailer :=
  ⟨(readStatus r.trailers r.headers).1, (readStatus r.trailers r.headers).2,
    headersToMetadataList fromBase64 r.trailers⟩

/-- The end of `unaryProto`, once the response headers are there. Any read error ends
the loop; a cancelled read is told apart by the timer's flag only. -/
def streamResponse (fromBase64 : Bytes → Option Bytes) (r : Response Bytes) : FetchResponse :=
  let sent := relay 1 r.chunks
  let blocks := if sent = [] then [emptyMessageBlock] else sent
  if r.ending = .expired then
    if sent = [] then
      ⟨r.headers, blocks, some ⟨Code.deadlineExceeded, utf8 "deadline exceeded", []⟩⟩
    else ⟨r.headers, sent, none⟩
  else ⟨r.headers, blocks, some (trailerOf fromBase64 r)⟩

/-- A handler that is gone before it answers shows as an ended context. -/
def unaryProto (fromBase64 : Bytes → Option Bytes) : Call → FetchResponse
  | .answered r => streamResponse fromBase64 r
  | _ => fetchStatus Code.deadlineExceeded "deadline exceeded"

def renderJson (toJson : Bytes → Except String Bytes) (r : Response Bytes) : JsonResponse :=
  let (code, details) := readStatus r.trailers r.headers
  match r.messages with
  | message :: _ =>
      if code = 0 then
        match toJson message with
        | .ok body => ⟨code, details, body, r.headers, r.trailers⟩
        | .error e => jsonStatus Code.internal ("bad json response: " ++ e)
      else ⟨code, details, [], r.headers, r.trailers⟩
  | [] => ⟨code, details, [], r.headers, r.trailers⟩

def jsonUpstream (toJson : Bytes → Except String Bytes) : Call → JsonResponse
  | .answered r => match r.ending with
    | .failed reason => jsonStatus Code.unavailable ("upstream body: " ++ reason)
    | .expired => jsonStatus Code.deadlineExceeded "deadline exceeded"
    | _ => renderJson toJson r
  | _ => jsonStatus Code.deadlineExceeded "deadline exceeded"

end Go
end GrpcWebnext
