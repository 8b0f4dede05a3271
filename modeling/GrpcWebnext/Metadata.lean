import GrpcWebnext.Library.Framing
import GrpcWebnext.PercentDecode

/-! Header blocks, gRPC metadata and the status of a response, as in `metadata.rs`
and `metadata.go`. -/
namespace GrpcWebnext
open Framing (Bytes)
open Text (Str)

/-- A header block: lower-case names and raw values, in the order of the block. -/
abbrev HeaderMap := List (Str × Bytes)

/-- `HeaderMap::get`: the first value of the name. -/
def HeaderMap.get (headers : HeaderMap) (name : String) : Option Bytes :=
  (headers.find? fun entry => entry.1 = name.toList).map Prod.snd

/-- The bytes of a text constant. -/
def utf8 (s : String) : Bytes := Utf8.encode s.toList

namespace Code

def ok : Nat := 0
def unknown : Nat := 2
def invalidArgument : Nat := 3
def deadlineExceeded : Nat := 4
def resourceExhausted : Nat := 8
def failedPrecondition : Nat := 9
def unimplemented : Nat := 12
def internal : Nat := 13
def unavailable : Nat := 14

end Code

inductive MetaValue where
  | ascii (value : Bytes)
  | bin (value : Bytes)
  deriving DecidableEq, Repr

structure Metadatum where
  key : Str
  value : Option MetaValue
  deriving DecidableEq, Repr

/-- The names that never cross between headers and metadata, in both servers. -/
def deny : List String :=
  ["host", "connection", "content-length", "content-type", "keep-alive", "proxy-connection",
    "transfer-encoding", "te", "upgrade", "grpc-timeout", "grpc-status", "grpc-message",
    "grpc-status-details-bin", "grpc-encoding", "grpc-accept-encoding"]

def isBinKey (key : Str) : Bool := "-bin".toList.isSuffixOf key

/-- `HeaderValue::to_str`: visible ASCII, the space and the tab. -/
def toStr (value : Bytes) : Option Str :=
  if value.all fun b => (32 ≤ b && b < 127) || b == 9 then
    some (value.map fun b => Char.ofNat b.toNat)
  else none

/-- The number a non-empty run of digits denotes. -/
def decimal (s : Str) : Option Nat :=
  if s ≠ [] ∧ s.all Char.isDigit then some (s.foldl (fun n c => n * 10 + (c.toNat - 48)) 0)
  else none

namespace Rust

def isDenied (key : Str) : Bool := deny.any fun name => name.toList = key

/-- `metadata_to_vec`, given the base64 decoding of `-bin` values. -/
def metadataToVec (fromBase64 : Bytes → Option Bytes) (headers : HeaderMap) : List Metadatum :=
  headers.filterMap fun (key, value) =>
    if isDenied key then none
    else if isBinKey key then (fromBase64 value).map fun raw => ⟨key, some (.bin raw)⟩
    else (toStr value).map fun _ => ⟨key, some (.ascii value)⟩

/-- `str::parse::<u32>`. -/
def parseU32 (s : Str) : Option Nat :=
  match decimal (match s with
    | '+' :: digits => digits
    | digits => digits) with
  | some n => if n < 2 ^ 32 then some n else none
  | none => none

/-- The received status code, if there is one that parses. -/
def statusCode (trailers headers : HeaderMap) : Option Nat :=
  ((trailers.get "grpc-status").or (headers.get "grpc-status")).bind fun value =>
    (toStr value).bind parseU32

def readStatus (trailers headers : HeaderMap) : Nat × Bytes :=
  ((statusCode trailers headers).getD 0,
    ((((trailers.get "grpc-message").or (headers.get "grpc-message")).bind toStr).bind
      percentDecode).elim [] Utf8.encode)

end Rust

namespace Go

def isDeniedHeader (key : Str) : Bool :=
  key = "trailer".toList || deny.any fun name => name.toList = key

/-- `headersToMetadataList`, given the base64 decoding of `-bin` values. -/
def headersToMetadataList (fromBase64 : Bytes → Option Bytes) (headers : HeaderMap) :
    List Metadatum :=
  headers.filterMap fun (key, value) =>
    if isDeniedHeader key then none
    else if isBinKey key then (fromBase64 value).map fun raw => ⟨key, some (.bin raw)⟩
    else some ⟨key, some (.ascii value)⟩

/-- `strconv.ParseUint(_, 10, 32)`. -/
def parseUint32 (value : Bytes) : Option Nat :=
  match decimal (value.map fun b => Char.ofNat b.toNat) with
  | some n => if n < 2 ^ 32 then some n else none
  | none => none

/-- The closure of `readStatus`: an empty value counts as absent. -/
def lookup (trailers headers : HeaderMap) (name : String) : Bytes :=
  match (trailers.get name).getD [] with
  | [] => (headers.get name).getD []
  | value => value

def statusCode (trailers headers : HeaderMap) : Option Nat :=
  parseUint32 (lookup trailers headers "grpc-status")

def unhex (hi lo : UInt8) : Option UInt8 :=
  match hexVal hi, hexVal lo with
  | some h, some l => some (UInt8.ofNat (h * 16 + l))
  | _, _ => none

def percentDecode : Bytes → Bytes
  | [] => []
  | 37 :: hi :: lo :: rest => match unhex hi lo with
    | some b => b :: percentDecode rest
    | none => 37 :: percentDecode (hi :: lo :: rest)
  | b :: rest => b :: percentDecode rest

def readStatus (trailers headers : HeaderMap) : Nat × Bytes :=
  ((statusCode trailers headers).getD 0, percentDecode (lookup trailers headers "grpc-message"))

end Go
end GrpcWebnext
