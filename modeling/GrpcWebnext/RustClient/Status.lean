import GrpcWebnext.Library.Base64
import GrpcWebnext.Metadata
import Mathlib

/-! Statuses of the Rust client and how they are read off a header block: `status.rs` and
`metadata.rs` of the client. -/
namespace GrpcWebnext.RustClient
open Framing (Bytes)
open Text (Str)

inductive MetadataValue where
  | ascii (value : Str)
  | binary (value : Bytes)
  deriving DecidableEq

/-- The entries of `Metadata`. -/
abbrev Metadata := List (Str × MetadataValue)

/-- A header or trailer block as the transport hands it out. -/
abbrev Headers := List (Str × Str)

def Headers.get (headers : Headers) (name : String) : Option Str :=
  (headers.find? fun entry => entry.1 = name.toList).map Prod.snd

def framingHeaders : List String :=
  ["content-type", "content-length", "te", "grpc-encoding", "grpc-accept-encoding", "grpc-timeout",
    "user-agent", "date",
    "trailer"]

def isFramingHeader (key : Str) : Bool := framingHeaders.any fun name => name.toList = key

/-- A `-bin` value as it is read: padded, or else without padding, or else kept as it is. -/
def binaryValue (value : Str) : MetadataValue :=
  let text := Utf8.encode value
  match (Base64.decode (fun wanted found => found = wanted) true text).or
    (Base64.decode (fun _ found => found = 0) true text) with
  | some bytes => .binary bytes
  | none => .ascii value

/-- `Metadata::from_headers`. -/
def Metadata.fromHeaders (headers : Headers) : Metadata :=
  let entries := headers.filterMap fun (name, value) =>
    let key := name.map Char.toLower
    if key.head? = some ':' || isFramingHeader key then none
    else some (key, if isBinKey key then binaryValue value else .ascii value)
  entries.insertionSort fun a b => a.1 ≤ b.1

def Metadata.remove (metadata : Metadata) (key : String) : Metadata :=
  metadata.filter fun entry => entry.1 ≠ key.toList

structure Status where
  code : Nat
  message : Str
  metadata : Metadata

/-- `Status::new`. -/
def Status.new (code : Nat) (message : String) : Status := ⟨code, message.toList, []⟩

def Status.isOk (status : Status) : Bool := status.code = Code.ok

/-- `Code::from_i32`. -/
def codeOfI32 (value : Int) : Nat := if 0 ≤ value ∧ value ≤ 16 then value.toNat else Code.unknown

/-- The characters that `str::trim` takes off. -/
def isWhitespace (c : Char) : Bool :=
  let n := c.toNat
  (9 ≤ n && n ≤ 13) || n == 0x20 || n == 0x85 || n == 0xA0 || n == 0x1680 || (0x2000 ≤ n && n ≤ 0x200A) ||
    n == 0x2028 || n == 0x2029 || n == 0x202F || n == 0x205F || n == 0x3000

def trim (s : Str) : Str := (s.dropWhile isWhitespace).rdropWhile isWhitespace

/-- `str::parse::<i32>`. -/
def parseI32 (s : Str) : Option Int :=
  let value := match s with
    | '+' :: digits => (decimal digits).map Int.ofNat
    | '-' :: digits => (decimal digits).map fun n => -Int.ofNat n
    | digits => (decimal digits).map Int.ofNat
  value.filter fun n => -2 ^ 31 ≤ n && n < 2 ^ 31

/-- `decode_grpc_message`; what is not UTF-8 then is passed through as it came. -/
def decodeGrpcMessage (value : Str) : Str :=
  let bytes := Go.percentDecode (Utf8.encode value)
  if Utf8.valid bytes then Utf8.decodeLossy bytes else value

/-- `Status::from_headers`. -/
def Status.fromHeaders (headers : Headers) : Option Status :=
  (headers.get "grpc-status").map fun raw =>
    ⟨(parseI32 (trim raw)).elim Code.unknown codeOfI32,
      ((headers.get "grpc-message").map decodeGrpcMessage).getD [],
      ((Metadata.fromHeaders headers).remove "grpc-status").remove "grpc-message"⟩

/-- No value but 0 is the code OK. -/
theorem codeOfI32_eq_ok (value : Int) : codeOfI32 value = Code.ok ↔ value = 0 := by
  unfold codeOfI32 Code.ok
  split
  · rename_i range
    omega
  · rename_i outside
    refine iff_of_false (by decide) ?_
    rintro rfl
    exact outside ⟨le_rfl, by decide⟩

/-- A status read off a block is OK exactly when the block carries a `grpc-status` that
parses to 0. -/
theorem fromHeaders_isOk (headers : Headers) :
    (∃ status, Status.fromHeaders headers = some status ∧ status.isOk) ↔
      ((headers.get "grpc-status").bind fun raw => parseI32 (trim raw)) = some 0 := by
  unfold Status.fromHeaders
  cases headers.get "grpc-status" with
  | none => simp
  | some raw =>
      rw [Option.map_some, Option.bind_some]
      cases parsed : parseI32 (trim raw) with
      | none => simp [Status.isOk, Code.unknown, Code.ok]
      | some value =>
          simp only [Option.some.injEq, exists_eq_left', Status.isOk, Option.elim_some, decide_eq_true_eq]
          exact codeOfI32_eq_ok value

end GrpcWebnext.RustClient
