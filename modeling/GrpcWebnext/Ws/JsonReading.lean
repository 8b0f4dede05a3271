import GrpcWebnext.Ws.Frame
import GrpcWebnext.Ws.JsonText

/-! How the servers read a text frame: `serde_json` into the derived `JsonFrame`, and
`encoding/json` into the struct `jsonFrame`. A refused frame is `none`. -/
namespace GrpcWebnext.JsonText
open Framing (Bytes)
open Text (Str)
open Json (Tree Literal)

/-- A numeral for a `u32`: digits only, below 2^32. -/
def readU32 : Tree → Option Nat
  | .number s => (decimal s).filter fun n => n < 2 ^ 32
  | _ => none

namespace Rust

def readText : Tree → Option Str
  | .string literal => literal.text
  | _ => none

def readBool : Tree → Option Bool
  | .bool b => some b
  | _ => none

def readEntry (field : Literal × Tree) : Option (Str × Str) :=
  field.1.text.bind fun key => (readText field.2).map fun value => (key, value)

/-- A `BTreeMap<String, String>`; a later entry of a key replaces an earlier one. -/
def readMap : Tree → Option (List (Str × Str))
  | .object fields => (fields.mapM readEntry).map OrderedMap.ofList
  | _ => none

/-- An `Option<T>`, for which `null` is `None`. -/
def optional {α : Type} (read : Tree → Option α) : Tree → Option (Option α)
  | .null => some none
  | t => (read t).map some

/-- The values of the fields of a name. -/
def values (name : String) (fields : List (Literal × Tree)) : List Tree :=
  fields.filterMap fun (key, value) => if key.text = some name.toList then some value else none

/-- A field with a default, which must not come twice. -/
def fieldOr {α : Type} (default : α) (read : Tree → Option α) : List Tree → Option α
  | [] => some default
  | [value] => read value
  | _ => none

def required {α : Type} (read : Tree → Option α) : List Tree → Option α
  | [value] => read value
  | _ => none

def keysRead (fields : List (Literal × Tree)) : Bool := fields.all fun field => field.1.text.isSome

/-- `JsonStatus`. A derived struct is also read from an array of its fields. -/
def readStatus : Tree → Option (Nat × Str)
  | .object fields =>
      if keysRead fields then do
        let code ← required readU32 (values "code" fields)
        let message ← fieldOr [] readText (values "message" fields)
        return (code, message)
      else none
  | .array (code :: rest) => do
      let code ← readU32 code
      let message ← fieldOr [] readText rest
      return (code, message)
  | _ => none

/-- A message is one level below the frame. -/
def readMessage (reread : Str → Option Str) (t : Tree) : Option Tree :=
  if t.depth ≤ 126 then t.rewrite reread written else none

/-- The five fields, each from the values that are there for it. -/
def readFields (reread : Str → Option Str) (metadata timeoutMillis message halfClose status : List Tree) :
    Option JsonFrame := do
  let metadata ← fieldOr none (optional readMap) metadata
  let timeoutMillis ← fieldOr none (optional readU32) timeoutMillis
  let message ← fieldOr none (optional (readMessage reread)) message
  let halfClose ← fieldOr none (optional readBool) halfClose
  let status ← fieldOr none (optional readStatus) status
  return ⟨metadata, timeoutMillis, message, halfClose, status⟩

/-- `decode_json_frame`. Unknown fields are skipped; of an array no element may be left. -/
def decodeJsonFrame (reread : Str → Option Str) : Tree → Option JsonFrame
  | .object fields =>
      if keysRead fields then
        readFields reread (values "metadata" fields) (values "timeoutMillis" fields)
          (values "message" fields) (values "halfClose" fields) (values "status" fields)
      else none
  | .array items =>
      if items.length ≤ 5 then
        readFields reread (items.take 1) ((items.drop 1).take 1) ((items.drop 2).take 1)
          ((items.drop 3).take 1) (items.drop 4)
      else none
  | _ => none

end Rust

namespace Go

/-- The fold of `bytes.EqualFold` as far as it concerns ASCII letters. -/
def foldRune (c : Char) : Char :=
  if c.toNat = 0x17F then 's'
  else if c.toNat = 0x212A then 'k'
  else c.toLower

/-- A field by its exact name, else by its name in any case. -/
def fieldOf {F : Type} (names : List (String × F)) (key : Str) : Option F :=
  ((names.find? fun name => name.1.toList = key).or
    (names.find? fun name => name.1.toList.map foldRune = key.map foldRune)).map Prod.snd

/-- The values of the fields that are taken for one field of the struct. -/
def values {F : Type} [DecidableEq F] (names : List (String × F)) (f : F)
    (fields : List (Literal × Tree)) : List Tree :=
  fields.filterMap fun (key, value) => if fieldOf names key.lossy = some f then some value else none

inductive Field where
  | metadata
  | timeoutMillis
  | message
  | halfClose
  | status
  deriving DecidableEq

def frameNames : List (String × Field) :=
  [("metadata", .metadata), ("timeoutMillis", .timeoutMillis), ("message", .message),
    ("halfClose", .halfClose), ("status", .status)]

inductive StatusField where
  | code
  | message
  deriving DecidableEq

def statusNames : List (String × StatusField) := [("code", .code), ("message", .message)]

/-- A string; `null` leaves the old value. -/
def setString (old : Str) : Tree → Option Str
  | .string literal => some literal.lossy
  | .null => some old
  | _ => none

def setUint32 (old : Nat) : Tree → Option Nat
  | .null => some old
  | t => readU32 t

/-- Each element of a map starts empty. -/
def setEntry (map : List (Str × Str)) (field : Literal × Tree) : Option (List (Str × Str)) :=
  (setString [] field.2).map fun value => OrderedMap.insert field.1.lossy value map

/-- A map is filled further if it is there already. -/
def setMap (old : Option (List (Str × Str))) : Tree → Option (Option (List (Str × Str)))
  | .null => some none
  | .object fields => (fields.foldlM setEntry (old.getD [])).map some
  | _ => none

def setPointer {α : Type} (read : Tree → Option α) (_ : Option α) : Tree → Option (Option α)
  | .null => some none
  | t => (read t).map some

/-- A raw message takes any value as it is, `null` too. -/
def setMessage (_ : Option Tree) (t : Tree) : Option (Option Tree) := some (some t)

def setStatusField (status : Nat × Str) (field : Literal × Tree) : Option (Nat × Str) :=
  match fieldOf statusNames field.1.lossy with
  | some .code => (setUint32 status.1 field.2).map fun code => (code, status.2)
  | some .message => (setString status.2 field.2).map fun message => (status.1, message)
  | none => some status

def setStatus (old : Option (Nat × Str)) : Tree → Option (Option (Nat × Str))
  | .null => some none
  | .object fields => (fields.foldlM setStatusField (old.getD (0, []))).map some
  | _ => none

def setField (f : JsonFrame) (field : Literal × Tree) : Option JsonFrame :=
  match fieldOf frameNames field.1.lossy with
  | some .metadata => (setMap f.metadata field.2).map fun metadata => { f with metadata }
  | some .timeoutMillis =>
      (setPointer readU32 f.timeoutMillis field.2).map fun timeoutMillis => { f with timeoutMillis }
  | some .message => (setMessage f.message field.2).map fun message => { f with message }
  | some .halfClose =>
      (setPointer Rust.readBool f.halfClose field.2).map fun halfClose => { f with halfClose }
  | some .status => (setStatus f.status field.2).map fun status => { f with status }
  | none => some f

/-- `decodeJSONFrame`. The fields are set one after the other, and an error in one of them
is the error of the whole. A `null` sets nothing. -/
def decodeJSONFrame (t : Tree) : Option JsonFrame :=
  if t.depth ≤ 10000 then
    match t with
    | .null => some .empty
    | .object fields => fields.foldlM setField .empty
    | _ => none
  else none

end Go

/-- What a text frame of a client stands for. -/
inductive ClientFrame where
  | subscribe (headers : List (Str × Str)) (timeoutMillis : Nat) (initialPayload : Option Tree)
  | message (payload : Tree)
  | halfClose
  | reset (code : Nat) (message : Str)

def jsonOpenToSubscribe (f : JsonFrame) : ClientFrame :=
  .subscribe (f.metadata.getD []) (f.timeoutMillis.getD 0) f.message

def jsonFrameToProto (f : JsonFrame) : ClientFrame :=
  match f.status with
  | some (code, message) => .reset code message
  | none =>
      if f.halfClose = some true then .halfClose
      else match f.message with
        | some message => .message message
        | none => .halfClose

/-- The reading of a text message, `none` for one that is not JSON. -/
def decodeText (decode : Tree → Option JsonFrame) (opened : Bool) (text : Option Tree) :
    Option ClientFrame :=
  (text.bind decode).map fun f => if opened then jsonFrameToProto f else jsonOpenToSubscribe f

section Kinds
variable (print : Tree → Bytes) (methodUrl : Str)

/-- A frame as the connection handles it, with its message written out. -/
def JsonFrame.toWs (f : JsonFrame) : Ws.JsonFrame where
  metadata := (f.metadata.getD []).map fun (key, value) => (key, Utf8.encode value)
  timeoutMillis := f.timeoutMillis
  message := f.message.map print
  halfClose := f.halfClose
  status := f.status.map fun (code, message) => (code, Utf8.encode message)

def ClientFrame.kind : ClientFrame → Ws.Kind
  | .subscribe headers timeoutMillis initialPayload => .subscribe
      { method := methodUrl
        headers := headers.map fun (key, value) => ⟨key, some (.ascii (Utf8.encode value))⟩
        timeoutMillis := timeoutMillis
        initialPayload := (initialPayload.map print).getD [] }
  | .message payload => .message (print payload)
  | .halfClose => .halfClose
  | .reset code details => .reset code (Utf8.encode details)

theorem jsonFrameToProto_toWs (f : JsonFrame) :
    Ws.jsonFrameToProto (f.toWs print) = (jsonFrameToProto f).kind print methodUrl := by
  unfold Ws.jsonFrameToProto jsonFrameToProto JsonFrame.toWs
  cases f.status with
  | some status => rfl
  | none =>
      simp only [Option.map_none]
      split
      · rfl
      · cases f.message <;> rfl

/-- The connection gets the frames that are read here. -/
theorem decodeText_toWs (decode : Tree → Option JsonFrame) (opened : Bool) (text : Option Tree) :
    (Ws.decodeText ((text.bind decode).map (JsonFrame.toWs print)) methodUrl opened).1 =
      (decodeText decode opened text).map (ClientFrame.kind print methodUrl) := by
  unfold Ws.decodeText decodeText
  cases text.bind decode with
  | none => rfl
  | some f =>
      cases opened with
      | true => exact congrArg some (jsonFrameToProto_toWs print methodUrl f)
      | false => simp [JsonFrame.toWs, Ws.jsonOpenToSubscribe, jsonOpenToSubscribe, ClientFrame.kind]

end Kinds

end GrpcWebnext.JsonText
