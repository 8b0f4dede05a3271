import GrpcWebnext.Library.Json

/-! The text frames of the `+json` codec, as in `json_frame.rs` and `jsonframe.go`: the
frames a server sends, and the texts they become. -/
namespace GrpcWebnext.JsonText
open Text (Str)
open Json (Tree Piece Literal)

/-- `JsonFrame` and `jsonFrame`. A message is a JSON text. -/
structure JsonFrame where
  metadata : Option (List (Str × Str))
  timeoutMillis : Option Nat
  message : Option Tree
  halfClose : Option Bool
  status : Option (Nat × Str)

def JsonFrame.empty : JsonFrame := ⟨none, none, none, none, none⟩

/-- The metadata of a frame; a value that is not ASCII is `none`. -/
abbrev Metadata := List (Str × Option Str)

/-- The frames of a server. The payload of a message is the JSON text it holds, `none` if
it is empty. Kinds that only a client sends have no JSON form. -/
inductive ServerFrame where
  | header (headers : Metadata)
  | message (payload : Option Tree)
  | trailer (code : Nat) (message : Str) (trailers : Metadata)
  | reset (code : Nat) (message : Str)
  | clientOnly

def unicodeEscape (c : Char) : Str :=
  let digits := Nat.toDigits 16 c.toNat
  '\\' :: 'u' :: List.replicate (4 - digits.length) '0' ++ digits

def shortEscape (c : Char) : Option Str :=
  if c = '"' then some ['\\', '"']
  else if c = '\\' then some ['\\', '\\']
  else if c.toNat = 8 then some ['\\', 'b']
  else if c.toNat = 9 then some ['\\', 't']
  else if c.toNat = 10 then some ['\\', 'n']
  else if c.toNat = 12 then some ['\\', 'f']
  else if c.toNat = 13 then some ['\\', 'r']
  else none

/-- The metadata that has a JSON form, as a map. -/
def asciiMap (items : Metadata) : List (Str × Str) :=
  OrderedMap.ofList (items.filterMap fun (key, value) => value.map fun value => (key, value))

def field (written : Char → Str) (name : String) (value : Option Tree) : List (Literal × Tree) :=
  match value with
  | some value => [(Json.write written name.toList, value)]
  | none => []

/-- A map and a status as JSON. -/
def mapText (written : Char → Str) (map : List (Str × Str)) : Tree :=
  .object (Json.toFields written (map.map fun (key, value) => (key, .string (Json.write written value))))

def statusText (written : Char → Str) (status : Nat × Str) : Tree :=
  .object (field written "code" (some (.number (Nat.toDigits 10 status.1))) ++
    field written "message"
      (if status.2 = [] then none else some (.string (Json.write written status.2))))

/-- The object of the fields that are there, in the order of the struct. -/
def frameText (written : Char → Str) (f : JsonFrame) : Tree :=
  .object (field written "metadata" (f.metadata.map (mapText written)) ++
    field written "timeoutMillis" (f.timeoutMillis.map fun n => .number (Nat.toDigits 10 n)) ++
    field written "message" f.message ++
    field written "halfClose" (f.halfClose.map .bool) ++
    field written "status" (f.status.map (statusText written)))

namespace Rust

/-- The spelling of a character in `serde_json`. -/
def written (c : Char) : Str :=
  (shortEscape c).getD (if c.toNat < 32 then unicodeEscape c else [c])

/-- `serde_json::from_slice::<Value>`, which stops at the 128th level, and the text that
`Value` is written as. -/
def readValue (reread : Str → Option Str) (t : Tree) : Option Tree :=
  if t.depth ≤ 127 then t.rewrite reread written else none

def metaVecToJson (items : Metadata) : Option (List (Str × Str)) :=
  if asciiMap items = [] then none else some (asciiMap items)

def protoFrameToJson (reread : Str → Option Str) : ServerFrame → Option JsonFrame
  | .message payload => some { JsonFrame.empty with
      message := some ((payload.bind (readValue reread)).getD .null) }
  | .header headers => some { JsonFrame.empty with metadata := some ((metaVecToJson headers).getD []) }
  | .trailer code message trailers => some { JsonFrame.empty with
      status := some (code, message), metadata := metaVecToJson trailers }
  | .reset code message => some { JsonFrame.empty with status := some (code, message) }
  | .clientOnly => none

/-- The struct skips the fields that are `None`. -/
def encodeJsonFrame (f : JsonFrame) : Tree := frameText written f

end Rust

namespace Go

/-- The spelling of a character in `encoding/json`, which also escapes for HTML. -/
def written (c : Char) : Str :=
  (shortEscape c).getD
    (if c.toNat < 32 ∨ c = '<' ∨ c = '>' ∨ c = '&' ∨ c.toNat = 0x2028 ∨ c.toNat = 0x2029 then
      unicodeEscape c
    else [c])

/-- A raw message is copied, with the same characters escaped. -/
def compactPiece (piece : Piece) : Piece :=
  match piece.spelling, piece.unit with
  | [c], .char d =>
      if c = d ∧ (c = '<' ∨ c = '>' ∨ c = '&' ∨ c.toNat = 0x2028 ∨ c.toNat = 0x2029) then
        ⟨unicodeEscape c, piece.unit⟩
      else piece
  | _, _ => piece

def listToJSONMeta (items : Metadata) : Option (List (Str × Str)) :=
  if asciiMap items = [] then none else some (asciiMap items)

def rawJSON (payload : Option Tree) : Tree := payload.getD .null

def protoFrameToJSON : ServerFrame → Option JsonFrame
  | .message payload => some { JsonFrame.empty with message := some (rawJSON payload) }
  | .header headers => some { JsonFrame.empty with metadata := some ((listToJSONMeta headers).getD []) }
  | .trailer code message trailers => some { JsonFrame.empty with
      status := some (code, message), metadata := listToJSONMeta trailers }
  | .reset code message => some { JsonFrame.empty with status := some (code, message) }
  | .clientOnly => none

/-- `json.Marshal`: `omitempty` leaves out an empty map as well as a missing one, and a
raw message of more than 10000 levels is an error, for which an empty object is sent. -/
def encodeJSONFrame (f : JsonFrame) : Tree :=
  if f.message.any fun t => decide (10000 < t.depth) then .object []
  else frameText written { f with
    metadata := f.metadata.filter fun map => map ≠ []
    message := f.message.map (Tree.respell compactPiece) }

end Go

end GrpcWebnext.JsonText
