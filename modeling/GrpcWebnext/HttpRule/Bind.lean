import GrpcWebnext.HttpRule.Template
import GrpcWebnext.Metadata
import Mathlib.Algebra.Group.Int.Defs

/-! Building a request message from a matched binding, in both servers. Rust strings are
lists of characters and Go strings lists of bytes, so the text type is a parameter; the
reflection library and its JSON codec are one too. -/
namespace GrpcWebnext.HttpRule
open Framing (Bytes)
open Text (Str)

/-- Field kinds, the wire encodings of one integer width taken together. -/
inductive Kind (T : Type) where
  | string
  | bool
  | int32
  | int64
  | uint32
  | uint64
  | float
  | double
  | enum (values : List (T × Int))
  | bytes
  | message (type : T)
  deriving DecidableEq

inductive Shape where
  | singular
  | list
  | map
  deriving DecidableEq

/-- A field descriptor. The siblings are the other members of its oneof. -/
structure Field (T : Type) where
  number : Nat
  name : T
  jsonName : T
  kind : Kind T
  shape : Shape
  siblings : List Nat
  deriving DecidableEq

inductive Value (T Msg : Type) where
  | string (text : T)
  | bool (b : Bool)
  | i32 (n : Int)
  | i64 (n : Int)
  | u32 (n : Nat)
  | u64 (n : Nat)
  | f32 (bits : Nat)
  | f64 (bits : Nat)
  | enumNumber (n : Int)
  | bytes (raw : Bytes)
  | message (msg : Msg)
  | list (items : List (Value T Msg))
  | map (entries : List (Value T Msg × Value T Msg))

/-- How an assignment fails: with an error that is returned, or with a panic. -/
inductive Fault where
  | error (text : String)
  | panic
  deriving DecidableEq

/-- The descriptor pool, the dynamic messages over it and their JSON codec. -/
structure Store (T Msg : Type) where
  fields : T → List (Field T)
  new : T → Msg
  descriptor : Msg → T
  get : Msg → Field T → Value T Msg
  set : Msg → Field T → Value T Msg → Msg
  /-- The field reads as an empty value that `set` panics on. -/
  readOnly : Msg → Field T → Bool
  deserialize : T → Bytes → Except String Msg
  quote : T → T
  parseF32 : T → Option Nat
  parseF64 : T → Option Nat
  encode : Msg → Except String Bytes

/-- What the two languages do differently with text. -/
structure Dialect (T : Type) where
  word : String → T
  chars : T → Str
  append : T → T → T
  unsigned : Str → Option Nat
  splitDots : T → List T
  parseQuery : T → Option (List (T × T))
  bodyText : Bytes → Option T
  bytes : T → Bytes
  bodyError : String → String
  display : T → String
  debug : T → String

inductive BodyRule (T : Type) where
  | wildcard
  | field (name : T)
  | none
  deriving DecidableEq

structure Binding (T : Type) where
  body : BodyRule T
  input : T

/-- `str::parse::<iN>` and `strconv.ParseInt(_, 10, N)`. -/
def parseSigned (bits : Nat) (s : Str) : Option Int :=
  let inRange (n : Int) : Option Int :=
    if -(2 ^ (bits - 1) : Int) ≤ n ∧ n < 2 ^ (bits - 1) then some n else none
  match s with
  | '-' :: digits => (decimal digits).bind fun n => inRange (-n)
  | '+' :: digits => (decimal digits).bind fun n => inRange n
  | digits => (decimal digits).bind fun n => inRange n

section
variable {T Msg : Type} [DecidableEq T] (d : Dialect T) (store : Store T Msg)

def fieldByAnyName (type name : T) : Option (Field T) :=
  ((store.fields type).find? fun f => f.name = name).or
    ((store.fields type).find? fun f => f.jsonName = name)

def coerce (field : Field T) (raw : T) : Except String (Value T Msg) :=
  let num (parsed : Option (Value T Msg)) : Except String (Value T Msg) :=
    match parsed with
    | some value => .ok value
    | none => .error ("invalid value for " ++ d.display field.name ++ ": " ++ d.debug raw)
  let unsigned (bits : Nat) : Option Nat :=
    (d.unsigned (d.chars raw)).filter fun n => decide (n < 2 ^ bits)
  match field.kind with
  | .string => .ok (.string raw)
  | .bool =>
      if raw = d.word "true" ∨ raw = d.word "1" then .ok (.bool true)
      else if raw = d.word "false" ∨ raw = d.word "0" then .ok (.bool false)
      else .error ("invalid bool: " ++ d.debug raw)
  | .int32 => num ((parseSigned 32 (d.chars raw)).map .i32)
  | .int64 => num ((parseSigned 64 (d.chars raw)).map .i64)
  | .uint32 => num ((unsigned 32).map .u32)
  | .uint64 => num ((unsigned 64).map .u64)
  | .float => num ((store.parseF32 raw).map .f32)
  | .double => num ((store.parseF64 raw).map .f64)
  | .enum values => match parseSigned 32 (d.chars raw) with
    | some n => .ok (.enumNumber n)
    | none => match values.find? fun v => v.1 = raw with
      | some v => .ok (.enumNumber v.2)
      | none => .error ("unknown enum value: " ++ d.debug raw)
  | .bytes => .error "bytes must bind through the JSON decoder"
  | .message _ => .error "cannot bind a scalar to a message field"

/-- The well-known types that a URL value binds to: those whose JSON form is a string,
and those whose JSON form is a bare number or bool. -/
def wktJsonShape (type : T) : Option Bool :=
  if ["google.protobuf.Timestamp", "google.protobuf.Duration", "google.protobuf.FieldMask",
      "google.protobuf.StringValue", "google.protobuf.BytesValue", "google.protobuf.Int64Value",
      "google.protobuf.UInt64Value"].any (fun name => d.word name = type) then some true
  else if ["google.protobuf.BoolValue", "google.protobuf.Int32Value", "google.protobuf.UInt32Value",
      "google.protobuf.FloatValue", "google.protobuf.DoubleValue"].any
      (fun name => d.word name = type) then some false
  else none

/-- The one-field document `set_from_json` hands to the decoder. -/
def document (field : Field T) (text : T) : T :=
  d.append (d.append (d.append (d.word "\x7b") (store.quote field.jsonName)) (d.word ":"))
    (d.append text (d.word "\x7d"))

/-- The value the decoder makes of the text, lifted out of a scratch message. -/
def valueFromJson (type : T) (field : Field T) (text : T) : Except Fault (Value T Msg) :=
  match store.deserialize type (d.bytes (document d store field text)) with
  | .ok scratch => if store.readOnly scratch field then .error .panic
      else .ok (store.get scratch field)
  | .error e => .error (.error ("invalid value for " ++ d.display field.name ++ ": " ++ e))

def setFromJson (msg : Msg) (field : Field T) (text : T) : Except Fault Msg :=
  (valueFromJson d store (store.descriptor msg) field text).map (store.set msg field)

def setMessageField (msg : Msg) (name : T) (json : Bytes) : Except Fault Msg :=
  match fieldByAnyName store (store.descriptor msg) name with
  | none => .error (.error ("unknown body field: " ++ d.display name))
  | some field => match d.bodyText json with
    | none => .error (.error ("body field " ++ d.display name ++ ": not valid UTF-8"))
    | some text => setFromJson d store msg field text

/-- A push onto the list of a repeated field. -/
def pushValue (msg : Msg) (field : Field T) (value : Value T Msg) : Msg :=
  match store.get msg field with
  | .list items => store.set msg field (.list (items ++ [value]))
  | _ => msg

/-- The end of the path: the kinds without a scalar form go through the JSON decoder. -/
def setLeaf (msg : Msg) (field : Field T) (raw : T) : Except Fault Msg :=
  match field.kind, field.shape with
  | .bytes, _ => setFromJson d store msg field (store.quote raw)
  | .message inner, .singular => match wktJsonShape d inner with
    | some true => setFromJson d store msg field (store.quote raw)
    | some false => setFromJson d store msg field raw
    | none => .error (.error ("cannot bind a path/query value to message field " ++
        d.display field.name ++ " (" ++ d.display inner ++ ")"))
  | _, .list => ((coerce d store field raw).mapError .error).map (pushValue store msg field)
  | _, _ => ((coerce d store field raw).mapError .error).map (store.set msg field)

/-- `set_by_path`: the head of the path, and the rest of it. -/
def setByPath (msg : Msg) (raw : T) : T → List T → Except Fault Msg
  | name, rest => match fieldByAnyName store (store.descriptor msg) name with
    | none => .error (.error ("unknown field: " ++ d.display name))
    | some field => match rest with
      | [] => setLeaf d store msg field raw
      | next :: rest => match field.kind, field.shape, store.get msg field with
        | .message _, .singular, .message sub =>
            (setByPath sub raw next rest).map fun sub =>
              store.set msg field (.message sub)
        | _, _, _ => .error (.error ("field " ++ d.display name ++ " is not a message"))

/-- An outcome beside the panics, which are `none`. -/
def returned {α : Type} : Except Fault α → Option (Except String α)
  | .ok value => some (.ok value)
  | .error (.error text) => some (.error text)
  | .error .panic => none

/-- An assignment by a whole path; an empty one is out of bounds. -/
def assign (msg : Msg) (path : List T) (raw : T) : Option (Except String Msg) :=
  match path with
  | [] => none
  | name :: rest => returned (setByPath d store msg raw name rest)

def overlay : List (List T × T) → Msg → Option (Except String Msg)
  | [], msg => some (.ok msg)
  | (path, raw) :: rest, msg => match assign d store msg path raw with
    | some (.ok msg) => overlay rest msg
    | other => other

def seed (binding : Binding T) (body : Bytes) : Except Fault Msg :=
  match binding.body with
  | .wildcard =>
      if body = [] then .ok (store.new binding.input)
      else match store.deserialize binding.input body with
        | .ok msg => .ok msg
        | .error e => .error (.error (d.bodyError e))
  | .field name =>
      if body = [] then .ok (store.new binding.input)
      else setMessageField d store (store.new binding.input) name body
  | .none => .ok (store.new binding.input)

/-- The query parameters that are bound: those not spelled like a path variable. -/
def unguarded (vars : List (List T × T)) (pairs : List (T × T)) : List (List T × T) :=
  (pairs.map fun pair => (d.splitDots pair.1, pair.2)).filter fun param =>
    !vars.any fun var => var.1 = param.1

/-- The message of `build_message` before it is encoded. A panic of the query decoding
or of an assignment is `none`. -/
def bindMessage (binding : Binding T) (vars : List (List T × T)) (query : Option T) (body : Bytes) :
    Option (Except String Msg) :=
  match returned (seed d store binding body) with
  | none => none
  | some (.error e) => some (.error e)
  | some (.ok msg) => match overlay d store vars msg with
    | some (.ok msg) =>
        if binding.body = .wildcard then some (.ok msg)
        else match query with
          | none => some (.ok msg)
          | some q => match d.parseQuery q with
            | none => none
            | some pairs => overlay d store (unguarded d vars pairs) msg
    | other => other

def buildMessage (binding : Binding T) (vars : List (List T × T)) (query : Option T) (body : Bytes) :
    Option (Except String Bytes) :=
  (bindMessage d store binding vars query body).map fun built => match built with
    | .ok msg => store.encode msg
    | .error e => .error e

end

namespace Rust

def decodeQuery (s : Str) : Option Str :=
  percentDecode (s.map fun c => if c = '+' then ' ' else c)

def parseQuery (query : Str) : Option (List (Str × Str)) :=
  (Text.fields '&' query).mapM fun pair =>
    let (key, value) := (Text.splitOnce '=' pair).getD (pair, [])
    (decodeQuery key).bind fun key => (decodeQuery value).map fun value => (key, value)

/-- `str::parse` of an unsigned integer, before the range check. -/
def unsigned (s : Str) : Option Nat :=
  match s with
  | '+' :: digits => decimal digits
  | digits => decimal digits

def dialect (debug : Str → String) : Dialect Str where
  word := String.toList
  chars := id
  append := (· ++ ·)
  unsigned := unsigned
  splitDots := List.splitOn '.'
  parseQuery := parseQuery
  bodyText body := if Utf8.valid body then some (Utf8.decodeLossy body) else none
  bytes := Utf8.encode
  bodyError := id
  display := String.ofList
  debug := debug

end Rust

namespace Go

def decodeQuery (s : Bytes) : Bytes :=
  GrpcWebnext.Go.percentDecode (s.map fun b => if b = 43 then 32 else b)

/-- `strings.Cut` at an equals sign. -/
def cut : Bytes → Bytes × Bytes
  | [] => ([], [])
  | b :: rest => if b = 61 then ([], rest) else (b :: (cut rest).1, (cut rest).2)

def parseQuery (query : Bytes) : List (Bytes × Bytes) :=
  ((query.splitOn 38).filter (· ≠ [])).map fun pair =>
    (decodeQuery (cut pair).1, decodeQuery (cut pair).2)

def dialect (debug : Bytes → String) : Dialect Bytes where
  word := utf8
  chars text := text.map fun b => Char.ofNat b.toNat
  append := (· ++ ·)
  unsigned := decimal
  splitDots := List.splitOn 46
  parseQuery query := some (parseQuery query)
  bodyText := some
  bytes := id
  bodyError e := "decode json body: " ++ e
  display text := String.ofList (Utf8.decodeLossy text)
  debug := debug

end Go
end GrpcWebnext.HttpRule
