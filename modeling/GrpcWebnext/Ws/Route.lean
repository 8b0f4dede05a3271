import GrpcWebnext.Ws.Wire

/-! The route a WebSocket connection was opened on, in both servers: where its one
stream goes, and how its messages are mapped. The transcoders are parameters. -/
namespace GrpcWebnext.Ws
open Framing (Bytes)
open Text (Str)

/-- The binding of an annotated route. Building a message may fail, or panic (`none`). -/
structure Rule where
  hasBody : Bool
  buildMessage : Bytes → Option (Except String Bytes)
  responseBody : Str

structure Route where
  maxMessageBytes : Nat
  methodUrl : Str
  ann : Option Rule
  requestJsonToProto : Bytes → Except String Bytes
  responseProtoToJsonBody : Bytes → Str → Except String Bytes
  fromBase64 : Bytes → Option Bytes

def outboundCapacity : Nat := 64

def requestCapacity : Nat := 16

/-- A GET-style route, whose one request is built from the URL alone. -/
def Route.bodyless (route : Route) : Bool :=
  match route.ann with
  | some ann => !ann.hasBody
  | none => false

/-- The request mapper. It has no place for an error, and sends the default message
instead; the result is `none` where it panics. -/
def Route.toProto (route : Route) (json : Bool) (payload : Bytes) : Option Bytes :=
  match route.ann with
  | some ann => (ann.buildMessage payload).map fun built => built.toOption.getD []
  | none =>
      if json then some ((route.requestJsonToProto payload).toOption.getD [])
      else some payload

/-- The messages of a chunk in the connection codec, up to the first that does not encode. -/
def Route.encodeAll (route : Route) (json : Bool) : List Bytes → List Out × Option String
  | [] => ([], none)
  | message :: rest =>
      match if json then route.responseProtoToJsonBody message
          ((route.ann.map Rule.responseBody).getD []) else .ok message with
      | .ok payload =>
          let (outs, failure) := route.encodeAll json rest
          (.frame json (.message payload) :: outs, failure)
      | .error e => ([], some e)

/-- Messages leave an opened stream open. -/
theorem Route.track_encodeAll (route : Route) (json : Bool) (messages : List Bytes) :
    Machine.run track .opened (route.encodeAll json messages).1 = some .opened := by
  induction messages with
  | nil => rfl
  | cons message rest ih =>
      simp only [Route.encodeAll]
      split
      · exact ih
      · rfl

end GrpcWebnext.Ws
