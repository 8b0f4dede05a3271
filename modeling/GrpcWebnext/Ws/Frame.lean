import GrpcWebnext.Metadata

/-! The frames of the WebSocket path, inbound and outbound. -/
namespace GrpcWebnext.Ws
open Framing (Bytes)
open Text (Str)

structure Subscribe where
  method : Str
  headers : List Metadatum
  timeoutMillis : Nat
  initialPayload : Bytes
  deriving DecidableEq

/-- The kinds of a protobuf `Frame`. -/
inductive Kind where
  | subscribe (sub : Subscribe)
  | message (payload : Bytes)
  | halfClose
  | trailer (code : Nat) (message : Bytes) (trailers : List Metadatum)
  | reset (code : Nat) (message : Bytes)
  | header (headers : List Metadatum)
  deriving DecidableEq

/-- A decoded text frame. The message is the serialised JSON value. -/
structure JsonFrame where
  metadata : List (Str × Bytes)
  timeoutMillis : Option Nat
  message : Option Bytes
  halfClose : Option Bool
  status : Option (Nat × Bytes)
  deriving DecidableEq

def jsonOpenToSubscribe (f : JsonFrame) (method : Str) : Subscribe where
  method := method
  headers := f.metadata.map fun (key, value) => ⟨key, some (.ascii value)⟩
  timeoutMillis := f.timeoutMillis.getD 0
  initialPayload := f.message.getD []

def jsonFrameToProto (f : JsonFrame) : Kind :=
  match f.status with
  | some (code, message) => .reset code message
  | none =>
      if f.halfClose = some true then .halfClose
      else match f.message with
        | some message => .message message
        | none => .halfClose

/-- A text frame behind the first one never opens a stream. -/
theorem jsonFrameToProto_ne (f : JsonFrame) (sub : Subscribe) :
    jsonFrameToProto f ≠ .subscribe sub := by
  unfold jsonFrameToProto
  split
  · exact Kind.noConfusion
  · split
    · exact Kind.noConfusion
    · split <;> exact Kind.noConfusion

/-- One WebSocket message as it arrives. The payload of a data message is what the
frame decoder makes of it: `none` for bytes it rejects, and for a protobuf frame
`some none` when no kind is set. -/
inductive Inbound where
  | binary (frame : Option (Option Kind))
  | text (frame : Option JsonFrame)
  | close
  | control
  deriving DecidableEq

/-- `decode_binary`: the frame, and whether the stream has been opened by now. -/
def decodeBinary (frame : Option (Option Kind)) (methodUrl : Str) (opened : Bool) :
    Option Kind × Bool :=
  match frame with
  | some (some (.subscribe sub)) => (some (.subscribe { sub with method := methodUrl }), true)
  | some (some kind) => if opened then (some kind, true) else (none, false)
  | _ => (none, opened)

/-- `decode_text`: the first frame opens the stream, later ones never do. -/
def decodeText (frame : Option JsonFrame) (methodUrl : Str) (opened : Bool) :
    Option Kind × Bool :=
  match frame with
  | none => (none, opened)
  | some f =>
      if opened then (some (jsonFrameToProto f), true)
      else (some (.subscribe (jsonOpenToSubscribe f methodUrl)), true)

/-- What a connection knows about its codec, and whether an open frame was seen. -/
structure Codec where
  json : Option Bool
  opened : Bool
  deriving DecidableEq

/-- The read loop's treatment of one data message: the codec it locks to, and the
frame to handle, if any. A message of the other codec is dropped. -/
def decode (codec : Codec) (methodUrl : Str) : Inbound → Codec × Option (Kind × Bool)
  | .binary frame =>
      if codec.json.getD false then (codec, none)
      else
        let (kind, opened) := decodeBinary frame methodUrl codec.opened
        (⟨some false, opened⟩, kind.map (·, false))
  | .text frame =>
      if codec.json.getD true then
        let (kind, opened) := decodeText frame methodUrl codec.opened
        (⟨some true, opened⟩, kind.map (·, true))
      else (codec, none)
  | .close => (codec, none)
  | .control => (codec, none)

theorem decode_opened (codec : Codec) (methodUrl : Str) (msg : Inbound) (opened : codec.opened) :
    (decode codec methodUrl msg).1.opened := by
  cases msg with
  | binary frame =>
      simp only [decode]
      split
      · exact opened
      · simp only [decodeBinary, opened]
        split <;> rfl
  | text frame =>
      simp only [decode]
      split
      · simp only [decodeText, opened]
        split <;> rfl
      · exact opened
  | close => exact opened
  | control => exact opened

/-- Where an open frame comes from: a binary Subscribe at any time, or the first text frame. -/
theorem decode_subscribe {codec codec' : Codec} {methodUrl : Str} {msg : Inbound}
    {sub : Subscribe} {json : Bool}
    (decoded : decode codec methodUrl msg = (codec', some (.subscribe sub, json))) :
    codec'.opened = true ∧
      ((∃ raw, msg = .binary (some (some (.subscribe raw))) ∧ json = false ∧
          codec.json.getD false = false ∧ raw.initialPayload = sub.initialPayload) ∨
        ∃ f, msg = .text (some f) ∧ json = true ∧ codec.opened = false) := by
  cases msg with
  | binary frame =>
      simp only [decode] at decoded
      split at decoded
      · cases decoded
      · have unlocked : codec.json.getD false = false := by
          simpa using ‹¬ codec.json.getD false = true›
        unfold decodeBinary at decoded
        split at decoded
        · rename_i raw
          cases decoded
          exact ⟨rfl, .inl ⟨raw, rfl, rfl, unlocked, rfl⟩⟩
        · rename_i kind other
          split at decoded
          · cases decoded
            exact absurd rfl (other sub)
          · cases decoded
        · cases decoded
  | text frame =>
      simp only [decode] at decoded
      split at decoded
      · unfold decodeText at decoded
        split at decoded
        · cases decoded
        · rename_i f
          split at decoded
          · simp only [Option.map_some, Prod.mk.injEq, Option.some.injEq] at decoded
            exact absurd decoded.2.1 (jsonFrameToProto_ne f sub)
          · cases decoded
            refine ⟨rfl, .inr ⟨f, rfl, rfl, ?_⟩⟩
            simpa using ‹¬ codec.opened = true›
      · cases decoded
  | close => cases decoded
  | control => cases decoded

/-- One queued WebSocket message: a frame in the connection codec or the close
frame. The Reset that refuses a duplicate open is told apart from a stream's own. -/
inductive Out where
  | frame (json : Bool) (kind : Kind)
  | openRefused (json : Bool)
  | close (code : Nat) (reason : Bytes)
  deriving DecidableEq

/-- The frame a queued message carries on the wire. -/
def Out.kind : Out → Option Kind
  | .frame _ kind => some kind
  | .openRefused _ => some (.reset Code.invalidArgument (utf8 "stream already open"))
  | .close _ _ => none

def closeNormal : Out := .close 1000 []

def closeGoingAway : Out := .close 1001 (utf8 "server draining")

def resetFrame (json : Bool) (code : Nat) (message : Bytes) : Out := .frame json (.reset code message)

def Out.isClose : Out → Bool
  | .close _ _ => true
  | _ => false

/-- The frame that ends a stream: its Trailer or its Reset. -/
def Out.isTerminal : Out → Bool
  | .frame _ (.trailer _ _ _) => true
  | .frame _ (.reset _ _) => true
  | _ => false

end GrpcWebnext.Ws
