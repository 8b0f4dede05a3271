import GrpcWebnext.Ws.Intake

/-! The request side of a stream: what its backend is sent is what the route's mapper
makes of the payloads the peer sent, one message for each and in their order. -/
namespace GrpcWebnext.Ws
open Framing (Bytes)
open Text (Str)

/-- The payload a WebSocket message carries, inline in an open frame or as a Message. -/
def Inbound.carried : Inbound → Option Bytes
  | .binary (some (some (.subscribe sub))) => some sub.initialPayload
  | .binary (some (some (.message payload))) => some payload
  | .text (some f) => f.message
  | _ => none

theorem message_of_jsonFrameToProto {f : JsonFrame} {payload : Bytes}
    (same : jsonFrameToProto f = .message payload) : f.message = some payload := by
  unfold jsonFrameToProto at same
  split at same
  case h_1 => cases same
  case h_2 =>
      split at same
      case isTrue => cases same
      case isFalse =>
          split at same
          case h_1 message given =>
              cases same
              exact given
          case h_2 => cases same

theorem carried_of_message {codec codec' : Codec} {methodUrl : Str} {msg : Inbound} {payload : Bytes}
    {json : Bool} (decoded : decode codec methodUrl msg = (codec', some (.message payload, json))) :
    msg.carried = some payload := by
  cases msg with
  | binary frame =>
      simp only [decode, decodeBinary] at decoded
      split at decoded
      case isTrue => cases decoded
      case isFalse =>
          split at decoded
          case h_1 => cases decoded
          case h_2 kind notOpen =>
              split at decoded
              case isTrue =>
                  cases decoded
                  rfl
              case isFalse => cases decoded
          case h_3 => cases decoded
  | text frame =>
      simp only [decode, decodeText] at decoded
      split at decoded
      case isFalse => cases decoded
      case isTrue =>
          split at decoded
          case h_1 => cases decoded
          case h_2 f =>
              split at decoded
              case isTrue =>
                  simp only [Option.map_some, Prod.mk.injEq, Option.some.injEq] at decoded
                  exact message_of_jsonFrameToProto decoded.2.1
              case isFalse => cases decoded
  | close => cases decoded
  | control => cases decoded

/-- An empty payload in an open frame counts as none. -/
theorem carried_of_subscribe {codec codec' : Codec} {methodUrl : Str} {msg : Inbound}
    {sub : Subscribe} {json : Bool}
    (decoded : decode codec methodUrl msg = (codec', some (.subscribe sub, json)))
    (inline : sub.initialPayload ≠ []) : msg.carried = some sub.initialPayload := by
  cases msg with
  | binary frame =>
      simp only [decode, decodeBinary] at decoded
      split at decoded
      case isTrue => cases decoded
      case isFalse =>
          split at decoded
          case h_1 =>
              cases decoded
              rfl
          case h_2 kind notOpen =>
              split at decoded
              case isTrue =>
                  cases decoded
                  exact (notOpen sub rfl).elim
              case isFalse => cases decoded
          case h_3 => cases decoded
  | text frame =>
      simp only [decode, decodeText] at decoded
      split at decoded
      case isFalse => cases decoded
      case isTrue =>
          split at decoded
          case h_1 => cases decoded
          case h_2 f =>
              split at decoded
              case isTrue =>
                  simp only [Option.map_some, Prod.mk.injEq, Option.some.injEq] at decoded
                  exact (jsonFrameToProto_ne f sub decoded.2.1).elim
              case isFalse =>
                  cases decoded
                  cases given : f.message with
                  | none => simp [jsonOpenToSubscribe, given] at inline
                  | some message => simp [Inbound.carried, jsonOpenToSubscribe, given]
  | close => cases decoded
  | control => cases decoded

/-- The request channel of a stream, with what was taken out of it and what the backend
got for it. -/
structure Served (route : Route) (origin : Bytes → Prop) (json : Bool)
    (requests pulled delivered : List Bytes) : Prop where
  mapped : List.Forall₂ (fun payload message => route.toProto json payload = some message)
    pulled delivered
  known : ∀ payload ∈ pulled ++ requests, origin payload

namespace Served
variable {route : Route} {origin : Bytes → Prop} {json : Bool}
  {requests pulled delivered : List Bytes} {payload message : Bytes}

theorem feed (served : Served route origin json requests pulled delivered) (sent : origin payload) :
    Served route origin json (requests ++ [payload]) pulled delivered := by
  refine ⟨served.mapped, fun p inside => ?_⟩
  rw [← List.append_assoc, List.mem_append, List.mem_singleton] at inside
  rcases inside with inside | rfl
  · exact served.known p inside
  · exact sent

theorem pull (served : Served route origin json (payload :: requests) pulled delivered)
    (made : route.toProto json payload = some message) :
    Served route origin json requests (pulled ++ [payload]) (delivered ++ [message]) := by
  refine ⟨List.rel_append served.mapped (.cons made .nil), fun p inside => ?_⟩
  refine served.known p ?_
  rwa [List.append_assoc] at inside

theorem skip (served : Served route origin json (payload :: requests) pulled delivered) :
    Served route origin json requests pulled delivered := by
  refine ⟨served.mapped, fun p inside => served.known p ?_⟩
  rcases List.mem_append.mp inside with taken | waiting
  · exact List.mem_append_left _ taken
  · exact List.mem_append_right _ (List.mem_cons_of_mem _ waiting)

/-- A stream starts with the inline payload, if any, and on a route without a body with
an empty one. -/
theorem spawn {initial : Bytes} {bodyless : Bool} (inline : initial ≠ [] → origin initial)
    (url : bodyless = true → origin []) :
    Served route origin json
      ((if initial = [] then [] else [initial]) ++ (if bodyless then [[]] else [])) [] [] := by
  refine ⟨.nil, fun p inside => ?_⟩
  rw [List.nil_append] at inside
  rcases List.mem_append.mp inside with first | empty
  · split at first
    case isTrue => cases first
    case isFalse given =>
        rw [List.mem_singleton.mp first]
        exact inline given
  · split at empty
    case isTrue lacks =>
        rw [List.mem_singleton.mp empty]
        exact url lacks
    case isFalse => cases empty

end Served

/-- Every stream is served, and the payload the read loop holds came from the peer. -/
structure Honest (route : Route) (origin : Bytes → Prop) (s : Intake) : Prop where
  chans : ∀ c ∈ s.chans, Served route origin c.json c.requests c.pulled c.delivered
  held : ∀ payload ∈ s.held, origin payload

/-- A served stream takes its turn. -/
theorem Served.turn {route : Route} {origin : Bytes → Prop} {held : Option Bytes} {c c' : Chan}
    (served : Served route origin c.json c.requests c.pulled c.delivered)
    (known : ∀ payload ∈ held, origin payload) (turn : Turn route held c c') :
    Served route origin c'.json c'.requests c'.pulled c'.delivered := by
  cases turn with
  | feeds given => exact served.feed (known _ given)
  | pulls live waiting made =>
      rw [waiting] at served
      exact served.pull made
  | breaks waiting =>
      rw [waiting] at served
      exact served.skip
  | halfCloses => exact served
  | aborts keeps => exact served
  | calls => exact served
  | stops => exact served

theorem Honest.moves {route : Route} {origin : Bytes → Prop} {s s' : Intake} {frame : Option Kind}
    (inv : Honest route origin s) (url : route.bodyless = true → origin [])
    (inline : ∀ sub, frame = some (.subscribe sub) → sub.initialPayload ≠ [] →
      origin sub.initialPayload)
    (sent : ∀ payload, frame = some (.message payload) → origin payload)
    (h : Moves route s frame s') : Honest route origin s' := by
  constructor
  · intro c inside
    rcases h.chan inside with (member | ⟨before, member, turn⟩) | ⟨sub, json, opened, rfl⟩
    · exact inv.chans c member
    · exact (inv.chans before member).turn inv.held turn
    · exact .spawn (inline sub opened) url
  · intro payload holds
    rcases h.held holds with same | ⟨given, _⟩
    · exact inv.held payload same
    · exact sent payload given

end GrpcWebnext.Ws
