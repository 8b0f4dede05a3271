import GrpcWebnext.Library.Machine
import GrpcWebnext.Ws.Codec
import GrpcWebnext.Ws.Intake

/-! What the machines of the two servers have in common. A step takes at most one message
of the peer; the codec is what `decode` makes of it, the request side makes one move on
the frame it brings, and what there is to say is said in the codec. -/
namespace GrpcWebnext.Ws

structure Server (route : Route) (Conn Event : Type) where
  init : Option Bool → Conn
  step : Conn → Event → Option Conn
  /-- The message of the peer that an event takes. -/
  received : Event → Option Inbound
  codec : Conn → Codec
  intake : Conn → Intake
  voices : Conn → Voices
  init_codec : ∀ json, codec (init json) = ⟨json, false⟩
  init_intake : ∀ json, intake (init json) = ⟨none, none, false, true, []⟩
  init_voices : ∀ json, voices (init json) = ⟨[], [], [], []⟩
  step_codec : ∀ {s s' : Conn} {e : Event}, step s e = some s' →
    codec s' = ((codec s).next route.methodUrl (received e)).1
  step_moves : ∀ {s s' : Conn} {e : Event}, step s e = some s' →
    Moves route (intake s) ((codec s).handles route.methodUrl (received e)) (intake s')
  /-- A stream that is new was opened in the codec of the message that opened it. -/
  step_opens : ∀ {s s' : Conn} {e : Event}, step s e = some s' →
    (intake s').chans.length ≠ (intake s).chans.length →
    ∃ msg codec' sub json, received e = some msg ∧
      decode (codec s) route.methodUrl msg = (codec', some (.subscribe sub, json)) ∧
      (intake s).Ready ∧ intake s' = { intake s with
        slot := some (intake s).chans.length
        chans := (intake s).chans ++ [.spawn route sub json] }
  step_spoken : ∀ {s s' : Conn} {e : Event}, step s e = some s' →
    (voices s).Spoken (codec s).json → (voices s').Spoken (codec s').json
  /-- A data message that is not decoded leaves the connection as it is. -/
  step_dropped : ∀ {s s' : Conn} {e : Event} {msg : Inbound}, step s e = some s' →
    received e = some msg → msg ≠ .close → decode (codec s) route.methodUrl msg = (codec s, none) →
    s' = s

namespace Server
variable {route : Route} {Conn Event : Type} (m : Server route Conn Event)
variable {s s' : Conn} {e : Event} {es : List Event}

theorem step_json (h : m.step s e = some s') :
    (m.codec s').json = (m.codec s).json.or (typesOf (m.received e)).head? := by
  rw [m.step_codec h, next_json]

/-- The codec behind a run: where it was, or the type of the first data message. -/
theorem run_json (h : Machine.run m.step s es = some s') :
    (m.codec s').json =
      (m.codec s).json.or (es.flatMap fun e => typesOf (m.received e)).head? := by
  refine Machine.run_invariant_trace (I := fun l s' => (m.codec s').json = (m.codec s).json.or l.head?)
    (l := []) ?_ Option.or_none.symm h
  intro l before e after inv h
  rw [m.step_json h, inv, Option.or_assoc, List.head?_append]

/-- Once the codec is locked it stays. -/
theorem run_locked {json : Bool} (locked : (m.codec s).json = some json)
    (h : Machine.run m.step s es = some s') : (m.codec s').json = some json := by
  rw [m.run_json h, locked]
  rfl

/-- Every message a connection has written, queued or pending is in the codec its read
loop is locked to. -/
theorem run_spoken {json : Option Bool} (h : Machine.run m.step (m.init json) es = some s) :
    (m.voices s).Spoken (m.codec s).json := by
  refine Machine.run_invariant (I := fun s => (m.voices s).Spoken (m.codec s).json) ?_ ?_ h
  · exact fun _ _ _ inv h => m.step_spoken h inv
  · rw [m.init_voices]
    exact .silent

/-- A message of the other type leaves the connection as it is. -/
theorem step_other {msg : Inbound} {json : Bool} (locked : (m.codec s).json = some json)
    (received : m.received e = some msg) (other : msg.type = some (!json))
    (h : m.step s e = some s') : s' = s := by
  refine m.step_dropped h received ?_ (decode_other locked other)
  rintro rfl
  cases other

/-- What every move of the request side keeps holds of it behind every run. -/
theorem run_moves {I : Intake → Prop} {json : Option Bool}
    (keeps : ∀ s s' frame, I s → Moves route s frame s' → I s')
    (start : I ⟨none, none, false, true, []⟩)
    (h : Machine.run m.step (m.init json) es = some s) : I (m.intake s) := by
  refine Machine.run_invariant (I := fun s => I (m.intake s)) ?_ ?_ h
  · exact fun _ _ _ inv h => keeps _ _ _ inv (m.step_moves h)
  · rwa [m.init_intake]

end Server

end GrpcWebnext.Ws
