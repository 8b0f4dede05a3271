import GrpcWebnext.Ws.Route

/-! The codec of a connection on the frames that come in and on those that go out. -/
namespace GrpcWebnext.Ws
open Framing (Bytes)
open Text (Str)

/-- The type of a data message: text (`true`) or binary. -/
def Inbound.type : Inbound → Option Bool
  | .binary _ => some false
  | .text _ => some true
  | _ => none

theorem decode_json (codec : Codec) (methodUrl : Str) (msg : Inbound) :
    (decode codec methodUrl msg).1.json = codec.json.or msg.type := by
  obtain ⟨json, opened⟩ := codec
  cases msg with
  | binary frame => rcases json with _ | _ | _ <;> rfl
  | text frame => rcases json with _ | _ | _ <;> rfl
  | close => cases json <;> rfl
  | control => cases json <;> rfl

/-- A frame that is handled is of the type the codec is locked to. -/
theorem decode_locked {codec codec' : Codec} {methodUrl : Str} {msg : Inbound} {kind : Kind}
    {json : Bool} (decoded : decode codec methodUrl msg = (codec', some (kind, json))) :
    codec'.json = some json := by
  cases msg with
  | binary frame =>
      simp only [decode] at decoded
      split at decoded
      · cases decoded
      · obtain ⟨rfl, handled⟩ := Prod.mk.inj decoded
        obtain ⟨_, _, same⟩ := Option.map_eq_some_iff.mp handled
        cases same
        rfl
  | text frame =>
      simp only [decode] at decoded
      split at decoded
      · obtain ⟨rfl, handled⟩ := Prod.mk.inj decoded
        obtain ⟨_, _, same⟩ := Option.map_eq_some_iff.mp handled
        cases same
        rfl
      · cases decoded
  | close => cases decoded
  | control => cases decoded

/-- A message of the other type is dropped where it stands. -/
theorem decode_other {codec : Codec} {methodUrl : Str} {msg : Inbound} {json : Bool}
    (locked : codec.json = some json) (other : msg.type = some (!json)) :
    decode codec methodUrl msg = (codec, none) := by
  cases msg with
  | binary frame =>
      cases json with
      | true => simp [decode, locked]
      | false => cases other
  | text frame =>
      cases json with
      | true => cases other
      | false => simp [decode, locked]
  | close => cases other
  | control => cases other

/-- The codec behind a step that takes the message, if any, and the frame it brings. -/
def Codec.next (codec : Codec) (methodUrl : Str) : Option Inbound → Codec × Option (Kind × Bool)
  | some msg => decode codec methodUrl msg
  | none => (codec, none)

/-- The frame the read loop handles in the step. -/
def Codec.handles (codec : Codec) (methodUrl : Str) (msg : Option Inbound) : Option Kind :=
  (codec.next methodUrl msg).2.map Prod.fst

@[simp] theorem handles_none (codec : Codec) (methodUrl : Str) : codec.handles methodUrl none = none := rfl

theorem handles_some {codec : Codec} {methodUrl : Str} {received : Option Inbound} {kind : Kind}
    (handled : codec.handles methodUrl received = some kind) :
    ∃ msg codec' json, received = some msg ∧
      decode codec methodUrl msg = (codec', some (kind, json)) := by
  cases received with
  | none => cases handled
  | some msg =>
      obtain ⟨frame, decoded, rfl⟩ := Option.map_eq_some_iff.mp handled
      exact ⟨msg, _, frame.2, rfl, Prod.ext rfl decoded⟩

/-- The types of the data messages among those taken. -/
def typesOf (received : Option Inbound) : List Bool := (received.bind Inbound.type).toList

theorem next_json (codec : Codec) (methodUrl : Str) (received : Option Inbound) :
    (codec.next methodUrl received).1.json = codec.json.or (typesOf received).head? := by
  cases received with
  | none => exact Option.or_none.symm
  | some msg =>
      rw [Codec.next, decode_json, typesOf, Option.bind_some]
      cases msg.type <;> rfl

/-- The kinds `proto_frame_to_json` has a JSON form for. The others only clients send. -/
def Kind.hasJson : Kind → Bool
  | .message _ => true
  | .header _ => true
  | .trailer _ _ _ => true
  | .reset _ _ => true
  | .subscribe _ => false
  | .halfClose => false

/-- The type of message `to_tung` makes of a frame. A frame without a JSON form is sent
as a binary message on any connection. -/
def RustServer.toTung (kind : Kind) (json : Bool) : Bool := json && kind.hasJson

/-- The type of message `encodeOutbound` makes of a frame, `none` where it makes none. -/
def GoServer.encodeOutbound (marshals : Kind → Bool) (kind : Kind) (json : Bool) : Option Bool :=
  if json then (if kind.hasJson then some true else none)
  else if marshals kind then some false
  else none

/-- The frame of a queued message, with the codec it is encoded in. A Close is none. -/
def Out.encoded : Out → Option (Kind × Bool)
  | .frame json kind => some (kind, json)
  | .openRefused json => some (.reset Code.invalidArgument (utf8 "stream already open"), json)
  | .close _ _ => none

/-- A message a connection locked to the codec may queue. -/
def Out.Speaks (codec : Option Bool) (out : Out) : Prop :=
  ∀ frame ∈ out.encoded, codec = some frame.2 ∧ frame.1.hasJson = true

section Speaks
variable {codec : Option Bool} {json : Bool}

theorem speaks_close (code : Nat) (reason : Bytes) : Out.Speaks codec (.close code reason) := by
  intro frame found
  cases found

theorem speaks_refused (locked : codec = some json) : Out.Speaks codec (.openRefused json) := by
  intro frame found
  cases found
  exact ⟨locked, rfl⟩

theorem speaks_frame {kind : Kind} (locked : codec = some json) (form : kind.hasJson = true) :
    Out.Speaks codec (.frame json kind) := by
  intro frame found
  cases found
  exact ⟨locked, form⟩

/-- Locking an open codec changes nothing for what is queued. -/
theorem Out.Speaks.lock {out : Out} (speaks : out.Speaks codec) (type : Option Bool) :
    out.Speaks (codec.or type) := by
  intro frame found
  obtain ⟨locked, form⟩ := speaks frame found
  exact ⟨by rw [locked]; rfl, form⟩

/-- A rejection or the end of a stream: a terminal frame and the close. -/
theorem speaks_ending {kind : Kind} (locked : codec = some json) (form : kind.hasJson = true) :
    ∀ out ∈ [Out.frame json kind, closeNormal], out.Speaks codec := by
  intro out inside
  rcases List.mem_pair.mp inside with rfl | rfl
  · exact speaks_frame locked form
  · exact speaks_close _ _

theorem speaks_encodeAll (route : Route) (locked : codec = some json) (messages : List Bytes) :
    ∀ out ∈ (route.encodeAll json messages).1, out.Speaks codec := by
  induction messages with
  | nil =>
      intro out inside
      cases inside
  | cons message rest ih =>
      intro out inside
      simp only [Route.encodeAll] at inside
      split at inside
      · rcases List.mem_cons.mp inside with rfl | later
        · exact speaks_frame locked rfl
        · exact ih out later
      · cases inside

end Speaks

/-- What one stream has still to say, and the codec it was opened with. -/
structure Voice where
  json : Bool
  outs : List Out

/-- The messages of a connection: those written, those queued, those its read loop is
sending, and those of its streams. -/
structure Voices where
  written : List Out
  queue : List Out
  reader : List Out
  streams : List Voice

/-- The stream speaks the codec of its connection. -/
structure Voice.Spoken (codec : Option Bool) (voice : Voice) : Prop where
  json : codec = some voice.json
  outs : ∀ out ∈ voice.outs, out.Speaks codec

/-- Whatever a connection has written, queued or pending is in its codec. -/
structure Voices.Spoken (codec : Option Bool) (v : Voices) : Prop where
  written : ∀ out ∈ v.written, out.Speaks codec
  queue : ∀ out ∈ v.queue, out.Speaks codec
  reader : ∀ out ∈ v.reader, out.Speaks codec
  streams : ∀ voice ∈ v.streams, voice.Spoken codec

namespace Voices.Spoken
variable {codec : Option Bool} {v : Voices}

theorem silent : Spoken codec ⟨[], [], [], []⟩ := by
  constructor <;> exact fun _ inside => by cases inside

theorem lock (inv : v.Spoken codec) (type : Option Bool) : v.Spoken (codec.or type) := by
  refine ⟨fun out inside => (inv.written out inside).lock type,
    fun out inside => (inv.queue out inside).lock type,
    fun out inside => (inv.reader out inside).lock type, fun voice inside => ⟨?_, ?_⟩⟩
  · rw [(inv.streams voice inside).json]
    rfl
  · exact fun out within => ((inv.streams voice inside).outs out within).lock type

theorem read {outs : List Out} (inv : v.Spoken codec) (voiced : ∀ out ∈ outs, out.Speaks codec) :
    Spoken codec { v with reader := outs } := ⟨inv.written, inv.queue, voiced, inv.streams⟩

theorem hush (inv : v.Spoken codec) : Spoken codec { v with reader := [] } :=
  inv.read fun _ inside => by cases inside

theorem push {out : Out} (inv : v.Spoken codec) (speaks : out.Speaks codec) :
    ∀ o ∈ v.queue ++ [out], o.Speaks codec := by
  intro o inside
  rcases List.mem_append.mp inside with old | new
  · exact inv.queue o old
  · rw [List.mem_singleton.mp new]
    exact speaks

theorem queued {queue : List Out} (inv : v.Spoken codec) (voiced : ∀ out ∈ queue, out.Speaks codec) :
    Spoken codec { v with queue := queue } := ⟨inv.written, voiced, inv.reader, inv.streams⟩

/-- A stream that is opened has nothing to say yet. -/
theorem opened {json : Bool} (inv : v.Spoken codec) (locked : codec = some json) :
    Spoken codec { v with streams := v.streams ++ [⟨json, []⟩] } := by
  refine ⟨inv.written, inv.queue, inv.reader, fun voice inside => ?_⟩
  rcases List.mem_append.mp inside with member | new
  · exact inv.streams voice member
  · rw [List.mem_singleton.mp new]
    exact ⟨locked, fun _ inside => by cases inside⟩

theorem set {i : Nat} {voice : Voice} (inv : v.Spoken codec) (spoken : voice.Spoken codec) :
    Spoken codec { v with streams := v.streams.set i voice } := by
  refine ⟨inv.written, inv.queue, inv.reader, fun other inside => ?_⟩
  rcases List.mem_or_eq_of_mem_set inside with member | rfl
  · exact inv.streams other member
  · exact spoken

theorem write {out : Out} {rest : List Out} (inv : v.Spoken codec) (waiting : v.queue = out :: rest) :
    Spoken codec { v with queue := rest, written := v.written ++ [out] } := by
  obtain ⟨speaks, others⟩ := List.forall_mem_cons.mp (waiting ▸ inv.queue)
  refine ⟨fun o inside => ?_, others, inv.reader, inv.streams⟩
  rcases List.mem_append.mp inside with old | new
  · exact inv.written o old
  · rw [List.mem_singleton.mp new]
    exact speaks

/-- Behind a message the codec is the one of the frame it brings, if it brings one. -/
theorem decoded {codec codec' : Codec} {methodUrl : Str} {msg : Inbound} {frame : Option (Kind × Bool)}
    (inv : v.Spoken codec.json) (h : decode codec methodUrl msg = (codec', frame)) :
    v.Spoken codec'.json ∧ ∀ kind json, frame = some (kind, json) → codec'.json = some json := by
  have locked := decode_json codec methodUrl msg
  rw [h] at locked
  refine ⟨locked ▸ inv.lock msg.type, ?_⟩
  rintro kind json rfl
  exact decode_locked h

end Voices.Spoken

end GrpcWebnext.Ws
