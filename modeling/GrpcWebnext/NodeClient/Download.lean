import GrpcWebnext.NodeClient.SingleStream
import GrpcWebnext.Ws.CodecLock
import GrpcWebnext.Ws.Outbound

/-! The responses of a stream from a server's writer to the handlers of the TypeScript client,
with the frames between them as bytes. -/
namespace GrpcWebnext.NodeClient.SingleStream
open Framing (Bytes)
open Throwing (CloseEvent statusForClose)
open Ws (Kind Out Stage advance encodeFrame)

/-- A message that a server writes, as the event it is at the client's socket. -/
def seen : Out → Event Bytes
  | .close code reason => .closed ⟨code, Utf8.decodeLossy reason⟩
  | .frame _ kind => .message (encodeFrame kind)
  | .openRefused _ => .message (encodeFrame (.reset Code.invalidArgument (utf8 "stream already open")))

/-- The events that come from the server. -/
def arrived : Event Bytes → Option (Event Bytes)
  | .message data => some (.message data)
  | .closed event => some (.closed event)
  | _ => none

/-- The statuses of the client's own making. -/
def ownStatus : Event Bytes → Option StatusResult
  | .cancel => some cancelled
  | .abort reason => some (statusForAbort reason)
  | .errored => some (statusForClose none)
  | _ => none

section Transcript
variable (js : MetadataForm.LowerCase)

/-- What the handlers are to be told of a message of the server. -/
def toldOf : Out → Option Told
  | .close code reason => some (.status (statusForClose (some ⟨code, Utf8.decodeLossy reason⟩)))
  | .frame _ kind => hearFrame js (.of kind)
  | .openRefused _ => hearFrame js (.of (.reset Code.invalidArgument (utf8 "stream already open")))

/-- And of all that it writes: nothing behind a status. -/
def transcript : List Out → List Told
  | [] => []
  | out :: outs => (toldOf js out).toList ++ if (toldOf js out).any Told.isStatus then [] else transcript outs

end Transcript

section Client
variable {js : MetadataForm.LowerCase} {reader : ProtoWire.Reader} {subscribe : Ts.Subscribe}

/-- The frames of the server are well formed. -/
def Readable (outs : List Out) : Prop := ∀ out ∈ outs, ∀ kind, out.kind = some kind →
    kind.Text ∧ (Ts.Frame.of kind).Fits

theorem hear_encodeFrame (faithful : reader.Faithful) {kind : Kind} (text : kind.Text)
    (fits : (Ts.Frame.of kind).Fits) :
    (protoCodec js reader subscribe).hear (encodeFrame kind) = hearFrame js (.of kind) := by
  have read := ProtoWire.decodeMessage_reads faithful.toLawful (Ts.Frame.reads faithful fits)
  rw [Ts.Frame.of_fields text] at read
  change (Ts.decodeFrame reader (ProtoWire.encodeFields [kind.field])).bind (hearFrame js) = _
  rw [Ts.decodeFrame, read, Option.bind_some]

theorem seen_tells (faithful : reader.Faithful) {out : Out}
    (fits : ∀ kind, out.kind = some kind → kind.Text ∧ (Ts.Frame.of kind).Fits) :
    (seen out).tells (protoCodec js reader subscribe) = toldOf js out := by
  cases out with
  | close code reason => rfl
  | frame json kind => exact hear_encodeFrame faithful (fits kind rfl).1 (fits kind rfl).2
  | openRefused json => exact hear_encodeFrame faithful (fits _ rfl).1 (fits _ rfl).2

/-- An event of the server's, or one that is told nothing but a status of the client's own. -/
theorem arrived_cases (e : Event Bytes) : arrived e = some e ∨
    arrived e = none ∧ e.tells (protoCodec js reader subscribe) = (ownStatus e).map .status := by
  cases e with
  | message data => exact .inl rfl
  | closed event => exact .inl rfl
  | _ => exact .inr ⟨rfl, rfl⟩

/-- The handlers hear the first of what the server wrote, and where the client ends the
stream a status of its own behind that. -/
theorem heard_transcript (faithful : reader.Faithful) (es : List (Event Bytes)) :
    ∀ {outs : List Out}, Readable outs → es.filterMap arrived <+: outs.map seen →
      heard (protoCodec js reader subscribe) es <+: transcript js outs ∨
        ∃ front e status, e ∈ es ∧ ownStatus e = some status ∧ front <+: transcript js outs ∧
          heard (protoCodec js reader subscribe) es = front ++ [.status status] := by
  induction es with
  | nil => exact fun _ _ => .inl List.nil_prefix
  | cons e es ih =>
      intro outs fits part
      rw [heard_cons]
      rcases arrived_cases e with server | ⟨own, tells⟩
      · rw [List.filterMap_cons_some server] at part
        cases outs with
        | nil => cases List.prefix_nil.mp part
        | cons out outs =>
            obtain ⟨rfl, later⟩ := List.cons_prefix_cons.mp part
            obtain ⟨here, rest⟩ := List.forall_mem_cons.mp fits
            rw [Event.ends, seen_tells faithful here, transcript]
            cases (toldOf js out).any Told.isStatus with
            | true => exact .inl List.prefix_rfl
            | false =>
                rw [if_neg Bool.false_ne_true, if_neg Bool.false_ne_true]
                refine (ih rest later).imp (List.prefix_append_right_inj _).mpr ?_
                rintro ⟨front, f, status, inside, ends, first, shape⟩
                refine ⟨_, f, status, List.mem_cons_of_mem _ inside, ends,
                  (List.prefix_append_right_inj _).mpr first, ?_⟩
                rw [shape, List.append_assoc]
      · rw [List.filterMap_cons_none own] at part
        rw [Event.ends, tells]
        cases ends : ownStatus e with
        | some status => exact .inr ⟨[], e, status, List.mem_cons_self, ends, List.nil_prefix, rfl⟩
        | none =>
            refine (ih fits part).imp id ?_
            rintro ⟨front, f, status, inside, rest⟩
            exact ⟨front, f, status, List.mem_cons_of_mem _ inside, rest⟩

/-- They hear all of it where it all arrives and the client leaves the end to the server. -/
theorem heard_whole (faithful : reader.Faithful) (es : List (Event Bytes)) :
    ∀ {outs : List Out}, Readable outs → es.filterMap arrived = outs.map seen →
    (∀ e ∈ es, ownStatus e = none) →
      heard (protoCodec js reader subscribe) es = transcript js outs := by
  induction es with
  | nil =>
      intro outs _ whole _
      cases outs with
      | nil => rfl
      | cons out outs => cases whole
  | cons e es ih =>
      intro outs fits whole waits
      obtain ⟨here, later⟩ := List.forall_mem_cons.mp waits
      rw [heard_cons]
      rcases arrived_cases e with server | ⟨own, tells⟩
      · rw [List.filterMap_cons_some server] at whole
        cases outs with
        | nil => cases whole
        | cons out outs =>
            obtain ⟨rfl, behind⟩ := List.cons.inj whole
            obtain ⟨head, rest⟩ := List.forall_mem_cons.mp fits
            rw [Event.ends, seen_tells faithful head, transcript, ih rest behind later]
      · rw [List.filterMap_cons_none own] at whole
        rw [Event.ends, tells, here]
        exact ih fits whole later

end Client

section Grammar
variable {js : MetadataForm.LowerCase}

/-- Messages, and then a status or nothing. -/
def Answers (told : List Told) : Prop := ∃ (payloads : List Bytes) (last : List Told),
  told = payloads.map .message ++ last ∧ (last = [] ∨ ∃ status, last = [.status status])

/-- Initial metadata, which may be missing, in front of those. -/
def Responds (told : List Told) : Prop := ∃ headers rest, told = headers ++ rest ∧ Answers rest ∧
  (headers = [] ∨ ∃ metadata, headers = [.headers metadata])

theorem Answers.status (status : StatusResult) : Answers [.status status] := ⟨[], _, rfl, .inr ⟨status, rfl⟩⟩

theorem Answers.message {told : List Told} (answers : Answers told) (payload : Bytes) :
    Answers (.message payload :: told) := by
  obtain ⟨payloads, last, rfl, ends⟩ := answers
  exact ⟨payload :: payloads, last, rfl, ends⟩

theorem Answers.responds {told : List Told} (answers : Answers told) : Responds told :=
  ⟨[], told, rfl, answers, .inl rfl⟩

/-- A message that ends the stream ends what is told. -/
theorem transcript_ended {out : Out} {outs : List Out} {status : StatusResult}
    (told : toldOf js out = some (.status status)) :
    transcript js (out :: outs) = [.status status] := by
  rw [transcript, told]
  rfl

theorem transcript_close (code : Nat) (reason : Bytes) (outs : List Out) :
    Answers (transcript js (.close code reason :: outs)) := by
  rw [transcript_ended rfl]
  exact .status _

theorem transcript_refused (json : Bool) (outs : List Out) :
    Answers (transcript js (.openRefused json :: outs)) := by
  rw [transcript_ended rfl]
  exact .status _

/-- What is told of messages that keep the grammar, from each of its stages on. -/
theorem transcript_answers (outs : List Out) : Machine.run advance .opened outs ≠ none →
    Answers (transcript js outs) := by
  induction outs with
  | nil => exact fun _ => ⟨[], [], rfl, .inl rfl⟩
  | cons out outs ih =>
      intro grammatical
      cases out with
      | close code reason => exact transcript_close code reason outs
      | openRefused json => exact transcript_refused json outs
      | frame json kind =>
          cases kind with
          | message payload => exact (ih grammatical).message payload
          | trailer code message trailers | reset code message =>
              rw [transcript_ended rfl]
              exact .status _
          | subscribe sub => exact absurd rfl grammatical
          | halfClose => exact absurd rfl grammatical
          | header headers => exact absurd rfl grammatical

theorem transcript_responds {outs : List Out} (grammatical : Ws.Grammatical outs) :
    Responds (transcript js outs) := by
  cases outs with
  | nil => exact ⟨[], [], rfl, ⟨[], [], rfl, .inl rfl⟩, .inl rfl⟩
  | cons out outs =>
      cases out with
      | close code reason => exact (transcript_close code reason outs).responds
      | openRefused json => exact (transcript_refused json outs).responds
      | frame json kind =>
          cases kind with
          | header headers => exact ⟨_, _, rfl, transcript_answers outs grammatical, .inr ⟨_, rfl⟩⟩
          | message payload => exact ((transcript_answers outs grammatical).message payload).responds
          | trailer code message trailers | reset code message =>
              rw [transcript_ended rfl]
              exact (Answers.status _).responds
          | subscribe sub => exact absurd rfl grammatical
          | halfClose => exact absurd rfl grammatical

end Grammar
section Servers
variable {js : MetadataForm.LowerCase} {reader : ProtoWire.Reader} {subscribe : Ts.Subscribe}

/-- How the handlers of a client that lives through `es` fare with a server that writes `outs`. -/
structure Hears (js : MetadataForm.LowerCase) (es : List (Event Bytes)) (outs : List Out)
    (told : List Told) : Prop where
  /-- Every frame is in the client's codec. -/
  proto : ∀ out ∈ outs, ∀ frame ∈ out.encoded, frame.2 = false
  /-- What the server has to tell is initial metadata once at most, messages, and a status at most. -/
  responds : Responds (transcript js outs)
  /-- The client tells the first of that, and nothing else but a status of its own at its end. -/
  first : told <+: transcript js outs ∨ ∃ front e status, e ∈ es ∧ ownStatus e = some status ∧
    front <+: transcript js outs ∧ told = front ++ [.status status]
  /-- It tells all of that, where all arrives and the client does not end the stream. -/
  whole : es.filterMap arrived = outs.map seen → (∀ e ∈ es, ownStatus e = none) → told = transcript js outs

theorem hears_of_grammatical (faithful : reader.Faithful) {es : List (Event Bytes)} {c : Conn Bytes}
    (ran : Machine.run (step (protoCodec js reader subscribe))
      (Conn.init (protoCodec js reader subscribe)) es = some c)
    {outs : List Out} (speaks : ∀ out ∈ outs, out.Speaks (some false))
    (grammatical : Ws.Grammatical outs) (fits : Readable outs)
    (part : es.filterMap arrived <+: outs.map seen) : Hears js es outs c.told := by
  have told := (held_run ran).1.told
  refine ⟨fun out inside frame encoded => ?_, transcript_responds grammatical, ?_, ?_⟩
  · exact (Option.some.inj (speaks out inside frame encoded).1).symm
  · rw [told]
    exact heard_transcript faithful es fits part
  · intro whole waits
    rw [told]
    exact heard_whole faithful es fits whole waits

/-- Responses on the main path from end to end, for every interleaving of the server's side, on
which its parties do not get into each other's way, and of the client's. -/
theorem responses_in_order (faithful : reader.Faithful) {es : List (Event Bytes)} {c : Conn Bytes}
    (ran : Machine.run (step (protoCodec js reader subscribe))
      (Conn.init (protoCodec js reader subscribe)) es = some c) :
    (∀ (srv : Ws.RustServer.Config) (events : List Ws.RustServer.Event) (s : Ws.RustServer.Conn),
      Machine.Along (Ws.RustServer.step srv) (fun s e => Ws.RustServer.clashes srv s e = false)
        (.init (some false)) events →
      Machine.run (Ws.RustServer.step srv) (.init (some false)) events = some s → Readable s.written →
      es.filterMap arrived <+: s.written.map seen → Hears js es s.written c.told) ∧
    (∀ (srv : Ws.GoServer.Config) (events : List Ws.GoServer.Event) (s : Ws.GoServer.Conn),
      Machine.Along (Ws.GoServer.step srv) (fun s e => Ws.GoServer.clashes srv s e = false)
        (.init (some false)) events →
      Machine.run (Ws.GoServer.step srv) (.init (some false)) events = some s → Readable s.written →
      es.filterMap arrived <+: s.written.map seen → Hears js es s.written c.told) := by
  constructor
  · intro srv events s clear served fits part
    have locked : s.codec.json = some false :=
      (Ws.RustServer.server srv).run_locked (s := .init (some false)) rfl served
    have spoken : s.voices.Spoken s.codec.json := (Ws.RustServer.server srv).run_spoken served
    rw [locked] at spoken
    exact hears_of_grammatical faithful ran spoken.written
      (Ws.RustServer.run_ordered clear served).wire.grammatical fits part
  · intro srv events s clear served fits part
    have locked : s.codec.json = some false :=
      (Ws.GoServer.server srv).run_locked (s := .init (some false)) rfl served
    have spoken : s.voices.Spoken s.codec.json := (Ws.GoServer.server srv).run_spoken served
    rw [locked] at spoken
    exact hears_of_grammatical faithful ran spoken.written
      (Ws.GoServer.run_ordered clear served).wire.grammatical fits part

end Servers
/-- A response with one message and the status OK, as either server writes it. -/
def answered : List Out :=
  [.frame false (.header []), .frame false (.message [9]), .frame false (.trailer 0 [] []), .close 1000 []]

def okTrailers : HeaderMap := [("grpc-status".toList, utf8 "0")]

def rustAnswers : List Ws.RustServer.Event :=
  [.receive Ws.openFrame, .wake 0, .run 0 .call, .run 0 (.answered (.ok [])), .run 0 .send, .write,
    .run 0 (.data [0, 0, 0, 0, 1, 9]), .run 0 .send, .write, .run 0 (.trailers okTrailers), .run 0 .bodyEnd,
    .run 0 .send, .write, .run 0 .send, .write]

def goAnswers : List Ws.GoServer.Event :=
  [.receive Ws.openFrame, .run 0 (.checked none), .run 0 .dispatch, .run 0 (.answered []),
    .run 0 (.send true), .write,
    .run 0 (.data [0, 0, 0, 0, 1, 9]), .run 0 (.send true), .write, .run 0 (.bodyEnd okTrailers),
      .run 0 .gate,
    .run 0 (.send true), .write, .run 0 (.send true), .write]

theorem answered_readable : Readable answered := by
  intro out inside kind carried
  simp only [answered, List.mem_cons, List.not_mem_nil, or_false] at inside
  rcases inside with rfl | rfl | rfl | rfl
  · cases carried
    refine ⟨nofun, nofun, nofun, nofun, ?_, by decide⟩
    rintro _ ⟨⟩
    exact nofun
  · cases carried
    exact ⟨trivial, nofun, nofun, nofun, nofun, by decide⟩
  · cases carried
    refine ⟨⟨by decide, nofun⟩, nofun, ?_, nofun, nofun, by decide⟩
    rintro _ ⟨⟩
    exact ⟨by decide, by decide, nofun⟩
  · cases carried

/-- A client that receives all of it. -/
def receiving : List (Event Bytes) := .opened :: answered.map seen

theorem responses_in_order_ok : ∃ c, Machine.run (step bareCodec) (Conn.init bareCodec) receiving = some c ∧
    (∃ s, Machine.run (Ws.RustServer.step Ws.smallRust) (.init (some false)) rustAnswers = some s ∧
      c.told = transcript MetadataForm.asciiLower s.written) ∧
    (∃ s, Machine.run (Ws.GoServer.step Ws.smallGo) (.init (some false)) goAnswers = some s ∧
      c.told = transcript MetadataForm.asciiLower s.written) := by
  obtain ⟨c, ran⟩ : ∃ c, Machine.run (step bareCodec) (Conn.init bareCodec) receiving = some c := ⟨_, rfl⟩
  have both := responses_in_order ProtoWire.standard_faithful ran
  have waits : ∀ e ∈ receiving, ownStatus e = none := by
    simp [receiving, answered, seen, ownStatus]
  refine ⟨c, ran, ?_, ?_⟩
  · obtain ⟨s, served, written⟩ := Option.map_eq_some_iff.mp
      (show (Machine.run (Ws.RustServer.step Ws.smallRust) (.init (some false)) rustAnswers).map
        (·.written) = some answered by
        decide)
    have hears := both.1 Ws.smallRust rustAnswers s (by decide) served
      (by rw [written]; exact answered_readable)
      (by rw [written]; exact List.prefix_rfl)
    exact ⟨s, served, hears.whole (by rw [written]; rfl) waits⟩
  · obtain ⟨s, served, written⟩ := Option.map_eq_some_iff.mp
      (show (Machine.run (Ws.GoServer.step Ws.smallGo) (.init (some false)) goAnswers).map
        (·.written) = some answered by
        decide)
    have hears := both.2 Ws.smallGo goAnswers s (by decide) served (by rw [written]; exact answered_readable)
      (by rw [written]; exact List.prefix_rfl)
    exact ⟨s, served, hears.whole (by rw [written]; rfl) waits⟩

end GrpcWebnext.NodeClient.SingleStream
