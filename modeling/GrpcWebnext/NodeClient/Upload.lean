import GrpcWebnext.NodeClient.SingleStream
import GrpcWebnext.Ws.Delivery

/-! The requests of a stream from the caller of the TypeScript client to the backend: the
client's connection and a server's, with the frames between them as bytes. -/
namespace GrpcWebnext.NodeClient.SingleStream
open Framing (Bytes)
open Text (Str)
open Ws (Kind Subscribe Inbound encodeFrame collect closes requested)

/-- What a server makes of the bytes of a frame: every frame that is well formed and of one
kind is read as that. -/
def DecodesFrames (decode : Bytes → Option (Option Kind)) : Prop :=
  ∀ kind : Kind, kind.Text → (Ts.Frame.of kind).Fits → decode (encodeFrame kind) = some (some kind)

def resetKind (status : StatusResult) : Kind := .reset status.code.toNat (Utf8.encode status.details)

/-- What the client sends for an act of its caller. -/
def asked : Event Bytes → Option Kind
  | .send payload => some (.message payload)
  | .halfClose => some .halfClose
  | .cancel => some (resetKind cancelled)
  | .abort reason => some (resetKind (statusForAbort reason))
  | _ => none

/-- An act behind which the caller's messages are no requests. -/
def shuts : Event Bytes → Bool
  | .halfClose | .cancel | .abort _ => true
  | _ => false

def payload? : Event Bytes → Option Bytes
  | .send payload => some payload
  | _ => none

/-- The messages among the events of a stream. -/
def sends (events : List (Event Bytes)) : List Bytes :=
  (events.takeWhile fun e => !shuts e).filterMap payload?

section Client
variable {js : MetadataForm.LowerCase} {reader : ProtoWire.Reader} {call : Subscribe}

/-- The codec of a call that opens with `call`. -/
def callCodec (js : MetadataForm.LowerCase) (reader : ProtoWire.Reader) (call : Subscribe) :
    Codec Bytes Bytes :=
  protoCodec js reader ⟨call.method, call.headers.map .of, call.timeoutMillis, call.initialPayload⟩

theorem encodeFrame_of {kind : Kind} (text : kind.Text) :
    Ts.encodeFrame (Ts.Frame.of kind) = encodeFrame kind :=
  congrArg ProtoWire.encodeFields (Ts.Frame.of_fields text)

theorem resetKind_text (status : StatusResult) : (resetKind status).Text := by
  change Utf8.valid (Utf8.encode status.details) = true
  rw [Utf8.valid, Utf8.decodeLossy_encode, decide_eq_true_eq]

theorem reset_frame (status : StatusResult) :
    (callCodec js reader call).reset status = encodeFrame (resetKind status) := by
  rw [← encodeFrame_of (resetKind_text status), resetKind, Ts.Frame.of, Utf8.decodeLossy_encode]
  rfl

theorem asked_frame (e : Event Bytes) : e.frame (callCodec js reader call) = (asked e).map encodeFrame := by
  cases e with
  | send payload => exact congrArg some (@encodeFrame_of (.message payload) trivial)
  | halfClose => exact congrArg some (@encodeFrame_of .halfClose trivial)
  | cancel => exact congrArg some (reset_frame cancelled)
  | abort reason => exact congrArg some (reset_frame (statusForAbort reason))
  | _ => rfl

/-- The frames behind the open frame, as kinds. -/
def askedFor (codec : Codec Bytes Bytes) (es : List (Event Bytes)) : List Kind :=
  (life codec es).filterMap asked

theorem issued_asked (es : List (Event Bytes)) :
    issued (callCodec js reader call) es = (askedFor (callCodec js reader call) es).map encodeFrame := by
  rw [issued, askedFor, List.map_filterMap]
  exact List.filterMap_congr fun e _ => asked_frame e

theorem sends_cons (e : Event Bytes) (events : List (Event Bytes)) :
    sends (e :: events) = if shuts e then [] else (payload? e).toList ++ sends events := by
  rw [sends, List.takeWhile_cons]
  cases shuts e with
  | true => rfl
  | false =>
      rw [Bool.not_false, if_pos rfl, List.filterMap_cons, sends]
      cases payload? e <;> rfl

theorem asked_cons (e : Event Bytes) (events : List (Event Bytes)) :
    (e :: events).filterMap asked = (asked e).toList ++ events.filterMap asked := by
  rw [List.filterMap_cons]
  cases asked e <;> rfl

/-- A frame of the client closes the stream, carries a request, or is not there. -/
theorem collect_step (limit : Nat) (e : Event Bytes) (kinds : List Kind) :
    collect limit ((asked e).toList ++ kinds) =
      if (asked e).any (closes limit) then [] else (payload? e).toList ++ collect limit kinds := by
  cases e with
  | send payload =>
      change collect limit (.message payload :: kinds) = _
      rw [collect]
      rfl
  | _ => rfl

theorem closes_of_shuts (limit : Nat) {e : Event Bytes} (shut : shuts e = true) :
    (asked e).any (closes limit) = true := by
  cases e with
  | halfClose | cancel | abort reason => rfl
  | _ => cases shut

theorem prefix_asked_cons {e : Event Bytes} {events : List (Event Bytes)} {kinds : List Kind}
    (part : kinds <+: (e :: events).filterMap asked) :
    kinds = [] ∨ ∃ later, kinds = (asked e).toList ++ later ∧ later <+: events.filterMap asked := by
  rw [asked_cons] at part
  cases kind : asked e with
  | none =>
      rw [kind] at part
      exact .inr ⟨kinds, rfl, part⟩
  | some k =>
      rw [kind] at part
      cases kinds with
      | nil => exact .inl rfl
      | cons first later =>
          obtain ⟨rfl, behind⟩ := List.cons_prefix_cons.mp part
          exact .inr ⟨later, rfl, behind⟩

/-- The requests among the first of the frames are the first of the messages. -/
theorem collect_asked (limit : Nat) (events : List (Event Bytes)) :
    ∀ {kinds : List Kind}, kinds <+: events.filterMap asked → collect limit kinds <+: sends events := by
  induction events with
  | nil =>
      intro kinds part
      rw [List.prefix_nil.mp part]
      exact List.nil_prefix
  | cons e events ih =>
      intro kinds part
      rcases prefix_asked_cons part with rfl | ⟨later, rfl, behind⟩
      · exact List.nil_prefix
      · rw [collect_step, sends_cons]
        cases shut : shuts e with
        | true =>
            rw [if_pos (closes_of_shuts limit shut)]
            exact List.nil_prefix
        | false =>
            split
            · exact List.nil_prefix
            · exact (List.prefix_append_right_inj _).mpr (ih behind)

/-- A frame by which the client has no more requests. -/
def stops : Kind → Bool
  | .halfClose | .reset _ _ => true
  | _ => false

/-- And all of them, where none is too long and the frame that stops them has come. -/
theorem collect_stopped {limit : Nat} (events : List (Event Bytes)) :
    ∀ {kinds : List Kind}, kinds <+: events.filterMap asked → (∃ kind ∈ kinds, stops kind = true) →
      (∀ payload ∈ sends events, payload.length ≤ limit) → collect limit kinds = sends events := by
  induction events with
  | nil =>
      rintro kinds part ⟨kind, inside, _⟩ _
      rw [List.prefix_nil.mp part] at inside
      cases inside
  | cons e events ih =>
      intro kinds part stopped small
      rcases prefix_asked_cons part with rfl | ⟨later, rfl, behind⟩
      · obtain ⟨kind, inside, _⟩ := stopped
        cases inside
      · rw [collect_step]
        rw [sends_cons] at small ⊢
        cases shut : shuts e with
        | true => rw [if_pos (closes_of_shuts limit shut), if_pos rfl]
        | false =>
            rw [shut, if_neg Bool.false_ne_true] at small
            have going : (asked e).any (closes limit) = false ∧ (asked e).any stops = false := by
              cases e with
              | send payload =>
                  have fits := small payload (List.mem_append_left _ (List.mem_singleton.mpr rfl))
                  exact ⟨decide_eq_false (Nat.not_lt.mpr fits), rfl⟩
              | halfClose | cancel | abort reason => cases shut
              | _ => exact ⟨rfl, rfl⟩
            have waits : ∃ kind ∈ later, stops kind = true := by
              obtain ⟨kind, inside, stop⟩ := stopped
              rcases List.mem_append.mp inside with here | later
              · have none_ := going.2
                rw [Option.mem_toList.mp here, Option.any_some, stop] at none_
                cases none_
              · exact ⟨kind, later, stop⟩
            rw [going.1, if_neg Bool.false_ne_true, if_neg Bool.false_ne_true,
              ih behind waits fun payload inside => small payload (List.mem_append_right _ inside)]

/-- The frames of a stream that stay within what every reader takes. -/
def Encodable (call : Subscribe) (codec : Codec Bytes Bytes) (es : List (Event Bytes)) : Prop :=
  ∀ kind ∈ .subscribe call :: askedFor codec es, kind.Text ∧ (Ts.Frame.of kind).Fits

/-- What the messages that reach a server are: the first of those that the socket took. -/
def Arrives (decode : Bytes → Option (Option Kind)) (wire : List Bytes) (arrivals : List Inbound) : Prop :=
  arrivals <+: wire.map fun bytes => .binary (decode bytes)

/-- A server reads the frames of a stream as what they were written for. -/
theorem issued_read {decode : Bytes → Option (Option Kind)} (decodes : DecodesFrames decode)
    {es : List (Event Bytes)}
    (fits : Encodable call (callCodec js reader call) es) :
    (((callCodec js reader call).opening :: issued (callCodec js reader call) es).map
      fun bytes => Inbound.binary (decode bytes)) =
      (.subscribe call :: askedFor (callCodec js reader call) es).map fun kind =>
        .binary (some (some kind)) := by
  have opening : (callCodec js reader call).opening = encodeFrame (.subscribe call) :=
    encodeFrame_of (fits _ List.mem_cons_self).1
  rw [issued_asked, opening, ← List.map_cons, List.map_map]
  refine List.map_congr_left fun kind inside => ?_
  obtain ⟨text, small⟩ := fits kind inside
  rw [Function.comp_apply, decodes kind text small]

/-- The frames that arrive are the open frame and what was asked for, in order. -/
theorem arrivals_kinds {decode : Bytes → Option (Option Kind)} (decodes : DecodesFrames decode)
    {es : List (Event Bytes)} {c : Conn Bytes}
    (ran : Machine.run (step (callCodec js reader call)) (Conn.init (callCodec js reader call)) es = some c)
    (fits : Encodable call (callCodec js reader call) es) {first : Inbound} {later : List Inbound}
    (arrives : Arrives decode c.wire (first :: later)) :
    first = .binary (some (some (.subscribe call))) ∧
      ∃ kinds, kinds <+: askedFor (callCodec js reader call) es ∧
        later = kinds.map fun kind => .binary (some (some kind)) := by
  have part := (held_run ran).1.part.map fun bytes => Inbound.binary (decode bytes)
  rw [issued_read decodes fits] at part
  obtain ⟨rfl, behind⟩ := List.cons_prefix_cons.mp (arrives.trans part)
  refine ⟨rfl, _, List.take_prefix later.length _, ?_⟩
  rw [List.map_take]
  exact List.prefix_iff_eq_take.mp behind

end Client

/-- The messages with data among those that arrive. -/
def isData : Inbound → Bool
  | .binary _ | .text _ => true
  | .close | .control => false

theorem frames_data (methodUrl : Str) (msgs : List Inbound) :
    msgs.flatMap (fun msg => (msg.frame methodUrl).toList) =
      (msgs.filter isData).flatMap fun msg => (msg.frame methodUrl).toList := by
  induction msgs with
  | nil => rfl
  | cons msg msgs ih =>
      rw [List.flatMap_cons, ih, List.filter_cons]
      cases msg <;> rfl

/-- What is asked for never opens a stream again. -/
theorem asked_frame_alone {kinds : List Kind} {events : List (Event Bytes)}
    (part : kinds <+: events.filterMap asked) (methodUrl : Str) :
    ∀ kind ∈ kinds, Inbound.frame methodUrl (.binary (some (some kind))) = some kind := by
  intro kind inside
  obtain ⟨e, _, found⟩ := List.mem_filterMap.mp (part.subset inside)
  cases e <;> cases found <;> rfl

theorem asked_plain {kinds : List Kind} {events : List (Event Bytes)}
    (part : kinds <+: events.filterMap asked) :
    ∀ kind ∈ kinds, ∀ sub, kind ≠ .subscribe sub := by
  intro kind inside sub
  obtain ⟨e, _, found⟩ := List.mem_filterMap.mp (part.subset inside)
  cases e <;> cases found <;> exact Kind.noConfusion

theorem kinds_of_arrivals {kinds : List Kind} {methodUrl : Str}
    (same : ∀ kind ∈ kinds, Inbound.frame methodUrl (.binary (some (some kind))) = some kind) :
    (kinds.map fun kind => Inbound.binary (some (some kind))).flatMap
      (fun msg => (msg.frame methodUrl).toList) = kinds := by
  induction kinds with
  | nil => rfl
  | cons kind kinds ih =>
      obtain ⟨here, later⟩ := List.forall_mem_cons.mp same
      rw [List.map_cons, List.flatMap_cons, here, ih later]
      rfl

/-- The requests of a call: a message inline in its open frame, and those its caller sends
before it closes its side or ends the stream. -/
def uploads (call : Subscribe) (codec : Codec Bytes Bytes) (es : List (Event Bytes)) : List Bytes :=
  (if call.initialPayload = [] then [] else [call.initialPayload]) ++ sends (life codec es)

theorem requested_asked {call : Subscribe} {codec : Codec Bytes Bytes} {es : List (Event Bytes)}
    (limit : Nat) {kinds : List Kind}
    (part : kinds <+: askedFor codec es) : requested limit call kinds <+: uploads call codec es :=
  (List.prefix_append_right_inj _).mpr (collect_asked limit (life codec es) part)

theorem requested_stopped {call : Subscribe} {codec : Codec Bytes Bytes} {es : List (Event Bytes)}
    {limit : Nat} {kinds : List Kind}
    (part : kinds <+: askedFor codec es) (stopped : Kind.halfClose ∈ kinds)
    (small : ∀ payload ∈ sends (life codec es), payload.length ≤ limit) :
    requested limit call kinds = uploads call codec es :=
  congrArg _ (collect_stopped (life codec es) part ⟨_, stopped, rfl⟩ small)

/-- The messages with data that a read loop takes. -/
def arrivals {E : Type} (received : E → Option Inbound) (after : List E) : List Inbound :=
  (after.filterMap received).filter isData

def Rust.arrivals (after : List Ws.RustServer.Event) : List Inbound :=
  SingleStream.arrivals Ws.RustServer.Event.received after

def Go.arrivals (after : List Ws.GoServer.Event) : List Inbound :=
  SingleStream.arrivals Ws.GoServer.Event.received after

theorem frames_arrivals {E : Type} (received : E → Option Inbound) (methodUrl : Str) (after : List E) :
    after.flatMap (fun e => Ws.framesOf methodUrl (received e)) =
      (arrivals received after).flatMap fun msg => (msg.frame methodUrl).toList := by
  rw [arrivals, ← frames_data]
  induction after with
  | nil => rfl
  | cons e after ih =>
      rw [List.flatMap_cons, ih, List.filterMap_cons]
      cases received e <;> rfl

section Served
variable {route : Ws.Route} {C E : Type} {m : Ws.Server route C E} {s s' t : C} {e : E} {after : List E}

/-- A server that opens a stream where it had none has the one. -/
theorem first_alone (fresh : (m.intake s).chans = []) (opens : m.step s e = some s')
    (spawned : (m.intake s').chans ≠ []) : (m.intake s').chans.length = 1 := by
  obtain ⟨_, _, sub, json, _, _, _, after⟩ := m.step_opens opens (by simpa [fresh] using spawned)
  simp [after, fresh]

/-- No frame of the run opens a stream beside the one that is there. -/
theorem alone (plain : ∀ kind ∈ after.flatMap (fun e => Ws.framesOf route.methodUrl (m.received e)),
      ∀ sub, kind ≠ .subscribe sub)
    (codec : m.codec s = ⟨some false, true⟩) (one : (m.intake s).chans.length = 1)
    (ran : Machine.run m.step s after = some t) : (m.intake t).chans.length = 1 := by
  refine (Machine.run_invariant_mem
    (I := fun s => m.codec s = ⟨some false, true⟩ ∧ (m.intake s).chans.length = 1) ?_ ⟨codec, one⟩ ran).2
  rintro s e s' inside ⟨codec, one⟩ moved
  obtain ⟨stays, frames⟩ := Ws.next_proto route.methodUrl (m.received e)
  have moves := m.step_moves moved
  rw [codec] at moves
  refine ⟨by rw [m.step_codec moved, codec, stays], ?_⟩
  rw [moves.length_of_plain ?_, one]
  intro sub opens
  refine plain _ (List.mem_flatMap.mpr ⟨e, inside, ?_⟩) sub rfl
  rw [← frames, opens]
  exact List.mem_singleton.mpr rfl

/-- What a server that has read the first of the caller's frames has sent on. -/
theorem delivers {call : Subscribe} {codec : Codec Bytes Bytes} {es : List (Event Bytes)} {kinds : List Kind}
    (plain : route.ann = none) (fresh : (m.intake s).chans = [])
    (received : m.received e = some (.binary (some (some (.subscribe call))))) (opens : m.step s e = some s')
    (spawned : (m.intake s').chans ≠ []) (part : kinds <+: askedFor codec es)
    (arrived : arrivals m.received after = kinds.map fun kind => .binary (some (some kind)))
    (served : Machine.run m.step s' after = some t) :
    ∃ c, (m.intake t).chans = [c] ∧ c.delivered <+: uploads call codec es ∧
      (c.AtEnd → Kind.halfClose ∈ kinds →
        (∀ payload ∈ sends (life codec es), payload.length ≤ route.maxMessageBytes) →
        c.delivered = uploads call codec es) := by
  have frames : after.flatMap (fun e => Ws.framesOf route.methodUrl (m.received e)) = kinds := by
    rw [frames_arrivals, arrived, kinds_of_arrivals (asked_frame_alone part route.methodUrl)]
  have start := Ws.Server.opened_first plain fresh received opens spawned
  have one := alone (by rw [frames]; exact asked_plain part) start.codec
    (first_alone fresh opens spawned) served
  obtain ⟨c, only⟩ := List.length_eq_one_iff.mp one
  obtain ⟨first, whole⟩ := Ws.Server.delivered_in_order plain fresh received opens spawned served only
  rw [frames] at first whole
  refine ⟨c, only, first.trans (requested_asked _ part), fun atEnd stopped small => ?_⟩
  rw [whole atEnd, requested_stopped part stopped small]

end Served

section Servers
variable {js : MetadataForm.LowerCase} {reader : ProtoWire.Reader} {call : Subscribe}

theorem halfClose_arrived {kinds : List Kind} {msgs : List Inbound}
    (arrived : msgs = kinds.map fun kind => .binary (some (some kind)))
    (closed : .binary (some (some .halfClose)) ∈ msgs) : Kind.halfClose ∈ kinds := by
  rw [arrived] at closed
  obtain ⟨kind, inside, same⟩ := List.mem_map.mp closed
  cases same
  exact inside

/-- A stream on the main path from end to end, for every interleaving of the client's side and
of the server's. The server has the one stream, and its backend is sent the first of the
caller's messages, in order and each once; and all of them where it reads its body to the
end, the half-close has arrived and none is above the limit. -/
theorem uploads_in_order {decode : Bytes → Option (Option Kind)} (decodes : DecodesFrames decode)
    {es : List (Event Bytes)} {c : Conn Bytes}
    (ran : Machine.run (step (callCodec js reader call)) (Conn.init (callCodec js reader call)) es = some c)
    (fits : Encodable call (callCodec js reader call) es) :
    (∀ (srv : Ws.RustServer.Config) (first : Inbound) (after : List Ws.RustServer.Event)
      (s s' t : Ws.RustServer.Conn),
      srv.ann = none → s.tasks = [] → Ws.RustServer.step srv s (.receive first) = some s' → s'.tasks ≠ [] →
      Arrives decode c.wire (first :: Rust.arrivals after) →
        Machine.run (Ws.RustServer.step srv) s' after = some t →
      ∃ task, t.tasks = [task] ∧ task.delivered <+: uploads call (callCodec js reader call) es ∧
        (task.chan.AtEnd → .binary (some (some .halfClose)) ∈ Rust.arrivals after →
          (∀ payload ∈ sends (life (callCodec js reader call) es), payload.length ≤ srv.maxMessageBytes) →
          task.delivered = uploads call (callCodec js reader call) es)) ∧
    (∀ (srv : Ws.GoServer.Config) (first : Inbound) (after : List Ws.GoServer.Event)
      (s s' t : Ws.GoServer.Conn),
      srv.ann = none → s.tasks = [] → Ws.GoServer.step srv s (.receive first) = some s' → s'.tasks ≠ [] →
      Arrives decode c.wire (first :: Go.arrivals after) →
        Machine.run (Ws.GoServer.step srv) s' after = some t →
      ∃ task, t.tasks = [task] ∧ task.delivered <+: uploads call (callCodec js reader call) es ∧
        (task.chan.AtEnd → .binary (some (some .halfClose)) ∈ Go.arrivals after →
          (∀ payload ∈ sends (life (callCodec js reader call) es), payload.length ≤ srv.maxMessageBytes) →
          task.delivered = uploads call (callCodec js reader call) es)) := by
  constructor
  · intro srv first after s s' t plain fresh opens spawned arrives served
    obtain ⟨rfl, kinds, part, later⟩ := arrivals_kinds decodes ran fits arrives
    obtain ⟨c, only, some_, whole⟩ := delivers (m := Ws.RustServer.server srv) (e := .receive _) plain
      (congrArg (List.map Ws.RustServer.Task.chan) fresh) rfl opens
        (mt List.map_eq_nil_iff.mp spawned) part later served
    obtain ⟨task, single, rfl⟩ := List.map_eq_singleton_iff.mp only
    exact ⟨task, single, some_, fun atEnd closed => whole atEnd (halfClose_arrived later closed)⟩
  · intro srv first after s s' t plain fresh opens spawned arrives served
    obtain ⟨rfl, kinds, part, later⟩ := arrivals_kinds decodes ran fits arrives
    obtain ⟨c, only, some_, whole⟩ := delivers (m := Ws.GoServer.server srv) (e := .receive _) plain
      (congrArg (List.map Ws.GoServer.Task.chan) fresh) rfl opens
        (mt List.map_eq_nil_iff.mp spawned) part later served
    obtain ⟨task, single, rfl⟩ := List.map_eq_singleton_iff.mp only
    exact ⟨task, single, some_, fun atEnd closed => whole atEnd (halfClose_arrived later closed)⟩

end Servers

section Reading
open GrpcWebnext (MetaValue)

/-- An entry as a server has it. -/
def serverMetadatum (m : Ts.Metadatum) : Metadatum :=
  ⟨m.key, match m.binValue, m.asciiValue with
    | some value, _ => some (.bin value)
    | none, some value => some (.ascii (Utf8.encode value))
    | none, none => none⟩

/-- The kind of a frame that has one. -/
def serverKind (frame : Ts.Frame) : Option Kind :=
  (frame.subscribe.map fun m =>
      .subscribe ⟨m.method, m.headers.map serverMetadatum, m.timeoutMillis, m.initialPayload⟩) <|>
    (frame.message.map fun m => .message m.payload) <|>
    (frame.halfClose.map fun _ => .halfClose) <|>
    (frame.trailer.map fun m => .trailer m.statusCode (Utf8.encode m.statusMessage)
      (m.trailers.map serverMetadatum)) <|>
    (frame.reset.map fun m => .reset m.statusCode (Utf8.encode m.statusMessage)) <|>
    frame.header.map fun m => .header (m.headers.map serverMetadatum)

/-- A reader of frames at a server, over the runtime of this client. -/
def readKind (bytes : Bytes) : Option (Option Kind) :=
  (Ts.decodeFrame ProtoWire.standard bytes).map serverKind

theorem serverMetadatum_of {m : Metadatum} (text : m.Text) : serverMetadatum (.of m) = m := by
  obtain ⟨key, value⟩ := m
  cases value with
  | none => rfl
  | some value =>
      cases value with
      | ascii raw =>
          have same : Utf8.encode (Utf8.decodeLossy raw) = raw := by simpa [Utf8.valid] using text raw rfl
          simp only [serverMetadatum, Ts.Metadatum.of, same]
      | bin raw => rfl

theorem serverMetadata_of {entries : List Metadatum} (text : ∀ m ∈ entries, m.Text) :
    (entries.map Ts.Metadatum.of).map serverMetadatum = entries := by
  rw [List.map_map]
  exact (List.map_congr_left fun m inside => serverMetadatum_of (text m inside)).trans (List.map_id entries)

theorem serverKind_of {kind : Kind} (text : kind.Text) : serverKind (Ts.Frame.of kind) = some kind := by
  have plain : ∀ {bytes : Bytes}, Utf8.valid bytes → Utf8.encode (Utf8.decodeLossy bytes) = bytes := by
    intro bytes valid
    simpa [Utf8.valid] using valid
  cases kind with
  | subscribe sub =>
      change some (Kind.subscribe ⟨_, (sub.headers.map Ts.Metadatum.of).map serverMetadatum, _, _⟩) = _
      rw [serverMetadata_of text]
  | message payload => rfl
  | halfClose => rfl
  | trailer code message trailers =>
      change some (Kind.trailer code (Utf8.encode (Utf8.decodeLossy message))
        ((trailers.map Ts.Metadatum.of).map serverMetadatum)) = _
      rw [plain text.1, serverMetadata_of text.2]
  | reset code message =>
      change some (Kind.reset code (Utf8.encode (Utf8.decodeLossy message))) = _
      rw [plain text]
  | header headers =>
      change some (Kind.header ((headers.map Ts.Metadatum.of).map serverMetadatum)) = _
      rw [serverMetadata_of text]

theorem readKind_decodes : DecodesFrames readKind := by
  intro kind text fits
  have read := ProtoWire.decodeMessage_reads ProtoWire.standard_lawful
    (Ts.Frame.reads ProtoWire.standard_faithful fits)
  rw [Ts.Frame.of_fields text] at read
  rw [readKind, Ts.decodeFrame, encodeFrame, read, Option.map_some, serverKind_of text]

end Reading

/-- Two messages, one on each side of the socket's opening, and one behind the half-close. -/
def uploading : List (Event Bytes) := [.send [1], .opened, .send [2], .halfClose, .send [3]]

/-- The frames of `uploading` that its server reads on. -/
def uploaded : List Inbound :=
  [.binary (some (some (.message [1]))), .binary (some (some (.message [2]))),
    .binary (some (some .halfClose))]

def rustUploaded : List Ws.RustServer.Event :=
  [.wake 0, .run 0 .call, .receive (.binary (some (some (.message [1])))), .feed, .pull 0,
    .receive (.binary (some (some (.message [2])))), .feed, .pull 0,
      .receive (.binary (some (some .halfClose)))]

def goUploaded : List Ws.GoServer.Event :=
  [.run 0 (.checked none), .run 0 .dispatch, .receive (.binary (some (some (.message [1])))), .feed, .pull 0,
    .receive (.binary (some (some (.message [2])))), .feed, .pull 0,
      .receive (.binary (some (some .halfClose)))]

/-- The codec of a call without metadata and deadline. -/
def plainCodec : Codec Bytes Bytes := callCodec MetadataForm.asciiLower ProtoWire.standard ⟨[], [], 0, []⟩

theorem uploading_encodable : Encodable ⟨[], [], 0, []⟩ plainCodec uploading := by
  have kinds : askedFor plainCodec uploading = [.message [1], .message [2], .halfClose, .message [3]] := rfl
  intro kind inside
  rw [kinds] at inside
  simp only [List.mem_cons, List.not_mem_nil, or_false] at inside
  rcases inside with rfl | rfl | rfl | rfl | rfl
  · refine ⟨nofun, ?_, nofun, nofun, nofun, by decide⟩
    rintro _ ⟨⟩
    exact ⟨by decide, nofun, by decide⟩
  all_goals exact ⟨trivial, nofun, nofun, nofun, nofun, by decide⟩

theorem uploading_arrives {c : Conn Bytes}
    (ran : Machine.run (step plainCodec) (Conn.init plainCodec) uploading = some c) :
    Arrives readKind c.wire (.binary (some (some (.subscribe ⟨[], [], 0, []⟩))) :: uploaded) := by
  have ready : c.ready = .opened := by
    cases ran
    rfl
  rw [Arrives, ((held_run ran).1.opened ready).2.2, plainCodec,
    issued_read readKind_decodes uploading_encodable]
  exact ⟨[.binary (some (some (.message [3])))], rfl⟩

def atEnd (c : Ws.Chan) : Bool := c.called && c.live && !c.fed && c.requests.isEmpty

theorem atEnd_iff {c : Ws.Chan} : atEnd c = true ↔ c.AtEnd := by
  constructor
  · intro ends
    simp only [atEnd, Bool.and_eq_true, Bool.not_eq_true', List.isEmpty_iff] at ends
    exact ⟨ends.1.1.1, ends.1.1.2, ends.1.2, ends.2⟩
  · rintro ⟨called, live, unfed, empty⟩
    simp [atEnd, called, live, unfed, empty]

/-- Both servers send the two messages before the half-close to their backend. -/
theorem uploads_in_order_two : ∃ c, Machine.run (step plainCodec) (Conn.init plainCodec) uploading = some c ∧
    (∃ s' t task, Ws.RustServer.step Ws.smallRust (.init none)
        (.receive (.binary (some (some (.subscribe ⟨[], [], 0, []⟩))))) = some s' ∧
      Machine.run (Ws.RustServer.step Ws.smallRust) s' rustUploaded = some t ∧ t.tasks = [task] ∧
      task.delivered = [[1], [2]]) ∧
    (∃ s' t task, Ws.GoServer.step Ws.smallGo (.init none)
        (.receive (.binary (some (some (.subscribe ⟨[], [], 0, []⟩))))) = some s' ∧
      Machine.run (Ws.GoServer.step Ws.smallGo) s' goUploaded = some t ∧ t.tasks = [task] ∧
      task.delivered = [[1], [2]]) := by
  obtain ⟨c, ran⟩ : ∃ c, Machine.run (step plainCodec) (Conn.init plainCodec) uploading = some c := ⟨_, rfl⟩
  have both := uploads_in_order readKind_decodes ran uploading_encodable
  refine ⟨c, ran, ?_, ?_⟩
  · obtain ⟨t, run, ends⟩ :=
      Option.map_eq_some_iff.mp (show (Machine.run (Ws.RustServer.step Ws.smallRust) (.init none)
        (.receive (.binary (some (some (.subscribe ⟨[], [], 0, []⟩)))) :: rustUploaded)).map
        (fun t => t.tasks.map fun task => atEnd task.chan) = some [true] by decide)
    obtain ⟨s', opens, served⟩ := Machine.run_cons_inv run
    have spawned : s'.tasks ≠ [] := by
      cases opens
      decide
    obtain ⟨task, only, _, whole⟩ :=
      both.1 Ws.smallRust _ rustUploaded _ _ t rfl rfl opens spawned (uploading_arrives ran) served
    rw [only] at ends
    exact ⟨s', t, task, opens, served, only, whole (atEnd_iff.mp (List.cons.inj ends).1) (by decide)
      (by decide)⟩
  · obtain ⟨t, run, ends⟩ :=
      Option.map_eq_some_iff.mp (show (Machine.run (Ws.GoServer.step Ws.smallGo) (.init none)
        (.receive (.binary (some (some (.subscribe ⟨[], [], 0, []⟩)))) :: goUploaded)).map
        (fun t => t.tasks.map fun task => atEnd task.chan) = some [true] by decide)
    obtain ⟨s', opens, served⟩ := Machine.run_cons_inv run
    have spawned : s'.tasks ≠ [] := by
      cases opens
      decide
    obtain ⟨task, only, _, whole⟩ :=
      both.2 Ws.smallGo _ goUploaded _ _ t rfl rfl opens spawned (uploading_arrives ran) served
    rw [only] at ends
    exact ⟨s', t, task, opens, served, only, whole (atEnd_iff.mp (List.cons.inj ends).1) (by decide)
      (by decide)⟩

end GrpcWebnext.NodeClient.SingleStream
