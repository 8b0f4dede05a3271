import GrpcWebnext.Ws.Codec

/-! One WebSocket connection of the Go server: the read loop of `serveWS`, the writer
goroutine, the drain watcher and the stream goroutines. A label says which goroutine
moves; a step between two channel operations is atomic. -/
namespace GrpcWebnext.Ws.GoServer
open Framing (Bytes)
open Text (Str)

/-- What a connection is served with. Marshalling a frame fails on text that is not
UTF-8. -/
structure Config extends Route where
  marshals : Kind → Bool

/-- Where `runStream` stands once its pending messages are queued. -/
inductive Point where
  | starting
  | dispatching
  | awaiting
  | reading (headers : HeaderMap) (buf : Bytes)
  /-- About to look at `aborted`, in `rejectStream` or `finishStream`. -/
  | ending (outs : List Out)
  | closing
  | done
  deriving DecidableEq

structure Task where
  sub : Subscribe
  json : Bool
  halfClosed : Bool
  requests : List Bytes
  aborted : Bool
  called : Bool
  /-- The request goroutine is still reading from `requests`. -/
  mapping : Bool
  pulled : List Bytes
  delivered : List Bytes
  timedOut : Bool
  pending : List Out
  point : Point
  deriving DecidableEq

inductive Reader where
  | ready
  | sending (outs : List Out)
  /-- Answering an oversize Message: the Reset goes first, the stream is aborted then. -/
  | rejecting (reset : Out)
  | feeding (payload : Bytes)
  | ended
  deriving DecidableEq

inductive Watcher where
  | waiting
  | sending
  | sent
  | finished
  deriving DecidableEq

structure Conn where
  codec : Codec
  slot : Option Nat
  streamOpen : Bool
  watcher : Watcher
  reader : Reader
  queue : List Out
  writing : Bool
  written : List Out
  tasks : List Task
  deriving DecidableEq

def Conn.init (json : Option Bool) : Conn :=
  ⟨⟨json, false⟩, none, false, .waiting, .ready, [], true, [], []⟩

def Conn.modifyTask (s : Conn) (i : Nat) (f : Task → Task) : Conn :=
  { s with tasks := s.tasks.modify i f }

def Task.goTo (t : Task) (point : Point) : Task := { t with point := point }

def Task.abort (t : Task) : Task := { t with aborted := true }

/-- `s.abort()` on the connection's stream, if it has one. -/
def Conn.abortStream (s : Conn) : Conn :=
  match s.slot with
  | none => s
  | some i => s.modifyTask i Task.abort

/-- An aborted stream is forgotten by the read loop, which may then open another. -/
def Conn.dropStream (s : Conn) : Conn :=
  match s.slot with
  | none => s
  | some _ => { s.abortStream with slot := none, streamOpen := false }

/-- The stream as `handleFrame` starts it, its request channel already fed. -/
def spawn (srv : Config) (sub : Subscribe) (json : Bool) : Task where
  sub := sub
  json := json
  halfClosed := srv.bodyless
  requests := (if sub.initialPayload = [] then [] else [sub.initialPayload]) ++
    (if srv.bodyless then [[]] else [])
  aborted := false
  called := false
  mapping := true
  pulled := []
  delivered := []
  timedOut := false
  pending := []
  point := .starting

def sizeLimitReset (json : Bool) : Out :=
  resetFrame json Code.resourceExhausted (utf8 "request message exceeds size limit")

def handleFrame (srv : Config) (s : Conn) (kind : Kind) (json : Bool) : Conn :=
  match kind with
  | .subscribe sub =>
      if s.slot.isSome then { s with reader := .sending [.openRefused json] }
      else if srv.maxMessageBytes < sub.initialPayload.length then
        { s with reader := .sending [sizeLimitReset json, closeNormal] }
      else { s with tasks := s.tasks ++ [spawn srv sub json], slot := some s.tasks.length,
                    streamOpen := true }
  | .message payload =>
      if srv.maxMessageBytes < payload.length then
        { s with reader := .rejecting (sizeLimitReset json) }
      else match s.slot.bind fun i => s.tasks[i]? with
        | some t => if t.halfClosed then s else { s with reader := .feeding payload }
        | none => s
  | .halfClose => match s.slot with
    | some i => s.modifyTask i fun t => { t with halfClosed := true }
    | none => s
  | .reset _ _ => s.dropStream
  | _ => s

/-- The read loop returns: its deferred calls abort the stream and close `connDone`. -/
def Conn.finish (s : Conn) : Conn := { s.abortStream with reader := .ended }

def receive (srv : Config) (s : Conn) (msg : Inbound) : Conn :=
  if msg = .close then s.finish
  else
    let (codec, frame) := decode s.codec srv.methodUrl msg
    let s := { s with codec := codec }
    match frame with
    | some (kind, json) => handleFrame srv s kind json
    | none => s

/-- `wsConn.send`: it queues the message, or reports that the writer is gone. -/
def push (s : Conn) (out : Out) (sent : Bool) : Option (List Out) :=
  if sent then (if s.queue.length < outboundCapacity then some (s.queue ++ [out]) else none)
  else if s.writing then none
  else some s.queue

/-- The read loop sends its next message; what becomes of it does not matter to it. -/
def flush (s : Conn) (sent : Bool) : Option Conn :=
  match s.reader with
  | .sending (out :: rest) => (push s out sent).map fun queue =>
      { s with queue := queue, reader := if rest = [] then .ready else .sending rest }
  | .rejecting reset => (push s reset sent).map fun queue =>
      let s := { s with queue := queue }
      { s.dropStream with reader := .sending [closeNormal] }
  | _ => none

theorem flush_some {s s' : Conn} {sent : Bool} (h : flush s sent = some s') :
    (∃ out rest queue, s.reader = .sending (out :: rest) ∧ push s out sent = some queue ∧
      s' = { s with queue := queue, reader := if rest = [] then .ready else .sending rest }) ∨
    ∃ reset queue, s.reader = .rejecting reset ∧ push s reset sent = some queue ∧
      s' = { ({ s with queue := queue } : Conn).dropStream with reader := .sending [closeNormal] } := by
  unfold flush at h
  split at h
  · rename_i out rest reads
    obtain ⟨queue, pushed, rfl⟩ := Option.map_eq_some_iff.mp h
    exact .inl ⟨out, rest, queue, reads, pushed, rfl⟩
  · rename_i reset reads
    obtain ⟨queue, pushed, rfl⟩ := Option.map_eq_some_iff.mp h
    exact .inr ⟨reset, queue, reads, pushed, rfl⟩
  · cases h

/-- The select of the Message arm: the channel takes the payload. -/
def feed (s : Conn) : Option Conn :=
  match s.reader with
  | .feeding payload => match s.slot.bind fun i => s.tasks[i]?.map (i, ·) with
    | some (i, t) =>
        if t.requests.length < requestCapacity then
          some { s.modifyTask i fun t => { t with requests := t.requests ++ [payload] } with
            reader := .ready }
        else none
    | none => some { s with reader := .ready }
  | _ => none

theorem feed_some {s s' : Conn} (h : feed s = some s') :
    (∃ payload, s.reader = .feeding payload) ∧ (s' = { s with reader := .ready } ∨
      ∃ i payload, s' = { s.modifyTask i fun t => { t with requests := t.requests ++ [payload] } with
        reader := .ready }) := by
  unfold feed at h
  split at h
  · rename_i payload reads
    refine ⟨⟨payload, reads⟩, ?_⟩
    split at h
    · rename_i i t current
      simp only [Option.ite_none_right_eq_some, Option.some.injEq] at h
      exact .inr ⟨i, payload, h.2.symm⟩
    · exact .inl (Option.some.inj h).symm
  · cases h

/-- The other arms of that select. The stream's context ends with its abort, and
`connDone` is closed by this very loop when it returns. -/
def giveUp (s : Conn) : Option Conn :=
  match s.reader with
  | .feeding _ => match s.slot.bind fun i => s.tasks[i]? with
    | some t => if t.aborted then some { s with reader := .ready } else none
    | none => none
  | _ => none

theorem giveUp_eq {s s' : Conn} (h : giveUp s = some s') :
    s' = { s with reader := .ready } ∧ ∃ payload, s.reader = .feeding payload := by
  unfold giveUp at h
  split at h
  · rename_i payload reads
    split at h
    · simp only [Option.ite_none_right_eq_some, Option.some.injEq] at h
      exact ⟨h.2.symm, payload, reads⟩
    · cases h
  · cases h

def write (s : Conn) : Option Conn :=
  match s.queue with
  | out :: rest =>
      if s.writing then
        some { s with queue := rest, written := s.written ++ [out], writing := !out.isClose }
      else none
  | [] => none

theorem write_some {s s' : Conn} (h : write s = some s') :
    ∃ out rest, s.queue = out :: rest ∧ s.writing = true ∧
      s' = { s with queue := rest, written := s.written ++ [out], writing := !out.isClose } := by
  unfold write at h
  split at h
  · rename_i out rest queued
    simp only [Option.ite_none_right_eq_some, Option.some.injEq] at h
    exact ⟨out, rest, queued, h.1, h.2.symm⟩
  · cases h

/-- The watcher sees the drain and looks whether the socket carries a stream. -/
def observeDrain (s : Conn) : Conn :=
  { s with watcher := if s.streamOpen then .finished else .sending }

def sendAway (s : Conn) (sent : Bool) : Option Conn :=
  (push s closeGoingAway sent).map fun queue =>
    { s with queue := queue, watcher := if sent then .sent else .finished }

inductive Act where
  | checked (failure : Option String)
  | dispatch
  | answered (headers : HeaderMap)
  | cancelled
  | data (bytes : Bytes)
  | bodyEnd (trailers : HeaderMap)
  | gate
  | send (sent : Bool)
  | expire

def finishPump (srv : Config) (t : Task) (headers trailers : HeaderMap) : Task :=
  let trailer : Kind :=
    if t.timedOut then .trailer Code.deadlineExceeded (utf8 "deadline exceeded") []
    else .trailer (Go.readStatus trailers headers).1 (Go.readStatus trailers headers).2
      (Go.headersToMetadataList srv.fromBase64 trailers)
  t.goTo (.ending [.frame t.json trailer, closeNormal])

def settle (t : Task) : Task :=
  match t.pending, t.point with
  | [], .closing => { t with point := .done }
  | _, _ => t

/-- A Header, Message or Trailer that cannot be sent ends the goroutine; a Reset or a
Close that cannot be sent does not matter. -/
def sendFailed (t : Task) (out : Out) (rest : List Out) : Task :=
  match out with
  | .frame _ (.reset _ _) => settle { t with pending := rest }
  | .close _ _ => settle { t with pending := rest }
  | _ => { t with pending := [], point := .done }

/-- Whether the message can be put on the wire at all. -/
def Config.encodes (srv : Config) : Out → Bool
  | .frame json kind => (encodeOutbound srv.marshals kind json).isSome
  | _ => true

/-- One move of `runStream`, and the outbound queue behind it. -/
def runStream (srv : Config) (s : Conn) (t : Task) (act : Act) : Option (Task × List Out) :=
  match act, t.pending, t.point with
  | .checked none, [], .starting => some ({ t with point := .dispatching }, s.queue)
  | .checked (some failure), [], .starting =>
      if t.json then
        some (t.goTo (.ending [resetFrame t.json Code.unimplemented (utf8 failure), closeNormal]),
          s.queue)
      else none
  | .dispatch, [], .dispatching => some ({ t with called := true, point := .awaiting }, s.queue)
  | .answered headers, [], .awaiting =>
      some ({ t with
        pending := [.frame t.json (.header (Go.headersToMetadataList srv.fromBase64 headers))]
        point := .reading headers [] }, s.queue)
  | .cancelled, [], .awaiting =>
      some (t.goTo (.ending
        [.frame t.json (.trailer Code.unavailable (utf8 "stream aborted") []), closeNormal]),
        s.queue)
  | .data bytes, [], .reading headers buf =>
      let (frames, left) := Framing.parse (buf ++ bytes)
      match srv.encodeAll t.json (frames.map Prod.snd) with
      | (outs, none) => some ({ t with pending := outs, point := .reading headers left }, s.queue)
      | (outs, some e) =>
          some ({ t with pending := outs }.goTo (.ending
            [resetFrame t.json Code.internal (utf8 ("json encode: " ++ e)), closeNormal]), s.queue)
  | .bodyEnd trailers, [], .reading headers _ => some (finishPump srv t headers trailers, s.queue)
  | .gate, [], .ending outs =>
      if t.aborted then some ({ t with point := .done }, s.queue)
      else some ({ t with pending := outs, point := .closing }, s.queue)
  | .send sent, out :: rest, _ =>
      if !srv.encodes out then some (sendFailed t out rest, s.queue)
      else (push s out sent).map fun queue =>
        (if sent then settle { t with pending := rest } else sendFailed t out rest, queue)
  | .expire, _, _ =>
      if t.called ∧ t.sub.timeoutMillis ≠ 0 then some ({ t with timedOut := true }, s.queue)
      else none
  | _, _, _ => none

/-- The request goroutine takes a payload and writes the mapped message to the backend. -/
def pull (srv : Config) (t : Task) : Option Task :=
  match t.requests with
  | payload :: rest =>
      if t.called && t.mapping then
        match srv.toProto t.json payload with
        | some message =>
            some { t with
              requests := rest
              pulled := t.pulled ++ [payload]
              delivered := t.delivered ++ [message] }
        | none => some { t with requests := rest, mapping := false }
      else none
  | [] => none

inductive Event where
  | receive (msg : Inbound)
  | hangup
  | flush (sent : Bool)
  | feed
  | giveUp
  | write
  | writeFail
  | drain
  | sendAway (sent : Bool)
  | unwatch
  | run (i : Nat) (act : Act)
  | pull (i : Nat)
  | unmap (i : Nat)

/-- The message of the peer that an event takes. -/
def Event.received : Event → Option Inbound
  | .receive msg => some msg
  | _ => none

def Conn.stepTask (s : Conn) (i : Nat) (f : Task → Option Task) : Option Conn :=
  (s.tasks[i]?.bind f).map fun t => { s with tasks := s.tasks.set i t }

def step (srv : Config) (s : Conn) : Event → Option Conn
  | .receive msg => if s.reader = .ready then some (receive srv s msg) else none
  | .hangup => if s.reader = .ready then some s.finish else none
  | .flush sent => flush s sent
  | .feed => feed s
  | .giveUp => giveUp s
  | .write => write s
  | .writeFail => if s.writing then some { s with writing := false } else none
  | .drain => if s.watcher = .waiting then some (observeDrain s) else none
  | .sendAway sent => if s.watcher = .sending then sendAway s sent else none
  | .unwatch =>
      if s.watcher = .waiting ∧ s.reader = .ended then some { s with watcher := .finished }
      else none
  | .run i act => match s.tasks[i]? with
    | some t => (runStream srv s t act).map fun (t, queue) =>
        { s with tasks := s.tasks.set i t, queue := queue }
    | none => none
  | .pull i => s.stepTask i (pull srv)
  | .unmap i => s.stepTask i fun t =>
      if t.called && t.mapping then some { t with mapping := false } else none

theorem step_run {srv : Config} {s s' : Conn} {i : Nat} {act : Act}
    (h : step srv s (.run i act) = some s') :
    ∃ t t' queue, s.tasks[i]? = some t ∧ runStream srv s t act = some (t', queue) ∧
      s' = { s with tasks := s.tasks.set i t', queue := queue } := by
  simp only [step] at h
  split at h
  · rename_i t found
    obtain ⟨⟨t', queue⟩, moved, rfl⟩ := Option.map_eq_some_iff.mp h
    exact ⟨t, t', queue, found, moved, rfl⟩
  · cases h

def Conn.dispatched (s : Conn) : Nat := s.tasks.countP fun t => t.called

end GrpcWebnext.Ws.GoServer
