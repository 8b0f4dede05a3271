import GrpcWebnext.Ws.Route

/-! One WebSocket connection of the Rust server: the read loop of `serve`, its writer
task and the stream tasks it spawns. A label says which party moves and what the
peer, the backend or the clock brings; a step between two await points is atomic. -/
namespace GrpcWebnext.Ws.RustServer
open Framing (Bytes)
open Text (Str)

/-- What a connection is served with. -/
structure Config extends Route where
  methodParses : Bool

/-- Where `run_stream` stands once its pending messages are queued. -/
inductive Point where
  | resolving
  | calling
  | awaiting
  | reading (headers trailers : HeaderMap) (buf : Bytes)
  | finishing
  | closing
  | done
  deriving DecidableEq

/-- The runtime's view of a spawned task. -/
inductive Life where
  | parked
  | running
  | gone
  deriving DecidableEq

structure Task where
  sub : Subscribe
  json : Bool
  /-- The read loop still holds `req_tx`. -/
  feeding : Bool
  requests : List Bytes
  /-- The request body still holds `req_rx`. -/
  listening : Bool
  called : Bool
  pulled : List Bytes
  delivered : List Bytes
  pending : List Out
  point : Point
  life : Life
  aborted : Bool
  deriving DecidableEq

inductive Reader where
  | ready
  | sending (outs : List Out) (thenEnd : Bool)
  | feeding (payload : Bytes)
  | ended
  deriving DecidableEq

structure Conn where
  codec : Codec
  slot : Option Nat
  draining : Bool
  reader : Reader
  queue : List Out
  writing : Bool
  written : List Out
  tasks : List Task
  deriving DecidableEq

/-- A connection whose handshake fixed the codec, or left it to the first frame. -/
def Conn.init (json : Option Bool) : Conn :=
  ⟨⟨json, false⟩, none, false, .ready, [], true, [], []⟩

def Conn.modifyTask (s : Conn) (i : Nat) (f : Task → Task) : Conn :=
  { s with tasks := s.tasks.modify i f }

/-- `reject_stream`: a terminal Reset and the normal close. -/
def rejectStream (json : Bool) (code : Nat) (message : String) : List Out :=
  [resetFrame json code (utf8 message), closeNormal]

/-- Dropping a `StreamState`: the sender goes, and the task is told to stop. -/
def Task.abort (t : Task) : Task := { t with feeding := false, aborted := true }

def Conn.dropStream (s : Conn) : Conn :=
  match s.slot with
  | none => s
  | some i => { s.modifyTask i Task.abort with slot := none }

/-- The stream task as `handle_frame` spawns it, its request channel already fed. -/
def spawn (srv : Config) (sub : Subscribe) (json : Bool) : Task where
  sub := sub
  json := json
  feeding := !srv.bodyless
  requests := (if sub.initialPayload = [] then [] else [sub.initialPayload]) ++
    (if srv.bodyless then [[]] else [])
  listening := true
  called := false
  pulled := []
  delivered := []
  pending := []
  point := if json then .resolving else .calling
  life := .parked
  aborted := false

def handleFrame (srv : Config) (s : Conn) (kind : Kind) (json : Bool) : Conn :=
  match kind with
  | .subscribe sub =>
      if s.slot.isSome then { s with reader := .sending [.openRefused json] false }
      else if srv.maxMessageBytes < sub.initialPayload.length then
        { s with reader := .sending (rejectStream json Code.resourceExhausted
            "request message exceeds size limit") false }
      else if !srv.methodParses then
        { s with reader := .sending (rejectStream json Code.invalidArgument
            "invalid method") false }
      else { s with tasks := s.tasks ++ [spawn srv sub json], slot := some s.tasks.length }
  | .message payload =>
      if srv.maxMessageBytes < payload.length then
        { s.dropStream with reader := .sending (rejectStream json Code.resourceExhausted
            "request message exceeds size limit") false }
      else match s.slot.bind fun i => s.tasks[i]? with
        | some t => if t.feeding then { s with reader := .feeding payload } else s
        | none => s
  | .halfClose => match s.slot with
    | some i => s.modifyTask i fun t => { t with feeding := false }
    | none => s
  | .reset _ _ => s.dropStream
  | _ => s

/-- Leaving the read loop: the stream state is dropped and its task aborted. -/
def Conn.finish (s : Conn) : Conn := { s.dropStream with reader := .ended }

def receive (srv : Config) (s : Conn) (msg : Inbound) : Conn :=
  if msg = .close then s.finish
  else
    let (codec, frame) := decode s.codec srv.methodUrl msg
    let s := { s with codec := codec }
    match frame with
    | some (kind, json) => handleFrame srv s kind json
    | none => s

/-- The drain branch of the read loop: an idle socket is closed, a stream left alone. -/
def observeDrain (s : Conn) : Conn :=
  if s.slot.isNone then { s with draining := true, reader := .sending [closeGoingAway] true }
  else { s with draining := true }

/-- `outbound_tx.send`: the queue after it, `none` while the channel is full. A send
fails, and the message is lost, once the writer is gone. -/
def push (s : Conn) (out : Out) : Option (List Out) :=
  if !s.writing then some s.queue
  else if s.queue.length < outboundCapacity then some (s.queue ++ [out])
  else none

/-- The read loop gets its next pending message into the queue. -/
def flush (s : Conn) : Option Conn :=
  match s.reader with
  | .sending (out :: rest) thenEnd => (push s out).map fun queue =>
      let s := { s with queue := queue }
      match rest with
      | [] => if thenEnd then s.finish else { s with reader := .ready }
      | _ => { s with reader := .sending rest thenEnd }
  | _ => none

theorem flush_some {s s' : Conn} (h : flush s = some s') :
    ∃ out rest thenEnd queue, s.reader = .sending (out :: rest) thenEnd ∧ push s out = some queue ∧
      ((rest = [] ∧ thenEnd = true ∧ s' = ({ s with queue := queue } : Conn).finish) ∨
        (rest = [] ∧ thenEnd = false ∧ s' = { s with queue := queue, reader := .ready }) ∨
        (rest ≠ [] ∧ s' = { s with queue := queue, reader := .sending rest thenEnd })) := by
  unfold flush at h
  split at h
  · rename_i out rest thenEnd reads
    obtain ⟨queue, pushed, rfl⟩ := Option.map_eq_some_iff.mp h
    refine ⟨out, rest, thenEnd, queue, reads, pushed, ?_⟩
    cases rest with
    | nil =>
        cases thenEnd with
        | true => exact .inl ⟨rfl, rfl, rfl⟩
        | false => exact .inr (.inl ⟨rfl, rfl, rfl⟩)
    | cons next rest => exact .inr (.inr ⟨List.cons_ne_nil _ _, rfl⟩)
  · cases h

/-- The read loop hands the payload it holds to the request channel, or finds it closed. -/
def feed (s : Conn) : Option Conn :=
  match s.reader with
  | .feeding payload => match s.slot.bind fun i => s.tasks[i]?.map (i, ·) with
    | some (i, t) =>
        if !t.listening then some { s with reader := .ready }
        else if t.requests.length < requestCapacity then
          some { s.modifyTask i fun t => { t with requests := t.requests ++ [payload] } with
            reader := .ready }
        else none
    | none => some { s with reader := .ready }
  | _ => none

theorem feed_some {s s' : Conn} (h : feed s = some s') :
    (∃ payload, s.reader = .feeding payload) ∧ (s' = { s with reader := .ready } ∨
      ∃ i payload, s' = { s.modifyTask i fun t => { t with requests := t.requests ++ [payload] } with
        reader := .ready }) := by
  unfold feed at h
  split at h
  · rename_i payload reads
    refine ⟨⟨payload, reads⟩, ?_⟩
    split at h
    · rename_i i t current
      split at h
      · exact .inl (Option.some.inj h).symm
      · simp only [Option.ite_none_right_eq_some, Option.some.injEq] at h
        exact .inr ⟨i, payload, h.2.symm⟩
    · exact .inl (Option.some.inj h).symm
  · cases h

/-- The writer sends the next queued message; it stops behind a Close. -/
def write (s : Conn) : Option Conn :=
  match s.queue with
  | out :: rest =>
      if s.writing then
        some { s with queue := rest, written := s.written ++ [out], writing := !out.isClose }
      else none
  | [] => none

theorem write_some {s s' : Conn} (h : write s = some s') :
    ∃ out rest, s.queue = out :: rest ∧ s.writing = true ∧
      s' = { s with queue := rest, written := s.written ++ [out], writing := !out.isClose } := by
  unfold write at h
  split at h
  · rename_i out rest queued
    simp only [Option.ite_none_right_eq_some, Option.some.injEq] at h
    exact ⟨out, rest, queued, h.1, h.2.symm⟩
  · cases h

/-- What moves a stream task on from one await point to the next. -/
inductive Act where
  | resolved (result : Except (Nat × String) Unit)
  | call
  | answered (result : Except String HeaderMap)
  | data (bytes : Bytes)
  | trailers (block : HeaderMap)
  | bodyError
  | bodyEnd
  | send
  | expire

/-- Behind its last pending message the pump ends, and behind the close the task. -/
def settle (t : Task) : Task :=
  match t.pending, t.point with
  | [], .finishing => { t with pending := [closeNormal], point := .closing }
  | [], .closing => { t with point := .done, life := .gone }
  | _, _ => t

/-- A failed send of a Message ends the pump; any other failed send is ignored. -/
def sendFailed (t : Task) (out : Out) (rest : List Out) : Task :=
  match out with
  | .frame _ (.message _) => { t with pending := [closeNormal], point := .closing }
  | _ => settle { t with pending := rest }

def finishPump (srv : Config) (t : Task) (headers trailers : HeaderMap) : Task :=
  let (code, message) := Rust.readStatus trailers headers
  { t with
    pending := [.frame t.json (.trailer code message (Rust.metadataToVec srv.fromBase64 trailers))]
    point := .finishing }

/-- One move of `run_stream`, and the outbound queue behind it. -/
def runStream (srv : Config) (s : Conn) (t : Task) (act : Act) : Option (Task × List Out) :=
  match act, t.pending, t.point with
  | .resolved (.ok _), [], .resolving => some ({ t with point := .calling }, s.queue)
  | .resolved (.error (code, message)), [], .resolving =>
      some ({ t with pending := rejectStream t.json code message, point := .closing }, s.queue)
  | .call, [], .calling => some ({ t with called := true, point := .awaiting }, s.queue)
  | .answered (.ok headers), [], .awaiting =>
      some ({ t with
        pending := [.frame t.json (.header (Rust.metadataToVec srv.fromBase64 headers))]
        point := .reading headers [] [] }, s.queue)
  | .answered (.error e), [], .awaiting =>
      some ({ t with
        pending := [resetFrame t.json Code.unavailable (utf8 ("upstream: " ++ e))]
        point := .finishing }, s.queue)
  | .data bytes, [], .reading headers trailers buf =>
      let (frames, left) := Framing.parse (buf ++ bytes)
      match srv.encodeAll t.json (frames.map Prod.snd) with
      | (outs, none) =>
          some ({ t with pending := outs, point := .reading headers trailers left }, s.queue)
      | (outs, some e) =>
          some ({ t with
            pending := outs ++ [resetFrame t.json Code.internal (utf8 ("json encode: " ++ e))]
            point := .finishing }, s.queue)
  | .trailers block, [], .reading headers _ buf =>
      some ({ t with point := .reading headers block buf }, s.queue)
  | .bodyError, [], .reading headers trailers _ => some (finishPump srv t headers trailers, s.queue)
  | .bodyEnd, [], .reading headers trailers _ => some (finishPump srv t headers trailers, s.queue)
  | .send, out :: rest, _ =>
      if !s.writing then some (sendFailed t out rest, s.queue)
      else (push s out).map fun queue => (settle { t with pending := rest }, queue)
  | .expire, _, .awaiting => expired
  | .expire, _, .reading _ _ _ => expired
  | .expire, _, .finishing => expired
  | _, _, _ => none
where
  /-- The deadline drops the pump, pending messages included. -/
  expired : Option (Task × List Out) :=
    if t.sub.timeoutMillis = 0 then none
    else some ({ t with
      pending := [.frame t.json (.trailer Code.deadlineExceeded (utf8 "deadline exceeded") []),
        closeNormal]
      point := .closing }, s.queue)

/-- The backend takes the next request message out of the mapped channel. A panic of
the mapper ends the request body. -/
def pull (srv : Config) (t : Task) : Option Task :=
  match t.requests with
  | payload :: rest =>
      if t.called && t.listening then
        match srv.toProto t.json payload with
        | some message =>
            some { t with
              requests := rest
              pulled := t.pulled ++ [payload]
              delivered := t.delivered ++ [message] }
        | none => some { t with requests := rest, listening := false }
      else none
  | [] => none

inductive Event where
  | receive (msg : Inbound)
  | hangup
  | drain
  | flush
  | feed
  | write
  | writeFail
  | wake (i : Nat)
  | park (i : Nat)
  | reap (i : Nat)
  | run (i : Nat) (act : Act)
  | pull (i : Nat)
  | dropBody (i : Nat)

/-- The message of the peer that an event takes. -/
def Event.received : Event → Option Inbound
  | .receive msg => some msg
  | _ => none

def Task.die (t : Task) : Task := { t with life := .gone, listening := t.listening && t.called }

/-- A step of one task that leaves the connection alone. -/
def Conn.stepTask (s : Conn) (i : Nat) (f : Task → Option Task) : Option Conn :=
  (s.tasks[i]?.bind f).map fun t => { s with tasks := s.tasks.set i t }

def step (srv : Config) (s : Conn) : Event → Option Conn
  | .receive msg => if s.reader = .ready then some (receive srv s msg) else none
  | .hangup => if s.reader = .ready then some s.finish else none
  | .drain => if s.reader = .ready ∧ !s.draining then some (observeDrain s) else none
  | .flush => flush s
  | .feed => feed s
  | .write => write s
  | .writeFail => if s.writing then some { s with writing := false } else none
  | .wake i => s.stepTask i fun t =>
      if t.life = .parked ∧ !t.aborted then some { t with life := .running } else none
  -- An abort takes effect where the task gives up its thread, not before.
  | .park i => s.stepTask i fun t =>
      if t.life = .running then some (if t.aborted then t.die else { t with life := .parked })
      else none
  | .reap i => s.stepTask i fun t =>
      if t.life = .parked ∧ t.aborted then some t.die else none
  | .run i act => match s.tasks[i]? with
    | some t =>
        if t.life = .running then
          (runStream srv s t act).map fun (t, queue) =>
            { s with tasks := s.tasks.set i t, queue := queue }
        else none
    | none => none
  | .pull i => s.stepTask i (pull srv)
  | .dropBody i => s.stepTask i fun t =>
      if t.called && t.listening then some { t with listening := false } else none

theorem step_run {srv : Config} {s s' : Conn} {i : Nat} {act : Act}
    (h : step srv s (.run i act) = some s') :
    ∃ t t' queue, s.tasks[i]? = some t ∧ t.life = .running ∧ runStream srv s t act = some (t', queue) ∧
      s' = { s with tasks := s.tasks.set i t', queue := queue } := by
  simp only [step] at h
  split at h
  · rename_i t found
    simp only [Option.ite_none_right_eq_some, Option.map_eq_some_iff] at h
    obtain ⟨running, ⟨t', queue⟩, moved, rfl⟩ := h
    exact ⟨t, t', queue, found, running, moved, rfl⟩
  · cases h

/-- The backend calls a connection has made. -/
def Conn.dispatched (s : Conn) : Nat := s.tasks.countP fun t => t.called

end GrpcWebnext.Ws.RustServer
