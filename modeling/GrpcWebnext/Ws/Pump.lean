import GrpcWebnext.Backend
import GrpcWebnext.Ws.GoOutbound
import GrpcWebnext.Ws.RustServer

/-! The stream task alone: what it sends for a given backend response, when every send
finds room in the queue. -/
namespace GrpcWebnext.Ws
open Framing (Bytes)

/-- The status a terminal frame carries. -/
def Out.status : Out → Option Nat
  | .frame _ (.trailer code _ _) => some code
  | .frame _ (.reset code _) => some code
  | _ => none

/-- The status the peer is told: that of the first terminal frame. -/
def statusOf (outs : List Out) : Option Nat := outs.findSome? Out.status

@[simp] theorem statusOf_nil : statusOf [] = none := rfl

theorem statusOf_append (outs rest : List Out) :
    statusOf (outs ++ rest) = (statusOf outs).or (statusOf rest) := List.findSome?_append

/-- A message of the response that the transcoder cannot render. -/
def Route.Unrenderable (route : Route) (json : Bool) (messages : List Bytes) : Prop :=
  (route.encodeAll json messages).2.isSome

theorem Route.statusOf_encodeAll (route : Route) (json : Bool) (messages : List Bytes) :
    statusOf (route.encodeAll json messages).1 = none := by
  induction messages with
  | nil => rfl
  | cons message rest ih =>
      simp only [Route.encodeAll]
      split
      · exact ih
      · rfl

theorem Route.encodeAll_append (route : Route) (json : Bool) (first second : List Bytes) :
    route.encodeAll json (first ++ second) =
      match route.encodeAll json first with
      | (outs, none) =>
          (outs ++ (route.encodeAll json second).1, (route.encodeAll json second).2)
      | (outs, some e) => (outs, some e) := by
  induction first with
  | nil => rfl
  | cons message rest ih =>
      simp only [List.cons_append, Route.encodeAll]
      split
      · rw [ih]
        cases route.encodeAll json rest with
        | mk outs failure => cases failure <;> rfl
      · rfl

/-- Proto messages leave as they are. -/
theorem Route.encodeAll_false (route : Route) (messages : List Bytes) :
    route.encodeAll false messages = (messages.map fun m => Out.frame false (.message m), none) := by
  induction messages with
  | nil => rfl
  | cons message rest ih => simp [Route.encodeAll, ih]

theorem Route.encodeAll_proto (route : Route) (messages : List Bytes) :
    (route.encodeAll false messages).2 = none := by
  rw [route.encodeAll_false]

namespace RustServer

/-- A connection with nothing in its queue. -/
def idle : Conn := .init none

/-- The task gets its next `n` pending messages into the queue. -/
def sends (srv : Config) : Nat → Task → Task × List Out
  | 0, t => (t, [])
  | n + 1, t => match runStream srv idle t .send with
    | some (t', queue) => ((sends srv n t').1, queue ++ (sends srv n t').2)
    | none => (t, [])

/-- What the task queues while the acts happen to it; one it does not wait for any more
passes it by. -/
def pump (srv : Config) : Task → List Act → List Out
  | _, [] => []
  | t, act :: acts => match runStream srv idle t act with
    | some (t', _) =>
        (sends srv t'.pending.length t').2 ++
          pump srv (sends srv t'.pending.length t').1 acts
    | none => pump srv t acts

/-- What a backend response brings to the task that awaits it. -/
def actsOf (r : Response Bytes) : List Act :=
  .answered (.ok r.headers) :: (r.chunks.map .data ++ match r.ending with
    | .bare => [.bodyEnd]
    | .trailers block => [.trailers block, .bodyEnd]
    | .failed _ => [.bodyError]
    | .expired => [.expire])

/-- The task of an accepted open frame, once it has called the backend. -/
def waiting (srv : Config) (sub : Subscribe) (json : Bool) : Task :=
  { spawn srv sub json with called := true, point := .awaiting }

/-- The status that `run_stream` reports for the response. -/
def surfaced (srv : Config) (sub : Subscribe) (json : Bool) (r : Response Bytes) : Option Nat :=
  statusOf (pump srv (waiting srv sub json) (actsOf r))

theorem send_idle (srv : Config) {t : Task} {out : Out} {rest : List Out}
    (pending : t.pending = out :: rest) :
    runStream srv idle t .send = some (settle { t with pending := rest }, [out]) := by
  unfold runStream
  rw [pending]
  cases t.point <;> rfl

theorem settle_pending {t : Task} {out : Out} {rest : List Out} (pending : t.pending = out :: rest) :
    settle t = t := by
  unfold settle
  rw [pending]

theorem sends_pending (srv : Config) (outs : List Out) :
    ∀ t : Task, t.pending = outs → (sends srv outs.length t).2 = outs := by
  induction outs with
  | nil =>
      intro t _
      rfl
  | cons out rest ih =>
      intro t pending
      simp only [List.length_cons, sends, send_idle srv pending]
      cases rest with
      | nil => rfl
      | cons next rest =>
          rw [settle_pending rfl, ih _ rfl]
          rfl

theorem sends_reading (srv : Config) (outs : List Out) {headers trailers : HeaderMap} {buf : Bytes} :
    ∀ t : Task, t.pending = outs → t.point = .reading headers trailers buf →
      (sends srv outs.length t).1 = { t with pending := [] } := by
  induction outs with
  | nil =>
      intro t pending _
      cases t
      cases pending
      rfl
  | cons out rest ih =>
      intro t pending point
      have stays : settle { t with pending := rest } = { t with pending := rest } := by
        unfold settle
        simp only [point]
      simp only [List.length_cons, sends, send_idle srv pending, stays]
      exact ih { t with pending := rest } rfl point

theorem statusOf_pump_cons {srv : Config} {t t' : Task} {act : Act} {acts : List Act}
    {queue : List Out} (moved : runStream srv idle t act = some (t', queue)) :
    statusOf (pump srv t (act :: acts)) =
      (statusOf t'.pending).or (statusOf (pump srv (sends srv t'.pending.length t').1 acts)) := by
  simp only [pump, moved, statusOf_append, sends_pending srv t'.pending t' rfl]

/-- The read loop over the body: a message that does not encode ends the RPC, and
otherwise only what the frame parser is left with matters. -/
theorem statusOf_pump_data (srv : Config) (headers trailers : HeaderMap) (acts : List Act) :
    ∀ (chunks : List Bytes) (t : Task) (buf : Bytes), t.pending = [] →
      t.point = .reading headers trailers buf → Framing.nextFrame buf = none →
      statusOf (pump srv t (chunks.map .data ++ acts)) =
        match (srv.encodeAll t.json ((Framing.parse (buf ++ chunks.flatten)).1.map Prod.snd)).2 with
        | some _ => some Code.internal
        | none => statusOf (pump srv
            { t with
              pending := []
              point := .reading headers trailers (Framing.parse (buf ++ chunks.flatten)).2 }
            acts) := by
  intro chunks
  induction chunks with
  | nil =>
      intro t buf none point left
      have whole : Framing.parse buf = ([], buf) := Scan.scan_none left
      simp only [List.map_nil, List.nil_append, List.flatten_nil, List.append_nil, whole,
        Route.encodeAll, ← point, ← none]
  | cons chunk chunks ih =>
      intro t buf none point left
      have parsed : Framing.parse (buf ++ (chunk :: chunks).flatten) =
          ((Framing.parse (buf ++ chunk)).1 ++
              (Framing.parse ((Framing.parse (buf ++ chunk)).2 ++ chunks.flatten)).1,
            (Framing.parse ((Framing.parse (buf ++ chunk)).2 ++ chunks.flatten)).2) := by
        rw [List.flatten_cons, ← List.append_assoc]
        exact Framing.parse_append (buf ++ chunk) chunks.flatten
      have incomplete : Framing.nextFrame (Framing.parse (buf ++ chunk)).2 = .none :=
        Framing.parse_left (buf ++ chunk)
      rw [parsed]
      dsimp only
      rw [List.map_append, Route.encodeAll_append]
      have quiet := srv.statusOf_encodeAll t.json ((Framing.parse (buf ++ chunk)).1.map Prod.snd)
      cases encoded : srv.encodeAll t.json ((Framing.parse (buf ++ chunk)).1.map Prod.snd) with
      | mk outs failure =>
          rw [encoded] at quiet
          cases failure with
          | some e =>
              have moved : runStream srv idle t (.data chunk) = some ({ t with
                  pending := outs ++ [resetFrame t.json Code.internal (utf8 ("json encode: " ++ e))]
                  point := .finishing }, []) := by
                unfold runStream
                rw [none, point]
                dsimp only
                rw [encoded]
                rfl
              rw [List.map_cons, List.cons_append, statusOf_pump_cons moved, statusOf_append, quiet]
              rfl
          | none =>
              have moved : runStream srv idle t (.data chunk) = some ({ t with
                  pending := outs
                  point := .reading headers trailers (Framing.parse (buf ++ chunk)).2 }, []) := by
                unfold runStream
                rw [none, point]
                dsimp only
                rw [encoded]
                rfl
              rw [List.map_cons, List.cons_append, statusOf_pump_cons moved, quiet, Option.none_or,
                sends_reading srv _ _ rfl rfl]
              exact ih { t with
                pending := []
                point := .reading headers trailers (Framing.parse (buf ++ chunk)).2 } _ rfl rfl
                incomplete

theorem surfaced_eq (srv : Config) (sub : Subscribe) (json : Bool) (r : Response Bytes) :
    surfaced srv sub json r =
      match (srv.encodeAll json r.messages).2 with
      | some _ => some Code.internal
      | none => match r.ending with
        | .expired => if sub.timeoutMillis = 0 then none else some Code.deadlineExceeded
        | _ => some (Rust.readStatus r.trailers r.headers).1 := by
  have opened : runStream srv idle (waiting srv sub json) (.answered (.ok r.headers)) =
      some ({ waiting srv sub json with
        pending := [.frame json (.header (Rust.metadataToVec srv.fromBase64 r.headers))]
        point := .reading r.headers [] [] }, []) := rfl
  unfold surfaced actsOf
  rw [statusOf_pump_cons opened, sends_reading srv _ _ rfl rfl]
  have body := statusOf_pump_data srv r.headers []
    (match r.ending with
      | .bare => [.bodyEnd]
      | .trailers block => [.trailers block, .bodyEnd]
      | .failed _ => [.bodyError]
      | .expired => [.expire])
    r.chunks { waiting srv sub json with pending := [], point := .reading r.headers [] [] } [] rfl rfl rfl
  refine body.trans ?_
  rw [List.nil_append]
  change (match (srv.encodeAll json r.messages).2 with
    | some _ => some Code.internal
    | none => _) = _
  cases (srv.encodeAll json r.messages).2 with
  | some e => rfl
  | none =>
      dsimp only
      unfold Response.trailers
      cases r.ending with
      | bare | trailers block | failed reason => rfl
      | expired =>
          by_cases unset : sub.timeoutMillis = 0
          · simp only [pump, runStream, runStream.expired, waiting, spawn, unset, if_true]
            rfl
          · simp only [pump, runStream, runStream.expired, waiting, spawn, unset, if_false]
            rfl

end RustServer

namespace GoServer

def idle : Conn := .init none

def sends (srv : Config) : Nat → Task → Task × List Out
  | 0, t => (t, [])
  | n + 1, t => match runStream srv idle t (.send true) with
    | some (t', queue) => ((sends srv n t').1, queue ++ (sends srv n t').2)
    | none => (t, [])

def pump (srv : Config) : Task → List Act → List Out
  | _, [] => []
  | t, act :: acts => match runStream srv idle t act with
    | some (t', _) =>
        (sends srv t'.pending.length t').2 ++
          pump srv (sends srv t'.pending.length t').1 acts
    | none => pump srv t acts

/-- Whatever ends the reads, `runStream` goes on with the trailers there are. -/
def actsOf (r : Response Bytes) : List Act :=
  .answered r.headers :: (r.chunks.map .data ++
    ((match r.ending with
      | .expired => [.expire]
      | _ => []) ++ [.bodyEnd r.trailers, .gate]))

def waiting (srv : Config) (sub : Subscribe) (json : Bool) : Task :=
  { spawn srv sub json with called := true, point := .awaiting }

def surfaced (srv : Config) (sub : Subscribe) (json : Bool) (r : Response Bytes) : Option Nat :=
  statusOf (pump srv (waiting srv sub json) (actsOf r))

theorem send_idle (srv : Config) {t : Task} {out : Out} {rest : List Out}
    (pending : t.pending = out :: rest) :
    runStream srv idle t (.send true) =
      if srv.encodes out then some (settle { t with pending := rest }, [out])
      else some (sendFailed t out rest, []) := by
  unfold runStream
  rw [pending]
  cases t.point <;> (dsimp only; cases srv.encodes out <;> rfl)

/-- Before the close, messages that marshal leave one after the other. -/
theorem sends_all (srv : Config) (outs : List Out) :
    ∀ t : Task, t.pending = outs → t.point ≠ .closing → outs.all srv.encodes = true →
      sends srv outs.length t = ({ t with pending := [] }, outs) := by
  induction outs with
  | nil =>
      intro t pending _ _
      cases t
      cases pending
      rfl
  | cons out rest ih =>
      intro t pending point encodes
      simp only [List.all_cons, Bool.and_eq_true] at encodes
      have stays : settle { t with pending := rest } = { t with pending := rest } :=
        settle_of_ne point
      simp only [List.length_cons, sends, send_idle srv pending, encodes.1, if_true, stays]
      rw [ih { t with pending := rest } rfl point encodes.2]
      rfl

/-- A Header or Message that does not marshal ends the goroutine. -/
theorem sends_blocked (srv : Config) (outs : List Out) :
    ∀ t : Task, t.pending = outs → t.point ≠ .closing →
      (∀ out ∈ outs, out.isTerminal = false ∧ out.isClose = false) →
      outs.all srv.encodes = false →
      statusOf (sends srv outs.length t).2 = none ∧ (sends srv outs.length t).1.pending = [] ∧
        (sends srv outs.length t).1.point = .done := by
  induction outs with
  | nil =>
      intro t _ _ _ blocked
      cases blocked
  | cons out rest ih =>
      intro t pending point plain blocked
      obtain ⟨terminal, close⟩ := plain out List.mem_cons_self
      have stays : settle { t with pending := rest } = { t with pending := rest } :=
        settle_of_ne point
      have quiet : out.status = none := by
        cases out with
        | frame json kind => cases kind <;> first | rfl | cases terminal
        | openRefused json => rfl
        | close code reason => rfl
      simp only [List.length_cons, sends, send_idle srv pending]
      cases encodes : srv.encodes out with
      | true =>
          simp only [List.all_cons, encodes, Bool.true_and] at blocked
          simp only [if_true, stays]
          obtain ⟨silent, ended⟩ := ih { t with pending := rest } rfl point
            (fun o member => plain o (List.mem_cons_of_mem out member)) blocked
          refine ⟨?_, ended⟩
          rw [statusOf_append, silent, Option.or_none]
          simp only [statusOf, List.findSome?_cons, quiet, List.findSome?_nil]
      | false =>
          have failed : sendFailed t out rest = { t with pending := [], point := .done } := by
            unfold sendFailed
            split
            · cases terminal
            · cases close
            · rfl
          have stays : ∀ n, sends srv n { t with pending := [], point := .done } =
              ({ t with pending := [], point := .done }, []) := by
            intro n
            cases n <;> rfl
          simp only [Bool.false_eq_true, if_false, failed, stays, List.append_nil, statusOf_nil,
            and_self]

theorem encodeAll_plain (route : Route) (json : Bool) (messages : List Bytes) :
    ∀ out ∈ (route.encodeAll json messages).1, out.isTerminal = false ∧ out.isClose = false := by
  induction messages with
  | nil =>
      intro out member
      cases member
  | cons message rest ih =>
      intro out member
      simp only [Route.encodeAll] at member
      split at member
      · rcases List.mem_cons.mp member with rfl | later
        · exact ⟨rfl, rfl⟩
        · exact ih out later
      · cases member

/-- A goroutine that has returned sends nothing more. -/
theorem statusOf_pump_done (srv : Config) (acts : List Act) :
    ∀ t : Task, t.pending = [] → t.point = .done → statusOf (pump srv t acts) = none := by
  induction acts with
  | nil =>
      intro t _ _
      rfl
  | cons act acts ih =>
      intro t pending point
      simp only [pump]
      cases moved : runStream srv idle t act with
      | none => exact ih t pending point
      | some next =>
          obtain ⟨t', queue⟩ := next
          unfold runStream at moved
          rw [pending, point] at moved
          cases act with
          | expire =>
              simp only [Option.ite_none_right_eq_some, Option.some.injEq, Prod.mk.injEq] at moved
              obtain ⟨_, rfl, rfl⟩ := moved
              simp only [List.length_nil, sends, List.nil_append]
              exact ih { t with timedOut := true, pending := [], point := .done } rfl rfl
          | checked failure => cases failure <;> cases moved
          | _ => cases moved

theorem pump_deaf {srv : Config} {t : Task} {act : Act} (acts : List Act)
    (deaf : runStream srv idle t act = none) : pump srv t (act :: acts) = pump srv t acts := by
  simp only [pump, deaf]

/-- A goroutine on its way out reads no more of the body. -/
theorem pump_ending (srv : Config) (acts : List Act) (chunks : List Bytes) {t : Task}
    {outs : List Out} (pending : t.pending = []) (point : t.point = .ending outs) :
    pump srv t (chunks.map .data ++ acts) = pump srv t acts := by
  induction chunks with
  | nil => rfl
  | cons chunk chunks ih =>
      have deaf : runStream srv idle t (.data chunk) = none := by
        unfold runStream
        rw [pending, point]
      rw [List.map_cons, List.cons_append, pump_deaf _ deaf, ih]

/-- The point behind the chunks: still reading, or on the way out with a Reset. -/
def readOn (t : Task) (headers : HeaderMap) (left : Bytes) : Option String → Task
  | none => { t with pending := [], point := .reading headers left }
  | some e => { t with
      pending := []
      point := .ending
        [resetFrame t.json Code.internal (utf8 ("json encode: " ++ e)), closeNormal] }

theorem statusOf_pump_cons {srv : Config} {t t' : Task} {act : Act} {acts : List Act}
    {queue : List Out} (moved : runStream srv idle t act = some (t', queue))
    (open_ : t'.point ≠ .closing)
    (plain : ∀ out ∈ t'.pending, out.isTerminal = false ∧ out.isClose = false) :
    statusOf (pump srv t (act :: acts)) =
      if t'.pending.all srv.encodes then statusOf (pump srv { t' with pending := [] } acts)
      else none := by
  have quiet : statusOf t'.pending = none := by
    refine List.findSome?_eq_none_iff.mpr fun out member => ?_
    obtain ⟨terminal, _⟩ := plain out member
    cases out with
    | frame json kind => cases kind <;> first | rfl | cases terminal
    | openRefused json => rfl
    | close code reason => rfl
  simp only [pump, moved, statusOf_append]
  cases encodes : t'.pending.all srv.encodes with
  | true =>
      rw [sends_all srv t'.pending t' rfl open_ encodes, quiet]
      rfl
  | false =>
      obtain ⟨silent, pending, point⟩ := sends_blocked srv t'.pending t' rfl open_ plain encodes
      rw [silent, statusOf_pump_done srv acts _ pending point]
      rfl

theorem statusOf_pump_data (srv : Config) (headers : HeaderMap) (acts : List Act) :
    ∀ (chunks : List Bytes) (t : Task) (buf : Bytes), t.pending = [] →
      t.point = .reading headers buf → Framing.nextFrame buf = none →
      statusOf (pump srv t (chunks.map .data ++ acts)) =
        if (srv.encodeAll t.json ((Framing.parse (buf ++ chunks.flatten)).1.map Prod.snd)).1.all
            srv.encodes then
          statusOf (pump srv (readOn t headers (Framing.parse (buf ++ chunks.flatten)).2
            (srv.encodeAll t.json ((Framing.parse (buf ++ chunks.flatten)).1.map Prod.snd)).2) acts)
        else none := by
  intro chunks
  induction chunks with
  | nil =>
      intro t buf none point left
      have whole : Framing.parse buf = ([], buf) := Scan.scan_none left
      have same : readOn t headers buf .none = t := by
        rw [readOn, ← point, ← none]
      simp only [List.map_nil, List.nil_append, List.flatten_nil, List.append_nil, whole,
        Route.encodeAll, List.all_nil, if_true, same]
  | cons chunk chunks ih =>
      intro t buf none point left
      have parsed : Framing.parse (buf ++ (chunk :: chunks).flatten) =
          ((Framing.parse (buf ++ chunk)).1 ++
              (Framing.parse ((Framing.parse (buf ++ chunk)).2 ++ chunks.flatten)).1,
            (Framing.parse ((Framing.parse (buf ++ chunk)).2 ++ chunks.flatten)).2) := by
        rw [List.flatten_cons, ← List.append_assoc]
        exact Framing.parse_append (buf ++ chunk) chunks.flatten
      have incomplete : Framing.nextFrame (Framing.parse (buf ++ chunk)).2 = .none :=
        Framing.parse_left (buf ++ chunk)
      have plain := encodeAll_plain srv.toRoute t.json
        ((Framing.parse (buf ++ chunk)).1.map Prod.snd)
      rw [parsed]
      dsimp only
      rw [List.map_append, Route.encodeAll_append]
      cases encoded : srv.encodeAll t.json ((Framing.parse (buf ++ chunk)).1.map Prod.snd) with
      | mk outs failure =>
          rw [encoded] at plain
          have moved : runStream srv idle t (.data chunk) = some ({ readOn t headers
              (Framing.parse (buf ++ chunk)).2 failure with pending := outs }, []) := by
            unfold runStream
            rw [none, point]
            dsimp only
            rw [encoded]
            cases failure <;> rfl
          have open_ : (readOn t headers (Framing.parse (buf ++ chunk)).2 failure).point ≠ .closing := by
            cases failure <;> exact Point.noConfusion
          rw [List.map_cons, List.cons_append, statusOf_pump_cons moved open_ plain]
          cases failure with
          | some e =>
              dsimp only
              split
              · exact congrArg statusOf (pump_ending srv acts chunks rfl rfl)
              · rfl
          | none =>
              dsimp only
              rw [List.all_append]
              cases outs.all srv.encodes with
              | false => rfl
              | true =>
                  exact ih { t with
                    pending := []
                    point := .reading headers (Framing.parse (buf ++ chunk)).2 } _ rfl rfl incomplete

/-- A terminal frame and the Close behind it: the frame is what counts, if it marshals. -/
theorem statusOf_gate (srv : Config) {t : Task} {out : Out} (pending : t.pending = [])
    (point : t.point = .ending [out, closeNormal]) (live : t.aborted = false)
    (terminal : out.isTerminal = true) :
    statusOf (pump srv t [.gate]) = if srv.encodes out then out.status else none := by
  have moved : runStream srv idle t .gate =
      some ({ t with pending := [out, closeNormal], point := .closing }, []) := by
    unfold runStream
    rw [pending, point]
    simp only [live, Bool.false_eq_true, if_false]
    rfl
  simp only [pump, moved, List.append_nil, List.length_cons, List.length_nil, sends]
  rw [send_idle srv rfl]
  cases encodes : srv.encodes out with
  | true =>
      have waits : settle { t with pending := [closeNormal], point := .closing } =
          { t with pending := [closeNormal], point := .closing } := rfl
      simp only [if_true, waits]
      rw [send_idle srv rfl]
      cases out with
      | frame json kind => cases kind <;> rfl
      | openRefused json => cases terminal
      | close code reason => cases terminal
  | false =>
      simp only [Bool.false_eq_true, if_false]
      cases out with
      | frame json kind => cases kind <;> rfl
      | openRefused json => cases terminal
      | close code reason => cases terminal

/-- The Trailer of a response, or of the deadline that ends it. -/
def trailerOf (srv : Config) (sub : Subscribe) (r : Response Bytes) : Kind :=
  if r.ending = .expired ∧ sub.timeoutMillis ≠ 0 then
    .trailer Code.deadlineExceeded (utf8 "deadline exceeded") []
  else .trailer (Go.readStatus r.trailers r.headers).1 (Go.readStatus r.trailers r.headers).2
    (Go.headersToMetadataList srv.fromBase64 r.trailers)

/-- The Header and the Messages of the response can be put on the wire. -/
def Delivers (srv : Config) (json : Bool) (r : Response Bytes) : Prop :=
  srv.encodes (.frame json (.header (Go.headersToMetadataList srv.fromBase64 r.headers))) = true ∧
    (srv.encodeAll json r.messages).1.all srv.encodes = true

instance (srv : Config) (json : Bool) (r : Response Bytes) : Decidable (Delivers srv json r) :=
  inferInstanceAs (Decidable (_ ∧ _))

/-- The timer acts on any point of the goroutine. -/
theorem pump_timer (srv : Config) (ending : GrpcWebnext.Ending Bytes) (acts : List Act) {t : Task}
    (pending : t.pending = []) (called : t.called = true) (early : t.timedOut = false) :
    pump srv t ((match ending with
        | .expired => [.expire]
        | _ => []) ++ acts) =
      pump srv { t with timedOut := decide (ending = .expired ∧ t.sub.timeoutMillis ≠ 0) } acts := by
  have still : { t with timedOut := false } = t := by rw [← early]
  cases ending with
  | bare | trailers block | failed reason =>
      simp only [reduceCtorEq, false_and, decide_false, still, List.nil_append]
  | expired =>
      have fires : runStream srv idle t .expire =
          if t.called ∧ t.sub.timeoutMillis ≠ 0 then some ({ t with timedOut := true }, []) else none := by
        unfold runStream
        rfl
      by_cases unset : t.sub.timeoutMillis = 0
      · simp only [List.cons_append, List.nil_append, pump, fires, unset, ne_eq, not_true_eq_false,
          and_false, if_false, decide_false, still]
      · simp only [List.cons_append, List.nil_append, pump, fires, unset, called, ne_eq,
          not_false_eq_true, and_self, if_true, decide_true, pending, List.length_nil, sends]

theorem surfaced_eq (srv : Config) (sub : Subscribe) (json : Bool) (r : Response Bytes) :
    surfaced srv sub json r =
      if Delivers srv json r then
        match (srv.encodeAll json r.messages).2 with
        | some _ => some Code.internal
        | none =>
            if srv.encodes (.frame json (trailerOf srv sub r)) then
              (Out.frame json (trailerOf srv sub r)).status
            else none
      else none := by
  have opened : runStream srv idle (waiting srv sub json) (.answered r.headers) =
      some ({ waiting srv sub json with
        pending := [.frame json (.header (Go.headersToMetadataList srv.fromBase64 r.headers))]
        point := .reading r.headers [] }, []) := rfl
  have body := statusOf_pump_data srv r.headers
    ((match r.ending with
      | .expired => [.expire]
      | _ => []) ++ [.bodyEnd r.trailers, .gate])
    r.chunks { waiting srv sub json with pending := [], point := .reading r.headers [] } [] rfl rfl rfl
  rw [List.nil_append] at body
  unfold surfaced actsOf
  rw [statusOf_pump_cons opened Point.noConfusion (by simp [Out.isTerminal, Out.isClose])]
  simp only [List.all_cons, List.all_nil, Bool.and_true]
  refine (if_congr Iff.rfl body rfl).trans ?_
  change (if _ then if (srv.encodeAll json r.messages).1.all srv.encodes then
    statusOf (pump srv (readOn _ r.headers _ (srv.encodeAll json r.messages).2) _) else none
    else none) = _
  rw [← ite_and]
  change (if Delivers srv json r then _ else none) = _
  congr 1
  cases rendered : (srv.encodeAll json r.messages).2 with
  | some e =>
      have text : json = true := by
        cases json with
        | true => rfl
        | false =>
            rw [srv.encodeAll_proto] at rendered
            cases rendered
      subst text
      rw [pump_timer srv r.ending _ rfl rfl rfl, pump_deaf _ rfl,
        statusOf_gate srv rfl rfl rfl rfl]
      rfl
  | none =>
      rw [pump_timer srv r.ending _ rfl rfl rfl]
      have ended : ∀ t : Task, t.pending = [] → t.aborted = false → t.json = json →
          t.point = .reading r.headers (Framing.parse r.chunks.flatten).2 →
          t.timedOut = decide (r.ending = .expired ∧ sub.timeoutMillis ≠ 0) →
          statusOf (pump srv t [.bodyEnd r.trailers, .gate]) =
            if srv.encodes (.frame json (trailerOf srv sub r)) then
              (Out.frame json (trailerOf srv sub r)).status
            else .none := by
        rintro t pending live rfl point timedOut
        have moved : runStream srv idle t (.bodyEnd r.trailers) =
            some (t.goTo (.ending [.frame t.json (trailerOf srv sub r), closeNormal]), []) := by
          unfold runStream
          rw [pending, point]
          simp only [finishPump, trailerOf, timedOut, decide_eq_true_eq]
          rfl
        have terminal : (Out.frame t.json (trailerOf srv sub r)).isTerminal = true := by
          unfold trailerOf
          split <;> rfl
        have quiet : (t.goTo (.ending [.frame t.json (trailerOf srv sub r), closeNormal])).pending = [] :=
          pending
        rw [statusOf_pump_cons moved Point.noConfusion (by simp [quiet]), quiet]
        exact statusOf_gate srv rfl rfl live terminal
      exact ended _ rfl rfl rfl rfl rfl

end GoServer
end GrpcWebnext.Ws
