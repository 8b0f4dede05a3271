import GrpcWebnext.Ws.RestBinding

/-! Annotated routes without a body: how many requests their one stream sends. -/
namespace GrpcWebnext.Ws
open Framing (Bytes)
open Text (Str)
open HttpRule (Store Dialect)

/-- The request stream of a call: what the backend was sent, and what it will be sent
when it reads on. -/
def Chan.stream (route : Route) (c : Chan) : List Bytes :=
  c.delivered ++ c.requests.filterMap (route.toProto c.json)

/-- A stream that is closed from the start: it sends what its channel was given. -/
structure Sealed (route : Route) (c : Chan) : Prop where
  unfed : c.fed = false
  whole : c.live = true → c.pulled ++ c.requests = route.first c.initial
  part : c.pulled <+: route.first c.initial
  mapped : List.Forall₂ (fun payload message => route.toProto c.json payload = some message)
    c.pulled c.delivered

namespace Sealed
variable {route : Route} {c c' : Chan}

theorem spawn (lacks : route.bodyless = true) (sub : Subscribe) (json : Bool) :
    Sealed route (.spawn route sub json) := by
  refine ⟨?_, fun _ => rfl, List.nil_prefix, .nil⟩
  simp [Chan.spawn, lacks]

theorem turn (inv : Sealed route c) (turn : Turn route none c c') : Sealed route c' := by
  cases turn with
  | halfCloses => exact ⟨rfl, inv.whole, inv.part, inv.mapped⟩
  | aborts keeps => exact ⟨by simp [inv.unfed], inv.whole, inv.part, inv.mapped⟩
  | feeds given => cases given
  | calls => exact ⟨inv.unfed, inv.whole, inv.part, inv.mapped⟩
  | @pulls payload message rest live waiting made =>
      have whole := inv.whole live
      rw [waiting] at whole
      have moved : c.pulled ++ [payload] ++ rest = route.first c.initial := by simpa using whole
      refine ⟨inv.unfed, fun _ => moved, ?_, List.rel_append inv.mapped (.cons made .nil)⟩
      exact moved ▸ List.prefix_append _ _
  | breaks waiting => exact ⟨inv.unfed, fun live => (by cases live), inv.part, inv.mapped⟩
  | stops => exact ⟨inv.unfed, fun live => (by cases live), inv.part, inv.mapped⟩

end Sealed

/-- All streams of a route without a body are closed from the start, so that the read
loop has nothing to hand over. -/
structure AllSealed (route : Route) (s : Intake) : Prop where
  chans : ∀ c ∈ s.chans, Sealed route c
  idle : s.held = none

theorem AllSealed.moves {route : Route} {s s' : Intake} {frame : Option Kind}
    (lacks : route.bodyless = true) (inv : AllSealed route s) (h : Moves route s frame s') :
    AllSealed route s' := by
  constructor
  · intro c inside
    rcases h.chan inside with (member | ⟨before, member, turn⟩) | ⟨sub, json, _, rfl⟩
    · exact inv.chans c member
    · rw [inv.idle] at turn
      exact (inv.chans before member).turn turn
    · exact .spawn lacks sub json
  · cases holds : s'.held with
    | none => rfl
    | some payload =>
        rcases h.held holds with same | ⟨_, c, member, fed⟩
        · rw [inv.idle] at same
          cases same
        · rw [(inv.chans c member).unfed] at fed
          cases fed

theorem AllSealed.run {route : Route} {Conn Event : Type} (m : Server route Conn Event) {json : Option Bool}
    {es : List Event} {s : Conn} (lacks : route.bodyless = true)
    (ran : Machine.run m.step (m.init json) es = some s) : AllSealed route (m.intake s) := by
  refine m.run_moves (fun s s' frame inv moved => AllSealed.moves lacks inv moved) ?_ ran
  exact ⟨fun _ inside => (by cases inside), rfl⟩

/-- The channel of such a stream is given one payload, and the inline one in front of it. -/
theorem first_length {route : Route} (lacks : route.bodyless = true) (initial : Bytes) :
    (route.first initial).length = 1 ↔ initial = [] := by
  by_cases empty : initial = []
  · simp [Route.first, lacks, empty]
  · simp [Route.first, lacks, empty]

section Messages
variable {route : Route} {c : Chan} {message : Bytes}

/-- A mapper that makes the same message of every payload sends it once for each. -/
theorem mapped_eq_replicate {json : Bool} {pulled delivered : List Bytes}
    (mapped : List.Forall₂ (fun payload message => route.toProto json payload = some message)
      pulled delivered)
    (made : ∀ payload, route.toProto json payload = some message) :
    delivered = List.replicate pulled.length message := by
  induction mapped with
  | nil => rfl
  | cons sent rest ih =>
      rw [made, Option.some.injEq] at sent
      rw [List.length_cons, List.replicate_succ, ← sent, ← ih]

theorem Sealed.stream_eq (inv : Sealed route c) (live : c.live = true)
    (made : ∀ payload, route.toProto c.json payload = some message) :
    c.stream route = List.replicate (route.first c.initial).length message := by
  have waiting : c.requests.filterMap (route.toProto c.json) =
      List.replicate c.requests.length message := by
    induction c.requests with
    | nil => rfl
    | cons payload rest ih => rw [List.filterMap_cons_some (made payload), ih]; rfl
  rw [Chan.stream, mapped_eq_replicate inv.mapped made, waiting, List.replicate_append_replicate,
    ← inv.whole live,
    List.length_append]

end Messages

section Route
variable {T Msg : Type} [DecidableEq T] {d : Dialect T} {store : Store T Msg} {ws : WsBinding T}
  {route : Route} {c : Chan}

/-- Without a body the message is built from the URL alone. -/
theorem buildMessage_bodyless (lacks : ws.binding.body = .none) (payload : Bytes) :
    ws.buildMessage d store payload = ws.buildMessage d store [] := by
  simp only [WsBinding.buildMessage, HttpRule.buildMessage, HttpRule.bindMessage, HttpRule.seed, lacks]

theorem toProto_bodyless {json : Bool} {message : Bytes} (lacks : ws.binding.body = .none)
    (annotated : route.ann = some (ws.ann d store))
    (built : ws.buildMessage d store [] = some (.ok message)) (payload : Bytes) :
    route.toProto json payload = some message := by
  have same : ws.buildMessage d store payload = _ := buildMessage_bodyless lacks payload
  simp [Route.toProto, annotated, WsBinding.ann, same, built, Except.toOption]

theorem bodyless_of_lacks (annotated : route.ann = some (ws.ann d store))
    (lacks : ws.binding.body = .none) : route.bodyless = true := by
  simp [Route.bodyless, annotated, WsBinding.ann, lacks]

/-- What a stream that is closed from the start sends: the message of the URL, once if
the open frame carried none of its own. -/
theorem Sealed.one_request (lacks : ws.binding.body = .none)
    (annotated : route.ann = some (ws.ann d store)) (inv : Sealed route c) :
    c.fed = false ∧
      (c.live = true →
        ((∃ message, ws.buildMessage d store [] = some (.ok message) ∧ c.stream route = [message]) ↔
          c.initial = [] ∧ ∃ message, ws.buildMessage d store [] = some (.ok message))) ∧
      (c.initial = [] → ∀ message, ws.buildMessage d store [] = some (.ok message) →
        c.delivered <+: [message]) := by
  have bodyless := bodyless_of_lacks annotated lacks
  refine ⟨inv.unfed, fun live => ⟨?_, ?_⟩, ?_⟩
  · rintro ⟨message, built, one⟩
    have whole := inv.stream_eq live (toProto_bodyless lacks annotated built)
    refine ⟨(first_length bodyless c.initial).mp ?_, message, built⟩
    rw [← List.length_replicate (n := (route.first c.initial).length) (a := message), ← whole, one]
    rfl
  · rintro ⟨none, message, built⟩
    have whole := inv.stream_eq live (toProto_bodyless lacks annotated built)
    refine ⟨message, built, ?_⟩
    rw [whole, (first_length bodyless c.initial).mpr none]
    rfl
  · intro none message built
    rw [mapped_eq_replicate inv.mapped (toProto_bodyless lacks annotated built)]
    have short : c.pulled.length ≤ 1 := by
      rw [← (first_length bodyless c.initial).mpr none]
      exact inv.part.length_le
    rw [show [message] = List.replicate 1 message from rfl]
    exact List.prefix_replicate_iff.mpr ⟨by simpa using short, by simp⟩

end Route

/-- In every run of either server on an annotated route without a body, the request
stream of a call is the one message of the URL if and only if that message can be built
and the open frame carries none inline. It is half-closed from the start either way. -/
theorem one_request_unless_inline (json : Option Bool) :
    (∀ (Msg : Type) (debug : Str → String) (store : Store Str Msg) (ws : WsBinding Str)
        (srv : RustServer.Config) (es : List RustServer.Event) (s : RustServer.Conn),
      srv.ann = some (ws.ann (HttpRule.Rust.dialect debug) store) → ws.binding.body = .none →
      Machine.run (RustServer.step srv) (.init json) es = some s →
      ∀ t ∈ s.tasks, t.chan.fed = false ∧
        (t.chan.live = true →
          ((∃ message, ws.buildMessage (HttpRule.Rust.dialect debug) store [] = some (.ok message) ∧
              t.chan.stream srv.toRoute = [message]) ↔
            t.sub.initialPayload = [] ∧
              ∃ message, ws.buildMessage (HttpRule.Rust.dialect debug) store [] = some (.ok message))) ∧
        (t.sub.initialPayload = [] →
          ∀ message, ws.buildMessage (HttpRule.Rust.dialect debug) store [] = some (.ok message) →
            t.delivered <+: [message])) ∧
    (∀ (Msg : Type) (debug : Bytes → String) (store : Store Bytes Msg) (ws : WsBinding Bytes)
        (srv : GoServer.Config) (es : List GoServer.Event) (s : GoServer.Conn),
      srv.ann = some (ws.ann (HttpRule.Go.dialect debug) store) → ws.binding.body = .none →
      Machine.run (GoServer.step srv) (.init json) es = some s →
      ∀ t ∈ s.tasks, t.chan.fed = false ∧
        (t.chan.live = true →
          ((∃ message, ws.buildMessage (HttpRule.Go.dialect debug) store [] = some (.ok message) ∧
              t.chan.stream srv.toRoute = [message]) ↔
            t.sub.initialPayload = [] ∧
              ∃ message, ws.buildMessage (HttpRule.Go.dialect debug) store [] = some (.ok message))) ∧
        (t.sub.initialPayload = [] →
          ∀ message, ws.buildMessage (HttpRule.Go.dialect debug) store [] = some (.ok message) →
            t.delivered <+: [message])) := by
  constructor
  · intro Msg debug store ws srv es s annotated lacks ran t inside
    have bodyless := bodyless_of_lacks annotated lacks
    have all := AllSealed.run (RustServer.server srv) bodyless ran
    exact (all.chans t.chan (List.mem_map_of_mem inside)).one_request lacks annotated
  · intro Msg debug store ws srv es s annotated lacks ran t inside
    have bodyless := bodyless_of_lacks annotated lacks
    have all := AllSealed.run (GoServer.server srv) bodyless ran
    exact (all.chans t.chan (List.mem_map_of_mem inside)).one_request lacks annotated

/-- `GET /v1/pages/5?token=a` opened with a message inline: both servers send the message
of the URL twice, and the stream ends behind the second. -/
theorem inline_message_is_sent_too :
    (rustPages "token=a").buildMessage (HttpRule.Rust.dialect fun _ => "")
        (HttpRule.pages String.toList Utf8.encode) [] = some (.ok [10, 1, 53, 18, 1, 97]) ∧
      (Machine.run (RustServer.step (rustRest "token=a")) (.init none) rustWatch).map
        (fun s => s.tasks.map fun t => (t.feeding, t.listening, t.requests, t.delivered)) =
        some [(false, true, [], [[10, 1, 53, 18, 1, 97], [10, 1, 53, 18, 1, 97]])] ∧
    (goPages "token=a").buildMessage (HttpRule.Go.dialect fun _ => "") (HttpRule.pages utf8 id) [] =
        some (.ok [10, 1, 53, 18, 1, 97]) ∧
      (Machine.run (GoServer.step (goRest "token=a")) (.init none) goWatch).map
        (fun s => s.tasks.map fun t => (t.halfClosed, t.mapping, t.requests, t.delivered)) =
        some [(true, true, [], [[10, 1, 53, 18, 1, 97], [10, 1, 53, 18, 1, 97]])] := by
  refine ⟨?_, ?_, ?_, ?_⟩
  · rfl
  · rfl
  · rfl
  · rfl

end GrpcWebnext.Ws
