import GrpcWebnext.HttpRule.PathVariables
import GrpcWebnext.Ws.GoCodec
import GrpcWebnext.Ws.Requests
import GrpcWebnext.Ws.RustCodec

/-! REST over WebSocket: the messages of an annotated route are built by the binder of
the Fetch path, from the same binding, captures and query. -/
namespace GrpcWebnext.Ws
open Framing (Bytes)
open Text (Str)
open HttpRule (Store Dialect)

/-- A route resolved from an annotation URL. -/
structure WsBinding (T : Type) where
  binding : HttpRule.Binding T
  vars : List (List T × T)
  query : Option T
  responseBody : Str

section
variable {T Msg : Type} [DecidableEq T] (d : Dialect T) (store : Store T Msg) (ws : WsBinding T)

def WsBinding.buildMessage (body : Bytes) : Option (Except String Bytes) :=
  HttpRule.buildMessage d store ws.binding ws.vars ws.query body

def WsBinding.ann : Rule where
  hasBody := ws.binding.body ≠ .none
  buildMessage := ws.buildMessage d store
  responseBody := ws.responseBody

/-- What the backend gets for a payload: the message the binder builds, or the default
message where the binder reports an error. -/
def WsBinding.Dispatches (payload message : Bytes) : Prop :=
  ws.buildMessage d store payload = some (.ok message) ∨
    ∃ e, ws.buildMessage d store payload = some (.error e) ∧ message = []

/-- The message the binder builds from a payload, none where it fails. -/
def WsBinding.built (payload : Bytes) : Option Bytes :=
  match ws.buildMessage d store payload with
  | some (.ok message) => some message
  | _ => none

/-- The binding of the Fetch path: the backend gets what is built from the payloads taken,
in their order, and nothing for a payload the binder fails on. -/
def WsBinding.BuildsAs (pulled delivered : List Bytes) : Prop :=
  delivered = pulled.filterMap (ws.built d store)

/-- The binder has no complaint about a payload on this URL. -/
def WsBinding.Binds (payload : Bytes) : Prop :=
  ∀ e, ws.buildMessage d store payload ≠ some (.error e)

variable {d store ws}

theorem built_of_dispatches {payload message : Bytes}
    (sent : ws.Dispatches d store payload message) (binds : ws.Binds d store payload) :
    ws.built d store payload = some message := by
  rcases sent with done | ⟨e, failed, -⟩
  · simp only [WsBinding.built, done]
  · exact (binds e failed).elim

theorem binds_of_built {payload : Bytes} (some : (ws.built d store payload).isSome) :
    ws.Binds d store payload := by
  intro e failed
  simp [WsBinding.built, failed] at some

theorem buildsAs_of_binds {pulled delivered : List Bytes}
    (sent : List.Forall₂ (ws.Dispatches d store) pulled delivered)
    (binds : ∀ payload ∈ pulled, ws.Binds d store payload) :
    ws.BuildsAs d store pulled delivered := by
  unfold WsBinding.BuildsAs
  induction sent with
  | nil => rfl
  | @cons payload message pulled delivered first _ ih =>
      have made := built_of_dispatches first (binds payload (List.mem_cons_self ..))
      have rest := ih fun p inside => binds p (List.mem_cons_of_mem _ inside)
      rw [List.filterMap_cons_some made, ← rest]

/-- The backend gets one message a payload, so a payload that fails is one too many. -/
theorem buildsAs_iff_binds {pulled delivered : List Bytes}
    (sent : List.Forall₂ (ws.Dispatches d store) pulled delivered) :
    ws.BuildsAs d store pulled delivered ↔ ∀ payload ∈ pulled, ws.Binds d store payload := by
  constructor
  · intro whole payload inside
    have all : (pulled.filterMap (ws.built d store)).length = pulled.length := by
      rw [← whole, sent.length_eq]
    exact binds_of_built (List.filterMap_length_eq_length.mp all payload inside)
  · exact buildsAs_of_binds sent

theorem toProto_dispatches {route : Route} {json : Bool} {payload message : Bytes}
    (annotated : route.ann = some (ws.ann d store))
    (made : route.toProto json payload = some message) : ws.Dispatches d store payload message := by
  simp only [Route.toProto, annotated, Option.map_eq_some_iff] at made
  obtain ⟨built, done, rfl⟩ := made
  cases built with
  | ok message => exact .inl done
  | error e => exact .inr ⟨e, done, rfl⟩

theorem bodyless_annotated {route : Route}
    (annotated : route.ann = some (ws.ann d store)) (lacks : route.bodyless = true) :
    ws.binding.body = .none := by
  simpa [Route.bodyless, annotated, WsBinding.ann] using lacks

theorem served_dispatches {route : Route} {origin : Bytes → Prop} {json : Bool}
    {requests pulled delivered : List Bytes}
    (annotated : route.ann = some (ws.ann d store))
    (served : Served route origin json requests pulled delivered) :
    List.Forall₂ (ws.Dispatches d store) pulled delivered ∧ ∀ payload ∈ pulled, origin payload := by
  constructor
  · exact served.mapped.imp fun payload message made => toProto_dispatches annotated made
  · intro payload inside
    exact served.known payload (List.mem_append_left _ inside)

end

/-- In every run on an annotated route, what a stream pulled came in a frame or is the
empty payload of a route without a body, and was mapped by the binder. -/
theorem Server.annotated_served {T Msg Conn Event : Type} [DecidableEq T] {d : Dialect T}
    {store : Store T Msg} {ws : WsBinding T} {route : Route} (m : Server route Conn Event)
    {json : Option Bool} {es : List Event} {s : Conn}
    (annotated : route.ann = some (ws.ann d store))
    (ran : Machine.run m.step (m.init json) es = some s) {c : Chan} (inside : c ∈ (m.intake s).chans) :
    List.Forall₂ (ws.Dispatches d store) c.pulled c.delivered ∧
      ∀ payload ∈ c.pulled, (ws.binding.body = .none ∧ payload = []) ∨
        ∃ e ∈ es, ∃ msg, m.received e = some msg ∧ msg.carried = some payload := by
  have honest : Honest route (fun payload => (ws.binding.body = .none ∧ payload = []) ∨
      ∃ e ∈ es, ∃ msg, m.received e = some msg ∧ msg.carried = some payload) (m.intake s) := by
    refine Machine.run_invariant_mem (I := fun s => Honest route _ (m.intake s))
      (fun s e s' member inv moved => ?_) ?_ ran
    · refine inv.moves (fun lacks => .inl ⟨bodyless_annotated annotated lacks, rfl⟩) ?_ ?_
        (m.step_moves moved)
      · intro sub handled inline
        obtain ⟨msg, codec, json, received, decoded⟩ := handles_some handled
        exact .inr ⟨e, member, msg, received, carried_of_subscribe decoded inline⟩
      · intro payload handled
        obtain ⟨msg, codec, json, received, decoded⟩ := handles_some handled
        exact .inr ⟨e, member, msg, received, carried_of_message decoded⟩
    · rw [m.init_intake]
      exact ⟨fun _ inside => (by cases inside), fun _ held => (by cases held)⟩
  exact served_dispatches annotated (honest.chans c inside)

/-- In every run of either server on an annotated route, a stream's backend is sent the
messages the binder of the Fetch path builds, and nothing else, exactly when the binder
reports no error on any payload the stream took. -/
theorem annotated_requests_are_built_iff (json : Option Bool) :
    (∀ (Msg : Type) (debug : Str → String) (store : Store Str Msg) (ws : WsBinding Str)
        (srv : RustServer.Config) (es : List RustServer.Event)
        (s : RustServer.Conn),
      srv.ann = some (ws.ann (HttpRule.Rust.dialect debug) store) →
      Machine.run (RustServer.step srv) (.init json) es = some s →
      ∀ t ∈ s.tasks,
        (ws.BuildsAs (HttpRule.Rust.dialect debug) store t.pulled t.delivered ↔
          ∀ payload ∈ t.pulled, ws.Binds (HttpRule.Rust.dialect debug) store payload) ∧
        ∀ payload ∈ t.pulled, (ws.binding.body = .none ∧ payload = []) ∨
          ∃ msg, .receive msg ∈ es ∧ msg.carried = some payload) ∧
    (∀ (Msg : Type) (debug : Bytes → String) (store : Store Bytes Msg) (ws : WsBinding Bytes)
        (srv : GoServer.Config) (es : List GoServer.Event)
        (s : GoServer.Conn),
      srv.ann = some (ws.ann (HttpRule.Go.dialect debug) store) →
      Machine.run (GoServer.step srv) (.init json) es = some s →
      ∀ t ∈ s.tasks,
        (ws.BuildsAs (HttpRule.Go.dialect debug) store t.pulled t.delivered ↔
          ∀ payload ∈ t.pulled, ws.Binds (HttpRule.Go.dialect debug) store payload) ∧
        ∀ payload ∈ t.pulled, (ws.binding.body = .none ∧ payload = []) ∨
          ∃ msg, .receive msg ∈ es ∧ msg.carried = some payload) := by
  constructor
  · intro Msg debug store ws srv es s annotated ran t inside
    obtain ⟨sent, known⟩ := (RustServer.server srv).annotated_served annotated ran
      (List.mem_map_of_mem (f := RustServer.Task.chan) inside)
    refine ⟨buildsAs_iff_binds sent, fun payload pulled => (known payload pulled).imp id ?_⟩
    rintro ⟨e, member, msg, received, carried⟩
    cases RustServer.received_eq received
    exact ⟨msg, member, carried⟩
  · intro Msg debug store ws srv es s annotated ran t inside
    obtain ⟨sent, known⟩ := (GoServer.server srv).annotated_served annotated ran
      (List.mem_map_of_mem (f := GoServer.Task.chan) inside)
    refine ⟨buildsAs_iff_binds sent, fun payload pulled => (known payload pulled).imp id ?_⟩
    rintro ⟨e, member, msg, received, carried⟩
    cases GoServer.received_eq received
    exact ⟨msg, member, carried⟩

/-- A server-streaming route `GET /v1/pages/{user_id}` opened with the query, in Rust. -/
def rustPages (query : String) : WsBinding Str :=
  ⟨⟨.none, "Page".toList⟩, [(["user_id".toList], "5".toList)], some query.toList, []⟩

def goPages (query : String) : WsBinding Bytes :=
  ⟨⟨.none, utf8 "Page"⟩, [([utf8 "user_id"], utf8 "5")], some (utf8 query), []⟩

def annotatedRoute (rule : Rule) : Route where
  maxMessageBytes := 4
  methodUrl := "/p.Pages/Watch".toList
  ann := some rule
  requestJsonToProto := .ok
  responseProtoToJsonBody := fun message _ => .ok message
  fromBase64 := some

def rustRest (query : String) : RustServer.Config :=
  { annotatedRoute ((rustPages query).ann (HttpRule.Rust.dialect fun _ => "")
      (HttpRule.pages String.toList Utf8.encode)) with methodParses := true }

def goRest (query : String) : GoServer.Config :=
  { annotatedRoute ((goPages query).ann (HttpRule.Go.dialect fun _ => "")
      (HttpRule.pages utf8 id)) with marshals := fun _ => true }

/-- The open frame of the runs below, with a JSON value inline. -/
def inlineOpen : Inbound := .text (some ⟨[], none, some (utf8 "1"), none, none⟩)

def rustWatch : List RustServer.Event :=
  [.receive inlineOpen, .wake 0, .run 0 (.resolved (.ok ())), .run 0 .call, .pull 0, .pull 0]

def goWatch : List GoServer.Event :=
  [.receive inlineOpen, .run 0 (.checked none), .run 0 .dispatch, .pull 0, .pull 0]

/-- With a query that binds, both payloads of the run become the message of the URL. -/
theorem watched_pages_are_built :
    (∀ s, Machine.run (RustServer.step (rustRest "token=a")) (.init none) rustWatch = some s →
      ∀ t ∈ s.tasks, (rustPages "token=a").BuildsAs (HttpRule.Rust.dialect fun _ => "")
        (HttpRule.pages String.toList Utf8.encode) t.pulled t.delivered ↔
        ∀ payload ∈ t.pulled, (rustPages "token=a").Binds (HttpRule.Rust.dialect fun _ => "")
          (HttpRule.pages String.toList Utf8.encode) payload) ∧
    (∀ s, Machine.run (GoServer.step (goRest "token=a")) (.init none) goWatch = some s →
      ∀ t ∈ s.tasks, (goPages "token=a").BuildsAs (HttpRule.Go.dialect fun _ => "")
        (HttpRule.pages utf8 id) t.pulled t.delivered ↔
        ∀ payload ∈ t.pulled, (goPages "token=a").Binds (HttpRule.Go.dialect fun _ => "")
          (HttpRule.pages utf8 id) payload) ∧
    (Machine.run (RustServer.step (rustRest "token=a")) (.init none) rustWatch).map
        (fun s => s.tasks.map RustServer.Task.delivered) =
      some [[[10, 1, 53, 18, 1, 97], [10, 1, 53, 18, 1, 97]]] ∧
    (Machine.run (GoServer.step (goRest "token=a")) (.init none) goWatch).map
        (fun s => s.tasks.map GoServer.Task.delivered) =
      some [[[10, 1, 53, 18, 1, 97], [10, 1, 53, 18, 1, 97]]] := by
  refine ⟨?_, ?_, by decide, by decide⟩
  · intro s ran t inside
    exact ((annotated_requests_are_built_iff none).1 _ _ _ _ _ _ _ rfl ran t inside).1
  · intro s ran t inside
    exact ((annotated_requests_are_built_iff none).2 _ _ _ _ _ _ _ rfl ran t inside).1

/-- With a query that names no field the binder fails, and the backend is sent the empty
message all the same, for the inline payload and for the URL. -/
theorem unbound_pages_are_sent_empty :
    (rustPages "nope=1").buildMessage (HttpRule.Rust.dialect fun _ => "")
        (HttpRule.pages String.toList Utf8.encode) (utf8 "1") = some (.error "unknown field: nope") ∧
      (Machine.run (RustServer.step (rustRest "nope=1")) (.init none) rustWatch).map
        (fun s => s.tasks.map fun t => (t.pulled, t.delivered)) =
        some [([utf8 "1", []], [[], []])] ∧
      ¬ (rustPages "nope=1").BuildsAs (HttpRule.Rust.dialect fun _ => "")
        (HttpRule.pages String.toList Utf8.encode) [utf8 "1", []] [[], []] ∧
    (goPages "nope=1").buildMessage (HttpRule.Go.dialect fun _ => "") (HttpRule.pages utf8 id)
        (utf8 "1") = some (.error "unknown field: nope") ∧
      (Machine.run (GoServer.step (goRest "nope=1")) (.init none) goWatch).map
        (fun s => s.tasks.map fun t => (t.pulled, t.delivered)) =
        some [([utf8 "1", []], [[], []])] ∧
      ¬ (goPages "nope=1").BuildsAs (HttpRule.Go.dialect fun _ => "") (HttpRule.pages utf8 id)
        [utf8 "1", []] [[], []] := by
  refine ⟨rfl, by decide, ?_, rfl, by decide, ?_⟩
  · unfold WsBinding.BuildsAs
    decide
  · unfold WsBinding.BuildsAs
    decide

end GrpcWebnext.Ws
