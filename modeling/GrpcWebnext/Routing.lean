import GrpcWebnext.HttpRule.Router

/-! Which handler an inbound request comes to: `handle` of `fetch.rs` and `ServeHTTP` of
`server.go`, both with the WebSocket handshake. A request body has been read. -/
namespace GrpcWebnext.Routing
open Framing (Bytes)
open Text (Str)
open HttpRule (DescriptorSet Entry Outcome)

/-- An upgrade request has the subprotocols it offers. -/
structure Request (A : Type) where
  method : List A
  path : List A
  query : Option (List A)
  upgrade : Option (List (List A))
  contentType : List A

/-- The request target. -/
def Request.uri {A : Type} (mark : A) (req : Request A) : List A :=
  match req.query with
  | none => req.path
  | some query => req.path ++ mark :: query

/-- A binding that was found, with its captures and the query. -/
structure WsBinding (A Seg : Type) where
  binding : Entry A Seg
  vars : List (List (List A) × List A)
  query : Option (List A)

inductive Dispatch (A Seg : Type) where
  | panic
  | adminReload
  | tunnel
  | passthrough
  | unsupportedMediaType (message : List A)
  | status (contentType : List A) (code : Nat) (message : List A)
  | unaryProto (uri : List A)
  | unaryJson (uri : List A) (contentType : List A)
  | rest (binding : WsBinding A Seg)
  | closed (code : Nat) (message : List A)
  | socket (codec : Option Bool) (method : List A) (ann : Option (WsBinding A Seg))

section Texts
variable {A : Type} (word : String → List A)

def ctProto : List A := word "application/grpc-webnext+proto"

def ctJson : List A := word "application/grpc-webnext+json"

def ctGrpc : List A := word "application/grpc"

def wsSubprotocolProto : List A := word "grpc-webnext+proto"

def wsSubprotocolJson : List A := word "grpc-webnext+json"

def h2tsSubprotocol : List A := word "h2ts"

def plainJson : List A := word "application/json"

def jsonOnly : List A :=
  word "REST-annotated endpoints are JSON-only; use application/json or application/grpc-webnext+json"

def restSocketJson : List A := word
  "REST WebSocket routes are JSON: use a blank, application/json, or grpc-webnext+json subprotocol"

def needsSubprotocol : List A :=
  word "this websocket requires a grpc-webnext+proto or grpc-webnext+json subprotocol"

variable [DecidableEq A]

/-- The codec of the first subprotocol that names one, and whether it is one of ours. -/
def codecOffered (offered : List (List A)) : Option Bool × Bool :=
  if wsSubprotocolProto word ∈ offered then (some false, true)
  else if wsSubprotocolJson word ∈ offered then (some true, true)
  else if plainJson word ∈ offered then (some true, false)
  else (none, false)

end Texts

namespace Rust

structure Config where
  adminReloadPath : Option Str
  allowImplicitCodec : Bool

/-- `transcoder_any`: without a transcoder there is a status instead. -/
abbrev Schema := Except (Nat × Str) DescriptorSet

def Schema.matchWs (schema : Schema) (path : Str) :
    Outcome (Entry Char HttpRule.Segment × List HttpRule.PathVar) :=
  match schema with
  | .ok set => HttpRule.Rust.matchWs (HttpRule.Rust.fromPool set) path
  | .error _ => .miss

section
variable (cfg : Config) (schema : Schema) (req : Request Char)

def handleWsUpgrade (offered : List Str) : Dispatch Char HttpRule.Segment :=
  if h2tsSubprotocol String.toList ∈ offered then .tunnel
  else
    let (codec, explicit) := codecOffered String.toList offered
    match schema.matchWs req.path with
    | .panic => .panic
    | .hit (entry, vars) =>
        if codec = some false then .closed Code.failedPrecondition (restSocketJson String.toList)
        else .socket (some true) entry.grpcMethod (some ⟨entry, vars, req.query⟩)
    | .miss =>
        if explicit ∨ cfg.allowImplicitCodec then .socket codec req.path none
        else .closed Code.unimplemented (needsSubprotocol String.toList)

def jsonFetch (sdkJson : Bool) : Dispatch Char HttpRule.Segment :=
  match schema with
  | .error (code, message) => .status (ctJson String.toList) code message
  | .ok set =>
      let respCt := if sdkJson then ctJson String.toList else plainJson String.toList
      match HttpRule.Rust.matchRequest (HttpRule.Rust.fromPool set) req.method req.path with
      | .panic => .panic
      | .hit (entry, vars) => .rest ⟨entry, vars, req.query⟩
      | .miss =>
          if sdkJson = false ∧ cfg.allowImplicitCodec = false then
            .unsupportedMediaType
              ("this gRPC method path requires content-type application/grpc-webnext+json " ++
              "(or set allow_implicit_codec to accept plain JSON here)").toList
          else if HttpRule.Rust.hasMethod set req.path = false then
            .status respCt Code.unimplemented ("no such method: ".toList ++ req.path)
          else .unaryJson (req.uri '?') respCt

def handle : Dispatch Char HttpRule.Segment :=
  if cfg.adminReloadPath = some req.path then .adminReload
  else match req.upgrade with
    | some offered => handleWsUpgrade cfg schema req offered
    | none =>
        if req.contentType = ctProto String.toList then
          match schema.matchWs req.path with
          | .panic => .panic
          | .hit _ => .unsupportedMediaType (jsonOnly String.toList)
          | .miss => .unaryProto (req.uri '?')
        else if req.contentType = ctJson String.toList then jsonFetch cfg schema req true
        else if ctGrpc String.toList <+: req.contentType then .passthrough
        else if req.contentType = plainJson String.toList ∨ req.contentType = [] then
          jsonFetch cfg schema req false
        else .unsupportedMediaType ("unsupported content-type: ".toList ++ req.contentType)

end

end Rust

namespace Go

/-- The configuration, with the upper-casing of `strings.ToUpper`. -/
structure Config where
  allowImplicitCodec : Bool
  toUpper : Bytes → Bytes

section
variable (cfg : Config) (transcoder : Option DescriptorSet) (req : Request UInt8)

def matchWS : Option (Entry UInt8 HttpRule.Go.Segment × List HttpRule.Go.PathVar) :=
  transcoder.bind fun set => HttpRule.Go.matchWS (HttpRule.Go.newHTTPRouter cfg.toUpper set) req.path

def handleUpgrade (offered : List Bytes) : Dispatch UInt8 HttpRule.Go.Segment :=
  if h2tsSubprotocol utf8 ∈ offered then .tunnel
  else
    let (codec, explicit) := codecOffered utf8 offered
    match matchWS cfg transcoder req with
    | some (entry, vars) =>
        if codec = some false then .closed Code.failedPrecondition (restSocketJson utf8)
        else .socket (some true) entry.grpcMethod (some ⟨entry, vars, req.query⟩)
    | none =>
        if explicit = false ∧ cfg.allowImplicitCodec = false then
          .closed Code.unimplemented (needsSubprotocol utf8)
        else .socket codec (req.uri 63) none

def unaryJSON (sdkJson : Bool) : Dispatch UInt8 HttpRule.Go.Segment :=
  let respCt := if sdkJson then ctJson utf8 else plainJson utf8
  match transcoder with
  | none => .status respCt Code.unimplemented (utf8 "+json needs a transcoder")
  | some set =>
      match HttpRule.Go.matchRequest cfg.toUpper (HttpRule.Go.newHTTPRouter cfg.toUpper set)
          req.method req.path with
      | some (entry, vars) => .rest ⟨entry, vars, req.query⟩
      | none =>
          if sdkJson = false ∧ cfg.allowImplicitCodec = false then
            .unsupportedMediaType
              (utf8 ("this gRPC method path requires content-type application/grpc-webnext+json " ++
              "(or set AllowImplicitCodec to accept plain JSON here)"))
          else if HttpRule.Go.hasMethod set (req.uri 63) = false then
            .status respCt Code.unimplemented (utf8 "no such method: " ++ req.uri 63)
          else .unaryJson (req.uri 63) respCt

def serveHTTP : Dispatch UInt8 HttpRule.Go.Segment :=
  match req.upgrade with
  | some offered => handleUpgrade cfg transcoder req offered
  | none =>
      if req.contentType = ctProto utf8 then
        if (matchWS cfg transcoder req).isSome then .unsupportedMediaType (jsonOnly utf8)
        else .unaryProto (req.uri 63)
      else if req.contentType = ctJson utf8 then unaryJSON cfg transcoder req true
      else if ctGrpc utf8 <+: req.contentType then .passthrough
      else if req.contentType = plainJson utf8 ∨ req.contentType = [] then
        unaryJSON cfg transcoder req false
      else .unsupportedMediaType (utf8 "unsupported content-type: " ++ req.contentType)

end

end Go

section Main
variable {A Seg : Type} (word : String → List A)

/-- A request to the URL of a method, on one of its four surfaces. A client that offers
`h2ts` as well speaks HTTP/2 in a tunnel, and its URL names no method. -/
structure Addresses (m : List A) (req : Request A) : Prop where
  path : req.path = m
  query : req.query = none
  surface : match req.upgrade with
    | none => req.contentType = ctProto word ∨ req.contentType = ctJson word
    | some offered => (wsSubprotocolProto word ∈ offered ∨ wsSubprotocolJson word ∈ offered) ∧
        h2tsSubprotocol word ∉ offered

/-- The method itself, with its whole messages, in the codec that was asked for. -/
def mainRoute [DecidableEq A] (m : List A) (req : Request A) : Dispatch A Seg :=
  match req.upgrade with
  | none =>
      if req.contentType = ctProto word then .unaryProto m
      else .unaryJson m (ctJson word)
  | some offered => .socket (some (decide (wsSubprotocolProto word ∉ offered))) m none

/-- Every request to the URL of the method is dispatched to it, and as it is where the
descriptor set has no annotation. -/
def Reaches [DecidableEq A] (serve : DescriptorSet → Request A → Dispatch A Seg) (set : DescriptorSet)
    (m : List A) : Prop :=
  ∀ req, Addresses word m req →
    serve set req = mainRoute word m req ∧ serve set req = serve set.bare req

variable {word} {m : List A} {req : Request A}

theorem Addresses.uri (addressed : Addresses word m req) (mark : A) : req.uri mark = m := by
  rw [Request.uri, addressed.query]
  exact addressed.path

/-- The `+proto` request to a URL. -/
def protoRequest (word : String → List A) (m : List A) : Request A where
  method := word "POST"
  path := m
  query := none
  upgrade := none
  contentType := ctProto word

theorem protoRequest_addresses (word : String → List A) (m : List A) :
    Addresses word m (protoRequest word m) := ⟨rfl, rfl, .inl rfl⟩

theorem codecOffered_main [DecidableEq A] {offered : List (List A)}
    (ours : wsSubprotocolProto word ∈ offered ∨ wsSubprotocolJson word ∈ offered) :
    codecOffered word offered = (some (decide (wsSubprotocolProto word ∉ offered)), true) := by
  unfold codecOffered
  by_cases proto : wsSubprotocolProto word ∈ offered
  · simp [proto]
  · simp [proto, ours.resolve_left proto]

end Main

section Servers
variable {set : DescriptorSet} {m : Str}

theorem Rust.handle_main {cfg : Rust.Config} {req : Request Char} (declared : m ∈ set.methodPaths)
    (free : set.annotates m = false) (unmanaged : cfg.adminReloadPath ≠ some m)
    (addressed : Addresses String.toList m req) :
    Rust.handle cfg (.ok set) req = mainRoute String.toList m req := by
  have plain : '%' ∉ m := HttpRule.notMem_methodPath declared rfl (by decide)
  have missed := (HttpRule.Rust.fromPool_miss_iff plain).mpr free
  have surface := addressed.surface
  have uri := addressed.uri '?'
  unfold Rust.handle mainRoute
  cases upgrade : req.upgrade with
  | some offered =>
      rw [upgrade] at surface
      obtain ⟨ours, noTunnel⟩ := surface
      simp only [addressed.path, unmanaged, if_false, Rust.handleWsUpgrade, noTunnel,
        codecOffered_main ours, Rust.Schema.matchWs, missed, true_or, if_true]
  | none =>
      rw [upgrade] at surface
      rcases surface with proto | json
      · simp only [addressed.path, unmanaged, if_false, proto, if_true, Rust.Schema.matchWs, missed, uri]
      · have other : ctJson String.toList ≠ ctProto String.toList := by decide
        simp only [addressed.path, unmanaged, if_false, json, other, if_true, Rust.jsonFetch,
          HttpRule.Rust.matchRequest_miss missed, HttpRule.Rust.hasMethod_of_declared declared, uri,
          Bool.true_eq_false, false_and]

theorem Rust.reaches_iff (cfg : Rust.Config) (declared : m ∈ set.methodPaths) :
    Reaches String.toList (fun set => Rust.handle cfg (.ok set)) set m ↔
      cfg.adminReloadPath ≠ some m ∧ set.annotates m = false := by
  have plain : '%' ∉ m := HttpRule.notMem_methodPath declared rfl (by decide)
  constructor
  · intro reaches
    have reached := (reaches _ (protoRequest_addresses String.toList m)).1
    simp only [Rust.handle, protoRequest, mainRoute, if_true, Rust.Schema.matchWs] at reached
    split at reached
    · cases reached
    · refine ⟨‹_›, (HttpRule.Rust.fromPool_miss_iff plain).mp ?_⟩
      split at reached
      · cases reached
      · cases reached
      · assumption
  · rintro ⟨unmanaged, free⟩ req addressed
    have here := Rust.handle_main declared free unmanaged addressed
    refine ⟨here, here.trans (Rust.handle_main ?_ (HttpRule.bare_annotates set m) unmanaged addressed).symm⟩
    rw [HttpRule.bare_methodPaths]
    exact declared

theorem Go.serveHTTP_main (cfg : Go.Config) {req : Request UInt8} (declared : m ∈ set.methodPaths)
    (free : set.annotates m = false) (addressed : Addresses utf8 (Utf8.encode m) req) :
    Go.serveHTTP cfg (some set) req = mainRoute utf8 (Utf8.encode m) req := by
  have plain : '%' ∉ m := HttpRule.notMem_methodPath declared rfl (by decide)
  have missed := (HttpRule.Go.newHTTPRouter_none_iff cfg.toUpper plain).mpr free
  have surface := addressed.surface
  have uri := addressed.uri 63
  unfold Go.serveHTTP mainRoute
  cases upgrade : req.upgrade with
  | some offered =>
      rw [upgrade] at surface
      obtain ⟨ours, noTunnel⟩ := surface
      simp only [Go.handleUpgrade, noTunnel, if_false, codecOffered_main ours, Go.matchWS,
        Option.bind_some, addressed.path, missed, Bool.true_eq_false, false_and, uri]
  | none =>
      rw [upgrade] at surface
      rcases surface with proto | json
      · simp only [proto, if_true, Go.matchWS, Option.bind_some, addressed.path, missed,
          Option.isSome_none, Bool.false_eq_true, if_false, uri]
      · have other : ctJson utf8 ≠ ctProto utf8 := by decide
        simp only [json, other, if_false, if_true, Go.unaryJSON, addressed.path,
          HttpRule.Go.matchRequest_none cfg.toUpper missed, HttpRule.Go.hasMethod_of_declared declared,
          uri, Bool.true_eq_false, false_and]

theorem Go.reaches_iff (cfg : Go.Config) (declared : m ∈ set.methodPaths) :
    Reaches utf8 (fun set => Go.serveHTTP cfg (some set)) set (Utf8.encode m) ↔
      set.annotates m = false := by
  have plain : '%' ∉ m := HttpRule.notMem_methodPath declared rfl (by decide)
  constructor
  · intro reaches
    have reached := (reaches _ (protoRequest_addresses utf8 (Utf8.encode m))).1
    apply (HttpRule.Go.newHTTPRouter_none_iff cfg.toUpper plain).mp
    cases found : Go.matchWS cfg (some set) (protoRequest utf8 (Utf8.encode m)) with
    | none => exact found
    | some entry =>
        have refused : Go.serveHTTP cfg (some set) (protoRequest utf8 (Utf8.encode m)) =
            .unsupportedMediaType (jsonOnly utf8) := by
          rw [Go.serveHTTP, found]
          rfl
        have clash := refused.symm.trans reached
        rw [mainRoute, protoRequest, if_pos rfl] at clash
        cases clash
  · intro free req addressed
    have here := Go.serveHTTP_main cfg declared free addressed
    refine ⟨here, here.trans (Go.serveHTTP_main cfg ?_ (HttpRule.bare_annotates set m) addressed).symm⟩
    rw [HttpRule.bare_methodPaths]
    exact declared

end Servers

/-- A method stays reachable at its own URL, on all four surfaces and as without
annotations, if and only if no template of the descriptor set matches that URL; for the
Rust server the management endpoint must have another path as well. -/
theorem method_reached_iff_unannotated (set : DescriptorSet) (m : Str) (declared : m ∈ set.methodPaths) :
    (∀ cfg : Rust.Config, Reaches String.toList (fun set => Rust.handle cfg (.ok set)) set m ↔
      cfg.adminReloadPath ≠ some m ∧ set.annotates m = false) ∧
    (∀ cfg : Go.Config, Reaches utf8 (fun set => Go.serveHTTP cfg (some set)) set (Utf8.encode m) ↔
      set.annotates m = false) :=
  ⟨fun cfg => Rust.reaches_iff cfg declared, fun cfg => Go.reaches_iff cfg declared⟩

/-- A service with a method `M` and another whose annotation has a wildcard template. -/
def wildcardSet : DescriptorSet where
  services := [{
    fullName := "p.S".toList
    named := by decide
    nonempty := by decide
    methods := [
      { name := "M".toList, named := by decide, input := "p.Req".toList, http := none },
      { name := "Any".toList, named := by decide, input := "p.Req".toList
        http := some ⟨⟨.post "/{service}/{method}".toList, "*".toList, []⟩, []⟩ }] }]
  distinct := by decide

theorem wildcardSet_reached_iff :
    "/p.S/M".toList ∈ wildcardSet.methodPaths ∧
    (∀ cfg : Rust.Config,
      Reaches String.toList (fun set => Rust.handle cfg (.ok set)) wildcardSet "/p.S/M".toList ↔
        cfg.adminReloadPath ≠ some "/p.S/M".toList ∧ wildcardSet.annotates "/p.S/M".toList = false) :=
  ⟨by decide, (method_reached_iff_unannotated wildcardSet "/p.S/M".toList (by decide)).1⟩

/-- The method the request is handed to. -/
def Dispatch.method {A Seg : Type} : Dispatch A Seg → Option (List A)
  | .unaryProto uri => some uri
  | .unaryJson uri _ => some uri
  | .rest found => some found.binding.grpcMethod
  | .socket _ method _ => some method
  | _ => none

/-- The wildcard of the other method takes every surface of `/p.S/M`: the two binary ones
are refused, and the two JSON ones go to `/p.S/Any`. -/
theorem wildcard_takes_method :
    "/p.S/M".toList ∈ wildcardSet.methodPaths ∧
    (∀ cfg : Rust.Config,
      ¬ Reaches String.toList (fun set => Rust.handle cfg (.ok set)) wildcardSet "/p.S/M".toList) ∧
    (∀ cfg : Go.Config,
      ¬ Reaches utf8 (fun set => Go.serveHTTP cfg (some set)) wildcardSet (utf8 "/p.S/M")) ∧
    (let fetch := fun ct => ⟨"POST".toList, "/p.S/M".toList, none, none, ct⟩
     let socket := fun proto => ⟨"GET".toList, "/p.S/M".toList, none, some [proto], []⟩
     let serve := Rust.handle ⟨none, false⟩ (.ok wildcardSet)
     (serve (fetch (ctProto String.toList))).method = none ∧
     (serve (fetch (ctJson String.toList))).method = some "/p.S/Any".toList ∧
     (serve (socket (wsSubprotocolProto String.toList))).method = none ∧
     (serve (socket (wsSubprotocolJson String.toList))).method = some "/p.S/Any".toList) ∧
    (let fetch := fun ct => ⟨utf8 "POST", utf8 "/p.S/M", none, none, ct⟩
     let socket := fun proto => ⟨utf8 "GET", utf8 "/p.S/M", none, some [proto], []⟩
     let serve := Go.serveHTTP ⟨false, id⟩ (some wildcardSet)
     (serve (fetch (ctProto utf8))).method = none ∧
     (serve (fetch (ctJson utf8))).method = some (utf8 "/p.S/Any") ∧
     (serve (socket (wsSubprotocolProto utf8))).method = none ∧
     (serve (socket (wsSubprotocolJson utf8))).method = some (utf8 "/p.S/Any")) := by
  have declared : "/p.S/M".toList ∈ wildcardSet.methodPaths := by decide
  have matched : wildcardSet.annotates "/p.S/M".toList = true := by decide +kernel
  refine ⟨declared, ?_, ?_, by decide +kernel, by decide +kernel⟩
  · intro cfg reaches
    have free := ((Rust.reaches_iff cfg declared).mp reaches).2
    rw [matched] at free
    cases free
  · intro cfg reaches
    have free := (Go.reaches_iff cfg declared).mp reaches
    rw [matched] at free
    cases free

end GrpcWebnext.Routing
