import GrpcWebnext.NodeClient.Download
import GrpcWebnext.Routing
import Mathlib.Data.Nat.Find

/-! The handshake of a stream's WebSocket: what the TypeScript client offers, what either
server makes of that, and how a refusal comes back as a status. -/
namespace GrpcWebnext
open Framing (Bytes)
open Text (Str)

/-- `WS_SUBPROTOCOL`. -/
def wsSubprotocol {A : Type} (word : String → List A) : List A := word "grpc-webnext"

/-- The subprotocol of the answer: the first of these that is offered. -/
def echoed {A : Type} [DecidableEq A] (word : String → List A) (offered : List (List A)) : Option (List A) :=
  [Routing.wsSubprotocolProto word, Routing.wsSubprotocolJson word, wsSubprotocol word,
    Routing.plainJson word].find?
    fun p => offered.any fun q => q = p

namespace Rust

/-- `str::is_char_boundary`. -/
def isCharBoundary (bytes : Bytes) (index : Nat) : Bool :=
  index = 0 || match bytes[index]? with
    | some b => !Utf8.isContinuation b
    | none => index = bytes.length

/-- `truncate_utf8`. -/
def truncateUtf8 (bytes : Bytes) (max : Nat) : Bytes :=
  if bytes.length ≤ max then bytes
    else bytes.take (Nat.findGreatest (fun last => isCharBoundary bytes last) max)

/-- `close_for_status`. -/
def closeForStatus (code : Nat) (message : Str) : Nat × Bytes :=
  (4000 + code, truncateUtf8 (Utf8.encode message) 123)

/-- `echo` of `handle_ws_upgrade`. -/
def echo (offered : List Str) : Option Str := echoed String.toList offered

end Rust

namespace Go

/-- `WSCloseCode`. -/
def wsCloseCode (code : Nat) : Nat := 4000 + code

def maxCloseReason : Nat := 123

/-- The condition on which the loop of `truncateUTF8` stops. -/
def startsRune (s : Bytes) (last : Nat) : Bool := !s[last]?.any fun b => b &&& 0xC0 == 0x80

def truncateUTF8 (s : Bytes) (max : Nat) : Bytes :=
  if s.length ≤ max then s else s.take (Nat.findGreatest (fun last => startsRune s last) max)

/-- The frame of `closeWithStatus`. -/
def closeWithStatus (code : Nat) (message : Bytes) : Nat × Bytes :=
  (wsCloseCode code, truncateUTF8 message maxCloseReason)

/-- `respHeader` of `handleUpgrade`. -/
def echo (offered : List Bytes) : Option Bytes := echoed utf8 offered

end Go

/-- Both loops stop at the first byte of a character. -/
theorem continuation_mask (b : UInt8) : (b &&& 0xC0 == 0x80) = Utf8.isContinuation b := by
  have each : ∀ n : Fin 256, (UInt8.ofNat n.val &&& 0xC0 == 0x80) =
    Utf8.isContinuation (UInt8.ofNat n.val) := by
    decide +kernel
  have here := each ⟨b.toNat, b.toNat_lt⟩
  rwa [UInt8.ofNat_toNat] at here

/-- Of a text that is too long, going back to where a character starts keeps the characters
that fit. -/
theorem take_findGreatest {s : Str} {max : Nat} (long : max < (Utf8.encode s).length) {stops : Nat → Bool}
    (where_ : ∀ i, 0 < i → i ≤ max → stops i = !(Utf8.encode s)[i]?.any Utf8.isContinuation) :
    (Utf8.encode s).take (Nat.findGreatest (fun last => stops last) max) =
      Utf8.encode (Utf8.fitting max s) := by
  have low := Nat.findGreatest_le (P := fun last => stops last = true) max
  refine Utf8.take_boundary long low ?_ fun i above below => ?_
  · by_cases zero : Nat.findGreatest (fun last => stops last = true) max = 0
    · exact .inl zero
    · right
      have stopped : stops (Nat.findGreatest (fun last => stops last = true) max) = true :=
        Nat.findGreatest_of_ne_zero (P := fun last => stops last = true) rfl zero
      rw [where_ _ (Nat.pos_of_ne_zero zero) low, Bool.not_eq_true'] at stopped
      exact stopped
  · have goes := Nat.findGreatest_is_greatest (P := fun last => stops last = true) above below
    rw [where_ i (Nat.lt_of_le_of_lt (Nat.zero_le _) above) below, Bool.not_eq_true',
      Bool.not_eq_false] at goes
    exact goes

theorem Rust.truncateUtf8_encode (s : Str) (max : Nat) :
    Rust.truncateUtf8 (Utf8.encode s) max = Utf8.encode (Utf8.fitting max s) := by
  unfold Rust.truncateUtf8
  split
  · rename_i short
    rw [Utf8.fitting_of_length short]
  · rename_i long
    refine take_findGreatest (Nat.lt_of_not_le long) fun i positive below => ?_
    have inside : i < (Utf8.encode s).length := Nat.lt_of_le_of_lt below (Nat.lt_of_not_le long)
    unfold Rust.isCharBoundary
    rw [List.getElem?_eq_getElem inside, decide_eq_false (Nat.pos_iff_ne_zero.mp positive), Bool.false_or]
    rfl

theorem Go.truncateUTF8_encode (s : Str) (max : Nat) :
    Go.truncateUTF8 (Utf8.encode s) max = Utf8.encode (Utf8.fitting max s) := by
  unfold Go.truncateUTF8
  split
  · rename_i short
    rw [Utf8.fitting_of_length short]
  · rename_i long
    refine take_findGreatest (Nat.lt_of_not_le long) fun i _ _ => ?_
    unfold Go.startsRune
    rw [funext continuation_mask]

/-- The two servers refuse with the same frame. -/
theorem refusal_same (code : Nat) (message : Str) :
    Go.closeWithStatus code (Utf8.encode message) = Rust.closeForStatus code message := by
  unfold Go.closeWithStatus Rust.closeForStatus
  rw [Go.truncateUTF8_encode, Rust.truncateUtf8_encode]
  rfl

namespace NodeClient.SingleStream
open Throwing (CloseEvent statusForClose)
open Routing (Dispatch)

/-- The close event that a frame is to the client. -/
def closing (frame : Nat × Bytes) : CloseEvent := ⟨frame.1, Utf8.decodeLossy frame.2⟩

/-- The client reads a refusal back as its status, with as much of the message as fits. -/
theorem statusForClose_refusal {code : Nat} (range : code ≤ 16) (message : Str) :
    statusForClose (some (closing (Rust.closeForStatus code message))) =
      ⟨code, Utf8.fitting 123 message, []⟩ := by
  have coded : (closing (Rust.closeForStatus code message)).carriesStatus = true := by
    unfold closing Rust.closeForStatus CloseEvent.carriesStatus Throwing.closeStatusBase
      H2ts.Status.unauthenticated
    rw [Bool.and_eq_true, decide_eq_true_eq, decide_eq_true_eq]
    dsimp only
    omega
  rw [statusForClose, Option.filter_some, if_pos coded]
  simp only [closing, Rust.closeForStatus, Throwing.closeStatusBase, Rust.truncateUtf8_encode,
    Utf8.decodeLossy_encode,
    StatusResult.mk.injEq, and_true]
  omega

section Refused
variable {F D : Type} {codec : Codec F D} {event : CloseEvent}

/-- What the server sends of a connection that it refuses. -/
structure OnlyCloses (event : CloseEvent) (es : List (Event D)) : Prop where
  silent : ∀ data, .message data ∉ es
  once : ∀ other, .closed other ∈ es → other = event

theorem OnlyCloses.tail {e : Event D} {es : List (Event D)} (only : OnlyCloses event (e :: es)) :
    OnlyCloses event es where
  silent data inside := only.silent data (List.mem_cons_of_mem _ inside)
  once other inside := only.once other (List.mem_cons_of_mem _ inside)

/-- The client ends the stream itself, or its socket fails. -/
def Event.own (e : Event D) : Bool := e.terminates || match e with
  | .errored => true
  | _ => false

/-- The handlers hear the refusal, unless the client has ended the stream. -/
theorem heard_refused {es : List (Event D)} (only : OnlyCloses event es) :
    heard codec es = [.status (statusForClose (some event))] ∨
      (∃ e ∈ es, e.own = true ∧ ∃ status, e.tells codec = some (.status status) ∧
        heard codec es = [.status status]) ∨
      heard codec es = [] ∧ .closed event ∉ es := by
  induction es with
  | nil => exact .inr (.inr ⟨rfl, List.not_mem_nil⟩)
  | cons e es ih =>
      have ends {status : StatusResult} (tells : e.tells codec = some (.status status)) :
          heard codec (e :: es) = [.status status] := by
        rw [heard_cons, Event.ends, tells]
        rfl
      have goes (tells : e.tells codec = none) : heard codec (e :: es) = heard codec es := by
        rw [heard_cons, Event.ends, tells]
        rfl
      have later (tells : e.tells codec = none) (open_ : e ≠ .closed event) :
          heard codec (e :: es) = [.status (statusForClose (some event))] ∨
            (∃ f ∈ e :: es, f.own = true ∧ ∃ status, f.tells codec = some (.status status) ∧
              heard codec (e :: es) = [.status status]) ∨
            heard codec (e :: es) = [] ∧ .closed event ∉ e :: es := by
        rw [goes tells]
        rcases ih only.tail with refused | ⟨f, inside, rest⟩ | ⟨nothing, unclosed⟩
        · exact .inl refused
        · exact .inr (.inl ⟨f, List.mem_cons_of_mem _ inside, rest⟩)
        · exact .inr (.inr ⟨nothing, List.not_mem_cons_of_ne_of_not_mem open_.symm unclosed⟩)
      cases e with
      | message data => exact absurd List.mem_cons_self (only.silent data)
      | closed other =>
          obtain rfl := only.once other List.mem_cons_self
          exact .inl (ends rfl)
      | errored | cancel | abort reason => exact .inr (.inl ⟨_, List.mem_cons_self, rfl, _, rfl, ends rfl⟩)
      | opened | closing | send payload | halfClose | closeTransport =>
          exact later rfl fun same => by cases same

/-- In any run on a connection that is refused with this frame, the handlers are told this status and
nothing else, unless the client has ended the stream before the frame comes. -/
def Reports (frame : Nat × Bytes) (status : StatusResult) : Prop :=
  ∀ (F D : Type) (codec : Codec F D) (es : List (Event D)) (s : Conn F),
    Machine.run (step codec) (Conn.init codec) es = some s → OnlyCloses (closing frame) es →
      s.told = [.status status] ∨
        (∃ e ∈ es, e.own = true ∧ ∃ own, e.tells codec = some (.status own) ∧ s.told = [.status own]) ∨
        s.told = [] ∧ .closed (closing frame) ∉ es

theorem reports_refusal {code : Nat} (range : code ≤ 16) (message : Str) :
    Reports (Rust.closeForStatus code message) ⟨code, Utf8.fitting 123 message, []⟩ := by
  intro F D codec es s ran only
  rw [(held_run ran).1.told, ← statusForClose_refusal range]
  exact heard_refused only

end Refused

/-- The subprotocol of the client's codec. -/
def codecSubprotocol {A : Type} (word : String → List A) (json : Bool) : List A :=
  if json then Routing.wsSubprotocolJson word else Routing.wsSubprotocolProto word

/-- What the client offers. -/
def protocols {A : Type} (word : String → List A) (json : Bool) : List (List A) :=
  [wsSubprotocol word, codecSubprotocol word json]

/-- A server's side of the handshake: its answer, and how it refuses. -/
structure Server (A : Type) where
  word : String → List A
  text : List A → Str
  echo : List (List A) → Option (List A)
  refusal : Nat → List A → Nat × Bytes

def rustServer : Server Char := ⟨String.toList, id, Rust.echo, Rust.closeForStatus⟩

def goServer : Server UInt8 := ⟨utf8, Utf8.decodeLossy, Go.echo, Go.closeWithStatus⟩

/-- The client and a server agree about a connection: both speak the codec that the answer
names, and the stream is bound where its route is annotated; or the client reports what the
server refuses it with, which a binary stream of an annotated route is and no other. -/
def Agreed {A Seg : Type} (server : Server A) (json : Bool) (panics annotated : Prop) : Dispatch A Seg → Prop
  | .panic => panics
  | .closed code message => json = false ∧ annotated ∧
      Reports (server.refusal code message) ⟨code, server.text message, []⟩
  | .socket codec _ binding =>
      codec = some json ∧ (json = false → ¬ annotated) ∧ (binding.isSome ↔ annotated) ∧
      server.echo (protocols server.word json) = some (codecSubprotocol server.word json)
  | _ => False

theorem reports_whole {code : Nat} (range : code ≤ 16) {message : Str}
    (short : (Utf8.encode message).length ≤ 123) :
    Reports (Rust.closeForStatus code message) ⟨code, message, []⟩ := by
  have reports := reports_refusal range message
  rwa [Utf8.fitting_of_length short] at reports

/-- The handshake of a stream with either server leaves the two in agreement, whatever the
server is set to and whatever route the stream asks for, unless the matcher of the Rust server
panics on the path. Any status that the servers close a connection with is the same frame from
both, and comes to the handlers with its code and all of its message that a close frame holds. -/
theorem handshake_agreed (json : Bool) :
    (∀ cfg schema req, Agreed rustServer json (Routing.Rust.Schema.matchWs schema req.path = .panic)
        (∃ found, Routing.Rust.Schema.matchWs schema req.path = .hit found)
        (Routing.Rust.handleWsUpgrade cfg schema req (protocols String.toList json))) ∧
      (∀ cfg transcoder req, Agreed goServer json False
        ((Routing.Go.matchWS cfg transcoder req).isSome = true)
        (Routing.Go.handleUpgrade cfg transcoder req (protocols utf8 json))) ∧
      ∀ code ≤ 16, ∀ message, Go.closeWithStatus code (Utf8.encode message) =
        Rust.closeForStatus code message ∧
        Reports (Rust.closeForStatus code message) ⟨code, Utf8.fitting 123 message, []⟩ := by
  have offered : Routing.codecOffered String.toList (protocols String.toList json) = (some json, true) ∧
      Routing.h2tsSubprotocol String.toList ∉ protocols String.toList json ∧
      Rust.echo (protocols String.toList json) = some (codecSubprotocol String.toList json) := by
    cases json <;> decide
  have offered' : Routing.codecOffered utf8 (protocols utf8 json) = (some json, true) ∧
      Routing.h2tsSubprotocol utf8 ∉ protocols utf8 json ∧
      Go.echo (protocols utf8 json) = some (codecSubprotocol utf8 json) := by
    cases json <;> decide
  refine ⟨?_, ?_, fun code range message => ⟨refusal_same code message, reports_refusal range message⟩⟩
  · intro cfg schema req
    unfold Routing.Rust.handleWsUpgrade
    rw [if_neg offered.2.1, offered.1]
    dsimp only
    cases matched : schema.matchWs req.path with
    | panic => rfl
    | miss =>
        rw [if_pos (.inl rfl)]
        have plain : ¬ ∃ found, schema.matchWs req.path = .hit found := by
          rintro ⟨found, hit⟩
          cases matched.symm.trans hit
        rw [matched] at plain
        exact ⟨rfl, fun _ => plain, iff_of_false Bool.false_ne_true plain, offered.2.2⟩
    | hit found =>
        obtain ⟨entry, vars⟩ := found
        dsimp only
        split
        · rename_i binary
          exact ⟨Option.some.inj binary, ⟨_, rfl⟩, reports_whole (by decide) (by decide)⟩
        · rename_i text
          cases json with
          | true =>
              exact ⟨rfl, fun binary => absurd binary.symm Bool.false_ne_true,
                iff_of_true rfl ⟨_, rfl⟩, offered.2.2⟩
          | false => exact absurd rfl text
  · intro cfg transcoder req
    unfold Routing.Go.handleUpgrade
    rw [if_neg offered'.2.1, offered'.1]
    dsimp only
    cases Routing.Go.matchWS cfg transcoder req with
    | none =>
        rw [if_neg fun implicit => by cases implicit.1]
        exact ⟨rfl, fun _ => Bool.false_ne_true, Iff.rfl, offered'.2.2⟩
    | some found =>
        obtain ⟨entry, vars⟩ := found
        dsimp only
        split
        · rename_i binary
          have text : goServer.text (Routing.restSocketJson utf8) = Routing.restSocketJson String.toList :=
            Utf8.decodeLossy_encode _
          have same : goServer.refusal Code.failedPrecondition (Routing.restSocketJson utf8) =
              Rust.closeForStatus Code.failedPrecondition (Routing.restSocketJson String.toList) :=
                refusal_same _ _
          refine ⟨Option.some.inj binary, rfl, ?_⟩
          rw [text, same]
          exact reports_whole (by decide) (by decide)
        · rename_i text
          cases json with
          | true =>
              exact ⟨rfl, fun binary => absurd binary.symm Bool.false_ne_true, iff_of_true rfl rfl,
                offered'.2.2⟩
          | false => exact absurd rfl text

end NodeClient.SingleStream

end GrpcWebnext
