import GrpcWebnext.FetchResponse
import GrpcWebnext.H2ts.Response
import GrpcWebnext.NodeClient.MetadataHeaders
import GrpcWebnext.Ws.OneCall
import GrpcWebnext.Ws.Pump

/-! When a surface reports OK: each one against what the backend really said. -/
namespace GrpcWebnext
open Framing (Bytes)
open Text (Str)
open MetadataForm (LowerCase Host asciiLower browser)

/-- OK is reported only for an explicit OK behind a clean body. -/
def Response.Honest (surfaced : Option Nat) (r : Response Bytes) : Prop :=
  surfaced = some 0 → r.Vouched HeaderMap.CarriesOk ∧ r.Clean

/-- A status was received that can be read, and an OK among these is an explicit one
behind a clean body. -/
def Response.Told (status : Option Nat) (r : Response Bytes) : Prop :=
  ∃ n, status = some n ∧ (n = 0 → r.Vouched HeaderMap.CarriesOk ∧ r.Clean)

/-- A surface that reports the received status, and OK where there is none to read,
unless it has something else to report. -/
theorem Response.honest_iff {r : Response Bytes} {surfaced status : Option Nat} {otherwise : Prop}
    (reports : surfaced = some 0 ↔ ¬ otherwise ∧ status.getD 0 = 0)
    (vouched : r.Vouched HeaderMap.CarriesOk → status = some 0) :
    r.Honest surfaced ↔ otherwise ∨ r.Told status := by
  unfold Honest Told
  rw [reports]
  constructor
  · intro honest
    by_cases other : otherwise
    · exact .inl other
    · refine .inr ?_
      cases read : status with
      | none =>
          have absurdly := vouched (honest ⟨other, by rw [read]; rfl⟩).1
          rw [read] at absurdly
          cases absurdly
      | some n =>
          refine ⟨n, rfl, fun zero => honest ⟨other, ?_⟩⟩
          rw [read, zero]
          rfl
  · rintro (other | ⟨n, read, explicit⟩) ⟨silent, zero⟩
    · exact absurd other silent
    · rw [read] at zero
      exact explicit zero

theorem Ws.RustServer.surfaced_ok_iff (srv : Config) (sub : Subscribe) (json : Bool)
    (r : Response Bytes) :
    surfaced srv sub json r = some 0 ↔
      ¬ ((srv.Unrenderable json r.messages) ∨ r.ending = .expired) ∧
        (Rust.statusCode r.trailers r.headers).getD 0 = 0 := by
  rw [surfaced_eq]
  unfold Route.Unrenderable
  cases (srv.encodeAll json r.messages).2 with
  | some e => simp [Code.internal]
  | none =>
      cases r.ending with
      | bare | trailers block | failed reason => simp [Rust.readStatus]
      | expired =>
          by_cases unset : sub.timeoutMillis = 0 <;> simp [unset, Code.deadlineExceeded]

theorem Ws.GoServer.surfaced_ok_iff (srv : Config) (sub : Subscribe) (json : Bool)
    (r : Response Bytes) :
    surfaced srv sub json r = some 0 ↔
      ¬ (¬ Delivers srv json r ∨ srv.Unrenderable json r.messages ∨
          (r.ending = .expired ∧ sub.timeoutMillis ≠ 0) ∨
          srv.encodes (.frame json (trailerOf srv sub r)) = false) ∧
        (Go.statusCode r.trailers r.headers).getD 0 = 0 := by
  rw [surfaced_eq]
  unfold Route.Unrenderable
  by_cases delivers : Delivers srv json r
  · cases (srv.encodeAll json r.messages).2 with
    | some e => simp [Code.internal]
    | none =>
        cases encodes : srv.encodes (.frame json (trailerOf srv sub r)) with
        | false => simp
        | true =>
            by_cases late : r.ending = .expired ∧ sub.timeoutMillis ≠ 0
            · simp [delivers, late, trailerOf, Out.status, Code.deadlineExceeded]
            · simp only [delivers, late, trailerOf, Out.status, Go.readStatus]
              simp
  · simp [delivers]

theorem Rust.unaryProto_ok_iff (fromBase64 : Bytes → Option Bytes) (r : Response Bytes) :
    (Rust.unaryProto fromBase64 (.answered r)).trailer.map Trailer.statusCode = some 0 ↔
      ¬ (r.ending.whole = false) ∧ (Rust.statusCode r.trailers r.headers).getD 0 = 0 := by
  simp only [Rust.unaryProto, Rust.streamResponse]
  cases ending : r.ending with
  | bare | trailers block => simp [Ending.whole, Rust.trailerOf, Rust.readStatus]
  | failed reason => simp [Ending.whole]
  | expired =>
      by_cases silent : relay 1 r.chunks = [] <;>
        simp [silent, Ending.whole, Code.deadlineExceeded]

/-- What can be said in the Go Trailer of the response is UTF-8. -/
def Go.Legible (fromBase64 : Bytes → Option Bytes) (r : Response Bytes) : Prop :=
  ∀ code, Go.marshals ⟨code, Go.percentDecode (Go.lookup r.trailers r.headers "grpc-message"),
    Go.headersToMetadataList fromBase64 r.trailers⟩ = true

theorem Go.unaryProto_ok_iff (fromBase64 : Bytes → Option Bytes) (r : Response Bytes) :
    (Go.unaryProto fromBase64 (.answered r)).trailer.map (fun t => (Go.sealed t).statusCode) =
        some 0 ↔
      r.ending ≠ .expired ∧
        (¬ Go.Legible fromBase64 r ∨ (Go.statusCode r.trailers r.headers).getD 0 = 0) := by
  have stamped : (Go.sealed ⟨Code.deadlineExceeded, utf8 "deadline exceeded", []⟩).statusCode ≠ 0 := by
    decide
  simp only [Go.unaryProto, Go.streamResponse]
  by_cases late : r.ending = .expired
  · by_cases silent : relay 1 r.chunks = [] <;>
      simp [late, silent, stamped]
  · have same : Go.Legible fromBase64 r ↔ Go.marshals (Go.trailerOf fromBase64 r) = true :=
      ⟨fun legible => legible _, fun marshals _ => marshals⟩
    simp only [late, if_false, Option.map_some, Option.some.injEq, same, Go.sealed, ne_eq,
      not_false_eq_true, true_and]
    cases marshals : Go.marshals (Go.trailerOf fromBase64 r) with
    | false => simp [Trailer.default]
    | true => simp [Go.trailerOf, Go.readStatus]

theorem Go.unaryProto_honest_iff (fromBase64 : Bytes → Option Bytes) (r : Response Bytes) :
    r.Honest ((Go.unaryProto fromBase64 (.answered r)).trailer.map fun t =>
        (Go.sealed t).statusCode) ↔
      r.ending = .expired ∨ (r.Told (Go.statusCode r.trailers r.headers) ∧
        (Go.Legible fromBase64 r ∨ (r.Vouched HeaderMap.CarriesOk ∧ r.Clean))) := by
  have told : (r.Vouched HeaderMap.CarriesOk ∧ r.Clean) →
      r.Told (Go.statusCode r.trailers r.headers) := fun explicit =>
    ⟨0, Go.statusCode_of_vouched explicit.1, fun _ => explicit⟩
  unfold Response.Honest
  rw [Go.unaryProto_ok_iff]
  by_cases late : r.ending = .expired
  · simp [late]
  · by_cases legible : Go.Legible fromBase64 r
    · have plain : r.Honest (some ((Go.statusCode r.trailers r.headers).getD 0)) ↔
          False ∨ r.Told (Go.statusCode r.trailers r.headers) :=
        Response.honest_iff (by simp) Go.statusCode_of_vouched
      simpa [Response.Honest, late, legible] using plain
    · simp only [late, legible, ne_eq, not_false_eq_true, true_or, and_self, forall_const,
        false_or]
      exact ⟨fun explicit => ⟨told explicit, explicit⟩, fun both => both.2⟩

/-- The first message is there to be rendered, and cannot be. An empty one is not
rendered by the Rust server. -/
def Rust.Unrenderable (toJson : Bytes → Except String Bytes) (r : Response Bytes) : Prop :=
  ∃ message e, r.messages.head? = some message ∧ message ≠ [] ∧ toJson message = .error e

theorem Rust.renderJson_ok_iff (toJson : Bytes → Except String Bytes) (r : Response Bytes) :
    (Rust.renderJson toJson r).statusCode = 0 ↔
      ¬ Rust.Unrenderable toJson r ∧ (Rust.statusCode r.trailers r.headers).getD 0 = 0 := by
  change _ ↔ _ ∧ (Rust.readStatus r.trailers r.headers).1 = 0
  unfold Rust.renderJson Rust.Unrenderable
  generalize Rust.readStatus r.trailers r.headers = status
  cases r.messages.head? with
  | none => simp
  | some message =>
      simp only [Option.getD_some, Option.some.injEq, exists_and_left, exists_eq_left']
      by_cases zero : status.1 = 0 ∧ message ≠ []
      · rw [if_pos zero]
        cases rendering : toJson message with
        | ok body => simp [zero]
        | error e => simp [jsonStatus, Code.internal, zero]
      · rw [if_neg zero]
        exact ⟨fun ok => ⟨fun bad => zero ⟨ok, bad.1⟩, ok⟩, fun ok => ok.2⟩

theorem Rust.jsonUpstream_ok_iff (toJson : Bytes → Except String Bytes) (r : Response Bytes) :
    some (Rust.jsonUpstream toJson (.answered r)).statusCode = some 0 ↔
      ¬ (r.ending.whole = false ∨ Rust.Unrenderable toJson r) ∧
        (Rust.statusCode r.trailers r.headers).getD 0 = 0 := by
  rw [Option.some.injEq, not_or, and_assoc, ← Rust.renderJson_ok_iff]
  simp only [Rust.jsonUpstream]
  cases r.ending with
  | bare | trailers block => simp [Ending.whole]
  | failed reason => simp [Ending.whole, jsonStatus, Code.unavailable]
  | expired => simp [Ending.whole, jsonStatus, Code.deadlineExceeded]

def Go.Unrenderable (toJson : Bytes → Except String Bytes) (r : Response Bytes) : Prop :=
  ∃ message e, r.messages.head? = some message ∧ toJson message = .error e

theorem Go.renderJson_ok_iff (toJson : Bytes → Except String Bytes) (r : Response Bytes) :
    (Go.renderJson toJson r).statusCode = 0 ↔
      ¬ Go.Unrenderable toJson r ∧ (Go.statusCode r.trailers r.headers).getD 0 = 0 := by
  change _ ↔ _ ∧ (Go.readStatus r.trailers r.headers).1 = 0
  unfold Go.renderJson Go.Unrenderable
  generalize Go.readStatus r.trailers r.headers = status
  cases r.messages with
  | nil => simp
  | cons message rest =>
      simp only [List.head?_cons, Option.some.injEq, exists_and_left, exists_eq_left']
      by_cases zero : status.1 = 0
      · rw [if_pos zero]
        cases rendering : toJson message with
        | ok body => simp [zero]
        | error e => simp [jsonStatus, Code.internal]
      · rw [if_neg zero]
        exact ⟨fun ok => absurd ok zero, fun ok => ok.2⟩

theorem Go.jsonUpstream_ok_iff (toJson : Bytes → Except String Bytes) (r : Response Bytes) :
    some (Go.jsonUpstream toJson (.answered r)).statusCode = some 0 ↔
      ¬ (r.ending.whole = false ∨ Go.Unrenderable toJson r) ∧
        (Go.statusCode r.trailers r.headers).getD 0 = 0 := by
  rw [Option.some.injEq, not_or, and_assoc, ← Go.renderJson_ok_iff]
  simp only [Go.jsonUpstream]
  cases r.ending with
  | bare | trailers block => simp [Ending.whole]
  | failed reason => simp [Ending.whole, jsonStatus, Code.unavailable]
  | expired => simp [Ending.whole, jsonStatus, Code.deadlineExceeded]

namespace H2ts

def Honest (surfaced : Option Int) (r : H2Response) : Prop :=
  surfaced = some 0 → r.Vouched Record.CarriesOk ∧ r.Clean

/-- The client's counterpart of a received status: text that does not read as a number
counts as UNKNOWN, and a missing status as that of the HTTP status. -/
def Told (r : H2Response) : Prop :=
  match received r with
  | some raw => parseInt raw = some 0 → r.Vouched Record.CarriesOk ∧ r.Clean
  | none => r.status ≠ 200

theorem honest_iff (r : H2Response) : Honest (some (codeReceived r)) r ↔ Told r := by
  unfold Honest Told codeReceived
  rw [Option.some.injEq]
  cases found : received r with
  | some raw =>
      dsimp only
      rw [codeOf_eq_ok_iff]
  | none =>
      have never : ¬ (r.Vouched Record.CarriesOk ∧ r.Clean) := by
        rintro ⟨vouched, _⟩
        rw [received_of_vouched vouched] at found
        cases found
      by_cases fine : r.status = 200
      · simp [fine, never, Status.ok]
      · simp [fine, httpToStatus_ne_ok]

end H2ts

/-- For every surface, exactly when it reports OK for nothing but an explicit OK behind a
clean body: it has something else to report, or the status it looks up was received,
can be read, and is, if it is zero, that explicit OK. A Go Trailer has to be UTF-8 on
top of that, since one that does not marshal is sent as an empty block. -/
theorem ok_surfaced_iff_told (r : Response Bytes) :
    (∀ (srv : Ws.RustServer.Config) (sub : Ws.Subscribe) (json : Bool),
      r.Honest (Ws.RustServer.surfaced srv sub json r) ↔
        (srv.Unrenderable json r.messages ∨ r.ending = .expired) ∨
          r.Told (Rust.statusCode r.trailers r.headers)) ∧
    (∀ (srv : Ws.GoServer.Config) (sub : Ws.Subscribe) (json : Bool),
      r.Honest (Ws.GoServer.surfaced srv sub json r) ↔
        (¬ Ws.GoServer.Delivers srv json r ∨ srv.Unrenderable json r.messages ∨
          (r.ending = .expired ∧ sub.timeoutMillis ≠ 0) ∨
          srv.encodes (.frame json (Ws.GoServer.trailerOf srv sub r)) = false) ∨
          r.Told (Go.statusCode r.trailers r.headers)) ∧
    (∀ (fromBase64 : Bytes → Option Bytes),
      r.Honest ((Rust.unaryProto fromBase64 (.answered r)).trailer.map Trailer.statusCode) ↔
        r.ending.whole = false ∨ r.Told (Rust.statusCode r.trailers r.headers)) ∧
    (∀ (fromBase64 : Bytes → Option Bytes),
      r.Honest ((Go.unaryProto fromBase64 (.answered r)).trailer.map fun t =>
          (Go.sealed t).statusCode) ↔
        r.ending = .expired ∨ (r.Told (Go.statusCode r.trailers r.headers) ∧
          (Go.Legible fromBase64 r ∨ (r.Vouched HeaderMap.CarriesOk ∧ r.Clean)))) ∧
    (∀ (toJson : Bytes → Except String Bytes),
      r.Honest (some (Rust.jsonUpstream toJson (.answered r)).statusCode) ↔
        (r.ending.whole = false ∨ Rust.Unrenderable toJson r) ∨
          r.Told (Rust.statusCode r.trailers r.headers)) ∧
    (∀ (toJson : Bytes → Except String Bytes),
      r.Honest (some (Go.jsonUpstream toJson (.answered r)).statusCode) ↔
        (r.ending.whole = false ∨ Go.Unrenderable toJson r) ∨
          r.Told (Go.statusCode r.trailers r.headers)) ∧
    (∀ (js : LowerCase) (host : Host) (decodeGrpcMessage : Str → Str) (r : H2ts.H2Response),
      H2ts.Honest ((H2ts.unaryStatus js host decodeGrpcMessage r).map H2ts.StatusResult.code) r ↔
        (r.ending.whole = false ∨ H2ts.Unconvertible js host r) ∨ H2ts.Told r) ∧
    (∀ (js : LowerCase) (host : Host) (thrown : Str) (decodeGrpcMessage : Str → Str) (r : H2ts.H2Response),
      H2ts.Honest (some (H2ts.streamStatus js host thrown decodeGrpcMessage r).code) r ↔
        (r.ending.whole = false ∨ H2ts.Unconvertible js host r) ∨ H2ts.Told r) := by
  refine ⟨?_, ?_, ?_, ?_, ?_, ?_, ?_, ?_⟩
  · intro srv sub json
    exact Response.honest_iff (Ws.RustServer.surfaced_ok_iff srv sub json r)
      Rust.statusCode_of_vouched
  · intro srv sub json
    exact Response.honest_iff (Ws.GoServer.surfaced_ok_iff srv sub json r) Go.statusCode_of_vouched
  · intro fromBase64
    exact Response.honest_iff (Rust.unaryProto_ok_iff fromBase64 r) Rust.statusCode_of_vouched
  · intro fromBase64
    exact Go.unaryProto_honest_iff fromBase64 r
  · intro toJson
    exact Response.honest_iff (Rust.jsonUpstream_ok_iff toJson r) Rust.statusCode_of_vouched
  · intro toJson
    exact Response.honest_iff (Go.jsonUpstream_ok_iff toJson r) Go.statusCode_of_vouched
  · intro js host decodeGrpcMessage r
    rw [← H2ts.honest_iff]
    rcases H2ts.unaryStatus_code decodeGrpcMessage r with ⟨thrown, other⟩ | ⟨code, none⟩
    · rw [thrown]
      exact iff_of_true (by simp [H2ts.Honest]) (.inl other)
    · rw [code, or_iff_right none]
  · intro js host thrown decodeGrpcMessage r
    rw [← H2ts.honest_iff]
    rcases H2ts.streamStatus_code thrown decodeGrpcMessage r with ⟨failed, other⟩ | ⟨code, none⟩
    · exact iff_of_true (by simp [H2ts.Honest, failed]) (.inl other)
    · rw [code, or_iff_right none]

/-- A body that ends inside its first message, with no status anywhere. -/
def truncated {V : Type} : Response V := ⟨[], [[0, 0, 0, 0, 5, 1]], .bare⟩

/-- Every surface reports OK for it. -/
theorem truncated_response_reported_ok :
    Ws.RustServer.surfaced Ws.smallRust ⟨[], [], 0, []⟩ false truncated = some 0 ∧
    Ws.GoServer.surfaced Ws.smallGo ⟨[], [], 0, []⟩ false truncated = some 0 ∧
    (Rust.unaryProto some (.answered truncated)).trailer.map Trailer.statusCode = some 0 ∧
    ((Go.unaryProto some (.answered truncated)).trailer.map fun t => (Go.sealed t).statusCode) =
      some 0 ∧
    (Rust.jsonUpstream .ok (.answered truncated)).statusCode = 0 ∧
    (Go.jsonUpstream .ok (.answered truncated)).statusCode = 0 ∧
    (H2ts.unaryStatus asciiLower browser id ⟨truncated, 200⟩).map H2ts.StatusResult.code = some 0 ∧
    (H2ts.streamStatus asciiLower browser [] id ⟨truncated, 200⟩).code = 0 ∧
    ¬ (truncated : Response Bytes).Vouched HeaderMap.CarriesOk ∧
    ¬ (truncated : Response Bytes).Clean := by
  refine ⟨by decide, by decide, by decide, by decide, by decide, by decide, by decide, by decide,
    ?_, ?_⟩
  · rintro (trailers | ⟨_, _, headers⟩)
    · cases trailers
    · cases headers
  · rintro ⟨_, whole⟩
    exact absurd whole (by decide)

end GrpcWebnext
