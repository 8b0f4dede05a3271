import GrpcWebnext.Ws.GoStreams
import GrpcWebnext.Ws.RustStreams

/-! One WebSocket, one RPC: how many backend calls a connection can make. -/
namespace GrpcWebnext.Ws
open Framing (Bytes)

/-- A plain route with a limit of four bytes, for runs on concrete frames. -/
def smallRoute : Route where
  maxMessageBytes := 4
  methodUrl := "/p.S/M".toList
  ann := none
  requestJsonToProto := .ok
  responseProtoToJsonBody := fun message _ => .ok message
  fromBase64 := some

def smallRust : RustServer.Config := { smallRoute with methodParses := true }

def smallGo : GoServer.Config := { smallRoute with marshals := fun _ => true }

/-- The binary frames of the runs below. -/
def openFrame : Inbound := .binary (some (some (.subscribe ⟨[], [], 0, []⟩)))

def resetMessage : Inbound := .binary (some (some (.reset 1 [])))

def oversizeMessage : Inbound := .binary (some (some (.message [1, 2, 3, 4, 5])))

/-- A connection on which no open frame is accepted once its stream has been torn
down makes at most one backend call, whatever else arrives and in whatever order
its parties move. -/
theorem one_call_unless_reopened (json : Option Bool) :
    (∀ (srv : RustServer.Config) (es : List RustServer.Event) (s : RustServer.Conn),
      Machine.Along (RustServer.step srv) (fun s e => RustServer.reopens srv s e = false)
        (.init json) es →
      Machine.run (RustServer.step srv) (.init json) es = some s → s.dispatched ≤ 1) ∧
    (∀ (srv : GoServer.Config) (es : List GoServer.Event) (s : GoServer.Conn),
      Machine.Along (GoServer.step srv) (fun s e => GoServer.reopens srv s e = false)
        (.init json) es →
      Machine.run (GoServer.step srv) (.init json) es = some s → s.dispatched ≤ 1) := by
  constructor
  · intro srv es s once h
    exact Nat.le_trans (RustServer.dispatched_le s) (RustServer.run_oneStream once h).one
  · intro srv es s once h
    exact Nat.le_trans (GoServer.dispatched_le s) (GoServer.run_oneStream once h).one

def rustTwice : List RustServer.Event :=
  [.receive openFrame, .wake 0, .run 0 .call, .receive resetMessage, .park 0,
    .receive openFrame, .wake 1, .run 1 .call]

def goTwice : List GoServer.Event :=
  [.receive openFrame, .run 0 (.checked none), .run 0 .dispatch, .receive resetMessage,
    .receive openFrame, .run 1 (.checked none), .run 1 .dispatch]

/-- Up to the second open frame the two runs are as they should be. -/
theorem one_call_before_reopening :
    (∀ s, Machine.run (RustServer.step smallRust) (.init none) (rustTwice.take 5) = some s →
      s.dispatched ≤ 1) ∧
    (∀ s, Machine.run (GoServer.step smallGo) (.init none) (goTwice.take 4) = some s →
      s.dispatched ≤ 1) ∧
    (Machine.run (RustServer.step smallRust) (.init none) (rustTwice.take 5)).isSome ∧
    (Machine.run (GoServer.step smallGo) (.init none) (goTwice.take 4)).isSome :=
  ⟨fun _ h => (one_call_unless_reopened none).1 _ _ _ (by decide) h,
    fun _ h => (one_call_unless_reopened none).2 _ _ _ (by decide) h, by decide, by decide⟩

/-- Subscribe, Reset, Subscribe: both servers call the backend twice. -/
theorem two_calls_on_one_socket :
    (Machine.run (RustServer.step smallRust) (.init none) rustTwice).map
        RustServer.Conn.dispatched = some 2 ∧
      (Machine.run (GoServer.step smallGo) (.init none) goTwice).map
        GoServer.Conn.dispatched = some 2 := by
  decide

end GrpcWebnext.Ws
