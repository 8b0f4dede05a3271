import GrpcWebnext.Ws.GoOutbound
import GrpcWebnext.Ws.OneCall
import GrpcWebnext.Ws.RustOutbound

/-! The grammar of the outbound frames, over every run of either server. -/
namespace GrpcWebnext.Ws

/-- Where the stream task and the read loop do not get into each other's way, a
connection writes an optional Header, Messages, at most one terminal frame, a Close,
and nothing behind it. -/
theorem written_grammatical_unless_clash (json : Option Bool) :
    (∀ (srv : RustServer.Config) (es : List RustServer.Event) (s : RustServer.Conn),
      Machine.Along (RustServer.step srv) (fun s e => RustServer.clashes srv s e = false)
        (.init json) es →
      Machine.run (RustServer.step srv) (.init json) es = some s → Grammatical s.written) ∧
    (∀ (srv : GoServer.Config) (es : List GoServer.Event) (s : GoServer.Conn),
      Machine.Along (GoServer.step srv) (fun s e => GoServer.clashes srv s e = false)
        (.init json) es →
      Machine.run (GoServer.step srv) (.init json) es = some s → Grammatical s.written) := by
  constructor
  · intro srv es s clear h
    exact (RustServer.run_ordered clear h).wire.grammatical
  · intro srv es s clear h
    exact (GoServer.run_ordered clear h).wire.grammatical

/-- The stream has queued its Trailer and is about to queue its Close when an oversize
Message arrives. -/
def rustRejected : List RustServer.Event :=
  [.receive openFrame, .wake 0, .run 0 .call, .run 0 (.answered (.ok [])), .run 0 .send,
    .run 0 .bodyEnd, .run 0 .send, .receive oversizeMessage, .flush, .flush,
    .write, .write, .write, .write]

def goRejected : List GoServer.Event :=
  [.receive openFrame, .run 0 (.checked none), .run 0 .dispatch, .run 0 (.answered []),
    .run 0 (.send true), .run 0 (.bodyEnd []), .run 0 .gate, .run 0 (.send true),
    .receive oversizeMessage, .flush true, .flush true, .write, .write, .write, .write]

/-- Up to the oversize Message nothing clashes. -/
theorem written_grammatical_before_rejection :
    (∀ s, Machine.run (RustServer.step smallRust) (.init none) (rustRejected.take 7) = some s →
      Grammatical s.written) ∧
    (∀ s, Machine.run (GoServer.step smallGo) (.init none) (goRejected.take 8) = some s →
      Grammatical s.written) ∧
    (Machine.run (RustServer.step smallRust) (.init none) (rustRejected.take 7)).isSome ∧
    (Machine.run (GoServer.step smallGo) (.init none) (goRejected.take 8)).isSome :=
  ⟨fun _ h => (written_grammatical_unless_clash none).1 _ _ _ (by decide) h,
    fun _ h => (written_grammatical_unless_clash none).2 _ _ _ (by decide) h, by decide, by decide⟩

/-- Both servers then write Header, Trailer, Reset and Close: two terminal frames. -/
theorem two_terminal_frames_written :
    (∃ s, Machine.run (RustServer.step smallRust) (.init none) rustRejected = some s ∧
      ¬ Grammatical s.written) ∧
    (∃ s, Machine.run (GoServer.step smallGo) (.init none) goRejected = some s ∧
      ¬ Grammatical s.written) := by
  have rust : (Machine.run (RustServer.step smallRust) (.init none) rustRejected).map
      (fun s => decide (Grammatical s.written)) = some false := by decide
  have go : (Machine.run (GoServer.step smallGo) (.init none) goRejected).map
      (fun s => decide (Grammatical s.written)) = some false := by decide
  constructor
  · obtain ⟨s, h, bad⟩ := Option.map_eq_some_iff.mp rust
    exact ⟨s, h, of_decide_eq_false bad⟩
  · obtain ⟨s, h, bad⟩ := Option.map_eq_some_iff.mp go
    exact ⟨s, h, of_decide_eq_false bad⟩

end GrpcWebnext.Ws
