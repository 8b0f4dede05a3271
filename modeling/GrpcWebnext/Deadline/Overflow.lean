import GrpcWebnext.Deadline.Forwarded

/-! The sums that the paths of the Rust server make with a deadline, on 64-bit clocks. -/
namespace GrpcWebnext.Deadline.Armed
open Framing (Bytes)
open Time (Duration Instant)
open Deadline.Rust

/-- What a path has made of a deadline: the forwarded header, and when the body is cut. -/
structure Request where
  grpcTimeout : Option Bytes
  deadlineAt : Option Instant

/-- `unary_proto`; a sum out of range is a panic, `none`. The instant is the one at which the
response opens, if it does before the timer over its opening. That timer is tokio's own: it
takes the far future for a sum out of range. -/
def unaryProto (headers : HeaderMap) (opened : Option Instant) : Option Request :=
  match parseGrpcTimeout headers with
  | none => some ⟨none, none⟩
  | some d => (forwarded d).bind fun grpcTimeout =>
      match opened with
      | none => some ⟨some grpcTimeout, none⟩
      | some now => (now.add d).map fun deadlineAt => ⟨some grpcTimeout, some deadlineAt⟩

/-- `json_upstream`, with one timer of tokio over the whole call. -/
def jsonUpstream (headers : HeaderMap) : Option Request :=
  match parseGrpcTimeout headers with
  | none => some ⟨none, none⟩
  | some d => (forwarded d).map fun grpcTimeout => ⟨some grpcTimeout, none⟩

/-- `run_stream`, likewise. -/
def runStream (timeoutMillis : UInt32) : Option Request :=
  match grpcTimeoutFromMillis timeoutMillis with
  | none => some ⟨none, none⟩
  | some d => (forwarded d).map fun grpcTimeout => ⟨some grpcTimeout, none⟩

/-- The instant of the cut is out of range exactly when the header asks for more than the clock
has left. -/
theorem unaryProto_eq_none_iff (headers : HeaderMap) (opened : Option Instant) :
    unaryProto headers opened = none ↔
      ∃ d value nanos now, parseGrpcTimeout headers = some d ∧ headers.get "grpc-timeout" = some value ∧
        Asks value nanos ∧ opened = some now ∧ 2 ^ 63 * 10 ^ 9 ≤ now.toNanos + nanos := by
  unfold unaryProto
  cases accepted : parseGrpcTimeout headers with
  | none => exact iff_of_false (by simp) (by rintro ⟨_, _, _, _, other, _⟩; cases other)
  | some d =>
      obtain ⟨value, found, asks, bound⟩ := Rust.accepted accepted
      obtain ⟨sent, fits⟩ := forwarded_of_bound bound
      dsimp only
      rw [fits, Option.bind_some]
      cases opened with
      | none => exact iff_of_false (by simp) (by rintro ⟨_, _, _, _, _, _, _, other, _⟩; cases other)
      | some now =>
          rw [Option.map_eq_none_iff, Instant.add_eq_none_iff]
          constructor
          · intro beyond
            exact ⟨d, value, d.toNanos, now, rfl, found, asks, rfl, beyond⟩
          · rintro ⟨_, value', nanos, _, -, found', asks', same, beyond⟩
            cases same
            cases found.symm.trans found'
            rwa [asks.unique asks']

theorem jsonUpstream_ne_none (headers : HeaderMap) : jsonUpstream headers ≠ none := by
  unfold jsonUpstream
  cases accepted : parseGrpcTimeout headers with
  | none => exact Option.some_ne_none _
  | some d =>
      obtain ⟨value, found, asks, bound⟩ := Rust.accepted accepted
      obtain ⟨sent, fits⟩ := forwarded_of_bound bound
      dsimp only
      rw [fits, Option.map_some]
      exact Option.some_ne_none _

theorem runStream_ne_none (timeoutMillis : UInt32) : runStream timeoutMillis ≠ none := by
  unfold runStream
  cases given : grpcTimeoutFromMillis timeoutMillis with
  | none => exact Option.some_ne_none _
  | some d =>
      have small := timeoutMillis.toNat_lt
      have nanos := fromMillis_nanos given
      obtain ⟨sent, fits⟩ := forwarded_of_bound (d := d) (by omega)
      dsimp only
      rw [fits, Option.map_some]
      exact Option.some_ne_none _

/-- The grace always fits on a deadline. The sum with the clock does not: a response that opens
takes its handler down when the header asks for more than the clock has left. -/
theorem deadline_panics_iff (headers : HeaderMap) (opened : Option Instant) (timeoutMillis : UInt32) :
    (unaryProto headers opened = none ↔
      ∃ d value nanos now, parseGrpcTimeout headers = some d ∧ headers.get "grpc-timeout" = some value ∧
        Asks value nanos ∧ opened = some now ∧ 2 ^ 63 * 10 ^ 9 ≤ now.toNanos + nanos) ∧
    jsonUpstream headers ≠ none ∧ runStream timeoutMillis ≠ none :=
  ⟨unaryProto_eq_none_iff headers opened, jsonUpstream_ne_none headers, runStream_ne_none timeoutMillis⟩

/-- A second after the clock began, a deadline of all its seconds is out of range. -/
theorem deadline_overflows :
    unaryProto [("grpc-timeout".toList, utf8 "9223372036854775807S")]
      (some ⟨1, 0, by decide, by decide, by decide⟩) =
      none := by
  decide

end GrpcWebnext.Deadline.Armed
