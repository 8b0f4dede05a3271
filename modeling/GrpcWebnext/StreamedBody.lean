import GrpcWebnext.FetchCodec
import GrpcWebnext.FetchStatus

/-! The streamed `+proto` body against the buffered one: a backend body of at most one
frame, forwarded chunk by chunk without being parsed, comes out as the encoder of whole
bodies writes it. -/
namespace GrpcWebnext.StreamedBody
open Framing (Bytes be32 frame)
open FetchCodec (TrailerCodec)

/-- The codec of `Trailer` as both servers encode it, with any decoders. -/
def wireCodec (decode decodeTs : Bytes → Except String Trailer) : TrailerCodec Trailer where
  encode := Trailer.encode
  decode := decode
  marshal t := if Go.marshals t then some t.encode else none
  decodeTs := decodeTs

/-- A body of one uncompressed frame, or an empty one for the empty message. -/
inductive Carried : Bytes → Bytes → Prop where
  | empty : Carried [] []
  | one (message : Bytes) (short : message.length < 2 ^ 32) : Carried (frame 0 message) message

/-- Behind the flag a frame is the message block, and an empty body has the empty block. -/
theorem Carried.block {body message : Bytes} (carried : Carried body message) :
    (if body.drop 1 = [] then emptyMessageBlock else body.drop 1) = be32 message.length ++ message := by
  cases carried with
  | empty => rfl
  | one message short =>
      have tail : (frame 0 message).drop 1 = be32 message.length ++ message := rfl
      have some : be32 message.length ++ message ≠ [] := by
        simp [be32]
      rw [tail, if_neg some]

theorem rust_encode (decode decodeTs : Bytes → Except String Trailer) (message : Bytes) (t : Trailer) :
    FetchCodec.Rust.encodeResponseBody (wireCodec decode decodeTs) message t =
      be32 message.length ++ message ++ encodeTrailerBlock t :=
  List.append_assoc _ _ _

theorem go_encode (decode decodeTs : Bytes → Except String Trailer) (message : Bytes) (t : Trailer) :
    FetchCodec.Go.encodeResponseBody (wireCodec decode decodeTs) message t =
      be32 message.length ++ message ++ Go.encodeTrailerBlock t := by
  have block : FetchCodec.Go.encodeTrailerBlock (wireCodec decode decodeTs) t = Go.encodeTrailerBlock t := by
    have body : ((wireCodec decode decodeTs).marshal t).getD [] = if Go.marshals t then t.encode else [] := by
      simp only [wireCodec]
      split <;> rfl
    simp only [FetchCodec.Go.encodeTrailerBlock, Go.encodeTrailerBlock, body]
  rw [FetchCodec.Go.encodeResponseBody, block]

/-- However the body is cut into chunks, the bytes that either server streams are those of
the whole message and its Trailer encoded at once. -/
theorem streamed_eq_buffered (fromBase64 : Bytes → Option Bytes)
    (decode decodeTs : Bytes → Except String Trailer) {r : Response Bytes} {message : Bytes}
    (whole : r.ending.whole = true) (carried : Carried r.body message) :
    Rust.bodyBytes (Rust.unaryProto fromBase64 (.answered r)) =
        FetchCodec.Rust.encodeResponseBody (wireCodec decode decodeTs) message
          (Rust.trailerOf fromBase64 r) ∧
      Go.bodyBytes (Go.unaryProto fromBase64 (.answered r)) =
        FetchCodec.Go.encodeResponseBody (wireCodec decode decodeTs) message
          (Go.trailerOf fromBase64 r) := by
  have opened : (if relay 1 r.chunks = [] then [emptyMessageBlock] else relay 1 r.chunks).flatten =
      be32 message.length ++ message := (opened_flatten r.chunks).trans carried.block
  rw [rust_encode, go_encode]
  simp only [Rust.unaryProto, Rust.streamResponse, Go.unaryProto, Go.streamResponse]
  cases ending : r.ending with
  | bare | trailers block =>
      simp only [reduceCtorEq, if_false, Rust.bodyBytes, Go.bodyBytes, opened]
      exact ⟨rfl, rfl⟩
  | failed reason | expired =>
      rw [ending] at whole
      cases whole

/-- The flag alone in a chunk, the length split, empty chunks around. -/
theorem split_flag_eq_buffered :
    Rust.bodyBytes (Rust.unaryProto some (.answered
        ⟨[], [[], [0], [0, 0], [0, 1, 7], []], .trailers [("grpc-status".toList, utf8 "5")]⟩)) =
      [0, 0, 0, 1, 7, 0, 0, 0, 2, 8, 5] ∧
    Go.bodyBytes (Go.unaryProto some (.answered
        ⟨[], [[], [0], [0, 0], [0, 1, 7], []], .trailers [("grpc-status".toList, utf8 "5")]⟩)) =
      [0, 0, 0, 1, 7, 0, 0, 0, 2, 8, 5] := by
  obtain ⟨rust, go⟩ := streamed_eq_buffered some (fun _ => .error "unread") (fun _ => .error "unread")
    (r := ⟨[], [[], [0], [0, 0], [0, 1, 7], []], .trailers [("grpc-status".toList, utf8 "5")]⟩)
    rfl (Carried.one [7] (by decide))
  constructor
  · rw [rust]
    decide
  · rw [go]
    decide

theorem takeBlock_eq (body : Bytes) : Ts.takeBlock body = Framing.readBlock body := by
  match body with
  | _ :: _ :: _ :: _ :: _ => rfl
  | [] | [_] | [_, _] | [_, _, _] => rfl

/-- The status of a call is what the decoder of `frame.ts` reads, whatever buffer the body is
a view of. -/
theorem decodeFetchResponseBody_view {reader : ProtoWire.Reader} {codec : TrailerCodec Ts.Trailer}
    (reads : ∀ block, (codec.decodeTs block).toOption = Ts.decodeTrailer reader block)
    (a : FetchCodec.Ts.Uint8Array) (limit : Nat) :
    ((FetchCodec.Ts.decodeFetchResponseBody codec a limit).toOption.map fun read => (read.1.bytes, read.2)) =
      Ts.decodeFetchResponseBody reader a.bytes limit := by
  rw [Ts.decodeFetchResponseBody]
  by_cases within : a.bytes.length ≤ limit
  · rw [if_neg (Nat.not_lt.mpr within), takeBlock_eq]
    cases first : Framing.readBlock a.bytes with
    | none =>
        obtain ⟨e, refused⟩ := FetchCodec.Ts.decode_none codec limit fun message rest found => by
          rw [first] at found
          cases found
        rw [refused]
        rfl
    | some found =>
        obtain ⟨message, rest⟩ := found
        rw [Option.bind_some, takeBlock_eq]
        cases second : Framing.readBlock rest with
        | none =>
            obtain ⟨e, refused⟩ := FetchCodec.Ts.decode_none codec limit fun other left found => by
              rw [first] at found
              cases found
              exact second
            rw [refused]
            rfl
        | some found =>
            obtain ⟨block, behind⟩ := found
            obtain ⟨view, bytes, decoded⟩ := FetchCodec.Ts.decode_some codec within first second
            rw [decoded, Option.bind_some, ← reads]
            cases codec.decodeTs block with
            | error reason => rfl
            | ok trailer => exact congrArg (fun bytes => some (bytes, trailer)) bytes
  · rw [if_pos (Nat.lt_of_not_le within), FetchCodec.Ts.decodeFetchResponseBody,
      if_pos (by rw [← a.bytes_length]; exact Nat.lt_of_not_le within)]
    rfl

end GrpcWebnext.StreamedBody
