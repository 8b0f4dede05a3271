import GrpcWebnext.TrailerCodec

/-! The body of a unary Fetch response, a message block and a Trailer block: `framing.rs` and
`framing.go` that write it, `framing.rs` and `frame.ts` that read it back. -/
namespace GrpcWebnext.FetchCodec
open Framing (Bytes)

/-- The generated codec of `Trailer`: `encode` and `decode` of prost, `proto.Marshal`, and
`Trailer.decode` of the TypeScript client. -/
structure TrailerCodec (T : Type) where
  encode : T → Bytes
  decode : Bytes → Except String T
  marshal : T → Option Bytes
  decodeTs : Bytes → Except String T

/-- A Trailer that the codec round-trips: what either server writes, either decoder reads back. -/
structure TrailerCodec.RoundTrips {T : Type} (codec : TrailerCodec T) (trailer : T) : Prop where
  rust : codec.decode (codec.encode trailer) = .ok trailer
  rustTs : codec.decodeTs (codec.encode trailer) = .ok trailer
  marshals : ∃ body, codec.marshal trailer = some body ∧ codec.decode body = .ok trailer ∧
    codec.decodeTs body = .ok trailer

/-- An error of the decoder, or an access outside of the bytes it was given. -/
inductive Fault (E : Type) where
  | thrown (error : E)
  | outOfRange

variable {T : Type} (codec : TrailerCodec T)

namespace Rust

inductive FetchError where
  | tooLarge (limit : Nat)
  | truncated (expected had : Nat)
  | decode (reason : String)

def lenPrefix : Nat := 4

/-- `encode_response_body`. -/
def encodeResponseBody (message : Bytes) (trailer : T) : Bytes :=
  Framing.be32 message.length ++ message ++ Framing.be32 (codec.encode trailer).length ++ codec.encode trailer

/-- `Buf::get_u32`, which panics where there are no four bytes. -/
def getU32 : Bytes → Except (Fault FetchError) (Nat × Bytes)
  | a :: b :: c :: d :: rest => .ok (Framing.ofBe32 a b c d, rest)
  | _ => .error .outOfRange

/-- `Bytes::split_to`, which panics beyond the end. -/
def splitTo (body : Bytes) (len : Nat) : Except (Fault FetchError) (Bytes × Bytes) :=
  if body.length < len then .error .outOfRange else .ok (body.take len, body.drop len)

/-- `take_block`. -/
def takeBlock (body : Bytes) : Except (Fault FetchError) (Bytes × Bytes) :=
  if body.length < lenPrefix then .error (.thrown (.truncated lenPrefix body.length))
  else (getU32 body).bind fun (len, body) =>
    if body.length < len then .error (.thrown (.truncated len body.length)) else splitTo body len

/-- `decode_response_body`. -/
def decodeResponseBody (body : Bytes) (limit : Nat) : Except (Fault FetchError) (Bytes × T) :=
  if limit < body.length then .error (.thrown (.tooLarge limit))
  else (takeBlock body).bind fun (message, body) => (takeBlock body).bind fun (trailerBytes, _) =>
    match codec.decode trailerBytes with
    | .ok trailer => .ok (message, trailer)
    | .error reason => .error (.thrown (.decode reason))

end Rust

namespace Go

/-- `encodeTrailerBlock`: where `proto.Marshal` fails, the block is empty. -/
def encodeTrailerBlock (trailer : T) : Bytes :=
  let body := (codec.marshal trailer).getD []
  Framing.be32 body.length ++ body

/-- `encodeResponseBody`. -/
def encodeResponseBody (message : Bytes) (trailer : T) : Bytes :=
  Framing.be32 message.length ++ message ++ encodeTrailerBlock codec trailer

end Go

namespace Ts

/-- A view of bytes in a buffer that may hold more than them. -/
structure Uint8Array where
  buffer : Bytes
  byteOffset : Nat
  byteLength : Nat
  inside : byteOffset + byteLength ≤ buffer.length

def Uint8Array.bytes (a : Uint8Array) : Bytes := (a.buffer.drop a.byteOffset).take a.byteLength

/-- `DataView.getUint32`, big-endian, of a view of the same bytes. -/
def getUint32 (a : Uint8Array) (offset : Nat) : Except (Fault String) Nat :=
  if a.byteLength < offset + 4 then .error .outOfRange
  else match a.buffer.drop (a.byteOffset + offset) with
    | x :: y :: z :: w :: _ => .ok (Framing.ofBe32 x y z w)
    | _ => .error .outOfRange

/-- `subarray`; positions beyond the end are the end. -/
def subarray (a : Uint8Array) (start end_ : Nat) : Uint8Array where
  buffer := a.buffer
  byteOffset := a.byteOffset + min start a.byteLength
  byteLength := min end_ a.byteLength - min start a.byteLength
  inside := by
    have := a.inside
    omega

/-- `takeBlock`: the bytes and where to go on. -/
def takeBlock (body : Uint8Array) (offset : Nat) : Except (Fault String) (Uint8Array × Nat) :=
  if body.byteLength < offset + 4 then .error (.thrown "truncated response: missing length prefix")
  else (getUint32 body offset).bind fun len =>
    let start := offset + 4
    let end_ := start + len
    if body.byteLength < end_ then .error (.thrown s!"truncated response: expected {len} bytes")
    else .ok (subarray body start end_, end_)

/-- `decodeFetchResponseBody`. -/
def decodeFetchResponseBody (body : Uint8Array) (limit : Nat) : Except (Fault String) (Uint8Array × T) :=
  if limit < body.byteLength then .error (.thrown s!"response body exceeds size limit ({limit} bytes)")
  else (takeBlock body 0).bind fun (message, next) => (takeBlock body next).bind fun (trailerBlock, _) =>
    match codec.decodeTs trailerBlock.bytes with
    | .ok trailer => .ok (message, trailer)
    | .error reason => .error (.thrown reason)

end Ts
/-- What `take_block` says of a body without a complete block. -/
def Rust.truncation : Bytes → FetchError
  | a :: b :: c :: d :: rest => .truncated (Framing.ofBe32 a b c d) rest.length
  | short => .truncated lenPrefix short.length

/-- `take_block` behind the length. -/
theorem Rust.takeBlock_of_len {body rest : Bytes} {len : Nat} (long : ¬ body.length < lenPrefix)
    (number : getU32 body = .ok (len, rest)) :
    takeBlock body = if rest.length < len then .error (.thrown (.truncated len rest.length))
      else .ok (rest.take len, rest.drop len) := by
  rw [takeBlock, if_neg long, number]
  dsimp only [Except.bind]
  by_cases beyond : rest.length < len
  · rw [if_pos beyond, if_pos beyond]
  · rw [if_neg beyond, if_neg beyond, splitTo, if_neg beyond]

/-- `take_block` reads a block, or else reports how far the body reaches. -/
theorem Rust.takeBlock_eq (body : Bytes) :
    takeBlock body = match Framing.readBlock body with
      | some found => .ok found
      | none => .error (.thrown (truncation body)) := by
  match body with
  | a :: b :: c :: d :: rest =>
      have long : ¬ (a :: b :: c :: d :: rest).length < lenPrefix := by
        simp only [List.length_cons, lenPrefix]
        omega
      rw [takeBlock_of_len long rfl, Framing.readBlock, truncation]
      by_cases complete : Framing.ofBe32 a b c d ≤ rest.length
      · rw [if_pos complete, if_neg (Nat.not_lt.mpr complete)]
      · rw [if_neg complete, if_pos (Nat.lt_of_not_le complete)]
  | [] => rfl
  | [_] => rfl
  | [_, _] => rfl
  | [_, _, _] => rfl

namespace Ts

theorem Uint8Array.bytes_length (a : Uint8Array) : a.bytes.length = a.byteLength := by
  have := a.inside
  rw [Uint8Array.bytes, List.length_take, List.length_drop]
  omega

/-- The bytes of a part are that part of the bytes. -/
theorem bytes_subarray (a : Uint8Array) {start end_ : Nat} (ordered : start ≤ end_)
    (inside : end_ ≤ a.byteLength) :
    (subarray a start end_).bytes = (a.bytes.drop start).take (end_ - start) := by
  simp only [Uint8Array.bytes, subarray, Nat.min_eq_left inside,
    Nat.min_eq_left (Nat.le_trans ordered inside)]
  rw [List.drop_take, List.drop_drop, List.take_take]
  congr 1
  omega

theorem getUint32_eq (a : Uint8Array) {offset : Nat} {x y z w : UInt8} {rest : Bytes}
    (here : a.bytes.drop offset = x :: y :: z :: w :: rest) :
    getUint32 a offset = .ok (Framing.ofBe32 x y z w) := by
  have size := congrArg List.length here
  rw [List.length_drop, a.bytes_length, List.length_cons, List.length_cons, List.length_cons,
    List.length_cons] at size
  rw [Uint8Array.bytes, List.drop_take, List.drop_drop] at here
  rw [getUint32, if_neg (by omega)]
  have more : ∀ (l : Bytes) (n : Nat), l.take n = x :: y :: z :: w :: rest →
    ∃ tail, l = x :: y :: z :: w :: tail := by
    intro l n same
    exact ⟨rest ++ l.drop n, by rw [← List.cons_append, ← List.cons_append, ← List.cons_append,
      ← List.cons_append, ← same,
      List.take_append_drop]⟩
  obtain ⟨tail, same⟩ := more _ _ here
  rw [same]

theorem length_drop (a : Uint8Array) (offset : Nat) :
    (a.bytes.drop offset).length = a.byteLength - offset := by
  rw [List.length_drop, a.bytes_length]

/-- `takeBlock` behind the length. -/
theorem takeBlock_of_len {a : Uint8Array} {offset len : Nat} (long : ¬ a.byteLength < offset + 4)
    (number : getUint32 a offset = .ok len) :
    takeBlock a offset = if a.byteLength < offset + 4 + len
      then .error (.thrown s!"truncated response: expected {len} bytes")
      else .ok (subarray a (offset + 4) (offset + 4 + len), offset + 4 + len) := by
  rw [takeBlock, if_neg long, number]
  rfl

/-- `takeBlock` reads a block, and goes on behind it. -/
theorem takeBlock_some {a : Uint8Array} {offset : Nat} {bytes rest : Bytes}
    (read : Framing.readBlock (a.bytes.drop offset) = some (bytes, rest)) :
    ∃ view next, takeBlock a offset = .ok (view, next) ∧ view.bytes = bytes ∧ a.bytes.drop next = rest := by
  obtain ⟨here, short⟩ := Framing.readBlock_inv read
  obtain ⟨x, y, z, w, spelled, number⟩ := Framing.be32_eq _ short
  rw [Framing.block, spelled, List.append_assoc] at here
  have size := congrArg List.length here
  rw [length_drop, List.length_append, List.length_append] at size
  have four : ([x, y, z, w] : Bytes).length = 4 := rfl
  have behind : a.bytes.drop (offset + 4) = bytes ++ rest := by
    rw [← List.drop_drop, here]
    rfl
  refine ⟨subarray a (offset + 4) (offset + 4 + bytes.length), offset + 4 + bytes.length, ?_, ?_, ?_⟩
  · rw [takeBlock_of_len (by omega) ((getUint32_eq a here).trans (congrArg Except.ok number)),
      if_neg (by omega)]
  · rw [bytes_subarray a (Nat.le_add_right _ _) (by omega), behind, Nat.add_sub_cancel_left, List.take_left]
  · rw [← List.drop_drop, behind, List.drop_left]

theorem takeBlock_none {a : Uint8Array} {offset : Nat}
    (read : Framing.readBlock (a.bytes.drop offset) = none) :
    ∃ message, takeBlock a offset = .error (.thrown message) := by
  have size := length_drop a offset
  have short : (a.bytes.drop offset).length < 4 →
    ∃ message, takeBlock a offset = .error (.thrown message) := by
    intro few
    rw [size] at few
    exact ⟨_, if_pos (by omega)⟩
  match here : a.bytes.drop offset with
  | x :: y :: z :: w :: rest =>
      rw [here, List.length_cons, List.length_cons, List.length_cons, List.length_cons] at size
      rw [takeBlock_of_len (by omega) (getUint32_eq a here)]
      have beyond : ¬ Framing.ofBe32 x y z w ≤ rest.length := by
        intro complete
        rw [here, Framing.readBlock, if_pos complete] at read
        cases read
      exact ⟨_, if_pos (by omega)⟩
  | [] | [_] | [_, _] | [_, _, _] =>
      refine short ?_
      rw [here]
      simp only [List.length_cons, List.length_nil]
      omega

end Ts

/-- A body as both servers write it: two blocks. -/
theorem Rust.encodeResponseBody_eq (message : Bytes) (trailer : T) :
    encodeResponseBody codec message trailer = Framing.block message ++
      Framing.block (codec.encode trailer) := by
  rw [encodeResponseBody, Framing.block, Framing.block, List.append_assoc]

theorem Go.encodeResponseBody_eq (message : Bytes) {trailer : T} {body : Bytes}
    (marshals : codec.marshal trailer = some body) :
    encodeResponseBody codec message trailer = Framing.block message ++ Framing.block body := by
  rw [encodeResponseBody, encodeTrailerBlock, marshals]
  rfl

/-- Both decoders read the two blocks at the front, and what they make of the Trailer's. -/
theorem Rust.decode_some {bytes message rest block behind : Bytes} {limit : Nat}
    (within : bytes.length ≤ limit)
    (first : Framing.readBlock bytes = some (message, rest))
    (second : Framing.readBlock rest = some (block, behind)) :
    decodeResponseBody codec bytes limit = match codec.decode block with
      | .ok trailer => .ok (message, trailer)
      | .error reason => .error (.thrown (.decode reason)) := by
  rw [decodeResponseBody, if_neg (Nat.not_lt.mpr within), takeBlock_eq, first]
  simp only [Except.bind]
  rw [takeBlock_eq, second]

theorem Rust.decode_none {bytes : Bytes} (limit : Nat)
    (truncated : ∀ message rest, Framing.readBlock bytes = some (message, rest) →
      Framing.readBlock rest = none) :
    ∃ e, decodeResponseBody codec bytes limit = .error (.thrown e) := by
  rw [decodeResponseBody]
  split
  · exact ⟨_, rfl⟩
  · rw [takeBlock_eq]
    cases first : Framing.readBlock bytes with
    | none => exact ⟨_, rfl⟩
    | some found =>
        obtain ⟨message, rest⟩ := found
        simp only [Except.bind]
        rw [takeBlock_eq, truncated message rest first]
        exact ⟨_, rfl⟩

theorem Ts.decode_some {a : Uint8Array} {message rest block behind : Bytes} {limit : Nat}
    (within : a.bytes.length ≤ limit)
    (first : Framing.readBlock a.bytes = some (message, rest))
    (second : Framing.readBlock rest = some (block, behind)) :
    ∃ view : Uint8Array, view.bytes = message ∧ decodeFetchResponseBody codec a limit =
      match codec.decodeTs block with
      | .ok trailer => .ok (view, trailer)
      | .error reason => .error (.thrown reason) := by
  obtain ⟨view, next, taken, bytes, left⟩ := @takeBlock_some a 0 _ _ first
  rw [← left] at second
  obtain ⟨view', next', taken', bytes', _⟩ := takeBlock_some second
  refine ⟨view, bytes, ?_⟩
  rw [a.bytes_length] at within
  rw [decodeFetchResponseBody, if_neg (Nat.not_lt.mpr within), taken]
  simp only [Except.bind]
  rw [taken']
  simp only [bytes']

theorem Ts.decode_none {a : Uint8Array} (limit : Nat)
    (truncated : ∀ message rest, Framing.readBlock a.bytes = some (message, rest) →
      Framing.readBlock rest = none) :
    ∃ e, decodeFetchResponseBody codec a limit = .error (.thrown e) := by
  rw [decodeFetchResponseBody]
  split
  · exact ⟨_, rfl⟩
  · cases first : Framing.readBlock a.bytes with
    | none =>
        obtain ⟨e, taken⟩ := @takeBlock_none a 0 first
        rw [taken]
        exact ⟨_, rfl⟩
    | some found =>
        obtain ⟨message, rest⟩ := found
        obtain ⟨view, next, taken, _, left⟩ := @takeBlock_some a 0 _ _ first
        have cut := truncated message rest first
        rw [← left] at cut
        obtain ⟨e, taken'⟩ := takeBlock_none cut
        rw [taken]
        simp only [Except.bind]
        rw [taken']
        exact ⟨_, rfl⟩

/-- Both decoders read the message and the Trailer off these bytes, wherever a buffer holds them. -/
structure Decodes (bytes : Bytes) (limit : Nat) (message : Bytes) (trailer : T) : Prop where
  rust : Rust.decodeResponseBody codec bytes limit = .ok (message, trailer)
  ts : ∀ a : Ts.Uint8Array, a.bytes = bytes →
    ∃ view : Ts.Uint8Array, view.bytes = message ∧ Ts.decodeFetchResponseBody codec a limit =
      .ok (view, trailer)

/-- Both decoders reject these bytes with an error of their own. -/
structure Rejects (bytes : Bytes) (limit : Nat) : Prop where
  rust : ∃ e, Rust.decodeResponseBody codec bytes limit = .error (.thrown e)
  ts : ∀ a : Ts.Uint8Array, a.bytes = bytes → ∃ e, Ts.decodeFetchResponseBody codec a limit =
    .error (.thrown e)

/-- Neither decoder reads out of range, and what it accepts are two blocks of these bytes. -/
structure InRange (bytes : Bytes) (limit : Nat) : Prop where
  rust : Rust.decodeResponseBody codec bytes limit ≠ .error .outOfRange
  ts : ∀ a : Ts.Uint8Array, a.bytes = bytes → Ts.decodeFetchResponseBody codec a limit ≠ .error .outOfRange
  accepted : ∀ message trailer, Rust.decodeResponseBody codec bytes limit = .ok (message, trailer) →
    ∃ block behind, bytes = Framing.block message ++ (Framing.block block ++ behind)
  acceptedTs : ∀ (a view : Ts.Uint8Array) (trailer : T), a.bytes = bytes →
    Ts.decodeFetchResponseBody codec a limit = .ok (view, trailer) →
      ∃ block behind, bytes = Framing.block view.bytes ++ (Framing.block block ++ behind)

theorem rejects_of_truncated {bytes : Bytes} (limit : Nat)
    (truncated : ∀ message rest, Framing.readBlock bytes = some (message, rest) →
      Framing.readBlock rest = none) :
    Rejects codec bytes limit where
  rust := Rust.decode_none codec limit truncated
  ts a same := Ts.decode_none codec limit (by rw [same]; exact truncated)

theorem decodes_blocks {message block : Bytes} (short : message.length < 2 ^ 32)
    (sized : block.length < 2 ^ 32)
    {trailer : T} (reads : codec.decode block = .ok trailer)
    (readsTs : codec.decodeTs block = .ok trailer) {limit : Nat}
    (within : (Framing.block message ++ Framing.block block).length ≤ limit) :
    Decodes codec (Framing.block message ++ Framing.block block) limit message trailer := by
  have first := Framing.readBlock_block short (Framing.block block)
  have second := Framing.readBlock_block sized []
  rw [List.append_nil] at second
  constructor
  · rw [Rust.decode_some codec within first second, reads]
  · intro a same
    rw [← same] at within first
    obtain ⟨view, bytes, decoded⟩ := Ts.decode_some codec within first second
    rw [readsTs] at decoded
    exact ⟨view, bytes, decoded⟩

/-- Wherever a body of two blocks is cut, one of them is not complete. -/
theorem rejects_cut {message block : Bytes} (short : message.length < 2 ^ 32) (sized : block.length < 2 ^ 32)
    {part rest : Bytes} (whole : part ++ rest = Framing.block message ++ Framing.block block)
    (cut : rest ≠ []) (limit : Nat) :
    Rejects codec part limit := by
  refine rejects_of_truncated codec limit fun found left read => ?_
  have extended := Framing.readBlock_extends _ _ _ rest read
  rw [whole, Framing.readBlock_block short] at extended
  simp only [Option.some.injEq, Prod.mk.injEq] at extended
  obtain ⟨_, same⟩ := extended
  refine Framing.readBlock_cut sized same.symm ?_
  rw [same, List.length_append]
  exact Nat.lt_add_of_pos_right (List.length_pos_iff.mpr cut)

theorem inRange (bytes : Bytes) (limit : Nat) : InRange codec bytes limit := by
  have rejected : Rejects codec bytes limit → InRange codec bytes limit := by
    intro rejects
    obtain ⟨e, refused⟩ := rejects.rust
    refine ⟨?_, fun a same => ?_, fun message trailer accepted => ?_, fun a view trailer same accepted => ?_⟩
    · rw [refused]
      simp
    · obtain ⟨e, refused⟩ := rejects.ts a same
      rw [refused]
      simp
    · cases refused.symm.trans accepted
    · obtain ⟨e, refused⟩ := rejects.ts a same
      cases refused.symm.trans accepted
  by_cases within : bytes.length ≤ limit
  · cases first : Framing.readBlock bytes with
    | none =>
        refine rejected (rejects_of_truncated codec limit fun message rest read => ?_)
        cases first.symm.trans read
    | some found =>
        obtain ⟨message, rest⟩ := found
        cases second : Framing.readBlock rest with
        | none =>
            refine rejected (rejects_of_truncated codec limit fun message' rest' read => ?_)
            cases first.symm.trans read
            exact second
        | some found =>
            obtain ⟨block, behind⟩ := found
            have blocks : bytes = Framing.block message ++ (Framing.block block ++ behind) := by
              rw [← (Framing.readBlock_inv second).1]
              exact (Framing.readBlock_inv first).1
            have rust := Rust.decode_some codec within first second
            refine ⟨?_, fun a same => ?_, fun message' trailer accepted =>
              ?_, fun a view trailer same accepted => ?_⟩
            · rw [rust]
              split <;> simp
            · subst same
              obtain ⟨view, _, decoded⟩ := Ts.decode_some codec within first second
              rw [decoded]
              split <;> simp
            · rw [rust] at accepted
              split at accepted
              · cases accepted
                exact ⟨block, behind, blocks⟩
              · cases accepted
            · subst same
              obtain ⟨view', read, decoded⟩ := Ts.decode_some codec within first second
              rw [decoded] at accepted
              split at accepted
              · cases accepted
                rw [read]
                exact ⟨block, behind, blocks⟩
              · cases accepted
  · have large := Nat.lt_of_not_le within
    refine rejected ⟨⟨_, if_pos large⟩, fun a same => ⟨_, if_pos ?_⟩⟩
    rw [← a.bytes_length, same]
    exact large

/-- The body codec round-trips and rejects every truncation, whichever server writes and
whichever decoder reads, and no decoder reads out of range. -/
theorem response_body_codec {message : Bytes} {trailer : T} {body : Bytes} {limit : Nat}
    (trips : codec.RoundTrips trailer)
    (short : message.length < 2 ^ 32) (sized : (codec.encode trailer).length < 2 ^ 32)
    (marshalSized : ∀ block, codec.marshal trailer = some block → block.length < 2 ^ 32)
    (written : body = Rust.encodeResponseBody codec message trailer ∨
      body = Go.encodeResponseBody codec message trailer)
    (within : body.length ≤ limit) :
    Decodes codec body limit message trailer ∧
      (∀ part rest, part ++ rest = body → rest ≠ [] → Rejects codec part limit) ∧
        ∀ bytes limit, InRange codec bytes limit := by
  obtain ⟨block, same, small, reads, readsTs⟩ : ∃ block, body = Framing.block message ++ Framing.block block ∧
      block.length < 2 ^ 32 ∧ codec.decode block = .ok trailer ∧ codec.decodeTs block = .ok trailer := by
    rcases written with rust | go
    · exact ⟨_, rust.trans (Rust.encodeResponseBody_eq codec message trailer), sized, trips.rust,
        trips.rustTs⟩
    · obtain ⟨block, marshals, reads, readsTs⟩ := trips.marshals
      exact ⟨block, go.trans (Go.encodeResponseBody_eq codec message marshals),
        marshalSized block marshals, reads, readsTs⟩
  subst same
  refine ⟨decodes_blocks codec short small reads readsTs within, fun part rest whole cut => ?_, inRange codec⟩
  exact rejects_cut codec short small whole cut limit

/-- The codec on a Trailer of a small status code and nothing else. -/
def statusCodec : TrailerCodec Trailer where
  encode t := t.encode
  decode
    | [] => .ok ⟨0, [], []⟩
    | [8, code] => if code < 128 then .ok ⟨code.toNat, [], []⟩ else .error "invalid varint"
    | _ => .error "unsupported"
  marshal t := if Go.marshals t then some t.encode else none
  decodeTs
    | [] => .ok ⟨0, [], []⟩
    | [8, code] => if code < 128 then .ok ⟨code.toNat, [], []⟩ else .error "premature EOF"
    | _ => .error "unsupported"

theorem status_body_codec :
    Decodes statusCodec (Rust.encodeResponseBody statusCodec [7] ⟨5, [], []⟩) 11 [7] ⟨5, [], []⟩ := by
  have trips : statusCodec.RoundTrips ⟨5, [], []⟩ := ⟨rfl, rfl, ⟨_, rfl, rfl, rfl⟩⟩
  refine (response_body_codec statusCodec trips (by decide) (by decide) ?_ (.inl rfl) (by decide)).1
  intro block marshals
  cases marshals
  decide

end GrpcWebnext.FetchCodec
