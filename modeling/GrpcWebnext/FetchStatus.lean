import GrpcWebnext.TrailerCodec

/-! The status of a `+proto` Fetch call end to end: the body the edge streams, and what
the TypeScript client takes for its Trailer. -/
namespace GrpcWebnext
open Framing
open ProtoWire (Reader)
open Text (Str)

def Rust.bodyBytes (r : FetchResponse) : Bytes := r.blocks.flatten ++ r.trailer.elim [] encodeTrailerBlock

def Go.bodyBytes (r : FetchResponse) : Bytes :=
  r.blocks.flatten ++ r.trailer.elim [] Go.encodeTrailerBlock

namespace Ts

def takeBlock : Bytes → Option (Bytes × Bytes)
  | a :: b :: c :: d :: rest =>
      if ofBe32 a b c d ≤ rest.length then
        some (rest.take (ofBe32 a b c d), rest.drop (ofBe32 a b c d))
      else none
  | _ => none

def decodeFetchResponseBody (reader : Reader) (body : Bytes) (limit : Nat) : Option (Bytes × Trailer) :=
  if limit < body.length then none
  else (takeBlock body).bind fun message => (takeBlock message.2).bind fun trailer =>
    (decodeTrailer reader trailer.1).map (message.1, ·)

end Ts

/-- A response that carries whole messages and a final status. -/
structure Reply where
  response : Response Bytes
  messages : List (UInt8 × Bytes)
  framed : response.body = messages.flatMap fun m => frame m.1 m.2
  sized : ∀ m ∈ messages, m.2.length < 2 ^ 32
  whole : response.ending.whole = true
  code : Nat
  coded : code < 2 ^ 32
  value : Bytes
  received : HeaderMap.get response.trailers "grpc-status" = some value ∨
    (response.trailers = [] ∧ HeaderMap.get response.headers "grpc-status" = some value)
  denotes : decimal (value.map fun b => Char.ofNat b.toNat) = some code

theorem digit_visible : ∀ n < 256, (Char.ofNat n).isDigit = true → 32 ≤ n ∧ n < 127 := by
  decide +kernel

theorem decimal_digits {s : Str} {n : Nat} (h : decimal s = some n) :
    s ≠ [] ∧ ∀ c ∈ s, c.isDigit = true := by
  unfold decimal at h
  split at h
  · rename_i digits
    exact ⟨digits.1, List.all_eq_true.mp digits.2⟩
  · cases h

namespace Reply
variable (reply : Reply)

theorem looked_up (name : HeaderMap → Option Bytes) (empty : name [] = none)
    (received : name reply.response.trailers = some reply.value ∨
      (reply.response.trailers = [] ∧ name reply.response.headers = some reply.value)) :
    (name reply.response.trailers).or (name reply.response.headers) = some reply.value := by
  rcases received with trailers | ⟨none, headers⟩
  · rw [trailers]
    rfl
  · rw [none, empty, headers]
    rfl

theorem rust_statusCode :
    Rust.statusCode reply.response.trailers reply.response.headers = some reply.code := by
  obtain ⟨_, digits⟩ := decimal_digits reply.denotes
  have visible : toStr reply.value = some (reply.value.map fun b => Char.ofNat b.toNat) := by
    refine if_pos (List.all_eq_true.mpr fun b member => ?_)
    obtain ⟨low, high⟩ := digit_visible b.toNat b.toNat_lt
      (digits _ (List.mem_map_of_mem member))
    simp [UInt8.le_iff_toNat_le, UInt8.lt_iff_toNat_lt, low, high]
  have unsigned : Rust.parseU32 (reply.value.map fun b => Char.ofNat b.toNat) = some reply.code := by
    unfold Rust.parseU32
    split
    · rename_i n read
      split at read
      · rename_i rest text
        rw [text] at digits
        exact absurd (digits '+' List.mem_cons_self) (by decide)
      · rw [reply.denotes] at read
        cases read
        exact if_pos reply.coded
    · rename_i read
      split at read
      · rename_i rest text
        rw [text] at digits
        exact absurd (digits '+' List.mem_cons_self) (by decide)
      · rw [reply.denotes] at read
        cases read
  unfold Rust.statusCode
  rw [reply.looked_up (fun block => HeaderMap.get block "grpc-status") rfl reply.received,
    Option.bind_some, visible, Option.bind_some, unsigned]

theorem go_statusCode :
    Go.statusCode reply.response.trailers reply.response.headers = some reply.code := by
  have some : reply.value ≠ [] := by
    intro none
    have digits := (decimal_digits reply.denotes).1
    rw [none] at digits
    exact digits rfl
  have found : Go.lookup reply.response.trailers reply.response.headers "grpc-status" =
      reply.value := by
    unfold Go.lookup
    rcases reply.received with trailers | ⟨none, headers⟩
    · rw [trailers, Option.getD_some]
      cases text : reply.value with
      | nil => exact absurd text some
      | cons b rest => rfl
    · rw [none, headers]
      rfl
  unfold Go.statusCode Go.parseUint32
  rw [found, reply.denotes]
  exact if_pos reply.coded

end Reply

theorem relay_flatten (chunks : List Bytes) :
    ∀ skip, (relay skip chunks).flatten = chunks.flatten.drop skip := by
  induction chunks with
  | nil =>
      intro skip
      simp [relay]
  | cons chunk chunks ih =>
      intro skip
      simp only [relay, List.flatten_cons, List.drop_append]
      split
      · rename_i gone
        rw [ih, gone, List.nil_append]
      · rw [List.flatten_cons, ih]

theorem relay_ne_nil (chunks : List Bytes) : ∀ skip, ∀ block ∈ relay skip chunks, block ≠ [] := by
  induction chunks with
  | nil =>
      intro skip block member
      cases member
  | cons chunk chunks ih =>
      intro skip block member
      simp only [relay] at member
      split at member
      · exact ih _ block member
      · rcases List.mem_cons.mp member with rfl | later
        · assumption
        · exact ih _ block later

theorem relay_eq_nil_iff (chunks : List Bytes) (skip : Nat) :
    relay skip chunks = [] ↔ chunks.flatten.drop skip = [] := by
  rw [← relay_flatten chunks skip]
  constructor
  · intro silent
    rw [silent]
    rfl
  · intro none
    rw [List.flatten_eq_nil_iff] at none
    exact List.eq_nil_iff_forall_not_mem.mpr fun block member =>
      relay_ne_nil chunks skip block member (none block member)

/-- What is written in front of the Trailer of a body that was forwarded to its end. -/
theorem opened_flatten (chunks : List Bytes) :
    (if relay 1 chunks = [] then [emptyMessageBlock] else relay 1 chunks).flatten =
      if chunks.flatten.drop 1 = [] then emptyMessageBlock else chunks.flatten.drop 1 := by
  have bytes := relay_flatten chunks 1
  simp only [relay_eq_nil_iff]
  split
  · rfl
  · exact bytes

/-- The body in front of the Trailer: only the flag of the first message is dropped. -/
def lead : List (UInt8 × Bytes) → Bytes
  | [] => emptyMessageBlock
  | (_, message) :: rest =>
      be32 message.length ++ (message ++ rest.flatMap fun m => frame m.1 m.2)

theorem Reply.lead_eq (reply : Reply) :
    (if relay 1 reply.response.chunks = [] then [emptyMessageBlock]
      else relay 1 reply.response.chunks).flatten = lead reply.messages := by
  have bytes : reply.response.chunks.flatten = reply.messages.flatMap fun m => frame m.1 m.2 :=
    reply.framed
  rw [opened_flatten, bytes]
  cases reply.messages with
  | nil => rfl
  | cons m rest => simp [frame, be32, lead]

theorem takeBlock_be32 (n : Nat) (rest : Bytes) :
    Ts.takeBlock (be32 n ++ rest) =
      if n % 2 ^ 32 ≤ rest.length then some (rest.take (n % 2 ^ 32), rest.drop (n % 2 ^ 32))
      else none := by
  have denotes : ofBe32 (UInt8.ofNat (n / 2 ^ 24)) (UInt8.ofNat (n / 2 ^ 16))
      (UInt8.ofNat (n / 2 ^ 8)) (UInt8.ofNat n) = n % 2 ^ 32 := by
    simp only [ofBe32, UInt8.toNat_ofNat']
    omega
  simp only [be32, List.cons_append, List.nil_append, Ts.takeBlock, denotes]

theorem emptyMessageBlock_eq : emptyMessageBlock = be32 ([] : Bytes).length := by decide

theorem takeBlock_whole {message : Bytes} (small : message.length < 2 ^ 32) (rest : Bytes) :
    Ts.takeBlock (be32 message.length ++ (message ++ rest)) = some (message, rest) := by
  rw [takeBlock_be32, Nat.mod_eq_of_lt small, List.length_append, if_pos (Nat.le_add_right _ _),
    List.take_left, List.drop_left]

/-- What stands where the client looks for the Trailer when a second message follows
the first: the flag and the three high bytes of its length are taken for a length, and
the block begins at the low byte. -/
def strayBlock (flag : UInt8) (message rest : Bytes) : Option Bytes :=
  let n := flag.toNat * 2 ^ 24 + message.length / 256
  let behind := UInt8.ofNat message.length :: (message ++ rest)
  if n ≤ behind.length then some (behind.take n) else none

theorem takeBlock_frame (flag : UInt8) {message : Bytes} (small : message.length < 2 ^ 32)
    (rest : Bytes) :
    (Ts.takeBlock (frame flag message ++ rest)).map Prod.fst = strayBlock flag message rest := by
  have denotes : ofBe32 flag (UInt8.ofNat (message.length / 2 ^ 24))
      (UInt8.ofNat (message.length / 2 ^ 16)) (UInt8.ofNat (message.length / 2 ^ 8)) =
        flag.toNat * 2 ^ 24 + message.length / 256 := by
    simp only [ofBe32, UInt8.toNat_ofNat']
    omega
  simp only [frame, be32, List.cons_append, List.nil_append, Ts.takeBlock, denotes, strayBlock]
  split <;> rfl

/-- The block the client decodes as the Trailer, for the messages and the encoded
Trailer of the backend. -/
def trailerBlock : List (UInt8 × Bytes) → Bytes → Option Bytes
  | _ :: (flag, message) :: rest, enc =>
      strayBlock flag message ((rest.flatMap fun m => frame m.1 m.2) ++ (be32 enc.length ++ enc))
  | _, enc => some (enc.take (enc.length % 2 ^ 32))

theorem decode_lead (reader : Reader) (limit : Nat) (messages : List (UInt8 × Bytes))
    (sized : ∀ m ∈ messages, m.2.length < 2 ^ 32) (enc : Bytes)
    (fits : ¬ limit < (lead messages ++ (be32 enc.length ++ enc)).length) :
    ∃ message, Ts.decodeFetchResponseBody reader (lead messages ++ (be32 enc.length ++ enc)) limit =
      (trailerBlock messages enc).bind fun block =>
        (Ts.decodeTrailer reader block).map (message, ·) := by
  have last : Ts.takeBlock (be32 enc.length ++ enc) =
      some (enc.take (enc.length % 2 ^ 32), enc.drop (enc.length % 2 ^ 32)) := by
    rw [takeBlock_be32, if_pos (Nat.mod_le _ _)]
  unfold Ts.decodeFetchResponseBody
  rw [if_neg fits]
  cases messages with
  | nil =>
      refine ⟨[], ?_⟩
      have first : Ts.takeBlock (lead [] ++ (be32 enc.length ++ enc)) =
          some ([], be32 enc.length ++ enc) := by
        rw [lead, emptyMessageBlock_eq]
        exact takeBlock_whole (by decide : ([] : Bytes).length < 2 ^ 32) (be32 enc.length ++ enc)
      rw [first, Option.bind_some, last, Option.bind_some, trailerBlock, Option.bind_some]
      exact fun _ _ _ _ two => by cases two
  | cons m rest =>
      obtain ⟨flag, message⟩ := m
      have small := sized (flag, message) List.mem_cons_self
      refine ⟨message, ?_⟩
      have first : Ts.takeBlock (lead ((flag, message) :: rest) ++ (be32 enc.length ++ enc)) =
          some (message, (rest.flatMap fun m => frame m.1 m.2) ++ (be32 enc.length ++ enc)) := by
        rw [lead, List.append_assoc, List.append_assoc]
        exact takeBlock_whole small _
      rw [first, Option.bind_some]
      cases rest with
      | nil =>
          rw [List.flatMap_nil, List.nil_append, last, Option.bind_some, trailerBlock,
            Option.bind_some]
          exact fun _ _ _ _ two => by cases two
      | cons second rest =>
          have stray := takeBlock_frame second.1 (sized second (by simp))
            ((rest.flatMap fun m => frame m.1 m.2) ++ (be32 enc.length ++ enc))
          rw [List.flatMap_cons, List.append_assoc]
          rw [trailerBlock, ← stray]
          cases Ts.takeBlock (frame second.1 second.2 ++
            ((rest.flatMap fun m => frame m.1 m.2) ++ (be32 enc.length ++ enc))) with
          | none => simp only [Option.map_none, Option.bind_none]
          | some found => simp only [Option.map_some, Option.bind_some]

/-- A non-OK status is decoded as itself, if at all, and OK only where it was OK. -/
def Faithful (decoded : Option (Bytes × Ts.Trailer)) (code : Nat) : Prop :=
  ∀ message trailer, decoded = some (message, trailer) →
    (trailer.statusCode = 0 → code = 0) ∧ (code ≠ 0 → trailer.statusCode = code)

/-- The block does not decode, or says the code. -/
def States (reader : Reader) (code : Nat) (block : Option Bytes) : Prop :=
  ∀ bytes trailer, block = some bytes → Ts.decodeTrailer reader bytes = some trailer →
    trailer.statusCode = code

theorem faithful_iff (reader : Reader) (limit : Nat) (reply : Reply) (enc : Bytes) :
    Faithful (Ts.decodeFetchResponseBody reader (lead reply.messages ++ (be32 enc.length ++ enc)) limit)
        reply.code ↔
      reply.code = 0 ∨ limit < (lead reply.messages ++ (be32 enc.length ++ enc)).length ∨
        States reader reply.code (trailerBlock reply.messages enc) := by
  by_cases zero : reply.code = 0
  · simp [Faithful, zero]
  · by_cases large : limit < (lead reply.messages ++ (be32 enc.length ++ enc)).length
    · have refused : Ts.decodeFetchResponseBody reader
          (lead reply.messages ++ (be32 enc.length ++ enc)) limit = none := if_pos large
      rw [refused]
      exact ⟨fun _ => .inr (.inl large), fun _ _ _ found => by cases found⟩
    · obtain ⟨message, decoded⟩ := decode_lead reader limit reply.messages reply.sized enc large
      rw [decoded]
      simp only [zero, large, false_or]
      constructor
      · intro faithful block trailer found read
        refine (faithful message trailer ?_).2 zero
        rw [found, Option.bind_some, read]
        rfl
      · intro states m trailer read
        obtain ⟨block, found, read⟩ := Option.bind_eq_some_iff.mp read
        obtain ⟨t, read, same⟩ := Option.map_eq_some_iff.mp read
        cases same
        have code := states block trailer found read
        exact ⟨fun ok => absurd (code.symm.trans ok) zero, fun _ => code⟩

theorem states_empty_iff (reader : Reader) (code : Nat) : States reader code (some []) ↔ code = 0 := by
  have default : Ts.decodeTrailer reader [] = some ⟨0, [], []⟩ := rfl
  constructor
  · intro states
    exact (states [] _ rfl default).symm
  · rintro rfl bytes trailer found read
    cases found
    rw [default] at read
    cases read
    rfl

/-- A second message of less than 256 bytes leaves the client with an empty Trailer. -/
theorem strayBlock_small {message : Bytes} (small : message.length < 256) (rest : Bytes) :
    strayBlock 0 message rest = some [] := by
  have none : (0 : UInt8).toNat * 2 ^ 24 + message.length / 256 = 0 := by
    rw [Nat.div_eq_of_lt small]
    rfl
  simp only [strayBlock, none, Nat.zero_le, if_true, List.take_zero]

theorem trailerBlock_single {messages : List (UInt8 × Bytes)} (single : messages.length ≤ 1)
    {enc : Bytes} (small : enc.length < 2 ^ 32) : trailerBlock messages enc = some enc := by
  have whole : some (enc.take (enc.length % 2 ^ 32)) = some enc := by
    rw [Nat.mod_eq_of_lt small, List.take_length]
  cases messages with
  | nil => exact whole
  | cons m rest =>
      cases rest with
      | nil => exact whole
      | cons second rest =>
          simp only [List.length_cons] at single
          omega

theorem states_single {reader : Reader} (lawful : reader.Lawful) {messages : List (UInt8 × Bytes)}
    (single : messages.length ≤ 1) {t : Trailer} (coded : t.statusCode < 2 ^ 32)
    (small : t.encode.length < 2 ^ 32) :
    States reader t.statusCode (trailerBlock messages t.encode) := by
  obtain ⟨last, read, same⟩ := t.decode_encode lawful coded small
  rw [trailerBlock_single single small]
  intro bytes trailer found decoded
  cases found
  rw [read] at decoded
  cases decoded
  exact same

theorem Reply.rust_body (reply : Reply) (fromBase64 : Bytes → Option Bytes) :
    Rust.bodyBytes (Rust.unaryProto fromBase64 (.answered reply.response)) =
      lead reply.messages ++ encodeTrailerBlock (Rust.trailerOf fromBase64 reply.response) := by
  have body := reply.lead_eq
  unfold Rust.unaryProto Rust.streamResponse
  rcases Ending.whole_iff.mp reply.whole with ending | ⟨block, ending⟩
  · simp only [ending, Rust.bodyBytes, body]
    rfl
  · simp only [ending, Rust.bodyBytes, body]
    rfl

theorem Reply.go_body (reply : Reply) (fromBase64 : Bytes → Option Bytes) :
    Go.bodyBytes (Go.unaryProto fromBase64 (.answered reply.response)) =
      lead reply.messages ++
        encodeTrailerBlock (Go.sealed (Go.trailerOf fromBase64 reply.response)) := by
  have body := reply.lead_eq
  have live : reply.response.ending ≠ .expired := by
    intro late
    have whole := reply.whole
    rw [late] at whole
    cases whole
  simp only [Go.unaryProto, Go.streamResponse, live, if_false, Go.bodyBytes, body, Option.elim,
    Go.encodeTrailerBlock_eq]

/-- A non-OK status behind an uncompressed second message of less than 256 bytes never
reaches the client, which is told OK. -/
theorem small_second_message_hides_status (reader : Reader) (fromBase64 : Bytes → Option Bytes)
    (limit : Nat) (reply : Reply) {first : UInt8 × Bytes} {message : Bytes}
    {rest : List (UInt8 × Bytes)} (messages : reply.messages = first :: (0, message) :: rest)
    (small : message.length < 256) (failed : reply.code ≠ 0) :
    (¬ limit < (Rust.bodyBytes (Rust.unaryProto fromBase64 (.answered reply.response))).length →
      ¬ Faithful (Ts.decodeFetchResponseBody reader
        (Rust.bodyBytes (Rust.unaryProto fromBase64 (.answered reply.response))) limit) reply.code) ∧
    (¬ limit < (Go.bodyBytes (Go.unaryProto fromBase64 (.answered reply.response))).length →
      ¬ Faithful (Ts.decodeFetchResponseBody reader
        (Go.bodyBytes (Go.unaryProto fromBase64 (.answered reply.response))) limit) reply.code) := by
  have hidden : ∀ enc, ¬ States reader reply.code (trailerBlock reply.messages enc) := by
    intro enc
    rw [messages, trailerBlock, strayBlock_small small, states_empty_iff]
    exact failed
  rw [reply.rust_body, reply.go_body]
  constructor
  · intro fits
    rw [encodeTrailerBlock, faithful_iff]
    simp only [failed, hidden, or_false, false_or]
    exact fits
  · intro fits
    rw [encodeTrailerBlock, faithful_iff]
    simp only [failed, hidden, or_false, false_or]
    exact fits

/-- Exactly when the client decodes what the backend said: the status is OK, the body is
refused as too large, at most one message precedes a Trailer that fits its length (and
marshals, in Go), or what stands in its place happens not to decode or to say the same. -/
theorem fetch_status_faithful_iff (reader : Reader) (lawful : reader.Lawful)
    (fromBase64 : Bytes → Option Bytes) (limit : Nat) (reply : Reply) :
    (Faithful (Ts.decodeFetchResponseBody reader
          (Rust.bodyBytes (Rust.unaryProto fromBase64 (.answered reply.response))) limit) reply.code ↔
      reply.code = 0 ∨
        limit < (Rust.bodyBytes (Rust.unaryProto fromBase64 (.answered reply.response))).length ∨
        (reply.messages.length ≤ 1 ∧
          (Rust.trailerOf fromBase64 reply.response).encode.length < 2 ^ 32) ∨
        States reader reply.code
          (trailerBlock reply.messages (Rust.trailerOf fromBase64 reply.response).encode)) ∧
    (Faithful (Ts.decodeFetchResponseBody reader
          (Go.bodyBytes (Go.unaryProto fromBase64 (.answered reply.response))) limit) reply.code ↔
      reply.code = 0 ∨
        limit < (Go.bodyBytes (Go.unaryProto fromBase64 (.answered reply.response))).length ∨
        (reply.messages.length ≤ 1 ∧ Go.marshals (Go.trailerOf fromBase64 reply.response) = true ∧
          (Go.trailerOf fromBase64 reply.response).encode.length < 2 ^ 32) ∨
        States reader reply.code (trailerBlock reply.messages
          (Go.sealed (Go.trailerOf fromBase64 reply.response)).encode)) := by
  constructor
  · have code : (Rust.trailerOf fromBase64 reply.response).statusCode = reply.code := by
      simp only [Rust.trailerOf, Rust.readStatus, reply.rust_statusCode, Option.getD_some]
    rw [reply.rust_body, encodeTrailerBlock, faithful_iff]
    refine or_congr_right (or_congr_right ⟨.inr, ?_⟩)
    rintro (⟨single, small⟩ | states)
    · rw [← code]
      exact states_single lawful single (code ▸ reply.coded) small
    · exact states
  · have code : (Go.trailerOf fromBase64 reply.response).statusCode = reply.code := by
      simp only [Go.trailerOf, Go.readStatus, reply.go_statusCode, Option.getD_some]
    rw [reply.go_body, encodeTrailerBlock, faithful_iff]
    refine or_congr_right (or_congr_right ⟨.inr, ?_⟩)
    rintro (⟨single, marshals, small⟩ | states)
    · rw [Go.sealed, if_pos marshals, ← code]
      exact states_single lawful single (code ▸ reply.coded) small
    · exact states

/-- NOT_FOUND behind two messages of one byte. -/
def twice : Reply where
  response := ⟨[], [frame 0 [1] ++ frame 0 [2]], .trailers [("grpc-status".toList, utf8 "5")]⟩
  messages := [(0, [1]), (0, [2])]
  framed := by decide
  sized := by decide
  whole := by decide
  code := 5
  coded := by decide
  value := utf8 "5"
  received := by decide
  denotes := by decide

/-- NOT_FOUND with one message, and details that are not UTF-8. -/
def garbled : Reply where
  response := ⟨[], [frame 0 [1]],
    .trailers [("grpc-status".toList, utf8 "5"), ("grpc-message".toList, utf8 "%FF")]⟩
  messages := [(0, [1])]
  framed := by decide
  sized := by decide
  whole := by decide
  code := 5
  coded := by decide
  value := utf8 "5"
  received := by decide
  denotes := by decide

/-- The client is told OK by both servers, and by the Go server for the garbled reply too. -/
theorem not_found_decoded_as_ok :
    Ts.decodeFetchResponseBody ProtoWire.standard
        (Rust.bodyBytes (Rust.unaryProto some (.answered twice.response))) 100 =
      some ([1], ⟨0, [], []⟩) ∧
    Ts.decodeFetchResponseBody ProtoWire.standard
        (Go.bodyBytes (Go.unaryProto some (.answered twice.response))) 100 =
      some ([1], ⟨0, [], []⟩) ∧
    Ts.decodeFetchResponseBody ProtoWire.standard
        (Go.bodyBytes (Go.unaryProto some (.answered garbled.response))) 100 =
      some ([1], ⟨0, [], []⟩) ∧
    ¬ Faithful (some ([1], ⟨0, [], []⟩)) 5 := by
  refine ⟨by decide, by decide, by decide, fun faithful => ?_⟩
  exact absurd ((faithful _ _ rfl).1 rfl) (by decide)

/-- With its one message the garbled reply is told faithfully by the Rust server. -/
theorem garbled_reply_faithful_in_rust :
    Faithful (Ts.decodeFetchResponseBody ProtoWire.standard
      (Rust.bodyBytes (Rust.unaryProto some (.answered garbled.response))) 100) 5 :=
  (fetch_status_faithful_iff ProtoWire.standard ProtoWire.standard_lawful some 100 garbled).1.mpr
    (.inr (.inr (.inl ⟨by decide, by decide⟩)))

end GrpcWebnext
