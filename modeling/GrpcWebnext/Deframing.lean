import GrpcWebnext.FetchCodec

/-! The incremental deframers of the gRPC wire: `grpc_framing.rs` and `framing.go` on the
servers, and the `GrpcFrameParser` of the TypeScript HTTP/2 transport. -/
namespace GrpcWebnext.Deframing
open Framing (Bytes ofBe32 nextFrame parse)
open FetchCodec.Ts (Uint8Array subarray)

def headerLen : Nat := 5

namespace Rust

def frame (message : Bytes) : Bytes := Framing.frame 0 message

/-- `Deframer::next_message`: the message, and the buffer behind it. -/
def nextMessage : Scan.Next Bytes UInt8 := fun buf =>
  if buf.length < headerLen then none
  else
    let len := ofBe32 (buf.getD 1 0) (buf.getD 2 0) (buf.getD 3 0) (buf.getD 4 0)
    if buf.length < headerLen + len then none
    else some ((buf.drop headerLen).take len, (buf.drop headerLen).drop len)

/-- `deframe_all`, the loop that pulls until there is nothing. -/
def deframeAll (body : Bytes) : List Bytes := (Scan.scan nextMessage body).1

end Rust

namespace Go

def grpcFrame (message : Bytes) : Bytes := Framing.frame 0 message

/-- `deframer.next`: the message is copied out, and the buffer resliced. -/
def next : Scan.Next Bytes UInt8 := fun buf =>
  if buf.length < headerLen then none
  else
    let n := ofBe32 (buf.getD 1 0) (buf.getD 2 0) (buf.getD 3 0) (buf.getD 4 0)
    if buf.length < headerLen + n then none
    else some ((buf.drop headerLen).take n, buf.drop (headerLen + n))

def deframeAll (body : Bytes) : List Bytes := (Scan.scan next body).1

end Go

namespace Ts

def encodeMessage (message : Bytes) : Bytes := Framing.frame 0 message

/-- The length behind the flag, through a `DataView` of the underlying buffer. -/
def lengthAt (a : Uint8Array) (offset : Nat) : Option Nat :=
  match a.buffer.drop (a.byteOffset + offset) with
  | _ :: x :: y :: z :: w :: _ => some (ofBe32 x y z w)
  | _ => none

/-- The loop of `GrpcFrameParser.push`, from an offset on: the messages sliced out, and
where it stops. A `RangeError` is `none`. -/
def loop (a : Uint8Array) : Nat → Nat → Option (List Bytes × Nat)
  | 0, offset => some ([], offset)
  | n + 1, offset =>
      if a.byteLength - offset < 5 then some ([], offset)
      else (lengthAt a offset).bind fun len =>
        if a.byteLength - offset - 5 < len then some ([], offset)
        else (loop a n (offset + 5 + len)).map fun (out, stop) =>
          ((subarray a (offset + 5) (offset + 5 + len)).bytes :: out, stop)

/-- A new buffer of what was kept and the chunk. -/
def merged (kept chunk : Bytes) : Uint8Array := ⟨kept ++ chunk, 0, (kept ++ chunk).length, by simp⟩

/-- `GrpcFrameParser.push`. -/
def push (buf : Uint8Array) (chunk : Bytes) : Option (List Bytes × Uint8Array) :=
  let buf := if 0 < chunk.length then merged buf.bytes chunk else buf
  (loop buf buf.byteLength 0).map fun (out, offset) => (out, subarray buf offset buf.byteLength)

/-- The chunks pushed in order, from a parser's buffer on. -/
def pushAll (buf : Uint8Array) : List Bytes → Option (List Bytes × Uint8Array)
  | [] => some ([], buf)
  | chunk :: rest => (push buf chunk).bind fun (out, buf) =>
      (pushAll buf rest).map fun (more, buf) => (out ++ more, buf)

/-- The buffer of a new parser. -/
def fresh : Uint8Array := ⟨[], 0, 0, Nat.le_refl _⟩

end Ts

/-- The messages of a stream and its incomplete suffix. -/
def reference (stream : Bytes) : List Bytes × Bytes := ((parse stream).1.map Prod.snd, (parse stream).2)

/-- The tests of a cut, with the length at hand. -/
theorem cut_eq (flag : UInt8) (rest : Bytes) (len : Nat) :
    (if rest.length + 5 < 5 then none
      else if rest.length + 5 < 5 + len then none else some (rest.take len, rest.drop len)) =
      (if len ≤ rest.length then some ((flag, rest.take len), rest.drop len) else none).map
        fun item => (item.1.2, item.2) := by
  rw [if_neg (by omega)]
  by_cases complete : len ≤ rest.length
  · rw [if_pos complete, if_neg (by omega)]
    rfl
  · rw [if_neg complete, if_pos (by omega)]
    rfl

theorem Rust.nextMessage_eq (buf : Bytes) :
    Rust.nextMessage buf = (nextFrame buf).map fun item => (item.1.2, item.2) := by
  match buf with
  | flag :: a :: b :: c :: d :: rest => exact cut_eq flag rest (ofBe32 a b c d)
  | [] | [_] | [_, _] | [_, _, _] | [_, _, _, _] => rfl

/-- Advancing past the header and splitting the message off is reslicing behind both. -/
theorem Go.next_eq_nextMessage (buf : Bytes) : Go.next buf = Rust.nextMessage buf := by
  unfold Go.next Rust.nextMessage
  simp only [List.drop_drop]

theorem nextMessage_shrinks : Scan.Shrinks Rust.nextMessage := by
  intro buf message rest h
  rw [Rust.nextMessage_eq] at h
  obtain ⟨item, found, cut⟩ := Option.map_eq_some_iff.mp h
  cases cut
  exact Framing.nextFrame_shrinks buf item.1 item.2 found

theorem nextMessage_extends : Scan.Extends Rust.nextMessage := by
  intro buf message rest more h
  rw [Rust.nextMessage_eq] at h ⊢
  obtain ⟨item, found, cut⟩ := Option.map_eq_some_iff.mp h
  cases cut
  rw [Framing.nextFrame_extends buf item.1 item.2 more found]
  rfl

theorem scan_nextMessage (buf : Bytes) : Scan.scan Rust.nextMessage buf = reference buf :=
  Scan.scan_map Prod.snd Rust.nextMessage_eq Framing.nextFrame_shrinks buf

namespace Ts

theorem lengthAt_eq (a : Uint8Array) {offset : Nat} {flag x y z w : UInt8} {rest : Bytes}
    (here : a.bytes.drop offset = flag :: x :: y :: z :: w :: rest) :
    lengthAt a offset = some (ofBe32 x y z w) := by
  rw [Uint8Array.bytes, List.drop_take, List.drop_drop] at here
  have whole := List.take_append_drop (a.byteLength - offset) (a.buffer.drop (a.byteOffset + offset))
  rw [here] at whole
  rw [lengthAt, ← whole]
  rfl

/-- With five bytes to go there is a length, the one the other deframers read. -/
theorem header_at (a : Uint8Array) {offset : Nat} (long : ¬ a.byteLength - offset < 5) :
    ∃ len, lengthAt a offset = some len ∧
      Rust.nextMessage (a.bytes.drop offset) =
        if (a.bytes.drop offset).length < headerLen + len then none
        else some (((a.bytes.drop offset).drop headerLen).take len,
          ((a.bytes.drop offset).drop headerLen).drop len) := by
  have size := FetchCodec.Ts.length_drop a offset
  match here : a.bytes.drop offset with
  | flag :: x :: y :: z :: w :: rest =>
      refine ⟨ofBe32 x y z w, lengthAt_eq a here, if_neg ?_⟩
      simp only [headerLen, List.length_cons]
      omega
  | [] | [_] | [_, _] | [_, _, _] | [_, _, _, _] =>
      rw [here] at size
      simp only [List.length_cons, List.length_nil] at size
      omega

/-- The loop slices out what a scan of the view cuts off, and stops where the scan does. -/
theorem loop_eq (a : Uint8Array) (n : Nat) :
    ∀ offset, offset ≤ a.byteLength → a.byteLength - offset ≤ n →
      ∃ stop, stop ≤ a.byteLength ∧
        loop a n offset = some ((Scan.scan Rust.nextMessage (a.bytes.drop offset)).1, stop) ∧
        a.bytes.drop stop = (Scan.scan Rust.nextMessage (a.bytes.drop offset)).2 := by
  induction n with
  | zero =>
      intro offset inside few
      have short : (a.bytes.drop offset).length = 0 := by
        rw [FetchCodec.Ts.length_drop]
        omega
      rw [List.length_eq_zero_iff.mp short, Scan.scan_none nextMessage_shrinks.nil]
      exact ⟨offset, inside, rfl, List.length_eq_zero_iff.mp short⟩
  | succ n ih =>
      intro offset inside few
      have size := FetchCodec.Ts.length_drop a offset
      by_cases short : a.byteLength - offset < 5
      · have none : Rust.nextMessage (a.bytes.drop offset) = none := by
          rw [← size] at short
          exact if_pos short
        rw [Scan.scan_none none]
        exact ⟨offset, inside, if_pos short, rfl⟩
      · obtain ⟨len, header, cut⟩ := header_at a short
        rw [loop, if_neg short, header, Option.bind_some]
        by_cases part : a.byteLength - offset - 5 < len
        · rw [size, headerLen, if_pos (by omega)] at cut
          rw [if_pos part, Scan.scan_none cut]
          exact ⟨offset, inside, rfl, rfl⟩
        · rw [size, headerLen, if_neg (by omega), List.drop_drop, List.drop_drop] at cut
          obtain ⟨stop, within, rest, left⟩ := ih (offset + 5 + len) (by omega) (by omega)
          have message := FetchCodec.Ts.bytes_subarray a
            (show offset + 5 ≤ offset + 5 + len by omega) (by omega)
          rw [Nat.add_sub_cancel_left] at message
          rw [if_neg part, rest, Scan.scan_some nextMessage_shrinks cut, message]
          exact ⟨stop, within, rfl, left⟩

theorem bytes_merged (kept chunk : Bytes) : (merged kept chunk).bytes = kept ++ chunk :=
  List.take_length

/-- A push gives the messages completed by the chunk, and keeps the rest. -/
theorem push_eq (buf : Uint8Array) (chunk : Bytes) :
    ∃ kept, push buf chunk = some ((Scan.scan Rust.nextMessage (buf.bytes ++ chunk)).1, kept) ∧
      kept.bytes = (Scan.scan Rust.nextMessage (buf.bytes ++ chunk)).2 := by
  have joined : (if 0 < chunk.length then merged buf.bytes chunk else buf).bytes = buf.bytes ++ chunk := by
    split
    · exact bytes_merged buf.bytes chunk
    · rename_i none
      rw [List.length_eq_zero_iff.mp (Nat.eq_zero_of_not_pos none), List.append_nil]
  unfold push
  rw [← joined]
  generalize (if 0 < chunk.length then merged buf.bytes chunk else buf) = buf'
  obtain ⟨stop, within, out, left⟩ := loop_eq buf' buf'.byteLength 0 (Nat.zero_le _) (Nat.sub_le _ _)
  rw [List.drop_zero] at out left
  refine ⟨subarray buf' stop buf'.byteLength, ?_, ?_⟩
  · simp only [out, Option.map_some]
  · have sized : (buf'.bytes.drop stop).length ≤ buf'.byteLength - stop :=
      Nat.le_of_eq (FetchCodec.Ts.length_drop buf' stop)
    rw [FetchCodec.Ts.bytes_subarray buf' within (Nat.le_refl _), List.take_of_length_le sized, left]

theorem pushAll_eq (chunks : List Bytes) : ∀ buf : Uint8Array, Rust.nextMessage buf.bytes = none →
    ∃ kept, pushAll buf chunks =
        some ((Scan.scan Rust.nextMessage (buf.bytes ++ chunks.flatten)).1, kept) ∧
      kept.bytes = (Scan.scan Rust.nextMessage (buf.bytes ++ chunks.flatten)).2 := by
  induction chunks with
  | nil =>
      intro buf none
      rw [List.flatten_nil, List.append_nil, Scan.scan_none none]
      exact ⟨buf, rfl, rfl⟩
  | cons chunk chunks ih =>
      intro buf _
      obtain ⟨kept, out, left⟩ := push_eq buf chunk
      have none : Rust.nextMessage kept.bytes = none := by
        rw [left]
        exact Scan.scan_left nextMessage_shrinks _
      obtain ⟨last, more, final⟩ := ih kept none
      rw [List.flatten_cons, ← List.append_assoc,
        Scan.scan_append nextMessage_shrinks nextMessage_extends (buf.bytes ++ chunk), ← left]
      refine ⟨last, ?_, final⟩
      simp only [pushAll, out, Option.bind_some, more, Option.map_some]

end Ts

/-- A deframer that pushes and pulls, in any order: once nothing more can be pulled, and
after as many pulls as it holds bytes, the messages given are those of the whole stream, and
its buffer is the incomplete suffix. -/
def Deframes (next : Scan.Next Bytes UInt8) : Prop :=
  ∀ ops : List (Scan.Op UInt8),
    (next (ops.foldl (Scan.work next) ([], [])).2 = none →
      ops.foldl (Scan.work next) ([], []) = reference (Scan.pushed ops)) ∧
    ∀ n, (ops.foldl (Scan.work next) ([], [])).2.length ≤ n →
      (List.replicate n Scan.Op.pull).foldl (Scan.work next) (ops.foldl (Scan.work next) ([], [])) =
        reference (Scan.pushed ops)

theorem nextMessage_deframes : Deframes Rust.nextMessage := by
  intro ops
  constructor
  · intro drained
    rw [Scan.work_drained nextMessage_shrinks nextMessage_extends drained, scan_nextMessage]
  · intro n enough
    obtain ⟨items, left⟩ := Scan.work_scan nextMessage_shrinks nextMessage_extends ops [] []
    rw [List.nil_append, List.nil_append] at items
    rw [List.nil_append] at left
    rw [Scan.work_pulls nextMessage_shrinks n _ _ enough, items, left, scan_nextMessage]

theorem reference_frames {messages : List Bytes} (short : ∀ m ∈ messages, m.length < 2 ^ 32) :
    reference (messages.flatMap (Framing.frame 0)) = (messages, []) := by
  have sized : ∀ m ∈ messages.map fun message => ((0 : UInt8), message), m.2.length < 2 ^ 32 := by
    intro m member
    obtain ⟨message, inside, rfl⟩ := List.mem_map.mp member
    exact short message inside
  have parsed := Framing.parse_frames sized
  rw [List.flatMap_map] at parsed
  rw [reference, parsed, List.map_map]
  simp [Function.comp_def]

/-- The three deframers find the messages of the reference parse, however the stream is cut,
and keep its incomplete suffix; and each inverts the framing of any list of messages. -/
theorem deframers_independent_of_chunking :
    (Deframes Rust.nextMessage ∧ Deframes Go.next ∧
      ∀ chunks, ∃ kept, Ts.pushAll Ts.fresh chunks = some ((reference chunks.flatten).1, kept) ∧
        kept.bytes = (reference chunks.flatten).2) ∧
    (∀ stream, Rust.deframeAll stream = (reference stream).1 ∧
      Go.deframeAll stream = (reference stream).1) ∧
    ∀ messages : List Bytes, (∀ m ∈ messages, m.length < 2 ^ 32) →
      reference (messages.flatMap Rust.frame) = (messages, []) ∧
      reference (messages.flatMap Go.grpcFrame) = (messages, []) ∧
      reference (messages.flatMap Ts.encodeMessage) = (messages, []) := by
  have alike : Go.next = Rust.nextMessage := funext Go.next_eq_nextMessage
  refine ⟨⟨nextMessage_deframes, ?_, ?_⟩, ?_, ?_⟩
  · rw [alike]
    exact nextMessage_deframes
  · intro chunks
    have empty : Ts.fresh.bytes = [] := rfl
    obtain ⟨kept, out, left⟩ := Ts.pushAll_eq chunks Ts.fresh rfl
    rw [empty, List.nil_append, scan_nextMessage] at out left
    exact ⟨kept, out, left⟩
  · intro stream
    rw [Rust.deframeAll, Go.deframeAll, alike, scan_nextMessage]
    exact ⟨rfl, rfl⟩
  · intro messages short
    exact ⟨reference_frames short, reference_frames short, reference_frames short⟩

/-- Two frames cut inside the first header and the second message, pulled in between. -/
example : ([.push [0, 0, 0], .pull, .push [0, 1, 7, 0, 0, 0, 0, 2, 8], .pull, .pull] :
      List (Scan.Op UInt8)).foldl (Scan.work Rust.nextMessage) ([], []) =
    ([[7]], [0, 0, 0, 0, 2, 8]) := by decide

end GrpcWebnext.Deframing
