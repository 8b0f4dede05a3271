import GrpcWebnext.RustClient.Status

/-! The message framing of the Rust client, `codec.rs`, and what its deframer makes of a whole
body. -/
namespace GrpcWebnext.RustClient
open Framing (Bytes)

/-- `encode_message`. -/
def encodeMessage (message : Bytes) : Bytes := Framing.frame 0 message

/-- The deframer's limit on messages. -/
def fits (maxMessageBytes : Option Nat) (len : Nat) : Bool := maxMessageBytes.all fun max => len ≤ max

/-- The complete message at the front, in the rounds of the loop that go on. -/
def nextMessage (maxMessageBytes : Option Nat) : Scan.Next Bytes UInt8
  | flag :: a :: b :: c :: d :: rest =>
      let len := Framing.ofBe32 a b c d
      if flag = 0 ∧ fits maxMessageBytes len ∧ len ≤ rest.length
        then some (rest.take len, rest.drop len) else none
  | _ => none

/-- The round of the loop that returns an error: five bytes that no message may begin with. -/
def refusal (maxMessageBytes : Option Nat) : Bytes → Option Status
  | flag :: a :: b :: c :: d :: _ =>
      let len := Framing.ofBe32 a b c d
      if flag ≠ 0 then some
        (.new Code.unimplemented "compressed gRPC messages are not supported by this client")
      else match maxMessageBytes with
        | some max =>
            if max < len then
              some (.new Code.resourceExhausted s!"message of {len} bytes exceeds the {max}-byte limit")
            else none
        | none => none
  | _ => none

/-- `Deframer::push` on what is buffered with the chunk behind it. -/
def push (maxMessageBytes : Option Nat) (buffer : Bytes) : Except Status (List Bytes × Bytes) :=
  let (messages, left) := Scan.scan (nextMessage maxMessageBytes) buffer
  match refusal maxMessageBytes left with
  | some status => .error status
  | none => .ok (messages, left)

theorem fits_some (max len : Nat) : fits (some max) len = true ↔ len ≤ max := by
  simp only [fits, Option.all_some, decide_eq_true_eq]

theorem nextMessage_inv {max : Option Nat} {bytes message rest : Bytes}
    (h : nextMessage max bytes = some (message, rest)) :
    bytes = encodeMessage message ++ rest ∧ message.length < 2 ^ 32 ∧ fits max message.length := by
  unfold nextMessage at h
  split at h
  · rename_i flag a b c d tail
    have short := Framing.ofBe32_lt a b c d
    have spelled := Framing.be32_ofBe32 a b c d
    generalize Framing.ofBe32 a b c d = len at h short spelled
    dsimp only at h
    split at h
    · rename_i taken
      obtain ⟨rfl, small, complete⟩ := taken
      simp only [Option.some.injEq, Prod.mk.injEq] at h
      obtain ⟨rfl, rfl⟩ := h
      have size : (tail.take len).length = len := by
        rw [List.length_take]
        exact Nat.min_eq_left complete
      rw [encodeMessage, Framing.frame, size, spelled]
      refine ⟨?_, short, small⟩
      rw [List.append_assoc, List.take_append_drop]
      rfl
    · simp only [reduceCtorEq] at h
  · simp only [reduceCtorEq] at h

theorem nextMessage_encode {max : Option Nat} {message : Bytes} (short : message.length < 2 ^ 32)
    (small : fits max message.length) (rest : Bytes) :
    nextMessage max (encodeMessage message ++ rest) = some (message, rest) := by
  obtain ⟨a, b, c, d, spelled, number⟩ := Framing.be32_eq _ short
  rw [encodeMessage, Framing.frame, spelled]
  simp only [List.cons_append, List.nil_append, nextMessage, number, small, List.length_append,
    Nat.le_add_right, and_self,
    if_true, List.take_left, List.drop_left]

theorem nextMessage_shrinks (max : Option Nat) : Scan.Shrinks (nextMessage max) := by
  intro bytes message rest h
  obtain ⟨rfl, _, _⟩ := nextMessage_inv h
  simp only [encodeMessage, Framing.frame, List.length_append, List.length_cons]
  omega

theorem nextMessage_extends (max : Option Nat) : Scan.Extends (nextMessage max) := by
  intro bytes message rest more h
  obtain ⟨rfl, short, small⟩ := nextMessage_inv h
  rw [List.append_assoc]
  exact nextMessage_encode short small (rest ++ more)

/-- Bytes that no message may begin with stay so, and are never taken for one. -/
theorem refusal_extends {max : Option Nat} {bytes : Bytes} {status : Status}
    (refused : refusal max bytes = some status)
    (more : Bytes) : nextMessage max (bytes ++ more) = none ∧ bytes ≠ [] := by
  unfold refusal at refused
  split at refused
  · rename_i flag a b c d tail
    refine ⟨?_, List.cons_ne_nil _ _⟩
    rw [List.cons_append, List.cons_append, List.cons_append, List.cons_append, List.cons_append, nextMessage]
    generalize Framing.ofBe32 a b c d = len at refused ⊢
    refine if_neg ?_
    rintro ⟨plain, small, _⟩
    dsimp only at refused
    split at refused
    · rename_i compressed
      exact compressed plain
    · split at refused
      · rename_i limit
        split at refused
        · rename_i large
          exact absurd ((fits_some limit len).mp small) (Nat.not_le.mpr large)
        · cases refused
      · cases refused
  · cases refused

/-- The messages that the bytes of a body are deframed into. -/
def deframed (max : Option Nat) (body : Bytes) : List Bytes := (Scan.scan (nextMessage max) body).1

/-- A body of nothing but messages that fit. -/
def Whole (max : Option Nat) (body : Bytes) : Prop :=
  ∃ messages : List Bytes, body = messages.flatMap encodeMessage ∧
    ∀ m ∈ messages, m.length < 2 ^ 32 ∧ fits max m.length

theorem whole_iff (max : Option Nat) (body : Bytes) :
    Whole max body ↔ (Scan.scan (nextMessage max) body).2 = [] := by
  constructor
  · rintro ⟨messages, rfl, each⟩
    induction messages with
    | nil => rfl
    | cons message messages ih =>
        obtain ⟨short, small⟩ := each message List.mem_cons_self
        rw [List.flatMap_cons, Scan.scan_some (nextMessage_shrinks max) (nextMessage_encode short small _)]
        exact ih fun m inside => each m (List.mem_cons_of_mem _ inside)
  · induction body using Scan.scan_induct (nextMessage_shrinks max) with
    | stop body none =>
        intro empty
        rw [Scan.scan_none none] at empty
        exact ⟨[], empty, fun m inside => by cases inside⟩
    | cut body message rest taken ih =>
        intro empty
        rw [Scan.scan_some (nextMessage_shrinks max) taken] at empty
        obtain ⟨messages, spelled, each⟩ := ih empty
        obtain ⟨first, short, small⟩ := nextMessage_inv taken
        refine ⟨message :: messages, ?_, List.forall_mem_cons.mpr ⟨⟨short, small⟩, each⟩⟩
        rw [List.flatMap_cons, ← spelled]
        exact first

theorem push_eq (max : Option Nat) (bytes : Bytes) :
    push max bytes = match refusal max (Scan.scan (nextMessage max) bytes).2 with
      | some status => .error status
      | none => .ok (Scan.scan (nextMessage max) bytes) := rfl

theorem push_ok {max : Option Nat} {bytes left : Bytes} {messages : List Bytes}
    (pushed : push max bytes = .ok (messages, left)) :
    Scan.scan (nextMessage max) bytes = (messages, left) := by
  rw [push_eq] at pushed
  split at pushed
  · cases pushed
  · exact Except.ok.inj pushed

theorem push_error {max : Option Nat} {bytes : Bytes} {status : Status}
    (pushed : push max bytes = .error status) :
    refusal max (Scan.scan (nextMessage max) bytes).2 = some status := by
  rw [push_eq] at pushed
  split at pushed
  · rename_i refused
    rw [refused, Except.error.inj pushed]
  · cases pushed

theorem scan_more {max : Option Nat} (bytes more : Bytes) :
    Scan.scan (nextMessage max) (bytes ++ more) =
      ((Scan.scan (nextMessage max) bytes).1 ++
        (Scan.scan (nextMessage max) ((Scan.scan (nextMessage max) bytes).2 ++ more)).1,
        (Scan.scan (nextMessage max) ((Scan.scan (nextMessage max) bytes).2 ++ more)).2) :=
  Scan.scan_append (nextMessage_shrinks max) (nextMessage_extends max) bytes more

/-- More bytes do not change the messages before them. -/
theorem deframed_prefix (max : Option Nat) (bytes more : Bytes) :
    deframed max bytes <+: deframed max (bytes ++ more) := by
  rw [deframed, deframed, scan_more]
  exact List.prefix_append _ _

theorem refusal_error {max : Option Nat} {bytes : Bytes} {status : Status}
    (refused : refusal max bytes = some status) :
    status.isOk = false := by
  unfold refusal at refused
  split at refused
  · generalize Framing.ofBe32 _ _ _ _ = len at refused
    dsimp only at refused
    split at refused
    · rw [← Option.some.inj refused]
      rfl
    · split at refused
      · split at refused
        · rw [← Option.some.inj refused]
          rfl
        · cases refused
      · cases refused
  · cases refused

end GrpcWebnext.RustClient
