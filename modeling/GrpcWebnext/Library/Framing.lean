import GrpcWebnext.Library.Scan

/-! Byte strings cut into length-prefixed frames: a four byte big-endian length,
either bare or behind a one byte flag. -/
namespace Framing

abbrev Bytes := List UInt8

/-- The big-endian 32 bit encoding; larger numbers wrap, as the cast to `u32` does. -/
def be32 (n : Nat) : Bytes :=
  [UInt8.ofNat (n / 2 ^ 24), UInt8.ofNat (n / 2 ^ 16), UInt8.ofNat (n / 2 ^ 8), UInt8.ofNat n]

/-- The number a four byte big-endian prefix denotes. -/
def ofBe32 (a b c d : UInt8) : Nat :=
  a.toNat * 2 ^ 24 + b.toNat * 2 ^ 16 + c.toNat * 2 ^ 8 + d.toNat

@[simp] theorem be32_length (n : Nat) : (be32 n).length = 4 := rfl

theorem be32_eq (n : Nat) (small : n < 2 ^ 32) :
    ∃ a b c d, be32 n = [a, b, c, d] ∧ ofBe32 a b c d = n := by
  refine ⟨_, _, _, _, rfl, ?_⟩
  simp only [ofBe32, UInt8.toNat_ofNat']
  omega

theorem ofBe32_lt (a b c d : UInt8) : ofBe32 a b c d < 2 ^ 32 := by
  have := a.toNat_lt
  have := b.toNat_lt
  have := c.toNat_lt
  have := d.toNat_lt
  unfold ofBe32
  omega

/-- Four bytes are the encoding of the number they denote. -/
theorem be32_ofBe32 (a b c d : UInt8) : be32 (ofBe32 a b c d) = [a, b, c, d] := by
  have := a.toNat_lt
  have := b.toNat_lt
  have := c.toNat_lt
  have := d.toNat_lt
  have same : ∀ n (x : UInt8), n % 256 = x.toNat → UInt8.ofNat n = x := by
    intro n x h
    rw [← UInt8.toNat_inj, UInt8.toNat_ofNat', h]
  unfold be32 ofBe32
  rw [same _ a (by omega), same _ b (by omega), same _ c (by omega), same _ d (by omega)]

/-- One flagged frame at the front of the buffer, if it is complete. -/
def nextFrame : Scan.Next (UInt8 × Bytes) UInt8
  | f :: a :: b :: c :: d :: rest =>
      if ofBe32 a b c d ≤ rest.length then
        some ((f, rest.take (ofBe32 a b c d)), rest.drop (ofBe32 a b c d))
      else none
  | _ => none

/-- The length declared by the flagged header at the front, whether or not the
frame behind it is complete. -/
def nextHeader : Scan.Next Nat UInt8
  | _ :: a :: b :: c :: d :: rest => some (ofBe32 a b c d, rest.drop (ofBe32 a b c d))
  | _ => none

/-- The complete frames of a byte string and the incomplete rest. -/
def parse (bs : Bytes) : List (UInt8 × Bytes) × Bytes := Scan.scan nextFrame bs

/-- The lengths that a frame parser finds declared, the one of an incomplete
last frame included. -/
def declaredLengths (bs : Bytes) : List Nat := (Scan.scan nextHeader bs).1

def frame (flag : UInt8) (message : Bytes) : Bytes := flag :: be32 message.length ++ message

theorem nextFrame_inv {bs rest : Bytes} {item : UInt8 × Bytes}
    (h : nextFrame bs = some (item, rest)) :
    ∃ a b c d, bs = item.1 :: a :: b :: c :: d :: (item.2 ++ rest) ∧
      ofBe32 a b c d = item.2.length := by
  unfold nextFrame at h
  split at h
  · split at h
    · rename_i f a b c d tail fits
      simp only [Option.some.injEq, Prod.mk.injEq] at h
      obtain ⟨rfl, rfl⟩ := h
      refine ⟨a, b, c, d, by simp only [List.take_append_drop], ?_⟩
      simp only [List.length_take]
      omega
    · simp only [reduceCtorEq] at h
  · simp only [reduceCtorEq] at h

theorem nextFrame_shrinks : Scan.Shrinks nextFrame := by
  intro bs item rest h
  obtain ⟨a, b, c, d, rfl, -⟩ := nextFrame_inv h
  simp only [List.length_cons, List.length_append]
  omega

theorem nextFrame_extends : Scan.Extends nextFrame := by
  intro bs item rest more h
  obtain ⟨a, b, c, d, rfl, size⟩ := nextFrame_inv h
  simp only [nextFrame, List.cons_append, List.append_assoc, size, List.length_append,
    List.take_left, List.drop_left]
  rw [if_pos (by omega)]

theorem parse_append (bs more : Bytes) :
    parse (bs ++ more) =
      ((parse bs).1 ++ (parse ((parse bs).2 ++ more)).1, (parse ((parse bs).2 ++ more)).2) :=
  Scan.scan_append nextFrame_shrinks nextFrame_extends bs more

theorem parse_left (bs : Bytes) : nextFrame (parse bs).2 = none :=
  Scan.scan_left nextFrame_shrinks bs

theorem nextFrame_frame (flag : UInt8) {message : Bytes} (short : message.length < 2 ^ 32) (rest : Bytes) :
    nextFrame (frame flag message ++ rest) = some ((flag, message), rest) := by
  obtain ⟨a, b, c, d, spelled, number⟩ := be32_eq _ short
  rw [frame, spelled]
  simp only [List.cons_append, List.nil_append, nextFrame, number, List.length_append, Nat.le_add_right,
    if_true, List.take_left, List.drop_left]

/-- A parser inverts the framing of any list of messages, and nothing is left over. -/
theorem parse_frames {messages : List (UInt8 × Bytes)} (short : ∀ m ∈ messages, m.2.length < 2 ^ 32) :
    parse (messages.flatMap fun m => frame m.1 m.2) = (messages, []) := by
  induction messages with
  | nil => rfl
  | cons m rest ih =>
      rw [List.forall_mem_cons] at short
      have cut := nextFrame_frame m.1 short.1 (rest.flatMap fun m => frame m.1 m.2)
      have later := ih short.2
      unfold parse at later
      rw [List.flatMap_cons, parse, Scan.scan_some nextFrame_shrinks cut, later]

theorem nextHeader_shrinks : Scan.Shrinks nextHeader := by
  intro bs n rest h
  unfold nextHeader at h
  split at h
  · simp only [Option.some.injEq, Prod.mk.injEq] at h
    obtain ⟨rfl, rfl⟩ := h
    simp only [List.length_cons, List.length_drop]
    omega
  · simp only [reduceCtorEq] at h

theorem declaredLengths_header {bs rest : Bytes} {n : Nat} (h : nextHeader bs = some (n, rest)) :
    declaredLengths bs = n :: declaredLengths rest := by
  simp only [declaredLengths, Scan.scan_some nextHeader_shrinks h]

theorem declaredLengths_cons (f a b c d : UInt8) (rest : Bytes) :
    declaredLengths (f :: a :: b :: c :: d :: rest) =
      ofBe32 a b c d :: declaredLengths (rest.drop (ofBe32 a b c d)) :=
  declaredLengths_header (by simp only [nextHeader])

/-- A bare block: the length and the bytes. -/
def block (bytes : Bytes) : Bytes := be32 bytes.length ++ bytes

/-- The bare block at the front, if it is complete. -/
def readBlock : Scan.Next Bytes UInt8
  | a :: b :: c :: d :: rest =>
      if ofBe32 a b c d ≤ rest.length
        then some (rest.take (ofBe32 a b c d), rest.drop (ofBe32 a b c d)) else none
  | _ => none

theorem readBlock_inv {bs bytes rest : Bytes} (h : readBlock bs = some (bytes, rest)) :
    bs = block bytes ++ rest ∧ bytes.length < 2 ^ 32 := by
  unfold readBlock at h
  split at h
  · rename_i a b c d tail
    have short := ofBe32_lt a b c d
    have spelled := be32_ofBe32 a b c d
    generalize ofBe32 a b c d = len at h short spelled
    split at h
    · rename_i complete
      simp only [Option.some.injEq, Prod.mk.injEq] at h
      obtain ⟨rfl, rfl⟩ := h
      have size : (tail.take len).length = len := by
        rw [List.length_take]
        exact Nat.min_eq_left complete
      rw [block, size, spelled, List.append_assoc, List.take_append_drop]
      exact ⟨rfl, short⟩
    · simp only [reduceCtorEq] at h
  · simp only [reduceCtorEq] at h

theorem readBlock_block {bytes : Bytes} (short : bytes.length < 2 ^ 32) (rest : Bytes) :
    readBlock (block bytes ++ rest) = some (bytes, rest) := by
  obtain ⟨a, b, c, d, spelled, number⟩ := be32_eq _ short
  rw [block, spelled]
  simp only [List.cons_append, List.nil_append, readBlock, number, List.length_append,
    Nat.le_add_right, if_true,
    List.take_left, List.drop_left]

theorem readBlock_extends : Scan.Extends readBlock := by
  intro bs bytes rest more h
  obtain ⟨rfl, short⟩ := readBlock_inv h
  rw [List.append_assoc]
  exact readBlock_block short (rest ++ more)

/-- A block that is cut anywhere is not complete. -/
theorem readBlock_cut {bytes : Bytes} (short : bytes.length < 2 ^ 32) {part : Bytes} {rest : Bytes}
    (whole : part ++ rest = block bytes) (cut : part.length < (block bytes).length) :
    readBlock part = none := by
  cases read : readBlock part with
  | none => rfl
  | some found =>
      obtain ⟨other, behind⟩ := found
      have extended := readBlock_extends _ _ _ rest read
      have direct := readBlock_block short []
      rw [List.append_nil, ← whole, extended] at direct
      simp only [Option.some.injEq, Prod.mk.injEq] at direct
      obtain ⟨rfl, none⟩ := direct
      obtain ⟨same, _⟩ := readBlock_inv read
      rw [same, List.length_append] at cut
      omega

end Framing
