import GrpcWebnext.Library.ProtoWire

/-! The descriptor set handed to the descriptor pool. Each file goes in as the bytes the
server sent, behind a tag and a length written by hand. -/
namespace GrpcWebnext.Reflect
open Framing (Bytes)

theorem toNat_lowSeven (len : UInt64) : (len &&& 0x7F).toUInt8.toNat = len.toNat % 128 := by
  calc (len &&& 0x7F).toUInt8.toNat
      _ = (len.toNat &&& (2 ^ 7 - 1)) % 256 := rfl
      _ = len.toNat % 2 ^ 7 % 256 := by rw [Nat.and_two_pow_sub_one_eq_mod]
      _ = len.toNat % 128 := by omega

theorem toNat_shiftSeven (len : UInt64) : (len >>> 7).toNat = len.toNat / 128 := by
  rw [UInt64.toNat_shiftRight]
  exact Nat.shiftRight_eq_div_pow len.toNat 7

theorem shiftSeven_eq_zero (len : UInt64) : len >>> 7 = 0 ↔ len.toNat < 128 := by
  rw [← UInt64.toNat_inj, toNat_shiftSeven]
  have zero : (0 : UInt64).toNat = 0 := rfl
  rw [zero]
  omega

theorem toNat_continued {byte : UInt8} (small : byte.toNat < 128) :
    (byte ||| 0x80).toNat = byte.toNat + 128 := by
  calc (byte ||| 0x80).toNat
      _ = 2 ^ 7 * 1 ||| byte.toNat := by rw [UInt8.toNat_or, Nat.or_comm]; rfl
      _ = 2 ^ 7 * 1 + byte.toNat := (Nat.two_pow_add_eq_or_of_lt small 1).symm
      _ = byte.toNat + 128 := Nat.add_comm _ _

/-- The loop that writes the length, seven bits at a time. -/
def pushLength (buf : Bytes) (len : UInt64) : Bytes :=
  let byte := (len &&& 0x7F).toUInt8
  let rest := len >>> 7
  let byte := if rest ≠ 0 then byte ||| 0x80 else byte
  if rest = 0 then buf ++ [byte] else pushLength (buf ++ [byte]) rest
termination_by len.toNat
decreasing_by
  have large := mt (shiftSeven_eq_zero len).mpr ‹_›
  rw [toNat_shiftSeven]
  omega

def pushFileDescriptor (buf : Bytes) (raw : Bytes) : Bytes :=
  pushLength (buf ++ [0x0A]) (UInt64.ofNat raw.length) ++ raw

/-- The set that the files make, in their order. -/
def descriptorSet (files : List Bytes) : Bytes := files.foldl pushFileDescriptor []

theorem pushLength_last (buf : Bytes) {len : UInt64} (low : len.toNat < 128) :
    pushLength buf len = buf ++ [UInt8.ofNat len.toNat] := by
  have byte : UInt8.ofNat len.toNat = (len &&& 0x7F).toUInt8 := by
    rw [← UInt8.toNat_inj, UInt8.toNat_ofNat', toNat_lowSeven]
    omega
  have done := (shiftSeven_eq_zero len).mpr low
  rw [pushLength, if_pos done, if_neg (not_not_intro done), byte]

theorem pushLength_more (buf : Bytes) {len : UInt64} (high : ¬ len.toNat < 128) :
    pushLength buf len = pushLength (buf ++ [UInt8.ofNat (len.toNat % 128 + 128)]) (len >>> 7) := by
  have byte : UInt8.ofNat (len.toNat % 128 + 128) = (len &&& 0x7F).toUInt8 ||| 0x80 := by
    have seven : (len &&& 0x7F).toUInt8.toNat < 128 := by
      rw [toNat_lowSeven]
      omega
    rw [← UInt8.toNat_inj, toNat_continued seven, toNat_lowSeven, UInt8.toNat_ofNat']
    omega
  have more := mt (shiftSeven_eq_zero len).mp high
  rw [pushLength, if_neg more, if_pos more, byte]

/-- The loop writes what the wire format calls the number. -/
theorem pushLength_groups (more : Nat) :
    ∀ buf len, len.toNat < 128 ^ (more + 1) →
      pushLength buf len = buf ++ ProtoWire.groups more len.toNat := by
  induction more with
  | zero =>
      intro buf len small
      exact pushLength_last buf small
  | succ more ih =>
      intro buf len small
      rw [ProtoWire.groups]
      split
      · exact pushLength_last buf ‹_›
      · have below : (len >>> 7).toNat < 128 ^ (more + 1) := by
          rw [toNat_shiftSeven, Nat.div_lt_iff_lt_mul (by decide)]
          exact small
        rw [pushLength_more buf ‹_›, ih _ _ below, toNat_shiftSeven, List.append_assoc,
          List.singleton_append]

theorem pushLength_varint (buf : Bytes) (len : UInt64) :
    pushLength buf len = buf ++ ProtoWire.varint len.toNat := by
  have small : len.toNat < 128 ^ (9 + 1) := Nat.lt_trans (UInt64.toNat_lt len) (by decide)
  exact pushLength_groups 9 buf len small

theorem pushFileDescriptor_eq (buf : Bytes) {raw : Bytes} (small : raw.length < 2 ^ 64) :
    pushFileDescriptor buf raw = buf ++ (ProtoWire.varint (8 * 1 + 2) ++ ProtoWire.delimited raw) := by
  have size : (UInt64.ofNat raw.length).toNat = raw.length := UInt64.toNat_ofNat_of_lt' small
  have tag : ProtoWire.varint (8 * 1 + 2) = [0x0A] := rfl
  rw [pushFileDescriptor, pushLength_varint, size, tag, ProtoWire.delimited]
  simp only [List.append_assoc]

theorem foldl_pushFileDescriptor {files : List Bytes} (small : ∀ raw ∈ files, raw.length < 2 ^ 64) :
    ∀ buf, files.foldl pushFileDescriptor buf = buf ++ ProtoWire.encodeRepeated 1 files := by
  induction files with
  | nil =>
      intro buf
      exact (List.append_nil buf).symm
  | cons raw files ih =>
      intro buf
      obtain ⟨here, later⟩ := List.forall_mem_cons.mp small
      rw [List.foldl_cons, pushFileDescriptor_eq buf here, ih later, ProtoWire.encodeRepeated,
        ProtoWire.encodeRepeated, List.flatMap_cons, List.append_assoc]

/-- Whatever the files hold, tags among it included, the set reads back as their list. -/
theorem descriptorSet_reads (files : List Bytes) (small : ∀ raw ∈ files, raw.length < 2 ^ 64) :
    ProtoWire.readRepeated 1 (descriptorSet files) = some files := by
  have tag : 8 * 1 + 2 < 2 ^ 64 := by decide
  rw [descriptorSet, foldl_pushFileDescriptor small []]
  exact ProtoWire.readRepeated_encodeRepeated tag small

theorem descriptorSet_reads_tags :
    ProtoWire.readRepeated 1 (descriptorSet [[0x0A, 0x01], [], [0x0A, 0x80, 0x0A]]) =
      some [[0x0A, 0x01], [], [0x0A, 0x80, 0x0A]] :=
  descriptorSet_reads _ (by decide)

end GrpcWebnext.Reflect
