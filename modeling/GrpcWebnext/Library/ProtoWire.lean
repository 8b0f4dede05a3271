import GrpcWebnext.Library.Framing
import GrpcWebnext.Library.Scan
import GrpcWebnext.Library.Utf8

/-! The protobuf wire format: base-128 numbers, length-delimited fields, and the field
loop that generated decoders share. A reader is a parameter with the laws the format
gives it; `standard` is one that has them. -/
namespace ProtoWire
open Framing (Bytes)
open Text (Str)

/-- Seven bits a byte, lowest first; a number of 64 bits takes ten bytes at most. -/
def groups : Nat → Nat → Bytes
  | 0, n => [UInt8.ofNat n]
  | more + 1, n =>
      if n < 128 then [UInt8.ofNat n] else UInt8.ofNat (n % 128 + 128) :: groups more (n / 128)

def varint (n : Nat) : Bytes := groups 9 n

def delimited (bytes : Bytes) : Bytes := varint bytes.length ++ bytes

/-- A message as its fields in order, each a tag and its encoded value. -/
def encodeFields (fields : List (Nat × Bytes)) : Bytes :=
  fields.flatMap fun field => varint field.1 ++ field.2

structure Reader where
  uint32 : Bytes → Option (Nat × Bytes)
  string : Bytes → Option (Str × Bytes)
  bytes : Bytes → Option (Bytes × Bytes)
  skip : Nat → Bytes → Option Bytes

/-- What a reader makes of well-formed input. -/
structure Reader.Lawful (reader : Reader) : Prop where
  uint32 : ∀ n rest, n < 2 ^ 32 → reader.uint32 (varint n ++ rest) = some (n, rest)
  string : ∀ bytes, bytes.length < 2 ^ 32 →
    ∃ text, ∀ rest, reader.string (delimited bytes ++ rest) = some (text, rest)
  bytes : ∀ bytes rest, bytes.length < 2 ^ 32 →
    reader.bytes (delimited bytes ++ rest) = some (bytes, rest)

section Loop
universe u
variable {M : Type u}

/-- The field loop of a generated decoder, until `stop` bytes are left. An end-group tag
and the tag 0 leave it; a field the message does not know is skipped. -/
def readFields (reader : Reader) (known : Nat → Option (M → Bytes → Option (M × Bytes))) :
    Nat → Int → M → Bytes → Option (M × Bytes)
  | 0, stop, message, rest => if (rest.length : Int) ≤ stop then some (message, rest) else none
  | fuel + 1, stop, message, rest =>
      if (rest.length : Int) ≤ stop then some (message, rest)
      else match reader.uint32 rest with
        | none => none
        | some (tag, rest) => match known tag with
          | some read => match read message rest with
            | none => none
            | some (message, rest) => readFields reader known fuel stop message rest
          | none =>
              if tag % 8 = 4 ∨ tag = 0 then some (message, rest)
              else match reader.skip (tag % 8) rest with
                | none => none
                | some rest => readFields reader known fuel stop message rest

/-- The fields take the message from one value to the next, whatever follows them. -/
inductive Decodes (known : Nat → Option (M → Bytes → Option (M × Bytes))) :
    M → List (Nat × Bytes) → M → Prop
  | nil (message : M) : Decodes known message [] message
  | cons {message next last : M} {tag : Nat} {value : Bytes} {fields : List (Nat × Bytes)}
      {read : M → Bytes → Option (M × Bytes)} (small : tag < 2 ^ 32) (knows : known tag = some read)
      (reads : ∀ rest, read message (value ++ rest) = some (next, rest))
      (later : Decodes known next fields last) : Decodes known message ((tag, value) :: fields) last

end Loop

theorem groups_ne_nil (more n : Nat) : groups more n ≠ [] := by
  cases more with
  | zero => exact List.cons_ne_nil _ _
  | succ more =>
      simp only [groups]
      split <;> exact List.cons_ne_nil _ _

theorem varint_length_pos (n : Nat) : 0 < (varint n).length :=
  List.length_pos_iff.mpr (groups_ne_nil 9 n)

theorem length_le_encodeFields (fields : List (Nat × Bytes)) :
    fields.length ≤ (encodeFields fields).length := by
  induction fields with
  | nil => exact Nat.le_refl 0
  | cons field fields ih =>
      have byte := varint_length_pos field.1
      simp only [encodeFields, List.flatMap_cons, List.length_append, List.length_cons] at ih ⊢
      omega

theorem length_le_delimited (bytes : Bytes) : bytes.length ≤ (delimited bytes).length := by
  rw [delimited, List.length_append]
  exact Nat.le_add_left _ _

theorem length_le_of_mem {fields : List (Nat × Bytes)} {field : Nat × Bytes}
    (member : field ∈ fields) : field.2.length ≤ (encodeFields fields).length := by
  induction fields with
  | nil => cases member
  | cons first fields ih =>
      simp only [encodeFields, List.flatMap_cons, List.length_append] at ih ⊢
      rcases List.mem_cons.mp member with rfl | later
      · omega
      · have below := ih later
        omega

section Loop
universe u
variable {M : Type u} {known : Nat → Option (M → Bytes → Option (M × Bytes))}

theorem Decodes.append {message next last : M} {first second : List (Nat × Bytes)}
    (front : Decodes known message first next) (back : Decodes known next second last) :
    Decodes known message (first ++ second) last := by
  induction front with
  | nil message => exact back
  | cons small knows reads _ ih => exact .cons small knows reads (ih back)

/-- Enough fuel for the fields is enough for the loop. -/
theorem readFields_decodes {reader : Reader} (lawful : reader.Lawful) {message last : M}
    {fields : List (Nat × Bytes)} (decodes : Decodes known message fields last) (rest : Bytes) :
    ∀ fuel, fields.length ≤ fuel →
      readFields reader known fuel rest.length message (encodeFields fields ++ rest) =
        some (last, rest) := by
  induction decodes with
  | nil message =>
      intro fuel _
      cases fuel <;> simp [readFields, encodeFields]
  | @cons message next last tag value fields read small knows reads _ ih =>
      intro fuel enough
      cases fuel with
      | zero => exact absurd enough (Nat.not_succ_le_zero _)
      | succ fuel =>
          have more : ¬ (((encodeFields ((tag, value) :: fields) ++ rest).length : Int) ≤
              rest.length) := by
            have byte := varint_length_pos tag
            simp only [encodeFields, List.flatMap_cons, List.length_append]
            omega
          have cut : encodeFields ((tag, value) :: fields) ++ rest =
              varint tag ++ (value ++ (encodeFields fields ++ rest)) := by
            simp only [encodeFields, List.flatMap_cons, List.append_assoc]
          simp only [readFields, more, if_false]
          rw [cut, lawful.uint32 tag _ small]
          simp only [knows, reads]
          exact ih fuel (Nat.le_of_succ_le_succ enough)

end Loop

/-- A number read off the front, in at most the given number of bytes. -/
def readVarint : Nat → Bytes → Option (Nat × Bytes)
  | 0, _ => none
  | _ + 1, [] => none
  | more + 1, b :: rest =>
      if b.toNat < 128 then some (b.toNat, rest)
      else (readVarint more rest).map fun (n, rest) => (b.toNat - 128 + 128 * n, rest)

def readBytes (bytes : Bytes) : Option (Bytes × Bytes) :=
  (readVarint 10 bytes).bind fun (n, rest) =>
    if n % 2 ^ 32 ≤ rest.length then some (rest.take (n % 2 ^ 32), rest.drop (n % 2 ^ 32)) else none

def dropBytes (n : Nat) (bytes : Bytes) : Option Bytes :=
  if n ≤ bytes.length then some (bytes.drop n) else none

/-- Numbers, fixed-width values and length-delimited ones are skipped; groups are not. -/
def standard : Reader where
  uint32 bytes := (readVarint 10 bytes).map fun (n, rest) => (n % 2 ^ 32, rest)
  string bytes := (readBytes bytes).map fun (raw, rest) => (Utf8.decodeLossy raw, rest)
  bytes := readBytes
  skip wire bytes := match wire with
    | 0 => (readVarint 10 bytes).map Prod.snd
    | 1 => dropBytes 8 bytes
    | 2 => (readBytes bytes).map Prod.snd
    | 5 => dropBytes 4 bytes
    | _ => none

theorem readVarint_groups (more : Nat) :
    ∀ n rest, n < 128 ^ (more + 1) → readVarint (more + 1) (groups more n ++ rest) = some (n, rest) := by
  induction more with
  | zero =>
      intro n rest small
      have byte : (UInt8.ofNat n).toNat = n := by
        rw [UInt8.toNat_ofNat']
        omega
      simp only [groups, List.cons_append, List.nil_append, readVarint, byte]
      rw [if_pos (by omega)]
  | succ more ih =>
      intro n rest small
      simp only [groups]
      split
      · have byte : (UInt8.ofNat n).toNat = n := by
          rw [UInt8.toNat_ofNat']
          omega
        simp only [List.cons_append, List.nil_append, readVarint, byte]
        rw [if_pos ‹_›]
      · have byte : (UInt8.ofNat (n % 128 + 128)).toNat = n % 128 + 128 := by
          rw [UInt8.toNat_ofNat']
          omega
        have below : n / 128 < 128 ^ (more + 1) := by
          rw [Nat.div_lt_iff_lt_mul (by decide)]
          exact small
        rw [List.cons_append, readVarint, byte, if_neg (by omega), ih _ rest below, Option.map_some]
        simp only [Option.some.injEq, Prod.mk.injEq, and_true]
        omega

theorem readVarint_varint {n : Nat} (small : n < 2 ^ 64) (rest : Bytes) :
    readVarint 10 (varint n ++ rest) = some (n, rest) :=
  readVarint_groups 9 n rest (Nat.lt_trans small (by decide))

theorem readBytes_delimited {bytes : Bytes} (small : bytes.length < 2 ^ 32) (rest : Bytes) :
    readBytes (delimited bytes ++ rest) = some (bytes, rest) := by
  have size : bytes.length % 2 ^ 32 = bytes.length := Nat.mod_eq_of_lt small
  unfold readBytes delimited
  rw [List.append_assoc, readVarint_varint (by omega), Option.bind_some]
  dsimp only
  rw [size, List.length_append, if_pos (Nat.le_add_right _ _), List.take_left, List.drop_left]

theorem standard_lawful : standard.Lawful where
  uint32 n rest small := by
    simp only [standard, readVarint_varint (Nat.lt_trans small (by decide)) rest, Option.map_some,
      Nat.mod_eq_of_lt small]
  string bytes small := ⟨Utf8.decodeLossy bytes, fun rest => by
    simp only [standard, readBytes_delimited small, Option.map_some]⟩
  bytes bytes rest small := readBytes_delimited small rest

/-- A length-delimited value, as long as a number of 64 bits can say. -/
def readDelimited (bytes : Bytes) : Option (Bytes × Bytes) :=
  (readVarint 10 bytes).bind fun (n, rest) =>
    if n ≤ rest.length then some (rest.take n, rest.drop n) else none

/-- One value of a length-delimited field, its tag read first. -/
def readElement (number : Nat) (bytes : Bytes) : Option (Bytes × Bytes) :=
  (readVarint 10 bytes).bind fun (tag, rest) =>
    if tag = 8 * number + 2 then readDelimited rest else none

/-- A message that has one repeated length-delimited field and nothing else. -/
def readRepeated (number : Nat) (bytes : Bytes) : Option (List Bytes) :=
  if (Scan.scan (readElement number) bytes).2 = [] then
    some (Scan.scan (readElement number) bytes).1
  else none

def encodeRepeated (number : Nat) (elements : List Bytes) : Bytes :=
  elements.flatMap fun element => varint (8 * number + 2) ++ delimited element

theorem readVarint_shrinks (more : Nat) : Scan.Shrinks (readVarint more) := by
  induction more with
  | zero =>
      intro bytes n rest read
      simp only [readVarint, reduceCtorEq] at read
  | succ more ih =>
      intro bytes n rest read
      cases bytes with
      | nil => simp only [readVarint, reduceCtorEq] at read
      | cons b bytes =>
          rw [readVarint] at read
          split at read
          · cases read
            exact Nat.lt_succ_self _
          · obtain ⟨item, below, same⟩ := Option.map_eq_some_iff.mp read
            cases same
            exact Nat.lt_succ_of_lt (ih bytes item.1 item.2 below)

theorem readDelimited_length_le {bytes element rest : Bytes}
    (read : readDelimited bytes = some (element, rest)) : rest.length ≤ bytes.length := by
  obtain ⟨⟨n, left⟩, count, value⟩ := Option.bind_eq_some_iff.mp read
  have shorter := readVarint_shrinks 10 bytes n left count
  dsimp only at value
  split at value
  · cases value
    rw [List.length_drop]
    omega
  · cases value

theorem readElement_shrinks (number : Nat) : Scan.Shrinks (readElement number) := by
  intro bytes element rest read
  obtain ⟨⟨tag, left⟩, count, value⟩ := Option.bind_eq_some_iff.mp read
  have shorter := readVarint_shrinks 10 bytes tag left count
  dsimp only at value
  split at value
  · exact Nat.lt_of_le_of_lt (readDelimited_length_le value) shorter
  · cases value

theorem readDelimited_delimited {bytes : Bytes} (small : bytes.length < 2 ^ 64) (rest : Bytes) :
    readDelimited (delimited bytes ++ rest) = some (bytes, rest) := by
  rw [readDelimited, delimited, List.append_assoc, readVarint_varint small, Option.bind_some]
  dsimp only
  rw [List.length_append, if_pos (Nat.le_add_right _ _), List.take_left, List.drop_left]

theorem readElement_element {number : Nat} (tag : 8 * number + 2 < 2 ^ 64) {bytes : Bytes}
    (small : bytes.length < 2 ^ 64) (rest : Bytes) :
    readElement number (varint (8 * number + 2) ++ delimited bytes ++ rest) = some (bytes, rest) := by
  rw [readElement, List.append_assoc, readVarint_varint tag, Option.bind_some]
  dsimp only
  rw [if_pos rfl, readDelimited_delimited small]

/-- What follows a value is never read as part of it, so the values come back one by one. -/
theorem readRepeated_encodeRepeated {number : Nat} (tag : 8 * number + 2 < 2 ^ 64)
    {elements : List Bytes} (small : ∀ element ∈ elements, element.length < 2 ^ 64) :
    readRepeated number (encodeRepeated number elements) = some elements := by
  have scanned : Scan.scan (readElement number) (encodeRepeated number elements) = (elements, []) := by
    induction elements with
    | nil => rfl
    | cons element elements ih =>
        obtain ⟨here, later⟩ := List.forall_mem_cons.mp small
        have cut := readElement_element tag here (encodeRepeated number elements)
        rw [encodeRepeated, List.flatMap_cons, ← encodeRepeated,
          Scan.scan_some (readElement_shrinks number) cut, ih later]
  rw [readRepeated, scanned]
  exact if_pos rfl

end ProtoWire
