import GrpcWebnext.Library.ProtoWire

/-! Messages over the protobuf wire format: fields left out at their default, repeated and
nested ones, and fields the reader does not know. -/
namespace ProtoWire
open Framing (Bytes)
open Text (Str)

/-- What a reader makes of strings as such, and of values it skips. A decoder of text may
take a byte order mark off the front. -/
structure Reader.Faithful (reader : Reader) : Prop extends reader.Lawful where
  text : ∀ s rest, s.head? ≠ some (Char.ofNat 0xFEFF) → (Utf8.encode s).length < 2 ^ 32 →
    reader.string (delimited (Utf8.encode s) ++ rest) = some (s, rest)
  skipVarint : ∀ n rest, n < 2 ^ 64 → reader.skip 0 (varint n ++ rest) = some rest
  skipBytes : ∀ bytes rest, bytes.length < 2 ^ 32 → reader.skip 2 (delimited bytes ++ rest) = some rest

universe u
variable {M : Type u} {known : Nat → Option (M → Bytes → Option (M × Bytes))} {reader : Reader}

/-- The fields of a message with others between them that its reader skips. -/
inductive Reads (reader : Reader) (known : Nat → Option (M → Bytes → Option (M × Bytes))) :
    M → List (Nat × Bytes) → M → Prop
  | nil (message : M) : Reads reader known message [] message
  | cons {message next last : M} {tag : Nat} {value : Bytes} {fields : List (Nat × Bytes)}
      {read : M → Bytes → Option (M × Bytes)} (small : tag < 2 ^ 32) (knows : known tag = some read)
      (reads : ∀ rest, read message (value ++ rest) = some (next, rest))
      (later : Reads reader known next fields last) : Reads reader known message ((tag, value) :: fields) last
  | skip {message last : M} {tag : Nat} {value : Bytes} {fields : List (Nat × Bytes)} (small : tag < 2 ^ 32)
      (unknown : known tag = none) (field : ¬ (tag % 8 = 4 ∨ tag = 0))
      (skips : ∀ rest, reader.skip (tag % 8) (value ++ rest) = some rest)
      (later : Reads reader known message fields last) :
        Reads reader known message ((tag, value) :: fields) last

theorem Reads.append {message next last : M} {first second : List (Nat × Bytes)}
    (front : Reads reader known message first next) (back : Reads reader known next second last) :
    Reads reader known message (first ++ second) last := by
  induction front with
  | nil message => exact back
  | cons small knows reads _ ih => exact .cons small knows reads (ih back)
  | skip small unknown field skips _ ih => exact .skip small unknown field skips (ih back)

theorem Reads.single {message next : M} {tag : Nat} {value : Bytes} {read : M → Bytes → Option (M × Bytes)}
    (small : tag < 2 ^ 32) (knows : known tag = some read)
    (reads : ∀ rest, read message (value ++ rest) = some (next, rest)) :
    Reads reader known message [(tag, value)] next := .cons small knows reads (.nil next)

/-- A field that is left out at its default. -/
theorem Reads.unless {message next : M} {tag : Nat} {value : Bytes} {c : Prop} [Decidable c]
    (default_ : c → message = next) (one : ¬ c → Reads reader known message [(tag, value)] next) :
    Reads reader known message (if c then [] else [(tag, value)]) next := by
  split
  · rw [default_ ‹c›]
    exact .nil next
  · exact one ‹_›

theorem Reads.option {α : Type*} {message next : M} {tag : Nat} {value : α → Bytes} {v : Option α}
    (absent : v = none → message = next)
    (present : ∀ a, v = some a → Reads reader known message [(tag, value a)] next) :
    Reads reader known message (v.toList.map fun a => (tag, value a)) next := by
  cases v with
  | none =>
      rw [absent rfl]
      exact .nil next
  | some a => exact present a rfl

/-- A repeated field is read one element at a time. -/
theorem Reads.repeated {α : Type*} {tag : Nat} {value : α → Bytes} {read : M → Bytes → Option (M × Bytes)}
    (push : M → α → M) (small : tag < 2 ^ 32) (knows : known tag = some read) {elements : List α}
    (reads : ∀ a ∈ elements, ∀ message rest, read message (value a ++ rest) = some (push message a, rest)) :
    ∀ message, Reads reader known message (elements.map fun a => (tag, value a))
      (elements.foldl push message) := by
  induction elements with
  | nil => exact fun message => .nil message
  | cons a elements ih =>
      obtain ⟨here, later⟩ := List.forall_mem_cons.mp reads
      exact fun message => .cons small knows (here message) (ih later (push message a))

/-- Enough fuel for the fields is enough for the loop. -/
theorem readFields_reads (lawful : reader.Lawful) {message last : M} {fields : List (Nat × Bytes)}
    (reads : Reads reader known message fields last) (rest : Bytes) :
    ∀ fuel, fields.length ≤ fuel →
      readFields reader known fuel rest.length message (encodeFields fields ++ rest) = some (last, rest) := by
  have more : ∀ {tag : Nat} {value : Bytes} {fields : List (Nat × Bytes)},
      ¬ (((encodeFields ((tag, value) :: fields) ++ rest).length : Int) ≤ rest.length) := by
    intro tag value fields
    have byte := varint_length_pos tag
    simp only [encodeFields, List.flatMap_cons, List.length_append]
    omega
  have cut : ∀ (tag : Nat) (value : Bytes) (fields : List (Nat × Bytes)),
      encodeFields ((tag, value) :: fields) ++ rest = varint tag ++
        (value ++ (encodeFields fields ++ rest)) := by
    intro tag value fields
    simp only [encodeFields, List.flatMap_cons, List.append_assoc]
  induction reads with
  | nil message =>
      intro fuel _
      cases fuel <;> simp [readFields, encodeFields]
  | cons small knows reads _ ih =>
      intro fuel enough
      cases fuel with
      | zero => exact absurd enough (Nat.not_succ_le_zero _)
      | succ fuel =>
          simp only [readFields, more, if_false]
          rw [cut, lawful.uint32 _ _ small]
          simp only [knows, reads]
          exact ih fuel (Nat.le_of_succ_le_succ enough)
  | skip small unknown field skips _ ih =>
      intro fuel enough
      cases fuel with
      | zero => exact absurd enough (Nat.not_succ_le_zero _)
      | succ fuel =>
          simp only [readFields, more, if_false]
          rw [cut, lawful.uint32 _ _ small]
          simp only [unknown, field, if_false, skips]
          exact ih fuel (Nat.le_of_succ_le_succ enough)

/-- One list of fields is another with fields that satisfy `P` anywhere between. -/
inductive Interleaved (P : Nat × Bytes → Prop) : List (Nat × Bytes) → List (Nat × Bytes) → Prop
  | nil : Interleaved P [] []
  | field {x : Nat × Bytes} {fields more : List (Nat × Bytes)} (rest : Interleaved P fields more) :
      Interleaved P (x :: fields) (x :: more)
  | other {x : Nat × Bytes} {fields more : List (Nat × Bytes)} (skipped : P x)
      (rest : Interleaved P fields more) :
      Interleaved P fields (x :: more)

theorem Interleaved.refl (P : Nat × Bytes → Prop) : ∀ fields, Interleaved P fields fields
  | [] => .nil
  | _ :: fields => .field (Interleaved.refl P fields)

/-- A whole message: `decode(input)`. -/
def decodeMessage (reader : Reader) (known : Nat → Option (M → Bytes → Option (M × Bytes))) (base : M)
    (input : Bytes) : Option M :=
  (readFields reader known input.length 0 base input).map Prod.fst

/-- A message behind its length: `decode(reader, reader.uint32())`. -/
def decodeNested (reader : Reader) (known : Nat → Option (M → Bytes → Option (M × Bytes))) (base : M)
    (rest : Bytes) : Option (M × Bytes) :=
  match reader.uint32 rest with
  | none => none
  | some (length, rest) => readFields reader known rest.length ((rest.length : Int) - length) base rest

theorem decodeMessage_reads (lawful : reader.Lawful) {base last : M} {fields : List (Nat × Bytes)}
    (reads : Reads reader known base fields last) :
    decodeMessage reader known base (encodeFields fields) = some last := by
  have whole := readFields_reads lawful reads [] _ (length_le_encodeFields fields)
  rw [List.append_nil] at whole
  exact congrArg (Option.map Prod.fst) whole

theorem decodeNested_reads (lawful : reader.Lawful) {base last : M} {fields : List (Nat × Bytes)}
    (reads : Reads reader known base fields last) (small : (encodeFields fields).length < 2 ^ 32)
    (rest : Bytes) :
    decodeNested reader known base (delimited (encodeFields fields) ++ rest) = some (last, rest) := by
  have enough := length_le_encodeFields fields
  have stop : ((encodeFields fields ++ rest).length : Int) - (encodeFields fields).length = rest.length := by
    rw [List.length_append]
    omega
  unfold decodeNested
  rw [delimited, List.append_assoc, lawful.uint32 _ _ small]
  dsimp only
  rw [stop]
  exact readFields_reads lawful reads rest _ (by rw [List.length_append]; omega)

/-- A value that is part of a message is no longer than the message. -/
theorem fits_of_mem {fields : List (Nat × Bytes)} (small : (encodeFields fields).length < 2 ^ 32) {tag : Nat}
    {bytes : Bytes} (member : (tag, delimited bytes) ∈ fields) : bytes.length < 2 ^ 32 :=
  Nat.lt_of_le_of_lt (Nat.le_trans (length_le_delimited bytes) (length_le_of_mem member)) small

theorem standard_faithful : standard.Faithful where
  toLawful := standard_lawful
  text s rest _ small := by
    change ((readBytes _).map _) = _
    rw [readBytes_delimited small, Option.map_some]
    dsimp only
    rw [Utf8.decodeLossy_encode]
  skipVarint n rest small := by
    change (readVarint 10 _).map _ = _
    rw [readVarint_varint small, Option.map_some]
  skipBytes bytes rest small := by
    change (readBytes _).map _ = _
    rw [readBytes_delimited small, Option.map_some]

end ProtoWire
