import GrpcWebnext.HttpRule.Integers

/-! The coercion tables of `httprule.rs` and `httprule.go` side by side, each over the integer
parser of its language. -/
namespace GrpcWebnext.HttpRule
open Framing (Bytes)
open Text (Str)

/-- The kinds of a descriptor, one for each wire encoding. -/
inductive FieldKind (T : Type) where
  | double
  | float
  | int32
  | int64
  | uint32
  | uint64
  | sint32
  | sint64
  | fixed32
  | fixed64
  | sfixed32
  | sfixed64
  | bool
  | string
  | bytes
  | enum (values : List (T × Int))
  | message (type : T)

namespace FieldKind

/-- The kind with the encodings of one width taken together. -/
def kind {T : Type} : FieldKind T → Kind T
  | .double => .double
  | .float => .float
  | .int32 | .sint32 | .sfixed32 => .int32
  | .int64 | .sint64 | .sfixed64 => .int64
  | .uint32 | .fixed32 => .uint32
  | .uint64 | .fixed64 => .uint64
  | .bool => .bool
  | .string => .string
  | .bytes => .bytes
  | .enum values => .enum values
  | .message type => .message type

/-- The same kind in the other server, names in UTF-8. -/
def encoded : FieldKind Str → FieldKind Bytes
  | .double => .double
  | .float => .float
  | .int32 => .int32
  | .int64 => .int64
  | .uint32 => .uint32
  | .uint64 => .uint64
  | .sint32 => .sint32
  | .sint64 => .sint64
  | .fixed32 => .fixed32
  | .fixed64 => .fixed64
  | .sfixed32 => .sfixed32
  | .sfixed64 => .sfixed64
  | .bool => .bool
  | .string => .string
  | .bytes => .bytes
  | .enum values => .enum (values.map fun v => (Utf8.encode v.1, v.2))
  | .message type => .message (Utf8.encode type)

/-- The width of an unsigned integer kind. -/
def unsignedBits {T : Type} : FieldKind T → Option Nat
  | .uint32 | .fixed32 => some 32
  | .uint64 | .fixed64 => some 64
  | _ => none

/-- The kinds whose values do not depend on a rounding. -/
def isExact {T : Type} : FieldKind T → Bool
  | .double | .float => false
  | _ => true

end FieldKind

section
variable {Msg : Type}

namespace Rust
variable (debug : Str → String) (parseF32 parseF64 : Str → Option Nat) (name : Str)

def coerce (kind : FieldKind Str) (raw : Str) : Except String (Value Str Msg) :=
  let num (ok : Option (Value Str Msg)) : Except String (Value Str Msg) :=
    match ok with
    | some value => .ok value
    | none => .error ("invalid value for " ++ String.ofList name ++ ": " ++ debug raw)
  match kind with
  | .string => .ok (.string raw)
  | .bool =>
      if raw = "true".toList ∨ raw = "1".toList then .ok (.bool true)
      else if raw = "false".toList ∨ raw = "0".toList then .ok (.bool false)
      else .error ("invalid bool: " ++ debug raw)
  | .int32 | .sint32 | .sfixed32 => num ((parseSigned 32 raw).map .i32)
  | .int64 | .sint64 | .sfixed64 => num ((parseSigned 64 raw).map .i64)
  | .uint32 | .fixed32 => num ((parseUnsigned 32 raw).map fun n => .u32 n.toNat)
  | .uint64 | .fixed64 => num ((parseUnsigned 64 raw).map fun n => .u64 n.toNat)
  | .float => num ((parseF32 raw).map .f32)
  | .double => num ((parseF64 raw).map .f64)
  | .enum values => match parseSigned 32 raw with
    | some n => .ok (.enumNumber n)
    | none => match values.find? fun v => v.1 = raw with
      | some v => .ok (.enumNumber v.2)
      | none => .error ("unknown enum value: " ++ debug raw)
  | .bytes => .error "bytes must bind through the JSON decoder"
  | .message _ => .error "cannot bind a scalar to a message field"

end Rust

namespace Go
variable (debug : Bytes → String) (parseF32 parseF64 : Bytes → Option Nat) (name : Bytes)

def coerce (kind : FieldKind Bytes) (raw : Bytes) : Except String (Value Bytes Msg) :=
  let invalid : Except String (Value Bytes Msg) :=
    .error ("invalid value for " ++ String.ofList (Utf8.decodeLossy name) ++ ": " ++ debug raw)
  match kind with
  | .string => .ok (.string raw)
  | .bool =>
      if raw = utf8 "true" ∨ raw = utf8 "1" then .ok (.bool true)
      else if raw = utf8 "false" ∨ raw = utf8 "0" then .ok (.bool false)
      else .error ("invalid bool: " ++ debug raw)
  | .int32 | .sint32 | .sfixed32 => match parseInt 32 raw with
    | .ok n => .ok (.i32 n)
    | .error _ => invalid
  | .int64 | .sint64 | .sfixed64 => match parseInt 64 raw with
    | .ok n => .ok (.i64 n)
    | .error _ => invalid
  | .uint32 | .fixed32 => match parseUint 32 raw with
    | .ok n => .ok (.u32 n)
    | .error _ => invalid
  | .uint64 | .fixed64 => match parseUint 64 raw with
    | .ok n => .ok (.u64 n)
    | .error _ => invalid
  | .float => match parseF32 raw with
    | some bits => .ok (.f32 bits)
    | none => invalid
  | .double => match parseF64 raw with
    | some bits => .ok (.f64 bits)
    | none => invalid
  | .enum values => match parseInt 32 raw with
    | .ok n => .ok (.enumNumber n)
    | .error _ => match values.find? fun v => v.1 = raw with
      | some v => .ok (.enumNumber v.2)
      | none => .error ("unknown enum value: " ++ debug raw)
  | .bytes => .error "bytes must bind through the JSON decoder"
  | .message _ => .error "cannot bind a scalar to a message field"

end Go

/-- The table that assignments by path go through is the one of either server. -/
theorem Rust.coerce_eq (debug : Str → String) (store : Store Str Msg) (field : Field Str)
    (kind : FieldKind Str)
    (same : field.kind = kind.kind) (raw : Str) :
    Rust.coerce debug store.parseF32 store.parseF64 field.name kind raw =
      HttpRule.coerce (Rust.dialect debug) store field raw := by
  have wide : ∀ (bits : Nat) (f : Nat → Value Str Msg),
    ((Rust.parseUnsigned bits raw).map fun n => f n.toNat) =
      ((Rust.unsigned raw).filter fun n => decide (n < 2 ^ bits)).map f := by
    intro bits f
    rw [Rust.parseUnsigned_eq, Option.map_map]
    rfl
  unfold Rust.coerce HttpRule.coerce
  rw [same]
  cases kind with
  | string | bool | bytes | message _ => rfl
  | float =>
      simp only [FieldKind.kind]
      cases store.parseF32 raw <;> rfl
  | double =>
      simp only [FieldKind.kind]
      cases store.parseF64 raw <;> rfl
  | int32 | sint32 | sfixed32 =>
      simp only [FieldKind.kind, Rust.parseSigned_eq, Rust.dialect, id]
      cases HttpRule.parseSigned 32 raw <;> rfl
  | int64 | sint64 | sfixed64 =>
      simp only [FieldKind.kind, Rust.parseSigned_eq, Rust.dialect, id]
      cases HttpRule.parseSigned 64 raw <;> rfl
  | enum values =>
      simp only [FieldKind.kind, Rust.parseSigned_eq, Rust.dialect, id]
      cases HttpRule.parseSigned 32 raw with
      | some _ => rfl
      | none => cases values.find? fun v => v.1 = raw <;> rfl
  | uint32 | fixed32 =>
      simp only [FieldKind.kind, wide, Rust.dialect, id]
      cases (Rust.unsigned raw).filter fun n => decide (n < 2 ^ 32) <;> rfl
  | uint64 | fixed64 =>
      simp only [FieldKind.kind, wide, Rust.dialect, id]
      cases (Rust.unsigned raw).filter fun n => decide (n < 2 ^ 64) <;> rfl

theorem Go.coerce_eq (debug : Bytes → String) (store : Store Bytes Msg) (field : Field Bytes)
    (kind : FieldKind Bytes)
    (same : field.kind = kind.kind) (raw : Bytes) :
    Go.coerce debug store.parseF32 store.parseF64 field.name kind raw =
      HttpRule.coerce (Go.dialect debug) store field raw := by
  have signed : ∀ bits, 2 ≤ bits → bits ≤ 64 →
    HttpRule.parseSigned bits (raw.map fun b => Char.ofNat b.toNat) =
      (Go.parseInt bits raw).toOption := fun _ two width => (Go.parseInt_eq two width raw).symm
  have unsigned : ∀ bits, bits ≤ 64 →
      ((decimal (raw.map fun b => Char.ofNat b.toNat)).filter fun n => decide (n < 2 ^ bits)) =
        (Go.parseUint bits raw).toOption := fun _ width => (Go.parseUint_eq width raw).symm
  unfold Go.coerce HttpRule.coerce
  rw [same]
  cases kind with
  | string | bool | bytes | message _ => rfl
  | float =>
      simp only [FieldKind.kind]
      cases store.parseF32 raw <;> rfl
  | double =>
      simp only [FieldKind.kind]
      cases store.parseF64 raw <;> rfl
  | int32 | sint32 | sfixed32 =>
      simp only [FieldKind.kind, Go.dialect, signed 32 (by decide) (by decide)]
      cases Go.parseInt 32 raw <;> rfl
  | int64 | sint64 | sfixed64 =>
      simp only [FieldKind.kind, Go.dialect, signed 64 (by decide) (by decide)]
      cases Go.parseInt 64 raw <;> rfl
  | enum values =>
      simp only [FieldKind.kind, Go.dialect, signed 32 (by decide) (by decide)]
      cases Go.parseInt 32 raw with
      | ok _ => rfl
      | error _ => cases values.find? fun v => v.1 = raw <;> rfl
  | uint32 | fixed32 =>
      simp only [FieldKind.kind, Go.dialect, unsigned 32 (by decide)]
      cases Go.parseUint 32 raw <;> rfl
  | uint64 | fixed64 =>
      simp only [FieldKind.kind, Go.dialect, unsigned 64 (by decide)]
      cases Go.parseUint 64 raw <;> rfl

end

section Agreement
variable {Msg Msg' : Type}

abbrev Rust.Coerced (Msg : Type) := Except String (Value Str Msg)

abbrev Go.Coerced (Msg : Type) := Except String (Value Bytes Msg)

/-- One scalar in the two servers, text in UTF-8 in the second. -/
inductive SameScalar : Value Str Msg → Value Bytes Msg' → Prop
  | string (s : Str) : SameScalar (.string s) (.string (Utf8.encode s))
  | bool (b : Bool) : SameScalar (.bool b) (.bool b)
  | i32 (n : Int) : SameScalar (.i32 n) (.i32 n)
  | i64 (n : Int) : SameScalar (.i64 n) (.i64 n)
  | u32 (n : Nat) : SameScalar (.u32 n) (.u32 n)
  | u64 (n : Nat) : SameScalar (.u64 n) (.u64 n)
  | enumNumber (n : Int) : SameScalar (.enumNumber n) (.enumNumber n)

/-- Both fail, or both return the same scalar. -/
def Agree (rust : Rust.Coerced Msg) (go : Go.Coerced Msg') : Prop :=
  Option.Rel SameScalar rust.toOption go.toOption

/-- A plus in front of an unsigned number that is in range. -/
def PlusSigned (kind : FieldKind Str) (raw : Str) : Prop :=
  ∃ bits digits n, kind.unsignedBits = some bits ∧ raw = '+' :: digits ∧ decimal digits = some n ∧
    n < 2 ^ bits

theorem alike_map {α : Type} {f : α → Value Str Msg} {g : α → Value Bytes Msg'}
    (same : ∀ n, SameScalar (f n) (g n))
    (read : Option α) : Option.Rel SameScalar (read.map f) (read.map g) := by
  cases read with
  | none => exact .none
  | some n => exact .some (same n)

theorem decimal_plus (digits : Str) : decimal ('+' :: digits) = none := by
  rw [decimal, if_neg]
  rintro ⟨-, all⟩
  rw [List.all_cons, Bool.and_eq_true] at all
  exact absurd all.1 (by decide)

/-- Reading an unsigned number with and without a leading plus. -/
theorem unsigned_alike_iff (bits : Nat) {f : Nat → Value Str Msg} {g : Nat → Value Bytes Msg'}
    (same : ∀ n, SameScalar (f n) (g n)) (raw : Str) :
    Option.Rel SameScalar (((Rust.unsigned raw).filter fun n => decide (n < 2 ^ bits)).map f)
        (((decimal raw).filter fun n => decide (n < 2 ^ bits)).map g) ↔
      ¬ ∃ digits n, raw = '+' :: digits ∧ decimal digits = some n ∧ n < 2 ^ bits := by
  by_cases plus : raw.head? = some '+'
  · obtain ⟨digits, rfl⟩ : ∃ digits, raw = '+' :: digits := List.head?_eq_some_iff.mp plus
    have refused : decimal ('+' :: digits) = none := decimal_plus digits
    have read : Rust.unsigned ('+' :: digits) = decimal digits := rfl
    rw [refused, read]
    constructor
    · rintro alike ⟨_, n, spelled, found, inside⟩
      cases spelled
      rw [found, Option.filter_some, if_pos (decide_eq_true inside)] at alike
      cases alike
    · intro none_
      cases found : decimal digits with
      | none => exact .none
      | some n =>
          rw [Option.filter_some, if_neg]
          · exact .none
          · intro inside
            exact none_ ⟨digits, n, rfl, found, of_decide_eq_true inside⟩
  · have read : Rust.unsigned raw = decimal raw := by
      unfold Rust.unsigned
      split
      · exact absurd rfl plus
      · rfl
    rw [read]
    constructor
    · rintro - ⟨digits, n, rfl, -⟩
      exact plus rfl
    · intro _
      exact alike_map same _

/-- A value of an enum by its name, in either spelling. -/
theorem find_encoded (values : List (Str × Int)) (raw : Str) :
    ((values.map fun v => (Utf8.encode v.1, v.2)).find? fun v => v.1 = Utf8.encode raw) =
      (values.find? fun v => v.1 = raw).map fun v => (Utf8.encode v.1, v.2) := by
  induction values with
  | nil => rfl
  | cons v rest ih =>
      rw [List.map_cons, List.find?_cons, List.find?_cons]
      by_cases here : v.1 = raw
      · rw [decide_eq_true here, decide_eq_true (congrArg Utf8.encode here)]
        rfl
      · have there : Utf8.encode v.1 ≠ Utf8.encode raw := fun same => here (Utf8.encode_injective same)
        rw [decide_eq_false here, decide_eq_false there]
        exact ih

theorem encode_eq_utf8_iff (raw : Str) (word : String) : Utf8.encode raw = utf8 word ↔ raw = word.toList :=
  ⟨fun same => Utf8.encode_injective same, fun same => congrArg Utf8.encode same⟩

variable (debug : Str → String) (quote : Bytes → String) (parseF32 parseF64 : Str → Option Nat)
  (parseFloat32 parseFloat64 : Bytes → Option Nat) (name raw : Str)

theorem bool_alike : Agree (Rust.coerce debug parseF32 parseF64 name .bool raw : Rust.Coerced Msg)
    (Go.coerce quote parseFloat32 parseFloat64 (Utf8.encode name) .bool
      (Utf8.encode raw) : Go.Coerced Msg') := by
  unfold Agree Rust.coerce Go.coerce
  simp only [encode_eq_utf8_iff]
  split
  · exact .some (.bool true)
  · split
    · exact .some (.bool false)
    · exact .none

theorem int32_alike : Agree (Rust.coerce debug parseF32 parseF64 name .int32 raw : Rust.Coerced Msg)
    (Go.coerce quote parseFloat32 parseFloat64 (Utf8.encode name) .int32
      (Utf8.encode raw) : Go.Coerced Msg') := by
  have rust : (Rust.coerce debug parseF32 parseF64 name .int32 raw : Rust.Coerced Msg).toOption =
      (HttpRule.parseSigned 32 raw).map .i32 := by
    simp only [Rust.coerce, Rust.parseSigned_eq]
    cases HttpRule.parseSigned 32 raw <;> rfl
  have go : (Go.coerce quote parseFloat32 parseFloat64 (Utf8.encode name) .int32
      (Utf8.encode raw) : Go.Coerced Msg').toOption = (HttpRule.parseSigned 32 raw).map .i32 := by
    rw [← Go.parseSigned_letters, ← Go.parseInt_eq (by decide) (by decide)]
    simp only [Go.coerce]
    cases Go.parseInt 32 (Utf8.encode raw) <;> rfl
  rw [Agree, rust, go]
  exact alike_map .i32 _

theorem int64_alike : Agree (Rust.coerce debug parseF32 parseF64 name .int64 raw : Rust.Coerced Msg)
    (Go.coerce quote parseFloat32 parseFloat64 (Utf8.encode name) .int64
      (Utf8.encode raw) : Go.Coerced Msg') := by
  have rust : (Rust.coerce debug parseF32 parseF64 name .int64 raw : Rust.Coerced Msg).toOption =
      (HttpRule.parseSigned 64 raw).map .i64 := by
    simp only [Rust.coerce, Rust.parseSigned_eq]
    cases HttpRule.parseSigned 64 raw <;> rfl
  have go : (Go.coerce quote parseFloat32 parseFloat64 (Utf8.encode name) .int64
      (Utf8.encode raw) : Go.Coerced Msg').toOption = (HttpRule.parseSigned 64 raw).map .i64 := by
    rw [← Go.parseSigned_letters, ← Go.parseInt_eq (by decide) (by decide)]
    simp only [Go.coerce]
    cases Go.parseInt 64 (Utf8.encode raw) <;> rfl
  rw [Agree, rust, go]
  exact alike_map .i64 _

theorem uint32_alike_iff : Agree (Rust.coerce debug parseF32 parseF64 name .uint32 raw : Rust.Coerced Msg)
    (Go.coerce quote parseFloat32 parseFloat64 (Utf8.encode name) .uint32
      (Utf8.encode raw) : Go.Coerced Msg') ↔
      ¬ ∃ digits n, raw = '+' :: digits ∧ decimal digits = some n ∧ n < 2 ^ 32 := by
  have rust : (Rust.coerce debug parseF32 parseF64 name .uint32 raw : Rust.Coerced Msg).toOption =
      ((Rust.unsigned raw).filter fun n => decide (n < 2 ^ 32)).map .u32 := by
    simp only [Rust.coerce, Rust.parseUnsigned_eq]
    cases (Rust.unsigned raw).filter fun n => decide (n < 2 ^ 32) <;> rfl
  have go : (Go.coerce quote parseFloat32 parseFloat64 (Utf8.encode name) .uint32
      (Utf8.encode raw) : Go.Coerced Msg').toOption =
        ((decimal raw).filter fun n => decide (n < 2 ^ 32)).map .u32 := by
    rw [← Go.decimal_letters, ← Go.parseUint_eq (by decide)]
    simp only [Go.coerce]
    cases Go.parseUint 32 (Utf8.encode raw) <;> rfl
  rw [Agree, rust, go]
  exact unsigned_alike_iff 32 .u32 raw

theorem uint64_alike_iff : Agree (Rust.coerce debug parseF32 parseF64 name .uint64 raw : Rust.Coerced Msg)
    (Go.coerce quote parseFloat32 parseFloat64 (Utf8.encode name) .uint64
      (Utf8.encode raw) : Go.Coerced Msg') ↔
      ¬ ∃ digits n, raw = '+' :: digits ∧ decimal digits = some n ∧ n < 2 ^ 64 := by
  have rust : (Rust.coerce debug parseF32 parseF64 name .uint64 raw : Rust.Coerced Msg).toOption =
      ((Rust.unsigned raw).filter fun n => decide (n < 2 ^ 64)).map .u64 := by
    simp only [Rust.coerce, Rust.parseUnsigned_eq]
    cases (Rust.unsigned raw).filter fun n => decide (n < 2 ^ 64) <;> rfl
  have go : (Go.coerce quote parseFloat32 parseFloat64 (Utf8.encode name) .uint64
      (Utf8.encode raw) : Go.Coerced Msg').toOption =
        ((decimal raw).filter fun n => decide (n < 2 ^ 64)).map .u64 := by
    rw [← Go.decimal_letters, ← Go.parseUint_eq (by decide)]
    simp only [Go.coerce]
    cases Go.parseUint 64 (Utf8.encode raw) <;> rfl
  rw [Agree, rust, go]
  exact unsigned_alike_iff 64 .u64 raw

/-- The fallback from number to name picks one value in both spellings. -/
theorem enum_alike (values : List (Str × Int)) :
    Agree (Rust.coerce debug parseF32 parseF64 name (.enum values) raw : Rust.Coerced Msg)
      (Go.coerce quote parseFloat32 parseFloat64 (Utf8.encode name) (FieldKind.enum values).encoded
        (Utf8.encode raw) : Go.Coerced Msg') := by
  let named : Option Int := (values.find? fun v => v.1 = raw).map Prod.snd
  have rust : (Rust.coerce debug parseF32 parseF64 name (.enum values) raw : Rust.Coerced Msg).toOption =
      ((HttpRule.parseSigned 32 raw).or named).map .enumNumber := by
    simp only [Rust.coerce, Rust.parseSigned_eq, named]
    cases HttpRule.parseSigned 32 raw with
    | some _ => rfl
    | none => cases values.find? fun v => v.1 = raw <;> rfl
  have go : (Go.coerce quote parseFloat32 parseFloat64 (Utf8.encode name)
      (FieldKind.enum values).encoded (Utf8.encode raw) : Go.Coerced Msg').toOption =
        ((HttpRule.parseSigned 32 raw).or named).map .enumNumber := by
    rw [← Go.parseSigned_letters, ← Go.parseInt_eq (by decide) (by decide)]
    simp only [Go.coerce, FieldKind.encoded, find_encoded, named]
    cases Go.parseInt 32 (Utf8.encode raw) with
    | ok _ => rfl
    | error _ => cases values.find? fun v => v.1 = raw <;> rfl
  rw [Agree, rust, go]
  exact alike_map .enumNumber _

/-- The tables agree but for a plus in front of an unsigned number. -/
theorem coercions_agree_iff (kind : FieldKind Str) (exact : kind.isExact = true) :
    Agree (Rust.coerce debug parseF32 parseF64 name kind raw : Rust.Coerced Msg)
        (Go.coerce quote parseFloat32 parseFloat64 (Utf8.encode name) kind.encoded (Utf8.encode raw) :
          Go.Coerced Msg') ↔
      ¬ PlusSigned kind raw := by
  have no_width : kind.unsignedBits = none → ¬ PlusSigned kind raw := by
    rintro none_ ⟨bits, -, -, width, -⟩
    rw [none_] at width
    cases width
  have width : ∀ bits, kind.unsignedBits = some bits →
      (PlusSigned kind raw ↔ ∃ digits n, raw = '+' :: digits ∧ decimal digits = some n ∧ n < 2 ^ bits) := by
    intro bits is_width
    constructor
    · rintro ⟨bits', digits, n, width, signed⟩
      cases is_width.symm.trans width
      exact ⟨digits, n, signed⟩
    · rintro ⟨digits, n, signed⟩
      exact ⟨bits, digits, n, is_width, signed⟩
  cases kind with
  | float | double => cases exact
  | string => exact iff_of_true (.some (.string raw)) (no_width rfl)
  | bytes | message _ => exact iff_of_true .none (no_width rfl)
  | bool =>
      exact iff_of_true
        (bool_alike debug quote parseF32 parseF64 parseFloat32 parseFloat64 name raw) (no_width rfl)
  | int32 | sint32 | sfixed32 =>
      exact iff_of_true
        (int32_alike debug quote parseF32 parseF64 parseFloat32 parseFloat64 name raw) (no_width rfl)
  | int64 | sint64 | sfixed64 =>
      exact iff_of_true
        (int64_alike debug quote parseF32 parseF64 parseFloat32 parseFloat64 name raw) (no_width rfl)
  | enum values =>
      exact iff_of_true (enum_alike debug quote parseF32 parseF64 parseFloat32 parseFloat64 name raw values)
        (no_width rfl)
  | uint32 | fixed32 =>
      rw [width 32 rfl]
      exact uint32_alike_iff debug quote parseF32 parseF64 parseFloat32 parseFloat64 name raw
  | uint64 | fixed64 =>
      rw [width 64 rfl]
      exact uint64_alike_iff debug quote parseF32 parseF64 parseFloat32 parseFloat64 name raw

end Agreement

/-- The least number of a signed width, in both tables. -/
theorem least_agrees :
    Agree
      (Rust.coerce (fun _ => "") (fun _ => none) (fun _ =>
        none) "n".toList .sfixed64 "-9223372036854775808".toList :
        Rust.Coerced Unit)
      (Go.coerce (fun _ => "") (fun _ => none) (fun _ => none) (utf8 "n") .sfixed64
        (utf8 "-9223372036854775808") :
        Go.Coerced Unit) := by
  refine (coercions_agree_iff (fun _ => "") (fun _ => "") (fun _ => none) (fun _ => none) (fun _ => none)
    (fun _ => none) "n".toList "-9223372036854775808".toList .sfixed64 rfl).mpr ?_
  rintro ⟨bits, digits, n, width, -⟩
  cases width

/-- `+5` for a `uint32`: a number to the one server, an error of the other. -/
theorem plus_divides_servers :
    ¬ ∀ (kind : FieldKind Str) (raw : Str), kind.isExact = true →
      Agree
        (Rust.coerce (fun _ => "") (fun _ => none) (fun _ => none) "n".toList kind raw : Rust.Coerced Unit)
        (Go.coerce (fun _ => "") (fun _ => none) (fun _ => none) (utf8 "n") kind.encoded (Utf8.encode raw) :
          Go.Coerced Unit) := by
  intro agree
  have rust : (Rust.coerce (fun _ => "") (fun _ => none) (fun _ => none) "n".toList .uint32
      "+5".toList : Rust.Coerced Unit).toOption.isSome = true := by decide
  have go : (Go.coerce (fun _ => "") (fun _ => none) (fun _ => none) (utf8 "n") .uint32
      (utf8 "+5") : Go.Coerced Unit).toOption.isSome = false := by decide
  have both := agree .uint32 "+5".toList rfl
  change Option.Rel SameScalar _ (Go.coerce (fun _ => "") (fun _ => none) (fun _ => none) (utf8 "n") .uint32
      (utf8 "+5")).toOption at both
  revert rust go both
  generalize Except.toOption _ = one
  generalize Except.toOption _ = other
  rintro some_ none_ (_ | _)
  · cases none_
  · cases some_

end GrpcWebnext.HttpRule
