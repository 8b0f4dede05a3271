import GrpcWebnext.FetchJson

/-! The field that `response_body` names, lifted out of the JSON of the whole message, beside
what protobuf-JSON makes of that field. -/
namespace GrpcWebnext.FetchJson
open Framing (Bytes)
open Text (Str)
open Json (Tree memberOf)
open HttpRule (fieldByAnyName)

/-- The types whose JSON is not the object of their fields. -/
def wellKnown : List String :=
  ["google.protobuf.Any", "google.protobuf.Timestamp", "google.protobuf.Duration",
    "google.protobuf.FieldMask",
    "google.protobuf.Struct", "google.protobuf.Value", "google.protobuf.ListValue",
      "google.protobuf.DoubleValue",
    "google.protobuf.FloatValue", "google.protobuf.Int64Value", "google.protobuf.UInt64Value",
    "google.protobuf.Int32Value", "google.protobuf.UInt32Value", "google.protobuf.BoolValue",
    "google.protobuf.StringValue", "google.protobuf.BytesValue"]

def isWellKnown (output : Str) : Bool := wellKnown.any fun name => name.toList = output

/-- The protobuf-JSON of messages: of a field that is set, and of a well-known type. -/
structure JsonMapping (N Msg : Type) where
  field : Msg → HttpRule.Field Str → Option (Json.Value N)
  own : Msg → Json.Value N
  /-- The enum of the field is `google.protobuf.NullValue`, whose only value is written `null`. -/
  isNullValue : HttpRule.Field Str → Bool

section
variable {N Msg : Type} (num : Str → N) (mapping : JsonMapping N Msg) (lib : Library Msg)

namespace JsonMapping

/-- The zero of a kind. -/
def zero (field : HttpRule.Field Str) : Json.Value N :=
  match field.shape, field.kind with
  | .list, _ => .array []
  | .map, _ => .object fun _ => none
  | .singular, .message _ => .null
  | .singular, .string => .string []
  | .singular, .bytes => .string []
  | .singular, .bool => .bool false
  | .singular, .int64 => .string [.char '0']
  | .singular, .uint64 => .string [.char '0']
  | .singular, .enum values =>
      if mapping.isNullValue field then .null
      else match values.find? fun value => value.2 = 0 with
        | some value => .string (value.1.map .char)
        | none => .number (num ['0'])
  | .singular, _ => .number (num ['0'])

/-- What `response_body` promises: the field, or its zero. -/
def expected (msg : Msg) (field : HttpRule.Field Str) : Json.Value N :=
  (mapping.field msg field).getD (mapping.zero num field)

/-- The JSON of a message of a type. -/
def Writes (output : Str) (msg : Msg) (json : Json.Value N) : Prop :=
  if isWellKnown output then json = mapping.own msg
  else ∃ members, json = .object members ∧
    ∀ field ∈ lib.store.fields output, members (field.jsonName.map .char) = mapping.field msg field

end JsonMapping

/-- The libraries encode whole messages as protobuf-JSON. -/
def Library.Encodes : Prop :=
  ∀ output proto msg whole, lib.decode output proto = .ok msg → lib.serialize msg = .ok whole →
    mapping.Writes lib output msg (valueOf num whole)

/-- An enum field of which the zero is `null`. -/
def NullZero (field : HttpRule.Field Str) : Prop :=
  field.shape = .singular ∧ (∃ values, field.kind = .enum values) ∧ mapping.isNullValue field = true

/-- Both servers answer with the field. -/
def Extracted (path : Str) (proto : Bytes) (responseBody : Str) (msg : Msg)
    (field : HttpRule.Field Str) : Prop :=
  (∃ t, Rust.responseProtoToJsonBody lib path proto responseBody = .ok t ∧
    valueOf num t = mapping.expected num msg field) ∧
    ∃ t, Go.responseProtoToJSONBody lib path proto responseBody = .ok t ∧
      valueOf num t = mapping.expected num msg field

/-- In the own JSON of a well-known type the place of the field happens to hold what is
expected: the member of its name, or nothing where the field has its zero. -/
def OwnMember (msg : Msg) (field : HttpRule.Field Str) : Prop :=
  match mapping.own msg with
  | .null => valueOf num (Rust.jsonZero field) = mapping.expected num msg field
  | .object members =>
      (members (field.jsonName.map .char)).getD (valueOf num (Rust.jsonZero field)) =
        mapping.expected num msg field
  | _ => False

/-- When the field can be lifted out of the two texts of a message. -/
structure Extractable (output : Str) (msg : Msg) (field : HttpRule.Field Str) (whole raw : Tree) : Prop where
  rustDepth : whole.depth ≤ 127
  goDepth : raw.depth ≤ 10000
  numerals : ∀ value, Rust.get field.jsonName whole = some value → ∀ s ∈ value.numerals,
    num ((lib.reread s).getD s) = num s
  form : if isWellKnown output then OwnMember num mapping msg field
    else mapping.field msg field = none → ¬ NullZero mapping field

end

section
variable {N Msg : Type} {num : Str → N} {mapping : JsonMapping N Msg} {lib : Library Msg}

/-- The table of zeros is right but for the null enum. -/
theorem jsonZero_eq_iff (field : HttpRule.Field Str) :
    valueOf num (Rust.jsonZero field) = mapping.zero num field ↔ ¬ NullZero mapping field := by
  have zero : ∀ s : Str, valueOf num (.string (Json.write JsonText.Rust.written s)) =
    .string (s.map .char) := by
    intro s
    rw [valueOf, Tree.value, Json.write_units]
  unfold Rust.jsonZero JsonMapping.zero NullZero
  cases field.shape with
  | list => simp [valueOf, Tree.value, Json.valueItems]
  | map =>
      have empty : valueOf num (.object []) = .object fun _ => none := by
        rw [valueOf, Tree.value]
        rfl
      simp [empty]
  | singular =>
      cases field.kind with
      | string | bytes => simp [valueOf, Tree.value, Json.Literal.units]
      | bool | int32 | uint32 | float | double | message inner => simp [valueOf, Tree.value]
      | int64 | uint64 => simp [zero]
      | enum values =>
          cases null : mapping.isNullValue field with
          | true => cases found : values.find? fun value => value.2 = 0 <;> simp [found, valueOf, Tree.value]
          | false => cases found : values.find? fun value => value.2 = 0 <;> simp [found, valueOf, Tree.value]

theorem getD_expected_iff (msg : Msg) (field : HttpRule.Field Str) :
    (mapping.field msg field).getD (valueOf num (Rust.jsonZero field)) = mapping.expected num msg field ↔
      (mapping.field msg field = none → ¬ NullZero mapping field) := by
  rw [JsonMapping.expected]
  cases mapping.field msg field with
  | none => simpa using jsonZero_eq_iff field
  | some value => simp

/-- The members that Go reads are the members of the JSON value. -/
theorem rawMembers_some {raw : Tree} {members : List (Json.Literal × Tree)}
    (unpacked : Go.rawMembers raw = some members) :
    raw = .null ∧ members = [] ∨ raw = .object members ∧ raw.depth ≤ 10000 := by
  cases raw with
  | null =>
      cases unpacked
      exact .inl ⟨rfl, rfl⟩
  | object fields =>
      obtain ⟨shallow, same⟩ := Option.ite_none_right_eq_some.mp unpacked
      cases same
      exact .inr ⟨rfl, shallow⟩
  | bool b | number s | string l | array items => cases unpacked

variable (num) in
/-- What Go answers with, in the terms of the JSON value. -/
theorem lifted_value {raw : Tree} {members : List (Json.Literal × Tree)}
    (unpacked : Go.rawMembers raw = some members)
    (field : HttpRule.Field Str) :
    (valueOf num raw = .null ∧ valueOf num ((memberOf field.jsonName members).getD (Go.jsonZero field)) =
        valueOf num (Rust.jsonZero field)) ∨
      ∃ all, valueOf num raw = .object all ∧
        valueOf num ((memberOf field.jsonName members).getD (Go.jsonZero field)) =
          (all (field.jsonName.map .char)).getD (valueOf num (Rust.jsonZero field)) := by
  rcases rawMembers_some unpacked with ⟨rfl, rfl⟩ | ⟨rfl, -⟩
  · exact .inl ⟨rfl, (jsonZero_value field).symm⟩
  · refine .inr ⟨_, rfl, ?_⟩
    rw [Json.valueFields_name, jsonZero_value]
    exact getD_value _ _ _

/-- The answer of Go is right if and only if the JSON of the message has the field in its place. -/
theorem lifted_expected_iff {output : Str} {msg : Msg} {field : HttpRule.Field Str}
    (member : field ∈ lib.store.fields output) {raw : Tree} {members : List (Json.Literal × Tree)}
    (unpacked : Go.rawMembers raw = some members) (writes : mapping.Writes lib output msg (valueOf num raw)) :
    valueOf num ((memberOf field.jsonName members).getD (Go.jsonZero field)) =
      mapping.expected num msg field ↔
      if isWellKnown output then OwnMember num mapping msg field
      else mapping.field msg field = none → ¬ NullZero mapping field := by
  unfold JsonMapping.Writes at writes
  cases own : isWellKnown output with
  | true =>
      simp only [own, if_true] at writes ⊢
      rw [OwnMember, ← writes]
      rcases lifted_value num unpacked field with ⟨null, lifted⟩ | ⟨all, object, lifted⟩
      · rw [null, lifted]
      · rw [object, lifted]
  | false =>
      simp only [own, Bool.false_eq_true, if_false] at writes ⊢
      obtain ⟨all, object, fields⟩ := writes
      rcases lifted_value num unpacked field with ⟨null, -⟩ | ⟨all', object', lifted⟩
      · rw [null] at object
        cases object
      · rw [object] at object'
        cases object'
        rw [lifted, fields field member]
        exact getD_expected_iff msg field

/-- A text with the field in its place is an object or `null`. -/
theorem unpacked_of_form {output : Str} {msg : Msg} {field : HttpRule.Field Str} {raw : Tree}
    (shallow : raw.depth ≤ 10000) (writes : mapping.Writes lib output msg (valueOf num raw))
    (form : if isWellKnown output then OwnMember num mapping msg field
      else mapping.field msg field = none → ¬ NullZero mapping field) :
    ∃ members, Go.rawMembers raw = some members := by
  cases raw with
  | null => exact ⟨_, rfl⟩
  | object fields => exact ⟨fields, if_pos shallow⟩
  | bool b | number s | string l | array items =>
      unfold JsonMapping.Writes at writes
      split at writes
      · rename_i own
        rw [if_pos own, OwnMember, ← writes] at form
        exact form.elim
      · obtain ⟨_, object, -⟩ := writes
        cases object

section Answers
variable {path : Str} {proto : Bytes} {responseBody output : Str} {field : HttpRule.Field Str} {msg : Msg}
  (known : lib.output path = some output) (named : responseBody ≠ [])
  (found : fieldByAnyName lib.store output responseBody = some field)
include known named found

/-- What Rust answers about a field: the value of its key, if the text can be read again. -/
theorem rust_lifts {whole : Tree} (decoded : lib.decode output proto = .ok msg)
    (serialized : lib.serialize msg = .ok whole) :
    Rust.responseProtoToJsonBody lib path proto responseBody =
      match JsonText.Rust.readValue lib.reread whole with
        | none => .error ("json error: " ++ lib.refusal whole)
        | some obj => .ok ((Rust.get field.jsonName obj).getD (Rust.jsonZero field)) := by
  cases read : JsonText.Rust.readValue lib.reread whole <;>
    simp only [Rust.responseProtoToJsonBody, known, named, found, Rust.protoToJson, decoded,
      serialized, read, if_false]

/-- What Go answers about it: the member, if the text is an object. -/
theorem go_lifts {raw : Tree} (unmarshalled : lib.unmarshal output proto = .ok msg)
    (marshalled : lib.marshal msg = .ok raw) :
    Go.responseProtoToJSONBody lib path proto responseBody =
      match Go.rawMembers raw with
        | none => .error ("webnext: re-read response json: " ++ lib.refusal raw)
        | some members => .ok ((memberOf field.jsonName members).getD (Go.jsonZero field)) := by
  cases members : Go.rawMembers raw <;>
    simp only [Go.responseProtoToJSONBody, known, named, found, unmarshalled, marshalled, members, if_false]

end Answers

/-- Both servers answer with the field exactly when it can be lifted out of the texts. -/
theorem response_body_extracted_iff (lawful : lib.Lawful num) (encodes : lib.Encodes num mapping)
    {path : Str} {proto : Bytes} {responseBody output : Str} {field : HttpRule.Field Str}
    {msg : Msg} {whole raw : Tree}
    (known : lib.output path = some output) (named : responseBody ≠ [])
    (found : fieldByAnyName lib.store output responseBody = some field)
    (decoded : lib.decode output proto = .ok msg)
    (unmarshalled : lib.unmarshal output proto = .ok msg) (serialized : lib.serialize msg = .ok whole)
    (marshalled : lib.marshal msg = .ok raw) :
    Extracted num mapping lib path proto responseBody msg field ↔
      Extractable num mapping lib output msg field whole raw := by
  have same : valueOf num whole = valueOf num raw := lawful.encoded msg whole raw serialized marshalled
  have writes : mapping.Writes lib output msg (valueOf num raw) :=
    same ▸ encodes output proto msg whole decoded serialized
  have member : field ∈ lib.store.fields output := HttpRule.fieldByAnyName_mem found
  have distinct := lawful.distinct msg whole serialized
  rw [Extracted, rust_lifts known named found decoded serialized,
    go_lifts known named found unmarshalled marshalled]
  constructor
  · rintro ⟨⟨t, answered, right⟩, u, answered', right'⟩
    cases read : JsonText.Rust.readValue lib.reread whole with
    | none =>
        rw [read] at answered
        cases answered
    | some obj =>
        cases unpacked : Go.rawMembers raw with
        | none =>
            rw [unpacked] at answered'
            cases answered'
        | some members =>
            rw [read] at answered
            rw [unpacked] at answered'
            cases answered
            cases answered'
            obtain ⟨level, rewritten⟩ := Option.ite_none_right_eq_some.mp read
            refine ⟨level, ?_, ?_, (lifted_expected_iff member unpacked writes).mp right'⟩
            · rcases rawMembers_some unpacked with ⟨rfl, -⟩ | ⟨-, shallow⟩
              · exact Nat.zero_le _
              · exact shallow
            · exact (member_alike_iff field same distinct rewritten unpacked).mp (right.trans right'.symm)
  · rintro ⟨level, shallow, numerals, form⟩
    obtain ⟨members, unpacked⟩ := unpacked_of_form shallow writes form
    obtain ⟨obj, rewritten⟩ := Option.isSome_iff_exists.mp (Json.rewrite_isSome whole |>.mpr
      ⟨lawful.numerals msg whole serialized, lawful.literals msg whole serialized⟩)
    have read : JsonText.Rust.readValue lib.reread whole = some obj := (if_pos level).trans rewritten
    have right := (lifted_expected_iff member unpacked writes).mpr form
    have alike := (member_alike_iff field same distinct rewritten unpacked).mpr numerals
    rw [read, unpacked]
    exact ⟨⟨_, rfl, alike.trans right⟩, _, rfl, right⟩

end

/-- The JSON of a switch. -/
def switchJson : JsonMapping Nat Bool where
  field msg _ := if msg then some (.bool true) else none
  own msg := .object fun name => if msg = true ∧ name = "on".toList.map .char then some (.bool true) else none
  isNullValue _ := false

theorem switch_encodes : switch.Encodes List.length switchJson := by
  intro output proto msg whole _ serialized
  cases serialized
  have object :
    valueOf List.length
    (.object (if msg then [(Json.write JsonText.Rust.written "on".toList, .bool true)] else [])) =
      switchJson.own msg := by
    rw [valueOf, Tree.value, switchJson]
    refine congrArg Json.Value.object (funext fun name => ?_)
    cases msg with
    | false => rfl
    | true => simp [Json.valueFields, Tree.value, eq_comm]
  unfold JsonMapping.Writes
  split
  · exact object
  · refine ⟨_, object, fun field member => ?_⟩
    cases List.mem_singleton.mp member
    simp [switchJson, on]

/-- The field of a switch that is on. -/
theorem switch_extracted :
    Extracted List.length switchJson switch "/s/m".toList [8, 1] "on".toList true on := by
  refine (response_body_extracted_iff switch_lawful switch_encodes rfl (by decide) rfl rfl rfl rfl rfl).mpr
    ⟨by decide, by decide, ?_, ?_⟩
  · rintro value found s inside
    cases found
    cases inside
  · intro unset
    cases unset

/-- A timestamp of seven seconds, or of none. -/
def seconds : HttpRule.Field Str := ⟨1, "seconds".toList, "seconds".toList, .int64, .singular, []⟩

def timestamp (seven : Bool) : Str :=
  (if seven then "1970-01-01T00:00:07Z" else "1970-01-01T00:00:00Z").toList

def clock : Library Bool where
  store := { switch.store with fields := fun _ => [seconds],
                               descriptor := fun _ => "google.protobuf.Timestamp".toList }
  output _ := some "google.protobuf.Timestamp".toList
  decode output proto :=
    if output ≠ "google.protobuf.Timestamp".toList then .error "another type"
    else if proto = [] then .ok false else if proto = [8, 7] then .ok true else .error "another time"
  unmarshal _ proto := if proto = [] then .ok false else if proto = [8, 7] then .ok true
    else .error "another time"
  serialize msg := .ok (.string (Json.write JsonText.Rust.written (timestamp msg)))
  marshal msg := .ok (.string (Json.write JsonText.Go.written (timestamp msg)))
  reread := some
  refusal _ := ""

def clockJson : JsonMapping Nat Bool where
  field msg _ := if msg then some (.string [.char '7']) else none
  own msg := .string ((timestamp msg).map .char)
  isNullValue _ := false

theorem clock_encodes : clock.Encodes List.length clockJson := by
  rintro output proto msg whole decoded ⟨⟩
  have named : output = "google.protobuf.Timestamp".toList := by
    by_contra other
    rw [clock] at decoded
    simp only [ne_eq, other, not_false_eq_true, if_true] at decoded
    cases decoded
  subst named
  rw [JsonMapping.Writes, if_pos (by decide), valueOf, Tree.value, Json.write_units]
  rfl

/-- Asked for the seconds of a timestamp, which is a string in JSON, Rust answers zero and Go
fails. -/
theorem timestamp_seconds_lost :
    clock.Encodes List.length clockJson ∧ clockJson.expected List.length true seconds = .string [.char '7'] ∧
      Rust.responseProtoToJsonBody clock "/s/m".toList [8, 7] "seconds".toList =
        .ok (.string [⟨['0'], .char '0'⟩]) ∧
      Go.responseProtoToJSONBody clock "/s/m".toList [8, 7] "seconds".toList =
        .error "webnext: re-read response json: " ∧
      ¬ Extracted List.length clockJson clock "/s/m".toList [8, 7] "seconds".toList true seconds := by
  have refused : Go.responseProtoToJSONBody clock "/s/m".toList [8, 7] "seconds".toList =
      .error "webnext: re-read response json: " := rfl
  refine ⟨clock_encodes, rfl, rfl, refused, ?_⟩
  rintro ⟨-, t, answered, -⟩
  rw [refused] at answered
  cases answered

end GrpcWebnext.FetchJson
