import GrpcWebnext.FetchStatus
import GrpcWebnext.HttpRule.FieldPath
import GrpcWebnext.Ws.JsonText

/-! The body of a JSON response: the message of the backend rendered by the transcoder of
either server, whole or as the one field `response_body` names. -/
namespace GrpcWebnext.FetchJson
open Framing (Bytes)
open Text (Str)
open Json (Tree memberOf)
open HttpRule (Store fieldByAnyName)

/-- What the transcoders look up and leave to their libraries: the output type of a method
path, the decoders of the wire format in `prost` and in Go's `proto`, the JSON text of a
message in `prost-reflect` and in `protojson`, and what the readers of JSON say of a text
they refuse. -/
structure Library (Msg : Type) where
  store : Store Str Msg
  output : Str → Option Str
  decode : Str → Bytes → Except String Msg
  unmarshal : Str → Bytes → Except String Msg
  serialize : Msg → Except String Tree
  marshal : Msg → Except String Tree
  reread : Str → Option Str
  refusal : Tree → String

section
variable {Msg : Type} (lib : Library Msg) (output : Str) (proto : Bytes)

/-- The JSON text that either server's libraries have for the bytes of a message. -/
def Library.rustText : Option Tree := ((lib.decode output proto).bind lib.serialize).toOption

def Library.goText : Option Tree := ((lib.unmarshal output proto).bind lib.marshal).toOption

end

section
variable {Msg : Type} (lib : Library Msg) (path : Str) (proto : Bytes) (responseBody : Str)

namespace Rust

/-- The JSON of a field that is absent from the encoded message. -/
def jsonZero (field : HttpRule.Field Str) : Tree :=
  match field.shape, field.kind with
  | .list, _ => .array []
  | .map, _ => .object []
  | _, .message _ => .null
  | _, .string => .string []
  | _, .bytes => .string []
  | _, .bool => .bool false
  | _, .int64 => .string (Json.write JsonText.Rust.written ['0'])
  | _, .uint64 => .string (Json.write JsonText.Rust.written ['0'])
  | _, .enum values => match values.find? fun value => value.2 = 0 with
    | some value => .string (Json.write JsonText.Rust.written value.1)
    | none => .number ['0']
  | _, _ => .number ['0']

def protoToJson (output : Str) : Except String Tree :=
  match lib.decode output proto with
  | .ok msg => lib.serialize msg
  | .error e => .error ("protobuf decode error: " ++ e)

/-- `obj.get`, which finds nothing in a value that is no object. -/
def get (name : Str) : Tree → Option Tree
  | .object fields => memberOf name fields
  | _ => none

def responseProtoToJsonBody : Except String Tree :=
  match lib.output path with
  | none => .error ("unknown method: " ++ String.ofList path)
  | some output =>
      if responseBody = [] then protoToJson lib proto output
      else match fieldByAnyName lib.store output responseBody with
        | none => .error ("http transcoding: unknown response_body field: " ++
            String.ofList responseBody)
        | some field => match protoToJson lib proto output with
          | .error e => .error e
          | .ok whole => match JsonText.Rust.readValue lib.reread whole with
            | none => .error ("json error: " ++ lib.refusal whole)
            | some obj => .ok ((get field.jsonName obj).getD (jsonZero field))

end Rust

namespace Go

/-- The bytes of a text as they are, in quotes. -/
def quoted (text : Str) : Tree := .string (text.map fun c => ⟨[c], .char c⟩)

def jsonZero (field : HttpRule.Field Str) : Tree :=
  match field.shape, field.kind with
  | .list, _ => .array []
  | .map, _ => .object []
  | _, .message _ => .null
  | _, .string => .string []
  | _, .bytes => .string []
  | _, .bool => .bool false
  | _, .int64 => quoted ['0']
  | _, .uint64 => quoted ['0']
  | _, .enum values => match values.find? fun value => value.2 = 0 with
    | some value => quoted value.1
    | none => .number ['0']
  | _, _ => .number ['0']

/-- `json.Unmarshal` into a map of raw messages: an object or `null`, of 10000 levels at
most. -/
def rawMembers : Tree → Option (List (Json.Literal × Tree))
  | .object fields => if (Tree.object fields).depth ≤ 10000 then some fields else none
  | .null => some []
  | _ => none

def responseProtoToJSONBody : Except String Tree :=
  match lib.output path with
  | none => .error ("webnext: unknown method " ++ String.ofList path)
  | some output => match lib.unmarshal output proto with
    | .error e => .error ("webnext: decode proto response: " ++ e)
    | .ok msg => match lib.marshal msg with
      | .error e => .error e
      | .ok whole =>
          if responseBody = [] then .ok whole
          else match fieldByAnyName lib.store output responseBody with
            | none => .error ("webnext: unknown response_body field: " ++
                String.ofList responseBody)
            | some field => match rawMembers whole with
              | none => .error ("webnext: re-read response json: " ++ lib.refusal whole)
              | some members => .ok ((memberOf field.jsonName members).getD (jsonZero field))

end Go

/-- The response of the Rust server, in the compact text of `serde_json`. -/
def Rust.response (call : Call) : JsonResponse :=
  Rust.jsonUpstream (fun message =>
    (Rust.responseProtoToJsonBody lib path message responseBody).map fun t => Utf8.encode t.spell) call

/-- The response of the Go server, with the whitespace that `protojson` puts in. -/
def Go.response (text : Tree → Bytes) (call : Call) : JsonResponse :=
  Go.jsonUpstream (fun message =>
    (Go.responseProtoToJSONBody lib path message responseBody).map text) call

/-- The response is the rendered message, in a form that `JSON.parse` accepts, or says why
there is none. -/
def Carries (readJson : Bytes → Option Tree) (text : Tree → Bytes) (rendered : Except String Tree)
    (r : JsonResponse) : Prop :=
  match rendered with
  | .ok t => r.statusCode = 0 ∧ r.body = text t ∧ readJson r.body = some t
  | .error e => r = jsonStatus Code.internal ("bad json response: " ++ e)

end

section
variable {N : Type} (num : Str → N)

/-- The value of a text, its numerals read as numbers. -/
def valueOf (t : Tree) : Json.Value N := t.value fun s => .number (num s)

/-- The two responses have one status, and their bodies one value. -/
def Alike (readJson : Bytes → Option Tree) (r s : JsonResponse) : Prop :=
  r.statusCode = s.statusCode ∧ (r.statusCode = 0 → ∃ t u, readJson r.body = some t ∧
    readJson s.body = some u ∧ valueOf num t = valueOf num u)

variable {Msg : Type} (lib : Library Msg) (path : Str) (proto : Bytes) (responseBody : Str)

/-- The contract of the codecs: bytes that both decode are one message, a text that both
write of it has one protobuf-JSON value, with distinct names, and can be read again. What
either refuses is its own affair. -/
structure Library.Lawful : Prop where
  decoded : ∀ output proto msg other, lib.decode output proto = .ok msg →
    lib.unmarshal output proto = .ok other → msg = other
  encoded : ∀ msg whole raw, lib.serialize msg = .ok whole → lib.marshal msg = .ok raw →
    valueOf num whole = valueOf num raw
  distinct : ∀ msg t, lib.serialize msg = .ok t → t.Distinct
  numerals : ∀ msg t, lib.serialize msg = .ok t → ∀ s ∈ t.numerals, (lib.reread s).isSome = true
  literals : ∀ msg t, lib.serialize msg = .ok t → ∀ l ∈ t.literals, l.text.isSome = true

/-- When both lift the same member out of the texts of one message: both refuse, for want of
a text or to read it again, or both find an object or `null`, the numerals of the member
surviving. -/
def LiftedAlike (name : Str) (whole raw : Option Tree) : Prop :=
  ((∀ t, whole = some t → 127 < t.depth) ∧ raw.bind Go.rawMembers = none) ∨
    ∃ t, whole = some t ∧ t.depth ≤ 127 ∧ (raw.bind Go.rawMembers).isSome = true ∧
      ∀ value, Rust.get name t = some value → ∀ s ∈ value.numerals, num ((lib.reread s).getD s) = num s

/-- Both servers have a text for the message or neither; where `response_body` names a field,
it is lifted alike out of the two texts. -/
structure RenderedAlike : Prop where
  whole : ∀ output, lib.output path = some output → responseBody = [] →
    ((lib.rustText output proto).isSome = true ↔ (lib.goText output proto).isSome = true)
  member : ∀ output field, lib.output path = some output → responseBody ≠ [] →
    fieldByAnyName lib.store output responseBody = some field →
    LiftedAlike num lib field.jsonName (lib.rustText output proto) (lib.goText output proto)

variable {num lib}

theorem jsonZero_value (field : HttpRule.Field Str) :
    valueOf num (Rust.jsonZero field) = valueOf num (Go.jsonZero field) := by
  have text : ∀ s : Str, valueOf num (.string (Json.write JsonText.Rust.written s)) =
      valueOf num (Go.quoted s) := by
    intro s
    rw [valueOf, valueOf, Go.quoted, Tree.value, Tree.value, Json.write_units]
    simp [Json.Literal.units]
  unfold Rust.jsonZero Go.jsonZero
  cases field.shape with
  | list | map => rfl
  | singular =>
      cases field.kind with
      | string | bool | int32 | uint32 | float | double | bytes | message inner => rfl
      | int64 | uint64 => exact text ['0']
      | enum values =>
          cases found : values.find? fun value => value.2 = 0 with
          | none => simp only [found]
          | some value =>
              simp only [found]
              exact text value.1

/-- A member of an object is found in every text of the object's value. -/
theorem memberOf_value {f g : Str → Json.Value N} {fields others : List (Json.Literal × Tree)}
    (same : Json.valueFields f fields = Json.valueFields g others) (name : Str) :
    (memberOf name fields).map (Tree.value f) = (memberOf name others).map (Tree.value g) := by
  rw [← Json.valueFields_name, ← Json.valueFields_name, same]

theorem getD_value (f : Str → Json.Value N) (found : Option Tree) (zero : Tree) :
    (found.getD zero).value f = (found.map (Tree.value f)).getD (zero.value f) := by
  cases found <;> rfl

/-- The two members have one value if and only if the numerals survive being read. -/
theorem member_alike_iff {whole raw obj : Tree} {members : List (Json.Literal × Tree)}
    (field : HttpRule.Field Str)
    (same : valueOf num whole = valueOf num raw) (distinct : whole.Distinct)
    (read : whole.rewrite lib.reread JsonText.Rust.written = some obj)
    (unpacked : Go.rawMembers raw = some members) :
    valueOf num ((Rust.get field.jsonName obj).getD (Rust.jsonZero field)) =
        valueOf num ((memberOf field.jsonName members).getD (Go.jsonZero field)) ↔
      ∀ value, Rust.get field.jsonName whole = some value → ∀ s ∈ value.numerals,
        num ((lib.reread s).getD s) = num s := by
  have zero : valueOf num (Rust.jsonZero field) = valueOf num (Go.jsonZero field) := jsonZero_value field
  cases raw with
  | bool b | number s | string l | array items => cases unpacked
  | null =>
      cases unpacked
      cases whole with
      | null =>
          cases read
          constructor
          · intro _ value found
            cases found
          · intro _
            exact zero
      | bool b | number s | string l | array items | object fields =>
          simp [valueOf, Tree.value] at same
  | object others =>
      obtain ⟨_, unpacked⟩ := Option.ite_none_right_eq_some.mp unpacked
      cases unpacked
      cases whole with
      | null | bool b | number s | string l | array items => simp [valueOf, Tree.value] at same
      | object fields =>
          obtain ⟨entries, done, rfl⟩ := Option.map_eq_some_iff.mp read
          have inGo := memberOf_value (Json.Value.object.inj same) field.jsonName
          have inRust := memberOf_value ((Json.valueFields_ofList (f := fun s => Json.Value.number (num s))
            entries).trans (Json.valueFields_rewrite fields done)) field.jsonName
          rw [Rust.get, Rust.get, valueOf, valueOf, getD_value, getD_value, ← inGo]
          rw [← Json.toFields, inRust]
          cases found : memberOf field.jsonName fields with
          | none =>
              constructor
              · intro _ value found
                cases found
              · intro _
                exact zero
          | some value =>
              obtain ⟨key, member⟩ := Json.memberOf_mem found
              have kept := Json.value_eq_iff (f := fun s => Json.Value.number (num ((lib.reread s).getD s)))
                (g := fun s => .number (num s)) value (distinct.2.mem member)
              simp only [Option.map_some, Option.getD_some, Option.some.injEq, forall_eq',
                Json.Value.number.injEq] at kept ⊢
              exact kept

/-- Two renderings of one value, or two refusals. -/
def Matched (num : Str → N) : Except String Tree → Except String Tree → Prop
  | .ok t, .ok u => valueOf num t = valueOf num u
  | .error _, .error _ => True
  | _, _ => False

theorem rustText_eq_some {output : Str} {whole : Tree} :
    lib.rustText output proto = some whole ↔
      ∃ msg, lib.decode output proto = .ok msg ∧ lib.serialize msg = .ok whole := by
  unfold Library.rustText
  cases decoded : lib.decode output proto with
  | error e => simp [Except.bind, Except.toOption]
  | ok msg => cases written : lib.serialize msg <;> simp [Except.bind, Except.toOption, written]

theorem goText_eq_some {output : Str} {raw : Tree} :
    lib.goText output proto = some raw ↔
      ∃ msg, lib.unmarshal output proto = .ok msg ∧ lib.marshal msg = .ok raw := by
  unfold Library.goText
  cases decoded : lib.unmarshal output proto with
  | error e => simp [Except.bind, Except.toOption]
  | ok msg => cases written : lib.marshal msg <;> simp [Except.bind, Except.toOption, written]

/-- Two texts of the same bytes have one value. -/
theorem Library.Lawful.same_texts (lawful : lib.Lawful num) {output : Str} {whole raw : Tree}
    (rust : lib.rustText output proto = some whole) (go : lib.goText output proto = some raw) :
    valueOf num whole = valueOf num raw := by
  obtain ⟨msg, decoded, serialized⟩ := (rustText_eq_some proto).mp rust
  obtain ⟨other, unmarshalled, marshalled⟩ := (goText_eq_some proto).mp go
  obtain rfl := lawful.decoded output proto msg other decoded unmarshalled
  exact lawful.encoded msg whole raw serialized marshalled

variable (lib) in
/-- The whole message in Rust: its text, or an error. -/
theorem protoToJson_cases (output : Str) :
    (∃ whole, lib.rustText output proto = some whole ∧ Rust.protoToJson lib proto output = .ok whole) ∨
      (lib.rustText output proto = none ∧ ∃ e, Rust.protoToJson lib proto output = .error e) := by
  unfold Library.rustText Rust.protoToJson
  cases lib.decode output proto with
  | error e => exact .inr ⟨rfl, _, rfl⟩
  | ok msg =>
      dsimp only [Except.bind]
      cases written : lib.serialize msg with
      | error e => exact .inr ⟨rfl, e, rfl⟩
      | ok whole => exact .inl ⟨whole, rfl, rfl⟩

/-- What Rust answers about a field: the value of its key, if the text can be read again. -/
theorem rust_member (lawful : lib.Lawful num) {output : Str} {field : HttpRule.Field Str}
    (known : lib.output path = some output) (named : responseBody ≠ [])
    (found : fieldByAnyName lib.store output responseBody = some field) :
    (∃ whole obj, lib.rustText output proto = some whole ∧ whole.depth ≤ 127 ∧
      whole.rewrite lib.reread JsonText.Rust.written = some obj ∧
      Rust.responseProtoToJsonBody lib path proto responseBody =
        .ok ((Rust.get field.jsonName obj).getD (Rust.jsonZero field))) ∨
    ((∀ t, lib.rustText output proto = some t → 127 < t.depth) ∧
      ∃ e, Rust.responseProtoToJsonBody lib path proto responseBody = .error e) := by
  simp only [Rust.responseProtoToJsonBody, known, named, found, if_false]
  rcases protoToJson_cases lib proto output with ⟨whole, text, done⟩ | ⟨text, e, failed⟩
  · rw [done, text]
    dsimp only
    by_cases level : whole.depth ≤ 127
    · obtain ⟨msg, _, serialized⟩ := (rustText_eq_some proto).mp text
      obtain ⟨obj, rewritten⟩ := Option.isSome_iff_exists.mp (Json.rewrite_isSome whole |>.mpr
        ⟨lawful.numerals msg whole serialized, lawful.literals msg whole serialized⟩)
      have read : JsonText.Rust.readValue lib.reread whole = some obj := (if_pos level).trans rewritten
      refine .inl ⟨whole, obj, rfl, level, rewritten, ?_⟩
      rw [read]
    · have refused : JsonText.Rust.readValue lib.reread whole = none := if_neg level
      refine .inr ⟨fun t same => ?_, "json error: " ++ lib.refusal whole, ?_⟩
      · obtain rfl := Option.some.inj same
        exact Nat.not_le.mp level
      · rw [refused]
  · rw [failed, text]
    refine .inr ⟨fun t absent => ?_, e, rfl⟩
    exact absurd absent (Option.some_ne_none t).symm

/-- What Go answers about it: the member, if the text is an object. -/
theorem go_member {output : Str} {field : HttpRule.Field Str}
    (known : lib.output path = some output) (named : responseBody ≠ [])
    (found : fieldByAnyName lib.store output responseBody = some field) :
    (∃ raw members, lib.goText output proto = some raw ∧ Go.rawMembers raw = some members ∧
      Go.responseProtoToJSONBody lib path proto responseBody =
        .ok ((memberOf field.jsonName members).getD (Go.jsonZero field))) ∨
    ((lib.goText output proto).bind Go.rawMembers = none ∧
      ∃ e, Go.responseProtoToJSONBody lib path proto responseBody = .error e) := by
  simp only [Go.responseProtoToJSONBody, Library.goText, known, named, found, if_false]
  cases lib.unmarshal output proto with
  | error e => exact .inr ⟨rfl, _, rfl⟩
  | ok msg =>
      dsimp only [Except.bind]
      cases lib.marshal msg with
      | error e => exact .inr ⟨rfl, e, rfl⟩
      | ok raw =>
          dsimp only [Except.toOption, Option.bind_some]
          cases unpacked : Go.rawMembers raw with
          | none => exact .inr ⟨rfl, _, rfl⟩
          | some members => exact .inl ⟨raw, members, rfl, unpacked, rfl⟩

theorem member_matched_iff (lawful : lib.Lawful num) {output : Str} {field : HttpRule.Field Str}
    (known : lib.output path = some output) (named : responseBody ≠ [])
    (found : fieldByAnyName lib.store output responseBody = some field) :
    Matched num (Rust.responseProtoToJsonBody lib path proto responseBody)
        (Go.responseProtoToJSONBody lib path proto responseBody) ↔
      LiftedAlike num lib field.jsonName (lib.rustText output proto) (lib.goText output proto) := by
  unfold LiftedAlike
  rcases rust_member path proto responseBody lawful known named found with
    ⟨whole, obj, text, level, rewritten, rust⟩ | ⟨deep, e, rust⟩
  · rcases go_member path proto responseBody known named found with
      ⟨raw, members, rawText, unpacked, go⟩ | ⟨none, f, go⟩
    · obtain ⟨msg, _, serialized⟩ := (rustText_eq_some proto).mp text
      have kept := member_alike_iff field (lawful.same_texts proto text rawText)
        (lawful.distinct msg whole serialized) rewritten unpacked
      simp [rust, go, text, rawText, unpacked, Matched, kept, level, Nat.not_lt.mpr level]
    · simp [rust, go, text, none, Matched, Nat.not_lt.mpr level]
  · have unread : ¬ ∃ t, lib.rustText output proto = some t ∧ t.depth ≤ 127 ∧
        ((lib.goText output proto).bind Go.rawMembers).isSome = true ∧
        ∀ value, Rust.get field.jsonName t = some value → ∀ s ∈ value.numerals,
          num ((lib.reread s).getD s) = num s := by
      rintro ⟨t, text, level, _⟩
      exact absurd level (Nat.not_le.mpr (deep t text))
    rcases go_member path proto responseBody known named found with
      ⟨raw, members, rawText, unpacked, go⟩ | ⟨none, f, go⟩
    · refine iff_of_false (by simp [rust, go, Matched]) ?_
      rintro (⟨_, none⟩ | lifted)
      · simp [rawText, unpacked] at none
      · exact unread lifted
    · exact iff_of_true (by simp [rust, go, Matched]) (.inl ⟨deep, none⟩)

/-- Of the whole message, there are two texts or none. -/
theorem whole_matched_iff (lawful : lib.Lawful num) {output : Str} (known : lib.output path = some output) :
    Matched num (Rust.responseProtoToJsonBody lib path proto [])
      (Go.responseProtoToJSONBody lib path proto []) ↔
      ((lib.rustText output proto).isSome = true ↔ (lib.goText output proto).isSome = true) := by
  have go : (∃ raw, lib.goText output proto = some raw ∧
        Go.responseProtoToJSONBody lib path proto [] = .ok raw) ∨
      (lib.goText output proto = none ∧ ∃ e, Go.responseProtoToJSONBody lib path proto [] = .error e) := by
    simp only [Go.responseProtoToJSONBody, Library.goText, known, if_true]
    cases lib.unmarshal output proto with
    | error e => exact .inr ⟨rfl, _, rfl⟩
    | ok msg =>
        dsimp only [Except.bind]
        cases lib.marshal msg with
        | error e => exact .inr ⟨rfl, e, rfl⟩
        | ok raw => exact .inl ⟨raw, rfl, rfl⟩
  have rust : Rust.responseProtoToJsonBody lib path proto [] = Rust.protoToJson lib proto output := by
    simp only [Rust.responseProtoToJsonBody, known, if_true]
  rw [rust]
  rcases protoToJson_cases lib proto output with ⟨whole, text, done⟩ | ⟨text, e, failed⟩
  · rcases go with ⟨raw, rawText, went⟩ | ⟨none, f, went⟩
    · simp [done, went, text, rawText, Matched, lawful.same_texts proto text rawText]
    · simp [done, went, text, none, Matched]
  · rcases go with ⟨raw, rawText, went⟩ | ⟨none, f, went⟩
    · simp [failed, went, text, rawText, Matched]
    · simp [failed, went, text, none, Matched]

/-- The two transcoders render a message alike exactly when both have a text for it or
neither, and the field is lifted alike. -/
theorem rendered_matched_iff (lawful : lib.Lawful num) :
    Matched num (Rust.responseProtoToJsonBody lib path proto responseBody)
        (Go.responseProtoToJSONBody lib path proto responseBody) ↔
      RenderedAlike num lib path proto responseBody := by
  cases known : lib.output path with
  | none =>
      refine iff_of_true ?_ ⟨fun output found => ?_, fun output field found => ?_⟩
      · simp [Rust.responseProtoToJsonBody, Go.responseProtoToJSONBody, known, Matched]
      · rw [known] at found
        cases found
      · rw [known] at found
        cases found
  | some output =>
      by_cases unnamed : responseBody = []
      · subst unnamed
        rw [whole_matched_iff path proto lawful known]
        constructor
        · intro both
          refine ⟨fun other found _ => ?_, fun _ _ _ named => absurd rfl named⟩
          cases known.symm.trans found
          exact both
        · exact fun alike => alike.whole output known rfl
      · cases found : fieldByAnyName lib.store output responseBody with
        | none =>
            refine iff_of_true ?_ ⟨fun _ _ empty => absurd empty unnamed, fun other field same _ field' => ?_⟩
            · simp only [Rust.responseProtoToJsonBody, Go.responseProtoToJSONBody, known, unnamed,
                found, if_false]
              cases lib.unmarshal output proto with
              | error e => trivial
              | ok msg =>
                  dsimp only
                  cases lib.marshal msg <;> trivial
            · cases known.symm.trans same
              rw [found] at field'
              cases field'
        | some field =>
            rw [member_matched_iff path proto responseBody lawful known unnamed found]
            constructor
            · intro lifted
              refine ⟨fun _ _ empty => absurd empty unnamed, fun other field' same _ named => ?_⟩
              cases known.symm.trans same
              cases found.symm.trans named
              exact lifted
            · exact fun alike => alike.member output field known unnamed found

end

section
variable {Msg : Type} {N : Type} {num : Str → N} {lib : Library Msg} {path : Str} {responseBody : Str}
  {readJson : Bytes → Option Tree} {text : Tree → Bytes}

theorem Reply.parsed (reply : Reply) : reply.response.messages = reply.messages.map Prod.snd := by
  rw [Response.messages, reply.framed, Framing.parse_frames reply.sized]

/-- The response to an OK reply of one message, its rendering at hand. -/
def delivered (reply : Reply) (details : Bytes) (text : Tree → Bytes) : Except String Tree → JsonResponse
  | .ok t => ⟨0, details, text t, reply.response.headers, reply.response.trailers⟩
  | .error e => jsonStatus Code.internal ("bad json response: " ++ e)

/-- The Rust server renders a message if its encoding has any bytes. -/
theorem messages_of_one {reply : Reply} {flag : UInt8} {message : Bytes}
    (one : reply.messages = [(flag, message)]) : reply.response.messages = [message] := by
  rw [Reply.parsed, one]
  rfl

theorem rust_response {reply : Reply} (ok : reply.code = 0) {flag : UInt8} {message : Bytes}
    (one : reply.messages = [(flag, message)]) :
    Rust.response lib path responseBody (.answered reply.response) =
      let details := (Rust.readStatus reply.response.trailers reply.response.headers).2
      if message = [] then ⟨0, details, [], reply.response.headers, reply.response.trailers⟩
      else delivered reply details (fun t => Utf8.encode t.spell)
        (Rust.responseProtoToJsonBody lib path message responseBody) := by
  have status : (Rust.readStatus reply.response.trailers reply.response.headers).1 = 0 := by
    rw [Rust.readStatus, reply.rust_statusCode, ok]
    rfl
  have rendered : Rust.renderJson (fun message =>
      (Rust.responseProtoToJsonBody lib path message responseBody).map fun t => Utf8.encode t.spell)
      reply.response =
        if message = [] then ⟨0, (Rust.readStatus reply.response.trailers reply.response.headers).2, [],
          reply.response.headers, reply.response.trailers⟩
        else delivered reply (Rust.readStatus reply.response.trailers reply.response.headers).2
          (fun t => Utf8.encode t.spell)
          (Rust.responseProtoToJsonBody lib path message responseBody) := by
    unfold Rust.renderJson
    simp only [messages_of_one one, status, List.head?_cons, Option.getD_some, ne_eq, true_and, ite_not]
    split
    · rfl
    · cases Rust.responseProtoToJsonBody lib path message responseBody <;> rfl
  unfold Rust.response Rust.jsonUpstream
  rcases Ending.whole_iff.mp reply.whole with ending | ⟨block, ending⟩
  · simp only [ending]
    exact rendered
  · simp only [ending]
    exact rendered

theorem go_response {reply : Reply} (ok : reply.code = 0) {flag : UInt8} {message : Bytes}
    (one : reply.messages = [(flag, message)]) :
    Go.response lib path responseBody text (.answered reply.response) =
      delivered reply (Go.readStatus reply.response.trailers reply.response.headers).2 text
        (Go.responseProtoToJSONBody lib path message responseBody) := by
  have status : (Go.readStatus reply.response.trailers reply.response.headers).1 = 0 := by
    rw [Go.readStatus, reply.go_statusCode, ok]
    rfl
  have rendered : Go.renderJson (fun message =>
      (Go.responseProtoToJSONBody lib path message responseBody).map text) reply.response =
      delivered reply (Go.readStatus reply.response.trailers reply.response.headers).2 text
        (Go.responseProtoToJSONBody lib path message responseBody) := by
    unfold Go.renderJson
    simp only [messages_of_one one, status, if_true]
    cases Go.responseProtoToJSONBody lib path message responseBody <;> rfl
  unfold Go.response Go.jsonUpstream
  rcases Ending.whole_iff.mp reply.whole with ending | ⟨block, ending⟩
  · simp only [ending]
    exact rendered
  · simp only [ending]
    exact rendered

theorem delivered_carries {reply : Reply} {details : Bytes} {rendered : Except String Tree}
    (read : ∀ t, rendered = .ok t → readJson (text t) = some t) :
    Carries readJson text rendered (delivered reply details text rendered) := by
  cases rendered with
  | ok t => exact ⟨rfl, rfl, read t rfl⟩
  | error e => rfl

/-- Two responses that deliver their renderings are alike if and only if the renderings are. -/
theorem delivered_alike_iff {reply : Reply} {rust go : Bytes} {written : Tree → Bytes}
    {r s : Except String Tree} (readRust : ∀ t, r = .ok t → readJson (written t) = some t)
    (readGo : ∀ t, s = .ok t → readJson (text t) = some t) :
    Alike num readJson (delivered reply rust written r) (delivered reply go text s) ↔
      Matched num r s := by
  cases r with
  | ok t =>
      cases s with
      | ok u => simp [Alike, delivered, Matched, readRust, readGo]
      | error e => simp [Alike, delivered, Matched, jsonStatus, Code.internal]
  | error e =>
      cases s with
      | ok u => simp [Alike, delivered, Matched, jsonStatus, Code.internal]
      | error f => simp [Alike, delivered, Matched, jsonStatus, Code.internal]

/-- Both servers carry the JSON of a successful one-message reply, and the same, exactly
when the message has an encoding of at least a byte, the libraries of both have a text for
it or those of neither, and the field that `response_body` names is lifted alike out of the
two texts. -/
theorem json_body_carried_iff (lawful : lib.Lawful num) (reply : Reply) (ok : reply.code = 0)
    {flag : UInt8} {message : Bytes} (one : reply.messages = [(flag, message)])
    (nothing : readJson [] = none)
    (readRust : ∀ t, Rust.responseProtoToJsonBody lib path message responseBody = .ok t →
      readJson (Utf8.encode t.spell) = some t)
    (readGo : ∀ t, Go.responseProtoToJSONBody lib path message responseBody = .ok t →
      readJson (text t) = some t) :
    (Carries readJson (fun t => Utf8.encode t.spell)
          (Rust.responseProtoToJsonBody lib path message responseBody)
          (Rust.response lib path responseBody (.answered reply.response)) ∧
        Carries readJson text (Go.responseProtoToJSONBody lib path message responseBody)
          (Go.response lib path responseBody text (.answered reply.response)) ∧
        Alike num readJson (Rust.response lib path responseBody (.answered reply.response))
          (Go.response lib path responseBody text (.answered reply.response))) ↔
      message ≠ [] ∧ RenderedAlike num lib path message responseBody := by
  rw [rust_response ok one, go_response ok one]
  by_cases empty : message = []
  · have silent : ∀ details, ¬ Carries readJson (fun t => Utf8.encode t.spell)
        (Rust.responseProtoToJsonBody lib path message responseBody)
        ⟨0, details, [], reply.response.headers, reply.response.trailers⟩ := by
      intro details carries
      cases rendered : Rust.responseProtoToJsonBody lib path message responseBody with
      | ok t =>
          rw [rendered] at carries
          obtain ⟨_, _, read⟩ := carries
          rw [nothing] at read
          cases read
      | error e =>
          rw [rendered] at carries
          have code := congrArg JsonResponse.statusCode carries
          simp [jsonStatus, Code.internal] at code
    simp only [empty, if_true] at silent ⊢
    constructor
    · rintro ⟨carries, _⟩
      exact absurd carries (silent _)
    · rintro ⟨some, _⟩
      exact absurd rfl some
  · simp only [empty, if_false]
    rw [delivered_alike_iff readRust readGo, rendered_matched_iff path message responseBody lawful]
    constructor
    · rintro ⟨_, _, alike⟩
      exact ⟨empty, alike⟩
    · rintro ⟨_, alike⟩
      exact ⟨delivered_carries readRust, delivered_carries readGo, alike⟩

end

/-- A message type with one field, a bool. -/
def on : HttpRule.Field Str := ⟨1, "on".toList, "on".toList, .bool, .singular, []⟩

def switch : Library Bool where
  store :=
    { fields := fun _ => [on], new := fun _ => false, descriptor := fun _ => "Switch".toList
      get := fun msg _ => .bool msg
      set := fun _ _ value => match value with
        | .bool b => b
        | _ => false
      readOnly := fun _ _ => false
      deserialize := fun _ _ => .error "no body", quote := id, parseF32 := fun _ => none
      parseF64 := fun _ => none, encode := fun msg => .ok (if msg then [8, 1] else []) }
  output := fun _ => some "Switch".toList
  decode := fun _ proto => if proto = [] then .ok false else if proto = [8, 1] then .ok true
    else .error "not a switch"
  unmarshal := fun _ proto => if proto = [] then .ok false else if proto = [8, 1] then .ok true
    else .error "no switch"
  serialize := fun msg =>
    .ok (.object (if msg then [(Json.write JsonText.Rust.written "on".toList, .bool true)] else []))
  marshal := fun msg => .ok (.object (if msg then [(Json.write JsonText.Go.written "on".toList, .bool true)]
    else []))
  reread := some
  refusal := fun _ => ""

theorem switch_lawful : switch.Lawful List.length where
  decoded output proto msg other read unmarshalled := by
    simp only [switch] at read unmarshalled
    split at read
    · rename_i empty
      rw [if_pos empty] at unmarshalled
      exact Except.ok.inj (read.symm.trans unmarshalled)
    · rename_i some
      rw [if_neg some] at unmarshalled
      split at read
      · rename_i set
        rw [if_pos set] at unmarshalled
        exact Except.ok.inj (read.symm.trans unmarshalled)
      · cases read
  encoded msg whole raw serialized marshalled := by
    cases serialized
    cases marshalled
    cases msg with
    | false => rfl
    | true => simp [valueOf, Tree.value, Json.valueFields]
  distinct msg t found := by
    cases found
    cases msg with
    | false => exact ⟨List.nodup_nil, trivial⟩
    | true => exact ⟨List.pairwise_singleton _ _, trivial, trivial⟩
  numerals msg t found s member := by
    cases found
    cases msg with
    | false => cases member
    | true => cases member
  literals msg t found l member := by
    cases found
    cases msg with
    | false => cases member
    | true =>
        cases List.mem_singleton.mp member
        rw [Json.write_text]
        rfl

/-- The texts of a switch and of its field. -/
def readSwitch (bytes : Bytes) : Option Tree :=
  if bytes = utf8 "true" then some (.bool true)
  else if bytes = utf8 "\x7b\x7d" then some (.object [])
  else none

/-- An OK reply of one message. -/
def oneMessage (message : Bytes) (short : message.length < 2 ^ 32) : Reply where
  response := ⟨[], [Framing.frame 0 message], .trailers [("grpc-status".toList, utf8 "0")]⟩
  messages := [(0, message)]
  framed := by simp [Response.body]
  sized m member := by
    cases List.mem_singleton.mp member
    exact short
  whole := rfl
  code := 0
  coded := by decide
  value := utf8 "0"
  received := by
    left
    rfl
  denotes := by decide

/-- A switch that is on, asked for its field. -/
theorem switch_on_carried :
    Carries readSwitch (fun t => Utf8.encode t.spell)
        (Rust.responseProtoToJsonBody switch "/s/m".toList [8, 1] "on".toList)
        (Rust.response switch "/s/m".toList "on".toList
          (.answered (oneMessage [8, 1] (by decide)).response)) ∧
      Carries readSwitch (fun t => Utf8.encode t.spell)
        (Go.responseProtoToJSONBody switch "/s/m".toList [8, 1] "on".toList)
        (Go.response switch "/s/m".toList "on".toList (fun t => Utf8.encode t.spell)
          (.answered (oneMessage [8, 1] (by decide)).response)) ∧
      Alike List.length readSwitch
        (Rust.response switch "/s/m".toList "on".toList
          (.answered (oneMessage [8, 1] (by decide)).response))
        (Go.response switch "/s/m".toList "on".toList (fun t => Utf8.encode t.spell)
          (.answered (oneMessage [8, 1] (by decide)).response)) := by
  have member : ∀ t, Rust.responseProtoToJsonBody switch "/s/m".toList [8, 1] "on".toList = .ok t →
      t = .bool true := by
    rintro t found
    cases found
    rfl
  have raw : ∀ t, Go.responseProtoToJSONBody switch "/s/m".toList [8, 1] "on".toList = .ok t →
      t = .bool true := by
    rintro t found
    cases found
    rfl
  apply (json_body_carried_iff switch_lawful (oneMessage [8, 1] (by decide)) rfl rfl (by decide) ?_ ?_).mpr
  · refine ⟨by decide, fun _ _ empty => absurd empty (by decide), ?_⟩
    rintro output field known _ named
    cases known
    cases named
    refine .inr ⟨_, rfl, by decide, rfl, ?_⟩
    rintro value found s inside
    cases found
    cases inside
  · intro t found
    rw [member t found]
    rfl
  · intro t found
    rw [raw t found]
    rfl

/-- A switch that is off has no bytes: Rust answers OK with an empty body, which is no JSON
text, where the transcoder and the Go server have an empty object. -/
theorem switch_off_loses_its_json :
    Rust.responseProtoToJsonBody switch "/s/m".toList [] [] = .ok (.object []) ∧
    (Rust.response switch "/s/m".toList [] (.answered (oneMessage [] (by decide)).response)).body = [] ∧
    (Go.response switch "/s/m".toList [] (fun t => Utf8.encode t.spell)
      (.answered (oneMessage [] (by decide)).response)).body = utf8 "\x7b\x7d" ∧
    readSwitch [] = none ∧
    ¬ Carries readSwitch (fun t => Utf8.encode t.spell)
      (Rust.responseProtoToJsonBody switch "/s/m".toList [] [])
      (Rust.response switch "/s/m".toList [] (.answered (oneMessage [] (by decide)).response)) := by
  refine ⟨rfl, by decide, by decide, by decide, ?_⟩
  rintro ⟨_, _, read⟩
  exact absurd (congrArg Option.isSome read) (by decide)

end GrpcWebnext.FetchJson
