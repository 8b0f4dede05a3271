import GrpcWebnext.HttpRule.FieldPath
import GrpcWebnext.Library.JsonSyntax
import GrpcWebnext.Library.ProtoWire

/-! A body that is one field: which texts `set_from_json` takes, and what it leaves in the
message. -/
namespace GrpcWebnext.HttpRule
open Framing (Bytes)
open Text (Str)

section
variable {T Msg : Type} (d : Dialect T) (store : Store T Msg)

namespace InPlace

/-- `set_from_json` on the message it is handed. -/
def setFromJson (field : Field T) (text : T) : EStateM Fault Msg Unit := do
  match store.deserialize (store.descriptor (← get)) (d.bytes (document d store field text)) with
  | .error e => throw (.error ("invalid value for " ++ d.display field.name ++ ": " ++ e))
  | .ok scratch =>
      if store.readOnly scratch field then throw .panic
      modify fun msg => store.set msg field (store.get scratch field)

/-- `set_message_field` on the message it is handed. -/
def setMessageField [DecidableEq T] (name : T) (json : Bytes) : EStateM Fault Msg Unit := do
  match fieldByAnyName store (store.descriptor (← get)) name with
  | none => throw (.error ("unknown body field: " ++ d.display name))
  | some field => match d.bodyText json with
    | none => throw (.error ("body field " ++ d.display name ++ ": not valid UTF-8"))
    | some text => setFromJson d store field text

end InPlace

/-- Text and bytes go together: what is put together is encoded piece by piece. -/
structure Dialect.Spells : Prop where
  append : ∀ a b, d.bytes (d.append a b) = d.bytes a ++ d.bytes b
  word : ∀ s, d.bytes (d.word s) = Utf8.encode s.toList
  bodyText : ∀ text, d.bodyText (d.bytes text) = some text

/-- Of what begins with a brace the decoder takes the JSON objects whose members have a
meaning in protobuf-JSON. The name of a field is quoted as a JSON string. -/
structure Decodes (key : Field T → Str) (decode : T → List (Str × Str) → Option Msg) : Prop where
  accepts : ∀ type rest msg, store.deserialize type (123 :: rest) = .ok msg ↔
    ∃ text members, 123 :: rest = Utf8.encode text ∧
      JsonSyntax.objectMembers text = some members ∧ decode type members = some msg
  quoted : ∀ type, ∀ f ∈ store.fields type,
    d.bytes (store.quote f.jsonName) = Utf8.encode ('"' :: key f ++ ['"'])
  closed : ∀ type, ∀ f ∈ store.fields type,
    JsonSyntax.untilQuote .plain (key f ++ ['"']) = some (key f, [])

/-- Which fields of a message are set, and which fields can be set to their default. -/
structure Presence (T Msg : Type) where
  has : Msg → Field T → Bool
  tracked : Field T → Bool
  populated : Field T → Value T Msg → Bool

/-- A field with presence is set when it is assigned, and another one when it is populated. -/
structure Presence.Lawful (p : Presence T Msg) : Prop where
  oneof_tracked : ∀ msg f, f ∈ store.fields (store.descriptor msg) → f.siblings ≠ [] →
    p.tracked f = true
  has_populated : ∀ msg f, f ∈ store.fields (store.descriptor msg) → p.tracked f = false →
    p.has msg f = p.populated f (store.get msg f)
  has_set : ∀ msg f v, f ∈ store.fields (store.descriptor msg) → Fits store f v →
    p.tracked f = true → p.has (store.set msg f v) f = true
  has_set_other : ∀ msg f g v, f ∈ store.fields (store.descriptor msg) →
    g ∈ store.fields (store.descriptor msg) → f ≠ g → g.number ∉ f.siblings →
    p.has (store.set msg f v) g = p.has msg g
  has_set_sibling : ∀ msg f g v, f ∈ store.fields (store.descriptor msg) →
    g ∈ store.fields (store.descriptor msg) → f ≠ g → g.number ∈ f.siblings →
    p.has (store.set msg f v) g = false

section
variable (key : Field T → Str) (decode : T → List (Str × Str) → Option Msg) (p : Presence T Msg)

/-- The text is one protobuf-JSON value of the field, and the message is what the object
with this member stands for. -/
def FieldValue (type : T) (f : Field T) (text : T) (msg : Msg) : Prop :=
  ∃ value, d.bytes text = Utf8.encode value ∧ JsonSyntax.isText value = true ∧
    decode type [(key f, value)] = some msg

/-- The text holds a value of the field, a comma and more members of the object, and the
message is what they stand for together. -/
def Continued (type : T) (f : Field T) (text : T) (msg : Msg) : Prop :=
  ∃ value others rest, d.bytes text = Utf8.encode (value ++ ',' :: others) ∧
    JsonSyntax.isText value = true ∧ JsonSyntax.Listed others rest ∧
    decode type ((key f, value) :: rest) = some msg

/-- The field has the value and the presence it has in the decoded message, and the other
fields are as before. A oneof holds one member: a field that is set clears its siblings. -/
def SetAs (f : Field T) (decoded before after : Msg) : Prop :=
  store.get after f = store.get decoded f ∧ p.has after f = p.has decoded f ∧
    ∀ g ∈ store.fields (store.descriptor before), f ≠ g →
      if g.number ∈ f.siblings ∧ p.has decoded f = true then p.has after g = false
      else store.get after g = store.get before g ∧ p.has after g = p.has before g

/-- What a body that is one field comes to: a value of the field is taken, anything else is
refused with the message as it was. -/
def OneValue (f : Field T) (text : T) (before : Msg) : EStateM.Result Fault Msg Unit → Prop
  | .ok _ after => ∃ decoded, FieldValue d key decode (store.descriptor before) f text decoded ∧
      SetAs store p f decoded before after
  | .error _ after => (∀ decoded, ¬ FieldValue d key decode (store.descriptor before) f text decoded) ∧
      after = before

end

variable {d store}

/-- In place and as a value: a failure leaves the message alone. -/
theorem setFromJson_inPlace (msg : Msg) (f : Field T) (text : T) :
    (InPlace.setFromJson d store f text).run msg = match setFromJson d store msg f text with
      | .ok after => .ok () after
      | .error fault => .error fault msg := by
  unfold InPlace.setFromJson setFromJson valueFromJson
  simp only [EStateM.run_bind, EStateM.run_get]
  cases store.deserialize (store.descriptor msg) (d.bytes (document d store f text)) with
  | error e => rfl
  | ok scratch =>
      by_cases stuck : store.readOnly scratch f = true
      · simp only [stuck, if_true]
        rfl
      · simp only [stuck]
        rfl

theorem setMessageField_inPlace [DecidableEq T] (msg : Msg) (name : T) (json : Bytes) :
    (InPlace.setMessageField d store name json).run msg =
      match setMessageField d store msg name json with
      | .ok after => .ok () after
      | .error fault => .error fault msg := by
  unfold InPlace.setMessageField setMessageField
  simp only [EStateM.run_bind, EStateM.run_get]
  cases fieldByAnyName store (store.descriptor msg) name with
  | none => rfl
  | some field =>
      cases d.bodyText json with
      | none => rfl
      | some text => exact setFromJson_inPlace msg field text

theorem setMessageField_named [DecidableEq T] (spells : d.Spells) {msg : Msg} {name : T} {f : Field T}
    (named : fieldByAnyName store (store.descriptor msg) name = some f) (text : T) :
    (InPlace.setMessageField d store name (d.bytes text)).run msg =
      (InPlace.setFromJson d store f text).run msg := by
  rw [setMessageField_inPlace, setFromJson_inPlace]
  simp only [setMessageField, named, spells.bodyText]

variable {key : Field T → Str} {decode : T → List (Str × Str) → Option Msg} {p : Presence T Msg}

theorem document_bytes (spells : d.Spells) (decodes : Decodes d store key decode) {type : T}
    {f : Field T} (member : f ∈ store.fields type) (text : T) :
    d.bytes (document d store f text) =
      Utf8.encode ('\x7b' :: '"' :: key f ++ ['"', ':']) ++ (d.bytes text ++ [125]) := by
  have pieces : Utf8.encode ('\x7b' :: '"' :: key f ++ ['"', ':']) =
      Utf8.encode ['\x7b'] ++ Utf8.encode ('"' :: key f ++ ['"']) ++ Utf8.encode [':'] := by
    rw [← Utf8.encode_append, ← Utf8.encode_append]
    simp
  simp only [document, spells.append, spells.word, decodes.quoted type f member, pieces]
  rfl

/-- The document is one object: the text is its value, or it runs on into further members. -/
theorem decoded_iff (spells : d.Spells) (decodes : Decodes d store key decode) {type : T}
    {f : Field T} (member : f ∈ store.fields type) {text : T} {msg : Msg} :
    store.deserialize type (d.bytes (document d store f text)) = .ok msg ↔
      FieldValue d key decode type f text msg ∨ Continued d key decode type f text msg := by
  have object : ∀ {value members}, JsonSyntax.objectMembers
      ('\x7b' :: ('"' :: key f ++ '"' :: ':' :: value) ++ ['\x7d']) = some members ↔
        (JsonSyntax.isText value = true ∧ members = [(key f, value)]) ∨
          ∃ first others rest, value = first ++ ',' :: others ∧ JsonSyntax.isText first = true ∧
            JsonSyntax.Listed others rest ∧ members = (key f, first) :: rest := by
    intro value members
    rw [JsonSyntax.objectMembers_braces (by exact List.cons_ne_nil _ _)]
    exact JsonSyntax.listed_written (decodes.closed type f member)
  rw [document_bytes spells decodes member]
  refine (decodes.accepts type _ msg).trans ?_
  constructor
  · rintro ⟨whole, members, same, read, meant⟩
    have same : Utf8.encode ('\x7b' :: '"' :: key f ++ ['"', ':']) ++ (d.bytes text ++ [125]) =
        Utf8.encode whole := same
    obtain ⟨tail, rfl, ends⟩ := Utf8.encode_append_eq same
    obtain ⟨value, rfl, spelled⟩ := Utf8.encode_concat_ascii (by decide) ends
    have braces : '\x7b' :: '"' :: key f ++ ['"', ':'] ++ (value ++ [Char.ofNat (125 : UInt8).toNat]) =
        '\x7b' :: ('"' :: key f ++ '"' :: ':' :: value) ++ ['\x7d'] := by
      simp
    rw [braces, object] at read
    rcases read with ⟨one, rfl⟩ | ⟨first, others, rest, rfl, one, listed, rfl⟩
    · exact .inl ⟨value, spelled, one, meant⟩
    · exact .inr ⟨first, others, rest, spelled, one, listed, meant⟩
  · have written : ∀ value, d.bytes text = Utf8.encode value →
        Utf8.encode ('\x7b' :: '"' :: key f ++ ['"', ':']) ++ (d.bytes text ++ [125]) =
          Utf8.encode ('\x7b' :: ('"' :: key f ++ '"' :: ':' :: value) ++ ['\x7d']) := by
      intro value spelled
      have brace : [125] = Utf8.encode ['\x7d'] := rfl
      rw [spelled, brace, ← Utf8.encode_append, ← Utf8.encode_append]
      simp
    rintro (⟨value, spelled, one, meant⟩ | ⟨first, others, rest, spelled, one, listed, meant⟩)
    · exact ⟨_, _, written _ spelled, object.mpr (.inl ⟨one, rfl⟩), meant⟩
    · exact ⟨_, _, written _ spelled, object.mpr (.inr ⟨first, others, rest, rfl, one, listed, rfl⟩),
        meant⟩

/-- A text that is one value does not run on. -/
theorem fieldValue_not_continued {type : T} {f : Field T} {text : T} {msg msg' : Msg}
    (value : FieldValue d key decode type f text msg) :
    ¬ Continued d key decode type f text msg' := by
  rintro ⟨first, others, rest, spelled, one, _⟩
  obtain ⟨value, spelled', whole, _⟩ := value
  rw [Utf8.encode_injective (spelled'.symm.trans spelled), JsonSyntax.isText_comma one] at whole
  cases whole

/-- What a field is set to is what was decoded, apart from a field with presence that the
text leaves unset. -/
theorem setAs_iff (lawful : store.Lawful) (presence : p.Lawful store) {msg decoded : Msg}
    {f : Field T} (member : f ∈ store.fields (store.descriptor msg))
    (typed : store.descriptor decoded = store.descriptor msg) :
    SetAs store p f decoded msg (store.set msg f (store.get decoded f)) ↔
      (p.tracked f = true → p.has decoded f = true) := by
  have fits : Fits store f (store.get decoded f) := lawful.get_fits _ _ (typed ▸ member)
  have reads := lawful.get_set _ _ _ member fits
  constructor
  · rintro ⟨_, same, _⟩ tracked
    rw [← same]
    exact presence.has_set _ _ _ member fits tracked
  · intro set
    refine ⟨reads, ?_, ?_⟩
    · cases tracked : p.tracked f with
      | true => rw [presence.has_set _ _ _ member fits tracked, set tracked]
      | false =>
          have kept := lawful.descriptor_set msg f (store.get decoded f)
          rw [presence.has_populated _ _ (kept.symm ▸ member) tracked, reads,
            presence.has_populated _ _ (typed ▸ member) tracked]
    · intro g member' other
      by_cases sibling : g.number ∈ f.siblings
      · have tracked := presence.oneof_tracked _ _ member (List.ne_nil_of_mem sibling)
        rw [if_pos ⟨sibling, set tracked⟩]
        exact presence.has_set_sibling _ _ _ _ member member' other sibling
      · rw [if_neg fun both => sibling both.1]
        exact ⟨lawful.get_set_other _ _ _ _ member member' other sibling,
          presence.has_set_other _ _ _ _ member member' other sibling⟩

theorem oneValue_iff (lawful : store.Lawful) (presence : p.Lawful store) (spells : d.Spells)
    (decodes : Decodes d store key decode) {msg : Msg} {f : Field T}
    (member : f ∈ store.fields (store.descriptor msg)) (text : T) :
    OneValue d store key decode p f text msg ((InPlace.setFromJson d store f text).run msg) ↔
      (∀ decoded, Continued d key decode (store.descriptor msg) f text decoded →
        store.readOnly decoded f = true) ∧
      ∀ decoded, FieldValue d key decode (store.descriptor msg) f text decoded →
        store.readOnly decoded f = false ∧ (p.tracked f = true → p.has decoded f = true) := by
  have reading : ∀ {decoded}, store.deserialize (store.descriptor msg)
      (d.bytes (document d store f text)) = .ok decoded ↔ _ :=
    decoded_iff spells decodes member
  rw [setFromJson_inPlace]
  unfold setFromJson valueFromJson
  cases read : store.deserialize (store.descriptor msg) (d.bytes (document d store f text)) with
  | error e =>
      have neither : ∀ decoded, ¬ FieldValue d key decode (store.descriptor msg) f text decoded ∧
          ¬ Continued d key decode (store.descriptor msg) f text decoded := by
        intro decoded
        rw [← not_or, ← reading, read]
        exact fun same => by cases same
      exact ⟨fun _ => ⟨fun decoded on => absurd on (neither decoded).2,
        fun decoded value => absurd value (neither decoded).1⟩,
        fun _ => ⟨fun decoded => (neither decoded).1, rfl⟩⟩
  | ok scratch =>
      have only : ∀ {decoded}, FieldValue d key decode (store.descriptor msg) f text decoded ∨
          Continued d key decode (store.descriptor msg) f text decoded → decoded = scratch := by
        intro decoded read'
        exact (Except.ok.inj (read.symm.trans (reading.mpr read'))).symm
      have typed := lawful.descriptor_deserialize _ _ _ read
      have exact_ := setAs_iff lawful presence member typed
      rcases reading.mp read with value | on
      · have alone : ∀ decoded, ¬ Continued d key decode (store.descriptor msg) f text decoded :=
          fun _ => fieldValue_not_continued value
        cases stuck : store.readOnly scratch f with
        | true =>
            simp only [stuck, if_true]
            constructor
            · rintro ⟨none, _⟩
              exact absurd value (none scratch)
            · rintro ⟨_, settled⟩
              rw [(settled scratch value).1] at stuck
              cases stuck
        | false =>
            simp only [stuck, Bool.false_eq_true, if_false]
            constructor
            · rintro ⟨decoded, value', set⟩
              obtain rfl := only (.inl value')
              refine ⟨fun other on => absurd on (alone other), fun other value'' => ?_⟩
              obtain rfl := only (.inl value'')
              exact ⟨stuck, exact_.mp set⟩
            · rintro ⟨_, settled⟩
              exact ⟨scratch, value, exact_.mpr (settled scratch value).2⟩
      · have noValue : ∀ decoded, ¬ FieldValue d key decode (store.descriptor msg) f text decoded :=
          fun _ value => fieldValue_not_continued value on
        cases stuck : store.readOnly scratch f with
        | true =>
            simp only [stuck, if_true]
            refine iff_of_true ⟨noValue, rfl⟩ ⟨fun decoded on' => ?_, fun decoded value =>
              absurd value (noValue decoded)⟩
            rw [only (.inr on'), stuck]
        | false =>
            simp only [stuck, Bool.false_eq_true, if_false]
            constructor
            · rintro ⟨decoded, value, _⟩
              exact absurd value (noValue decoded)
            · rintro ⟨stops, _⟩
              rw [stops scratch on] at stuck
              cases stuck

end

theorem Rust.dialect_spells (debug : Str → String) : (Rust.dialect debug).Spells where
  append := Utf8.encode_append
  word _ := rfl
  bodyText text := by
    simp only [Rust.dialect, Utf8.valid, Utf8.decodeLossy_encode, decide_true, if_true]

theorem Go.dialect_spells (debug : Bytes → String) : (Go.dialect debug).Spells where
  append _ _ := rfl
  word _ := rfl
  bodyText _ := rfl

/-- A list, a map or a message. -/
def Field.composite {T : Type} (f : Field T) : Bool :=
  f.shape != .singular || match f.kind with
    | .message _ => true
    | _ => false

section
variable {T Msg : Type} (d : Dialect T) (key : Field T → Str)
  (decode : T → List (Str × Str) → Option Msg) (p : Presence T Msg) (type : T) (f : Field T) (text : T)

/-- The text does not run on into further members, and does not leave a field with presence
unset. -/
def Rust.Settles : Prop :=
  (∀ decoded, ¬ Continued d key decode type f text decoded) ∧
    ∀ decoded, FieldValue d key decode type f text decoded →
      p.tracked f = true → p.has decoded f = true

/-- As in Rust, but here no composite field may be left unset: `Set` panics on it, also
where the text runs on. -/
def Go.Settles : Prop :=
  (∀ decoded, Continued d key decode type f text decoded →
    f.composite = true ∧ p.has decoded f = false) ∧
    ∀ decoded, FieldValue d key decode type f text decoded →
      p.tracked f = true ∨ f.composite = true → p.has decoded f = true

end

/-- A body that is one field sets it as the decoder reads it, and nothing but a value of the
field is taken, exactly when the text does not run on into further members that the decoder
takes and its value does not leave a field with presence unset, in Go a composite one either. -/
theorem field_body_exact_iff (Msg : Type) :
    (∀ (debug : Str → String) (store : Store Str Msg) (key : Field Str → Str)
        (decode : Str → List (Str × Str) → Option Msg) (p : Presence Str Msg),
      store.Lawful → p.Lawful store → Decodes (Rust.dialect debug) store key decode →
      (∀ msg f, store.readOnly msg f = false) →
      ∀ (msg : Msg) (f : Field Str) (text : Str), f ∈ store.fields (store.descriptor msg) →
        (OneValue (Rust.dialect debug) store key decode p f text msg
            ((InPlace.setFromJson (Rust.dialect debug) store f text).run msg) ↔
          Rust.Settles (Rust.dialect debug) key decode p (store.descriptor msg) f text) ∧
        ∀ name, fieldByAnyName store (store.descriptor msg) name = some f →
          (OneValue (Rust.dialect debug) store key decode p f text msg
              ((InPlace.setMessageField (Rust.dialect debug) store name (Utf8.encode text)).run msg) ↔
            Rust.Settles (Rust.dialect debug) key decode p (store.descriptor msg) f text)) ∧
    (∀ (debug : Bytes → String) (store : Store Bytes Msg) (key : Field Bytes → Str)
        (decode : Bytes → List (Str × Str) → Option Msg) (p : Presence Bytes Msg),
      store.Lawful → p.Lawful store → Decodes (Go.dialect debug) store key decode →
      (∀ msg f, store.readOnly msg f = (f.composite && !p.has msg f)) →
      ∀ (msg : Msg) (f : Field Bytes) (text : Bytes), f ∈ store.fields (store.descriptor msg) →
        (OneValue (Go.dialect debug) store key decode p f text msg
            ((InPlace.setFromJson (Go.dialect debug) store f text).run msg) ↔
          Go.Settles (Go.dialect debug) key decode p (store.descriptor msg) f text) ∧
        ∀ name, fieldByAnyName store (store.descriptor msg) name = some f →
          (OneValue (Go.dialect debug) store key decode p f text msg
              ((InPlace.setMessageField (Go.dialect debug) store name text).run msg) ↔
            Go.Settles (Go.dialect debug) key decode p (store.descriptor msg) f text)) := by
  constructor
  · intro debug store key decode p lawful presence decodes writable msg f text member
    have spells := Rust.dialect_spells debug
    have whole := oneValue_iff lawful presence spells decodes member text
    simp only [writable, Bool.false_eq_true, true_and] at whole
    refine ⟨whole, fun name named => ?_⟩
    have named := setMessageField_named spells named text
    exact (iff_of_eq (congrArg _ named)).trans whole
  · intro debug store key decode p lawful presence decodes readOnly msg f text member
    have spells := Go.dialect_spells debug
    have whole := oneValue_iff lawful presence spells decodes member text
    have settles : (OneValue (Go.dialect debug) store key decode p f text msg
        ((InPlace.setFromJson (Go.dialect debug) store f text).run msg) ↔
          Go.Settles (Go.dialect debug) key decode p (store.descriptor msg) f text) := by
      rw [whole, Go.Settles]
      simp only [readOnly, Bool.and_eq_true, Bool.not_eq_true']
      refine and_congr Iff.rfl (forall₂_congr fun decoded _ => ?_)
      cases f.composite <;> cases p.tracked f <;> cases p.has decoded f <;> decide
    refine ⟨settles, fun name named => ?_⟩
    have named := setMessageField_named spells named text
    exact (iff_of_eq (congrArg _ named)).trans settles

/-- The request `message Note { optional uint32 count = 1; uint32 size = 2; repeated uint32
tags = 3; }`. -/
inductive Note (T : Type) where
  | mk (type : T) (count : Option (Value T (Note T))) (size : Value T (Note T))
      (tags : List (Value T (Note T)))

section
variable {T : Type} [DecidableEq T] (word : String → T)

def countField : Field T := ⟨1, word "count", word "count", .uint32, .singular, []⟩
def sizeField : Field T := ⟨2, word "size", word "size", .uint32, .singular, []⟩
def tagsField : Field T := ⟨3, word "tags", word "tags", .uint32, .list, []⟩

def Note.get : Note T → Field T → Value T (Note T)
  | .mk _ count size tags, f =>
      if f.number = 1 then count.getD (.u32 0) else if f.number = 2 then size else .list tags

def Note.set : Note T → Field T → Value T (Note T) → Note T
  | .mk type count size tags, f, value =>
      if f.number = 1 then .mk type (some value) size tags
      else if f.number = 2 then .mk type count value tags
      else match value with
        | .list items => .mk type count size items
        | _ => .mk type count size tags

def isPopulated : Value T (Note T) → Bool
  | .u32 n => n != 0
  | .list items => !items.isEmpty
  | _ => true

def notePresence : Presence T (Note T) where
  tracked f := f.number = 1
  populated _ := isPopulated
  has
    | .mk type count size tags, f =>
        if f.number = 1 then count.isSome else isPopulated (Note.get (.mk type count size tags) f)

/-- One member of the object. -/
def noteMember : Note T → Str × Str → Option (Note T)
  | .mk type count size tags, (name, text) =>
      let value := (JsonSyntax.skip (JsonSyntax.skip text).reverse).reverse
      let number := (decimal value).filter fun n => decide (n < 2 ^ 32)
      if name = "count".toList then
        if value = "null".toList then some (.mk type count size tags)
        else number.map fun n => .mk type (some (.u32 n)) size tags
      else if name = "size".toList then
        if value = "null".toList then some (.mk type count size tags)
        else number.map fun n => .mk type count (.u32 n) tags
      else if name = "tags".toList ∧ (value = "null".toList ∨ value = "[]".toList) then
        some (.mk type count size tags)
      else none

def noteObject (type : T) (members : List (Str × Str)) : Option (Note T) :=
  members.foldlM noteMember (.mk type none (.u32 0) [])

def notes (d : Dialect T) (readOnly : Note T → Field T → Bool) : Store T (Note T) where
  fields type := if type = word "Note" then [countField word, sizeField word, tagsField word] else []
  new type := .mk type none (.u32 0) []
  descriptor | .mk type _ _ _ => type
  get := Note.get
  set := Note.set
  readOnly := readOnly
  deserialize type bytes :=
    if Utf8.valid bytes then
      match (JsonSyntax.objectMembers (Utf8.decodeLossy bytes)).bind (noteObject type) with
      | some note => .ok note
      | none => .error "expected a Note"
    else .error "invalid UTF-8"
  quote text := d.append (d.append (d.word "\"") text) (d.word "\"")
  parseF32 _ := none
  parseF64 _ := none
  encode
    | .mk _ count size tags =>
        let wire (key : Nat) : Value T (Note T) → List (Nat × Bytes)
          | .u32 n => [(key, ProtoWire.varint n)]
          | _ => []
        let packed := tags.flatMap fun value => (wire 26 value).flatMap Prod.snd
        .ok (ProtoWire.encodeFields ((count.map (wire 8)).getD [] ++
          (if isPopulated size then wire 16 size else []) ++
          if packed = [] then [] else [(26, ProtoWire.delimited packed)]))

variable {word} {d : Dialect T} {readOnly : Note T → Field T → Bool}

theorem notes_fields {type : T} {f : Field T} (member : f ∈ (notes word d readOnly).fields type) :
    type = word "Note" ∧ (f = countField word ∨ f = sizeField word ∨ f = tagsField word) := by
  simp only [notes] at member
  split at member
  case isTrue same => exact ⟨same, by simpa using member⟩
  case isFalse => cases member

theorem noteMember_type {note after : Note T} {member : Str × Str}
    (done : noteMember note member = some after) :
    (notes word d readOnly).descriptor after = (notes word d readOnly).descriptor note := by
  obtain ⟨type, count, size, tags⟩ := note
  simp only [noteMember] at done
  split_ifs at done
  · cases done
    rfl
  · obtain ⟨n, _, rfl⟩ := Option.map_eq_some_iff.mp done
    rfl
  · cases done
    rfl
  · obtain ⟨n, _, rfl⟩ := Option.map_eq_some_iff.mp done
    rfl
  · cases done
    rfl

theorem notes_deserialize {type : T} {bytes : Bytes} {note : Note T} :
    (notes word d readOnly).deserialize type bytes = .ok note ↔
      ∃ text members, bytes = Utf8.encode text ∧ JsonSyntax.objectMembers text = some members ∧
        noteObject type members = some note := by
  simp only [notes]
  constructor
  · intro done
    split_ifs at done with text
    split at done
    case h_2 => cases done
    case h_1 found read =>
      cases done
      obtain ⟨members, written, meant⟩ := Option.bind_eq_some_iff.mp read
      exact ⟨_, members, (of_decide_eq_true text).symm, written, meant⟩
  · rintro ⟨text, members, rfl, written, meant⟩
    simp only [Utf8.valid, Utf8.decodeLossy_encode, decide_true, if_true, written,
      Option.bind_some, meant]

theorem noteObject_type {type : T} {members : List (Str × Str)} {note : Note T}
    (meant : noteObject type members = some note) :
    (notes word d readOnly).descriptor note = type := by
  have kept : ∀ (members : List (Str × Str)) (start : Note T),
      members.foldlM noteMember start = some note →
      (notes word d readOnly).descriptor note = (notes word d readOnly).descriptor start := by
    intro members
    induction members with
    | nil =>
        intro start done
        cases done
        rfl
    | cons member members ih =>
        intro start done
        obtain ⟨next, first, rest⟩ := Option.bind_eq_some_iff.mp done
        rw [ih next rest, noteMember_type first]
  exact kept members _ meant

theorem notes_lawful : (notes word d readOnly).Lawful where
  descriptor_new type := rfl
  descriptor_set := by
    rintro ⟨type, count, size, tags⟩ f v
    simp only [notes, Note.set]
    split_ifs <;> [rfl; rfl; (cases v <;> rfl)]
  descriptor_deserialize type bytes note done := by
    obtain ⟨_, _, _, _, meant⟩ := notes_deserialize.mp done
    exact noteObject_type meant
  get_fits := by
    rintro ⟨type, count, size, tags⟩ f member
    obtain ⟨_, rfl | rfl | rfl⟩ := notes_fields member <;>
      simp [Fits, notes, Note.get, countField, sizeField, tagsField]
  get_set := by
    rintro ⟨type, count, size, tags⟩ f v member fits
    obtain ⟨_, rfl | rfl | rfl⟩ := notes_fields member
    · rfl
    · rfl
    · obtain ⟨items, rfl⟩ := fits.1 rfl
      rfl
  get_set_other := by
    rintro ⟨type, count, size, tags⟩ f g v member member' different _
    obtain ⟨_, rfl | rfl | rfl⟩ := notes_fields member <;>
      obtain ⟨_, rfl | rfl | rfl⟩ := notes_fields member' <;>
      first
        | exact absurd rfl different
        | rfl
        | (cases v <;> rfl)
  oneof msg f g member member' different sibling := by
    obtain ⟨_, rfl | rfl | rfl⟩ := notes_fields member <;> cases sibling
  new_message type f inner member kind _ := by
    obtain ⟨_, rfl | rfl | rfl⟩ := notes_fields member <;> cases kind

theorem notePresence_lawful : notePresence.Lawful (notes word d readOnly) where
  oneof_tracked msg f member siblings := by
    obtain ⟨_, rfl | rfl | rfl⟩ := notes_fields member <;> exact absurd rfl siblings
  has_populated := by
    rintro ⟨type, count, size, tags⟩ f member untracked
    obtain ⟨_, rfl | rfl | rfl⟩ := notes_fields member
    · cases untracked
    · rfl
    · rfl
  has_set := by
    rintro ⟨type, count, size, tags⟩ f v member _ tracked
    obtain ⟨_, rfl | rfl | rfl⟩ := notes_fields member
    · rfl
    · cases tracked
    · cases tracked
  has_set_other := by
    rintro ⟨type, count, size, tags⟩ f g v member member' different _
    obtain ⟨_, rfl | rfl | rfl⟩ := notes_fields member <;>
      obtain ⟨_, rfl | rfl | rfl⟩ := notes_fields member' <;>
      first
        | exact absurd rfl different
        | rfl
        | (cases v <;> rfl)
  has_set_sibling msg f g v member member' different sibling := by
    obtain ⟨_, rfl | rfl | rfl⟩ := notes_fields member <;> cases sibling

end
def Rust.notes : Store Str (Note Str) :=
  HttpRule.notes String.toList (Rust.dialect fun _ => "") fun _ _ => false

def Go.notes : Store Bytes (Note Bytes) :=
  HttpRule.notes utf8 (Go.dialect fun _ => "") fun note f => f.composite && !notePresence.has note f

theorem Rust.notes_decodes :
    Decodes (Rust.dialect fun _ => "") Rust.notes Field.jsonName noteObject where
  accepts _ _ _ := notes_deserialize
  quoted type f member := by
    obtain ⟨_, rfl | rfl | rfl⟩ := notes_fields member <;> rfl
  closed type f member := by
    obtain ⟨_, rfl | rfl | rfl⟩ := notes_fields member <;> rfl

theorem Go.notes_decodes : Decodes (Go.dialect fun _ => "") Go.notes
    (fun f => Utf8.decodeLossy f.jsonName) noteObject where
  accepts _ _ _ := notes_deserialize
  quoted type f member := by
    obtain ⟨_, rfl | rfl | rfl⟩ := notes_fields member <;> rfl
  closed type f member := by
    obtain ⟨_, rfl | rfl | rfl⟩ := notes_fields member <;> rfl

def Rust.emptyNote : Note Str := .mk "Note".toList none (.u32 0) []

def Go.emptyNote : Note Bytes := .mk (utf8 "Note") none (.u32 0) []

/-- The body `1` on the count, under its name. -/
theorem count_taken :
    OneValue (Rust.dialect fun _ => "") Rust.notes Field.jsonName noteObject notePresence
        (countField String.toList) "1".toList Rust.emptyNote
        ((InPlace.setMessageField (Rust.dialect fun _ => "") Rust.notes "count".toList
          (Utf8.encode "1".toList)).run Rust.emptyNote) ∧
      OneValue (Go.dialect fun _ => "") Go.notes (fun f => Utf8.decodeLossy f.jsonName) noteObject
        notePresence (countField utf8) (utf8 "1") Go.emptyNote
        ((InPlace.setMessageField (Go.dialect fun _ => "") Go.notes (utf8 "count")
          (utf8 "1")).run Go.emptyNote) := by
  constructor
  · have one : FieldValue (Rust.dialect fun _ => "") Field.jsonName noteObject "Note".toList
        (countField String.toList) "1".toList (.mk "Note".toList (some (.u32 1)) (.u32 0) []) :=
      ⟨"1".toList, rfl, by decide, rfl⟩
    refine (((field_body_exact_iff _).1 _ _ _ _ _ notes_lawful notePresence_lawful
      Rust.notes_decodes (fun _ _ => rfl) _ _ _ ?_).2 _ rfl).mpr ⟨?_, ?_⟩
    · exact List.mem_cons_self
    · exact fun decoded => fieldValue_not_continued one
    · rintro decoded ⟨value, spelled, _, meant⟩ _
      obtain rfl := Utf8.encode_injective spelled
      cases meant
      rfl
  · have one : FieldValue (Go.dialect fun _ => "") (fun f => Utf8.decodeLossy f.jsonName) noteObject
        (utf8 "Note") (countField utf8) (utf8 "1") (.mk (utf8 "Note") (some (.u32 1)) (.u32 0) []) :=
      ⟨"1".toList, rfl, by decide, rfl⟩
    refine (((field_body_exact_iff _).2 _ _ _ _ _ notes_lawful notePresence_lawful
      Go.notes_decodes (fun _ _ => rfl) _ _ _ ?_).2 _ rfl).mpr ⟨?_, ?_⟩
    · exact List.mem_cons_self
    · exact fun decoded on => absurd on (fieldValue_not_continued one)
    · rintro decoded ⟨value, spelled, _, meant⟩ _
      have spelled : Utf8.encode "1".toList = Utf8.encode value := spelled
      obtain rfl := Utf8.encode_injective spelled
      cases meant
      rfl

/-- On an empty note: the text `1,"size":2` on the count is taken, `null` on the count leaves
it set, and in Go `null` on the tags panics. -/
theorem not_one_value :
    ((InPlace.setFromJson (Rust.dialect fun _ => "") Rust.notes (countField String.toList)
          "1,\"size\":2".toList).run Rust.emptyNote =
        .ok () (.mk "Note".toList (some (.u32 1)) (.u32 0) []) ∧
      ¬ OneValue (Rust.dialect fun _ => "") Rust.notes Field.jsonName noteObject notePresence
        (countField String.toList) "1,\"size\":2".toList Rust.emptyNote
        ((InPlace.setFromJson (Rust.dialect fun _ => "") Rust.notes (countField String.toList)
          "1,\"size\":2".toList).run Rust.emptyNote)) ∧
    ((InPlace.setFromJson (Rust.dialect fun _ => "") Rust.notes (countField String.toList)
          "null".toList).run Rust.emptyNote =
        .ok () (.mk "Note".toList (some (.u32 0)) (.u32 0) []) ∧
      ¬ OneValue (Rust.dialect fun _ => "") Rust.notes Field.jsonName noteObject notePresence
        (countField String.toList) "null".toList Rust.emptyNote
        ((InPlace.setFromJson (Rust.dialect fun _ => "") Rust.notes (countField String.toList)
          "null".toList).run Rust.emptyNote)) ∧
    ((InPlace.setFromJson (Go.dialect fun _ => "") Go.notes (countField utf8)
          (utf8 "1,\"size\":2")).run Go.emptyNote =
        .ok () (.mk (utf8 "Note") (some (.u32 1)) (.u32 0) []) ∧
      ¬ OneValue (Go.dialect fun _ => "") Go.notes (fun f => Utf8.decodeLossy f.jsonName) noteObject
        notePresence (countField utf8) (utf8 "1,\"size\":2") Go.emptyNote
        ((InPlace.setFromJson (Go.dialect fun _ => "") Go.notes (countField utf8)
          (utf8 "1,\"size\":2")).run Go.emptyNote)) ∧
    ((InPlace.setFromJson (Go.dialect fun _ => "") Go.notes (countField utf8)
          (utf8 "null")).run Go.emptyNote =
        .ok () (.mk (utf8 "Note") (some (.u32 0)) (.u32 0) []) ∧
      ¬ OneValue (Go.dialect fun _ => "") Go.notes (fun f => Utf8.decodeLossy f.jsonName) noteObject
        notePresence (countField utf8) (utf8 "null") Go.emptyNote
        ((InPlace.setFromJson (Go.dialect fun _ => "") Go.notes (countField utf8)
          (utf8 "null")).run Go.emptyNote)) ∧
    ((InPlace.setFromJson (Go.dialect fun _ => "") Go.notes (tagsField utf8)
          (utf8 "null")).run Go.emptyNote = .error .panic Go.emptyNote ∧
      ¬ OneValue (Go.dialect fun _ => "") Go.notes (fun f => Utf8.decodeLossy f.jsonName) noteObject
        notePresence (tagsField utf8) (utf8 "null") Go.emptyNote
        ((InPlace.setFromJson (Go.dialect fun _ => "") Go.notes (tagsField utf8)
          (utf8 "null")).run Go.emptyNote)) := by
  refine ⟨⟨rfl, ?_⟩, ⟨rfl, ?_⟩, ⟨rfl, ?_⟩, ⟨rfl, ?_⟩, rfl, ?_⟩
  · rintro ⟨decoded, ⟨value, spelled, one, _⟩, _⟩
    obtain rfl := Utf8.encode_injective spelled
    cases one
  · rintro ⟨decoded, ⟨value, spelled, _, meant⟩, _, kept, _⟩
    obtain rfl := Utf8.encode_injective spelled
    cases meant
    cases kept
  · rintro ⟨decoded, ⟨value, spelled, one, _⟩, _⟩
    have spelled : Utf8.encode "1,\"size\":2".toList = Utf8.encode value := spelled
    obtain rfl := Utf8.encode_injective spelled
    cases one
  · rintro ⟨decoded, ⟨value, spelled, _, meant⟩, _, kept, _⟩
    have spelled : Utf8.encode "null".toList = Utf8.encode value := spelled
    obtain rfl := Utf8.encode_injective spelled
    cases meant
    cases kept
  · rintro ⟨refused, _⟩
    exact refused _ ⟨"null".toList, rfl, rfl, rfl⟩

end GrpcWebnext.HttpRule
