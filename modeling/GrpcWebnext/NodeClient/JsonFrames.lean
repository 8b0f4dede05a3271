import GrpcWebnext.Ws.JsonText

/-! `SingleStreamConn.onJsonFrame` of `ws-transport.ts`, on the texts the servers send. -/
namespace GrpcWebnext.NodeClient
open Text (Str)
open Json (Tree Value CodeUnit Literal)
open JsonText (JsonFrame ServerFrame)

/-- The numbers of the language: how a numeral is read, which of them are truthy, and
which are finite and so have a numeral. -/
structure Numbers where
  N : Type
  read : Str → N
  truthy : N → Bool
  finite : N → Bool

section
variable (num : Numbers)

/-- `JSON.parse`. -/
def parsed (s : Str) : Value num.N := .number (num.read s)

/-- A number that has gone through `JSON.parse` and `JSON.stringify`. -/
def restringified (s : Str) : Value num.N :=
  if num.finite (num.read s) then .number (num.read s) else .null

/-- A property of a parsed object, `none` for `undefined`. The last of a name counts. -/
def lastField (name : List CodeUnit) : List (Literal × Tree) → Option Tree
  | [] => none
  | (key, value) :: rest => (lastField name rest).or (if key.units = name then some value else none)

def property (name : String) : Tree → Option Tree
  | .object fields => lastField (name.toList.map .char) fields
  | _ => none

def truthy : Tree → Bool
  | .null => false
  | .bool b => b
  | .number s => num.truthy (num.read s)
  | .string literal => literal ≠ []
  | .array _ => true
  | .object _ => true

/-- The values of a `Metadata`, up to the order of its keys. -/
abbrev ClientMetadata := List CodeUnit → Option (Value num.N)

def lowerUnit : CodeUnit → CodeUnit
  | .char c => .char c.toLower
  | .lone code => .lone code

/-- The pieces of a key in lower case; keys are header names. -/
def lowerKey (key : Literal) : Literal := key.map fun piece => { piece with unit := lowerUnit piece.unit }

/-- A `set` for every entry; the metadata of a frame is an object or is not there. -/
def jsonToMeta (obj : Option Tree) : ClientMetadata num :=
  match obj with
  | some (.object fields) =>
      Json.valueFields (parsed num) (fields.map fun field => (lowerKey field.1, field.2))
  | _ => fun _ => none

/-- The handler that is called, with what it is given. -/
inductive Fired where
  | headers (metadata : ClientMetadata num)
  | message (value : Value num.N)
  | status (code : Option (Value num.N)) (details : Value num.N) (metadata : ClientMetadata num)

/-- On a connection that has not finished. The message is stringified for its handler. -/
def onJsonFrame (jf : Tree) : Option (Fired num) :=
  match property "status" jf with
  | some status =>
      if truthy num status then
        some (.status ((property "code" status).map (Tree.value (parsed num)))
          (match property "message" status with
            | none => .string []
            | some .null => .string []
            | some details => details.value (parsed num))
          (jsonToMeta num (property "metadata" jf)))
      else rest jf
  | none => rest jf
where
  rest (jf : Tree) : Option (Fired num) :=
    match property "message" jf with
    | some message => some (.message (message.value (restringified num)))
    | none =>
        match property "metadata" jf with
        | some metadata =>
            if truthy num metadata then some (.headers (jsonToMeta num (some metadata))) else none
        | none => none

end

section Properties
variable {written : Char → Str}

theorem lastField_append (name : List CodeUnit) (front back : List (Literal × Tree)) :
    lastField name (front ++ back) = (lastField name back).or (lastField name front) := by
  induction front with
  | nil => exact Option.or_none.symm
  | cons first rest ih =>
      obtain ⟨key, value⟩ := first
      rw [List.cons_append, lastField, lastField, ih, Option.or_assoc]

theorem lastField_field (name other : String) (value : Option Tree) :
    lastField (name.toList.map .char) (JsonText.field written other value) =
      if other = name then value else none := by
  have same : other.toList.map CodeUnit.char = name.toList.map .char ↔ other = name :=
    ⟨fun spelled => String.toList_injective (Json.units_injective spelled), fun equal => by rw [equal]⟩
  cases value with
  | none => simp [JsonText.field, lastField]
  | some value => simp [JsonText.field, lastField, same]

@[simp] theorem property_metadata (f : JsonFrame) :
    property "metadata" (JsonText.frameText written f) = f.metadata.map (JsonText.mapText written) := by
  simp only [property, JsonText.frameText, lastField_append, lastField_field]
  simp

@[simp] theorem property_message (f : JsonFrame) :
    property "message" (JsonText.frameText written f) = f.message := by
  simp only [property, JsonText.frameText, lastField_append, lastField_field]
  simp

@[simp] theorem property_status (f : JsonFrame) :
    property "status" (JsonText.frameText written f) = f.status.map (JsonText.statusText written) := by
  simp only [property, JsonText.frameText, lastField_append, lastField_field]
  simp

@[simp] theorem property_code (status : Nat × Str) :
    property "code" (JsonText.statusText written status) = some (.number (Nat.toDigits 10 status.1)) := by
  simp only [property, JsonText.statusText, lastField_append, lastField_field]
  simp

@[simp] theorem property_details (status : Nat × Str) :
    property "message" (JsonText.statusText written status) =
      if status.2 = [] then none else some (.string (Json.write written status.2)) := by
  simp only [property, JsonText.statusText, lastField_append, lastField_field]
  simp

end Properties

section Handlers
variable (num : Numbers) {written : Char → Str} {f : JsonFrame}

/-- A status comes first, whatever else is in the frame. -/
theorem onJsonFrame_status {code : Nat} {details : Str} (ended : f.status = some (code, details)) :
    onJsonFrame num (JsonText.frameText written f) =
      some (.status (some (parsed num (Nat.toDigits 10 code))) (.string (details.map .char))
        (jsonToMeta num (f.metadata.map (JsonText.mapText written)))) := by
  have object : truthy num (JsonText.statusText written (code, details)) = true := rfl
  simp only [onJsonFrame, property_status, ended, Option.map_some, object, if_true, property_code,
    property_details, property_metadata]
  by_cases empty : details = []
  · subst empty
    rfl
  · simp [empty, Tree.value, parsed]

theorem onJsonFrame_message {t : Tree} (running : f.status = none) (sent : f.message = some t) :
    onJsonFrame num (JsonText.frameText written f) = some (.message (t.value (restringified num))) := by
  simp [onJsonFrame, onJsonFrame.rest, running, sent]

theorem onJsonFrame_headers {map : List (Str × Str)} (running : f.status = none)
    (bare : f.message = none) (opened : f.metadata = some map) :
    onJsonFrame num (JsonText.frameText written f) =
      some (.headers (jsonToMeta num (some (JsonText.mapText written map)))) := by
  have object : truthy num (JsonText.mapText written map) = true := rfl
  simp [onJsonFrame, onJsonFrame.rest, running, bare, opened, object]

theorem onJsonFrame_silent (running : f.status = none) (bare : f.message = none)
    (unnamed : f.metadata = none) : onJsonFrame num (JsonText.frameText written f) = none := by
  simp [onJsonFrame, onJsonFrame.rest, running, bare, unnamed]

end Handlers

/-- The metadata of a frame in JSON form: its ASCII values. -/
def asciiEntries (items : JsonText.Metadata) : List (Str × Str) :=
  items.filterMap fun (key, value) => value.map fun value => (key, value)

/-- Only ASCII values, one for each key, under names in lower case. -/
structure PlainMetadata (items : JsonText.Metadata) : Prop where
  ascii : ∀ item ∈ items, item.2.isSome = true
  distinct : ((asciiEntries items).map Prod.fst).Nodup
  lower : ∀ entry ∈ asciiEntries items, ∀ c ∈ entry.1, c.toLower = c

/-- The received metadata are the given entries and nothing else. -/
structure Holds (num : Numbers) (md : ClientMetadata num) (entries : List (Str × Str)) : Prop where
  given : ∀ entry ∈ entries, md (entry.1.map .char) = some (.string (entry.2.map .char))
  only : ∀ name, (∀ entry ∈ entries, entry.1.map .char ≠ name) → md name = none

section Metadata
variable (num : Numbers) (written : Char → Str)

theorem lowerKey_write {key : Str} (lower : ∀ c ∈ key, c.toLower = c) :
    lowerKey (Json.write written key) = Json.write written key := by
  rw [lowerKey, Json.write, List.map_map]
  apply List.map_congr_left
  intro c inside
  simp [Json.writeChar, lowerUnit, lower c inside]

/-- Keys in lower case are set as they are. -/
theorem jsonToMeta_mapText {map : List (Str × Str)} (lower : ∀ entry ∈ map, ∀ c ∈ entry.1, c.toLower = c) :
    jsonToMeta num (some (JsonText.mapText written map)) = Json.valueFields (parsed num)
      (Json.toFields written (map.map fun entry => (entry.1, .string (Json.write written entry.2)))) := by
  rw [JsonText.mapText, jsonToMeta]
  apply congrArg
  simp only [Json.toFields, List.map_map]
  apply List.map_congr_left
  intro entry inside
  simp [lowerKey_write written (lower entry inside)]

theorem jsonToMeta_asciiMap {items : JsonText.Metadata} (plain : PlainMetadata items) :
    Holds num (jsonToMeta num (some (JsonText.mapText written (JsonText.asciiMap items))))
      (asciiEntries items) := by
  have lower : ∀ entry ∈ JsonText.asciiMap items, ∀ c ∈ entry.1, c.toLower = c := by
    intro entry inside
    exact plain.lower entry (OrderedMap.mem_ofList inside)
  rw [jsonToMeta_mapText num written lower]
  have found : ∀ name : Str, Json.valueFields (parsed num)
      (Json.toFields written ((JsonText.asciiMap items).map fun entry =>
        (entry.1, .string (Json.write written entry.2)))) (name.map .char) =
      (OrderedMap.last name (asciiEntries items)).map fun value => .string (value.map .char) := by
    intro name
    rw [Json.valueFields_text, OrderedMap.last_map (fun value => Tree.string (Json.write written value)),
      JsonText.asciiMap, OrderedMap.last_ofList, Option.map_map]
    apply congrFun
    apply congrArg
    funext value
    simp [Tree.value]
  constructor
  · intro entry inside
    rw [found, OrderedMap.last_of_mem plain.distinct inside]
    rfl
  · intro name absent
    by_cases spelled : ∃ text : Str, name = text.map .char
    · obtain ⟨text, rfl⟩ := spelled
      rw [found, OrderedMap.last_of_notMem]
      · rfl
      · intro inside
        obtain ⟨entry, member, rfl⟩ := List.mem_map.mp inside
        exact absent entry member rfl
    · exact Json.valueFields_other _ fun text same => spelled ⟨text, same⟩

theorem holds_nil : Holds num (jsonToMeta num none) [] :=
  ⟨fun _ inside => (by cases inside), fun _ _ => rfl⟩

/-- Metadata that are left out when they are empty hold the same entries. -/
theorem jsonToMeta_optional {items : JsonText.Metadata} (plain : PlainMetadata items) :
    Holds num (jsonToMeta num ((if JsonText.asciiMap items = [] then none
      else some (JsonText.asciiMap items)).map (JsonText.mapText written))) (asciiEntries items) := by
  split
  · rename_i empty
    rw [show asciiEntries items = [] from OrderedMap.ofList_eq_nil.mp empty]
    exact holds_nil num
  · exact jsonToMeta_asciiMap num written plain

end Metadata

/-- The frames a server sends on a JSON connection. A message is a JSON value, so no
object in it has a name twice. -/
def Sent : ServerFrame → Prop
  | .header headers => PlainMetadata headers
  | .message payload => ∃ t, payload = some t ∧ t.Distinct
  | .trailer _ _ trailers => PlainMetadata trailers
  | .reset _ _ => True
  | .clientOnly => False

/-- The handler for the frame is called, with what the frame holds. -/
def Delivered (num : Numbers) : ServerFrame → Option (Fired num) → Prop
  | .header headers, fired => ∃ md, fired = some (.headers md) ∧ Holds num md (asciiEntries headers)
  | .message payload, fired => ∃ t, payload = some t ∧ fired = some (.message (t.value (parsed num)))
  | .trailer code message trailers, fired =>
      ∃ md, fired = some (.status (some (parsed num (Nat.toDigits 10 code)))
        (.string (message.map .char)) md) ∧
        Holds num md (asciiEntries trailers)
  | .reset code message, fired =>
      ∃ md, fired = some (.status (some (parsed num (Nat.toDigits 10 code)))
        (.string (message.map .char)) md) ∧
        Holds num md []
  | .clientOnly, _ => False

/-- A message that a reader and writer with a limit on its levels hands on. -/
structure Carried (num : Numbers) (reread : Str → Option Str) (levels : Nat) (t : Tree) : Prop where
  shallow : t.depth ≤ levels
  numbers : ∀ s ∈ t.numerals, ∃ new, reread s = some new ∧ num.read new = num.read s ∧
    num.finite (num.read new) = true

def fromRust (num : Numbers) (reread : Str → Option Str) (frame : ServerFrame) : Option (Fired num) :=
  (JsonText.Rust.protoFrameToJson reread frame).bind fun f =>
    onJsonFrame num (JsonText.Rust.encodeJsonFrame f)

def fromGo (num : Numbers) (frame : ServerFrame) : Option (Fired num) :=
  (JsonText.Go.protoFrameToJSON frame).bind fun f => onJsonFrame num (JsonText.Go.encodeJSONFrame f)

section Messages
variable (num : Numbers) {t : Tree}

theorem value_eq_null {f : Str → Value num.N} (number : ∀ s, f s ≠ .null) :
    t.value f = .null ↔ t = .null := by
  cases t with
  | null => simp [Tree.value]
  | number s => simpa [Tree.value] using number s
  | bool b => simp [Tree.value]
  | string literal => simp [Tree.value]
  | array items => simp [Tree.value]
  | object fields => simp [Tree.value]

theorem parsed_ne_null (s : Str) : parsed num s ≠ .null := by
  intro null
  cases null

theorem restringified_eq_iff (new s : Str) : restringified num new = parsed num s ↔
    num.read new = num.read s ∧ num.finite (num.read new) = true := by
  unfold restringified parsed
  split
  · rename_i finite
    simp [finite]
  · rename_i overflow
    simp [overflow]

theorem fromRust_message (reread : Str → Option Str) (payload : Option Tree) :
    fromRust num reread (.message payload) = some (.message
      (((payload.bind (JsonText.Rust.readValue reread)).getD .null).value (restringified num))) := by
  simp only [fromRust, JsonText.Rust.protoFrameToJson, Option.bind_some, JsonText.Rust.encodeJsonFrame]
  exact onJsonFrame_message num rfl rfl

/-- A text that is not read is sent as `null`, which only stands for itself. -/
theorem rust_message_iff (reread : Str → Option Str) (distinct : t.Distinct) :
    fromRust num reread (.message (some t)) = some (.message (t.value (parsed num))) ↔
      (∀ l ∈ t.literals, l.text.isSome = true) ∧ Carried num reread 127 t := by
  rw [fromRust_message, Option.some.injEq, Fired.message.injEq, Option.bind_some,
    JsonText.Rust.readValue]
  split
  · rename_i shallow
    have readable : (t.rewrite reread JsonText.Rust.written).isSome = true ↔ _ := Json.rewrite_isSome t
    cases done : t.rewrite reread JsonText.Rust.written with
    | some r =>
        rw [done] at readable
        obtain ⟨numerals, literals⟩ := readable.mp rfl
        rw [Option.getD_some, Json.value_rewrite t done, Json.value_eq_iff t distinct]
        constructor
        · intro same
          refine ⟨literals, shallow, ?_⟩
          intro s inside
          obtain ⟨new, read⟩ := Option.isSome_iff_exists.mp (numerals s inside)
          have kept := same s inside
          rw [read, Option.getD_some, restringified_eq_iff] at kept
          exact ⟨new, read, kept⟩
        · intro carried s inside
          obtain ⟨new, read, kept⟩ := carried.2.numbers s inside
          rw [read, Option.getD_some, restringified_eq_iff]
          exact kept
    | none =>
        rw [done] at readable
        constructor
        · intro same
          have null := (value_eq_null num (parsed_ne_null num)).mp same.symm
          rw [null] at done
          cases done
        · intro carried
          have numerals : ∀ s ∈ t.numerals, (reread s).isSome = true := by
            intro s inside
            obtain ⟨new, read, _⟩ := carried.2.numbers s inside
            rw [read]
            rfl
          cases readable.mpr ⟨numerals, carried.1⟩
  · rename_i deep
    constructor
    · intro same
      have null := (value_eq_null num (parsed_ne_null num)).mp same.symm
      rw [null] at deep
      exact absurd (Nat.zero_le 127) deep
    · intro carried
      exact absurd carried.2.shallow deep

theorem compactPiece_unit (piece : Json.Piece) : (JsonText.Go.compactPiece piece).unit = piece.unit := by
  unfold JsonText.Go.compactPiece
  split
  · split <;> rfl
  · rfl

theorem go_message_iff (distinct : t.Distinct) :
    fromGo num (.message (some t)) = some (.message (t.value (parsed num))) ↔
      Carried num some 10000 t := by
  by_cases deep : 10000 < t.depth
  · have silent : fromGo num (.message (some t)) = none := by
      simp [fromGo, JsonText.Go.protoFrameToJSON, JsonText.Go.rawJSON, JsonText.Go.encodeJSONFrame, deep,
        onJsonFrame, onJsonFrame.rest, property, lastField]
    rw [silent]
    constructor
    · intro fired
      cases fired
    · intro carried
      exact absurd carried.shallow (Nat.not_le.mpr deep)
  · have fired : fromGo num (.message (some t)) = some (.message (t.value (restringified num))) := by
      rw [← Json.value_respell compactPiece_unit t]
      simp only [fromGo, JsonText.Go.protoFrameToJSON, JsonText.Go.rawJSON, JsonText.Go.encodeJSONFrame,
        Option.bind_some, Option.getD_some, Option.any_some, decide_eq_true_eq, deep, if_false]
      exact onJsonFrame_message num rfl rfl
    rw [fired, Option.some.injEq, Fired.message.injEq, Json.value_eq_iff t distinct]
    constructor
    · intro same
      refine ⟨Nat.not_lt.mp deep, fun s inside => ⟨s, rfl, ?_⟩⟩
      exact (restringified_eq_iff num s s).mp (same s inside)
    · intro carried s inside
      obtain ⟨new, read, kept⟩ := carried.numbers s inside
      cases read
      exact (restringified_eq_iff num s s).mpr kept

end Messages

/-- What the Rust encoder hands on of a frame. -/
def RustKeeps (num : Numbers) (reread : Str → Option Str) : ServerFrame → Prop
  | .message (some t) => (∀ l ∈ t.literals, l.text.isSome = true) ∧ Carried num reread 127 t
  | _ => True

/-- What the Go encoder hands on of a frame. -/
def GoKeeps (num : Numbers) : ServerFrame → Prop
  | .header headers => headers ≠ []
  | .message (some t) => Carried num some 10000 t
  | _ => True

section Headers
variable (num : Numbers) {headers : JsonText.Metadata}

theorem rust_header (reread : Str → Option Str) (plain : PlainMetadata headers) :
    Delivered num (.header headers) (fromRust num reread (.header headers)) := by
  have whole : (JsonText.Rust.metaVecToJson headers).getD [] = JsonText.asciiMap headers := by
    unfold JsonText.Rust.metaVecToJson
    split
    · rename_i empty
      exact empty.symm
    · rfl
  refine ⟨_, ?_, jsonToMeta_asciiMap num JsonText.Rust.written plain⟩
  simp only [fromRust, JsonText.Rust.protoFrameToJson, Option.bind_some, JsonText.Rust.encodeJsonFrame, whole]
  exact onJsonFrame_headers num rfl rfl rfl

theorem asciiEntries_eq_nil (plain : PlainMetadata headers) : asciiEntries headers = [] ↔ headers = [] := by
  cases headers with
  | nil => simp [asciiEntries]
  | cons item rest =>
      obtain ⟨value, some⟩ := Option.isSome_iff_exists.mp (plain.ascii item List.mem_cons_self)
      simp [asciiEntries, some]

/-- The Go text of a frame without a message. -/
theorem encodeJSONFrame_bare {f : JsonFrame} (bare : f.message = none) :
    JsonText.Go.encodeJSONFrame f = JsonText.frameText JsonText.Go.written
      { f with metadata := f.metadata.filter fun map => map ≠ [] } := by
  simp [JsonText.Go.encodeJSONFrame, bare]

theorem go_header_iff (plain : PlainMetadata headers) :
    Delivered num (.header headers) (fromGo num (.header headers)) ↔ headers ≠ [] := by
  have empty : JsonText.asciiMap headers = [] ↔ headers = [] :=
    OrderedMap.ofList_eq_nil.trans (asciiEntries_eq_nil plain)
  have fired : fromGo num (.header headers) = onJsonFrame num (JsonText.frameText JsonText.Go.written
      { JsonFrame.empty with metadata :=
          (some ((JsonText.Go.listToJSONMeta headers).getD [])).filter fun map => map ≠ [] }) := by
    rw [fromGo, JsonText.Go.protoFrameToJSON, Option.bind_some, encodeJSONFrame_bare rfl]
  by_cases none : headers = []
  · have silent : fromGo num (.header headers) = Option.none := by
      rw [fired]
      apply onJsonFrame_silent num rfl rfl
      simp [JsonText.Go.listToJSONMeta, empty.mpr none]
    rw [silent]
    constructor
    · rintro ⟨md, called, _⟩
      cases called
    · intro some
      exact absurd none some
  · have some : JsonText.asciiMap headers ≠ [] := fun absent => none (empty.mp absent)
    constructor
    · exact fun _ => none
    · intro _
      refine ⟨_, ?_, jsonToMeta_asciiMap num JsonText.Go.written plain⟩
      rw [fired]
      apply onJsonFrame_headers num rfl rfl
      simp [JsonText.Go.listToJSONMeta, some]

end Headers

section Endings
variable (num : Numbers) (code : Nat) (message : Str)

theorem rust_trailer (reread : Str → Option Str) {trailers : JsonText.Metadata}
    (plain : PlainMetadata trailers) :
    Delivered num (.trailer code message trailers)
      (fromRust num reread (.trailer code message trailers)) := by
  refine ⟨_, ?_, jsonToMeta_optional num JsonText.Rust.written plain⟩
  rw [fromRust, JsonText.Rust.protoFrameToJson, Option.bind_some, JsonText.Rust.encodeJsonFrame]
  exact onJsonFrame_status num rfl

theorem go_trailer {trailers : JsonText.Metadata} (plain : PlainMetadata trailers) :
    Delivered num (.trailer code message trailers) (fromGo num (.trailer code message trailers)) := by
  have kept : (JsonText.Go.listToJSONMeta trailers).filter (fun map => decide (map ≠ [])) =
      if JsonText.asciiMap trailers = [] then none else some (JsonText.asciiMap trailers) := by
    unfold JsonText.Go.listToJSONMeta
    split
    · rfl
    · rename_i some
      simp [some]
  refine ⟨_, ?_, jsonToMeta_optional num JsonText.Go.written plain⟩
  rw [fromGo, JsonText.Go.protoFrameToJSON, Option.bind_some, encodeJSONFrame_bare rfl, ← kept]
  exact onJsonFrame_status num rfl

theorem rust_reset (reread : Str → Option Str) :
    Delivered num (.reset code message) (fromRust num reread (.reset code message)) := by
  refine ⟨_, ?_, holds_nil num⟩
  rw [fromRust, JsonText.Rust.protoFrameToJson, Option.bind_some, JsonText.Rust.encodeJsonFrame]
  exact onJsonFrame_status num rfl

theorem go_reset : Delivered num (.reset code message) (fromGo num (.reset code message)) := by
  refine ⟨_, ?_, holds_nil num⟩
  rw [fromGo, JsonText.Go.protoFrameToJSON, Option.bind_some, encodeJSONFrame_bare rfl]
  exact onJsonFrame_status num rfl

end Endings

/-- A frame of either server reaches its handler as it was sent if and only if the
encoder keeps it: `serde_json` reads back a message of at most 127 levels without
unpaired surrogates, Go leaves out the metadata of a header that has none and sends a
message of at most 10000 levels, and the numbers have to come through. -/
theorem frame_delivered_iff (num : Numbers) (reread : Str → Option Str) (frame : ServerFrame)
    (sent : Sent frame) :
    (Delivered num frame (fromRust num reread frame) ↔ RustKeeps num reread frame) ∧
      (Delivered num frame (fromGo num frame) ↔ GoKeeps num frame) := by
  cases frame with
  | header headers =>
      exact ⟨iff_of_true (rust_header num reread sent) trivial, go_header_iff num sent⟩
  | message payload =>
      obtain ⟨t, rfl, distinct⟩ := sent
      have whole : ∀ fired, Delivered num (.message (some t)) fired ↔
          fired = some (.message (t.value (parsed num))) := by
        intro fired
        simp [Delivered]
      rw [whole, whole]
      exact ⟨rust_message_iff num reread distinct, go_message_iff num distinct⟩
  | trailer code message trailers =>
      exact ⟨iff_of_true (rust_trailer num code message reread sent) trivial,
        iff_of_true (go_trailer num code message sent) trivial⟩
  | reset code message =>
      exact ⟨iff_of_true (rust_reset num code message reread) trivial,
        iff_of_true (go_reset num code message) trivial⟩
  | clientOnly => cases sent

theorem traced_header_sent : PlainMetadata [("x-trace".toList, some "7".toList)] := by
  refine ⟨by decide, by decide, ?_⟩
  have lower : ("x-trace".toList.all fun c => c.toLower == c) = true := by decide
  intro entry inside c letter
  cases List.mem_singleton.mp inside
  exact beq_iff_eq.mp (List.all_eq_true.mp lower c letter)

theorem traced_header_delivered :
    Sent (.header [("x-trace".toList, some "7".toList)]) ∧
    ∀ num : Numbers, Delivered num (.header [("x-trace".toList, some "7".toList)])
        (fromGo num (.header [("x-trace".toList, some "7".toList)])) :=
  ⟨traced_header_sent, fun num =>
    (frame_delivered_iff num some (.header [("x-trace".toList, some "7".toList)])
      traced_header_sent).2.mpr (List.cons_ne_nil _ _)⟩

/-- An array in an array, and so on. -/
def nested : Nat → Tree
  | 0 => .array []
  | n + 1 => .array [nested n]

theorem nested_depth (n : Nat) : (nested n).depth = n + 1 := by
  induction n with
  | zero => rfl
  | succ n ih => rw [nested, Tree.depth, Json.depthItems, ih, Json.depthItems, Nat.max_zero]

theorem nested_distinct (n : Nat) : (nested n).Distinct := by
  induction n with
  | zero => trivial
  | succ n ih => exact ⟨ih, trivial⟩

/-- A header without metadata, which Go sends as `{}`, and a message of 128 levels, which
Rust sends as `null`. -/
theorem frames_not_delivered :
    Sent (.header []) ∧ Sent (.message (some (nested 127))) ∧
    (∀ num : Numbers, fromGo num (.header []) = none ∧
      ¬ Delivered num (.header []) (fromGo num (.header []))) ∧
    (∀ (num : Numbers) (reread : Str → Option Str),
      fromRust num reread (.message (some (nested 127))) = some (.message .null) ∧
        ¬ Delivered num (.message (some (nested 127)))
          (fromRust num reread (.message (some (nested 127))))) := by
  have plain : PlainMetadata [] := ⟨by decide, by decide, by decide⟩
  refine ⟨plain, ⟨_, rfl, nested_distinct 127⟩, ?_, ?_⟩
  · intro num
    have lost := (go_header_iff num plain).not.mpr (fun some => some rfl)
    refine ⟨?_, lost⟩
    rw [fromGo, JsonText.Go.protoFrameToJSON, Option.bind_some, encodeJSONFrame_bare rfl]
    exact onJsonFrame_silent num rfl rfl rfl
  · intro num reread
    have unread : JsonText.Rust.readValue reread (nested 127) = none := by
      rw [JsonText.Rust.readValue, nested_depth]
      rfl
    have null : fromRust num reread (.message (some (nested 127))) = some (.message .null) := by
      rw [fromRust_message, Option.bind_some, unread]
      rfl
    refine ⟨null, ?_⟩
    rw [null]
    rintro ⟨t, same, fired⟩
    cases same
    cases fired

end GrpcWebnext.NodeClient
