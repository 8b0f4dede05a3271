import GrpcWebnext.Ws.JsonReading
import GrpcWebnext.Library.Fallible

/-! The two readings of a text frame compared. Each decoder refuses a frame by the types
of its fields; what is left to differ are the spelling of the names and the message. -/
namespace GrpcWebnext.JsonText
open Text (Str)
open Json (Tree Literal lossy_of_text)

section Types

def NullOr (P : Tree → Prop) (t : Tree) : Prop := t = .null ∨ P t

/-- At most one value, of the given type. -/
def Once (P : Tree → Prop) : List Tree → Prop
  | [] => True
  | [value] => P value
  | _ => False

def IsMillis (t : Tree) : Prop := (readU32 t).isSome = true

def IsFlag (t : Tree) : Prop := ∃ b, t = .bool b

/-- A string without an unpaired surrogate. -/
def IsText (t : Tree) : Prop := ∃ literal, t = .string literal ∧ literal.text.isSome = true

def IsString (t : Tree) : Prop := ∃ literal, t = .string literal

/-- An object of texts. -/
def IsMap (t : Tree) : Prop :=
  ∃ fields, t = .object fields ∧ ∀ field ∈ fields, field.1.text.isSome = true ∧ IsText field.2

/-- A message that `serde_json` can read. -/
structure IsMessage (reread : Str → Option Str) (t : Tree) : Prop where
  shallow : t.depth ≤ 126
  numerals : ∀ s ∈ t.numerals, (reread s).isSome = true
  literals : ∀ l ∈ t.literals, l.text.isSome = true

/-- An object with a code, or an array that starts with one. -/
def IsStatus : Tree → Prop
  | .object fields => Rust.keysRead fields = true ∧
      (∃ code, Rust.values "code" fields = [code] ∧ IsMillis code) ∧
      Once IsText (Rust.values "message" fields)
  | .array (code :: rest) => IsMillis code ∧ Once IsText rest
  | _ => False

/-- The types of the five fields of the struct in Rust. -/
structure FieldsTyped (reread : Str → Option Str)
    (metadata timeoutMillis message halfClose status : List Tree) : Prop where
  metadata : Once (NullOr IsMap) metadata
  timeoutMillis : Once (NullOr IsMillis) timeoutMillis
  message : Once (NullOr (IsMessage reread)) message
  halfClose : Once (NullOr IsFlag) halfClose
  status : Once (NullOr IsStatus) status

/-- The frames of the derived struct: an object without a known name twice, or an array. -/
def RustTyped (reread : Str → Option Str) : Tree → Prop
  | .object fields => Rust.keysRead fields = true ∧
      FieldsTyped reread (Rust.values "metadata" fields) (Rust.values "timeoutMillis" fields)
        (Rust.values "message" fields) (Rust.values "halfClose" fields) (Rust.values "status" fields)
  | .array items => items.length ≤ 5 ∧
      FieldsTyped reread (items.take 1) ((items.drop 1).take 1) ((items.drop 2).take 1)
        ((items.drop 3).take 1) (items.drop 4)
  | _ => False

/-- An object of strings, any of which may be `null`. -/
def GoMap (t : Tree) : Prop :=
  ∃ fields, t = .object fields ∧ ∀ field ∈ fields, NullOr IsString field.2

def StatusFieldTyped (field : Literal × Tree) : Prop :=
  match Go.fieldOf Go.statusNames field.1.lossy with
  | some .code => NullOr IsMillis field.2
  | some .message => NullOr IsString field.2
  | none => True

def GoStatus (t : Tree) : Prop := ∃ fields, t = .object fields ∧ ∀ field ∈ fields, StatusFieldTyped field

/-- The types of the fields that Go takes for each field of the struct. -/
structure GoFieldsTyped (fields : List (Literal × Tree)) : Prop where
  metadata : ∀ v ∈ Go.values Go.frameNames .metadata fields, NullOr GoMap v
  timeoutMillis : ∀ v ∈ Go.values Go.frameNames .timeoutMillis fields, NullOr IsMillis v
  halfClose : ∀ v ∈ Go.values Go.frameNames .halfClose fields, NullOr IsFlag v
  status : ∀ v ∈ Go.values Go.frameNames .status fields, NullOr GoStatus v

/-- The frames of the struct in Go: an object whatever its names, or `null`. -/
def GoTyped (t : Tree) : Prop :=
  t.depth ≤ 10000 ∧ match t with
    | .null => True
    | .object fields => GoFieldsTyped fields
    | _ => False

end Types

section Rust
variable {reread : Str → Option Str}

theorem optional_isSome {α : Type} {read : Tree → Option α} {P : Tree → Prop}
    (typed : ∀ t, (read t).isSome = true ↔ P t) (t : Tree) :
    (Rust.optional read t).isSome = true ↔ NullOr P t := by
  cases t with
  | null => simp [Rust.optional, NullOr]
  | bool b | number s | string l | array items | object fields => simp [Rust.optional, NullOr, ← typed]

theorem fieldOr_isSome {α : Type} (default : α) {read : Tree → Option α} {P : Tree → Prop}
    (typed : ∀ t, (read t).isSome = true ↔ P t) (vs : List Tree) :
    (Rust.fieldOr default read vs).isSome = true ↔ Once P vs := by
  match vs with
  | [] => simp [Rust.fieldOr, Once]
  | [v] => exact typed v
  | _ :: _ :: _ => simp [Rust.fieldOr, Once]

theorem readText_isSome (t : Tree) : (Rust.readText t).isSome = true ↔ IsText t := by
  cases t <;> simp [Rust.readText, IsText]

theorem readBool_isSome (t : Tree) : (Rust.readBool t).isSome = true ↔ IsFlag t := by
  cases t <;> simp [Rust.readBool, IsFlag]

theorem readMessage_isSome (t : Tree) :
    (Rust.readMessage reread t).isSome = true ↔ IsMessage reread t := by
  unfold Rust.readMessage
  split
  · rename_i shallow
    rw [Json.rewrite_isSome]
    exact ⟨fun ⟨numerals, literals⟩ => ⟨shallow, numerals, literals⟩,
      fun message => ⟨message.numerals, message.literals⟩⟩
  · rename_i deep
    constructor
    · intro absurdity
      cases absurdity
    · intro message
      exact absurd message.shallow deep

theorem readMap_isSome (t : Tree) : (Rust.readMap t).isSome = true ↔ IsMap t := by
  cases t with
  | object fields =>
      rw [Rust.readMap, Option.isSome_map, Fallible.mapM_isSome_iff]
      have entry : ∀ field : Literal × Tree, (Rust.readEntry field).isSome = true ↔
          field.1.text.isSome = true ∧ IsText field.2 := by
        intro field
        rw [← readText_isSome, Rust.readEntry]
        cases field.1.text <;> simp
      simp only [entry, IsMap, Tree.object.injEq, exists_eq_left']
  | null | bool b | number s | string l | array items => simp [Rust.readMap, IsMap]

theorem required_isSome {α : Type} {read : Tree → Option α} (vs : List Tree) :
    (Rust.required read vs).isSome = true ↔ ∃ v, vs = [v] ∧ (read v).isSome = true := by
  match vs with
  | [] => simp [Rust.required]
  | [v] => simp [Rust.required]
  | _ :: _ :: _ => simp [Rust.required]

theorem readStatus_isSome (t : Tree) : (Rust.readStatus t).isSome = true ↔ IsStatus t := by
  cases t with
  | object fields =>
      rw [Rust.readStatus, IsStatus, ← fieldOr_isSome [] readText_isSome]
      simp only [IsMillis, ← required_isSome]
      cases Rust.keysRead fields with
      | false => simp
      | true =>
          cases Rust.required readU32 (Rust.values "code" fields) with
          | none => simp
          | some code => cases Rust.fieldOr [] Rust.readText (Rust.values "message" fields) <;> simp
  | array items =>
      cases items with
      | nil => simp [Rust.readStatus, IsStatus]
      | cons code rest =>
          rw [Rust.readStatus, IsStatus, ← fieldOr_isSome [] readText_isSome, IsMillis]
          cases readU32 code with
          | none => simp
          | some code => cases Rust.fieldOr [] Rust.readText rest <;> simp
  | null | bool b | number s | string l => simp [Rust.readStatus, IsStatus]

theorem bind_isSome_iff {α β : Type} {x : Option α} {f : α → Option β} {P : Prop}
    (next : ∀ a, (f a).isSome = true ↔ P) : (x.bind f).isSome = true ↔ x.isSome = true ∧ P := by
  cases x with
  | none => simp
  | some a => simp [next]

/-- Five readings in a row succeed if and only if each of them does. -/
theorem readFields_isSome (metadata timeoutMillis message halfClose status : List Tree) :
    (Rust.readFields reread metadata timeoutMillis message halfClose status).isSome = true ↔
      FieldsTyped reread metadata timeoutMillis message halfClose status := by
  have millis : ∀ t, (readU32 t).isSome = true ↔ IsMillis t := fun _ => Iff.rfl
  have messages : ∀ t, (Rust.readMessage reread t).isSome = true ↔ IsMessage reread t := readMessage_isSome
  have all : FieldsTyped reread metadata timeoutMillis message halfClose status ↔
      Once (NullOr IsMap) metadata ∧ Once (NullOr IsMillis) timeoutMillis ∧
        Once (NullOr (IsMessage reread)) message ∧ Once (NullOr IsFlag) halfClose ∧
        Once (NullOr IsStatus) status :=
    ⟨fun typed => ⟨typed.1, typed.2, typed.3, typed.4, typed.5⟩, fun ⟨a, b, c, d, e⟩ => ⟨a, b, c, d, e⟩⟩
  rw [all, ← fieldOr_isSome none (optional_isSome readMap_isSome),
    ← fieldOr_isSome none (optional_isSome millis), ← fieldOr_isSome none (optional_isSome messages),
    ← fieldOr_isSome none (optional_isSome readBool_isSome),
    ← fieldOr_isSome none (optional_isSome readStatus_isSome), Rust.readFields]
  apply bind_isSome_iff
  intro _
  apply bind_isSome_iff
  intro _
  apply bind_isSome_iff
  intro _
  apply bind_isSome_iff
  intro _
  cases Rust.fieldOr none (Rust.optional Rust.readStatus) status <;> simp

theorem rust_isSome_iff (t : Tree) :
    (Rust.decodeJsonFrame reread t).isSome = true ↔ RustTyped reread t := by
  cases t with
  | object fields =>
      rw [Rust.decodeJsonFrame, RustTyped, ← readFields_isSome]
      cases Rust.keysRead fields <;> simp
  | array items =>
      rw [Rust.decodeJsonFrame, RustTyped, ← readFields_isSome]
      by_cases short : items.length ≤ 5 <;> simp [short]
  | null | bool b | number s | string l => simp [Rust.decodeJsonFrame, RustTyped]

end Rust

section Go

theorem foldlM_isSome {σ α : Type} {set : σ → α → Option σ} {P : α → Prop}
    (typed : ∀ s a, (set s a).isSome = true ↔ P a) (l : List α) (s : σ) :
    (l.foldlM set s).isSome = true ↔ ∀ a ∈ l, P a := by
  induction l generalizing s with
  | nil => simp
  | cons a l ih =>
      rw [List.foldlM_cons, List.forall_mem_cons, ← typed s a]
      exact bind_isSome_iff fun s => ih s

theorem setString_isSome (old : Str) (t : Tree) :
    (Go.setString old t).isSome = true ↔ NullOr IsString t := by
  cases t <;> simp [Go.setString, NullOr, IsString]

theorem setUint32_isSome (old : Nat) (t : Tree) :
    (Go.setUint32 old t).isSome = true ↔ NullOr IsMillis t := by
  cases t <;> simp [Go.setUint32, NullOr, IsMillis]

theorem setPointer_isSome {α : Type} {read : Tree → Option α} {P : Tree → Prop}
    (typed : ∀ t, (read t).isSome = true ↔ P t) (old : Option α) (t : Tree) :
    (Go.setPointer read old t).isSome = true ↔ NullOr P t := by
  cases t with
  | null => simp [Go.setPointer, NullOr]
  | bool b | number s | string l | array items | object fields => simp [Go.setPointer, NullOr, ← typed]

theorem setMap_isSome (old : Option (List (Str × Str))) (t : Tree) :
    (Go.setMap old t).isSome = true ↔ NullOr GoMap t := by
  cases t with
  | object fields =>
      have entry : ∀ (map : List (Str × Str)) (field : Literal × Tree),
          (Go.setEntry map field).isSome = true ↔ NullOr IsString field.2 := by
        intro map field
        rw [Go.setEntry, Option.isSome_map, setString_isSome]
      rw [Go.setMap, Option.isSome_map, foldlM_isSome entry]
      simp [NullOr, GoMap]
  | null => simp [Go.setMap, NullOr]
  | bool b | number s | string l | array items => simp [Go.setMap, NullOr, GoMap]

theorem setStatus_isSome (old : Option (Nat × Str)) (t : Tree) :
    (Go.setStatus old t).isSome = true ↔ NullOr GoStatus t := by
  cases t with
  | object fields =>
      have step : ∀ (status : Nat × Str) (field : Literal × Tree),
          (Go.setStatusField status field).isSome = true ↔ StatusFieldTyped field := by
        intro status field
        unfold Go.setStatusField StatusFieldTyped
        cases Go.fieldOf Go.statusNames field.1.lossy with
        | none => simp
        | some named =>
            cases named with
            | code => simp [setUint32_isSome]
            | message => simp [setString_isSome]
      rw [Go.setStatus, Option.isSome_map, foldlM_isSome step]
      simp [NullOr, GoStatus]
  | null => simp [Go.setStatus, NullOr]
  | bool b | number s | string l | array items => simp [Go.setStatus, NullOr, GoStatus]

/-- The five fields of the struct, each set by the values taken for it. -/
def goFields (f : JsonFrame) (fields : List (Literal × Tree)) : Option JsonFrame := do
  let metadata ← (Go.values Go.frameNames .metadata fields).foldlM Go.setMap f.metadata
  let timeoutMillis ← (Go.values Go.frameNames .timeoutMillis fields).foldlM
    (Go.setPointer readU32) f.timeoutMillis
  let message ← (Go.values Go.frameNames .message fields).foldlM Go.setMessage f.message
  let halfClose ← (Go.values Go.frameNames .halfClose fields).foldlM (Go.setPointer Rust.readBool) f.halfClose
  let status ← (Go.values Go.frameNames .status fields).foldlM Go.setStatus f.status
  return ⟨metadata, timeoutMillis, message, halfClose, status⟩

theorem values_cons {F : Type} [DecidableEq F] (names : List (String × F)) (f : F)
    (field : Literal × Tree) (rest : List (Literal × Tree)) :
    Go.values names f (field :: rest) =
      if Go.fieldOf names field.1.lossy = some f then field.2 :: Go.values names f rest
      else Go.values names f rest := by
  simp only [Go.values, List.filterMap_cons]
  split
  · rename_i none
    split at none
    · cases none
    · rename_i other
      rw [if_neg other]
  · rename_i found
    split at found
    · rename_i same
      cases found
      rw [if_pos same]
    · cases found

/-- The fields are set independently of each other. -/
theorem foldlM_setField (fields : List (Literal × Tree)) (f : JsonFrame) :
    fields.foldlM Go.setField f = goFields f fields := by
  induction fields generalizing f with
  | nil => rfl
  | cons field rest ih =>
      rw [List.foldlM_cons]
      simp only [ih]
      cases named : Go.fieldOf Go.frameNames field.1.lossy with
      | none => simp [Go.setField, named, goFields, values_cons]
      | some name =>
          cases name with
          | metadata =>
              simp only [Go.setField, named, goFields, values_cons]
              cases done : Go.setMap f.metadata field.2 <;> simp [done]
          | timeoutMillis =>
              simp only [Go.setField, named, goFields, values_cons]
              cases done : Go.setPointer readU32 f.timeoutMillis field.2 <;> simp [done]
          | message =>
              simp only [Go.setField, named, goFields, values_cons]
              cases done : Go.setMessage f.message field.2 <;> simp [done]
          | halfClose =>
              simp only [Go.setField, named, goFields, values_cons]
              cases done : Go.setPointer Rust.readBool f.halfClose field.2 <;> simp [done]
          | status =>
              simp only [Go.setField, named, goFields, values_cons]
              cases done : Go.setStatus f.status field.2 <;> simp [done]

theorem goFields_isSome (f : JsonFrame) (fields : List (Literal × Tree)) :
    (goFields f fields).isSome = true ↔ GoFieldsTyped fields := by
  have millis : ∀ t, (readU32 t).isSome = true ↔ IsMillis t := fun _ => Iff.rfl
  have any : ∀ (old : Option Tree) (t : Tree), (Go.setMessage old t).isSome = true ↔ True := by
    intro old t
    simp [Go.setMessage]
  have all : GoFieldsTyped fields ↔
      (∀ v ∈ Go.values Go.frameNames .metadata fields, NullOr GoMap v) ∧
      (∀ v ∈ Go.values Go.frameNames .timeoutMillis fields, NullOr IsMillis v) ∧
      (∀ v ∈ Go.values Go.frameNames .message fields, True) ∧
      (∀ v ∈ Go.values Go.frameNames .halfClose fields, NullOr IsFlag v) ∧
      (∀ v ∈ Go.values Go.frameNames .status fields, NullOr GoStatus v) :=
    ⟨fun typed => ⟨typed.1, typed.2, fun _ _ => trivial, typed.3, typed.4⟩,
      fun ⟨a, b, _, c, d⟩ => ⟨a, b, c, d⟩⟩
  rw [all, ← foldlM_isSome setMap_isSome _ f.metadata,
    ← foldlM_isSome (setPointer_isSome millis) _ f.timeoutMillis, ← foldlM_isSome any _ f.message,
    ← foldlM_isSome (setPointer_isSome readBool_isSome) _ f.halfClose,
    ← foldlM_isSome setStatus_isSome _ f.status, goFields]
  apply bind_isSome_iff
  intro _
  apply bind_isSome_iff
  intro _
  apply bind_isSome_iff
  intro _
  apply bind_isSome_iff
  intro _
  cases (Go.values Go.frameNames .status fields).foldlM Go.setStatus f.status <;> simp

theorem go_isSome_iff (t : Tree) : (Go.decodeJSONFrame t).isSome = true ↔ GoTyped t := by
  unfold Go.decodeJSONFrame GoTyped
  by_cases shallow : t.depth ≤ 10000
  · rw [if_pos shallow, and_iff_right shallow]
    cases t with
    | object fields =>
        have set := goFields_isSome .empty fields
        rw [← foldlM_setField] at set
        exact set
    | null | bool b | number s | string l | array items => simp
  · rw [if_neg shallow]
    simp [shallow]

end Go

def Go.Field.name : Go.Field → String
  | .metadata => "metadata"
  | .timeoutMillis => "timeoutMillis"
  | .message => "message"
  | .halfClose => "halfClose"
  | .status => "status"

def Go.StatusField.name : Go.StatusField → String
  | .code => "code"
  | .message => "message"

/-- No name is taken for a field by its letters in another case. -/
def WellSpelt {F : Type} (names : List (String × F)) (name : F → String)
    (fields : List (Literal × Tree)) : Prop :=
  ∀ field ∈ fields, ∀ f, Go.fieldOf names field.1.lossy = some f → field.1.lossy = (name f).toList

section Values

/-- Under names that are read and well spelt, both take the same values for a field. -/
theorem values_alike {F : Type} [DecidableEq F] {names : List (String × F)} {name : F → String}
    {fields : List (Literal × Tree)} (keys : Rust.keysRead fields = true)
    (spelt : WellSpelt names name fields) (own : ∀ f, Go.fieldOf names (name f).toList = some f) (f : F) :
    Go.values names f fields = Rust.values (name f) fields := by
  apply List.filterMap_congr
  intro field inside
  obtain ⟨text, read⟩ := Option.isSome_iff_exists.mp (List.all_eq_true.mp keys field inside)
  have same : Go.fieldOf names field.1.lossy = some f ↔ field.1.text = some (name f).toList := by
    rw [read, Option.some.injEq]
    constructor
    · intro taken
      rw [← lossy_of_text read]
      exact spelt field inside f taken
    · intro named
      rw [lossy_of_text read, named, own f]
  simp only [same]

theorem setEntry_all {fields : List (Literal × Tree)}
    (texts : ∀ field ∈ fields, field.1.text.isSome = true ∧ IsText field.2) (map : List (Str × Str)) :
    fields.foldlM Go.setEntry map = (fields.mapM Rust.readEntry).map (OrderedMap.insertAll map) := by
  induction fields generalizing map with
  | nil => rfl
  | cons field rest ih =>
      obtain ⟨⟨key, value⟩, later⟩ := List.forall_mem_cons.mp texts
      obtain ⟨name, named⟩ := Option.isSome_iff_exists.mp key
      obtain ⟨literal, string, text⟩ := value
      obtain ⟨content, read⟩ := Option.isSome_iff_exists.mp text
      have here : Go.setEntry map field = some (OrderedMap.insert name content map) := by
        rw [Go.setEntry, string, Go.setString, lossy_of_text named, lossy_of_text read]
        rfl
      have entry : Rust.readEntry field = some (name, content) := by
        rw [Rust.readEntry, named, string, Rust.readText, read]
        rfl
      rw [List.foldlM_cons, List.mapM_cons, here, entry, Option.bind_eq_bind, Option.bind_some, ih later]
      cases rest.mapM Rust.readEntry <;> rfl

theorem metadata_alike {vs : List Tree} (typed : Once (NullOr IsMap) vs) :
    vs.foldlM Go.setMap none = Rust.fieldOr none (Rust.optional Rust.readMap) vs := by
  match vs, typed with
  | [], _ => rfl
  | [v], typed =>
      rcases typed with rfl | ⟨fields, rfl, texts⟩
      · rfl
      · have filled := setEntry_all texts []
        simp only [List.foldlM_cons, List.foldlM_nil, Go.setMap, Option.getD_none, filled, Rust.fieldOr,
          Rust.optional, Rust.readMap]
        cases fields.mapM Rust.readEntry <;> rfl

theorem pointer_alike {α : Type} {read : Tree → Option α} {P : Tree → Prop} {vs : List Tree}
    (typed : Once P vs) :
    vs.foldlM (Go.setPointer read) none = Rust.fieldOr none (Rust.optional read) vs := by
  match vs, typed with
  | [], _ => rfl
  | [v], _ =>
      simp only [List.foldlM_cons, List.foldlM_nil, Rust.fieldOr]
      cases v <;> simp [Go.setPointer, Rust.optional]

/-- The two fields of a status are set independently of each other. -/
theorem foldlM_setStatusField (fields : List (Literal × Tree)) (status : Nat × Str) :
    fields.foldlM Go.setStatusField status =
      ((Go.values Go.statusNames .code fields).foldlM Go.setUint32 status.1).bind fun code =>
        ((Go.values Go.statusNames .message fields).foldlM Go.setString status.2).map fun message =>
          (code, message) := by
  induction fields generalizing status with
  | nil => rfl
  | cons field rest ih =>
      rw [List.foldlM_cons]
      simp only [ih]
      cases named : Go.fieldOf Go.statusNames field.1.lossy with
      | none => simp [Go.setStatusField, named, values_cons]
      | some name =>
          cases name with
          | code =>
              simp only [Go.setStatusField, named, values_cons]
              cases done : Go.setUint32 status.1 field.2 <;> simp [done]
          | message =>
              simp only [Go.setStatusField, named, values_cons]
              cases done : Go.setString status.2 field.2 <;> simp [done]

theorem text_alike {vs : List Tree} (typed : Once IsText vs) :
    vs.foldlM Go.setString [] = Rust.fieldOr [] Rust.readText vs := by
  match vs, typed with
  | [], _ => rfl
  | [v], typed =>
      obtain ⟨literal, rfl, text⟩ := typed
      obtain ⟨content, read⟩ := Option.isSome_iff_exists.mp text
      simp [Go.setString, Rust.fieldOr, Rust.readText, read, lossy_of_text read]

theorem status_object_alike {fields : List (Literal × Tree)} (typed : IsStatus (.object fields))
    (spelt : WellSpelt Go.statusNames Go.StatusField.name fields) :
    fields.foldlM Go.setStatusField (0, []) = Rust.readStatus (.object fields) := by
  obtain ⟨keys, ⟨code, one, millis⟩, message⟩ := typed
  have own : ∀ f : Go.StatusField, Go.fieldOf Go.statusNames f.name.toList = some f := by
    intro f
    cases f <;> decide
  have codes : Go.values Go.statusNames .code fields = [code] :=
    (values_alike keys spelt own .code).trans one
  have messages : Go.values Go.statusNames .message fields = Rust.values "message" fields :=
    values_alike keys spelt own .message
  have number : Go.setUint32 0 code = readU32 code := by
    cases code with
    | null => cases millis
    | bool b | number s | string l | array items | object fields => rfl
  rw [foldlM_setStatusField, codes, messages, text_alike message, Rust.readStatus, keys, if_pos rfl, one]
  simp only [List.foldlM_cons, List.foldlM_nil, number, Rust.required]
  cases readU32 code with
  | none => rfl
  | some code => cases Rust.fieldOr [] Rust.readText (Rust.values "message" fields) <;> rfl

theorem status_alike {vs : List Tree} (typed : Once (NullOr IsStatus) vs)
    (objects : ∀ v ∈ vs, NullOr GoStatus v)
    (spelt : ∀ fields, .object fields ∈ vs → WellSpelt Go.statusNames Go.StatusField.name fields) :
    vs.foldlM Go.setStatus none = Rust.fieldOr none (Rust.optional Rust.readStatus) vs := by
  match vs, typed with
  | [], _ => rfl
  | [v], typed =>
      rcases objects v List.mem_cons_self with rfl | ⟨fields, rfl, _⟩
      · rfl
      · have status : IsStatus (.object fields) := typed.resolve_left (by intro null; cases null)
        have same := status_object_alike status (spelt fields List.mem_cons_self)
        simp only [List.foldlM_cons, List.foldlM_nil, Go.setStatus, Option.getD_none, same, Rust.fieldOr,
          Rust.optional]
        cases Rust.readStatus (.object fields) <;> rfl

/-- The message text is there and comes through as it is, or there is none. -/
def MessageKept (reread : Str → Option Str) (vs : List Tree) : Prop :=
  ∀ v ∈ vs, v ≠ .null ∧ Json.Canonical reread Rust.written v

theorem message_alike {reread : Str → Option Str} {vs : List Tree}
    (typed : Once (NullOr (IsMessage reread)) vs) :
    ∃ message raw, Rust.fieldOr none (Rust.optional (Rust.readMessage reread)) vs = some message ∧
      vs.foldlM Go.setMessage none = some raw ∧ (message = raw ↔ MessageKept reread vs) := by
  match vs, typed with
  | [], _ => exact ⟨none, none, rfl, rfl, by simp [MessageKept]⟩
  | [v], typed =>
      by_cases null : v = .null
      · subst null
        exact ⟨none, some .null, rfl, rfl, by simp [MessageKept]⟩
      · have message : IsMessage reread v := typed.resolve_left null
        have read : (Rust.readMessage reread v) = v.rewrite reread Rust.written := if_pos message.shallow
        obtain ⟨new, done⟩ := Option.isSome_iff_exists.mp ((readMessage_isSome v).mpr message)
        have optional : Rust.optional (Rust.readMessage reread) v = some (some new) := by
          cases v with
          | null => exact absurd rfl null
          | bool b | number s | string l | array items | object fields =>
              simp only [Rust.optional, done, Option.map_some]
        refine ⟨some new, some v, optional, rfl, ?_⟩
        rw [Option.some.injEq, MessageKept, List.forall_mem_singleton, and_iff_right null,
          ← Json.rewrite_eq_self, ← read, done, Option.some.injEq]

end Values

section Frames
variable {reread : Str → Option Str}

/-- The names of a frame, and those of its status, are spelt as the struct has them or
are not near to any. -/
def SpeltOut : Tree → Prop
  | .object fields => WellSpelt Go.frameNames Go.Field.name fields ∧
      ∀ status, .object status ∈ Rust.values "status" fields →
        WellSpelt Go.statusNames Go.StatusField.name status
  | _ => True

/-- A later frame that is a reset or a half-close whatever its message is. -/
def Outranked (fields : List (Literal × Tree)) : Prop :=
  (∃ v ∈ Rust.values "status" fields, v ≠ .null) ∨ Rust.values "halfClose" fields = [.bool true]

theorem status_there {vs : List Tree} {status : Option (Nat × Str)}
    (read : Rust.fieldOr none (Rust.optional Rust.readStatus) vs = some status) :
    status.isSome = true ↔ ∃ v ∈ vs, v ≠ .null := by
  match vs with
  | [] =>
      cases read
      simp
  | [v] =>
      by_cases null : v = .null
      · subst null
        cases read
        simp
      · have some_read : Rust.optional Rust.readStatus v = (Rust.readStatus v).map some := by
          cases v with
          | null => exact absurd rfl null
          | bool b | number s | string l | array items | object fields => rfl
        rw [Rust.fieldOr, some_read] at read
        obtain ⟨value, _, rfl⟩ := Option.map_eq_some_iff.mp read
        simp [null]

theorem halfClose_there {vs : List Tree} {halfClose : Option Bool}
    (read : Rust.fieldOr none (Rust.optional Rust.readBool) vs = some halfClose) :
    halfClose = some true ↔ vs = [.bool true] := by
  match vs with
  | [] =>
      cases read
      simp
  | [v] =>
      cases v with
      | bool b =>
          cases read
          simp
      | null =>
          cases read
          simp
      | number s | string l | array items | object fields => cases read

/-- Frames that both read, under well spelt names, differ in the message alone. -/
theorem decoded_alike {fields : List (Literal × Tree)} (rust : RustTyped reread (.object fields))
    (go : GoTyped (.object fields)) (spelt : SpeltOut (.object fields)) :
    ∃ (f : JsonFrame) (message raw : Option Tree),
      Rust.decodeJsonFrame reread (.object fields) = some { f with message := message } ∧
      Go.decodeJSONFrame (.object fields) = some { f with message := raw } ∧
      (message = raw ↔ MessageKept reread (Rust.values "message" fields)) ∧
      (f.status.isSome = true ∨ f.halfClose = some true ↔ Outranked fields) := by
  obtain ⟨keys, typed⟩ := rust
  obtain ⟨shallow, taken⟩ := go
  obtain ⟨names, statusSpelt⟩ := spelt
  have own : ∀ f : Go.Field, Go.fieldOf Go.frameNames f.name.toList = some f := by
    intro f
    cases f <;> decide
  have same := values_alike keys names own
  have millis : ∀ t, (readU32 t).isSome = true ↔ IsMillis t := fun _ => Iff.rfl
  obtain ⟨metadata, hmetadata⟩ := Option.isSome_iff_exists.mp
    ((fieldOr_isSome none (optional_isSome readMap_isSome) _).mpr typed.metadata)
  obtain ⟨timeoutMillis, htimeout⟩ := Option.isSome_iff_exists.mp
    ((fieldOr_isSome none (optional_isSome millis) _).mpr typed.timeoutMillis)
  obtain ⟨message, raw, hmessage, hraw, kept⟩ := message_alike typed.message
  obtain ⟨halfClose, hhalf⟩ := Option.isSome_iff_exists.mp
    ((fieldOr_isSome none (optional_isSome readBool_isSome) _).mpr typed.halfClose)
  obtain ⟨status, hstatus⟩ := Option.isSome_iff_exists.mp
    ((fieldOr_isSome none (optional_isSome readStatus_isSome) _).mpr typed.status)
  have objects := taken.status
  rw [same .status] at objects
  refine ⟨⟨metadata, timeoutMillis, none, halfClose, status⟩, message, raw, ?_, ?_, kept, ?_⟩
  · rw [Rust.decodeJsonFrame, keys, if_pos rfl, Rust.readFields, hmetadata, htimeout, hmessage,
      hhalf, hstatus]
    rfl
  · rw [Go.decodeJSONFrame, if_pos shallow]
    rw [foldlM_setField, goFields, same, same, same, same, same]
    simp only [Go.Field.name, JsonFrame.empty]
    rw [metadata_alike typed.metadata, pointer_alike typed.timeoutMillis, hraw,
      pointer_alike typed.halfClose, status_alike typed.status objects statusSpelt,
      hmetadata, htimeout, hhalf, hstatus]
    rfl
  · rw [status_there hstatus, halfClose_there hhalf, Outranked]

/-- What a message can change of a frame that is read. -/
theorem message_matters (f : JsonFrame) (message raw : Option Tree) (opened : Bool) :
    ((if opened then jsonFrameToProto { f with message := message }
        else jsonOpenToSubscribe { f with message := message }) =
      (if opened then jsonFrameToProto { f with message := raw }
        else jsonOpenToSubscribe { f with message := raw })) ↔
      (opened = true ∧ (f.status.isSome = true ∨ f.halfClose = some true)) ∨ message = raw := by
  cases opened with
  | false => simp [jsonOpenToSubscribe]
  | true =>
      cases f.status with
      | some status => simp [jsonFrameToProto]
      | none =>
          by_cases half : f.halfClose = some true
          · simp [jsonFrameToProto, half]
          · cases message <;> cases raw <;> simp [jsonFrameToProto, half]

/-- When the message of a frame that both read is either not looked at or kept. -/
def MessageAlike (reread : Str → Option Str) (opened : Bool) : Tree → Prop
  | .object fields => (opened = true ∧ Outranked fields) ∨ MessageKept reread (Rust.values "message" fields)
  | _ => True

/-- Both refuse the frame by its types; or both take it, its names are spelt out, and its
message comes through. -/
def ReadAlike (reread : Str → Option Str) (opened : Bool) (t : Tree) : Prop :=
  (¬ RustTyped reread t ∧ ¬ GoTyped t) ∨
    (RustTyped reread t ∧ GoTyped t ∧ SpeltOut t ∧ MessageAlike reread opened t)

theorem object_of_typed {t : Tree} (rust : RustTyped reread t) (go : GoTyped t) :
    ∃ fields, t = .object fields := by
  cases t with
  | object fields => exact ⟨fields, rfl⟩
  | array items => exact absurd go.2 id
  | null | bool b | number s | string l => exact absurd rust id

theorem read_iff {t : Tree} (rust : RustTyped reread t) (go : GoTyped t) (spelt : SpeltOut t)
    (opened : Bool) :
    decodeText (Rust.decodeJsonFrame reread) opened (some t) =
        decodeText Go.decodeJSONFrame opened (some t) ↔ MessageAlike reread opened t := by
  obtain ⟨fields, rfl⟩ := object_of_typed rust go
  obtain ⟨f, message, raw, inRust, inGo, kept, outranked⟩ := decoded_alike rust go spelt
  have matters := message_matters f message raw opened
  rw [kept, outranked] at matters
  rw [decodeText, decodeText, Option.bind_some, Option.bind_some, inRust, inGo, Option.map_some,
    Option.map_some, Option.some.injEq]
  exact matters

theorem refused_iff (decode : Tree → Option JsonFrame) (opened : Bool) (t : Tree) :
    decodeText decode opened (some t) = none ↔ ¬ (decode t).isSome = true := by
  simp [decodeText]

/-- The two servers read the frames that meet the condition alike, and of the frames
whose names are spelt out no others. -/
theorem frames_read_alike (reread : Str → Option Str) (opened : Bool) (text : Option Tree) :
    ((∀ t, text = some t → ReadAlike reread opened t) →
      decodeText (Rust.decodeJsonFrame reread) opened text = decodeText Go.decodeJSONFrame opened text) ∧
    ((∀ t, text = some t → SpeltOut t) →
      decodeText (Rust.decodeJsonFrame reread) opened text = decodeText Go.decodeJSONFrame opened text →
      ∀ t, text = some t → ReadAlike reread opened t) := by
  cases text with
  | none => exact ⟨fun _ => rfl, fun _ _ t there => by cases there⟩
  | some t =>
      have rustRefuses := refused_iff (Rust.decodeJsonFrame reread) opened t
      have goRefuses := refused_iff Go.decodeJSONFrame opened t
      rw [rust_isSome_iff] at rustRefuses
      rw [go_isSome_iff] at goRefuses
      constructor
      · intro condition
        rcases condition t rfl with ⟨noRust, noGo⟩ | ⟨rust, go, spelt, message⟩
        · rw [rustRefuses.mpr noRust, goRefuses.mpr noGo]
        · exact (read_iff rust go spelt opened).mpr message
      · intro spelt same there found
        cases found
        -- one that refuses alone is the only way to differ in the types
        by_cases rust : RustTyped reread t
        · have go : GoTyped t := by
            by_contra noGo
            exact rustRefuses.mp (same.trans (goRefuses.mpr noGo)) rust
          exact .inr ⟨rust, go, spelt t rfl, (read_iff rust go (spelt t rfl) opened).mp same⟩
        · exact .inl ⟨rust, goRefuses.mp (same.symm.trans (rustRefuses.mpr rust))⟩

/-- A frame of one field. -/
def only (name : String) (value : Tree) : Tree := .object (field Rust.written name (some value))

/-- A later frame that both take for the same message. -/
theorem message_read_alike :
    ReadAlike some true (only "message" (.bool true)) ∧
    decodeText (Rust.decodeJsonFrame some) true (some (only "message" (.bool true))) =
      decodeText Go.decodeJSONFrame true (some (only "message" (.bool true))) := by
  have canonical : Json.Canonical some Rust.written (.bool true) :=
    ⟨by simp [Tree.numerals], by simp [Tree.literals], trivial⟩
  have rust : RustTyped some (only "message" (.bool true)) := (rust_isSome_iff _).mp rfl
  have go : GoTyped (only "message" (.bool true)) := (go_isSome_iff _).mp rfl
  have spelt : SpeltOut (only "message" (.bool true)) := by
    constructor
    · intro named inside f taken
      cases List.mem_singleton.mp inside
      cases (show some Go.Field.message = some f from taken)
      rfl
    · intro status inside
      exact absurd (show .object status ∈ ([] : List Tree) from inside) List.not_mem_nil
  have kept : MessageKept some
    (Rust.values "message" (field Rust.written "message" (some (.bool true)))) := by
    intro v inside
    cases List.mem_singleton.mp inside
    exact ⟨by simp, canonical⟩
  have condition : ReadAlike some true (only "message" (.bool true)) := .inr ⟨rust, go, spelt, .inr kept⟩
  refine ⟨condition, (frames_read_alike some true _).1 ?_⟩
  intro t found
  cases found
  exact condition

/-- A `null` for the message, and a name with a capital letter: half-closes in Rust and
messages in Go. -/
theorem frames_read_apart :
    decodeText (Rust.decodeJsonFrame some) true (some (only "message" .null)) = some .halfClose ∧
    decodeText Go.decodeJSONFrame true (some (only "message" .null)) = some (.message .null) ∧
    decodeText (Rust.decodeJsonFrame some) true (some (only "Message" (.bool true))) = some .halfClose ∧
    decodeText Go.decodeJSONFrame true (some (only "Message" (.bool true))) =
      some (.message (.bool true)) ∧
    ¬ ∀ (opened : Bool) (text : Option Tree),
      decodeText (Rust.decodeJsonFrame some) opened text = decodeText Go.decodeJSONFrame opened text := by
  have inRust : decodeText (Rust.decodeJsonFrame some) true (some (only "message" .null)) =
    some .halfClose := rfl
  have inGo : decodeText Go.decodeJSONFrame true (some (only "message" .null)) = some (.message .null) := rfl
  refine ⟨inRust, inGo, rfl, rfl, ?_⟩
  intro alike
  have same := alike true (some (only "message" .null))
  rw [inRust, inGo] at same
  cases same

end Frames

end GrpcWebnext.JsonText
