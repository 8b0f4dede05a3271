import GrpcWebnext.MetadataParity.Dispatched
import GrpcWebnext.NodeClient.Download
import GrpcWebnext.NodeClient.MetadataHeaders
import GrpcWebnext.NodeClient.Upload

/-! The metadata of a stream in both directions: from the caller through the open frame to the
headers of the backend's request, and from the headers and trailers of the response through
the frames of either server back to the handlers. -/
namespace GrpcWebnext.NodeClient.SingleStream
open Framing (Bytes)
open Text (Str)
open Ws (Kind encodeFrame)
open MetadataForm (LowerCase)
open Dispatched (IsToken lowerName)

section Forms
variable {js : LowerCase} {md : MetadataForm.Metadata js}

/-- `Metadata.toMetadatumList`. -/
def toMetadatumList (md : MetadataForm.Metadata js) : List Ts.Metadatum :=
  md.map.flatMap fun (key, values) => values.map fun
    | .ascii value => ⟨key, some value, none⟩
    | .bin value => ⟨key, none, some value⟩

/-- A value as a server has it, in a header, and as the handlers hear it. -/
def metaValue : MetadataForm.MetadataValue → MetaValue
  | .ascii value => .ascii (Utf8.encode value)
  | .bin value => .bin value

def wire : MetadataForm.MetadataValue → Bytes
  | .ascii value => Utf8.encode value
  | .bin value => Base64.encode value

def toldValue : MetadataForm.MetadataValue → MetadataValue
  | .ascii value => .text value
  | .bin value => .binary value

/-- What an entry of a frame adds. -/
def added (m : Ts.Metadatum) : Option MetadataForm.MetadataValue :=
  match m.binValue, m.asciiValue with
  | some value, _ => some (.bin value)
  | none, some value => some (.ascii value)
  | none, none => none

/-- `get`, of the metadata that the handlers hear. -/
def getHeard (js : LowerCase) (heard : Metadata) (key : Str) : List MetadataValue :=
  ((heard.find? fun entry => entry.1 = js.lower key).map Prod.snd).getD []

/-- Metadata as gRPC has it: header tokens for names, that are not denied, bytes under the
`-bin` names, and printable ASCII under the others. -/
structure Sendable (md : MetadataForm.Metadata js) : Prop where
  token : ∀ entry ∈ md.map, IsToken entry.1
  short : ∀ entry ∈ md.map, entry.1.length ≤ Rust.maxHeaderNameLen
  allowed : ∀ entry ∈ md.map, Go.isDeniedHeader entry.1 = false
  ascii : ∀ entry ∈ md.map, ∀ value, .ascii value ∈ entry.2 →
    isBinKey entry.1 = false ∧ ∀ c ∈ value, 32 ≤ c.toNat ∧ c.toNat < 127
  bin : ∀ entry ∈ md.map, ∀ value, .bin value ∈ entry.2 → isBinKey entry.1 = true

theorem serverMetadata_toMetadatumList (md : MetadataForm.Metadata js) :
    (toMetadatumList md).map serverMetadatum =
      md.map.flatMap fun (key, values) => values.map fun v => ⟨key, some (metaValue v)⟩ := by
  rw [toMetadatumList, List.map_flatMap]
  refine List.flatMap_congr fun entry _ => ?_
  obtain ⟨key, values⟩ := entry
  dsimp only
  rw [List.map_map]
  refine List.map_congr_left fun v _ => ?_
  cases v <;> rfl

theorem valuesOf_entry (key other : Str) (values : List MetadataForm.MetadataValue) :
    GrpcWebnext.valuesOf key (values.map fun v => ⟨other, some (metaValue v)⟩) =
      if other = key then values.map fun v => some (metaValue v) else [] := by
  by_cases same : other = key
  · simp [GrpcWebnext.valuesOf, List.filter_map, Function.comp_def, same]
  · simp [GrpcWebnext.valuesOf, List.filter_map, Function.comp_def, same]

theorem valuesOf_flatMap (key : Str) {map : List (Str × List MetadataForm.MetadataValue)}
    (distinct : (map.map Prod.fst).Nodup) :
    GrpcWebnext.valuesOf key (map.flatMap fun (key, values) => values.map fun v =>
      ⟨key, some (metaValue v)⟩) =
      (MetadataForm.valuesOf key map).map fun v => some (metaValue v) := by
  induction map with
  | nil => rfl
  | cons entry rest ih =>
      obtain ⟨other, values⟩ := entry
      rw [List.map_cons, List.nodup_cons] at distinct
      have first := valuesOf_entry key other values
      have others := ih distinct.2
      rw [GrpcWebnext.valuesOf] at first others ⊢
      rw [List.flatMap_cons, List.filter_append, List.map_append, first, others, MetadataForm.valuesOf]
      by_cases same : other = key
      · rw [if_pos same, if_pos same]
        have absent : MetadataForm.valuesOf key rest = [] :=
          MetadataForm.valuesOf_of_notMem (same ▸ distinct.1)
        rw [absent, List.map_nil, List.append_nil]
      · rw [if_neg same, if_neg same, List.nil_append]

/-- Printable ASCII is its own encoding. -/
theorem visible_encode {value : Str} (visible : ∀ c ∈ value, 32 ≤ c.toNat ∧ c.toNat < 127) :
    ∀ b ∈ Utf8.encode value, 32 ≤ b ∧ b < 127 := by
  intro b inside
  obtain ⟨c, listed, member⟩ := List.mem_flatMap.mp inside
  obtain ⟨low, high⟩ := visible c listed
  have one : String.utf8EncodeChar c = [c.val.toNat.toUInt8] := by
    unfold String.utf8EncodeChar
    exact if_pos (Nat.le_of_lt_succ (high.trans (by decide)))
  rw [one, List.mem_singleton] at member
  subst member
  change 32 ≤ c.val.toNat at low
  change c.val.toNat < 127 at high
  rw [UInt8.le_iff_toNat_le, UInt8.lt_iff_toNat_lt, UInt8.toNat_ofNat_of_lt' (high.trans (by decide))]
  exact ⟨low, high⟩

/-- The values of a key among the entries of a frame. -/
theorem valuesOf_toMetadatumList (md : MetadataForm.Metadata js) (key : Str) :
    GrpcWebnext.valuesOf key ((toMetadatumList md).map serverMetadatum) =
      (MetadataForm.valuesOf key md.map).map fun v => some (metaValue v) := by
  rw [serverMetadata_toMetadatumList]
  exact valuesOf_flatMap key md.distinct

theorem wellFormed (sendable : Sendable md) : ∀ m ∈ (toMetadatumList md).map serverMetadatum,
    m.WellFormed Go.isDeniedHeader ∧ m.key.length ≤ Rust.maxHeaderNameLen := by
  intro m inside
  rw [serverMetadata_toMetadatumList] at inside
  obtain ⟨⟨key, values⟩, entered, inside⟩ := List.mem_flatMap.mp inside
  obtain ⟨v, listed, rfl⟩ := List.mem_map.mp inside
  have token := sendable.token _ entered
  have spelled : ∀ c ∈ key, c.toLower = c := by
    obtain ⟨source, same⟩ := md.normalized key (List.mem_map_of_mem entered)
    exact same ▸ js.lowered source
  refine ⟨⟨token.1, fun c member => ⟨token.2 c member, spelled c member⟩, sendable.allowed _ entered, ?_⟩,
    sendable.short _ entered⟩
  cases v with
  | bin value => exact sendable.bin _ entered value listed
  | ascii value =>
      obtain ⟨plain, visible⟩ := sendable.ascii _ entered value listed
      exact ⟨plain, visible_encode visible⟩

end Forms

section Requests
variable {js : LowerCase} {md : MetadataForm.Metadata js}

def lowered (headers : HeaderMap) : HeaderMap := headers.map fun (name, value) => (lowerName name, value)

/-- The headers have under a key what the metadata has. -/
def Carries (md : MetadataForm.Metadata js) (key : Str) (headers : HeaderMap) : Prop :=
  valuesAt (js.lower key) (lowered headers) = (md.get key).map wire

/-- A name that the servers do not set themselves. -/
def Unreserved (name : Str) : Prop := ∀ own ∈ Dispatched.reserved, name ≠ own.toList

theorem valuesAt_own {kept : HeaderMap} {spelled : String → Str} {timeout : Option Bytes} {name : Str}
    (names : ∀ own ∈ Dispatched.reserved, lowerName (spelled own) = own.toList) (free : Unreserved name) :
    valuesAt name (lowered (kept ++ Dispatched.own spelled timeout)) = valuesAt name (lowered kept) := by
  have absent : (lowered (Dispatched.own spelled timeout)).filter (fun e => e.1 = name) = [] := by
    rw [List.filter_eq_nil_iff]
    intro entry inside
    obtain ⟨source, member, rfl⟩ := List.mem_map.mp inside
    obtain ⟨⟨own, listed, same⟩, -⟩ := Dispatched.mem_own member
    rw [decide_eq_true_eq]
    intro found
    refine free own listed ?_
    rw [← names own listed, ← same]
    exact found.symm
  rw [lowered, List.map_append, valuesAt, List.filter_append]
  rw [lowered] at absent
  rw [absent, List.append_nil]
  rfl

theorem valuesAt_wires (name : Str) (items : List Metadatum) :
    valuesAt name (items.map fun m => (m.key, m.wire)) =
      (GrpcWebnext.valuesOf name items).map fun value => (⟨[], value⟩ : Metadatum).wire := by
  simp only [valuesAt, GrpcWebnext.valuesOf, List.filter_map, List.map_map]
  rfl

/-- The entries of a frame, each as a header. -/
theorem carries_wires {headers : HeaderMap} (same : lowered headers =
    ((toMetadatumList md).map serverMetadatum).map fun m => (m.key, m.wire)) (key :
    Str) : Carries md key headers := by
  rw [Carries, same, valuesAt_wires, valuesOf_toMetadatumList, List.map_map]
  refine List.map_congr_left fun v _ => ?_
  cases v <;> rfl

theorem rust_allowed {m : Metadatum} (formed : m.WellFormed Go.isDeniedHeader) : m.WellFormed Rust.isDenied :=
  { formed with allowed := (Bool.or_eq_false_iff.mp formed.allowed).2 }

theorem filterMap_wires {entry : Metadatum → Option (Str × Bytes)} {items : List Metadatum}
    (carried : ∀ m ∈ items, entry m = some (m.key, m.wire)) :
    items.filterMap entry = items.map fun m => (m.key, m.wire) :=
  (List.filterMap_congr carried).trans (congrFun List.filterMap_eq_map items)

/-- Whatever the spelling of a name, lowered it is the key. -/
theorem lowered_named {items : List Metadatum} {name : Metadatum → Str}
    (plain : ∀ m ∈ items, lowerName (name m) = m.key) :
    lowered (items.map fun m => (name m, m.wire)) = items.map fun m => (m.key, m.wire) := by
  rw [lowered, List.map_map]
  exact List.map_congr_left fun m inside => congrArg (·, m.wire) (plain m inside)

theorem rust_kept [Rust.Crates] (sendable : Sendable md) :
    lowered (Rust.metadataVecToMetadata ((toMetadatumList md).map serverMetadatum)) =
      ((toMetadatumList md).map serverMetadatum).map fun m => (m.key, m.wire) := by
  have all : Rust.metadataVecToMetadata ((toMetadatumList md).map serverMetadatum) =
      ((toMetadatumList md).map serverMetadatum).map fun m => (m.key, m.wire) := by
    refine filterMap_wires fun m inside => ?_
    obtain ⟨formed, short⟩ := wellFormed sendable m inside
    exact (rust_carries (rust_allowed formed) short).1
  rw [all]
  exact lowered_named fun m inside => (wellFormed sendable m inside).1.lower

theorem go_kept (lowering : Lowering) (sendable : Sendable md) :
    lowered (Go.metadataListToHeaders lowering ((toMetadatumList md).map serverMetadatum)) =
      ((toMetadatumList md).map serverMetadatum).map fun m => (m.key, m.wire) := by
  have all : ((toMetadatumList md).map serverMetadatum).filterMap (Go.added lowering) =
      ((toMetadatumList md).map serverMetadatum).map fun m => (m.key, m.wire) :=
    filterMap_wires fun m inside => (go_carries (wellFormed sendable m inside).1 lowering).1
  rw [Go.metadataListToHeaders, all, List.map_map]
  refine lowered_named fun m inside => ?_
  have formed := (wellFormed sendable m inside).1
  have token : IsToken m.key := ⟨formed.named, fun c member => (formed.token c member).1⟩
  exact (Dispatched.lowerName_canonical lowering token).trans formed.lower

/-- The requests of both servers carry the caller's metadata. -/
theorem dispatched_carries [Rust.Crates] (lowering : Lowering) (room : HeaderMap → Bool)
    (sendable : Sendable md)
    {sub : Ws.Subscribe} (sent : sub.headers = (toMetadatumList md).map serverMetadatum) {key : Str}
    (free : Unreserved (js.lower key)) :
    (∀ headers, Dispatched.Rust.runStream room sub = some headers → Carries md key headers) ∧
      Carries md key (Dispatched.Go.runStream lowering sub) := by
  constructor
  · intro headers dispatched
    obtain ⟨kept, appended, built⟩ := Option.bind_eq_some_iff.mp dispatched
    rw [Dispatched.appendAll_some appended, List.nil_append, sent] at built
    rw [Dispatched.rust_framed built, Carries,
      valuesAt_own (fun own listed => (Dispatched.rust_reserved own listed).1) free]
    exact carries_wires (rust_kept sendable) key
  · rw [Dispatched.Go.runStream, Dispatched.go_framed
      (Dispatched.harmless_metadataListToHeaders lowering _), Carries,
      valuesAt_own (fun own listed => (Dispatched.goSpelling_reserved own listed).1) free, sent]
    exact carries_wires (go_kept lowering sendable) key

end Requests

section Responses
variable {js : LowerCase} {md : MetadataForm.Metadata js}

theorem get_addMetadatum (md : MetadataForm.Metadata js) (m : Ts.Metadatum) (key : Str) :
    (addMetadatum js md m).get key =
      md.get key ++ if js.lower m.key = js.lower key then (added m).toList else [] := by
  have each : ∀ v, (md.add m.key v).get key = md.get key ++ if js.lower m.key = js.lower key
    then [v] else [] := by
    intro v
    rw [MetadataForm.Metadata.get_add]
    split
    · rfl
    · exact (List.append_nil _).symm
  obtain ⟨name, ascii, bin⟩ := m
  cases bin with
  | some value => exact each _
  | none => cases ascii with
    | some value => exact each _
    | none =>
        rw [added, Option.toList_none, ite_self, List.append_nil]
        rfl

theorem get_foldl (items : List Ts.Metadatum) (md : MetadataForm.Metadata js) (key : Str) :
    (items.foldl (addMetadatum js) md).get key =
      md.get key ++ (items.filter fun m => js.lower m.key = js.lower key).filterMap added := by
  induction items generalizing md with
  | nil => exact (List.append_nil _).symm
  | cons m rest ih =>
      rw [List.foldl_cons, ih, get_addMetadatum, List.append_assoc]
      by_cases same : js.lower m.key = js.lower key
      · rw [if_pos same, List.filter_cons_of_pos (by simpa using same), List.filterMap_cons]
        cases added m <;> rfl
      · rw [if_neg same, List.filter_cons_of_neg (by simpa using same), List.nil_append]

theorem find_told (name : Str) (map : List (Str × List MetadataForm.MetadataValue)) :
    (((map.map fun (key, values) => (key, values.map toldValue)).find? fun entry =>
      entry.1 = name).map Prod.snd).getD [] =
      (MetadataForm.valuesOf name map).map toldValue := by
  induction map with
  | nil => rfl
  | cons entry rest ih =>
      obtain ⟨key, values⟩ := entry
      rw [List.map_cons, List.find?_cons, MetadataForm.valuesOf]
      by_cases same : key = name
      · simp [same]
      · simpa [same] using ih

theorem getHeard_fromMetadatumList (items : List Ts.Metadatum) (key : Str) :
    getHeard js (fromMetadatumList js items) key =
      ((items.filter fun m => js.lower m.key = js.lower key).filterMap added).map toldValue := by
  have values := get_foldl items (.empty : MetadataForm.Metadata js) key
  have empty : (MetadataForm.Metadata.empty : MetadataForm.Metadata js).get key = [] := rfl
  rw [empty, List.nil_append] at values
  rw [← values, MetadataForm.Metadata.get, ← find_told, getHeard, fromMetadatumList]
  rfl

/-- What the handlers hear of a server's entries. -/
theorem getHeard_entries {entries : List Metadatum} (plain : ∀ m ∈ entries, js.lower m.key = m.key)
    (key : Str) :
    getHeard js (fromMetadatumList js (entries.map .of)) key =
      ((GrpcWebnext.valuesOf (js.lower key) entries).filterMap fun value =>
        added (.of ⟨[], value⟩)).map toldValue := by
  have same : ∀ m ∈ entries,
    ((fun m : Ts.Metadatum => decide (js.lower m.key = js.lower key)) ∘ Ts.Metadatum.of) m =
      decide (m.key = js.lower key) := by
    intro m inside
    have name : (Ts.Metadatum.of m).key = m.key := by
      unfold Ts.Metadatum.of
      split <;> rfl
    rw [Function.comp_apply, name, plain m inside]
  rw [getHeard_fromMetadatumList, List.filter_map, List.filter_congr same, List.filterMap_map,
    GrpcWebnext.valuesOf,
    List.filterMap_map]
  congr 1
  refine List.filterMap_congr fun m _ => ?_
  obtain ⟨name, value⟩ := m
  rcases value with _ | value | value <;> rfl

theorem mem_get {key : Str} {v : MetadataForm.MetadataValue} (inside : v ∈ md.get key) :
    ∃ entry ∈ md.map, entry.1 = js.lower key ∧ v ∈ entry.2 := by
  unfold MetadataForm.Metadata.get at inside
  generalize md.map = map at inside
  induction map with
  | nil => cases inside
  | cons entry rest ih =>
      rw [MetadataForm.valuesOf] at inside
      split at inside
      · rename_i same
        exact ⟨entry, List.mem_cons_self, same, inside⟩
      · obtain ⟨found, member, rest⟩ := ih inside
        exact ⟨found, List.mem_cons_of_mem _ member, rest⟩

theorem wellFormed_get (sendable : Sendable md) {key : Str} {v : MetadataForm.MetadataValue}
    (inside : v ∈ md.get key) :
    (⟨js.lower key, some (metaValue v)⟩ : Metadatum).WellFormed Go.isDeniedHeader ∧
      (js.lower key).length ≤ Rust.maxHeaderNameLen := by
  obtain ⟨entry, member, same, listed⟩ := mem_get inside
  refine wellFormed sendable _ ?_
  rw [serverMetadata_toMetadatumList]
  exact List.mem_flatMap.mpr ⟨entry, member, List.mem_map.mpr ⟨v, listed, by rw [← same]⟩⟩

/-- Entries made of headers that carry metadata are heard as that metadata. -/
theorem heard_of_carries (convert : Bytes → Option MetaValue) {entries : List Metadatum}
    (plain : ∀ m ∈ entries, js.lower m.key = m.key) {key : Str} {headers : HeaderMap}
    (carries : Carries md key headers)
    (converted : ∀ v ∈ md.get key, convert (wire v) = some (metaValue v))
    (values : GrpcWebnext.valuesOf (js.lower key) entries =
      ((valuesAt (js.lower key) (lowered headers)).filterMap convert).map some) :
    getHeard js (fromMetadatumList js (entries.map .of)) key = (md.get key).map toldValue := by
  have back : ∀ v : MetadataForm.MetadataValue, added (.of ⟨[], some (metaValue v)⟩) = some v := by
    intro v
    cases v with
    | ascii value => simp [added, metaValue, Ts.Metadatum.of, Utf8.decodeLossy_encode]
    | bin value => rfl
  rw [getHeard_entries plain, values, carries, List.filterMap_map, List.filterMap_map,
    List.filterMap_filterMap]
  have each : ∀ v ∈ md.get key, (((convert ∘ wire) v).bind fun value =>
    added (.of ⟨[], some value⟩)) = some v := by
    intro v inside
    rw [Function.comp_apply, converted v inside, Option.bind_some, back]
  exact congrArg _ ((List.filterMap_congr each).trans List.filterMap_some)

theorem rust_keys [Rust.Crates] {headers : HeaderMap} {m : Metadatum}
    (inside : m ∈ Rust.metadataToVec Rust.toBytes headers) :
    ∃ e ∈ headers, e.1 = m.key := by
  obtain ⟨⟨name, value⟩, member, converted⟩ := List.mem_filterMap.mp inside
  refine ⟨_, member, ?_⟩
  dsimp only at converted
  split at converted
  · cases converted
  · split at converted <;> obtain ⟨_, _, rfl⟩ := Option.map_eq_some_iff.mp converted <;> rfl

theorem go_keys {headers : HeaderMap} {m : Metadatum}
    (inside : m ∈ Go.headersToMetadataList Go.decodeBinHeader headers) : ∃ e ∈ headers, e.1 = m.key := by
  obtain ⟨⟨name, value⟩, member, converted⟩ := List.mem_filterMap.mp inside
  refine ⟨_, member, ?_⟩
  dsimp only at converted
  split at converted
  · cases converted
  · split at converted
    · obtain ⟨_, _, rfl⟩ := Option.map_eq_some_iff.mp converted
      rfl
    · cases converted
      rfl

theorem lower_token {name : Str} (token : IsToken name) (low : lowerName name = name) :
    js.lower name = name :=
  (js.ascii name fun c inside => isNameChar_ascii (token.2 c inside)).trans low

theorem wire_metaValue (key : Str) (v : MetadataForm.MetadataValue) :
    (⟨key, some (metaValue v)⟩ : Metadatum).wire = wire v := by
  cases v <;> rfl

theorem rust_heard [Rust.Crates] (sendable : Sendable md) {key : Str} {headers : HeaderMap}
    (carries : Carries md key headers)
    (names : ∀ e ∈ headers, Rust.headerName e.1 = some e.1) :
    getHeard js (fromMetadatumList js ((Rust.metadataToVec Rust.toBytes headers).map .of)) key =
      (md.get key).map toldValue := by
  have low : lowered headers = headers := by
    refine (List.map_congr_left fun e inside => ?_).trans (List.map_id' headers)
    exact congrArg (·, e.2) (Dispatched.headerName_token (names e inside)).2
  refine heard_of_carries (Rust.converted Rust.toBytes (js.lower key)) ?_ carries ?_ ?_
  · intro m inside
    obtain ⟨e, member, same⟩ := rust_keys inside
    obtain ⟨token, lower⟩ := Dispatched.headerName_token (names e member)
    exact same ▸ lower_token token lower
  · intro v inside
    obtain ⟨formed, short⟩ := wellFormed_get sendable inside
    obtain ⟨value, found, converted⟩ := (rust_carries (rust_allowed formed) short).2
    cases found
    rwa [wire_metaValue] at converted
  · rw [low]
    exact valuesOf_metadataToVec Rust.toBytes (js.lower key) headers

theorem go_heard (lowering : Lowering) (sendable : Sendable md) {key : Str} {headers : HeaderMap}
    (carries : Carries md key headers) (names : ∀ e ∈ headers, e.1 ≠ [] ∧ Go.validHeaderKey e.1 = true) :
    getHeard js (fromMetadatumList js ((Go.metadataOfHeaders lowering headers).map .of)) key =
      (md.get key).map toldValue := by
  have token : ∀ e ∈ headers, IsToken e.1 :=
    fun e inside => Dispatched.isToken_of_valid (names e inside).1 (names e inside).2
  have low : headers.map (fun (name, value) => (Go.toLower lowering name, value)) = lowered headers := by
    refine List.map_congr_left fun e inside => ?_
    exact congrArg (·, e.2) (Go.toLower_plain fun c member => isNameChar_ascii ((token e inside).2 c member))
  rw [Go.metadataOfHeaders, low]
  refine heard_of_carries (Go.converted Go.decodeBinHeader (js.lower key)) ?_ carries ?_ ?_
  · intro m inside
    obtain ⟨e, member, same⟩ := go_keys inside
    obtain ⟨source, listed, rfl⟩ := List.mem_map.mp member
    have spelled := token source listed
    refine same ▸ lower_token spelled.lower ?_
    unfold lowerName
    rw [List.map_map]
    exact List.map_congr_left fun c inside => toLower_idem (isNameChar_ascii (spelled.2 c inside))
  · intro v inside
    obtain ⟨value, found, converted⟩ := (go_carries (wellFormed_get sendable inside).1 lowering).2
    cases found
    rwa [wire_metaValue] at converted
  · exact valuesOf_headersToMetadataList Go.decodeBinHeader (js.lower key) (lowered headers)

end Responses

section Frames
variable {js : LowerCase} {md : MetadataForm.Metadata js} {reader : ProtoWire.Reader}
    {subscribe : Ts.Subscribe}

/-- The two frames with metadata bring it to the handlers. -/
structure Brings (reader : ProtoWire.Reader) (subscribe : Ts.Subscribe)
    (md : MetadataForm.Metadata js) (key : Str)
    (entries : List Metadatum) : Prop where
  header : (Kind.header entries).Text → (Ts.Frame.of (.header entries)).Fits →
    ∃ heard, (protoCodec js reader subscribe).hear (encodeFrame (.header entries)) = some (.headers heard) ∧
      getHeard js heard key = (md.get key).map toldValue
  trailer : ∀ code message, (Kind.trailer code message entries).Text →
    (Ts.Frame.of (.trailer code message entries)).Fits →
    ∃ heard, (protoCodec js reader subscribe).hear (encodeFrame (.trailer code message entries)) =
        some (.status ⟨code, Utf8.decodeLossy message, heard⟩) ∧
      getHeard js heard key = (md.get key).map toldValue

theorem brings (faithful : reader.Faithful) {key : Str} {entries : List Metadatum}
    (heard : getHeard js (fromMetadatumList js (entries.map .of)) key = (md.get key).map toldValue) :
    Brings reader subscribe md key entries where
  header text fits := ⟨_, hear_encodeFrame faithful text fits, heard⟩
  trailer _ _ text fits := ⟨_, hear_encodeFrame faithful text fits, heard⟩

theorem of_serverMetadatum (md : MetadataForm.Metadata js) :
    ((toMetadatumList md).map serverMetadatum).map .of = toMetadatumList md := by
  rw [List.map_map]
  refine (List.map_congr_left fun m inside => ?_).trans (List.map_id _)
  obtain ⟨entry, _, member⟩ := List.mem_flatMap.mp inside
  obtain ⟨v, _, rfl⟩ := List.mem_map.mp member
  cases v with
  | ascii value => simp [serverMetadatum, Ts.Metadatum.of, Utf8.decodeLossy_encode]
  | bin value => rfl

theorem text_serverMetadatum (m : Ts.Metadatum) : (serverMetadatum m).Text := by
  intro value ascii
  unfold serverMetadatum at ascii
  split at ascii
  · cases ascii
  · cases ascii
    rw [Utf8.valid, Utf8.decodeLossy_encode, decide_eq_true_eq]
  · cases ascii

/-- A server reads the open frame of a call with all of its metadata. -/
theorem opening_read {decode : Bytes → Option (Option Kind)} (decodes : DecodesFrames decode)
    {timeoutMillis : Nat}
    (fits : Ts.Frame.Fits { Ts.Frame.base with subscribe := some ⟨[], toMetadatumList md,
      timeoutMillis, []⟩ }) :
    decode (protoCodec js reader ⟨[], toMetadatumList md, timeoutMillis, []⟩).opening =
      some (some (.subscribe ⟨[], (toMetadatumList md).map serverMetadatum, timeoutMillis, []⟩)) := by
  have text : (Kind.subscribe ⟨[], (toMetadatumList md).map serverMetadatum, timeoutMillis, []⟩).Text := by
    intro m inside
    obtain ⟨source, _, rfl⟩ := List.mem_map.mp inside
    exact text_serverMetadatum source
  have frame : Ts.Frame.of (.subscribe ⟨[], (toMetadatumList md).map serverMetadatum, timeoutMillis, []⟩) =
      { Ts.Frame.base with subscribe := some ⟨[], toMetadatumList md, timeoutMillis, []⟩ } := by
    rw [Ts.Frame.of, of_serverMetadatum]
  have read := decodes _ text (frame ▸ fits)
  rwa [← encodeFrame_of text, frame] at read

/-- Metadata of a stream from end to end. What a caller sets under a key is what the request of
either server has under it; and metadata that the backend's headers or trailers have under a
key is what the handlers hear under it, from either server. -/
theorem metadata_through_frames [Rust.Crates] (lowering : Lowering) (room : HeaderMap → Bool)
    (faithful : reader.Faithful)
    (sendable : Sendable md) (key : Str) :
    (∀ decode, DecodesFrames decode → ∀ timeoutMillis,
      Ts.Frame.Fits { Ts.Frame.base with subscribe := some ⟨[], toMetadatumList md, timeoutMillis, []⟩ } →
      ∃ sub, decode (protoCodec js reader ⟨[], toMetadatumList md, timeoutMillis, []⟩).opening =
        some (some (.subscribe sub)) ∧
        (Unreserved (js.lower key) → (∀ headers, Dispatched.Rust.runStream room sub = some headers →
          Carries md key headers) ∧
          Carries md key (Dispatched.Go.runStream lowering sub))) ∧
    ∀ headers, Carries md key headers →
      ((∀ e ∈ headers, Rust.headerName e.1 = some e.1) →
        Brings reader subscribe md key (Rust.metadataToVec Rust.toBytes headers)) ∧
      ((∀ e ∈ headers, e.1 ≠ [] ∧ Go.validHeaderKey e.1 = true) →
        Brings reader subscribe md key (Go.metadataOfHeaders lowering headers)) := by
  constructor
  · intro decode decodes timeoutMillis fits
    exact ⟨_, opening_read decodes fits, dispatched_carries lowering room sendable rfl⟩
  · intro headers carries
    exact ⟨fun names => brings faithful (rust_heard sendable carries names),
      fun names => brings faithful (go_heard lowering sendable carries names)⟩

end Frames

/-- One text and one binary entry. -/
def tagged : MetadataForm.Metadata MetadataForm.asciiLower :=
  (MetadataForm.Metadata.empty.add "X-Tag".toList (.ascii "a b".toList)).add "blob-bin".toList (.bin [0, 255])

theorem tagged_sendable : Sendable tagged := by
  have listed :
    tagged.map = [("x-tag".toList, [.ascii "a b".toList]), ("blob-bin".toList, [.bin [0, 255]])] := by decide
  constructor <;> rw [listed] <;>
    simp only [List.forall_mem_cons, List.not_mem_nil, false_implies, implies_true, and_true]
  · refine ⟨⟨by decide, fun c inside => ?_⟩, ⟨by decide, fun c inside => ?_⟩⟩
    · exact List.all_eq_true.mp (show "x-tag".toList.all Rust.isNameChar = true by decide) c inside
    · exact List.all_eq_true.mp (show "blob-bin".toList.all Rust.isNameChar = true by decide) c inside
  · decide
  · decide
  · have printable : "a b".toList.all (fun c => 32 ≤ c.toNat && c.toNat < 127) = true := by decide
    refine ⟨fun value inside => ?_, fun value inside => ?_⟩
    · cases List.mem_singleton.mp inside
      exact ⟨by decide, fun c listed => by simpa using List.all_eq_true.mp printable c listed⟩
    · cases List.mem_singleton.mp inside
  · refine ⟨fun value inside => ?_, fun value _ => by decide⟩
    cases List.mem_singleton.mp inside

theorem metadata_through_frames_tagged :
    (∃ sub headers, readKind (protoCodec MetadataForm.asciiLower ProtoWire.standard
      ⟨[], toMetadatumList tagged, 0, []⟩).opening =
        some (some (.subscribe sub)) ∧
      @Dispatched.Rust.runStream (fun _ => true) Rust.published sub = some headers ∧
        Carries tagged "Blob-Bin".toList headers) ∧
    Brings ProtoWire.standard ⟨[], [], 0, []⟩ tagged "Blob-Bin".toList
      (Rust.metadataToVec Rust.published.toBytes [("blob-bin".toList, Base64.encode [0, 255])]) := by
  let _ : Rust.Crates := Rust.published
  obtain ⟨requests, responses⟩ :=
    @metadata_through_frames _ _ _ ⟨[], [], 0, []⟩ Rust.published asciiLowering (fun _ => true)
    ProtoWire.standard_faithful tagged_sendable "Blob-Bin".toList
  have entries : toMetadatumList tagged =
      [⟨"x-tag".toList, some "a b".toList, none⟩, ⟨"blob-bin".toList, none, some [0, 255]⟩] := by decide
  have fits : Ts.Frame.Fits { Ts.Frame.base with subscribe := some ⟨[], toMetadatumList tagged, 0, []⟩ } := by
    rw [entries]
    refine ⟨?_, by rintro _ ⟨⟩, by rintro _ ⟨⟩, by rintro _ ⟨⟩, by decide⟩
    rintro _ ⟨⟩
    refine ⟨by decide, fun v inside => ?_, by decide⟩
    rcases List.mem_pair.mp inside with rfl | rfl
    · refine ⟨by decide, ?_⟩
      rintro _ ⟨⟩
      decide
    · exact ⟨by decide, by rintro _ ⟨⟩⟩
  have free : Unreserved (MetadataForm.asciiLower.lower "Blob-Bin".toList) := by
    intro own listed
    simp only [Dispatched.reserved, List.mem_cons, List.not_mem_nil, or_false] at listed
    rcases listed with rfl | rfl | rfl <;> decide
  obtain ⟨sub, read, carries⟩ := requests readKind readKind_decodes 0 fits
  have same := read.symm.trans (opening_read readKind_decodes fits)
  cases same
  constructor
  · obtain ⟨headers, built⟩ : ∃ headers, Dispatched.Rust.runStream (fun _ => true)
        ⟨[], (toMetadatumList tagged).map serverMetadatum, 0, []⟩ = some headers := ⟨_, rfl⟩
    exact ⟨_, headers, read, built, (carries free).1 headers built⟩
  · refine (responses [("blob-bin".toList, Base64.encode [0, 255])] rfl).1 ?_
    rw [List.forall_mem_singleton]
    decide

end GrpcWebnext.NodeClient.SingleStream
