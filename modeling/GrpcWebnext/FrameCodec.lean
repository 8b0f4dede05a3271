import GrpcWebnext.Library.ProtoMessage
import GrpcWebnext.TrailerCodec
import GrpcWebnext.Ws.Frame

/-! The frames of the WebSocket path as bytes: the generated encoder and decoder of the
TypeScript client, and what the servers put on the wire. -/
namespace GrpcWebnext
open Framing (Bytes)
open ProtoWire
open Text (Str)

namespace Ts

structure Subscribe where
  method : Str
  headers : List Metadatum
  timeoutMillis : Nat
  initialPayload : Bytes
  deriving DecidableEq

structure Header where
  headers : List Metadatum
  deriving DecidableEq

structure Message where
  payload : Bytes
  deriving DecidableEq

structure HalfClose where
  deriving DecidableEq

structure Reset where
  statusCode : Nat
  statusMessage : Str
  deriving DecidableEq

structure Frame where
  subscribe : Option Subscribe
  message : Option Message
  halfClose : Option HalfClose
  trailer : Option Trailer
  reset : Option Reset
  header : Option Header
  deriving DecidableEq

/-- `createBaseFrame`. -/
def Frame.base : Frame := ⟨none, none, none, none, none, none⟩

/-- What `Metadatum.encode` writes, field by field; the others likewise. -/
def Metadatum.fields (m : Metadatum) : List (Nat × Bytes) :=
  (if m.key = [] then [] else [(10, delimited (Utf8.encode m.key))]) ++
    (m.asciiValue.toList.map fun value => (18, delimited (Utf8.encode value))) ++
    m.binValue.toList.map fun value => (26, delimited value)

def Subscribe.fields (m : Subscribe) : List (Nat × Bytes) :=
  (if m.method = [] then [] else [(10, delimited (Utf8.encode m.method))]) ++
    (m.headers.map fun v => (18, delimited (encodeFields v.fields))) ++
    (if m.timeoutMillis = 0 then [] else [(24, varint m.timeoutMillis)]) ++
    (if m.initialPayload = [] then [] else [(34, delimited m.initialPayload)])

def Header.fields (m : Header) : List (Nat × Bytes) :=
  m.headers.map fun v => (10, delimited (encodeFields v.fields))

def Message.fields (m : Message) : List (Nat × Bytes) :=
  if m.payload = [] then [] else [(10, delimited m.payload)]

def HalfClose.fields (_ : HalfClose) : List (Nat × Bytes) := []

def Trailer.fields (m : Trailer) : List (Nat × Bytes) :=
  (if m.statusCode = 0 then [] else [(8, varint m.statusCode)]) ++
    (if m.statusMessage = [] then [] else [(18, delimited (Utf8.encode m.statusMessage))]) ++
    m.trailers.map fun v => (26, delimited (encodeFields v.fields))

def Reset.fields (m : Reset) : List (Nat × Bytes) :=
  (if m.statusCode = 0 then [] else [(8, varint m.statusCode)]) ++
    (if m.statusMessage = [] then [] else [(18, delimited (Utf8.encode m.statusMessage))])

def Frame.fields (m : Frame) : List (Nat × Bytes) :=
  (m.subscribe.toList.map fun v => (10, delimited (encodeFields v.fields))) ++
    (m.message.toList.map fun v => (18, delimited (encodeFields v.fields))) ++
    (m.halfClose.toList.map fun v => (26, delimited (encodeFields v.fields))) ++
    (m.trailer.toList.map fun v => (34, delimited (encodeFields v.fields))) ++
    (m.reset.toList.map fun v => (42, delimited (encodeFields v.fields))) ++
    m.header.toList.map fun v => (66, delimited (encodeFields v.fields))

/-- `encodeFrame`. -/
def encodeFrame (frame : Frame) : Bytes := encodeFields frame.fields

section Decode
variable (reader : Reader)

/-- A value read into its place in a message. -/
def into {M α : Type} (read : Bytes → Option (α × Bytes)) (put : M → α → M) (m : M) (rest : Bytes) :
    Option (M × Bytes) := (read rest).map fun (value, rest) => (put m value, rest)

def nestedMetadatum : Bytes → Option (Metadatum × Bytes) :=
  decodeNested reader (metadatumField reader) ⟨[], none, none⟩

/-- The cases of `Subscribe.decode`; any other tag falls through to the skip. -/
def subscribeField (tag : Nat) : Option (Subscribe → Bytes → Option (Subscribe × Bytes)) :=
  match tag with
  | 10 => some (into reader.string fun m method => { m with method })
  | 18 => some (into (nestedMetadatum reader) fun m v => { m with headers := m.headers ++ [v] })
  | 24 => some (into reader.uint32 fun m timeoutMillis => { m with timeoutMillis })
  | 34 => some (into reader.bytes fun m initialPayload => { m with initialPayload })
  | _ => none

def headerField (tag : Nat) : Option (Header → Bytes → Option (Header × Bytes)) :=
  match tag with
  | 10 => some (into (nestedMetadatum reader) fun m v => { m with headers := m.headers ++ [v] })
  | _ => none

def messageField (tag : Nat) : Option (Message → Bytes → Option (Message × Bytes)) :=
  match tag with
  | 10 => some (into reader.bytes fun m payload => { m with payload })
  | _ => none

def halfCloseField (_ : Nat) : Option (HalfClose → Bytes → Option (HalfClose × Bytes)) := none

def resetField (tag : Nat) : Option (Reset → Bytes → Option (Reset × Bytes)) :=
  match tag with
  | 8 => some (into reader.uint32 fun m statusCode => { m with statusCode })
  | 18 => some (into reader.string fun m statusMessage => { m with statusMessage })
  | _ => none

def frameField (tag : Nat) : Option (Frame → Bytes → Option (Frame × Bytes)) :=
  match tag with
  | 10 => some (into (decodeNested reader (subscribeField reader) ⟨[], [], 0, []⟩) fun m v =>
      { m with subscribe := some v })
  | 18 => some (into (decodeNested reader (messageField reader) ⟨[]⟩) fun m v => { m with message := some v })
  | 26 => some (into (decodeNested reader halfCloseField ⟨⟩) fun m v => { m with halfClose := some v })
  | 34 =>
      some (into (decodeNested reader (trailerField reader) ⟨0, [], []⟩) fun m v =>
        { m with trailer := some v })
  | 42 => some (into (decodeNested reader (resetField reader) ⟨0, []⟩) fun m v => { m with reset := some v })
  | 66 => some (into (decodeNested reader (headerField reader) ⟨[]⟩) fun m v => { m with header := some v })
  | _ => none

/-- `decodeFrame`; a throw is `none`. -/
def decodeFrame (input : Bytes) : Option Frame := decodeMessage reader (frameField reader) .base input

end Decode

/-- A string that a decoder of text gives back as it was. -/
def Plain (s : Str) : Prop := s.head? ≠ some (Char.ofNat 0xFEFF)

instance (s : Str) : Decidable (Plain s) := inferInstanceAs (Decidable (¬ _))

def Metadatum.Plain (m : Metadatum) : Prop := Ts.Plain m.key ∧ ∀ value ∈ m.asciiValue, Ts.Plain value

/-- A frame whose strings do not begin with a byte order mark and whose numbers have 32 bits. -/
structure Frame.Fits (frame : Frame) : Prop where
  subscribe : ∀ m ∈ frame.subscribe, Plain m.method ∧ (∀ v ∈ m.headers, v.Plain) ∧ m.timeoutMillis < 2 ^ 32
  trailer : ∀ m ∈ frame.trailer, m.statusCode < 2 ^ 32 ∧ Plain m.statusMessage ∧ ∀ v ∈ m.trailers, v.Plain
  reset : ∀ m ∈ frame.reset, m.statusCode < 2 ^ 32 ∧ Plain m.statusMessage
  header : ∀ m ∈ frame.header, ∀ v ∈ m.headers, v.Plain
  length : (encodeFrame frame).length < 2 ^ 32

section RoundTrip
variable {reader : Reader} (faithful : reader.Faithful)
include faithful

theorem Reads.text {M : Type} {known : Nat → Option (M → Bytes → Option (M × Bytes))} {tag : Nat}
    (put : M → Str → M) (small : tag < 2 ^ 32) (knows : known tag = some (into reader.string put))
    {m : M} {s : Str}
    (plain : Plain s) (fits : (Utf8.encode s).length < 2 ^ 32) :
    Reads reader known m [(tag, delimited (Utf8.encode s))] (put m s) := by
  refine .single small knows fun rest => ?_
  rw [into, faithful.text s rest plain fits, Option.map_some]

theorem Reads.raw {M : Type} {known : Nat → Option (M → Bytes → Option (M × Bytes))} {tag : Nat}
    (put : M → Bytes → M) (small : tag < 2 ^ 32) (knows : known tag = some (into reader.bytes put))
    {m : M} {bytes : Bytes}
    (fits : bytes.length < 2 ^ 32) : Reads reader known m [(tag, delimited bytes)] (put m bytes) := by
  refine .single small knows fun rest => ?_
  rw [into, faithful.bytes bytes rest fits, Option.map_some]

theorem Reads.number {M : Type} {known : Nat → Option (M → Bytes → Option (M × Bytes))} {tag : Nat}
    (put : M → Nat → M) (small : tag < 2 ^ 32) (knows : known tag = some (into reader.uint32 put))
    {m : M} {n : Nat}
    (fits : n < 2 ^ 32) : Reads reader known m [(tag, varint n)] (put m n) := by
  refine .single small knows fun rest => ?_
  rw [into, faithful.uint32 n rest fits, Option.map_some]

theorem Reads.nested {M N : Type} {known : Nat → Option (M → Bytes → Option (M × Bytes))}
    {inner : Nat → Option (N → Bytes → Option (N × Bytes))} {base : N} {tag : Nat}
    (put : M → N → M) (small : tag < 2 ^ 32)
    (knows : known tag = some (into (decodeNested reader inner base) put)) {m : M} {n : N}
    {fields : List (Nat × Bytes)} (reads : Reads reader inner base fields n)
    (fits : (encodeFields fields).length < 2 ^ 32) :
    Reads reader known m [(tag, delimited (encodeFields fields))] (put m n) := by
  refine .single small knows fun rest => ?_
  rw [into, decodeNested_reads faithful.toLawful reads fits rest, Option.map_some]

theorem Metadatum.reads {m : Metadatum} (plain : m.Plain) (fits : (encodeFields m.fields).length < 2 ^ 32) :
    Reads reader (metadatumField reader) ⟨[], none, none⟩ m.fields m := by
  have first : Reads reader (metadatumField reader) ⟨[], none, none⟩
      (if m.key = [] then [] else [(10, delimited (Utf8.encode m.key))]) ⟨m.key, none, none⟩ := by
    refine .unless (fun empty => by rw [empty]) fun some_ => ?_
    have short := fits_of_mem fits (show (10, delimited (Utf8.encode m.key)) ∈ m.fields
      by simp [Metadatum.fields, some_])
    exact Reads.text faithful (fun (m : Metadatum) key => { m with key }) (by decide) rfl plain.1 short
  have second : Reads reader (metadatumField reader) ⟨m.key, none, none⟩
      (m.asciiValue.toList.map fun value => (18, delimited (Utf8.encode value)))
        ⟨m.key, m.asciiValue, none⟩ := by
    refine .option (fun absent => by rw [absent]) fun value present => ?_
    have short := fits_of_mem fits (show (18, delimited (Utf8.encode value)) ∈ m.fields
      by simp [Metadatum.fields, present])
    rw [present]
    exact Reads.text faithful (fun (m : Metadatum) value => { m with asciiValue := some value })
      (by decide) rfl
      (plain.2 value present) short
  have third : Reads reader (metadatumField reader) ⟨m.key, m.asciiValue, none⟩
      (m.binValue.toList.map fun value => (26, delimited value)) m := by
    refine .option (fun absent => by rw [← absent]) fun value present => ?_
    have short := fits_of_mem fits (show (26, delimited value) ∈ m.fields by simp [Metadatum.fields, present])
    have whole : m = { m with binValue := some value } := by rw [← present]
    rw [whole]
    exact Reads.raw faithful (fun (m : Metadatum) value => { m with binValue := some value })
      (by decide) rfl short
  exact (first.append second).append third

/-- The metadata of a message is read one entry after the other. -/
theorem Reads.metadata {M : Type} {known : Nat → Option (M → Bytes → Option (M × Bytes))}
    {tag : Nat} (put : M → Metadatum → M) (small : tag < 2 ^ 32)
    (knows : known tag = some (into (nestedMetadatum reader) put)) {entries : List Metadatum}
    (plain : ∀ v ∈ entries, v.Plain) (fits : ∀ v ∈ entries, (encodeFields v.fields).length < 2 ^ 32) (m : M) :
    Reads reader known m (entries.map fun v => (tag, delimited (encodeFields v.fields)))
      (entries.foldl put m) := by
  refine .repeated put small knows (fun v inside message rest => ?_) m
  rw [into, nestedMetadatum, decodeNested_reads faithful.toLawful
    (Metadatum.reads faithful (plain v inside) (fits v inside)) (fits v inside) rest, Option.map_some]

omit faithful in
theorem foldl_headers {M : Type} (headers : M → List Metadatum) (set : M → List Metadatum → M)
    (get : ∀ m l, headers (set m l) = l) (again : ∀ m l l', set (set m l) l' = set m l')
    (same : ∀ m, set m (headers m) = m)
    (entries : List Metadatum) :
    ∀ m, entries.foldl (fun m v => set m (headers m ++ [v])) m = set m (headers m ++ entries) := by
  induction entries with
  | nil =>
      intro m
      rw [List.append_nil, same]
      rfl
  | cons v entries ih =>
      intro m
      rw [List.foldl_cons, ih, get, again, List.append_assoc, List.singleton_append]

theorem Subscribe.reads {m : Subscribe} (method : Plain m.method) (plain : ∀ v ∈ m.headers, v.Plain)
    (number : m.timeoutMillis < 2 ^ 32) (fits : (encodeFields m.fields).length < 2 ^ 32) :
    Reads reader (subscribeField reader) ⟨[], [], 0, []⟩ m.fields m := by
  have first : Reads reader (subscribeField reader) ⟨[], [], 0, []⟩
      (if m.method = [] then [] else [(10, delimited (Utf8.encode m.method))]) ⟨m.method, [], 0, []⟩ := by
    refine .unless (fun empty => by rw [empty]) fun some_ => ?_
    have short := fits_of_mem fits (show (10, delimited (Utf8.encode m.method)) ∈ m.fields
      by simp [Subscribe.fields, some_])
    exact Reads.text faithful (fun (m : Subscribe) method => { m with method }) (by decide) rfl method short
  have second : Reads reader (subscribeField reader) ⟨m.method, [], 0, []⟩
      (m.headers.map fun v => (18, delimited (encodeFields v.fields))) ⟨m.method, m.headers, 0, []⟩ := by
    have folded := foldl_headers Subscribe.headers (fun m headers => { m with headers })
      (fun _ _ => rfl) (fun _ _ _ => rfl)
      (fun _ => rfl) m.headers ⟨m.method, [], 0, []⟩
    rw [← show _ = (⟨m.method, m.headers, 0, []⟩ : Subscribe) from folded]
    refine Reads.metadata faithful (fun (m : Subscribe) v => { m with headers := m.headers ++ [v] })
      (by decide) rfl plain
      (fun v inside => fits_of_mem fits (?_ : (18, _) ∈ m.fields)) _
    simp only [Subscribe.fields, List.mem_append, List.mem_map]
    exact .inl (.inl (.inr ⟨v, inside, rfl⟩))
  have third : Reads reader (subscribeField reader) ⟨m.method, m.headers, 0, []⟩
      (if m.timeoutMillis = 0 then [] else [(24, varint m.timeoutMillis)])
        ⟨m.method, m.headers, m.timeoutMillis, []⟩ := by
    refine .unless (fun zero => by rw [zero]) fun _ => ?_
    exact Reads.number faithful (fun (m : Subscribe) timeoutMillis => { m with timeoutMillis })
      (by decide) rfl number
  have fourth : Reads reader (subscribeField reader) ⟨m.method, m.headers, m.timeoutMillis, []⟩
      (if m.initialPayload = [] then [] else [(34, delimited m.initialPayload)]) m := by
    refine .unless (fun empty => by rw [← empty]) fun some_ => ?_
    have short :=
      fits_of_mem fits (show (34, delimited m.initialPayload) ∈ m.fields by simp [Subscribe.fields, some_])
    exact Reads.raw faithful (fun (m : Subscribe) initialPayload => { m with initialPayload })
      (by decide) rfl short
  exact ((first.append second).append third).append fourth

theorem Header.reads {m : Header} (plain : ∀ v ∈ m.headers, v.Plain)
    (fits : (encodeFields m.fields).length < 2 ^ 32) :
    Reads reader (headerField reader) ⟨[]⟩ m.fields m := by
  have folded := foldl_headers Header.headers (fun m headers => { m with headers }) (fun _ _ => rfl)
    (fun _ _ _ => rfl)
    (fun _ => rfl) m.headers ⟨[]⟩
  have reads : Reads reader (headerField reader) ⟨[]⟩ m.fields
      (m.headers.foldl (fun m v => { m with headers := m.headers ++ [v] }) ⟨[]⟩) :=
    Reads.metadata faithful (fun (m : Header) v => { m with headers := m.headers ++ [v] })
      (by decide) rfl plain
      (fun v inside => fits_of_mem fits (List.mem_map.mpr ⟨v, inside, rfl⟩)) ⟨[]⟩
  rwa [folded] at reads

theorem Message.reads {m : Message} (fits : (encodeFields m.fields).length < 2 ^ 32) :
    Reads reader (messageField reader) ⟨[]⟩ m.fields m := by
  refine .unless (fun empty => by rw [← empty]) fun some_ => ?_
  have short := fits_of_mem fits (show (10, delimited m.payload) ∈ m.fields by simp [Message.fields, some_])
  exact Reads.raw faithful (fun (m : Message) payload => { m with payload }) (by decide) rfl short

/-- The status that a trailer and a reset begin with. -/
theorem Reads.status {M : Type} {known : Nat → Option (M → Bytes → Option (M × Bytes))}
    (setCode : M → Nat → M)
    (setMessage : M → Str → M) (code : known 8 = some (into reader.uint32 setCode))
    (message : known 18 = some (into reader.string setMessage)) {base : M} {n : Nat} {s : Str}
    (number : n < 2 ^ 32)
    (plain : Plain s) (zero : setCode base 0 = base) (empty : setMessage (setCode base n) [] = setCode base n)
    (short : s ≠ [] → (Utf8.encode s).length < 2 ^ 32) :
    Reads reader known base ((if n = 0 then [] else [(8, varint n)]) ++
      if s = [] then [] else [(18, delimited (Utf8.encode s))]) (setMessage (setCode base n) s) := by
  have first : Reads reader known base (if n = 0 then [] else [(8, varint n)]) (setCode base n) :=
    .unless (fun none_ => by rw [none_, zero]) fun _ => Reads.number faithful setCode (by decide) code number
  refine first.append (.unless (fun none_ => by rw [none_, empty]) fun some_ => ?_)
  exact Reads.text faithful setMessage (by decide) message plain (short some_)

theorem Reset.reads {m : Reset} (number : m.statusCode < 2 ^ 32) (plain : Plain m.statusMessage)
    (fits : (encodeFields m.fields).length < 2 ^ 32) : Reads reader (resetField reader) ⟨0, []⟩ m.fields m :=
  Reads.status faithful (fun (m : Reset) statusCode => { m with statusCode })
    (fun m statusMessage => { m with statusMessage }) rfl rfl number plain rfl rfl fun some_ =>
      fits_of_mem fits (show (18, delimited (Utf8.encode m.statusMessage)) ∈ m.fields
        by simp [Reset.fields, some_])

omit faithful in
theorem trailerField_metadata : trailerField reader 26 =
    some (into (nestedMetadatum reader) fun t m => { t with trailers := t.trailers ++ [m] }) := by
  refine congrArg some (funext fun t => funext fun rest => ?_)
  rw [into, nestedMetadatum, decodeNested]
  cases reader.uint32 rest with
  | none => rfl
  | some found => rfl

theorem Trailer.reads {m : Trailer} (number : m.statusCode < 2 ^ 32) (message : Plain m.statusMessage)
    (plain : ∀ v ∈ m.trailers, v.Plain) (fits : (encodeFields m.fields).length < 2 ^ 32) :
    Reads reader (trailerField reader) ⟨0, [], []⟩ m.fields m := by
  have first : Reads reader (trailerField reader) ⟨0, [], []⟩
      ((if m.statusCode = 0 then [] else [(8, varint m.statusCode)]) ++
        if m.statusMessage = [] then [] else [(18, delimited (Utf8.encode m.statusMessage))])
      ⟨m.statusCode, m.statusMessage, []⟩ :=
    Reads.status faithful (fun (m : Trailer) statusCode => { m with statusCode })
      (fun m statusMessage => { m with statusMessage }) rfl rfl number message rfl rfl fun some_ =>
        fits_of_mem fits (show (18, delimited (Utf8.encode m.statusMessage)) ∈ m.fields
          by simp [Trailer.fields, some_])
  have second :=
    Reads.metadata faithful (fun (m : Trailer) v => { m with trailers := m.trailers ++ [v] }) (by decide)
    trailerField_metadata plain (fun v inside => fits_of_mem fits (show (26, _) ∈ m.fields by
      simp only [Trailer.fields, List.mem_append, List.mem_map]
      exact .inr ⟨v, inside, rfl⟩)) ⟨m.statusCode, m.statusMessage, []⟩
  have folded := foldl_headers Trailer.trailers (fun m trailers => { m with trailers })
    (fun _ _ => rfl) (fun _ _ _ => rfl)
    (fun _ => rfl) m.trailers ⟨m.statusCode, m.statusMessage, []⟩
  rw [folded] at second
  exact first.append second

/-- One of the kinds of a frame, where it is set. -/
theorem Reads.kind {N : Type} {inner : Nat → Option (N → Bytes → Option (N × Bytes))} {base : N} {tag : Nat}
    (put : Frame → N → Frame) (small : tag < 2 ^ 32)
    (knows : frameField reader tag = some (into (decodeNested reader inner base) put))
    {fields : N → List (Nat × Bytes)}
    {frame next whole : Frame} {v : Option N} (length : (encodeFrame whole).length < 2 ^ 32)
    (inside : ∀ n ∈ v, (tag, delimited (encodeFields (fields n))) ∈ whole.fields)
    (absent : v = none → frame = next) (present : ∀ n, v = some n → put frame n = next)
    (reads : ∀ n ∈ v, (encodeFields (fields n)).length < 2 ^ 32 → Reads reader inner base (fields n) n) :
    Reads reader (frameField reader) frame (v.toList.map fun n =>
      (tag, delimited (encodeFields (fields n)))) next := by
  refine .option absent fun n some_ => ?_
  have fits := fits_of_mem length (inside n some_)
  rw [← present n some_]
  exact Reads.nested faithful put small knows (reads n some_ fits) fits

theorem Frame.reads {frame : Frame} (fits : frame.Fits) :
    Reads reader (frameField reader) .base frame.fields frame := by
  have subscribe : Reads reader (frameField reader) .base
      (frame.subscribe.toList.map fun v => (10, delimited (encodeFields v.fields)))
      ⟨frame.subscribe, none, none, none, none, none⟩ := by
    refine Reads.kind faithful (fun m v => { m with subscribe := some v }) (by decide) rfl fits.length ?_
      (fun none_ => by rw [none_]; rfl) (fun n some_ => by rw [some_]; rfl) ?_
    · intro n some_
      simp [Frame.fields, Option.mem_def.mp some_]
    · intro n some_ short
      obtain ⟨method, plain, number⟩ := fits.subscribe n some_
      exact Subscribe.reads faithful method plain number short
  have message : Reads reader (frameField reader) ⟨frame.subscribe, none, none, none, none, none⟩
      (frame.message.toList.map fun v => (18, delimited (encodeFields v.fields)))
      ⟨frame.subscribe, frame.message, none, none, none, none⟩ := by
    refine Reads.kind faithful (fun m v => { m with message := some v }) (by decide) rfl fits.length ?_
      (fun none_ => by rw [none_]) (fun n some_ => by rw [some_]) ?_
    · intro n some_
      simp [Frame.fields, Option.mem_def.mp some_]
    · exact fun n _ short => Message.reads faithful short
  have halfClose : Reads reader (frameField reader) ⟨frame.subscribe, frame.message, none, none, none, none⟩
      (frame.halfClose.toList.map fun v => (26, delimited (encodeFields v.fields)))
      ⟨frame.subscribe, frame.message, frame.halfClose, none, none, none⟩ := by
    refine Reads.kind faithful (fun m v => { m with halfClose := some v }) (by decide) rfl fits.length ?_
      (fun none_ => by rw [none_]) (fun n some_ => by rw [some_]) ?_
    · intro n some_
      simp [Frame.fields, Option.mem_def.mp some_]
    · exact fun n _ _ => .nil n
  have trailer :
    Reads reader (frameField reader) ⟨frame.subscribe, frame.message, frame.halfClose, none, none, none⟩
      (frame.trailer.toList.map fun v => (34, delimited (encodeFields v.fields)))
      ⟨frame.subscribe, frame.message, frame.halfClose, frame.trailer, none, none⟩ := by
    refine Reads.kind faithful (fun m v => { m with trailer := some v }) (by decide) rfl fits.length ?_
      (fun none_ => by rw [none_]) (fun n some_ => by rw [some_]) ?_
    · intro n some_
      simp [Frame.fields, Option.mem_def.mp some_]
    · intro n some_ short
      obtain ⟨number, text, plain⟩ := fits.trailer n some_
      exact Trailer.reads faithful number text plain short
  have reset : Reads reader (frameField reader)
      ⟨frame.subscribe, frame.message, frame.halfClose, frame.trailer, none, none⟩
      (frame.reset.toList.map fun v => (42, delimited (encodeFields v.fields)))
      ⟨frame.subscribe, frame.message, frame.halfClose, frame.trailer, frame.reset, none⟩ := by
    refine Reads.kind faithful (fun m v => { m with reset := some v }) (by decide) rfl fits.length ?_
      (fun none_ => by rw [none_]) (fun n some_ => by rw [some_]) ?_
    · intro n some_
      simp [Frame.fields, Option.mem_def.mp some_]
    · intro n some_ short
      obtain ⟨number, text⟩ := fits.reset n some_
      exact Reset.reads faithful number text short
  have header : Reads reader (frameField reader)
      ⟨frame.subscribe, frame.message, frame.halfClose, frame.trailer, frame.reset, none⟩
      (frame.header.toList.map fun v => (66, delimited (encodeFields v.fields))) frame := by
    refine Reads.kind faithful (fun m v => { m with header := some v }) (by decide) rfl fits.length ?_
      (fun none_ => by rw [← none_]) (fun n some_ => by rw [← some_]) ?_
    · intro n some_
      simp [Frame.fields, Option.mem_def.mp some_]
    · exact fun n some_ short => Header.reads faithful (fits.header n some_) short
  exact ((((subscribe.append message).append halfClose).append trailer).append reset).append header

end RoundTrip

end Ts

namespace Ws

def Subscribe.fields (sub : Subscribe) : List (Nat × Bytes) :=
  (if sub.method = [] then [] else [(10, delimited (Utf8.encode sub.method))]) ++
    (sub.headers.map fun m => (18, delimited (encodeFields m.fields))) ++
    (if sub.timeoutMillis = 0 then [] else [(24, varint sub.timeoutMillis)]) ++
    (if sub.initialPayload = [] then [] else [(34, delimited sub.initialPayload)])

/-- The one field that a kind is in a frame of a server. -/
def Kind.field : Kind → Nat × Bytes
  | .subscribe sub => (10, delimited (encodeFields sub.fields))
  | .message payload =>
      (18, delimited (encodeFields (if payload = [] then [] else [(10, delimited payload)])))
  | .halfClose => (26, delimited [])
  | .trailer code text trailers => (34, delimited (encodeFields (Trailer.fields ⟨code, text, trailers⟩)))
  | .reset code text => (42, delimited (encodeFields (Trailer.fields ⟨code, text, []⟩)))
  | .header headers =>
      (66, delimited (encodeFields (headers.map fun m => (10, delimited (encodeFields m.fields)))))

/-- `encode_frame`. -/
def encodeFrame (kind : Kind) : Bytes := encodeFields [kind.field]

end Ws

namespace Ts

/-- An entry of a server as the client is to have it. -/
def Metadatum.of (m : GrpcWebnext.Metadatum) : Metadatum :=
  match m.value with
  | some (.ascii value) => ⟨m.key, some (Utf8.decodeLossy value), none⟩
  | some (.bin value) => ⟨m.key, none, some value⟩
  | none => ⟨m.key, none, none⟩

/-- A frame of a server as the client is to have it: the one kind is set, and no other. -/
def Frame.of : Ws.Kind → Frame
  | .subscribe sub =>
      { Frame.base with subscribe := some ⟨sub.method, sub.headers.map .of, sub.timeoutMillis,
        sub.initialPayload⟩ }
  | .message payload => { Frame.base with message := some ⟨payload⟩ }
  | .halfClose => { Frame.base with halfClose := some ⟨⟩ }
  | .trailer code message trailers =>
      { Frame.base with trailer := some ⟨code, Utf8.decodeLossy message, trailers.map .of⟩ }
  | .reset code message => { Frame.base with reset := some ⟨code, Utf8.decodeLossy message⟩ }
  | .header headers => { Frame.base with header := some ⟨headers.map .of⟩ }

end Ts

/-- A server's entry whose value, where it is a string, is text. -/
def Metadatum.Text (m : Metadatum) : Prop := ∀ value, m.value = some (.ascii value) → Utf8.valid value

def Ws.Kind.Text : Ws.Kind → Prop
  | .subscribe sub => ∀ m ∈ sub.headers, m.Text
  | .trailer _ text trailers => Utf8.valid text ∧ ∀ m ∈ trailers, m.Text
  | .reset _ text => Utf8.valid text
  | .header headers => ∀ m ∈ headers, m.Text
  | .message _ | .halfClose => True

namespace Ts

theorem Metadatum.of_fields {m : GrpcWebnext.Metadatum} (text : m.Text) :
    (Metadatum.of m).fields = m.fields := by
  obtain ⟨key, value⟩ := m
  unfold Metadatum.of Metadatum.fields GrpcWebnext.Metadatum.fields
  cases value with
  | none =>
      simp only [Option.toList_none, List.map_nil, List.append_nil]
  | some value =>
      cases value with
      | ascii raw =>
          have same : Utf8.encode (Utf8.decodeLossy raw) = raw := by simpa [Utf8.valid] using text raw rfl
          simp only [Option.toList_none, Option.toList_some, List.map_nil, List.map_cons,
            List.append_nil, same]
          | bin raw =>
          simp only [Option.toList_none, Option.toList_some, List.map_nil, List.map_cons, List.append_nil]
    
theorem of_entries {entries : List GrpcWebnext.Metadatum} (text : ∀ m ∈ entries, m.Text) (tag : Nat) :
    ((entries.map Metadatum.of).map fun v => (tag, delimited (encodeFields v.fields))) =
      entries.map fun m => (tag, delimited (encodeFields m.fields)) := by
  rw [List.map_map]
  refine List.map_congr_left fun m inside => ?_
  rw [Function.comp_apply, Metadatum.of_fields (text m inside)]

/-- A status message that is text is no other string for its bytes. -/
theorem decodeLossy_eq_nil {bytes : Bytes} (text : Utf8.valid bytes) :
    Utf8.decodeLossy bytes = [] ↔ bytes = [] := by
  have same : Utf8.encode (Utf8.decodeLossy bytes) = bytes := by simpa [Utf8.valid] using text
  constructor
  · intro empty
    rw [← same, empty]
    rfl
  · intro empty
    rw [empty]
    rfl

theorem Trailer.of_fields {code : Nat} {message : Bytes} {trailers : List GrpcWebnext.Metadatum}
    (valid : Utf8.valid message) (text : ∀ m ∈ trailers, m.Text) :
    Trailer.fields ⟨code, Utf8.decodeLossy message, trailers.map .of⟩ =
      GrpcWebnext.Trailer.fields ⟨code, message, trailers⟩ := by
  have same : Utf8.encode (Utf8.decodeLossy message) = message := by simpa [Utf8.valid] using valid
  simp only [Trailer.fields, GrpcWebnext.Trailer.fields, of_entries text, decodeLossy_eq_nil valid,
    same, List.append_assoc]

theorem Subscribe.of_fields {sub : Ws.Subscribe} (text : ∀ m ∈ sub.headers, m.Text) :
    Subscribe.fields ⟨sub.method, sub.headers.map .of, sub.timeoutMillis, sub.initialPayload⟩ =
      sub.fields := by
  simp only [Subscribe.fields, Ws.Subscribe.fields, of_entries text]

/-- Both ends write a frame of one kind alike. -/
theorem Frame.of_fields {kind : Ws.Kind} (text : kind.Text) : (Frame.of kind).fields = [kind.field] := by
  cases kind with
  | subscribe sub =>
      rw [Ws.Kind.field, ← Subscribe.of_fields text]
      rfl
  | message payload => rfl
  | halfClose => rfl
  | trailer code message trailers =>
      rw [Ws.Kind.field, ← Trailer.of_fields text.1 text.2]
      rfl
  | reset code message =>
      have alike : Trailer.fields ⟨code, Utf8.decodeLossy message, []⟩ =
        GrpcWebnext.Trailer.fields ⟨code, message, []⟩ :=
        Trailer.of_fields text fun m inside => absurd inside List.not_mem_nil
      simp only [Frame.of, Frame.base, Frame.fields, Ws.Kind.field, ← alike]
      simp [Trailer.fields, Reset.fields]
  | header headers =>
      rw [Ws.Kind.field, ← of_entries text]
      rfl

end Ts
end GrpcWebnext
