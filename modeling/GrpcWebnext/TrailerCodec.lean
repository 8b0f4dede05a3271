import GrpcWebnext.FetchResponse
import GrpcWebnext.Library.ProtoWire

/-! The `Trailer` message on the wire: the encoding the servers emit, and the generated
decoder of the TypeScript client. -/
namespace GrpcWebnext
open Framing (Bytes)
open ProtoWire
open Text (Str)

/-- The fields of a `Metadatum` in number order, the default key left out. -/
def Metadatum.fields (m : Metadatum) : List (Nat × Bytes) :=
  (if m.key = [] then [] else [(10, delimited (Utf8.encode m.key))]) ++
    match m.value with
    | some (.ascii value) => [(18, delimited value)]
    | some (.bin value) => [(26, delimited value)]
    | none => []

def Trailer.fields (t : Trailer) : List (Nat × Bytes) :=
  (if t.statusCode = 0 then [] else [(8, varint t.statusCode)]) ++
    ((if t.statusMessage = [] then [] else [(18, delimited t.statusMessage)]) ++
      t.trailers.map fun m => (26, delimited (encodeFields m.fields)))

def Trailer.encode (t : Trailer) : Bytes := encodeFields t.fields

/-- `encode_trailer_block`; the length is cast to 32 bits. -/
def encodeTrailerBlock (t : Trailer) : Bytes := Framing.be32 t.encode.length ++ t.encode

/-- `encodeTrailerBlock` of the Go server. -/
def Go.encodeTrailerBlock (t : Trailer) : Bytes :=
  let body := if Go.marshals t then t.encode else []
  Framing.be32 body.length ++ body

theorem Go.encodeTrailerBlock_eq (t : Trailer) :
    Go.encodeTrailerBlock t = GrpcWebnext.encodeTrailerBlock (Go.sealed t) := by
  unfold Go.encodeTrailerBlock Go.sealed
  cases Go.marshals t <;> rfl

namespace Ts

structure Metadatum where
  key : Str
  asciiValue : Option Str
  binValue : Option Bytes
  deriving DecidableEq

structure Trailer where
  statusCode : Nat
  statusMessage : Str
  trailers : List Metadatum
  deriving DecidableEq

/-- The cases of `Metadatum.decode`; any other tag falls through to the skip. -/
def metadatumField (reader : Reader) (tag : Nat) :
    Option (Metadatum → Bytes → Option (Metadatum × Bytes)) :=
  match tag with
  | 10 => some fun m rest => (reader.string rest).map fun (key, rest) => ({ m with key := key }, rest)
  | 18 => some fun m rest =>
      (reader.string rest).map fun (value, rest) => ({ m with asciiValue := some value }, rest)
  | 26 => some fun m rest =>
      (reader.bytes rest).map fun (value, rest) => ({ m with binValue := some value }, rest)
  | _ => none

/-- `Metadatum.decode(reader, length)`. -/
def decodeMetadatum (reader : Reader) (length : Nat) (rest : Bytes) : Option (Metadatum × Bytes) :=
  readFields reader (metadatumField reader) rest.length ((rest.length : Int) - length)
    ⟨[], none, none⟩ rest

def trailerField (reader : Reader) (tag : Nat) :
    Option (Trailer → Bytes → Option (Trailer × Bytes)) :=
  match tag with
  | 8 => some fun t rest =>
      (reader.uint32 rest).map fun (code, rest) => ({ t with statusCode := code }, rest)
  | 18 => some fun t rest =>
      (reader.string rest).map fun (text, rest) => ({ t with statusMessage := text }, rest)
  | 26 => some fun t rest => match reader.uint32 rest with
    | none => none
    | some (length, rest) => (decodeMetadatum reader length rest).map fun (m, rest) =>
        ({ t with trailers := t.trailers ++ [m] }, rest)
  | _ => none

/-- `Trailer.decode(input)`; a throw is `none`. -/
def decodeTrailer (reader : Reader) (input : Bytes) : Option Trailer :=
  (readFields reader (trailerField reader) input.length 0 ⟨0, [], []⟩ input).map Prod.fst

end Ts

section RoundTrip
variable {reader : Reader} (lawful : reader.Lawful)
include lawful

theorem Metadatum.decodes (m : Metadatum) (small : (encodeFields m.fields).length < 2 ^ 32) :
    ∃ last, Decodes (Ts.metadatumField reader) ⟨[], none, none⟩ m.fields last := by
  have fits : ∀ tag bytes, (tag, delimited bytes) ∈ m.fields → bytes.length < 2 ^ 32 := by
    intro tag bytes member
    exact Nat.lt_of_le_of_lt
      (Nat.le_trans (length_le_delimited bytes) (length_le_of_mem member)) small
  have first : ∃ next, Decodes (Ts.metadatumField reader) ⟨[], none, none⟩
      (if m.key = [] then [] else [(10, delimited (Utf8.encode m.key))]) next := by
    split
    · exact ⟨_, .nil _⟩
    · rename_i some
      obtain ⟨text, reads⟩ := lawful.string (Utf8.encode m.key)
        (fits 10 _ (by simp [Metadatum.fields, some]))
      refine ⟨{ key := text, asciiValue := none, binValue := none }, .cons (by decide) rfl ?_ (.nil _)⟩
      intro rest
      simp only [reads, Option.map_some]
  obtain ⟨next, front⟩ := first
  cases value : m.value with
  | none =>
      refine ⟨next, ?_⟩
      simpa [Metadatum.fields, value] using front
  | some v =>
      cases v with
      | ascii raw =>
          obtain ⟨text, reads⟩ := lawful.string raw (fits 18 _ (by simp [Metadatum.fields, value]))
          refine ⟨{ next with asciiValue := some text }, ?_⟩
          simp only [Metadatum.fields, value]
          refine front.append (.cons (by decide) rfl ?_ (.nil _))
          intro rest
          simp only [reads, Option.map_some]
      | bin raw =>
          have reads := fun rest =>
            lawful.bytes raw rest (fits 26 _ (by simp [Metadatum.fields, value]))
          refine ⟨{ next with binValue := some raw }, ?_⟩
          simp only [Metadatum.fields, value]
          refine front.append (.cons (by decide) rfl ?_ (.nil _))
          intro rest
          simp only [reads, Option.map_some]

theorem Metadatum.decode_encode (m : Metadatum) (small : (encodeFields m.fields).length < 2 ^ 32) :
    ∃ last, ∀ rest, Ts.decodeMetadatum reader (encodeFields m.fields).length
      (encodeFields m.fields ++ rest) = some (last, rest) := by
  obtain ⟨last, decodes⟩ := m.decodes lawful small
  refine ⟨last, fun rest => ?_⟩
  have stop : ((encodeFields m.fields ++ rest).length : Int) - (encodeFields m.fields).length =
      rest.length := by
    rw [List.length_append]
    omega
  have enough := length_le_encodeFields m.fields
  unfold Ts.decodeMetadatum
  rw [stop]
  exact readFields_decodes lawful decodes rest _ (by rw [List.length_append]; omega)

/-- Trailing metadata leaves the status code alone. -/
theorem Trailer.decodes_trailers (metadata : List Metadatum)
    (small : ∀ m ∈ metadata, (encodeFields m.fields).length < 2 ^ 32) :
    ∀ t : Ts.Trailer, ∃ last, Decodes (Ts.trailerField reader) t
      (metadata.map fun m => (26, delimited (encodeFields m.fields))) last ∧
        last.statusCode = t.statusCode := by
  induction metadata with
  | nil =>
      intro t
      exact ⟨t, .nil t, rfl⟩
  | cons m metadata ih =>
      intro t
      have fits := small m List.mem_cons_self
      obtain ⟨read, reads⟩ := m.decode_encode lawful fits
      obtain ⟨last, later, code⟩ := ih (fun other member => small other (List.mem_cons_of_mem m member))
        { t with trailers := t.trailers ++ [read] }
      refine ⟨last, .cons (by decide) rfl ?_ later, code⟩
      intro rest
      simp only [delimited, List.append_assoc, lawful.uint32 _ _ fits, reads, Option.map_some]

theorem Trailer.decodes (t : Trailer) (code : t.statusCode < 2 ^ 32)
    (small : t.encode.length < 2 ^ 32) :
    ∃ last, Decodes (Ts.trailerField reader) ⟨0, [], []⟩ t.fields last ∧
      last.statusCode = t.statusCode := by
  have fits : ∀ tag bytes, (tag, delimited bytes) ∈ t.fields → bytes.length < 2 ^ 32 := by
    intro tag bytes member
    exact Nat.lt_of_le_of_lt
      (Nat.le_trans (length_le_delimited bytes) (length_le_of_mem member)) small
  have first : Decodes (Ts.trailerField reader) ⟨0, [], []⟩
      (if t.statusCode = 0 then [] else [(8, varint t.statusCode)]) ⟨t.statusCode, [], []⟩ := by
    split
    · rename_i zero
      rw [zero]
      exact .nil _
    · refine .cons (by decide) rfl ?_ (.nil _)
      intro rest
      simp only [lawful.uint32 _ rest code, Option.map_some]
  have second : ∃ next, Decodes (Ts.trailerField reader) ⟨t.statusCode, [], []⟩
      (if t.statusMessage = [] then [] else [(18, delimited t.statusMessage)]) next ∧
        next.statusCode = t.statusCode := by
    split
    · exact ⟨_, .nil _, rfl⟩
    · rename_i some
      obtain ⟨text, reads⟩ := lawful.string t.statusMessage
        (fits 18 _ (by simp [Trailer.fields, some]))
      refine ⟨{ statusCode := t.statusCode, statusMessage := text, trailers := [] },
        .cons (by decide) rfl ?_ (.nil _), rfl⟩
      intro rest
      simp only [reads, Option.map_some]
  obtain ⟨next, middle, kept⟩ := second
  obtain ⟨last, back, same⟩ := Trailer.decodes_trailers lawful t.trailers
    (fun m member => fits 26 _ (by
      simp only [Trailer.fields, List.mem_append, List.mem_map]
      exact .inr (.inr ⟨m, member, rfl⟩))) next
  exact ⟨last, first.append (middle.append back), same.trans kept⟩

/-- The client reads the status code back that the server wrote. -/
theorem Trailer.decode_encode (t : Trailer) (code : t.statusCode < 2 ^ 32)
    (small : t.encode.length < 2 ^ 32) :
    ∃ last, Ts.decodeTrailer reader t.encode = some last ∧ last.statusCode = t.statusCode := by
  obtain ⟨last, decodes, same⟩ := t.decodes lawful code small
  refine ⟨last, ?_, same⟩
  have whole := readFields_decodes lawful decodes [] t.encode.length (length_le_encodeFields t.fields)
  rw [List.append_nil] at whole
  unfold Ts.decodeTrailer
  exact congrArg (Option.map Prod.fst) whole

end RoundTrip
end GrpcWebnext
