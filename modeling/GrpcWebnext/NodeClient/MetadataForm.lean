import GrpcWebnext.Library.Base64
import GrpcWebnext.Library.Fallible
import GrpcWebnext.Library.Text
import GrpcWebnext.Metadata
import GrpcWebnext.MetadataParity.Items
import Mathlib.Data.List.Dedup
import Mathlib.Data.List.Lex
import Mathlib.Data.List.Sort

/-! The client's metadata in the form of `Headers`. The platform joins the values of one
name when they are read back, and binary values travel as base64. -/
namespace GrpcWebnext.MetadataForm
open Framing (Bytes)
open Text (Str)

/-- `toLowerCase`. It lowers ASCII letter by letter and leaves no capital of ASCII. -/
structure LowerCase where
  lower : Str → Str
  ascii : ∀ s : Str, (∀ c ∈ s, c.toNat < 128) → lower s = s.map Char.toLower
  lowered : ∀ s : Str, ∀ c ∈ lower s, c.toLower = c

inductive MetadataValue where
  | ascii (value : Str)
  | bin (bytes : Bytes)
deriving DecidableEq

/-- The values under a key of a map. -/
def valuesOf (key : Str) : List (Str × List MetadataValue) → List MetadataValue
  | [] => []
  | (other, values) :: rest => if other = key then values else valuesOf key rest

/-- A key that is in the map takes one more value, a new one goes to the end. -/
def push (key : Str) (value : MetadataValue) :
    List (Str × List MetadataValue) → List (Str × List MetadataValue)
  | [] => [(key, [value])]
  | (other, existing) :: rest =>
      if other = key then (other, existing ++ [value]) :: rest else (other, existing) :: push key value rest

theorem mem_push {key other : Str} {value : MetadataValue} {map : List (Str × List MetadataValue)} :
    other ∈ (push key value map).map Prod.fst ↔ other = key ∨ other ∈ map.map Prod.fst := by
  induction map with
  | nil => simp [push]
  | cons entry rest ih =>
      rw [push]
      split
      · rename_i same
        rw [List.map_cons, List.map_cons, List.mem_cons, ← same]
        exact ⟨.inr, fun known => known.elim .inl id⟩
      · rw [List.map_cons, List.mem_cons, ih, List.map_cons, List.mem_cons]
        exact or_left_comm

theorem push_distinct {key : Str} {value : MetadataValue} {map : List (Str × List MetadataValue)}
    (distinct : (map.map Prod.fst).Nodup) : ((push key value map).map Prod.fst).Nodup := by
  induction map with
  | nil => exact List.nodup_singleton key
  | cons entry rest ih =>
      rw [push]
      split
      · exact distinct
      · rename_i differs
        rw [List.map_cons, List.nodup_cons] at distinct ⊢
        refine ⟨?_, ih distinct.2⟩
        rw [mem_push, not_or]
        exact ⟨differs, distinct.1⟩

theorem valuesOf_push (key other : Str) (value : MetadataValue) (map : List (Str × List MetadataValue)) :
    valuesOf other (push key value map) =
      if key = other then valuesOf other map ++ [value] else valuesOf other map := by
  induction map with
  | nil => rfl
  | cons entry rest ih =>
      obtain ⟨here, values⟩ := entry
      rw [push]
      by_cases same : here = key
      · subst same
        rw [if_pos rfl, valuesOf, valuesOf]
        split <;> rfl
      · rw [if_neg same, valuesOf, valuesOf, ih]
        by_cases found : here = other
        · rw [if_pos found, if_pos found, if_neg fun also => same (found.trans also.symm)]
        · rw [if_neg found, if_neg found]

/-- `Metadata`: the values under each key, no key twice, and every key in lower case. -/
structure Metadata (js : LowerCase) where
  map : List (Str × List MetadataValue)
  distinct : (map.map Prod.fst).Nodup
  normalized : ∀ name ∈ map.map Prod.fst, ∃ key, js.lower key = name

section Class
variable {js : LowerCase}

def Metadata.empty : Metadata js := ⟨[], List.nodup_nil, List.forall_mem_nil _⟩

def Metadata.add (md : Metadata js) (key : Str) (value : MetadataValue) : Metadata js where
  map := push (js.lower key) value md.map
  distinct := push_distinct md.distinct
  normalized := by
    intro name member
    rcases mem_push.mp member with rfl | old
    · exact ⟨key, rfl⟩
    · exact md.normalized name old

def Metadata.get (md : Metadata js) (key : Str) : List MetadataValue := valuesOf (js.lower key) md.map

theorem Metadata.get_add (md : Metadata js) (key other : Str) (value : MetadataValue) :
    (md.add key value).get other =
      if js.lower key = js.lower other then md.get other ++ [value] else md.get other :=
  valuesOf_push _ _ _ _

end Class

/-- The whitespace that `Headers` takes off the ends of a value. -/
def isHttpWhitespace (c : Char) : Bool := c = '\t' || c = '\n' || c = '\r' || c = ' '

def normalizeValue (value : Str) : Str := (value.dropWhile isHttpWhitespace).rdropWhile isHttpWhitespace

def isHeaderName (name : Str) : Bool := !name.isEmpty && name.all Rust.isNameChar

/-- A value has no NUL and no line break. -/
def isHeaderValue (value : Str) : Bool := value.all fun c => !(c.toNat = 0 || c = '\n' || c = '\r')

def isByteString (s : Str) : Bool := s.all fun c => c.toNat < 256

/-- What `append` takes without a `TypeError`. -/
def acceptable (name value : Str) : Bool :=
  isByteString name && isByteString value && isHeaderName name && isHeaderValue (normalizeValue value)

structure Headers where
  list : List (Str × Str)

/-- `Headers.append`; how a repeated name is spelled shows nowhere. -/
def Headers.append (headers : Headers) (name value : Str) : Option Headers :=
  if acceptable name value then some ⟨headers.list ++ [(name, normalizeValue value)]⟩ else none

def byteLowercase (name : Str) : Str := name.map Char.toLower

def Headers.names (headers : Headers) : List Str :=
  (headers.list.map fun header => byteLowercase header.1).dedup.insertionSort (· ≤ ·)

def Headers.values (headers : Headers) (name : Str) : List Str :=
  headers.list.filterMap fun header => if byteLowercase header.1 = name then some header.2 else none

def join (values : List Str) : Str := ", ".toList.intercalate values

/-- What is read of one name: the joined values, except that cookies stay apart. -/
def Headers.combined (headers : Headers) (name : Str) : List (Str × Str) :=
  if name = "set-cookie".toList then (headers.values name).map fun value => (name, value)
  else [(name, join (headers.values name))]

/-- The pairs that `forEach` goes through. -/
def Headers.sortAndCombine (headers : Headers) : List (Str × Str) := headers.names.flatMap headers.combined

/-- `btoa` of the bytes as characters, or the buffer's `toString("base64")`. -/
def base64 (bytes : Bytes) : Str := (Base64.encodePadded bytes).map fun b => Char.ofNat b.toNat

def isAsciiWhitespace (c : Char) : Bool := isHttpWhitespace c || c.toNat = 12

/-- One or two padding characters at the end. -/
def dropPadding (data : Str) : Str :=
  match data.reverse with
  | '=' :: '=' :: rest => rest.reverse
  | '=' :: rest => rest.reverse
  | _ => data

def sextetOf (c : Char) : Option Nat :=
  if c.toNat < 128 then Base64.sextet (UInt8.ofNat c.toNat) else none

/-- `atob`: whitespace is passed over, padding is taken where it fills up the last group, and
any other character outside the alphabet is an error. -/
def atob (data : Str) : Option Bytes :=
  let data := data.filter fun c => !isAsciiWhitespace c
  let data := if data.length % 4 = 0 then dropPadding data else data
  ((data.mapM sextetOf).bind Base64.unpack).map Prod.fst

/-- The platform: whether it has `atob`, and what its buffers make of base64. -/
structure Host where
  hasAtob : Bool
  buffer : Str → Bytes
  decodes : ∀ bytes, buffer (base64 bytes) = bytes

def unbase64 (host : Host) (value : Str) : Option Bytes :=
  if host.hasAtob then atob value else some (host.buffer value)

def MetadataValue.text : MetadataValue → Str
  | .ascii value => value
  | .bin bytes => base64 bytes

section Conversions
variable {js : LowerCase}

def Metadata.toHeaders (md : Metadata js) : Option Headers :=
  md.map.foldlM (fun headers (key, values) =>
    values.foldlM (fun headers value => Headers.append headers key value.text) headers) ⟨[]⟩

/-- The loop of `fromHeaders`. -/
def addPairs (host : Host) : List (Str × Str) → Metadata js → Option (Metadata js)
  | [], md => some md
  | (key, value) :: pairs, md =>
      if isBinKey key then match unbase64 host value with
        | some bytes => addPairs host pairs (md.add key (.bin bytes))
        | none => none
      else addPairs host pairs (md.add key (.ascii value))

def fromHeaders (host : Host) (headers : Headers) : Option (Metadata js) :=
  addPairs host headers.sortAndCombine .empty

end Conversions

example : atob "AQ==, Ag==".toList = none := by decide

example : atob " A Q = = ".toList = some [1] := by decide

end GrpcWebnext.MetadataForm
