import GrpcWebnext.MetadataParity.Items

/-! Headers as the metadata of a frame, `metadata_to_vec` of `metadata.rs` and
`headersToMetadataList` of `metadata.go`, and where the two servers convert alike. -/
namespace GrpcWebnext
open Framing (Bytes)
open Text (Str)

namespace Go

/-- Go's decoders pass over line breaks, and over spare bits that are set. -/
def decodeString (takes : Nat → Nat → Bool) (value : Bytes) : Option Bytes :=
  Base64.decode takes false (value.filter fun b => b != 10 && b != 13)

def decodeBinHeader (value : Bytes) : Option Bytes :=
  if value.length % 4 = 0 then decodeString (fun wanted found => found = wanted) value
  else decodeString (fun _ found => found = 0) value

end Go

/-- A header map, with values that may stand in a header. -/
structure HeaderBlock where
  entries : HeaderMap
  legal : ∀ e ∈ entries, Go.validHeaderValue e.2 = true

/-- The values of a key among metadata. -/
def valuesOf (key : Str) (items : List Metadatum) : List (Option MetaValue) :=
  (items.filter fun m => m.key = key).map Metadatum.value

def SameMetadata [Rust.Crates] (headers : HeaderBlock) : Prop :=
  ∀ key, valuesOf key (Rust.metadataToVec Rust.toBytes headers.entries) =
    valuesOf key (Go.headersToMetadataList Go.decodeBinHeader headers.entries)

/-- A base64 value that stands for bytes: whether its spare bits are zero, and whether its
padding is all there or all missing. -/
structure Reading where
  bytes : Bytes
  clean : Bool
  even : Bool

def reading (value : Bytes) : Option Reading :=
  let wanted := Base64.wanted (Base64.digitsOf value).length
  let found := (Base64.paddingOf value).length
  if found ≤ wanted then (Base64.spelled value).map fun (bytes, spare) =>
    ⟨bytes, spare = 0, found = 0 ∨ found = wanted⟩
  else none

theorem toBytes_eq [Rust.Crates] (value : Bytes) :
    Rust.toBytes value = (reading value).bind fun r => if r.clean then some r.bytes else none := by
  rw [Rust.Crates.toBytes_spec]
  unfold reading
  by_cases few : (Base64.paddingOf value).length ≤ Base64.wanted (Base64.digitsOf value).length
  · rw [Base64.decode_of_takes true (decide_eq_true few)]
    dsimp only
    rw [if_pos few, Option.bind_map]
    refine Option.bind_congr fun x _ => ?_
    by_cases zero : x.2 = 0 <;> simp [zero]
  · rw [Base64.decode_of_not_takes true (decide_eq_false few)]
    dsimp only
    rw [if_neg few, Option.bind_none]

/-- There are no line breaks in a header value. -/
theorem decodeString_legal {value : Bytes} (legal : Go.validHeaderValue value = true)
    (takes : Nat → Nat → Bool) :
    Go.decodeString takes value = Base64.decode takes false value := by
  have same : value.filter (fun b => b != 10 && b != 13) = value := by
    refine List.filter_eq_self.mpr fun b inside => ?_
    have fits := List.all_eq_true.mp legal b inside
    rw [Bool.and_eq_true, bne_iff_ne, bne_iff_ne]
    constructor
    · rintro rfl
      exact absurd fits (by decide)
    · rintro rfl
      exact absurd fits (by decide)
  rw [Go.decodeString, same]

theorem decodeBinHeader_eq {value : Bytes} (legal : Go.validHeaderValue value = true) :
    Go.decodeBinHeader value = (reading value).bind fun r => if r.even then some r.bytes else none := by
  unfold Go.decodeBinHeader reading
  rw [decodeString_legal legal, decodeString_legal legal]
  dsimp only
  have all : (fun x : Bytes × Nat => if false = true ∧ x.2 ≠ 0 then none else some x.1) = fun x =>
    some x.1 := by
    funext x
    exact if_neg fun impossible => absurd impossible.1 Bool.false_ne_true
  by_cases few : (Base64.paddingOf value).length ≤ Base64.wanted (Base64.digitsOf value).length
  · have full := @Base64.padded_iff value (by unfold Base64.wanted at few; omega)
    rw [if_pos few, Option.bind_map]
    by_cases whole : value.length % 4 = 0
    · have padded := full.mpr whole
      rw [if_pos whole, Base64.decode_of_takes false (decide_eq_true padded), all]
      refine Option.bind_congr fun x _ => ?_
      simp [padded]
    · rw [if_neg whole]
      by_cases bare : (Base64.paddingOf value).length = 0
      · rw [Base64.decode_of_takes false (decide_eq_true bare), all]
        refine Option.bind_congr fun x _ => ?_
        simp [bare]
      · rw [Base64.decode_of_not_takes false (decide_eq_false bare)]
        have odd := mt full.mp whole
        cases Base64.spelled value <;> simp [bare, odd]
  · rw [if_neg few, Option.bind_none]
    split
    · exact Base64.decode_of_not_takes false (decide_eq_false fun same => few (Nat.le_of_eq same))
    · exact Base64.decode_of_not_takes false (decide_eq_false fun bare => few (bare ▸ Nat.zero_le _))

/-- The metadata of a key comes from the values of that name. -/
theorem valuesOf_filterMap (key : Str) (convert : Bytes → Option MetaValue)
    (entry : Str × Bytes → Option Metadatum)
    (named : ∀ value, entry (key, value) = (convert value).map fun v => ⟨key, some v⟩)
    (keyed : ∀ e m, entry e = some m → m.key = e.1) (headers : HeaderMap) :
    valuesOf key (headers.filterMap entry) = ((valuesAt key headers).filterMap convert).map some := by
  induction headers with
  | nil => rfl
  | cons e rest ih =>
      obtain ⟨name, value⟩ := e
      unfold valuesOf valuesAt at ih ⊢
      by_cases same : name = key
      · subst same
        rw [List.filterMap_cons, named, List.filter_cons_of_pos (by simp), List.map_cons, List.filterMap_cons]
        cases convert value with
        | none => exact ih
        | some v =>
            dsimp only [Option.map_some]
            rw [List.filter_cons_of_pos (by simp), List.map_cons, List.map_cons, ih]
      · rw [List.filter_cons_of_neg (by simpa using same), List.filterMap_cons]
        cases converted : entry (name, value) with
        | none => exact ih
        | some m =>
            have other : m.key ≠ key := fun is => same ((keyed _ _ converted).symm.trans is)
            dsimp only
            rw [List.filter_cons_of_neg (by simpa using other)]
            exact ih

def Rust.converted (fromBase64 : Bytes → Option Bytes) (key : Str) (value : Bytes) : Option MetaValue :=
  if isDenied key then none
  else if isBinKey key then (fromBase64 value).map .bin
  else (toStr value).map fun _ => .ascii value

def Go.converted (fromBase64 : Bytes → Option Bytes) (key : Str) (value : Bytes) : Option MetaValue :=
  if isDeniedHeader key then none
  else if isBinKey key then (fromBase64 value).map .bin
  else some (.ascii value)

theorem valuesOf_metadataToVec (fromBase64 : Bytes → Option Bytes) (key : Str) (headers : HeaderMap) :
    valuesOf key (Rust.metadataToVec fromBase64 headers) =
      ((valuesAt key headers).filterMap (Rust.converted fromBase64 key)).map some := by
  refine valuesOf_filterMap key _ _ (fun value => ?_) (fun e m converted => ?_) headers
  · dsimp only [Rust.converted]
    split
    · rfl
    · split <;> rw [Option.map_map] <;> rfl
  · obtain ⟨name, value⟩ := e
    dsimp only at converted ⊢
    split at converted
    · cases converted
    · split at converted <;> obtain ⟨_, _, rfl⟩ := Option.map_eq_some_iff.mp converted <;> rfl

theorem valuesOf_headersToMetadataList (fromBase64 : Bytes → Option Bytes) (key : Str) (headers : HeaderMap) :
    valuesOf key (Go.headersToMetadataList fromBase64 headers) =
      ((valuesAt key headers).filterMap (Go.converted fromBase64 key)).map some := by
  refine valuesOf_filterMap key _ _ (fun value => ?_) (fun e m converted => ?_) headers
  · dsimp only [Go.converted]
    split
    · rfl
    · split
      · rw [Option.map_map]
        rfl
      · rfl
  · obtain ⟨name, value⟩ := e
    dsimp only at converted ⊢
    split at converted
    · cases converted
    · split at converted
      · obtain ⟨_, _, rfl⟩ := Option.map_eq_some_iff.mp converted
        rfl
      · cases converted
        rfl

/-- The values of a `-bin` key are read in step: of those that stand for bytes, the ones with
zero spare bits carry what the ones with all or none of their padding carry. -/
def InStep (values : List Bytes) : Prop :=
  ((values.filterMap reading).filter Reading.clean).map Reading.bytes =
    ((values.filterMap reading).filter Reading.even).map Reading.bytes

/-- The header maps that both servers make the same metadata of. -/
structure HeaderBlock.Alike (headers : HeaderBlock) : Prop where
  trailer : ∀ value ∈ valuesAt "trailer".toList headers.entries, toStr value = none
  ascii : ∀ key, Go.isDeniedHeader key = false → isBinKey key = false →
    ∀ value ∈ valuesAt key headers.entries, (toStr value).isSome
  bin : ∀ key, Rust.isDenied key = false → isBinKey key = true → InStep (valuesAt key headers.entries)

theorem filterMap_reading (reads : Reading → Bool) (values : List Bytes) :
    values.filterMap (fun value => (reading value).bind fun r => if reads r then some r.bytes else none) =
      ((values.filterMap reading).filter reads).map Reading.bytes := by
  induction values with
  | nil => rfl
  | cons value rest ih =>
      rw [List.filterMap_cons, List.filterMap_cons]
      cases reading value with
      | none => exact ih
      | some r =>
          rw [List.filter_cons]
          cases taken : reads r <;> simp [taken, ih]

theorem legal_of_valuesAt {headers : HeaderBlock} {key : Str} {value : Bytes}
    (inside : value ∈ valuesAt key headers.entries) : Go.validHeaderValue value = true := by
  obtain ⟨e, found, rfl⟩ := List.mem_map.mp inside
  exact headers.legal e (List.mem_filter.mp found).1

theorem inStep_iff [Rust.Crates] (headers : HeaderBlock) (key : Str) :
    (valuesAt key headers.entries).filterMap Rust.toBytes =
      (valuesAt key headers.entries).filterMap Go.decodeBinHeader ↔
      InStep (valuesAt key headers.entries) := by
  rw [InStep, ← filterMap_reading, ← filterMap_reading, List.filterMap_congr fun value _ => toBytes_eq value,
    List.filterMap_congr fun value inside => decodeBinHeader_eq (legal_of_valuesAt inside)]

/-- Values are all kept when each of them can be shown. -/
theorem filterMap_visible_iff (values : List Bytes) :
    (values.filterMap fun value => (toStr value).map fun _ => MetaValue.ascii value) =
        values.filterMap (fun value => some (.ascii value)) ↔
      ∀ value ∈ values, (toStr value).isSome := by
  constructor
  · intro same value inside
    by_contra hidden
    have none : ((toStr value).map fun _ => MetaValue.ascii value) = none := by simpa using hidden
    have fewer : (values.filterMap fun value => (toStr value).map fun _ =>
      MetaValue.ascii value).length < values.length :=
      List.length_filterMap_lt_length_iff_exists.mpr ⟨value, inside, none⟩
    rw [same, List.filterMap_eq_map', List.length_map] at fewer
    exact absurd fewer (Nat.lt_irrefl _)
  · intro visible
    refine List.filterMap_congr fun value inside => ?_
    obtain ⟨text, shown⟩ := Option.isSome_iff_exists.mp (visible value inside)
    rw [shown]
    rfl

theorem converted_iff [Rust.Crates] (headers : HeaderBlock) (key : Str) :
    valuesOf key (Rust.metadataToVec Rust.toBytes headers.entries) =
        valuesOf key (Go.headersToMetadataList Go.decodeBinHeader headers.entries) ↔
      (key = "trailer".toList → ∀ value ∈ valuesAt key headers.entries, toStr value = none) ∧
      (Go.isDeniedHeader key = false → isBinKey key = false →
        ∀ value ∈ valuesAt key headers.entries, (toStr value).isSome) ∧
      (Rust.isDenied key = false → isBinKey key = true → InStep (valuesAt key headers.entries)) := by
  have some_injective : Function.Injective (some : MetaValue → Option MetaValue) :=
    fun a b same => Option.some.inj same
  rw [valuesOf_metadataToVec, valuesOf_headersToMetadataList,
    (List.map_injective_iff.mpr some_injective).eq_iff]
  have dropped : (valuesAt key headers.entries).filterMap (fun _ => (none : Option MetaValue)) = [] :=
    List.filterMap_eq_nil_iff.mpr fun _ _ => rfl
  cases denied : Rust.isDenied key with
  | true =>
      have other : key ≠ "trailer".toList := by
        rintro rfl
        exact absurd denied (by decide)
      have both : Go.isDeniedHeader key = true := Bool.or_eq_true_iff.mpr (.inr denied)
      have none : ∀ value, Rust.converted Rust.toBytes key value =
        Go.converted Go.decodeBinHeader key value :=
        fun value => (if_pos denied).trans (if_pos both).symm
      refine iff_of_true (List.filterMap_congr fun value _ => none value)
        ⟨fun same => absurd same other, ?_, ?_⟩
      · exact fun allowed => absurd (both.symm.trans allowed) Bool.true_eq_false.mp
      · exact fun allowed => absurd allowed Bool.true_eq_false.mp
  | false =>
      by_cases trailer : key = "trailer".toList
      · subst trailer
        have refused : Go.isDeniedHeader "trailer".toList = true := by decide
        have plain : isBinKey "trailer".toList = false := by decide
        have shown : ∀ value, Rust.converted Rust.toBytes "trailer".toList value =
            (toStr value).map fun _ => MetaValue.ascii value := by
          intro value
          rw [Rust.converted, denied, plain]
          rfl
        have hidden : ∀ value, Go.converted Go.decodeBinHeader "trailer".toList value = none :=
          fun value => if_pos refused
        simp only [shown, hidden, dropped, List.filterMap_eq_nil_iff, Option.map_eq_none_iff, refused, plain,
          Bool.true_eq_false, Bool.false_eq_true, false_implies, implies_true, and_true, forall_const]
      · have allowed : Go.isDeniedHeader key = false :=
          Bool.or_eq_false_iff.mpr ⟨decide_eq_false trailer, denied⟩
        cases bin : isBinKey key with
        | true =>
            have rust : ∀ value, Rust.converted Rust.toBytes key value = (Rust.toBytes value).map .bin := by
              intro value
              rw [Rust.converted, denied, bin]
              rfl
            have go : ∀ value, Go.converted Go.decodeBinHeader key value =
              (Go.decodeBinHeader value).map .bin := by
              intro value
              rw [Go.converted, allowed, bin]
              rfl
            have injective : Function.Injective MetaValue.bin := fun a b same => MetaValue.bin.inj same
            simp only [rust, go, ← List.map_filterMap]
            rw [(List.map_injective_iff.mpr injective).eq_iff, inStep_iff]
            refine ⟨fun step => ⟨fun same => absurd same trailer, ?_, fun _ _ => step⟩, fun alike =>
              alike.2.2 trivial trivial⟩
            exact fun _ plain => absurd plain.symm Bool.false_ne_true
        | false =>
            have rust : ∀ value, Rust.converted Rust.toBytes key value = (toStr value).map fun _ =>
              .ascii value := by
              intro value
              rw [Rust.converted, denied, bin]
              rfl
            have go : ∀ value, Go.converted Go.decodeBinHeader key value = some (.ascii value) := by
              intro value
              rw [Go.converted, allowed, bin]
              rfl
            simp only [rust, go]
            rw [filterMap_visible_iff]
            refine ⟨fun visible => ⟨fun same => absurd same trailer, fun _ _ => visible, ?_⟩,
              fun alike => alike.2.1 allowed trivial⟩
            exact fun _ binary => absurd binary Bool.false_ne_true

theorem sameMetadata_iff [Rust.Crates] (headers : HeaderBlock) : SameMetadata headers ↔ headers.Alike := by
  constructor
  · intro same
    have each := fun key => (converted_iff headers key).mp (same key)
    exact ⟨(each _).1 rfl, fun key => (each key).2.1, fun key => (each key).2.2⟩
  · rintro alike key
    refine (converted_iff headers key).mpr ⟨?_, alike.ascii key, alike.bin key⟩
    rintro rfl
    exact alike.trailer

/-- Where the two servers convert metadata alike, in both directions. -/
theorem metadata_parity_iff [Rust.Crates] (lowering : Lowering) (items : List Metadatum)
    (headers : HeaderBlock) :
    (SameHeaders lowering items ↔ ∀ m ∈ items, m.Alike lowering) ∧ (SameMetadata headers ↔ headers.Alike) :=
  ⟨sameHeaders_iff lowering items, sameMetadata_iff headers⟩

/-- Lower case for ASCII and the two characters beyond it that matter. -/
def asciiLowering : Lowering where
  rune c := if c = '\u212a' then 'k' else if c = '\u0130' then 'i' else c.toLower
  ascii c small := by
    rw [if_neg, if_neg]
    · rintro rfl
      exact absurd small (by decide)
    · rintro rfl
      exact absurd small (by decide)
  kelvin := if_pos rfl
  dotted := rfl
  beyond c wide small := by
    by_contra other
    obtain ⟨kelvin, dotted⟩ := not_or.mp other
    rw [if_neg kelvin, if_neg dotted, Char.toLower] at small
    split at small
    · rename_i upper
      have top : c.val.toNat ≤ 90 := UInt32.le_iff_toNat_le.mp upper.2
      exact absurd wide (Nat.not_le.mpr (Nat.lt_of_le_of_lt top (by decide)))
    · exact absurd small (Nat.not_lt.mpr wide)

/-- Only Rust takes an entry named `trailer`, and only Go takes one of ASCII under a `-bin` key.
Only Rust shows a header named `trailer`. -/
theorem parity_broken :
    ¬ @SameHeaders Rust.published asciiLowering [⟨"trailer".toList, some (.ascii [120])⟩] ∧
      ¬ @SameHeaders Rust.published asciiLowering [⟨"x-bin".toList, some (.ascii [120])⟩] ∧
      ¬ @SameMetadata Rust.published ⟨[("trailer".toList, [120])], by decide⟩ := by
  let _ : Rust.Crates := Rust.published
  refine ⟨fun same => ?_, fun same => ?_, fun same => ?_⟩
  · exact absurd (same.kept _ List.mem_cons_self) (by decide)
  · exact absurd (same.kept _ List.mem_cons_self) (by decide)
  · exact absurd (same "trailer".toList) (by decide)

end GrpcWebnext