import GrpcWebnext.MetadataParity.Headers

/-! The metadata of a frame as headers and back, in each server on its own. -/
namespace GrpcWebnext
open Framing (Bytes)
open Text (Str)

namespace Rust
variable [Crates]

/-- The loop of `metadata_vec_to_metadata` over a `HeaderMap`, which may have no room for one
more entry: `none` is the panic of `append`. -/
def appendAll (room : HeaderMap → Bool) : HeaderMap → List Metadatum → Option HeaderMap
  | headers, [] => some headers
  | headers, m :: rest => match appended m with
    | none => appendAll room headers rest
    | some entry => if room headers then appendAll room (headers ++ [entry]) rest else none

/-- To headers and back. -/
def roundTrip (room : HeaderMap → Bool) (items : List Metadatum) : Option (List Metadatum) :=
  (appendAll room [] items).map (metadataToVec toBytes)

end Rust

namespace Go
variable (lowering : Lowering)

/-- `headersToMetadataList` of a map of canonical names, which are read in lower case. -/
def metadataOfHeaders (headers : HeaderMap) : List Metadatum :=
  headersToMetadataList decodeBinHeader (headers.map fun (name, value) => (toLower lowering name, value))

def roundTrip (items : List Metadatum) : List Metadatum :=
  metadataOfHeaders lowering (metadataListToHeaders lowering items)

end Go

/-- A header token in lower case that is not denied, with a value of the kind its suffix tells. -/
structure Metadatum.WellFormed (denied : Str → Bool) (m : Metadatum) : Prop where
  named : m.key ≠ []
  token : ∀ c ∈ m.key, Rust.isNameChar c = true ∧ c.toLower = c
  allowed : denied m.key = false
  value : match m.value with
    | some (.ascii value) => isBinKey m.key = false ∧ ∀ b ∈ value, 32 ≤ b ∧ b < 127
    | some (.bin _) => isBinKey m.key = true
    | none => False

/-- A `HeaderMap` takes all of the entries. -/
def HasRoom [Rust.Crates] (room : HeaderMap → Bool) (items : List Metadatum) : Prop :=
  ∀ front, front <+: Rust.metadataVecToMetadata items → room front = true

/-- The value of an entry in a header. -/
def Metadatum.wire (m : Metadatum) : Bytes :=
  match m.value with
  | some (.ascii value) => value
  | some (.bin value) => Base64.encode value
  | none => []

section Values

theorem toBytes_encode [Rust.Crates] (bytes : Bytes) : Rust.toBytes (Base64.encode bytes) = some bytes := by
  rw [Rust.Crates.toBytes_spec]
  have read := Base64.decode_encode (fun wanted found => found ≤ wanted) true bytes 0
  rw [List.replicate_zero, List.append_nil, if_pos (decide_eq_true (Nat.zero_le _))] at read
  exact read

theorem validHeaderValue_encode (bytes : Bytes) (k : Nat) :
    Go.validHeaderValue (Base64.encode bytes ++ List.replicate k Base64.pad) = true := by
  have digit : ∀ b ∈ Base64.encode bytes, 43 ≤ b ∧ b < 127 := by
    intro b inside
    rw [Base64.encode_eq_map] at inside
    obtain ⟨n, member, rfl⟩ := List.mem_map.mp inside
    exact (Base64.sextet_digit (Base64.sextets_lt bytes n member)).2.2
  have legal : ∀ b : UInt8, 43 ≤ b ∧ b < 127 → (!(decide (b < 32) && b != 9 || b == 0x7F)) = true := by
    decide +kernel
  rw [Go.validHeaderValue, List.all_append, Bool.and_eq_true, List.all_eq_true, List.all_eq_true]
  refine ⟨fun b inside => legal b (digit b inside), fun b inside => ?_⟩
  obtain rfl := List.eq_of_mem_replicate inside
  decide

/-- Go reads base64 with all of its padding and with none. -/
theorem decodeBinHeader_encode (bytes : Bytes) :
    Go.decodeBinHeader (Base64.encodePadded bytes) = some bytes ∧
    Go.decodeBinHeader (Base64.encode bytes) = some bytes := by
  have padded := Base64.decode_encode (fun wanted found => found = wanted) false bytes
  have bare := Base64.decode_encode (fun _ found => found = 0) false bytes 0
  have legal := validHeaderValue_encode bytes
  constructor
  · have whole : (Base64.encodePadded bytes).length % 4 = 0 := by
      rw [Base64.encodePadded, List.length_append, List.length_replicate, Base64.wanted]
      omega
    rw [Go.decodeBinHeader, if_pos whole, Base64.encodePadded, decodeString_legal (legal _), padded,
      if_pos (decide_eq_true rfl)]
  · have legal := legal 0
    have unpadded := padded 0
    rw [List.replicate_zero, List.append_nil] at legal unpadded bare
    rw [Go.decodeBinHeader]
    split
    · rename_i whole
      have nothing : 0 = Base64.wanted (Base64.encode bytes).length := by
        rw [Base64.wanted]
        omega
      rw [decodeString_legal legal, unpadded, if_pos (decide_eq_true nothing)]
    · rw [decodeString_legal legal, bare, if_pos (decide_eq_true rfl)]

theorem toStr_visible {value : Bytes} (visible : ∀ b ∈ value, 32 ≤ b ∧ b < 127) :
    (toStr value).isSome = true := by
  have every : value.all (fun b => (32 ≤ b && b < 127) || b == 9) = true := by
    refine List.all_eq_true.mpr fun b inside => ?_
    obtain ⟨low, high⟩ := visible b inside
    simp [low, high]
  rw [toStr, if_pos every]
  rfl

end Values

/-- What comes back of a header is what went into it, if that holds of each entry. -/
theorem valuesOf_of_carried {entry : Metadatum → Option (Str × Bytes)}
    {convert : Str → Bytes → Option MetaValue}
    {items : List Metadatum}
    (carried : ∀ m ∈ items, entry m = some (m.key, m.wire) ∧ ∃ v, m.value = some v ∧
      convert m.key m.wire = some v)
    (key : Str) :
    ((valuesAt key (items.filterMap entry)).filterMap (convert key)).map some = valuesOf key items := by
  induction items with
  | nil => rfl
  | cons m rest ih =>
      obtain ⟨entered, v, valued, back⟩ := carried m List.mem_cons_self
      have others := ih fun other inside => carried other (List.mem_cons_of_mem m inside)
      unfold valuesAt valuesOf at others ⊢
      rw [List.filterMap_cons, entered]
      by_cases same : m.key = key
      · subst same
        dsimp only
        rw [List.filter_cons_of_pos (by simp), List.map_cons, List.filterMap_cons, back,
          List.filter_cons_of_pos (by simp), List.map_cons, List.map_cons, valued, others]
      · dsimp only
        rw [List.filter_cons_of_neg (by simpa using same),
          List.filter_cons_of_neg (by simpa using same), others]

theorem appendAll_eq [Rust.Crates] {room : HeaderMap → Bool} {items : List Metadatum} {headers : HeaderMap}
    (roomy : ∀ front, front <+: Rust.metadataVecToMetadata items → room (headers ++ front) = true) :
    Rust.appendAll room headers items = some (headers ++ Rust.metadataVecToMetadata items) := by
  induction items generalizing headers with
  | nil => exact congrArg some (List.append_nil headers).symm
  | cons m rest ih =>
      rw [Rust.metadataVecToMetadata, List.filterMap_cons] at roomy ⊢
      rw [Rust.appendAll]
      cases entered : Rust.appended m with
      | none =>
          rw [entered] at roomy
          exact ih roomy
      | some entry =>
          rw [entered] at roomy
          have first := roomy [] List.nil_prefix
          rw [List.append_nil] at first
          dsimp only
          rw [if_pos first, ih, List.append_assoc]
          · rfl
          · intro front inside
            rw [List.append_assoc]
            exact roomy _ ((List.prefix_append_right_inj [entry]).mpr inside)

namespace Metadatum.WellFormed
variable {denied : Str → Bool} {m : Metadatum}

theorem lower (formed : m.WellFormed denied) : m.key.map Char.toLower = m.key :=
  (List.map_congr_left fun c inside => (formed.token c inside).2).trans (List.map_id' m.key)

theorem ascii (formed : m.WellFormed denied) : ∀ c ∈ m.key, c.toNat < 128 :=
  fun c inside => isNameChar_ascii (formed.token c inside).1

theorem headerName [Rust.Crates] (formed : m.WellFormed denied)
    (short : m.key.length ≤ Rust.maxHeaderNameLen) :
    Rust.headerName m.key = some m.key := by
  have each : m.key.all Rust.isNameChar = true :=
    List.all_eq_true.mpr fun c inside => (formed.token c inside).1
  rw [Rust.Crates.headerName_spec, if_pos ⟨formed.named, short, each⟩, formed.lower]

theorem toLower (formed : m.WellFormed denied) (lowering : Lowering) : Go.toLower lowering m.key = m.key :=
  (Go.toLower_plain formed.ascii).trans formed.lower

/-- Names of header tokens are names that Go takes. -/
theorem takesKey (formed : m.WellFormed Go.isDeniedHeader) (lowering : Lowering) :
    Go.takesKey lowering m.key = true := by
  obtain ⟨other, allowed⟩ := Bool.or_eq_false_iff.mp formed.allowed
  refine Go.takesKey_iff.mpr ⟨formed.named, ?_, ?_, ?_⟩
  · rw [formed.toLower]
    refine List.all_eq_true.mpr fun c inside => ?_
    have taken := nameChar_lower (formed.ascii c inside)
    rw [(formed.token c inside).1, (formed.token c inside).2] at taken
    exact taken.symm
  · rw [formed.toLower]
    exact of_decide_eq_false other
  · rw [formed.toLower]
    exact allowed

end Metadatum.WellFormed

/-- An entry comes through the headers of the Rust server. -/
theorem rust_carries [Rust.Crates] {m : Metadatum} (formed : m.WellFormed Rust.isDenied)
    (short : m.key.length ≤ Rust.maxHeaderNameLen) :
    Rust.appended m = some (m.key, m.wire) ∧ ∃ v, m.value = some v ∧
    Rust.converted Rust.toBytes m.key m.wire = some v := by
  have named := formed.headerName short
  have allowed := formed.allowed
  have typed := formed.value
  obtain ⟨key, value⟩ := m
  cases value with
  | none => exact typed.elim
  | some value => cases value with
    | ascii v =>
        obtain ⟨plain, visible⟩ := typed
        have shown := toStr_visible visible
        obtain ⟨text, found⟩ := Option.isSome_iff_exists.mp shown
        refine ⟨(appended_ascii named allowed v).trans
          (if_pos ⟨plain, Rust.Crates.fits_visible v shown⟩), .ascii v, rfl, ?_⟩
        rw [Rust.converted, allowed, plain, Metadatum.wire, found]
        rfl
    | bin v =>
        refine ⟨(appended_bin named allowed v).trans (if_pos typed), .bin v, rfl, ?_⟩
        rw [Rust.converted, allowed, typed, Metadatum.wire, toBytes_encode]
        rfl

/-- An entry comes through the headers of the Go server. -/
theorem go_carries {m : Metadatum} (formed : m.WellFormed Go.isDeniedHeader) (lowering : Lowering) :
    Go.added lowering m = some (m.key, m.wire) ∧
      ∃ v, m.value = some v ∧ Go.converted Go.decodeBinHeader m.key m.wire = some v := by
  have added := added_of_takesKey (formed.takesKey lowering)
  have name := formed.toLower lowering
  have allowed := formed.allowed
  have typed := formed.value
  obtain ⟨key, value⟩ := m
  cases value with
  | none => exact typed.elim
  | some value => cases value with
    | ascii v =>
        obtain ⟨plain, visible⟩ := typed
        have valid := validHeaderValue_of_visible (toStr_visible visible)
        rw [name] at added
        dsimp only at added
        refine ⟨added.trans (if_pos valid), .ascii v, rfl, ?_⟩
        rw [Go.converted, allowed, plain]
        rfl
    | bin v =>
        rw [name] at added
        refine ⟨added, .bin v, rfl, ?_⟩
        rw [Go.converted, allowed, typed, Metadatum.wire, (decodeBinHeader_encode v).2]
        rfl

/-- The headers of the Go server, read in lower case, are the entries themselves. -/
theorem lowered_metadataListToHeaders (lowering : Lowering) {items : List Metadatum}
    (formed : ∀ m ∈ items, m.WellFormed Go.isDeniedHeader) :
    (Go.metadataListToHeaders lowering items).map (fun (name, value) => (Go.toLower lowering name, value)) =
      items.filterMap (Go.added lowering) := by
  rw [Go.metadataListToHeaders, List.map_map]
  refine (List.map_congr_left fun e inside => ?_).trans (List.map_id' _)
  obtain ⟨m, member, added⟩ := List.mem_filterMap.mp inside
  have entry := (go_carries (formed m member) lowering).1
  rw [added, Option.some.injEq] at entry
  subst entry
  have name : Go.toLower lowering (Go.canonical true m.key) = m.key :=
    (Go.toLower_canonical true (formed m member).ascii).trans ((formed m member).toLower lowering)
  exact congrArg (·, m.wire) name

/-- Metadata comes back from its headers, in Rust for names that a `HeaderName` takes and as long
as a `HeaderMap` has room, and Go reads base64 with and without its padding. -/
theorem metadata_round_trip [Rust.Crates] (lowering : Lowering) (room : HeaderMap → Bool) :
    (∀ items : List Metadatum,
      (∀ m ∈ items, m.WellFormed Rust.isDenied ∧ m.key.length ≤ Rust.maxHeaderNameLen) → HasRoom room items →
        ∃ back, Rust.roundTrip room items = some back ∧ ∀ key, valuesOf key back = valuesOf key items) ∧
      (∀ items : List Metadatum, (∀ m ∈ items, m.WellFormed Go.isDeniedHeader) →
        ∀ key, valuesOf key (Go.roundTrip lowering items) = valuesOf key items) ∧
      ∀ bytes, Go.decodeBinHeader (Base64.encodePadded bytes) = some bytes ∧
        Go.decodeBinHeader (Base64.encode bytes) = some bytes := by
  refine ⟨fun items formed roomy => ?_, fun items formed key => ?_, decodeBinHeader_encode⟩
  · have all : Rust.appendAll room [] items = some (Rust.metadataVecToMetadata items) := appendAll_eq roomy
    refine ⟨_, congrArg (Option.map _) all, fun key => ?_⟩
    rw [valuesOf_metadataToVec]
    exact valuesOf_of_carried (fun m inside => rust_carries (formed m inside).1 (formed m inside).2) key
  · rw [Go.roundTrip, Go.metadataOfHeaders, lowered_metadataListToHeaders lowering formed,
      valuesOf_headersToMetadataList]
    exact valuesOf_of_carried (fun m inside => go_carries (formed m inside) lowering) key

/-- The test entries of the repository come back. -/
theorem blob_comes_back :
    (∃ back, @Rust.roundTrip Rust.published (fun _ => true) [⟨"x-ascii".toList, some (.ascii (utf8 "plain"))⟩,
        ⟨"x-blob-bin".toList, some (.bin [0, 1, 2, 255])⟩] = some back ∧
      valuesOf "x-blob-bin".toList back = [some (.bin [0, 1, 2, 255])]) ∧
    valuesOf "x-blob-bin".toList
      (Go.roundTrip asciiLowering [⟨"x-ascii".toList, some (.ascii (utf8 "plain"))⟩,
      ⟨"x-blob-bin".toList, some (.bin [0, 1, 2, 255])⟩]) = [some (.bin [0, 1, 2, 255])] := by
  let _ : Rust.Crates := Rust.published
  have letters : ∀ key ∈ ["x-ascii".toList, "x-blob-bin".toList],
      key.all (fun c => Rust.isNameChar c && decide (c.toLower = c)) = true := by decide
  have token : ∀ key ∈ ["x-ascii".toList, "x-blob-bin".toList], ∀ c ∈ key, Rust.isNameChar c =
    true ∧ c.toLower = c :=
    fun key listed c inside => by simpa using List.all_eq_true.mp (letters key listed) c inside
  have shown : (utf8 "plain").all (fun b => 32 ≤ b && b < 127) = true := by decide
  have visible : ∀ b ∈ utf8 "plain", 32 ≤ b ∧ b < 127 :=
    fun b inside => by simpa using List.all_eq_true.mp shown b inside
  have formed : ∀ m ∈ [(⟨"x-ascii".toList, some (.ascii (utf8 "plain"))⟩ : Metadatum),
      ⟨"x-blob-bin".toList, some (.bin [0, 1, 2, 255])⟩],
      (m.WellFormed Rust.isDenied ∧ m.key.length ≤ Rust.maxHeaderNameLen) ∧
        m.WellFormed Go.isDeniedHeader := by
    simp only [List.forall_mem_cons, List.not_mem_nil, false_implies, implies_true, and_true]
    have ascii := token _ (List.mem_cons_self ..)
    have blob := token _ (List.mem_cons_of_mem _ (List.mem_cons_self ..))
    exact ⟨⟨⟨⟨by decide, ascii, by decide, by decide, visible⟩, by decide⟩,
        ⟨by decide, ascii, by decide, by decide, visible⟩⟩,
      ⟨⟨by decide, blob, by decide, by decide⟩, by decide⟩, ⟨by decide, blob, by decide, by decide⟩⟩
  obtain ⟨rust, go, -⟩ := metadata_round_trip asciiLowering fun _ => true
  obtain ⟨back, returned, same⟩ := rust _ (fun m inside => (formed m inside).1) fun _ _ => rfl
  exact ⟨⟨back, returned, same _⟩, go _ (fun m inside => (formed m inside).2) _⟩

theorem roundTrip_of_dropped [Rust.Crates] {room : HeaderMap → Bool} {m : Metadatum}
    (dropped : Rust.appended m = none) :
    Rust.roundTrip room [m] = some [] := by
  rw [Rust.roundTrip, Rust.appendAll, dropped]
  rfl

/-- A name that is too long for a `HeaderName` is lost with its value, and a full `HeaderMap`
panics. -/
theorem long_name_lost :
    (⟨List.replicate 65536 'x', some (.ascii [49])⟩ : Metadatum).WellFormed Rust.isDenied ∧
      @Rust.roundTrip Rust.published (fun _ =>
        true) [⟨List.replicate 65536 'x', some (.ascii [49])⟩] = some [] ∧
      @Rust.roundTrip Rust.published (fun headers => headers = [])
        [⟨"x".toList, some (.ascii [49])⟩, ⟨"y".toList, some (.ascii [49])⟩] = none := by
  let _ : Rust.Crates := Rust.published
  have letters : ∀ c ∈ List.replicate 65536 'x', c = 'x' := fun c inside => List.eq_of_mem_replicate inside
  have length : (List.replicate 65536 'x').length = 65536 := List.length_replicate
  generalize List.replicate 65536 'x' = key at letters length
  have unnamed : Rust.headerName key = none := by
    refine if_neg fun taken => ?_
    have short := taken.2.1
    rw [length] at short
    exact absurd short (by decide)
  refine ⟨⟨?_, ?_, ?_, ?_⟩, ?_, by decide⟩
  · rintro rfl
    cases length
  · intro c inside
    rw [letters c inside]
    decide
  · rw [Rust.isDenied, List.any_eq_false]
    intro name listed
    rw [decide_eq_true_eq]
    rintro rfl
    have short : ∀ name ∈ deny, name.toList.length < 65536 := by decide
    exact absurd length (short name listed).ne
  · constructor
    · rw [isBinKey, ← Bool.not_eq_true, List.isSuffixOf_iff_suffix]
      intro suffix
      exact absurd (letters '-' (suffix.subset (by decide))) (by decide)
    · intro b inside
      rw [List.mem_singleton.mp inside]
      decide
  · have dropped := appended_unnamed (m := ⟨key, some (.ascii [49])⟩)
      fun name named => absurd (unnamed.symm.trans named) nofun
    exact roundTrip_of_dropped dropped

end GrpcWebnext
