import GrpcWebnext.Library.Base64
import GrpcWebnext.Metadata
import Mathlib

/-! The metadata of a frame as headers: `metadata_vec_to_metadata` of `metadata.rs` and
`metadataListToHeaders` of `metadata.go`. -/
namespace GrpcWebnext
open Framing (Bytes)
open Text (Str)

namespace Rust

/-- The characters of a header name besides letters and digits. -/
def nameMarks : String := "!#$%&'*+-.^_`|~"

def isNameChar (c : Char) : Bool := c.isAlphanum || nameMarks.toList.contains c

def maxHeaderNameLen : Nat := 65535

/-- Tab, or no control character. -/
def isTextByte (b : UInt8) : Bool := b == 9 || (32 ≤ b && b != 127)

/-- What the `http` and `tonic` crates make of header names and values, as they document it. A
value of visible ASCII is taken and one with a control character is not; about bytes from
128 on nothing is said. -/
class Crates where
  /-- `HeaderName::from_bytes`: header names are in lower case. -/
  headerName : Str → Option Str
  headerName_spec : ∀ key, headerName key =
    if key ≠ [] ∧ key.length ≤ maxHeaderNameLen ∧ key.all isNameChar
      then some (key.map Char.toLower) else none
  /-- `HeaderValue::try_from`, and `MetadataValue::try_from` over it. -/
  fits : Bytes → Bool
  fits_visible : ∀ value, (toStr value).isSome = true → fits value = true
  fits_text : ∀ value, fits value = true → value.all isTextByte = true
  /-- `to_bytes` of a binary value: padding may be missing, spare bits may not be set. -/
  toBytes : Bytes → Option Bytes
  toBytes_spec : ∀ value, toBytes value = Base64.decode (fun wanted found => found ≤ wanted) true value

export Crates (headerName fits toBytes)

/-- The crates as they are published: any byte but a control character may stand in a value. -/
@[reducible]
def published : Crates where
  headerName key :=
    if key ≠ [] ∧ key.length ≤ maxHeaderNameLen ∧ key.all isNameChar
      then some (key.map Char.toLower) else none
  headerName_spec _ := rfl
  fits value := value.all isTextByte
  fits_visible value visible := by
    have legal : ∀ b : UInt8, ((32 ≤ b && b < 127) || b == 9) = true → isTextByte b = true := by
      decide +kernel
    have every : value.all (fun b => (32 ≤ b && b < 127) || b == 9) = true := by
      by_contra hidden
      rw [toStr, if_neg hidden] at visible
      cases visible
    exact List.all_eq_true.mpr fun b inside => legal b (List.all_eq_true.mp every b inside)
  fits_text _ := id
  toBytes := Base64.decode (fun wanted found => found ≤ wanted) true
  toBytes_spec _ := rfl

variable [Crates]

def asciiMetadataKey (key : Str) : Option Str := (headerName key).filter fun name => !isBinKey name

def binaryMetadataKey (key : Str) : Option Str := (headerName key).filter isBinKey

def metadataValue (value : Bytes) : Option Bytes := if fits value then some value else none

/-- What a round of the loop of `metadata_vec_to_metadata` appends. -/
def appended (m : Metadatum) : Option (Str × Bytes) :=
  match headerName m.key with
  | none => none
  | some name =>
      if isDenied name then none
      else match m.value with
        | some (.ascii value) =>
            (asciiMetadataKey m.key).bind fun key => (metadataValue value).map fun v => (key, v)
        | some (.bin value) => (binaryMetadataKey m.key).map fun key => (key, Base64.encode value)
        | none => none

def metadataVecToMetadata (items : List Metadatum) : HeaderMap := items.filterMap appended

end Rust

/-- `unicode.ToLower`. Besides the letters of ASCII, the Kelvin sign and the dotted capital I
are the only characters whose lower case is in ASCII. -/
structure Lowering where
  rune : Char → Char
  ascii : ∀ c : Char, c.toNat < 128 → rune c = c.toLower
  kelvin : rune '\u212a' = 'k'
  dotted : rune '\u0130' = 'i'
  beyond : ∀ c : Char, 128 ≤ c.toNat → (rune c).toNat < 128 → c = '\u212a' ∨ c = '\u0130'

namespace Go
variable (lowering : Lowering)

/-- `strings.ToLower`. -/
def toLower (s : Str) : Str := s.map lowering.rune

/-- `IsDeniedHeader`. -/
def denied (name : Str) : Bool := isDeniedHeader (toLower lowering name)

def keySeparators : String := ":()<>@,;\\\"/[]?=\x7b\x7d"

def validHeaderKey (key : Str) : Bool :=
  key.all fun c => !(decide (c ≤ ' ') || decide (0x7F ≤ c.toNat) || keySeparators.toList.contains c)

def validHeaderValue (value : Bytes) : Bool :=
  value.all fun c => !(decide (c < 32) && c != 9 || c == 0x7F)

/-- What a round of the loop of `metadataListToHeaders` adds. -/
def added (m : Metadatum) : Option (Str × Bytes) :=
  let key := toLower lowering m.key
  if key = [] || denied lowering key || !validHeaderKey key then none
  else match m.value with
    | some (.ascii value) => if validHeaderValue value then some (key, value) else none
    | some (.bin value) => some (key, Base64.encode value)
    | none => none

/-- `CanonicalMIMEHeaderKey`: a letter at the start or behind a hyphen is upper case. -/
def canonical : Bool → Str → Str
  | _, [] => []
  | upper, c :: rest => (if upper then c.toUpper else c.toLower) :: canonical (c = '-') rest

/-- The headers as `Header.Add` collects them. -/
def metadataListToHeaders (items : List Metadatum) : HeaderMap :=
  (items.filterMap (added lowering)).map fun (key, value) => (canonical true key, value)

end Go

/-- A property of the characters of ASCII, checked one by one. -/
theorem ascii_induction {P : Char → Prop} (each : ∀ n : Fin 128, P (Char.ofNat n)) {c : Char}
    (small : c.toNat < 128) :
    P c := by
  have here := each ⟨c.toNat, small⟩
  rwa [Char.ofNat_toNat] at here

/-- Both servers take the same characters in a name. -/
theorem nameChar_lower {c : Char} (small : c.toNat < 128) :
    Rust.isNameChar c = (!(decide (c.toLower ≤ ' ') || decide (0x7F ≤ c.toLower.toNat) ||
      Go.keySeparators.toList.contains c.toLower)) := by
  refine ascii_induction (P := fun c => Rust.isNameChar c = (!(decide (c.toLower ≤ ' ') ||
    decide (0x7F ≤ c.toLower.toNat) || Go.keySeparators.toList.contains c.toLower))) ?_ small
  decide

theorem isNameChar_ascii {c : Char} (taken : Rust.isNameChar c = true) : c.toNat < 128 := by
  rcases (Bool.or_eq_true _ _).mp taken with plain | mark
  · simp only [Char.isAlphanum, Char.isAlpha, Char.isUpper, Char.isLower, Char.isDigit, Bool.or_eq_true,
      Bool.and_eq_true, decide_eq_true_eq, UInt32.le_iff_toNat_le, ge_iff_le] at plain
    change (65 ≤ c.toNat ∧ c.toNat ≤ 90 ∨ 97 ≤ c.toNat ∧ c.toNat ≤ 122) ∨ 48 ≤ c.toNat ∧ c.toNat ≤ 57 at plain
    omega
  · have all : Rust.nameMarks.toList.all fun c => decide (c.toNat < 128) := by decide
    exact of_decide_eq_true (List.all_eq_true.mp all c (List.contains_iff_mem.mp mark))

theorem toLower_idem {c : Char} (small : c.toNat < 128) : c.toLower.toLower = c.toLower :=
  ascii_induction (P := fun c => c.toLower.toLower = c.toLower) (by decide) small

theorem toLower_toUpper {c : Char} (small : c.toNat < 128) : c.toUpper.toLower = c.toLower :=
  ascii_induction (P := fun c => c.toUpper.toLower = c.toLower) (by decide) small

theorem toLower_small {c : Char} (small : c.toNat < 128) : c.toLower.toNat < 128 :=
  ascii_induction (P := fun c => c.toLower.toNat < 128) (by decide) small

theorem toUpper_small {c : Char} (small : c.toNat < 128) : c.toUpper.toNat < 128 :=
  ascii_induction (P := fun c => c.toUpper.toNat < 128) (by decide) small

/-- A key that is ASCII and no longer than a header name may be. -/
def Plain (key : Str) : Prop := (∀ c ∈ key, c.toNat < 128) ∧ key.length ≤ Rust.maxHeaderNameLen

namespace Go
variable {lowering : Lowering}

theorem toLower_plain {key : Str} (ascii : ∀ c ∈ key, c.toNat < 128) :
    toLower lowering key = key.map Char.toLower :=
  List.map_congr_left fun c inside => lowering.ascii c (ascii c inside)

/-- What has become ASCII in lower case stays as it is. -/
theorem rune_rune {c : Char} (small : (lowering.rune c).toNat < 128) :
    lowering.rune (lowering.rune c) = lowering.rune c := by
  rcases Nat.lt_or_ge c.toNat 128 with ascii | wide
  · rw [lowering.ascii _ small, lowering.ascii _ ascii]
    exact toLower_idem ascii
  · rcases lowering.beyond c wide small with rfl | rfl
    · rw [lowering.kelvin]
      exact lowering.ascii 'k' (by decide)
    · rw [lowering.dotted]
      exact lowering.ascii 'i' (by decide)

theorem validHeaderKey_ascii {key : Str} (valid : validHeaderKey key) {c : Char}
    (inside : c ∈ key) : c.toNat < 128 := by
  have fits := List.all_eq_true.mp valid c inside
  simp only [Bool.not_eq_true', Bool.or_eq_false_iff, decide_eq_false_iff_not] at fits
  omega

theorem toLower_toLower {key : Str} (valid : validHeaderKey (toLower lowering key)) :
    toLower lowering (toLower lowering key) = toLower lowering key := by
  unfold toLower
  rw [List.map_map]
  refine List.map_congr_left fun c inside => rune_rune ?_
  exact validHeaderKey_ascii valid (List.mem_map_of_mem inside)

theorem canonical_ascii : ∀ (upper : Bool) {key : Str}, (∀ c ∈ key, c.toNat < 128) →
    ∀ c ∈ canonical upper key, c.toNat < 128
  | _, [], _, c, inside => by cases inside
  | upper, c :: rest, ascii, other, inside => by
      have small := ascii c List.mem_cons_self
      rcases List.mem_cons.mp inside with rfl | inside
      · split
        · exact toUpper_small small
        · exact toLower_small small
      · exact canonical_ascii _ (fun c inside => ascii c (List.mem_cons_of_mem _ inside)) other inside

/-- The canonical form of a name is the name, read in lower case. -/
theorem toLower_canonical (upper : Bool) {key : Str} (ascii : ∀ c ∈ key, c.toNat < 128) :
    toLower lowering (canonical upper key) = toLower lowering key := by
  rw [toLower_plain (canonical_ascii upper ascii), toLower_plain ascii]
  induction key generalizing upper with
  | nil => rfl
  | cons c rest ih =>
      have small := ascii c List.mem_cons_self
      have first : (if upper then c.toUpper else c.toLower).toLower = c.toLower := by
        split
        · exact toLower_toUpper small
        · exact toLower_idem small
      rw [canonical, List.map_cons, List.map_cons, first, ih _ fun c inside =>
        ascii c (List.mem_cons_of_mem _ inside)]

end Go

/-- `HeaderName` takes the keys that Go takes, if they are plain, and gives the same name. -/
theorem headerName_iff [Rust.Crates] (lowering : Lowering) (key name : Str) :
    Rust.headerName key = some name ↔
      name = Go.toLower lowering key ∧ key ≠ [] ∧ Go.validHeaderKey name ∧ Plain key := by
  have taken : (∀ c ∈ key, c.toNat < 128) →
      (key.all Rust.isNameChar ↔ Go.validHeaderKey (Go.toLower lowering key)) := by
    intro ascii
    rw [Go.toLower_plain ascii, Go.validHeaderKey, List.all_map, List.all_eq_true, List.all_eq_true]
    refine forall₂_congr fun c inside => ?_
    rw [nameChar_lower (ascii c inside)]
    rfl
  rw [Rust.Crates.headerName_spec]
  constructor
  · intro named
    split at named
    · rename_i valid
      obtain ⟨some_, short, each⟩ := valid
      have ascii : ∀ c ∈ key, c.toNat < 128 :=
        fun c inside => isNameChar_ascii (List.all_eq_true.mp each c inside)
      cases named
      rw [← Go.toLower_plain ascii]
      exact ⟨rfl, some_, (taken ascii).mp each, ascii, short⟩
    · cases named
  · rintro ⟨rfl, some_, valid, ascii, short⟩
    rw [if_pos ⟨some_, short, (taken ascii).mpr valid⟩, Go.toLower_plain ascii]

/-- A value of visible ASCII is a header value in Go. -/
theorem validHeaderValue_of_visible {value : Bytes} (visible : (toStr value).isSome) :
    Go.validHeaderValue value := by
  unfold toStr at visible
  split at visible
  · rename_i each
    refine List.all_eq_true.mpr fun b inside => ?_
    have fits := List.all_eq_true.mp each b inside
    simp only [Bool.or_eq_true, Bool.and_eq_true, decide_eq_true_eq, beq_iff_eq, UInt8.le_iff_toNat_le,
      UInt8.lt_iff_toNat_lt, Bool.not_eq_true', Bool.or_eq_false_iff, Bool.and_eq_false_iff,
        decide_eq_false_iff_not,
      bne_eq_false_iff_eq, beq_eq_false_iff_ne, ne_eq, ← UInt8.toNat_inj] at fits ⊢
    change (32 ≤ b.toNat ∧ b.toNat < 127) ∨ b.toNat = 9 at fits
    change (¬ b.toNat < 32 ∨ b.toNat = 9) ∧ ¬ b.toNat = 127
    omega
  · cases visible

/-- The keys that `metadataListToHeaders` takes. -/
def Go.takesKey (lowering : Lowering) (key : Str) : Bool :=
  !(decide (toLower lowering key = []) || denied lowering (toLower lowering key) || !validHeaderKey
    (toLower lowering key))

theorem added_of_takesKey {lowering : Lowering} {m : Metadatum} (takes : Go.takesKey lowering m.key = true) :
    Go.added lowering m = match m.value with
      | some (.ascii value) =>
          if Go.validHeaderValue value then some (Go.toLower lowering m.key, value) else none
      | some (.bin value) => some (Go.toLower lowering m.key, Base64.encode value)
      | none => none := by
  rw [Go.takesKey, Bool.not_eq_true'] at takes
  exact if_neg (by rw [takes]; exact Bool.false_ne_true)

theorem added_of_not_takesKey {lowering : Lowering} {m : Metadatum}
    (refuses : Go.takesKey lowering m.key = false) :
    Go.added lowering m = none := by
  rw [Go.takesKey, Bool.not_eq_false'] at refuses
  exact if_pos refuses

theorem Go.takesKey_iff {lowering : Lowering} {key : Str} :
    takesKey lowering key = true ↔ key ≠ [] ∧ validHeaderKey (toLower lowering key) ∧
      toLower lowering key ≠ "trailer".toList ∧ Rust.isDenied (toLower lowering key) = false := by
  have empty : toLower lowering key = [] ↔ key = [] := List.map_eq_nil_iff
  simp only [takesKey, Bool.not_eq_true', Bool.or_eq_false_iff, decide_eq_false_iff_not, empty,
    Bool.not_eq_false']
  constructor
  · rintro ⟨⟨some_, allowed⟩, valid⟩
    rw [denied, toLower_toLower valid, isDeniedHeader, Bool.or_eq_false_iff] at allowed
    exact ⟨some_, valid, of_decide_eq_false allowed.1, allowed.2⟩
  · rintro ⟨some_, valid, other, allowed⟩
    refine ⟨⟨some_, ?_⟩, valid⟩
    rw [denied, toLower_toLower valid, isDeniedHeader, Bool.or_eq_false_iff]
    exact ⟨decide_eq_false other, allowed⟩

theorem added_ascii {lowering : Lowering} {m : Metadatum} {key : Str} {value : Bytes}
    (adds : Go.added lowering m = some (key, value)) : ∀ c ∈ key, c.toNat < 128 := by
  cases takes : Go.takesKey lowering m.key with
  | false =>
      rw [added_of_not_takesKey takes] at adds
      cases adds
  | true =>
      have valid := (Go.takesKey_iff.mp takes).2.1
      have same : key = Go.toLower lowering m.key := by
        rw [added_of_takesKey takes] at adds
        split at adds
        · split at adds
          · cases adds
            rfl
          · cases adds
        · cases adds
          rfl
        · cases adds
      rw [same]
      exact fun c inside => Go.validHeaderKey_ascii valid inside

section Crates
variable [Rust.Crates]

theorem validHeaderValue_of_fits {value : Bytes} (fits : Rust.fits value = true) :
    Go.validHeaderValue value := by
  have text := Rust.Crates.fits_text value fits
  have legal : ∀ b : UInt8, Rust.isTextByte b = true →
    (!(decide (b < 32) && b != 9 || b == 0x7F)) = true := by
    decide +kernel
  exact List.all_eq_true.mpr fun b inside => legal b (List.all_eq_true.mp text b inside)

theorem appended_ascii {key name : Str} (named : Rust.headerName key = some name)
    (allowed : Rust.isDenied name = false)
    (value : Bytes) :
    Rust.appended ⟨key, some (.ascii value)⟩ =
      if isBinKey name = false ∧ Rust.fits value = true then some (name, value) else none := by
  simp only [Rust.appended, named, allowed, Bool.false_eq_true, if_false, Rust.asciiMetadataKey,
    Rust.metadataValue]
  cases bin : isBinKey name <;> cases fits : Rust.fits value <;> simp [bin, Option.filter]

theorem appended_bin {key name : Str} (named : Rust.headerName key = some name)
    (allowed : Rust.isDenied name = false)
    (value : Bytes) :
    Rust.appended ⟨key, some (.bin value)⟩ = if isBinKey name then some (name, Base64.encode value)
      else none := by
  simp only [Rust.appended, named, allowed, Bool.false_eq_true, if_false, Rust.binaryMetadataKey]
  cases bin : isBinKey name <;> simp [bin]

theorem appended_unnamed {m : Metadatum}
    (unnamed : ∀ name, Rust.headerName m.key = some name → Rust.isDenied name) :
    Rust.appended m = none := by
  unfold Rust.appended
  cases named : Rust.headerName m.key with
  | none => rfl
  | some name =>
      dsimp only
      exact if_pos (unnamed name named)

/-- The entries that both servers make the same of. `trailer` may not name a value that the
crates take, and a key that Go takes has to be plain, with a value of the kind its suffix
tells and, for one that Go takes, one that the crates take too. -/
structure Metadatum.Alike (lowering : Lowering) (m : Metadatum) : Prop where
  trailer : Rust.headerName m.key = some "trailer".toList →
    ∀ value, m.value = some (.ascii value) → Rust.fits value = false
  ascii : Go.takesKey lowering m.key = true → ∀ value, m.value = some (.ascii value) →
    Go.validHeaderValue value →
    Plain m.key ∧ isBinKey (Go.toLower lowering m.key) = false ∧ Rust.fits value = true
  bin : Go.takesKey lowering m.key = true → ∀ value, m.value = some (.bin value) →
    Plain m.key ∧ isBinKey (Go.toLower lowering m.key)

/-- A key without a Rust header name, or with a denied one, is taken by Go only if it is not
plain. -/
theorem not_plain_of_unnamed {lowering : Lowering} {key : Str}
    (unnamed : ∀ name, Rust.headerName key = some name → Rust.isDenied name)
    (takes : Go.takesKey lowering key = true) : ¬ Plain key := by
  intro plain
  obtain ⟨some_, valid, _, allowed⟩ := Go.takesKey_iff.mp takes
  have named := (headerName_iff lowering key _).mpr ⟨rfl, some_, valid, plain⟩
  exact absurd (unnamed _ named) (by rw [allowed]; exact Bool.false_ne_true)

theorem alike_of_unnamed {lowering : Lowering} {m : Metadatum}
    (unnamed : ∀ name, Rust.headerName m.key = some name → Rust.isDenied name) :
    m.Alike lowering ↔ Go.added lowering m = none := by
  have other : Rust.headerName m.key ≠ some "trailer".toList :=
    fun named => absurd (unnamed _ named) (by decide)
  cases takes : Go.takesKey lowering m.key with
  | false =>
      refine iff_of_true ⟨fun named => absurd named other, ?_, ?_⟩ (added_of_not_takesKey takes)
      · exact fun taken => absurd (takes.symm.trans taken) Bool.false_ne_true
      · exact fun taken => absurd (takes.symm.trans taken) Bool.false_ne_true
  | true =>
      have rough := not_plain_of_unnamed unnamed takes
      obtain ⟨key, value⟩ := m
      rw [added_of_takesKey takes]
      constructor
      · intro alike
        cases value with
        | none => rfl
        | some value => cases value with
          | ascii v => exact if_neg fun valid => rough (alike.ascii takes v rfl valid).1
          | bin v => exact absurd (alike.bin takes v rfl).1 rough
      · intro none
        refine ⟨fun named => absurd named other, fun _ v holds valid => ?_, fun _ v holds => ?_⟩
        · cases holds
          exact absurd (none.symm.trans (if_pos valid)) (by simp)
        · cases holds
          cases none

theorem alike_of_trailer {lowering : Lowering} {m : Metadatum}
    (named : Rust.headerName m.key = some "trailer".toList) :
    m.Alike lowering ↔ Rust.appended m = none := by
  have refuses : Go.takesKey lowering m.key = false := by
    rw [← Bool.not_eq_true]
    intro takes
    exact (Go.takesKey_iff.mp takes).2.2.1 ((headerName_iff lowering _ _).mp named).1.symm
  have alike : m.Alike lowering ↔ ∀ value, m.value = some (.ascii value) → Rust.fits value = false := by
    refine ⟨fun alike => alike.trailer named, fun hidden => ⟨fun _ => hidden, ?_, ?_⟩⟩
    · exact fun taken => absurd (refuses.symm.trans taken) Bool.false_ne_true
    · exact fun taken => absurd (refuses.symm.trans taken) Bool.false_ne_true
  rw [alike]
  obtain ⟨key, value⟩ := m
  have allowed : Rust.isDenied "trailer".toList = false := by decide
  have plain : isBinKey "trailer".toList = false := by decide
  cases value with
  | none => simp [Rust.appended, named]
  | some value => cases value with
    | ascii v =>
        rw [appended_ascii named allowed, ite_eq_right_iff]
        constructor
        · intro hidden holds
          rw [hidden v rfl] at holds
          exact absurd holds.2 Bool.false_ne_true
        · intro none value holds
          cases holds
          by_contra taken
          exact absurd (none ⟨plain, (Bool.not_eq_false _).mp taken⟩) (Option.some_ne_none _)
    | bin v =>
        rw [appended_bin named allowed, plain]
        exact iff_of_true (fun _ holds => by cases holds) rfl

theorem alike_of_named {lowering : Lowering} {m : Metadatum} {name : Str}
    (named : Rust.headerName m.key = some name)
    (other : name ≠ "trailer".toList) (allowed : Rust.isDenied name = false) :
    ((Rust.appended m).isSome = (Go.added lowering m).isSome ↔ m.Alike lowering) ∧
      (m.Alike lowering → Rust.appended m = Go.added lowering m) := by
  obtain ⟨rfl, some_, valid, plain⟩ := (headerName_iff lowering _ _).mp named
  have takes : Go.takesKey lowering m.key = true := Go.takesKey_iff.mpr ⟨some_, valid, other, allowed⟩
  have differs : Rust.headerName m.key ≠ some "trailer".toList :=
    fun same => other (Option.some.inj (named.symm.trans same))
  obtain ⟨key, value⟩ := m
  rw [added_of_takesKey takes]
  cases value with
  | none =>
      have none : Rust.appended ⟨key, none⟩ = none := by simp [Rust.appended, named]
      rw [none]
      refine ⟨iff_of_true rfl ⟨fun same => absurd same differs, ?_, ?_⟩, fun _ => rfl⟩
      · intro _ v holds
        cases holds
      · intro _ v holds
        cases holds
  | some value => cases value with
    | ascii v =>
        rw [appended_ascii named allowed]
        have alike : Metadatum.Alike lowering ⟨key, some (.ascii v)⟩ ↔
            (Go.validHeaderValue v → isBinKey (Go.toLower lowering key) = false ∧ Rust.fits v = true) := by
          constructor
          · exact fun alike valid => (alike.ascii takes v rfl valid).2
          · intro right
            refine ⟨fun same => absurd same differs, fun _ v holds valid => ?_, fun _ v holds =>
              by cases holds⟩
            cases holds
            exact ⟨plain, right valid⟩
        rw [alike]
        have legal : isBinKey (Go.toLower lowering key) = false ∧ Rust.fits v = true →
          Go.validHeaderValue v :=
          fun right => validHeaderValue_of_fits right.2
        by_cases right : isBinKey (Go.toLower lowering key) = false ∧ Rust.fits v = true
        · rw [if_pos right]
          dsimp only
          rw [if_pos (legal right)]
          exact ⟨iff_of_true rfl fun _ => right, fun _ => rfl⟩
        · rw [if_neg right]
          dsimp only
          by_cases valid : Go.validHeaderValue v
          · rw [if_pos valid]
            exact ⟨iff_of_false Bool.false_ne_true fun alike => right (alike valid),
              fun alike => absurd (alike valid) right⟩
          · rw [if_neg valid]
            exact ⟨iff_of_true rfl fun holds => absurd holds valid, fun _ => rfl⟩
    | bin v =>
        rw [appended_bin named allowed]
        have alike : Metadatum.Alike lowering ⟨key, some (.bin v)⟩ ↔ isBinKey (Go.toLower lowering key) := by
          constructor
          · exact fun alike => (alike.bin takes v rfl).2
          · intro right
            refine ⟨fun same => absurd same differs, fun _ v holds => (by cases holds), fun _ v holds => ?_⟩
            exact ⟨plain, right⟩
        rw [alike]
        dsimp only
        by_cases right : isBinKey (Go.toLower lowering key)
        · rw [if_pos right]
          exact ⟨iff_of_true rfl right, fun _ => rfl⟩
        · rw [if_neg right]
          exact ⟨iff_of_false Bool.false_ne_true right, fun alike => absurd alike right⟩

/-- An entry is kept by both servers or by none exactly when it is alike, and then they make
the same header of it. -/
theorem appended_iff_added (lowering : Lowering) (m : Metadatum) :
    ((Rust.appended m).isSome = (Go.added lowering m).isSome ↔ m.Alike lowering) ∧
      (m.Alike lowering → Rust.appended m = Go.added lowering m) := by
  by_cases unnamed : ∀ name, Rust.headerName m.key = some name → Rust.isDenied name
  · rw [alike_of_unnamed unnamed, appended_unnamed unnamed]
    refine ⟨?_, Eq.symm⟩
    cases Go.added lowering m <;> simp
  · obtain ⟨name, unnamed⟩ := not_forall.mp unnamed
    obtain ⟨named, allowed⟩ := Classical.not_imp.mp unnamed
    by_cases trailer : name = "trailer".toList
    · subst trailer
      have none : Go.added lowering m = none := by
        refine added_of_not_takesKey ?_
        rw [← Bool.not_eq_true]
        intro takes
        exact (Go.takesKey_iff.mp takes).2.2.1 ((headerName_iff lowering _ _).mp named).1.symm
      rw [alike_of_trailer named, none]
      refine ⟨?_, id⟩
      cases Rust.appended m <;> simp
    · exact alike_of_named named trailer (Bool.not_eq_true _ ▸ allowed)

def valuesAt (name : Str) (headers : HeaderMap) : List Bytes :=
  (headers.filter fun e => e.1 = name).map Prod.snd

/-- The values of a key, for names that are told apart in lower case. -/
def valuesUnder (lowering : Lowering) (key : Str) (headers : HeaderMap) : List Bytes :=
  valuesAt key (headers.map fun (name, value) => (Go.toLower lowering name, value))

/-- Both servers keep the same entries, and make the same map of them. -/
structure SameHeaders (lowering : Lowering) (items : List Metadatum) : Prop where
  kept : ∀ m ∈ items, (Rust.appended m).isSome = (Go.added lowering m).isSome
  values : ∀ key, valuesUnder lowering key (Rust.metadataVecToMetadata items) =
    valuesUnder lowering key (Go.metadataListToHeaders lowering items)

theorem sameHeaders_iff (lowering : Lowering) (items : List Metadatum) :
    SameHeaders lowering items ↔ ∀ m ∈ items, m.Alike lowering := by
  constructor
  · intro same m inside
    exact (appended_iff_added lowering m).1.mp (same.kept m inside)
  · intro alike
    refine ⟨fun m inside => (appended_iff_added lowering m).1.mpr (alike m inside), fun key => ?_⟩
    have entries : Rust.metadataVecToMetadata items = items.filterMap (Go.added lowering) :=
      List.filterMap_congr fun m inside => (appended_iff_added lowering m).2 (alike m inside)
    unfold valuesUnder Go.metadataListToHeaders
    rw [entries, List.map_map]
    congr 1
    refine List.map_congr_left fun e inside => ?_
    obtain ⟨m, _, adds⟩ := List.mem_filterMap.mp inside
    exact congrArg (·, e.2) (Go.toLower_canonical true (added_ascii adds)).symm

end Crates

end GrpcWebnext
