import GrpcWebnext.HttpRule.Spelled

/-! The two percent-decoders on one component. They differ where the Rust slice behind a
`%` ends inside a character, where the Rust number parser takes a plus sign, and where the
decoded bytes are no text. -/
namespace GrpcWebnext.HttpRule
open Framing (Bytes)
open Text (Str)
open Utf8 (encode)

/-- Some `%` is followed by two bytes that end inside a character. -/
def slicesCharacter : Bytes → Bool
  | [] => false
  | b :: rest => (b = 37 && (rest.drop 2).head?.any Utf8.isContinuation) || slicesCharacter rest

def plusDigit : Bytes → Bool
  | 43 :: lo :: _ => (hexVal lo).isSome
  | _ => false

/-- Some `%` is followed by a plus sign and a hex digit. -/
def plusEscape : Bytes → Bool
  | [] => false
  | b :: rest => (b = 37 && plusDigit rest) || plusEscape rest

theorem hexVal_some {b : UInt8} {n : Nat} (digit : hexVal b = some n) :
    b ≠ 37 ∧ b ≠ 43 ∧ b.toNat < 128 ∧ n < 16 := by
  simp only [hexVal, Bool.and_eq_true, decide_eq_true_eq, UInt8.le_iff_toNat_le] at digit
  simp only [ne_eq, ← UInt8.toNat_inj]
  simp only [UInt8.reduceToNat] at digit ⊢
  split_ifs at digit <;> cases digit <;> omega

/-- What the loop of `percent_decode` reads behind a `%`. -/
inductive Escape (hi lo : UInt8) : Option UInt8 → Prop where
  | hex {h l : Nat} (high : hexVal hi = some h) (low : hexVal lo = some l) :
      Escape hi lo (some (UInt8.ofNat (h * 16 + l)))
  | plus {l : Nat} (sign : hi = 43) (low : hexVal lo = some l) : Escape hi lo (some (UInt8.ofNat l))
  | none (neither : (hexVal hi = none ∧ hi ≠ 43) ∨ hexVal lo = none) : Escape hi lo none

theorem escape_cases (hi lo : UInt8) : Escape hi lo (fromStrRadix16 hi lo) := by
  unfold fromStrRadix16
  cases high : hexVal hi with
  | some h =>
      cases low : hexVal lo with
      | some l => exact .hex high low
      | none => exact .none (.inr low)
  | none =>
      cases low : hexVal lo with
      | some l =>
          dsimp only
          split
          · exact .plus ‹_› low
          · exact .none (.inl ⟨high, ‹_›⟩)
      | none => exact .none (.inr low)

theorem unhex_none {hi lo : UInt8} (neither : hexVal hi = none ∨ hexVal lo = none) :
    GrpcWebnext.Go.unhex hi lo = none := by
  unfold GrpcWebnext.Go.unhex
  rcases neither with high | low
  · rw [high]
  · rw [low]
    cases hexVal hi <;> rfl

/-- What the Rust decoder makes of bytes that the Go decoder makes `g` of: the same
bytes, but for one byte in the place of a `%`, a plus sign and a digit. -/
inductive Squeezed : Bytes → Bytes → Prop where
  | nil : Squeezed [] []
  | same (b : UInt8) {r g : Bytes} (rest : Squeezed r g) : Squeezed (b :: r) (b :: g)
  | plus (b lo : UInt8) {r g : Bytes} (small : b.toNat < 128) (digit : lo.toNat < 128)
      (rest : Squeezed r g) : Squeezed (b :: r) (37 :: 43 :: lo :: g)

theorem Squeezed.length_le {r g : Bytes} (squeezed : Squeezed r g) : r.length ≤ g.length := by
  induction squeezed with
  | nil => exact Nat.le_refl _
  | same b rest ih => exact Nat.succ_le_succ ih
  | plus b lo small digit rest ih =>
      simp only [List.length_cons]
      omega

/-- How the two decoders stand to each other. -/
structure Compared (bytes : Bytes) : Prop where
  panics : slicesCharacter bytes = true → percentDecodeBytes bytes = none
  reads : slicesCharacter bytes = false → ∃ raw, percentDecodeBytes bytes = some raw ∧
    Squeezed raw (GrpcWebnext.Go.percentDecode bytes) ∧
    (plusEscape bytes = false → raw = GrpcWebnext.Go.percentDecode bytes) ∧
    (plusEscape bytes = true → raw.length < (GrpcWebnext.Go.percentDecode bytes).length)

/-- A byte that both decoders write. -/
theorem Compared.write {b : UInt8} {bytes rest : Bytes} (compared : Compared rest)
    (rust : percentDecodeBytes bytes = (percentDecodeBytes rest).map (b :: ·))
    (go : GrpcWebnext.Go.percentDecode bytes = b :: GrpcWebnext.Go.percentDecode rest)
    (slices : slicesCharacter bytes = slicesCharacter rest)
    (plus : plusEscape bytes = plusEscape rest) : Compared bytes := by
  constructor
  · intro bad
    rw [rust, compared.panics (slices ▸ bad)]
    rfl
  · intro fine
    obtain ⟨raw, decoded, squeezed, same, shorter⟩ := compared.reads (slices ▸ fine)
    refine ⟨b :: raw, by rw [rust, decoded]; rfl, ?_, ?_, ?_⟩
    · rw [go]
      exact .same b squeezed
    · intro none
      rw [go, same (plus ▸ none)]
    · intro some
      rw [go]
      exact Nat.succ_lt_succ (shorter (plus ▸ some))

section Steps
variable {b hi lo : UInt8}

theorem slicesCharacter_of_ne (other : b ≠ 37) (rest : Bytes) :
    slicesCharacter (b :: rest) = slicesCharacter rest := by
  simp [slicesCharacter, other]

theorem plusEscape_of_ne (other : b ≠ 37) (rest : Bytes) :
    plusEscape (b :: rest) = plusEscape rest := by
  simp [plusEscape, other]

theorem go_percentDecode_of_ne (other : b ≠ 37) (rest : Bytes) :
    GrpcWebnext.Go.percentDecode (b :: rest) = b :: GrpcWebnext.Go.percentDecode rest :=
  GrpcWebnext.Go.percentDecode.eq_3 b rest fun _ _ _ same _ => other same

theorem slicesCharacter_whole {rest : Bytes} (whole : ¬ rest.head?.any Utf8.isContinuation = true) :
    slicesCharacter (37 :: hi :: lo :: rest) = slicesCharacter (hi :: lo :: rest) := by
  rw [slicesCharacter]
  simp [whole]

theorem plusEscape_of_plusDigit {rest : Bytes} (plain : plusDigit rest = false) :
    plusEscape (b :: rest) = plusEscape rest := by
  rw [plusEscape, plain, Bool.and_false, Bool.false_or]

theorem plusDigit_eq_false (neither : hi ≠ 43 ∨ hexVal lo = none) (rest : Bytes) :
    plusDigit (hi :: lo :: rest) = false := by
  unfold plusDigit
  split
  · rename_i same
    cases same
    rcases neither with other | low
    · exact absurd rfl other
    · rw [low]
      rfl
  · rfl

end Steps

theorem compared (bytes : Bytes) : Compared bytes := by
  induction bytes using percentDecodeBytes.induct with
  | case1 =>
      constructor
      · intro bad
        cases bad
      · intro _
        refine ⟨[], rfl, .nil, fun _ => rfl, fun some => ?_⟩
        cases some
  | case2 hi lo rest cut =>
      constructor
      · intro _
        rw [percentDecodeBytes, if_pos cut]
      · intro fine
        simp [slicesCharacter, cut] at fine
  | case3 hi lo rest whole b radix ih =>
      have rust : percentDecodeBytes (37 :: hi :: lo :: rest) = (percentDecodeBytes rest).map (b :: ·) := by
        rw [percentDecodeBytes, if_neg whole, radix]
      have cases := escape_cases hi lo
      rw [radix] at cases
      cases cases with
      | hex high low =>
          obtain ⟨hiPercent, hiPlus, _, _⟩ := hexVal_some high
          obtain ⟨loPercent, _, _, _⟩ := hexVal_some low
          refine ih.write rust ?_ ?_ ?_
          · simp only [GrpcWebnext.Go.percentDecode, GrpcWebnext.Go.unhex, high, low]
          · rw [slicesCharacter_whole whole, slicesCharacter_of_ne hiPercent,
              slicesCharacter_of_ne loPercent]
          · rw [plusEscape_of_plusDigit (plusDigit_eq_false (.inl hiPlus) rest),
              plusEscape_of_ne hiPercent, plusEscape_of_ne loPercent]
      | @plus l sign low =>
          subst sign
          obtain ⟨loPercent, _, small, digit⟩ := hexVal_some low
          have slices : slicesCharacter (37 :: 43 :: lo :: rest) = slicesCharacter rest := by
            rw [slicesCharacter_whole whole, slicesCharacter_of_ne (by decide),
              slicesCharacter_of_ne loPercent]
          have go : GrpcWebnext.Go.percentDecode (37 :: 43 :: lo :: rest) =
              37 :: 43 :: lo :: GrpcWebnext.Go.percentDecode rest := by
            rw [GrpcWebnext.Go.percentDecode, unhex_none (.inl (by decide)),
              go_percentDecode_of_ne (by decide), go_percentDecode_of_ne loPercent]
          constructor
          · intro bad
            rw [rust, ih.panics (slices ▸ bad)]
            rfl
          · intro fine
            obtain ⟨raw, decoded, squeezed, _, _⟩ := ih.reads (slices ▸ fine)
            refine ⟨_, by rw [rust, decoded]; rfl, ?_, ?_, ?_⟩
            · rw [go]
              refine .plus _ lo ?_ small squeezed
              rw [UInt8.toNat_ofNat']
              omega
            · intro none
              simp [plusEscape, plusDigit, low] at none
            · intro _
              have short := squeezed.length_le
              rw [go]
              simp only [List.length_cons]
              omega
  | case4 hi lo rest whole radix ih =>
      have cases := escape_cases hi lo
      rw [radix] at cases
      cases cases with
      | none neither =>
          refine ih.write (b := 37) ?_ ?_ (slicesCharacter_whole whole) ?_
          · rw [percentDecodeBytes, if_neg whole, radix]
          · rw [GrpcWebnext.Go.percentDecode, unhex_none (neither.imp (·.1) id)]
          · exact plusEscape_of_plusDigit (plusDigit_eq_false (neither.imp (·.2) id) rest)
  | case5 b rest notEscape ih =>
      have rust := percentDecodeBytes.eq_3 b rest notEscape
      have go := GrpcWebnext.Go.percentDecode.eq_3 b rest notEscape
      by_cases percent : b = 37
      · -- A `%` at the end, with at most one byte behind it.
        match rest, notEscape with
        | [], _ => exact ih.write rust go (by simp [slicesCharacter]) (by simp [plusEscape, plusDigit])
        | [_], _ => exact ih.write rust go (by simp [slicesCharacter]) (by simp [plusEscape, plusDigit])
        | hi :: lo :: rest, notEscape => exact (notEscape hi lo rest percent rfl).elim
      · exact ih.write rust go (slicesCharacter_of_ne percent rest) (plusEscape_of_ne percent rest)

theorem valid_iff {bytes : Bytes} : Utf8.valid bytes = true ↔ ∃ text, bytes = encode text := by
  simp only [Utf8.valid, decide_eq_true_eq]
  constructor
  · intro same
    exact ⟨_, same.symm⟩
  · rintro ⟨text, rfl⟩
    rw [Utf8.decodeLossy_encode]

theorem sep_percent : Sep '%' 37 := Utf8.marks_ascii '%' (by decide)

theorem sep_plus : Sep '+' 43 := Utf8.marks_ascii '+' (by decide)

theorem sep_byte {b : UInt8} (small : b.toNat < 128) : Sep (Char.ofNat b.toNat) b := by
  have code : (Char.ofNat b.toNat).val.toNat = b.toNat := Utf8.toNat_char b
  have marks := Utf8.marks_ascii (Char.ofNat b.toNat) (by omega)
  rwa [code, UInt8.ofNat_toNat] at marks

/-- A text whose bytes start with a separator starts with its character. -/
theorem starts_with {c : Char} {b : UInt8} {text : Str} {bytes : Bytes} (sep : Sep c b)
    (same : encode text = b :: bytes) : ∃ rest, text = c :: rest ∧ encode rest = bytes := by
  obtain ⟨before, behind, rfl, empty, rfl⟩ := Spelling.split_at (x := []) sep same
  rw [Spelling.flatMap_eq_nil Utf8.encodeChar_solid] at empty
  subst empty
  exact ⟨behind, rfl, rfl⟩

/-- Bytes that are no `%` are copied. -/
theorem Squeezed.strip {w raw g : Bytes} (free : ∀ x ∈ w, x ≠ 37) (squeezed : Squeezed raw (w ++ g)) :
    ∃ r, raw = w ++ r ∧ Squeezed r g := by
  induction w generalizing raw with
  | nil => exact ⟨raw, rfl, squeezed⟩
  | cons x w ih =>
      obtain ⟨other, free⟩ := List.forall_mem_cons.mp free
      rw [List.cons_append] at squeezed
      generalize together : w ++ g = bytes at squeezed
      cases squeezed with
      | same b rest =>
          obtain ⟨r, rfl, behind⟩ := ih free (together ▸ rest)
          exact ⟨r, rfl, behind⟩
      | plus b lo small digit rest => exact absurd rfl other

/-- Where the Go decoder finds a text, the Rust decoder finds one too. -/
theorem Squeezed.text {u : Str} {raw : Bytes} (squeezed : Squeezed raw (encode u)) :
    ∃ v, raw = encode v := by
  induction size : u.length using Nat.strong_induction_on generalizing u raw with
  | _ n ih =>
      cases u with
      | nil =>
          cases squeezed
          exact ⟨[], rfl⟩
      | cons c u =>
          simp only [List.length_cons] at size
          by_cases percent : c = '%'
          · subst percent
            rw [encode_cons_sep sep_percent] at squeezed
            generalize shown : encode u = bytes at squeezed
            cases squeezed with
            | same b rest =>
                subst shown
                obtain ⟨v, rfl⟩ := ih u.length (by omega) rest rfl
                exact ⟨'%' :: v, (encode_cons_sep sep_percent v).symm⟩
            | plus b lo small digit rest =>
                obtain ⟨behind, rfl, next⟩ := starts_with sep_plus shown
                obtain ⟨rest', rfl, last⟩ := starts_with (sep_byte digit) next
                subst last
                simp only [List.length_cons] at size
                obtain ⟨v, rfl⟩ := ih rest'.length (by omega) rest rfl
                exact ⟨Char.ofNat b.toNat :: v, (encode_cons_sep (sep_byte small) v).symm⟩
          · have free : ∀ x ∈ String.utf8EncodeChar c, x ≠ 37 := by
              rintro x used rfl
              exact sep_percent.others c percent used
            rw [encode_cons] at squeezed
            obtain ⟨r, rfl, rest⟩ := squeezed.strip free
            obtain ⟨v, rfl⟩ := ih u.length (by omega) rest rfl
            exact ⟨c :: v, rfl⟩

/-- A component that both decoders read alike. -/
def Legible (comp : Str) : Prop :=
  plusEscape (encode comp) = false ∧ Utf8.valid (GrpcWebnext.Go.percentDecode (encode comp)) = true

theorem percentDecode_none {comp : Str} (slices : slicesCharacter (encode comp) = true) :
    percentDecode comp = none := by
  rw [percentDecode, (compared (encode comp)).panics slices]
  rfl

/-- The Rust value of a component that is read, beside the Go one. -/
structure Decoded (comp value : Str) : Prop where
  legible : Legible comp → encode value = GrpcWebnext.Go.percentDecode (encode comp)
  shorter : Utf8.valid (GrpcWebnext.Go.percentDecode (encode comp)) = true →
    (encode value).length ≤ (GrpcWebnext.Go.percentDecode (encode comp)).length ∧
    (plusEscape (encode comp) = true →
      (encode value).length < (GrpcWebnext.Go.percentDecode (encode comp)).length)

theorem percentDecode_some {comp : Str} (whole : slicesCharacter (encode comp) = false) :
    ∃ value, percentDecode comp = some value ∧ Decoded comp value := by
  obtain ⟨raw, decoded, squeezed, same, shorter⟩ := (compared (encode comp)).reads whole
  refine ⟨Utf8.decodeLossy raw, by rw [percentDecode, decoded]; rfl, ?_, ?_⟩
  · rintro ⟨plain, valid⟩
    rw [← same plain] at valid ⊢
    obtain ⟨text, rfl⟩ := valid_iff.mp valid
    rw [Utf8.decodeLossy_encode]
  · intro valid
    obtain ⟨text, shown⟩ := valid_iff.mp valid
    obtain ⟨v, rfl⟩ := (shown ▸ squeezed).text
    rw [Utf8.decodeLossy_encode]
    exact ⟨squeezed.length_le, shorter⟩

/-- Bytes without a `%` decode to themselves. -/
theorem unescaped {bytes : Bytes} (plain : 37 ∉ bytes) :
    slicesCharacter bytes = false ∧ plusEscape bytes = false ∧
      GrpcWebnext.Go.percentDecode bytes = bytes := by
  induction bytes with
  | nil => exact ⟨rfl, rfl, rfl⟩
  | cons b rest ih =>
      obtain ⟨first, later⟩ := List.ne_and_not_mem_of_not_mem_cons plain
      rw [slicesCharacter_of_ne first.symm, plusEscape_of_ne first.symm, go_percentDecode_of_ne first.symm]
      obtain ⟨whole, noPlus, same⟩ := ih later
      exact ⟨whole, noPlus, congrArg (b :: ·) same⟩

theorem legible_of_plain {comp : Str} (plain : '%' ∉ comp) :
    slicesCharacter (encode comp) = false ∧ Legible comp := by
  have free : (37 : UInt8) ∉ encode comp := fun inside =>
    plain ((Spelling.mem_flatMap_iff sep_percent).mp inside)
  obtain ⟨whole, noPlus, same⟩ := unescaped free
  refine ⟨whole, noPlus, ?_⟩
  rw [same]
  exact valid_iff.mpr ⟨comp, rfl⟩

end GrpcWebnext.HttpRule
