import GrpcWebnext.HttpRule.SameDecoding

/-! `percent_decode` with the offsets it slices the string at, against what decoding the
escapes of a text means. -/
namespace GrpcWebnext.HttpRule
open Framing (Bytes)
open Text (Str)
open Utf8 (encode)

/-- `str::is_char_boundary` of the string with these bytes. -/
def isCharBoundary (s : Bytes) (i : Nat) : Bool :=
  i == 0 || match s[i]? with
    | some b => !Utf8.isContinuation b
    | none => i == s.length

/-- `&s[start..stop]`. The result is `none` where the program panics. -/
def slice (s : Bytes) (start stop : Nat) : Option Bytes :=
  if start ≤ stop ∧ isCharBoundary s start = true ∧ isCharBoundary s stop = true then
    some ((s.take stop).drop start)
  else none

/-- `u8::from_str_radix(_, 16)` of a slice of two bytes. -/
def radixOfSlice : Bytes → Option UInt8
  | [hi, lo] => fromStrRadix16 hi lo
  | _ => none

/-- The loop of `percent_decode` from an index on. -/
def percentDecodeFrom (s out : Bytes) (i : Nat) : Option Bytes :=
  if inside : i < s.length then
    if s[i] = 37 ∧ i + 2 < s.length then
      match slice s (i + 1) (i + 3) with
      | none => none
      | some digits => match radixOfSlice digits with
        | some b => percentDecodeFrom s (out ++ [b]) (i + 3)
        | none => percentDecodeFrom s (out ++ [s[i]]) (i + 1)
    else percentDecodeFrom s (out ++ [s[i]]) (i + 1)
  else some out
termination_by s.length - i

/-- `percent_decode` on a string, `none` where it panics. -/
def percentDecodeString (s : Str) : Option Str :=
  (percentDecodeFrom (encode s) [] 0).map Utf8.decodeLossy

/-- A `%` with two hex digits behind it, and the byte they denote. -/
inductive HexEscape : Bytes → UInt8 → Prop where
  | intro {hi lo : UInt8} {h l : Nat} (high : hexVal hi = some h) (low : hexVal lo = some l) :
      HexEscape [37, hi, lo] (UInt8.ofNat (h * 16 + l))

/-- The bytes with each escape replaced by its byte, from left to right. -/
inductive Unescapes : Bytes → Bytes → Prop where
  | nil : Unescapes [] []
  | escape {code rest out : Bytes} {b : UInt8} (hex : HexEscape code b) (later : Unescapes rest out) :
      Unescapes (code ++ rest) (b :: out)
  | keep (b : UInt8) {rest out : Bytes}
      (none : ∀ code tail c, b :: rest = code ++ tail → ¬ HexEscape code c)
      (later : Unescapes rest out) : Unescapes (b :: rest) (b :: out)

/-- The decoder returns, and what it returns is the reading of the unescaped bytes. -/
def DecodesExactly (s : Str) : Prop :=
  ∃ out, Unescapes (encode s) out ∧ percentDecodeString s = some (Utf8.decodeLossy out)

section Slices

theorem boundary_at_end {s : Bytes} {i : Nat} (within : i ≤ s.length) :
    isCharBoundary s i = (i == 0 || !(s.drop i).head?.any Utf8.isContinuation) := by
  unfold isCharBoundary
  rw [List.head?_drop]
  cases found : s[i]? with
  | some b => rfl
  | none =>
      have finish : i = s.length := Nat.le_antisymm within (List.getElem?_eq_none_iff.mp found)
      simp [finish]

/-- The byte behind a `%` of a string starts a character. -/
theorem boundary_behind_percent {s : Str} {front rest : Bytes} (cut : encode s = front ++ 37 :: rest) :
    isCharBoundary (encode s) (front.length + 1) = true := by
  obtain ⟨before, behind, _, _, spelled⟩ := Spelling.split_at sep_percent cut
  have tail : (encode s).drop (front.length + 1) = rest := by
    rw [cut, List.drop_append]
    simp
  rw [boundary_at_end (by simp [cut]), tail, ← spelled]
  simp [show (behind.flatMap String.utf8EncodeChar).head?.any Utf8.isContinuation = false from
    Utf8.encode_head behind]

theorem slice_behind_percent {s : Str} {front rest : Bytes} {hi lo : UInt8}
    (cut : encode s = front ++ 37 :: hi :: lo :: rest) :
    slice (encode s) (front.length + 1) (front.length + 3) =
      if rest.head?.any Utf8.isContinuation = true then none else some [hi, lo] := by
  have tail : (encode s).drop (front.length + 3) = rest := by
    rw [cut, List.drop_append]
    simp
  have within : ((encode s).take (front.length + 3)).drop (front.length + 1) = [hi, lo] := by
    rw [cut, List.take_append, List.drop_append]
    simp
  have stop : isCharBoundary (encode s) (front.length + 3) =
      !rest.head?.any Utf8.isContinuation := by
    rw [boundary_at_end (by simp [cut]), tail]
    simp
  unfold slice
  rw [within, stop, boundary_behind_percent cut]
  cases rest.head?.any Utf8.isContinuation <;> simp

end Slices

section Loop
variable {s : Str} {front rest out : Bytes}

theorem percentDecodeFrom_escape {hi lo : UInt8} (cut : encode s = front ++ 37 :: hi :: lo :: rest) :
    percentDecodeFrom (encode s) out front.length =
      if rest.head?.any Utf8.isContinuation = true then none
      else match fromStrRadix16 hi lo with
        | some b => percentDecodeFrom (encode s) (out ++ [b]) (front.length + 3)
        | none => percentDecodeFrom (encode s) (out ++ [37]) (front.length + 1) := by
  have size : (encode s).length = front.length + (rest.length + 3) := by
    rw [cut, List.length_append]
    rfl
  have inside : front.length < (encode s).length := by omega
  have here : (encode s)[front.length] = 37 := by simp [cut]
  have room : front.length + 2 < (encode s).length := by omega
  rw [percentDecodeFrom, dif_pos inside, here, if_pos ⟨rfl, room⟩, slice_behind_percent cut]
  split
  · rename_i sliced
    split at sliced
    · rw [if_pos ‹_›]
    · cases sliced
  · rename_i digits sliced
    split at sliced
    · cases sliced
    · cases sliced
      rw [if_neg ‹_›]
      rfl

theorem percentDecodeFrom_keep {b : UInt8} (cut : encode s = front ++ b :: rest)
    (none : ∀ hi lo tail, b = 37 → rest = hi :: lo :: tail → False) :
    percentDecodeFrom (encode s) out front.length =
      percentDecodeFrom (encode s) (out ++ [b]) (front.length + 1) := by
  have size : (encode s).length = front.length + (rest.length + 1) := by
    rw [cut, List.length_append]
    rfl
  have inside : front.length < (encode s).length := by omega
  have here : (encode s)[front.length] = b := by simp [cut]
  have noEscape : ¬ (b = 37 ∧ front.length + 2 < (encode s).length) := by
    rintro ⟨percent, room⟩
    match rest, none with
    | [], _ => simp only [List.length_nil] at size; omega
    | [_], _ => simp only [List.length_cons, List.length_nil] at size; omega
    | hi :: lo :: tail, none => exact none hi lo tail percent rfl
  rw [percentDecodeFrom, dif_pos inside, here, if_neg noEscape]

theorem map_append_one (out : Bytes) (b : UInt8) (read : Option Bytes) :
    read.map ((out ++ [b]) ++ ·) = (read.map (b :: ·)).map (out ++ ·) := by
  cases read with
  | none => rfl
  | some tail => simp

/-- The loop over indices reads what is left as the loop over bytes does. -/
theorem percentDecodeFrom_eq (cut : encode s = front ++ rest) :
    percentDecodeFrom (encode s) out front.length = (percentDecodeBytes rest).map (out ++ ·) := by
  induction rest using percentDecodeBytes.induct generalizing front out with
  | case1 =>
      have finished : ¬ front.length < (encode s).length := by
        rw [cut, List.append_nil]
        exact Nat.lt_irrefl _
      rw [percentDecodeFrom, dif_neg finished, percentDecodeBytes, Option.map_some, List.append_nil]
  | case2 hi lo rest splits =>
      rw [percentDecodeFrom_escape cut, if_pos splits, percentDecodeBytes, if_pos splits]
      rfl
  | case3 hi lo rest whole b radix ih =>
      have next : encode s = (front ++ [37, hi, lo]) ++ rest := by simp [cut]
      have read : percentDecodeFrom (encode s) (out ++ [b]) (front ++ [37, hi, lo]).length =
          (percentDecodeBytes rest).map ((out ++ [b]) ++ ·) := ih next
      rw [percentDecodeFrom_escape cut, if_neg whole, percentDecodeBytes, if_neg whole, radix]
      rw [List.length_append] at read
      exact read.trans (map_append_one out b _)
  | case4 hi lo rest whole radix ih =>
      have next : encode s = (front ++ [37]) ++ (hi :: lo :: rest) := by simp [cut]
      have read : percentDecodeFrom (encode s) (out ++ [37]) (front ++ [37]).length =
          (percentDecodeBytes (hi :: lo :: rest)).map ((out ++ [37]) ++ ·) := ih next
      rw [percentDecodeFrom_escape cut, if_neg whole, percentDecodeBytes, if_neg whole, radix]
      rw [List.length_append] at read
      exact read.trans (map_append_one out 37 _)
  | case5 b rest notEscape ih =>
      have next : encode s = (front ++ [b]) ++ rest := by simp [cut]
      have read : percentDecodeFrom (encode s) (out ++ [b]) (front ++ [b]).length =
          (percentDecodeBytes rest).map ((out ++ [b]) ++ ·) := ih next
      rw [percentDecodeFrom_keep cut notEscape, percentDecodeBytes.eq_3 b rest notEscape]
      rw [List.length_append] at read
      exact read.trans (map_append_one out b _)

/-- `percent_decode` slices only where the loop over bytes looks behind a `%`. -/
theorem percentDecodeString_eq (s : Str) : percentDecodeString s = percentDecode s := by
  have read : percentDecodeFrom (encode s) [] ([] : Bytes).length =
      (percentDecodeBytes (encode s)).map ([] ++ ·) := percentDecodeFrom_eq rfl
  rw [List.length_nil] at read
  rw [percentDecodeString, percentDecode, read]
  cases percentDecodeBytes (encode s) <;> rfl

end Loop

section Exact
variable {bytes out : Bytes}

theorem unhex_some {hi lo b : UInt8} : GrpcWebnext.Go.unhex hi lo = some b ↔ HexEscape [37, hi, lo] b := by
  unfold GrpcWebnext.Go.unhex
  constructor
  · intro found
    split at found
    · rename_i h l high low
      cases found
      exact .intro high low
    · cases found
  · rintro ⟨high, low⟩
    rw [high, low]

theorem HexEscape.shape {code : Bytes} {b : UInt8} (hex : HexEscape code b) :
    ∃ hi lo, code = [37, hi, lo] := by
  cases hex with
  | @intro hi lo h l high low => exact ⟨hi, lo, rfl⟩

/-- The Go decoder computes the unescaped bytes. -/
theorem unescapes_go (bytes : Bytes) : Unescapes bytes (GrpcWebnext.Go.percentDecode bytes) := by
  induction bytes using GrpcWebnext.Go.percentDecode.induct with
  | case1 => exact .nil
  | case2 hi lo rest b found ih =>
      rw [GrpcWebnext.Go.percentDecode, found]
      exact .escape (unhex_some.mp found) ih
  | case3 hi lo rest none ih =>
      rw [GrpcWebnext.Go.percentDecode, none]
      refine .keep 37 ?_ ih
      intro code tail c cut hex
      obtain ⟨hi', lo', rfl⟩ := hex.shape
      cases cut
      rw [unhex_some.mpr hex] at none
      cases none
  | case4 b rest notEscape ih =>
      rw [GrpcWebnext.Go.percentDecode.eq_3 b rest notEscape]
      refine .keep b ?_ ih
      intro code tail c cut hex
      obtain ⟨hi, lo, rfl⟩ := hex.shape
      cases cut
      exact notEscape hi lo tail rfl rfl

theorem Unescapes.eq_go (unescapes : Unescapes bytes out) :
    out = GrpcWebnext.Go.percentDecode bytes := by
  induction unescapes with
  | nil => rfl
  | @escape code rest out b hex later ih =>
      obtain ⟨hi, lo, rfl⟩ := hex.shape
      rw [List.cons_append, List.cons_append, List.cons_append, List.nil_append,
        GrpcWebnext.Go.percentDecode, unhex_some.mpr hex, ih]
  | @keep b rest out none later ih =>
      by_cases shape : ∃ hi lo tail, b = 37 ∧ rest = hi :: lo :: tail
      · obtain ⟨hi, lo, tail, rfl, rfl⟩ := shape
        cases digits : GrpcWebnext.Go.unhex hi lo with
        | some c => exact absurd (unhex_some.mp digits) (none _ tail c rfl)
        | none => rw [GrpcWebnext.Go.percentDecode, digits, ih]
      · have plain : ∀ hi lo tail, b = 37 → rest = hi :: lo :: tail → False :=
          fun hi lo tail percent same => shape ⟨hi, lo, tail, percent, same⟩
        rw [GrpcWebnext.Go.percentDecode.eq_3 b rest plain, ih]

theorem unescapes_iff : Unescapes bytes out ↔ out = GrpcWebnext.Go.percentDecode bytes := by
  constructor
  · exact Unescapes.eq_go
  · rintro rfl
    exact unescapes_go bytes

theorem decodesExactly_iff (s : Str) : DecodesExactly s ↔
    percentDecode s = some (Utf8.decodeLossy (GrpcWebnext.Go.percentDecode (encode s))) := by
  simp only [DecodesExactly, unescapes_iff, percentDecodeString_eq, exists_eq_left]

end Exact

section Lossy

theorem Squeezed.first {raw g : Bytes} (squeezed : Squeezed raw g) :
    raw = g ∨ ∃ w b lo r rest, raw = w ++ b :: r ∧ g = w ++ 37 :: 43 :: lo :: rest ∧
      b.toNat < 128 ∧ lo.toNat < 128 ∧ Squeezed r rest := by
  induction squeezed with
  | nil => exact .inl rfl
  | same b rest ih =>
      rcases ih with rfl | ⟨w, c, lo, r, tail, rfl, rfl, small, digit, later⟩
      · exact .inl rfl
      · exact .inr ⟨b :: w, c, lo, r, tail, rfl, rfl, small, digit, later⟩
  | plus b lo small digit rest ih => exact .inr ⟨[], b, lo, _, _, rfl, rfl, small, digit, rest⟩

theorem decodeLossy_length (w : Bytes) {a : UInt8} (small : a.toNat < 128) (r : Bytes) :
    (Utf8.decodeLossy (w ++ a :: r)).length =
      (Utf8.decodeLossy w).length + (Utf8.decodeLossy r).length + 1 := by
  have ascii : a < 0x80 := UInt8.lt_iff_toNat_lt.mpr small
  rw [Utf8.decodeLossy_append_ascii ascii, List.length_append, List.length_cons]
  omega

/-- A byte in the place of three is a character in the place of three. -/
theorem Squeezed.reads_shorter {raw g : Bytes} (squeezed : Squeezed raw g) :
    (Utf8.decodeLossy raw).length ≤ (Utf8.decodeLossy g).length ∧
      (raw ≠ g → (Utf8.decodeLossy raw).length < (Utf8.decodeLossy g).length) := by
  induction size : g.length using Nat.strong_induction_on generalizing raw g with
  | _ n ih =>
      rcases squeezed.first with rfl | ⟨w, b, lo, r, rest, rfl, rfl, small, digit, later⟩
      · exact ⟨Nat.le_refl _, fun differs => absurd rfl differs⟩
      · have tail := (ih rest.length (by simp at size; omega) later rfl).1
        have long : (Utf8.decodeLossy (w ++ 37 :: 43 :: lo :: rest)).length =
            (Utf8.decodeLossy w).length + ((Utf8.decodeLossy rest).length + 1 + 1) + 1 := by
          have sign := decodeLossy_length [] (by decide : (43 : UInt8).toNat < 128) (lo :: rest)
          have last := decodeLossy_length [] digit rest
          have empty : (Utf8.decodeLossy []).length = 0 := rfl
          rw [List.nil_append] at sign last
          rw [decodeLossy_length w (by decide), sign, last]
          omega
        rw [decodeLossy_length w small, long]
        exact ⟨by omega, fun _ => by omega⟩

end Lossy

/-- `percent_decode` returns exactly the reading of the unescaped bytes if and only if no
`%` is followed by two bytes that end inside a character, and none by a plus sign and a
hex digit. -/
theorem percent_decode_exact_iff (s : Str) :
    DecodesExactly s ↔ slicesCharacter (encode s) = false ∧ plusEscape (encode s) = false := by
  rw [decodesExactly_iff]
  constructor
  · intro exactly
    have whole : slicesCharacter (encode s) = false := by
      cases slices : slicesCharacter (encode s) with
      | false => rfl
      | true =>
          rw [percentDecode_none slices] at exactly
          cases exactly
    refine ⟨whole, ?_⟩
    cases plus : plusEscape (encode s) with
    | false => rfl
    | true =>
        obtain ⟨raw, decoded, squeezed, _, shorter⟩ := (compared (encode s)).reads whole
        have differs : raw ≠ GrpcWebnext.Go.percentDecode (encode s) := by
          intro same
          have less := shorter plus
          rw [same] at less
          exact Nat.lt_irrefl _ less
        have less := squeezed.reads_shorter.2 differs
        rw [percentDecode, decoded, Option.map_some, Option.some.injEq] at exactly
        rw [exactly] at less
        exact absurd less (Nat.lt_irrefl _)
  · rintro ⟨whole, plain⟩
    obtain ⟨raw, decoded, _, same, _⟩ := (compared (encode s)).reads whole
    rw [percentDecode, decoded, same plain, Option.map_some]

/-- The slice behind the `%` of `%aé` ends inside a character and panics; of `%+f` the
number parser takes the plus sign, and the text becomes a control character. -/
theorem split_character_and_plus_sign :
    percentDecodeString "%aé".toList = none ∧
      percentDecodeString "%+f".toList = some [Char.ofNat 15] ∧
      Unescapes (utf8 "%+f") (utf8 "%+f") ∧
      ¬ DecodesExactly "%aé".toList ∧ ¬ DecodesExactly "%+f".toList := by
  refine ⟨?_, ?_, unescapes_iff.mpr (by decide), ?_, ?_⟩
  · rw [percentDecodeString_eq]
    decide
  · rw [percentDecodeString_eq]
    decide
  · rw [decodesExactly_iff]
    decide
  · rw [decodesExactly_iff]
    decide

end GrpcWebnext.HttpRule
