import GrpcWebnext.HttpRule.QueryText
import GrpcWebnext.HttpRule.SameDecoding

/-! The `grpc-message` coding: the encoders of the Rust and the Go server, and what the
decoders of the servers and of the client make of their text. -/
namespace GrpcWebnext.GrpcMessage
open Framing (Bytes)
open Text (Str)
open HttpRule (hexDigit escape)

namespace Rust

def isAsciiAlphanumeric (b : UInt8) : Bool :=
  (48 ≤ b && b ≤ 57) || (65 ≤ b && b ≤ 90) || (97 ≤ b && b ≤ 122)

/-- The bytes that stand for themselves: alphanumerics and ` -_./:`. -/
def passes (b : UInt8) : Bool :=
  isAsciiAlphanumeric b || b == 32 || b == 45 || b == 95 || b == 46 || b == 47 || b == 58

/-- A digit of the format `{b:02X}`. -/
def upperHex (n : Nat) : Char := Char.ofNat (hexDigit n).toNat

def percentEncode (s : Str) : Str :=
  (Utf8.encode s).flatMap fun b =>
    if passes b then [Char.ofNat b.toNat] else ['%', upperHex (b.toNat / 16), upperHex (b.toNat % 16)]

end Rust

namespace Go

def hex : Bytes := [48, 49, 50, 51, 52, 53, 54, 55, 56, 57, 65, 66, 67, 68, 69, 70]

def passes (c : UInt8) : Bool :=
  (48 ≤ c && c ≤ 57) || (97 ≤ c && c ≤ 122) || (65 ≤ c && c ≤ 90) ||
    c == 32 || c == 45 || c == 95 || c == 46 || c == 47 || c == 58

def percentEncode (s : Bytes) : Bytes :=
  s.flatMap fun c =>
    if passes c then [c] else [37, hex.getD (c >>> 4).toNat 0, hex.getD (c &&& 0x0F).toNat 0]

end Go

namespace Ts

/-- A hexadecimal digit of a script string. -/
def hexValue (c : Char) : Option Nat :=
  if c.val.toNat < 128 then hexVal (UInt8.ofNat c.val.toNat) else none

/-- So many octets, each behind a percent sign. -/
def octets : Nat → Str → Option (Bytes × Str)
  | 0, s => some ([], s)
  | n + 1, '%' :: hi :: lo :: rest => match hexValue hi, hexValue lo with
    | some h, some l => (octets n rest).map fun (more, rest) => (UInt8.ofNat (h * 16 + l) :: more, rest)
    | _, _ => none
  | _ + 1, _ => none

/-- The leading one bits of an octet; five and more are all the same to the decoder. -/
def leadingOnes (b : UInt8) : Nat :=
  if b < 0x80 then 0 else if b < 0xC0 then 1 else if b < 0xE0 then 2 else if b < 0xF0 then 3
  else if b < 0xF8 then 4 else 5

/-- One character of `Decode`: an unescaped one, or the octets of a code point. Everything
else is a `URIError`. -/
def decodeNext : Scan.Next Char Char
  | [] => none
  | '%' :: rest => match octets 1 ('%' :: rest) with
    | some ([b], rest) =>
        if leadingOnes b = 0 then some (Char.ofNat b.toNat, rest)
        else if leadingOnes b = 1 ∨ 4 < leadingOnes b then none
        else (octets (leadingOnes b - 1) rest).bind fun (tail, rest) =>
          match Utf8.decodeLossy (b :: tail) with
          | [c] => if String.utf8EncodeChar c = b :: tail then some (c, rest) else none
          | _ => none
    | _ => none
  | c :: rest => some (c, rest)

def decodeURIComponent (s : Str) : Option Str :=
  if (Scan.scan decodeNext s).2 = [] then some (Scan.scan decodeNext s).1 else none

/-- Text that does not decode stands for itself. -/
def decodeGrpcMessage (value : Str) : Str := (decodeURIComponent value).getD value

example : decodeURIComponent "a%C3%A9%25".toList = some "aé%".toList := by decide

example : decodeURIComponent "%C3%2".toList = none := by decide

end Ts

/-- The characters of ASCII bytes. -/
def text (bytes : Bytes) : Str := bytes.map fun b => Char.ofNat b.toNat

/-- One byte as both encoders spell it. -/
def spelled (b : UInt8) : Bytes := if Rust.passes b then [b] else escape [b]

theorem go_passes (b : UInt8) : Go.passes b = Rust.passes b := by
  unfold Go.passes Rust.passes Rust.isAsciiAlphanumeric
  ac_rfl

theorem hex_getD : ∀ n < 16, Go.hex.getD n 0 = hexDigit n := by decide

theorem go_percentEncode (s : Bytes) : Go.percentEncode s = s.flatMap spelled := by
  apply List.flatMap_congr
  intro c _
  have hi : (c >>> 4).toNat = c.toNat / 16 := by
    rw [UInt8.toNat_shiftRight]
    exact Nat.shiftRight_eq_div_pow c.toNat 4
  have lo : (c &&& 0x0F).toNat = c.toNat % 16 := by
    rw [UInt8.toNat_and]
    exact Nat.and_two_pow_sub_one_eq_mod c.toNat 4
  have small := c.toNat_lt
  rw [go_passes, hi, lo, hex_getD _ (by omega), hex_getD _ (by omega)]
  rfl

theorem rust_percentEncode (s : Str) : Rust.percentEncode s = text ((Utf8.encode s).flatMap spelled) := by
  rw [text, List.map_flatMap]
  apply List.flatMap_congr
  intro b _
  unfold spelled
  split <;> rfl

/-- A byte that passes is printable ASCII, and no percent sign. -/
theorem passes_printable {b : UInt8} (passes : Rust.passes b = true) :
    32 ≤ b.toNat ∧ b.toNat < 127 ∧ b ≠ 37 := by
  simp only [Rust.passes, Rust.isAsciiAlphanumeric, Bool.or_eq_true, Bool.and_eq_true, decide_eq_true_eq,
    beq_iff_eq, UInt8.le_iff_toNat_le, ← UInt8.toNat_inj, UInt8.reduceToNat] at passes
  simp only [ne_eq, ← UInt8.toNat_inj, UInt8.reduceToNat]
  omega

theorem spelled_printable {bytes : Bytes} {b : UInt8} (member : b ∈ bytes.flatMap spelled) :
    32 ≤ b.toNat ∧ b.toNat < 127 := by
  obtain ⟨c, _, inside⟩ := List.mem_flatMap.mp member
  unfold spelled at inside
  split at inside
  · rename_i passes
    rw [List.mem_singleton.mp inside]
    obtain ⟨low, high, -⟩ := passes_printable passes
    exact ⟨low, high⟩
  · exact HttpRule.escape_all (fun b => 32 ≤ b.toNat ∧ b.toNat < 127) (by decide) (by decide) inside

theorem encode_rust_percentEncode (s : Str) :
    Utf8.encode (Rust.percentEncode s) = Go.percentEncode (Utf8.encode s) := by
  rw [rust_percentEncode, go_percentEncode]
  apply Utf8.encode_ascii
  intro b member
  have printable := spelled_printable member
  omega

theorem spelled_head (bytes : Bytes) : (bytes.flatMap spelled).head?.any Utf8.isContinuation = false := by
  apply Utf8.ascii_head
  intro b member
  have printable := spelled_printable member
  omega

theorem spelled_escape {b : UInt8} (escaped : ¬ Rust.passes b = true) (rest : Bytes) :
    spelled b ++ rest = 37 :: hexDigit (b.toNat / 16) :: hexDigit (b.toNat % 16) :: rest := by
  rw [spelled, if_neg escaped]
  rfl

/-- No byte that passes starts an escape, and no escape is cut short. -/
theorem percentDecodeBytes_spelled (bytes : Bytes) :
    percentDecodeBytes (bytes.flatMap spelled) = some bytes := by
  induction bytes with
  | nil => rfl
  | cons b bytes ih =>
      rw [List.flatMap_cons]
      by_cases passes : Rust.passes b = true
      · obtain ⟨-, -, other⟩ := passes_printable passes
        rw [spelled, if_pos passes, List.singleton_append,
          percentDecodeBytes.eq_3 b _ fun _ _ _ same _ => other same, ih, Option.map_some]
      · obtain ⟨hi, lo, whole⟩ := HttpRule.hexVal_escape b
        rw [spelled_escape passes]
        simp only [percentDecodeBytes, spelled_head, fromStrRadix16, hi, lo, whole, ih,
          Bool.false_eq_true, if_false, Option.map_some]

theorem go_percentDecode_spelled (bytes : Bytes) :
    GrpcWebnext.Go.percentDecode (bytes.flatMap spelled) = bytes := by
  induction bytes with
  | nil => rfl
  | cons b bytes ih =>
      rw [List.flatMap_cons]
      by_cases passes : Rust.passes b = true
      · obtain ⟨-, -, other⟩ := passes_printable passes
        rw [spelled, if_pos passes, List.singleton_append, HttpRule.go_percentDecode_of_ne other, ih]
      · obtain ⟨hi, lo, whole⟩ := HttpRule.hexVal_escape b
        rw [spelled_escape passes]
        simp only [GrpcWebnext.Go.percentDecode, GrpcWebnext.Go.unhex, hi, lo, whole, ih]

theorem printable_char {b : UInt8} (printable : 32 ≤ b.toNat ∧ b.toNat < 127) :
    ' ' ≤ Char.ofNat b.toNat ∧ Char.ofNat b.toNat ≤ '~' := by
  have code : (Char.ofNat b.toNat).val.toNat = b.toNat := Utf8.toNat_char b
  constructor
  · rw [Char.le_def, UInt32.le_iff_toNat_le, code]
    exact printable.1
  · rw [Char.le_def, UInt32.le_iff_toNat_le, code]
    exact Nat.le_of_lt_succ printable.2

namespace Ts

theorem octets_length_le : ∀ n s bytes rest, octets n s = some (bytes, rest) →
    rest.length + n ≤ s.length := by
  intro n
  induction n with
  | zero =>
      intro s bytes rest read
      cases read
      exact Nat.le_refl _
  | succ n ih =>
      intro s bytes rest read
      unfold octets at read
      split at read
      · rename_i size
        cases size
      · rename_i k hi lo left size
        cases size
        split at read
        · obtain ⟨⟨more, last⟩, below, cut⟩ := Option.map_eq_some_iff.mp read
          cases cut
          have shorter := ih left more rest below
          simp only [List.length_cons]
          omega
        · cases read
      · cases read

theorem decodeNext_shrinks : Scan.Shrinks decodeNext := by
  intro s c rest cut
  unfold decodeNext at cut
  split at cut
  · cases cut
  · split at cut
    · rename_i b left one
      have shorter := octets_length_le _ _ _ _ one
      split at cut
      · cases cut
        exact shorter
      · split at cut
        · cases cut
        · obtain ⟨⟨tail, last⟩, more, char⟩ := Option.bind_eq_some_iff.mp cut
          have below := octets_length_le _ _ _ _ more
          dsimp only at char
          split at char
          · split at char
            · cases char
              omega
            · cases char
          · cases char
    · cases cut
  · cases cut
    exact Nat.lt_succ_self _

theorem hexValue_upper {n : Nat} (small : n < 16) :
    hexValue (Char.ofNat (hexDigit n).toNat) = some n := by
  have digits : ∀ n < 16, hexValue (Char.ofNat (hexDigit n).toNat) = some n := by decide
  exact digits n small

/-- Escaped octets are read one by one. -/
theorem octets_escape (bytes : Bytes) (rest : Str) :
    octets bytes.length (text (escape bytes) ++ rest) = some (bytes, rest) := by
  induction bytes with
  | nil => rfl
  | cons b bytes ih =>
      have small := b.toNat_lt
      have hi := hexValue_upper (show b.toNat / 16 < 16 by omega)
      have lo := hexValue_upper (show b.toNat % 16 < 16 by omega)
      have whole : UInt8.ofNat (b.toNat / 16 * 16 + b.toNat % 16) = b := by
        rw [Nat.div_add_mod', UInt8.ofNat_toNat]
      have cut : text (escape (b :: bytes)) ++ rest =
          '%' :: Char.ofNat (hexDigit (b.toNat / 16)).toNat ::
            Char.ofNat (hexDigit (b.toNat % 16)).toNat :: (text (escape bytes) ++ rest) := rfl
      rw [cut, List.length_cons]
      simp only [octets, hi, lo, ih, Option.map_some, whole]

/-- The first octet of a character tells how many there are. -/
theorem leadingOnes_encodeChar (c : Char) : ∃ b tail, String.utf8EncodeChar c = b :: tail ∧
    (tail = [] ∧ leadingOnes b = 0 ∨ leadingOnes b = tail.length + 1 ∧ 2 ≤ leadingOnes b ∧
      leadingOnes b ≤ 4) := by
  have legal := c.valid
  simp only [UInt32.isValidChar, Nat.isValidChar] at legal
  unfold String.utf8EncodeChar
  generalize c.val.toNat = v at legal
  dsimp only
  split_ifs with one two three
  · refine ⟨_, _, rfl, .inl ⟨rfl, ?_⟩⟩
    rw [leadingOnes,
      if_pos (by simp only [UInt8.lt_iff_toNat_lt, UInt8.toNat_ofNat', UInt8.reduceToNat]; omega)]
  all_goals
    refine ⟨_, _, rfl, .inr ?_⟩
    simp only [leadingOnes, UInt8.lt_iff_toNat_lt, UInt8.toNat_ofNat', UInt8.reduceToNat, List.length_cons,
      List.length_nil]
    split_ifs <;> omega

/-- The octets of a character of several are all escaped. -/
theorem spelled_encodeChar {c : Char} {b : UInt8} {tail : Bytes} (char : String.utf8EncodeChar c = b :: tail)
    (several : tail ≠ []) : (String.utf8EncodeChar c).flatMap spelled = escape (String.utf8EncodeChar c) := by
  apply List.flatMap_congr
  intro d member
  have large : ¬ Rust.passes d = true := by
    intro passes
    have small := (passes_printable passes).2.1
    have ascii := Utf8.byte_of_encodeChar member (by omega)
    have single := (Utf8.marks_ascii c (by omega)).1
    rw [char] at single
    cases single
    exact several rfl
  rw [spelled, if_neg large]
  rfl

theorem decodeNext_plain {c : Char} (other : c ≠ '%') (rest : Str) :
    decodeNext (c :: rest) = some (c, rest) :=
  decodeNext.eq_3 c rest other

theorem char_of_single {c : Char} {b : UInt8} (char : String.utf8EncodeChar c = [b])
    (none : leadingOnes b = 0) : Char.ofNat b.toNat = c := by
  have small : b.toNat < 128 := by
    simp only [leadingOnes, UInt8.lt_iff_toNat_lt, UInt8.reduceToNat] at none
    split_ifs at none
    assumption
  have member : b ∈ String.utf8EncodeChar c := char ▸ List.mem_cons_self
  rw [← Utf8.byte_of_encodeChar member small]
  exact Char.ofNat_toNat c

theorem text_append (front back : Bytes) : text (front ++ back) = text front ++ text back := List.map_append

/-- An escaped character is read whole, whatever follows. -/
theorem decodeNext_escape {c : Char} {b : UInt8} {tail : Bytes} (char : String.utf8EncodeChar c = b :: tail)
    (count : tail = [] ∧ leadingOnes b = 0 ∨
      leadingOnes b = tail.length + 1 ∧ 2 ≤ leadingOnes b ∧ leadingOnes b ≤ 4) (rest : Str) :
    decodeNext (text (escape (b :: tail)) ++ rest) = some (c, rest) := by
  have first : octets 1 (text (escape [b]) ++ (text (escape tail) ++ rest)) =
      some ([b], text (escape tail) ++ rest) := octets_escape [b] _
  have cut : text (escape (b :: tail)) ++ rest = text (escape [b]) ++ (text (escape tail) ++ rest) := by
    rw [← List.append_assoc, ← text_append]
    rfl
  have percent : ∃ digits, text (escape [b]) ++ (text (escape tail) ++ rest) = '%' :: digits := ⟨_, rfl⟩
  obtain ⟨digits, same⟩ := percent
  rw [same] at first
  rw [cut, same]
  simp only [decodeNext, first]
  rcases count with ⟨rfl, none⟩ | ⟨more, low, high⟩
  · rw [if_pos none, char_of_single char none]
    rfl
  · have whole : Utf8.decodeLossy (b :: tail) = [c] := by
      have one : Utf8.encode [c] = b :: tail := by
        rw [Utf8.encode, List.flatMap_singleton, char]
      rw [← one, Utf8.decodeLossy_encode]
    have behind : octets (leadingOnes b - 1) (text (escape tail) ++ rest) = some (tail, rest) := by
      rw [more, Nat.add_sub_cancel, octets_escape]
    rw [if_neg (by omega), if_neg (by omega), behind, Option.bind_some]
    dsimp only
    rw [whole]
    exact if_pos char

theorem decodeNext_spelled (c : Char) (rest : Str) :
    decodeNext (text ((String.utf8EncodeChar c).flatMap spelled) ++ rest) = some (c, rest) := by
  obtain ⟨b, tail, char, count⟩ := leadingOnes_encodeChar c
  by_cases single : tail = []
  · subst single
    rw [char, List.flatMap_singleton, spelled]
    split
    · rename_i passes
      have none : leadingOnes b = 0 := by
        rcases count with alone | ⟨more, low, -⟩
        · exact alone.2
        · rw [more] at low
          exact absurd low (by decide)
      have same := char_of_single char none
      have other : c ≠ '%' := by
        rintro rfl
        cases char
        exact (passes_printable passes).2.2 rfl
      rw [text, List.map_singleton, same]
      exact decodeNext_plain other rest
    · exact decodeNext_escape char count rest
  · rw [spelled_encodeChar char single, char]
    exact decodeNext_escape char count rest

theorem decodeURIComponent_encoded (s : Str) :
    decodeURIComponent (text ((Utf8.encode s).flatMap spelled)) = some s := by
  have scanned : Scan.scan decodeNext (text ((Utf8.encode s).flatMap spelled)) = (s, []) := by
    induction s with
    | nil => rfl
    | cons c s ih =>
        have cut : text ((Utf8.encode (c :: s)).flatMap spelled) =
            text ((String.utf8EncodeChar c).flatMap spelled) ++ text ((Utf8.encode s).flatMap spelled) := by
          rw [Utf8.encode, List.flatMap_cons, List.flatMap_append, text_append]
          rfl
        rw [cut, Scan.scan_some decodeNext_shrinks (decodeNext_spelled c _), ih]
  rw [decodeURIComponent, scanned]
  exact if_pos rfl

end Ts

/-- Both encoders write the same printable text, and every decoder gives back what went in;
Go's does so for bytes that are no text. -/
theorem grpcMessage_roundTrip (s : Str) (bytes : Bytes) :
    Utf8.encode (Rust.percentEncode s) = Go.percentEncode (Utf8.encode s) ∧
      (∀ c ∈ Rust.percentEncode s, ' ' ≤ c ∧ c ≤ '~') ∧
      percentDecode (Rust.percentEncode s) = some s ∧
      GrpcWebnext.Go.percentDecode (Go.percentEncode (Utf8.encode s)) = Utf8.encode s ∧
      Ts.decodeGrpcMessage (Rust.percentEncode s) = s ∧
      GrpcWebnext.Go.percentDecode (Go.percentEncode bytes) = bytes := by
  refine ⟨encode_rust_percentEncode s, ?_, ?_, ?_, ?_, ?_⟩
  · intro c member
    rw [rust_percentEncode] at member
    obtain ⟨b, inside, rfl⟩ := List.mem_map.mp member
    exact printable_char (spelled_printable inside)
  · rw [percentDecode, encode_rust_percentEncode, go_percentEncode, percentDecodeBytes_spelled,
      Option.map_some, Utf8.decodeLossy_encode]
  · rw [go_percentEncode, go_percentDecode_spelled]
  · rw [Ts.decodeGrpcMessage, rust_percentEncode, Ts.decodeURIComponent_encoded]
    rfl
  · rw [go_percentEncode, go_percentDecode_spelled]

end GrpcWebnext.GrpcMessage
