import GrpcWebnext.Library.Utf8

/-! The `%XX` decoding of path components, query tokens and `grpc-message`. -/
namespace GrpcWebnext
open Text (Str)

def hexVal (b : UInt8) : Option Nat :=
  if 48 ≤ b && b ≤ 57 then some (b.toNat - 48)
  else if 97 ≤ b && b ≤ 102 then some (b.toNat - 87)
  else if 65 ≤ b && b ≤ 70 then some (b.toNat - 55)
  else none

/-- `u8::from_str_radix(_, 16)` on two bytes: two hex digits, or a plus sign and one. -/
def fromStrRadix16 (hi lo : UInt8) : Option UInt8 :=
  match hexVal hi, hexVal lo with
  | some h, some l => some (UInt8.ofNat (h * 16 + l))
  | none, some l => if hi = 43 then some (UInt8.ofNat l) else none
  | _, none => none

/-- The loop of `percent_decode` over the bytes of the string. The result is `none`
when the slice behind a `%` ends inside a character, where the program panics. -/
def percentDecodeBytes : List UInt8 → Option (List UInt8)
  | [] => some []
  | 37 :: hi :: lo :: rest =>
      if rest.head?.any Utf8.isContinuation then none
      else match fromStrRadix16 hi lo with
        | some b => (percentDecodeBytes rest).map (b :: ·)
        | none => (percentDecodeBytes (hi :: lo :: rest)).map (37 :: ·)
  | b :: rest => (percentDecodeBytes rest).map (b :: ·)

def percentDecode (s : Str) : Option Str :=
  (percentDecodeBytes (Utf8.encode s)).map Utf8.decodeLossy

example : percentDecode "urn%3Afoo%zz%".toList = some "urn:foo%zz%".toList := by decide

example : percentDecode "%aé".toList = none := by decide

end GrpcWebnext
