import GrpcWebnext.HttpRule.Bind

/-! Every key and every value can stand in a query string: the text that escapes each of
their bytes is decoded to them in both servers. -/
namespace GrpcWebnext.HttpRule
open Framing (Bytes)
open Text (Str)

def hexDigit (n : Nat) : UInt8 := UInt8.ofNat (if n < 10 then 48 + n else 55 + n)

def escape (bytes : Bytes) : Bytes :=
  bytes.flatMap fun b => [37, hexDigit (b.toNat / 16), hexDigit (b.toNat % 16)]

theorem hexVal_hexDigit : ∀ n < 16, hexVal (hexDigit n) = some n := by decide

theorem escape_all (P : UInt8 → Prop) (percent : P 37) (digit : ∀ n < 16, P (hexDigit n))
    {bytes : Bytes} {b : UInt8} (member : b ∈ escape bytes) : P b := by
  obtain ⟨c, _, member⟩ := List.mem_flatMap.mp member
  have small := c.toNat_lt
  rcases List.mem_cons.mp member with rfl | member
  · exact percent
  rcases List.mem_cons.mp member with rfl | member
  · exact digit _ (by omega)
  · rw [List.mem_singleton.mp member]
    exact digit _ (by omega)

theorem hexVal_escape (b : UInt8) :
    hexVal (hexDigit (b.toNat / 16)) = some (b.toNat / 16) ∧
      hexVal (hexDigit (b.toNat % 16)) = some (b.toNat % 16) ∧
      UInt8.ofNat (b.toNat / 16 * 16 + b.toNat % 16) = b := by
  have small := b.toNat_lt
  refine ⟨hexVal_hexDigit _ (by omega), hexVal_hexDigit _ (by omega), ?_⟩
  rw [Nat.div_add_mod', UInt8.ofNat_toNat]

theorem escape_head (bytes : Bytes) : (escape bytes).head?.any Utf8.isContinuation = false := by
  cases bytes with
  | nil => rfl
  | cons b bytes => rfl

theorem percentDecodeBytes_escape (bytes : Bytes) : percentDecodeBytes (escape bytes) = some bytes := by
  induction bytes with
  | nil => rfl
  | cons b bytes ih =>
      obtain ⟨hi, lo, whole⟩ := hexVal_escape b
      rw [escape, List.flatMap_cons, ← escape]
      simp only [List.cons_append, List.nil_append, percentDecodeBytes, escape_head, fromStrRadix16,
        hi, lo, whole, ih, Bool.false_eq_true, if_false, Option.map_some]

theorem go_percentDecode_escape (bytes : Bytes) :
    GrpcWebnext.Go.percentDecode (escape bytes) = bytes := by
  induction bytes with
  | nil => rfl
  | cons b bytes ih =>
      obtain ⟨hi, lo, whole⟩ := hexVal_escape b
      rw [escape, List.flatMap_cons, ← escape]
      simp only [List.cons_append, List.nil_append, GrpcWebnext.Go.percentDecode,
        GrpcWebnext.Go.unhex, hi, lo, whole, ih]

namespace Rust

/-- The escaped form of a text, as text. -/
def escaped (s : Str) : Str := (escape (Utf8.encode s)).map fun b => Char.ofNat b.toNat

theorem escaped_plain {s : Str} {c : Char} (member : c ∈ escaped s) :
    c ≠ '&' ∧ c ≠ '+' ∧ c ≠ '=' := by
  obtain ⟨b, inside, rfl⟩ := List.mem_map.mp member
  exact escape_all (fun b => Char.ofNat b.toNat ≠ '&' ∧ Char.ofNat b.toNat ≠ '+' ∧
    Char.ofNat b.toNat ≠ '=') (by decide) (by decide) inside

theorem decodeQuery_escaped (s : Str) : decodeQuery (escaped s) = some s := by
  have spaces : (escaped s).map (fun c => if c = '+' then ' ' else c) = escaped s := by
    refine (List.map_congr_left ?_).trans (List.map_id _)
    intro c member
    rw [if_neg (escaped_plain member).2.1, id]
  have ascii : ∀ b ∈ escape (Utf8.encode s), b.toNat < 128 := by
    intro b member
    exact escape_all (fun b => b.toNat < 128) (by decide) (by decide) member
  have bytes : Utf8.encode (escaped s) = escape (Utf8.encode s) := Utf8.encode_ascii ascii
  rw [decodeQuery, spaces, percentDecode, bytes, percentDecodeBytes_escape, Option.map_some,
    Utf8.decodeLossy_encode]

theorem parseQuery_escaped (key value : Str) :
    parseQuery (escaped key ++ '=' :: escaped value) = some [(key, value)] := by
  have free : '&' ∉ escaped key ++ '=' :: escaped value := by
    intro member
    rcases List.mem_append.mp member with inside | inside
    · exact (escaped_plain inside).1 rfl
    · rcases List.mem_cons.mp inside with same | inside
      · cases same
      · exact (escaped_plain inside).1 rfl
  have noEquals : '=' ∉ escaped key := fun inside => (escaped_plain inside).2.2 rfl
  have one : Text.fields '&' (escaped key ++ '=' :: escaped value) =
      [escaped key ++ '=' :: escaped value] := by
    rw [Text.fields, List.splitOn_eq_singleton free]
    simp
  rw [parseQuery, one]
  simp only [List.mapM_cons, List.mapM_nil, Text.splitOnce_append noEquals, Option.getD_some,
    decodeQuery_escaped, Option.bind_some, Option.map_some, Option.pure_def, Option.bind_eq_bind]

end Rust

namespace Go

theorem decodeQuery_escape (s : Bytes) : decodeQuery (escape s) = s := by
  have spaces : (escape s).map (fun b => if b = 43 then 32 else b) = escape s := by
    refine (List.map_congr_left ?_).trans (List.map_id _)
    intro b member
    have plain : b ≠ 43 := escape_all (· ≠ 43) (by decide) (by decide) member
    rw [if_neg plain, id]
  rw [decodeQuery, spaces, go_percentDecode_escape]

theorem cut_append {before : Bytes} (free : 61 ∉ before) (behind : Bytes) :
    cut (before ++ 61 :: behind) = (before, behind) := by
  induction before with
  | nil => simp [cut]
  | cons b before ih =>
      simp only [List.mem_cons, not_or] at free
      simp [cut, Ne.symm free.1, ih free.2]

theorem parseQuery_escape (key value : Bytes) :
    parseQuery (escape key ++ 61 :: escape value) = [(key, value)] := by
  have noEquals : 61 ∉ escape key := by
    intro inside
    exact escape_all (· ≠ 61) (by decide) (by decide) inside rfl
  have noAmp : ∀ text, 38 ∉ escape text := by
    intro text inside
    exact escape_all (· ≠ 38) (by decide) (by decide) inside rfl
  have free : 38 ∉ escape key ++ 61 :: escape value := by
    intro member
    rcases List.mem_append.mp member with inside | inside
    · exact noAmp key inside
    · rcases List.mem_cons.mp inside with same | inside
      · cases same
      · exact noAmp value inside
  rw [parseQuery, List.splitOn_eq_singleton free]
  simp [cut_append noEquals, decodeQuery_escape]

end Go

/-- What every dialect can say: numbers, truth values, and any parameter in a query. -/
structure Dialect.Fluent {T : Type} (d : Dialect T) : Prop where
  zero : d.chars (d.word "0") = ['0']
  one : d.chars (d.word "1") = ['1']
  unsigned_zero : d.unsigned ['0'] = some 0
  unsigned_one : d.unsigned ['1'] = some 1
  true_ne_false : d.word "true" ≠ d.word "false"
  one_ne_false : d.word "1" ≠ d.word "false"
  carries : ∀ key value, ∃ query, d.parseQuery query = some [(key, value)]

theorem Rust.dialect_fluent (debug : Str → String) : (Rust.dialect debug).Fluent where
  zero := rfl
  one := rfl
  unsigned_zero := rfl
  unsigned_one := rfl
  true_ne_false := by simp [Rust.dialect]
  one_ne_false := by simp [Rust.dialect]
  carries key value := ⟨_, Rust.parseQuery_escaped key value⟩

theorem Go.dialect_fluent (debug : Bytes → String) : (Go.dialect debug).Fluent where
  zero := rfl
  one := rfl
  unsigned_zero := rfl
  unsigned_one := rfl
  true_ne_false := by
    show utf8 "true" ≠ utf8 "false"
    decide
  one_ne_false := by
    show utf8 "1" ≠ utf8 "false"
    decide
  carries key value := ⟨_, congrArg some (Go.parseQuery_escape key value)⟩

end GrpcWebnext.HttpRule
