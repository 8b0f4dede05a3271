import Mathlib.Data.List.TakeWhile

/-! Base64 in its standard alphabet. What decoders make of missing padding and of spare bits
that are not zero is left to them. -/
namespace Base64

abbrev Bytes := List UInt8

/-- The six bits that a digit stands for. -/
def sextet (b : UInt8) : Option Nat :=
  if 65 ≤ b ∧ b ≤ 90 then some (b.toNat - 65)
  else if 97 ≤ b ∧ b ≤ 122 then some (b.toNat - 71)
  else if 48 ≤ b ∧ b ≤ 57 then some (b.toNat + 4)
  else if b = 43 then some 62
  else if b = 47 then some 63
  else none

def digit (n : Nat) : UInt8 :=
  if n < 26 then UInt8.ofNat (n + 65)
  else if n < 52 then UInt8.ofNat (n + 71)
  else if n < 62 then UInt8.ofNat (n - 4)
  else if n = 62 then 43 else 47

/-- Three bytes to four digits, without padding at the end. -/
def encode : Bytes → Bytes
  | [] => []
  | [x] => [digit (x.toNat / 4), digit (x.toNat % 4 * 16)]
  | [x, y] => [digit (x.toNat / 4), digit (x.toNat % 4 * 16 + y.toNat / 16), digit (y.toNat % 16 * 4)]
  | x :: y :: z :: rest =>
      digit (x.toNat / 4) :: digit (x.toNat % 4 * 16 + y.toNat / 16) ::
        digit (y.toNat % 16 * 4 + z.toNat / 64) :: digit (z.toNat % 64) :: encode rest

/-- The bytes of a run of sextets, with the bits that are left over. -/
def unpack : List Nat → Option (Bytes × Nat)
  | [] => some ([], 0)
  | [_] => none
  | [a, b] => some ([UInt8.ofNat (a * 4 + b / 16)], b % 16)
  | [a, b, c] => some ([UInt8.ofNat (a * 4 + b / 16), UInt8.ofNat (b % 16 * 16 + c / 4)], c % 4)
  | a :: b :: c :: d :: rest => (unpack rest).map fun (bytes, spare) =>
      (UInt8.ofNat (a * 4 + b / 16) :: UInt8.ofNat (b % 16 * 16 + c / 4) ::
        UInt8.ofNat (c % 4 * 64 + d) :: bytes, spare)

def pad : UInt8 := 61

def digitsOf (text : Bytes) : Bytes := text.takeWhile fun b => b ≠ pad

def paddingOf (text : Bytes) : Bytes := text.dropWhile fun b => b ≠ pad

/-- How much padding fills up the last group of `n` digits. -/
def wanted (n : Nat) : Nat := (4 - n % 4) % 4

/-- What a text stands for, with its spare bits: digits, and nothing but padding behind them. -/
def spelled (text : Bytes) : Option (Bytes × Nat) :=
  if (paddingOf text).all fun b => b = pad then ((digitsOf text).mapM sextet).bind unpack else none

/-- A decoder, by the padding it takes (how much is wanted, how much is there) and by whether
it insists on spare bits that are zero. -/
def decode (takes : Nat → Nat → Bool) (strict : Bool) (text : Bytes) : Option Bytes :=
  if takes (wanted (digitsOf text).length) (paddingOf text).length then
    (spelled text).bind fun (bytes, spare) => if strict ∧ spare ≠ 0 then none else some bytes
  else none

theorem length_split (text : Bytes) : (digitsOf text).length + (paddingOf text).length = text.length := by
  rw [← List.length_append, digitsOf, paddingOf, List.takeWhile_append_dropWhile]

/-- Padding fills up the last group exactly when the text is made of whole groups. -/
theorem padded_iff {text : Bytes} (few : (paddingOf text).length < 4) :
    (paddingOf text).length = wanted (digitsOf text).length ↔ text.length % 4 = 0 := by
  have split := length_split text
  unfold wanted
  omega

theorem decode_of_takes {takes : Nat → Nat → Bool} {text : Bytes} (strict : Bool)
    (taken : takes (wanted (digitsOf text).length) (paddingOf text).length = true) :
    decode takes strict text =
      (spelled text).bind fun x => if strict ∧ x.2 ≠ 0 then none else some x.1 :=
  if_pos taken

theorem decode_of_not_takes {takes : Nat → Nat → Bool} {text : Bytes} (strict : Bool)
    (refused : takes (wanted (digitsOf text).length) (paddingOf text).length = false) :
    decode takes strict text = none := by
  rw [decode, refused]
  rfl

/-- The sextets of a run of bytes. -/
def sextets : Bytes → List Nat
  | [] => []
  | [x] => [x.toNat / 4, x.toNat % 4 * 16]
  | [x, y] => [x.toNat / 4, x.toNat % 4 * 16 + y.toNat / 16, y.toNat % 16 * 4]
  | x :: y :: z :: rest =>
      x.toNat / 4 :: (x.toNat % 4 * 16 + y.toNat / 16) :: (y.toNat % 16 * 4 + z.toNat / 64) ::
        (z.toNat % 64) ::
        sextets rest

/-- `encode` with the last group filled up. -/
def encodePadded (bytes : Bytes) : Bytes := encode bytes ++ List.replicate (wanted (encode bytes).length) pad

theorem sextets_lt (bytes : Bytes) : ∀ n ∈ sextets bytes, n < 64 := by
  induction bytes using sextets.induct with
  | case1 => exact nofun
  | case2 x =>
      have small := x.toNat_lt
      simp only [sextets, List.forall_mem_cons]
      refine ⟨by omega, by omega, nofun⟩
  | case3 x y =>
      have small := x.toNat_lt
      have small' := y.toNat_lt
      simp only [sextets, List.forall_mem_cons]
      refine ⟨by omega, by omega, by omega, nofun⟩
  | case4 x y z rest ih =>
      have small := x.toNat_lt
      have small' := y.toNat_lt
      have small'' := z.toNat_lt
      simp only [sextets, List.forall_mem_cons]
      exact ⟨by omega, by omega, by omega, by omega, ih⟩

/-- A text of base64 is spelled digit by digit. -/
theorem encode_eq_map (bytes : Bytes) : encode bytes = (sextets bytes).map digit := by
  induction bytes using sextets.induct with
  | case1 | case2 x | case3 x y => rfl
  | case4 x y z rest ih => simp only [encode, sextets, List.map_cons, ih]

theorem unpack_sextets (bytes : Bytes) : unpack (sextets bytes) = some (bytes, 0) := by
  have back : ∀ {b : UInt8} {n : Nat}, n = b.toNat → UInt8.ofNat n = b := by
    rintro b n rfl
    exact UInt8.ofNat_toNat
  induction bytes using sextets.induct with
  | case1 => rfl
  | case2 x =>
      have small := x.toNat_lt
      have first : UInt8.ofNat (x.toNat / 4 * 4 + x.toNat % 4 * 16 / 16) = x := back (by omega)
      simp only [sextets, unpack, first]
      simp
  | case3 x y =>
      have small := x.toNat_lt
      have small' := y.toNat_lt
      have first : UInt8.ofNat (x.toNat / 4 * 4 + (x.toNat % 4 * 16 + y.toNat / 16) / 16) = x :=
        back (by omega)
      have second : UInt8.ofNat ((x.toNat % 4 * 16 + y.toNat / 16) % 16 * 16 + y.toNat % 16 * 4 / 4) = y :=
        back (by omega)
      simp only [sextets, unpack, first, second]
      simp
  | case4 x y z rest ih =>
      have small := x.toNat_lt
      have small' := y.toNat_lt
      have small'' := z.toNat_lt
      have first : UInt8.ofNat (x.toNat / 4 * 4 + (x.toNat % 4 * 16 + y.toNat / 16) / 16) = x :=
        back (by omega)
      have second :
        UInt8.ofNat ((x.toNat % 4 * 16 + y.toNat / 16) % 16 * 16 +
        (y.toNat % 16 * 4 + z.toNat / 64) / 4) = y :=
        back (by omega)
      have third : UInt8.ofNat ((y.toNat % 16 * 4 + z.toNat / 64) % 4 * 64 + z.toNat % 64) = z :=
        back (by omega)
      simp only [sextets, unpack, ih, Option.map_some, first, second, third]

/-- A digit stands for its sextet, and is no padding. -/
theorem sextet_digit {n : Nat} (small : n < 64) :
    sextet (digit n) = some n ∧ digit n ≠ pad ∧ 43 ≤ digit n ∧ digit n < 127 := by
  have each : ∀ n : Fin 64, sextet (digit n) = some n.val ∧ digit n ≠ pad ∧ 43 ≤ digit n ∧
    digit n < 127 := by decide
  exact each ⟨n, small⟩

theorem mapM_sextet_digits {digits : List Nat} (small : ∀ n ∈ digits, n < 64) :
    (digits.map digit).mapM sextet = some digits := by
  induction digits with
  | nil => rfl
  | cons n rest ih =>
      have first := (sextet_digit (small n List.mem_cons_self)).1
      have others := ih fun m inside => small m (List.mem_cons_of_mem _ inside)
      rw [List.map_cons, List.mapM_cons, first, others]
      rfl

theorem split_encode (bytes : Bytes) (k : Nat) :
    digitsOf (encode bytes ++ List.replicate k pad) = encode bytes ∧
      paddingOf (encode bytes ++ List.replicate k pad) = List.replicate k pad := by
  have plain : ∀ b ∈ encode bytes, decide (b ≠ pad) = true := by
    intro b inside
    rw [encode_eq_map] at inside
    obtain ⟨n, member, rfl⟩ := List.mem_map.mp inside
    exact decide_eq_true (sextet_digit (sextets_lt bytes n member)).2.1
  have filler : (List.replicate k pad).takeWhile (fun b => b ≠ pad) = [] ∧
      (List.replicate k pad).dropWhile (fun b => b ≠ pad) = List.replicate k pad := by
    cases k <;> simp [List.replicate_succ]
  refine ⟨?_, ?_⟩
  · rw [digitsOf, List.takeWhile_append_of_pos plain, filler.1, List.append_nil]
  · rw [paddingOf, List.dropWhile_append_of_pos plain, filler.2]

/-- What a decoder takes of the padding is all it can object to. -/
theorem decode_encode (takes : Nat → Nat → Bool) (strict : Bool) (bytes : Bytes) (k : Nat) :
    decode takes strict (encode bytes ++ List.replicate k pad) =
      if takes (wanted (encode bytes).length) k then some bytes else none := by
  obtain ⟨digits, padding⟩ := split_encode bytes k
  have read : spelled (encode bytes ++ List.replicate k pad) = some (bytes, 0) := by
    have filler : (List.replicate k pad).all (fun b => b = pad) = true := by simp
    rw [spelled, digits, padding, if_pos filler, encode_eq_map,
      mapM_sextet_digits (sextets_lt bytes), Option.bind_some,
      unpack_sextets]
  rw [decode, digits, padding, List.length_replicate, read]
  simp

end Base64
