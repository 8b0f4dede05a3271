import GrpcWebnext.Library.Scan
import GrpcWebnext.Library.Spelling
import GrpcWebnext.Library.Text

/-! UTF-8 as the standard libraries read it: the encoding of a string, and the
lossy decoding that puts U+FFFD for each maximal ill-formed prefix. -/
namespace Utf8
open Text (Str)

def encode (s : Str) : List UInt8 := s.flatMap String.utf8EncodeChar

/-- A continuation byte `10xxxxxx`; a slice may not end right before one. -/
def isContinuation (b : UInt8) : Bool := 0x80 ≤ b && b < 0xC0

def replacement : Char := Char.ofNat 0xFFFD

/-- Which second byte may follow a leading byte of a three byte sequence. -/
def second3 (a b : UInt8) : Bool :=
  (a == 0xE0 && 0xA0 ≤ b && b < 0xC0) || (0xE1 ≤ a && a ≤ 0xEC && isContinuation b) ||
    (a == 0xED && 0x80 ≤ b && b < 0xA0) || (0xEE ≤ a && a ≤ 0xEF && isContinuation b)

/-- Which second byte may follow a leading byte of a four byte sequence. -/
def second4 (a b : UInt8) : Bool :=
  (a == 0xF0 && 0x90 ≤ b && b < 0xC0) || (0xF1 ≤ a && a ≤ 0xF3 && isContinuation b) ||
    (a == 0xF4 && 0x80 ≤ b && b < 0x90)

def scalar (lead : Nat) (tail : List UInt8) : Char :=
  Char.ofNat (tail.foldl (fun acc b => acc * 64 + b.toNat % 64) lead)

/-- The next character, or one replacement for an ill-formed prefix. -/
def nextLossy : Scan.Next Char UInt8
  | [] => none
  | a :: rest =>
      if a < 0x80 then some (Char.ofNat a.toNat, rest)
      else if 0xC2 ≤ a && a ≤ 0xDF then match rest with
        | b :: rest => if isContinuation b then some (scalar (a.toNat % 32) [b], rest)
            else some (replacement, b :: rest)
        | [] => some (replacement, [])
      else if 0xE0 ≤ a && a ≤ 0xEF then match rest with
        | b :: rest =>
            if second3 a b then match rest with
              | c :: rest => if isContinuation c then some (scalar (a.toNat % 16) [b, c], rest)
                  else some (replacement, c :: rest)
              | [] => some (replacement, [])
            else some (replacement, b :: rest)
        | [] => some (replacement, [])
      else if 0xF0 ≤ a && a ≤ 0xF4 then match rest with
        | b :: rest =>
            if second4 a b then match rest with
              | c :: rest =>
                  if isContinuation c then match rest with
                    | d :: rest =>
                        if isContinuation d then some (scalar (a.toNat % 8) [b, c, d], rest)
                        else some (replacement, d :: rest)
                    | [] => some (replacement, [])
                  else some (replacement, c :: rest)
              | [] => some (replacement, [])
            else some (replacement, b :: rest)
        | [] => some (replacement, [])
      else some (replacement, rest)

/-- `String::from_utf8_lossy`. -/
def decodeLossy (bytes : List UInt8) : Str := (Scan.scan nextLossy bytes).1

/-- Well-formed text is what the lossy decoding gives back unchanged. -/
def valid (bytes : List UInt8) : Bool := encode (decodeLossy bytes) = bytes

theorem nextLossy_shrinks : Scan.Shrinks nextLossy := by
  intro bytes c left cut
  revert cut
  fun_cases nextLossy bytes
  · intro cut
    cases cut
  all_goals
    intro cut
    cases cut
    simp only [List.length_cons]
    omega

theorem isContinuation_ofNat (n : Nat) : isContinuation (UInt8.ofNat (n % 64 + 128)) = true := by
  simp only [isContinuation, Bool.and_eq_true, decide_eq_true_eq, UInt8.le_iff_toNat_le,
    UInt8.lt_iff_toNat_lt, UInt8.toNat_ofNat, UInt8.toNat_ofNat']
  omega

theorem nextLossy_one {v : Nat} (high : v ≤ 0x7f) (rest : List UInt8) :
    nextLossy (UInt8.ofNat v :: rest) = some (Char.ofNat v, rest) := by
  have lead : UInt8.ofNat v < 0x80 := by
    simp only [UInt8.lt_iff_toNat_lt, UInt8.toNat_ofNat, UInt8.toNat_ofNat']
    omega
  have whole : (UInt8.ofNat v).toNat = v := by
    simp only [UInt8.toNat_ofNat']
    omega
  simp only [nextLossy, lead, if_true, whole]

theorem nextLossy_two {v : Nat} (low : 0x7f < v) (high : v ≤ 0x7ff) (rest : List UInt8) :
    nextLossy (UInt8.ofNat (v / 64 % 0x20 + 0xc0) :: UInt8.ofNat (v % 0x40 + 0x80) :: rest) =
      some (Char.ofNat v, rest) := by
  generalize lead : UInt8.ofNat (v / 64 % 0x20 + 0xc0) = a
  have range : ¬ a < 0x80 ∧ (0xC2 ≤ a && a ≤ 0xDF) = true := by
    simp only [← lead, Bool.and_eq_true, decide_eq_true_eq, UInt8.le_iff_toNat_le,
      UInt8.lt_iff_toNat_lt, UInt8.toNat_ofNat, UInt8.toNat_ofNat']
    omega
  have whole : scalar (a.toNat % 32) [UInt8.ofNat (v % 0x40 + 0x80)] = Char.ofNat v := by
    simp only [← lead, scalar, List.foldl_cons, List.foldl_nil, UInt8.toNat_ofNat']
    congr 1
    omega
  simp only [nextLossy, range.1, range.2, if_true, if_false, isContinuation_ofNat, whole]

/-- Surrogates are not characters, so a lead byte `ED` has a second byte below `A0`. -/
theorem nextLossy_three {v : Nat} (low : 0x7ff < v) (high : v ≤ 0xffff)
    (scalar_ : v < 0xd800 ∨ 0xdfff < v) (rest : List UInt8) :
    nextLossy (UInt8.ofNat (v / 4096 % 0x10 + 0xe0) :: UInt8.ofNat (v / 64 % 0x40 + 0x80) ::
      UInt8.ofNat (v % 0x40 + 0x80) :: rest) = some (Char.ofNat v, rest) := by
  generalize lead : UInt8.ofNat (v / 4096 % 0x10 + 0xe0) = a
  have range : ¬ a < 0x80 ∧ ¬ (0xC2 ≤ a && a ≤ 0xDF) = true ∧ (0xE0 ≤ a && a ≤ 0xEF) = true := by
    simp only [← lead, Bool.and_eq_true, decide_eq_true_eq, UInt8.le_iff_toNat_le,
      UInt8.lt_iff_toNat_lt, UInt8.toNat_ofNat, UInt8.toNat_ofNat']
    omega
  have second : second3 a (UInt8.ofNat (v / 64 % 0x40 + 0x80)) = true := by
    simp only [← lead, second3, isContinuation, Bool.and_eq_true, Bool.or_eq_true,
      decide_eq_true_eq, beq_iff_eq, ← UInt8.toNat_inj, UInt8.le_iff_toNat_le,
      UInt8.lt_iff_toNat_lt, UInt8.toNat_ofNat, UInt8.toNat_ofNat']
    omega
  have whole : scalar (a.toNat % 16) [UInt8.ofNat (v / 64 % 0x40 + 0x80),
      UInt8.ofNat (v % 0x40 + 0x80)] = Char.ofNat v := by
    simp only [← lead, scalar, List.foldl_cons, List.foldl_nil, UInt8.toNat_ofNat']
    congr 1
    omega
  simp only [nextLossy, range.1, range.2.1, range.2.2, if_true, if_false, second,
    isContinuation_ofNat, whole, Bool.false_eq_true]

theorem nextLossy_four {v : Nat} (low : 0xffff < v) (high : v < 0x110000) (rest : List UInt8) :
    nextLossy (UInt8.ofNat (v / 262144 % 0x08 + 0xf0) :: UInt8.ofNat (v / 4096 % 0x40 + 0x80) ::
      UInt8.ofNat (v / 64 % 0x40 + 0x80) :: UInt8.ofNat (v % 0x40 + 0x80) :: rest) =
      some (Char.ofNat v, rest) := by
  generalize lead : UInt8.ofNat (v / 262144 % 0x08 + 0xf0) = a
  have range : ¬ a < 0x80 ∧ ¬ (0xC2 ≤ a && a ≤ 0xDF) = true ∧ ¬ (0xE0 ≤ a && a ≤ 0xEF) = true ∧
      (0xF0 ≤ a && a ≤ 0xF4) = true := by
    simp only [← lead, Bool.and_eq_true, decide_eq_true_eq, UInt8.le_iff_toNat_le,
      UInt8.lt_iff_toNat_lt, UInt8.toNat_ofNat, UInt8.toNat_ofNat']
    omega
  have second : second4 a (UInt8.ofNat (v / 4096 % 0x40 + 0x80)) = true := by
    simp only [← lead, second4, isContinuation, Bool.and_eq_true, Bool.or_eq_true,
      decide_eq_true_eq, beq_iff_eq, ← UInt8.toNat_inj, UInt8.le_iff_toNat_le,
      UInt8.lt_iff_toNat_lt, UInt8.toNat_ofNat, UInt8.toNat_ofNat']
    omega
  have whole : scalar (a.toNat % 8) [UInt8.ofNat (v / 4096 % 0x40 + 0x80),
      UInt8.ofNat (v / 64 % 0x40 + 0x80), UInt8.ofNat (v % 0x40 + 0x80)] = Char.ofNat v := by
    simp only [← lead, scalar, List.foldl_cons, List.foldl_nil, UInt8.toNat_ofNat']
    congr 1
    omega
  simp only [nextLossy, range.1, range.2.1, range.2.2.1, range.2.2.2, if_true, if_false, second,
    isContinuation_ofNat, whole, Bool.false_eq_true]

theorem nextLossy_encodeChar (c : Char) (rest : List UInt8) :
    nextLossy (String.utf8EncodeChar c ++ rest) = some (c, rest) := by
  have legal := c.valid
  simp only [UInt32.isValidChar, Nat.isValidChar] at legal
  have back : Char.ofNat c.val.toNat = c := Char.ofNat_toNat c
  unfold String.utf8EncodeChar
  generalize c.val.toNat = v at legal back
  rw [← back]
  simp only
  split_ifs with one two three
  · exact nextLossy_one one rest
  · exact nextLossy_two (by omega) two rest
  · exact nextLossy_three (by omega) three (by omega) rest
  · exact nextLossy_four (by omega) (by omega) rest

theorem decodeLossy_encode (s : Str) : decodeLossy (encode s) = s := by
  induction s with
  | nil => rfl
  | cons c s ih =>
      have first : encode (c :: s) = String.utf8EncodeChar c ++ encode s := rfl
      have cut := Scan.scan_some nextLossy_shrinks (nextLossy_encodeChar c (encode s))
      have rest : (Scan.scan nextLossy (encode s)).1 = s := ih
      rw [decodeLossy, first, cut, rest]

/-- Every byte is the code of a character. -/
theorem toNat_char (b : UInt8) : (Char.ofNat b.toNat).toNat = b.toNat := by
  have small : b.toNat < 256 := b.toNat_lt
  have legal : b.toNat.isValidChar := Or.inl (by omega)
  rw [Char.ofNat, dif_pos legal]
  rfl

theorem encode_ascii {bytes : List UInt8} (ascii : ∀ b ∈ bytes, b.toNat < 128) :
    encode (bytes.map fun b => Char.ofNat b.toNat) = bytes := by
  induction bytes with
  | nil => rfl
  | cons b bytes ih =>
      have small := ascii b List.mem_cons_self
      have code : (Char.ofNat b.toNat).val.toNat = b.toNat := toNat_char b
      have one : String.utf8EncodeChar (Char.ofNat b.toNat) = [b] := by
        simp only [String.utf8EncodeChar, code]
        rw [if_pos (by omega), UInt8.ofNat_toNat]
      have rest := ih fun c inside => ascii c (List.mem_cons_of_mem b inside)
      rw [List.map_cons, encode, List.flatMap_cons, one]
      rw [encode] at rest
      rw [rest]
      rfl

theorem encode_append (s t : Str) : encode (s ++ t) = encode s ++ encode t := List.flatMap_append

theorem encode_injective {s t : Str} (same : encode s = encode t) : s = t := by
  rw [← decodeLossy_encode s, same, decodeLossy_encode]

theorem encodeChar_solid : Spelling.Solid String.utf8EncodeChar := by
  intro c
  unfold String.utf8EncodeChar
  dsimp only
  split_ifs <;> exact List.cons_ne_nil _ _

/-- A byte below 128 spells its own character and is used for no other. -/
theorem byte_of_encodeChar {c : Char} {b : UInt8} (member : b ∈ String.utf8EncodeChar c)
    (small : b.toNat < 128) : c.val.toNat = b.toNat := by
  unfold String.utf8EncodeChar at member
  dsimp only at member
  split_ifs at member <;>
  · simp only [List.mem_cons, List.not_mem_nil, or_false, ← UInt8.toNat_inj, UInt8.toNat_ofNat'] at member
    omega

theorem marks_ascii (c : Char) (small : c.val.toNat < 128) :
    Spelling.Marks String.utf8EncodeChar c (UInt8.ofNat c.val.toNat) := by
  have code : (UInt8.ofNat c.val.toNat).toNat = c.val.toNat := by
    rw [UInt8.toNat_ofNat']
    omega
  constructor
  · unfold String.utf8EncodeChar
    dsimp only
    rw [if_pos (by omega)]
  · intro d differs member
    have same := byte_of_encodeChar member (by omega)
    rw [code] at same
    exact differs (Char.ext (UInt32.toNat_inj.mp same))

/-- The first byte of a character is no continuation byte. -/
theorem encodeChar_head (c : Char) :
    ∃ b rest, String.utf8EncodeChar c = b :: rest ∧ isContinuation b = false := by
  unfold String.utf8EncodeChar
  dsimp only
  split_ifs
  all_goals
    refine ⟨_, _, rfl, ?_⟩
    simp only [isContinuation, Bool.and_eq_false_iff, decide_eq_false_iff_not, UInt8.le_iff_toNat_le,
      UInt8.lt_iff_toNat_lt, UInt8.reduceToNat, UInt8.toNat_ofNat']
    omega

theorem encode_head (s : Str) : (encode s).head?.any isContinuation = false := by
  cases s with
  | nil => rfl
  | cons c s =>
      obtain ⟨b, rest, spelled, first⟩ := encodeChar_head c
      have whole : encode (c :: s) = b :: (rest ++ encode s) := by
        rw [← List.cons_append, ← spelled]
        rfl
      rw [whole]
      exact first

theorem ascii_head {bytes : List UInt8} (ascii : ∀ b ∈ bytes, b.toNat < 128) :
    bytes.head?.any isContinuation = false := by
  rw [← encode_ascii ascii]
  exact encode_head _

theorem ascii_no_tail {a : UInt8} (small : a < 0x80) :
    isContinuation a = false ∧ (∀ x, second3 x a = false) ∧ ∀ x, second4 x a = false := by
  have below : ¬ 0x80 ≤ a ∧ ¬ 0xA0 ≤ a ∧ ¬ 0x90 ≤ a := by
    simp only [UInt8.le_iff_toNat_le, UInt8.lt_iff_toNat_lt, UInt8.reduceToNat] at small ⊢
    omega
  refine ⟨by simp [isContinuation, below], fun x => ?_, fun x => ?_⟩
  · simp [second3, isContinuation, below]
  · simp [second4, isContinuation, below]

/-- An ASCII byte ends whatever stands in front of it, as the end of the input does. -/
theorem nextLossy_append_ascii {a : UInt8} (small : a < 0x80) {w left : List UInt8} {c : Char}
    (cut : nextLossy w = some (c, left)) (r : List UInt8) :
    nextLossy (w ++ a :: r) = some (c, left ++ a :: r) := by
  obtain ⟨cont, three, four⟩ := ascii_no_tail small
  revert cut
  fun_cases nextLossy w
  · intro cut
    cases cut
  all_goals
    intro cut
    cases cut
    simp only [nextLossy, List.cons_append, List.nil_append, if_true, if_false, Bool.false_eq_true, *]

theorem nextLossy_some (b : UInt8) (rest : List UInt8) : nextLossy (b :: rest) ≠ none := by
  intro none
  simp only [nextLossy] at none
  repeat' split at none
  all_goals cases none

theorem decodeLossy_append_ascii {a : UInt8} (small : a < 0x80) (w r : List UInt8) :
    decodeLossy (w ++ a :: r) = decodeLossy w ++ Char.ofNat a.toNat :: decodeLossy r := by
  unfold decodeLossy
  induction w using Scan.scan_induct nextLossy_shrinks with
  | stop w none =>
      cases w with
      | nil =>
          have first : nextLossy (a :: r) = some (Char.ofNat a.toNat, r) := by
            simp only [nextLossy, small, if_true]
          rw [List.nil_append, Scan.scan_some nextLossy_shrinks first]
          rfl
      | cons b rest => exact absurd none (nextLossy_some b rest)
  | cut w c left cut ih =>
      rw [Scan.scan_some nextLossy_shrinks (nextLossy_append_ascii small cut r),
        Scan.scan_some nextLossy_shrinks cut, ih]
      rfl

/-- What follows a text inside of a text is a text. -/
theorem encode_append_eq {a s : Str} {x : List UInt8} (same : encode a ++ x = encode s) :
    ∃ t, s = a ++ t ∧ x = encode t := by
  induction a generalizing s with
  | nil => exact ⟨s, rfl, same⟩
  | cons c a ih =>
      have first := nextLossy_encodeChar c (encode a ++ x)
      have spelled : encode (c :: a) ++ x = String.utf8EncodeChar c ++ (encode a ++ x) := by
        rw [encode, List.flatMap_cons, List.append_assoc]
        rfl
      rw [← spelled, same] at first
      cases s with
      | nil => cases first
      | cons c' s =>
          have here := nextLossy_encodeChar c' (encode s)
          rw [show encode (c' :: s) = String.utf8EncodeChar c' ++ encode s from List.flatMap_cons,
            here] at first
          obtain ⟨rfl, rest⟩ := Prod.mk.inj (Option.some.inj first)
          obtain ⟨t, rfl, ends⟩ := ih rest.symm
          exact ⟨t, rfl, ends⟩

/-- What precedes an ASCII character at the end of a text is a text. -/
theorem encode_concat_ascii {b : UInt8} (small : b < 0x80) {x : List UInt8} {s : Str}
    (same : x ++ [b] = encode s) : ∃ t, s = t ++ [Char.ofNat b.toNat] ∧ x = encode t := by
  have text : s = decodeLossy x ++ [Char.ofNat b.toNat] := by
    rw [← decodeLossy_encode s, ← same, decodeLossy_append_ascii small]
    rfl
  refine ⟨decodeLossy x, text, ?_⟩
  have single : ∀ a ∈ [b], a.toNat < 128 := by
    simpa [UInt8.lt_iff_toNat_lt] using small
  have ascii : encode [Char.ofNat b.toNat] = [b] := encode_ascii single
  rw [text, encode_append, ascii] at same
  exact (List.append_inj' same rfl).1

/-- The longest beginning of a text that is spelled in so many bytes. -/
def fitting : Nat → Str → Str
  | _, [] => []
  | max, c :: s =>
      if (String.utf8EncodeChar c).length ≤ max
        then c :: fitting (max - (String.utf8EncodeChar c).length) s else []

theorem encode_cons (c : Char) (s : Str) : encode (c :: s) = String.utf8EncodeChar c ++ encode s :=
  List.flatMap_cons

theorem fitting_of_length {s : Str} : ∀ {max : Nat}, (encode s).length ≤ max → fitting max s = s := by
  induction s with
  | nil => exact fun _ => rfl
  | cons c s ih =>
      intro max short
      rw [encode_cons, List.length_append] at short
      rw [fitting, if_pos (by omega), ih (by omega)]

theorem length_fitting (s : Str) : ∀ max, (encode (fitting max s)).length ≤ max := by
  induction s with
  | nil => exact fun max => Nat.zero_le max
  | cons c s ih =>
      intro max
      unfold fitting
      split
      · rename_i fits
        have rest := ih (max - (String.utf8EncodeChar c).length)
        rw [encode_cons, List.length_append]
        omega
      · exact Nat.zero_le max

/-- A text that does not fit goes on, behind what does, with a character that is too long. -/
theorem fitting_cut {s : Str} : ∀ {max : Nat}, max < (encode s).length →
    ∃ c t, s = fitting max s ++ c :: t ∧ max < (encode (fitting max s)).length +
      (String.utf8EncodeChar c).length := by
  induction s with
  | nil => exact fun long => absurd long (Nat.not_lt_zero _)
  | cons c s ih =>
      intro max long
      rw [encode_cons, List.length_append] at long
      unfold fitting
      split
      · rename_i fits
        obtain ⟨d, t, parts, wide⟩ := @ih (max - (String.utf8EncodeChar c).length) (by omega)
        refine ⟨d, t, congrArg (c :: ·) parts, ?_⟩
        rw [encode_cons, List.length_append]
        omega
      · rename_i wide
        refine ⟨c, s, rfl, ?_⟩
        rw [show encode [] = [] from rfl, List.length_nil, Nat.zero_add]
        exact Nat.lt_of_not_le wide

/-- The bytes of a character behind the first are continuation bytes. -/
theorem encodeChar_tail (c : Char) {b : UInt8} {rest : List UInt8}
    (spelled : String.utf8EncodeChar c = b :: rest) :
    ∀ x ∈ rest, isContinuation x = true := by
  unfold String.utf8EncodeChar at spelled
  dsimp only at spelled
  split_ifs at spelled
  all_goals
    obtain ⟨-, rfl⟩ := List.cons.inj spelled
    simp only [List.forall_mem_cons, isContinuation_ofNat, List.not_mem_nil, false_imp_iff,
      implies_true, and_self]

/-- What a text is cut down to at the last place where a character may start. -/
theorem take_boundary {s : Str} {max last : Nat} (long : max < (encode s).length) (low : last ≤ max)
    (starts : last = 0 ∨ (encode s)[last]?.any isContinuation = false)
    (inside : ∀ i, last < i → i ≤ max → (encode s)[i]?.any isContinuation = true) :
    (encode s).take last = encode (fitting max s) := by
  obtain ⟨c, t, parts, wide⟩ := fitting_cut long
  obtain ⟨b, rest, spelled, first⟩ := encodeChar_head c
  have fits := length_fitting s max
  have whole : encode s = encode (fitting max s) ++ b :: (rest ++ encode t) := by
    conv_lhs => rw [parts, encode_append, encode_cons, spelled]
    rfl
  generalize fitting max s = front at *
  rw [spelled, List.length_cons] at wide
  have here : (encode s)[(encode front).length]?.any isContinuation = false := by
    rw [whole, List.getElem?_append_right (Nat.le_refl _), Nat.sub_self, List.getElem?_cons_zero]
    exact first
  have same : last = (encode front).length := by
    rcases Nat.lt_trichotomy last (encode front).length with less | same | more
    · rw [inside _ less fits] at here
      cases here
    · exact same
    · exfalso
      rcases starts with zero | starts
      · omega
      · have tail : last - (encode front).length - 1 < rest.length := by omega
        rw [whole, List.getElem?_append_right (Nat.le_of_lt more),
          show last - (encode front).length = last - (encode front).length - 1 + 1
            by omega, List.getElem?_cons_succ,
          List.getElem?_append_left tail, List.getElem?_eq_getElem tail, Option.any_some,
          encodeChar_tail c spelled _ (List.getElem_mem tail)] at starts
        cases starts
  rw [whole, same, List.take_left]

end Utf8
