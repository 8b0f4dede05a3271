import GrpcWebnext.HttpRule.Bind
import Mathlib.Tactic.Ring
import Mathlib.Tactic.Linarith

/-! Integers as the two standard libraries read them in base ten: `str::parse` with its checked
arithmetic, `strconv.ParseInt` and `strconv.ParseUint` with their cutoffs. Both come to the
digits of the text and the limits of the type. -/
namespace GrpcWebnext.HttpRule
open Framing (Bytes)
open Text (Str)

/-- A run of digits read behind `n`. -/
def digitsFrom (n : Nat) (s : Str) : Nat := s.foldl (fun n c => n * 10 + (c.toNat - 48)) n

namespace Rust

def checked (lo hi n : Int) : Option Int := if lo ≤ n ∧ n ≤ hi then some n else none

/-- The loop of `from_str_radix`: a negative number is counted down. -/
def accumulate (lo hi : Int) (negative : Bool) : Int → Str → Option Int
  | n, [] => some n
  | n, c :: rest =>
      if c.isDigit then
        (checked lo hi (n * 10)).bind fun tens =>
          (checked lo hi (if negative then tens - ↑(c.toNat - 48) else tens + ↑(c.toNat - 48))).bind fun n =>
            accumulate lo hi negative n rest
      else none

/-- `str::parse` of an integer type with the given limits. A sign alone is no number, and an
unsigned type knows no minus sign. -/
def parse (lo hi : Int) : Str → Option Int
  | [] => none
  | ['+'] => none
  | ['-'] => none
  | '+' :: digits => accumulate lo hi false 0 digits
  | '-' :: digits =>
      if lo < 0 then accumulate lo hi true 0 digits else accumulate lo hi false 0 ('-' :: digits)
  | digits => accumulate lo hi false 0 digits

def parseSigned (bits : Nat) : Str → Option Int := parse (-2 ^ (bits - 1)) (2 ^ (bits - 1) - 1)

def parseUnsigned (bits : Nat) : Str → Option Int := parse 0 (2 ^ bits - 1)

end Rust

namespace Go

inductive NumError where
  | errSyntax
  | errRange
  deriving DecidableEq

/-- The least number that overflows when it is multiplied by ten. -/
def cutoff : Nat := (2 ^ 64 - 1) / 10 + 1

/-- The loop of `ParseUint`, in the arithmetic of `uint64`. -/
def scanDigits (maxVal : Nat) : Nat → Bytes → Except NumError Nat
  | n, [] => .ok n
  | n, c :: rest =>
      if 48 ≤ c ∧ c ≤ 57 then
        if cutoff ≤ n then .error .errRange
        else
          let n := n * 10 % 2 ^ 64
          let n1 := (n + (c.toNat - 48)) % 2 ^ 64
          if n1 < n ∨ maxVal < n1 then .error .errRange else scanDigits maxVal n1 rest
      else .error .errSyntax

/-- `strconv.ParseUint(_, 10, bits)`. -/
def parseUint (bits : Nat) (s : Bytes) : Except NumError Nat :=
  if s = [] then .error .errSyntax else scanDigits (2 ^ bits - 1) 0 s

/-- What `ParseInt` makes of the magnitude: a value that is out of range is the greatest. -/
def signed (bits : Nat) (neg : Bool) (magnitude : Except NumError Nat) : Except NumError Int :=
  let ranged (un : Nat) : Except NumError Int :=
    let limit := 2 ^ (bits - 1)
    if neg = false ∧ limit ≤ un then .error .errRange
    else if neg = true ∧ limit < un then .error .errRange
    else .ok (if neg then -(un : Int) else un)
  match magnitude with
  | .error .errSyntax => .error .errSyntax
  | .error .errRange => ranged (2 ^ bits - 1)
  | .ok un => ranged un

/-- `strconv.ParseInt(_, 10, bits)`. -/
def parseInt (bits : Nat) : Bytes → Except NumError Int
  | [] => .error .errSyntax
  | c :: rest =>
      if c = 43 then signed bits false (parseUint bits rest)
      else if c = 45 then signed bits true (parseUint bits rest)
      else signed bits false (parseUint bits (c :: rest))

end Go

theorem digitsFrom_cons (n : Nat) (c : Char) (rest : Str) :
    digitsFrom n (c :: rest) = digitsFrom (n * 10 + (c.toNat - 48)) rest := by
  simp only [digitsFrom, List.foldl_cons]

/-- Digits only add to what stands in front of them. -/
theorem le_digitsFrom (n : Nat) (s : Str) : n ≤ digitsFrom n s := by
  induction s generalizing n with
  | nil => exact Nat.le_refl n
  | cons c rest ih =>
      have first := ih (n * 10 + (c.toNat - 48))
      rw [digitsFrom_cons]
      omega

theorem decimal_eq_some_iff {s : Str} {n : Nat} :
    decimal s = some n ↔ s ≠ [] ∧ s.all Char.isDigit = true ∧ digitsFrom 0 s = n := by
  rw [decimal, Option.ite_none_right_eq_some, Option.some.injEq, and_assoc]
  rfl

namespace Rust

theorem accumulate_up {lo hi : Int} (below : lo ≤ 0) (n : Nat) (inside : (n : Int) ≤ hi) (s : Str) :
    accumulate lo hi false n s =
      if s.all Char.isDigit = true ∧ (digitsFrom n s : Int) ≤ hi then some (digitsFrom n s : Int)
        else none := by
  induction s generalizing n with
  | nil => simp [accumulate, digitsFrom, inside]
  | cons c rest ih =>
      rw [accumulate, digitsFrom_cons, List.all_cons]
      by_cases digit : c.isDigit = true
      · rw [if_pos digit, digit, Bool.true_and]
        by_cases fits : ((n * 10 + (c.toNat - 48) : Nat) : Int) ≤ hi
        · have tens : checked lo hi (n * 10) = some ((n * 10 : Nat) : Int) := by
            rw [checked, if_pos (by push_cast at fits ⊢; omega)]
            push_cast
            rfl
          have more : checked lo hi (((n * 10 : Nat) : Int) + ↑(c.toNat - 48)) =
              some ((n * 10 + (c.toNat - 48) : Nat) : Int) := by
            rw [checked, if_pos (by push_cast at fits ⊢; omega)]
            push_cast
            rfl
          rw [tens, Option.bind_some, if_neg Bool.false_ne_true, more, Option.bind_some, ih _ fits]
        · have beyond : ¬ (digitsFrom (n * 10 + (c.toNat - 48)) rest : Int) ≤ hi := by
            have grows := le_digitsFrom (n * 10 + (c.toNat - 48)) rest
            omega
          rw [if_neg fun both => beyond both.2]
          unfold checked
          split
          · rw [Option.bind_some, if_neg Bool.false_ne_true, if_neg (by push_cast at fits; omega),
              Option.bind_none]
          · rfl
      · rw [if_neg digit, if_neg fun both => digit (Bool.and_eq_true_iff.mp both.1).1]

theorem checked_neg (lo hi n : Int) : checked lo hi n = (checked (-hi) (-lo) (-n)).map (- ·) := by
  unfold checked
  by_cases inside : lo ≤ n ∧ n ≤ hi
  · rw [if_pos inside, if_pos (by omega), Option.map_some, neg_neg]
  · rw [if_neg inside, if_neg (by omega), Option.map_none]

/-- Counting down is counting up on the other side of zero. -/
theorem accumulate_neg (lo hi n : Int) (s : Str) :
    accumulate lo hi true n s = (accumulate (-hi) (-lo) false (-n) s).map (- ·) := by
  induction s generalizing n with
  | nil => simp [accumulate]
  | cons c rest ih =>
      rw [accumulate, accumulate]
      split
      · rw [checked_neg lo hi (n * 10), Option.bind_map, Option.map_bind, neg_mul]
        congr 1
        funext tens
        have next : -(-tens - ((c.toNat - 48 : Nat) : Int)) = tens + ↑(c.toNat - 48) := by ring
        simp only [Function.comp_apply, if_true, Bool.false_eq_true, if_false]
        rw [checked_neg lo hi, next, Option.bind_map, Option.map_bind]
        congr 1
        funext m
        rw [Function.comp_apply, ih, neg_neg]
        rfl
      · rfl

theorem accumulate_decimal {lo hi : Int} (below : lo ≤ 0) (above : 0 ≤ hi) {s : Str} (some_ : s ≠ []) :
    accumulate lo hi false 0 s = (decimal s).bind fun n => if (n : Int) ≤ hi then some (n : Int)
      else none := by
  have read := accumulate_up below 0 above s
  rw [Nat.cast_zero] at read
  rw [read]
  cases number : decimal s with
  | none =>
      refine if_neg fun both => ?_
      exact absurd (decimal_eq_some_iff.mpr ⟨some_, both.1, rfl⟩) (by simp [number])
  | some n =>
      obtain ⟨_, digits, rfl⟩ := decimal_eq_some_iff.mp number
      simp only [digits, true_and, Option.bind_some]

theorem accumulate_decimal_neg {lo hi : Int} (below : lo ≤ 0) (above : 0 ≤ hi) {s : Str} (some_ : s ≠ []) :
    accumulate lo hi true 0 s = (decimal s).bind fun n => if lo ≤ -(n : Int) then some (-(n : Int))
      else none := by
  rw [accumulate_neg, neg_zero, accumulate_decimal (by omega) (by omega) some_, Option.map_bind]
  congr 1
  funext n
  by_cases inside : (n : Int) ≤ -lo
  · rw [Function.comp_apply, if_pos inside, if_pos (by omega), Option.map_some]
  · rw [Function.comp_apply, if_neg inside, if_neg (by omega), Option.map_none]

/-- `from_str_radix` of a signed type reads a sign, digits and a value in range. -/
theorem parseSigned_eq (bits : Nat) (s : Str) : parseSigned bits s = HttpRule.parseSigned bits s := by
  have power : (0 : Int) < 2 ^ (bits - 1) := by positivity
  have below : -2 ^ (bits - 1) ≤ (0 : Int) := by omega
  have above : (0 : Int) ≤ 2 ^ (bits - 1) - 1 := by omega
  have up : ∀ n : Nat, (if (n : Int) ≤ 2 ^ (bits - 1) - 1 then some (n : Int) else none) =
      if -2 ^ (bits - 1) ≤ (n : Int) ∧ (n : Int) < 2 ^ (bits - 1) then some (n : Int) else none := by
    intro n
    split_ifs <;> first | rfl | omega
  have down : ∀ n : Nat, (if -2 ^ (bits - 1) ≤ -(n : Int) then some (-(n : Int)) else none) =
      if -2 ^ (bits - 1) ≤ -(n : Int) ∧ -(n : Int) < 2 ^ (bits - 1) then some (-(n : Int)) else none := by
    intro n
    split_ifs <;> first | rfl | omega
  unfold parseSigned parse HttpRule.parseSigned
  dsimp only
  split
  · rfl
  · rfl
  · rfl
  · rename_i digits some_
    rw [accumulate_decimal below above some_]
    simp only [up]
  · rename_i digits some_
    rw [if_pos (by omega), accumulate_decimal_neg below above some_]
    simp only [down]
  · rename_i some_ _ _ _ _
    rw [accumulate_decimal below above some_]
    simp only [up]

/-- An unsigned type reads a plus sign as well. -/
theorem parseUnsigned_eq (bits : Nat) (s : Str) :
    parseUnsigned bits s = ((unsigned s).filter fun n => decide (n < 2 ^ bits)).map Int.ofNat := by
  have power : 0 < 2 ^ bits := Nat.two_pow_pos bits
  have above : (0 : Int) ≤ 2 ^ bits - 1 := by
    have cast : (0 : Int) < 2 ^ bits := by positivity
    omega
  have up : ∀ digits : Str, digits ≠ [] → accumulate 0 (2 ^ bits - 1) false 0 digits =
      ((decimal digits).filter fun n => decide (n < 2 ^ bits)).map Int.ofNat := by
    intro digits some_
    rw [accumulate_decimal (Int.le_refl 0) above some_]
    cases decimal digits with
    | none => rfl
    | some n =>
        rw [Option.bind_some, Option.filter_some]
        by_cases fits : n < 2 ^ bits
        · have small : (n : Int) ≤ 2 ^ bits - 1 := by
            have cast : (n : Int) < 2 ^ bits := by exact_mod_cast fits
            omega
          rw [if_pos small, if_pos (decide_eq_true fits)]
          rfl
        · have large : ¬ (n : Int) ≤ 2 ^ bits - 1 := by
            have cast : ¬ (n : Int) < 2 ^ bits := by exact_mod_cast fits
            omega
          rw [if_neg large, if_neg (by simpa using fits)]
          rfl
  unfold parseUnsigned parse unsigned
  split
  · rfl
  · rfl
  · rfl
  · rename_i digits some_
    exact up digits some_
  · rename_i digits some_
    rw [if_neg (by omega), up _ (List.cons_ne_nil _ _)]
    rfl
  · rename_i some_ _ _ unsigned _
    rw [up s some_]
    split
    · exact absurd rfl (unsigned _)
    · rfl

end Rust

namespace Go

/-- A text byte by byte. -/
def letters (text : Bytes) : Str := text.map fun b => Char.ofNat b.toNat

theorem letter_digit (b : UInt8) : (Char.ofNat b.toNat).isDigit = true ↔ 48 ≤ b ∧ b ≤ 57 := by
  have code := Utf8.toNat_char b
  simp only [Char.isDigit, UInt32.le_iff_toNat_le, UInt8.le_iff_toNat_le, UInt8.reduceToNat, Bool.and_eq_true,
    decide_eq_true_eq]
  change 48 ≤ (Char.ofNat b.toNat).toNat ∧ (Char.ofNat b.toNat).toNat ≤ 57 ↔ _
  rw [code]

/-- Digits come through the loop if their value stays below the limit. -/
theorem scanDigits_eq {maxVal : Nat} (wide : maxVal < 2 ^ 64) (n : Nat) (inside : n ≤ maxVal) (text : Bytes) :
    (scanDigits maxVal n text).toOption =
      if (letters text).all Char.isDigit = true ∧ digitsFrom n (letters text) ≤ maxVal then
        some (digitsFrom n (letters text))
      else none := by
  induction text generalizing n with
  | nil => simp [letters, scanDigits, digitsFrom, inside, Except.toOption]
  | cons c rest ih =>
      rw [letters, List.map_cons, ← letters, digitsFrom_cons, List.all_cons, Utf8.toNat_char, scanDigits]
      by_cases digit : 48 ≤ c ∧ c ≤ 57
      · have grows := le_digitsFrom (n * 10 + (c.toNat - 48)) (letters rest)
        rw [if_pos digit, (letter_digit c).mpr digit, Bool.true_and]
        by_cases beyond : cutoff ≤ n
        · have large : 2 ^ 64 - 1 < n * 10 := by
            unfold cutoff at beyond
            omega
          rw [if_pos beyond, if_neg fun both => by omega]
          rfl
        · have small : n * 10 < 2 ^ 64 := by
            unfold cutoff at beyond
            omega
          have top : c.toNat ≤ 57 := UInt8.le_iff_toNat_le.mp digit.2
          rw [if_neg beyond]
          dsimp only
          rw [Nat.mod_eq_of_lt small]
          by_cases fits : n * 10 + (c.toNat - 48) ≤ maxVal
          · rw [Nat.mod_eq_of_lt (by omega), if_neg (by omega), ih _ fits]
          · rw [if_pos ?_, if_neg fun both => by omega]
            · rfl
            · -- the sum has passed the limit, or wrapped around
              rcases Nat.lt_or_ge (n * 10 + (c.toNat - 48)) (2 ^ 64) with whole | wrapped
              · rw [Nat.mod_eq_of_lt whole]
                omega
              · rw [Nat.mod_eq_sub_mod wrapped, Nat.mod_eq_of_lt (by omega)]
                omega
      · rw [if_neg digit, Bool.eq_false_iff.mpr (mt (letter_digit c).mp digit), Bool.false_and,
          if_neg fun both => Bool.false_ne_true both.1]
        rfl

/-- `ParseUint` reads digits and a value in range. -/
theorem parseUint_eq {bits : Nat} (width : bits ≤ 64) (text : Bytes) :
    (parseUint bits text).toOption = (decimal (letters text)).filter fun n => decide (n < 2 ^ bits) := by
  have power : 0 < 2 ^ bits := Nat.two_pow_pos bits
  have wide : 2 ^ bits ≤ 2 ^ 64 := Nat.pow_le_pow_right (by omega) width
  unfold parseUint
  by_cases empty : text = []
  · subst empty
    rfl
  · have some_ : letters text ≠ [] := List.map_eq_nil_iff.not.mpr empty
    rw [if_neg empty, scanDigits_eq (by omega) 0 (Nat.zero_le _)]
    cases number : decimal (letters text) with
    | none =>
        refine if_neg fun both => ?_
        exact absurd (decimal_eq_some_iff.mpr ⟨some_, both.1, rfl⟩) (by simp [number])
    | some n =>
        obtain ⟨_, digits, rfl⟩ := decimal_eq_some_iff.mp number
        rw [Option.filter_some]
        by_cases fits : digitsFrom 0 (letters text) < 2 ^ bits
        · rw [if_pos ⟨digits, by omega⟩, if_pos (decide_eq_true fits)]
        · rw [if_neg fun both => by omega, if_neg (by simpa using fits)]

theorem bind_filter {α : Type} (read : Option Nat) (p : Nat → Bool) (f : Nat → Option α) :
    (read.filter p).bind f = read.bind fun n => if p n then f n else none := by
  cases read with
  | none => rfl
  | some n =>
      rw [Option.filter_some, Option.bind_some]
      split <;> rfl

theorem half_power {bits : Nat} (two : 2 ≤ bits) : 2 ^ bits = 2 * 2 ^ (bits - 1) ∧ 2 ≤ 2 ^ (bits - 1) := by
  constructor
  · rw [← pow_succ', Nat.sub_add_cancel (by omega)]
  · calc 2 = 2 ^ 1 := rfl
      _ ≤ 2 ^ (bits - 1) := Nat.pow_le_pow_right (by omega) (by omega)

/-- A magnitude that `ParseUint` refused is out of range for either sign. -/
theorem signed_refused {bits : Nat} (two : 2 ≤ bits) (neg : Bool) (e : NumError) :
    (signed bits neg (.error e)).toOption = none := by
  obtain ⟨double, power⟩ := half_power two
  cases e with
  | errSyntax => rfl
  | errRange =>
      unfold signed
      dsimp only
      cases neg with
      | false =>
          rw [if_pos ⟨rfl, by omega⟩]
          rfl
      | true =>
          rw [if_neg (by simp), if_pos ⟨rfl, by omega⟩]
          rfl

theorem signed_up {bits : Nat} (two : 2 ≤ bits) (magnitude : Except NumError Nat) :
    (signed bits false magnitude).toOption =
      magnitude.toOption.bind fun un => if un < 2 ^ (bits - 1) then some (un : Int) else none := by
  cases magnitude with
  | error e => exact signed_refused two false e
  | ok un =>
      by_cases small : un < 2 ^ (bits - 1)
      · simp [signed, small, Nat.not_le.mpr small, Except.toOption]
      · simp [signed, small, Nat.not_lt.mp small, Except.toOption]

theorem signed_down {bits : Nat} (two : 2 ≤ bits) (magnitude : Except NumError Nat) :
    (signed bits true magnitude).toOption =
      magnitude.toOption.bind fun un => if un ≤ 2 ^ (bits - 1) then some (-(un : Int)) else none := by
  cases magnitude with
  | error e => exact signed_refused two true e
  | ok un =>
      by_cases small : un ≤ 2 ^ (bits - 1)
      · simp [signed, small, Nat.not_lt.mpr small, Except.toOption]
      · simp [signed, small, Nat.not_le.mp small, Except.toOption]

/-- `ParseInt` reads a sign, digits and a value in range. -/
theorem parseInt_eq {bits : Nat} (two : 2 ≤ bits) (width : bits ≤ 64) (text : Bytes) :
    (parseInt bits text).toOption = HttpRule.parseSigned bits (letters text) := by
  obtain ⟨double, power⟩ := half_power two
  have cast : ((2 ^ (bits - 1) : Nat) : Int) = 2 ^ (bits - 1) := by
    push_cast
    rfl
  have up : ∀ digits : Bytes, (signed bits false (parseUint bits digits)).toOption =
      (decimal (letters digits)).bind fun n =>
        if -2 ^ (bits - 1) ≤ (n : Int) ∧ (n : Int) < 2 ^ (bits - 1) then some (n : Int) else none := by
    intro digits
    rw [signed_up two, parseUint_eq width, bind_filter]
    refine Option.bind_congr fun n _ => ?_
    by_cases small : n < 2 ^ (bits - 1)
    · rw [if_pos (decide_eq_true (by omega)), if_pos small, if_pos (by omega)]
    · rw [if_neg small, ite_self, if_neg (by omega)]
  have down : ∀ digits : Bytes, (signed bits true (parseUint bits digits)).toOption =
      (decimal (letters digits)).bind fun n =>
        if -2 ^ (bits - 1) ≤ -(n : Int) ∧ -(n : Int) < 2 ^ (bits - 1) then some (-(n : Int)) else none := by
    intro digits
    rw [signed_down two, parseUint_eq width, bind_filter]
    refine Option.bind_congr fun n _ => ?_
    by_cases small : n ≤ 2 ^ (bits - 1)
    · rw [if_pos (decide_eq_true (by omega)), if_pos small, if_pos (by omega)]
    · rw [if_neg small, ite_self, if_neg (by omega)]
  cases text with
  | nil => rfl
  | cons c digits =>
      rw [parseInt]
      by_cases plus : c = 43
      · subst plus
        exact up digits
      · by_cases minus : c = 45
        · subst minus
          exact down digits
        · have letter : ∀ d : Char, d.toNat ≠ c.toNat → Char.ofNat c.toNat ≠ d :=
            fun d other same => other (same ▸ Utf8.toNat_char c)
          rw [if_neg plus, if_neg minus, up, HttpRule.parseSigned]
          · rintro rest same
            refine letter '-' (fun code => minus ?_) (List.cons.inj same).1
            exact UInt8.toNat_inj.mp code.symm
          · rintro rest same
            refine letter '+' (fun code => plus ?_) (List.cons.inj same).1
            exact UInt8.toNat_inj.mp code.symm

theorem letters_cons (c : Char) (rest : Str) :
    letters (Utf8.encode (c :: rest)) = letters (String.utf8EncodeChar c) ++ letters (Utf8.encode rest) := by
  rw [Utf8.encode, List.flatMap_cons, letters, List.map_append]
  rfl

/-- A character of ASCII is the letter of its byte, and no other character begins with it. -/
theorem letters_mark {d : Char} (small : d.toNat < 128) (c : Char) :
    (c = d ∧ letters (String.utf8EncodeChar c) = [d]) ∨
      c ≠ d ∧ ∃ a more, letters (String.utf8EncodeChar c) = a :: more ∧ a ≠ d := by
  have marks := Utf8.marks_ascii d small
  have code : (UInt8.ofNat d.toNat).toNat = d.toNat := by
    rw [UInt8.toNat_ofNat']
    omega
  by_cases same : c = d
  · subst same
    have one : String.utf8EncodeChar c = [UInt8.ofNat c.toNat] := marks.1
    refine .inl ⟨rfl, ?_⟩
    rw [one, letters, List.map_singleton, code, Char.ofNat_toNat]
  · obtain ⟨b, more, head, _⟩ := Utf8.encodeChar_head c
    refine .inr ⟨same, Char.ofNat b.toNat, letters more, ?_, ?_⟩
    · rw [head]
      rfl
    · rintro rfl
      refine marks.2 c same ?_
      change UInt8.ofNat (Char.ofNat b.toNat).toNat ∈ String.utf8EncodeChar c
      rw [Utf8.toNat_char, UInt8.ofNat_toNat, head]
      exact List.mem_cons_self

theorem letters_digit (c : Char) :
    (letters (String.utf8EncodeChar c)).all Char.isDigit = c.isDigit ∧
      (c.isDigit = true → letters (String.utf8EncodeChar c) = [c]) := by
  cases digit : c.isDigit with
  | true =>
      have range : 48 ≤ c.toNat ∧ c.toNat ≤ 57 := by
        simpa [Char.isDigit, UInt32.le_iff_toNat_le] using digit
      rcases letters_mark (d := c) (by omega) c with ⟨_, one⟩ | ⟨other, _⟩
      · refine ⟨?_, fun _ => one⟩
        rw [one, List.all_cons, digit]
        rfl
      · exact absurd rfl other
  | false =>
      refine ⟨?_, fun impossible => absurd impossible Bool.false_ne_true⟩
      obtain ⟨b, more, head, _⟩ := Utf8.encodeChar_head c
      have first : (Char.ofNat b.toNat).isDigit = false := by
        rw [← Bool.not_eq_true, letter_digit]
        intro range
        simp only [UInt8.le_iff_toNat_le, UInt8.reduceToNat] at range
        have same : c.toNat = b.toNat :=
          Utf8.byte_of_encodeChar (head ▸ List.mem_cons_self) (by omega)
        have inside : c.isDigit = true := by
          simp only [Char.isDigit, UInt32.le_iff_toNat_le, Bool.and_eq_true, decide_eq_true_eq]
          change 48 ≤ c.toNat ∧ c.toNat ≤ 57
          omega
        exact absurd (digit.symm.trans inside) Bool.false_ne_true
      rw [head, letters, List.map_cons, List.all_cons, first, Bool.false_and]

/-- The bytes of a text that are digits are its digits. -/
theorem letters_encode (s : Str) :
    (letters (Utf8.encode s)).all Char.isDigit = s.all Char.isDigit ∧
      (s.all Char.isDigit = true → letters (Utf8.encode s) = s) := by
  induction s with
  | nil => exact ⟨rfl, fun _ => rfl⟩
  | cons c rest ih =>
      obtain ⟨same, one⟩ := letters_digit c
      rw [letters_cons, List.all_append, same, ih.1, List.all_cons]
      refine ⟨rfl, fun digits => ?_⟩
      obtain ⟨first, others⟩ := Bool.and_eq_true_iff.mp digits
      rw [one first, ih.2 others, List.singleton_append]

theorem decimal_letters (s : Str) : decimal (letters (Utf8.encode s)) = decimal s := by
  obtain ⟨same, whole⟩ := letters_encode s
  by_cases digits : s.all Char.isDigit = true
  · rw [whole digits]
  · rw [decimal, decimal, same, if_neg fun both => digits both.2, if_neg fun both => digits both.2]

theorem parseSigned_plain {bits : Nat} {s : Str} (plus : s.head? ≠ some '+') (minus : s.head? ≠ some '-') :
    HttpRule.parseSigned bits s = (decimal s).bind fun n =>
      if -2 ^ (bits - 1) ≤ (n : Int) ∧ (n : Int) < 2 ^ (bits - 1) then some (n : Int) else none := by
  rw [HttpRule.parseSigned]
  · rintro rest rfl
    exact minus rfl
  · rintro rest rfl
    exact plus rfl

theorem parseSigned_letters (bits : Nat) (s : Str) :
    HttpRule.parseSigned bits (letters (Utf8.encode s)) = HttpRule.parseSigned bits s := by
  cases s with
  | nil => rfl
  | cons c rest =>
      rcases letters_mark (d := '+') (by decide) c with ⟨rfl, one⟩ | ⟨plus, a, more, first, notPlus⟩
      · rw [letters_cons, one, List.singleton_append, HttpRule.parseSigned, HttpRule.parseSigned,
          decimal_letters]
      · rcases letters_mark (d := '-') (by decide) c with ⟨rfl, one⟩ | ⟨minus, a', more', first', notMinus⟩
        · rw [letters_cons, one, List.singleton_append, HttpRule.parseSigned, HttpRule.parseSigned,
            decimal_letters]
        · obtain ⟨rfl, rfl⟩ := List.cons.inj (first.symm.trans first')
          rw [parseSigned_plain (s := c :: rest) (by simpa using plus) (by simpa using minus),
            ← decimal_letters]
          apply parseSigned_plain
          · rw [letters_cons, first]
            simpa using notPlus
          · rw [letters_cons, first]
            simpa using notMinus

end Go
end GrpcWebnext.HttpRule
