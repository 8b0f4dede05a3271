import Mathlib.Algebra.Order.Ring.Cast
import Mathlib.Algebra.Order.Ring.Rat

/-! The numbers of ECMAScript before rounding: rationals, the two infinities and NaN.
The two zeros are not told apart. -/
namespace Js

inductive Number where
  | nan
  | negInfinity
  | infinity
  | finite (q : ℚ)
  deriving DecidableEq

namespace Number

def ofNat (n : Nat) : Number := .finite n

def ofInt (n : Int) : Number := .finite n

/-- `a < b`; with NaN on either side it is false. -/
def lt : Number → Number → Bool
  | .nan, _ => false
  | _, .nan => false
  | .finite p, .finite q => decide (p < q)
  | .negInfinity, b => b ≠ .negInfinity
  | _, .negInfinity => false
  | .infinity, _ => false
  | .finite _, .infinity => true

/-- `a >= b`, which is not the negation of `<` at NaN. -/
def ge (a b : Number) : Bool := a ≠ .nan && b ≠ .nan && !lt a b

def max (a b : Number) : Number :=
  if a = .nan ∨ b = .nan then .nan else if lt a b then b else a

def min (a b : Number) : Number :=
  if a = .nan ∨ b = .nan then .nan else if lt b a then b else a

def floor : Number → Number
  | .finite q => .finite q.floor
  | a => a

def ceil : Number → Number
  | .finite q => .finite q.ceil
  | a => a

/-- `ToUint32`: the whole part modulo 2^32, and 0 for what is not finite. -/
def toUint32 : Number → UInt32
  | .finite q => UInt32.ofInt (q.num.tdiv q.den)
  | _ => 0

/-- Neither 0 nor NaN. -/
def truthy (a : Number) : Bool := a ≠ .nan && a ≠ .finite 0

/-- From here on not every whole number is a number of its own. -/
def unsafeBound : ℚ := 2 ^ 53

/-- `String(a)`: a whole number below the bound is its digits; for the others `shortest` is
what the language prints. -/
def toText (shortest : ℚ → List Char) : Number → List Char
  | .nan => "NaN".toList
  | .negInfinity => "-Infinity".toList
  | .infinity => "Infinity".toList
  | .finite q => if q.den = 1 ∧ 0 ≤ q ∧ q < unsafeBound then Nat.toDigits 10 q.num.toNat else shortest q

def neg : Number → Number
  | .nan => .nan
  | .negInfinity => .infinity
  | .infinity => .negInfinity
  | .finite q => .finite (-q)

def add : Number → Number → Number
  | .nan, _ => .nan
  | _, .nan => .nan
  | .finite p, .finite q => .finite (p + q)
  | .finite _, b => b
  | a, .finite _ => a
  | a, b => if a = b then a else .nan

def sub (a b : Number) : Number := add a (neg b)

def half : Number → Number
  | .finite q => .finite (q / 2)
  | a => a

/-- An infinity times `q`. -/
def scale (q : ℚ) : Number :=
  if q = 0 then .nan else if 0 < q then .infinity else .negInfinity

def mul : Number → Number → Number
  | .nan, _ => .nan
  | _, .nan => .nan
  | .finite p, .finite q => .finite (p * q)
  | .finite p, .infinity => scale p
  | .infinity, .finite q => scale q
  | .finite p, .negInfinity => scale (-p)
  | .negInfinity, .finite q => scale (-q)
  | a, b => if a = b then .infinity else .negInfinity

/-- `a ** n` for a whole exponent; the exponent 0 gives 1 at NaN too. -/
def pow (a : Number) : Nat → Number
  | 0 => .finite 1
  | n + 1 => mul (pow a n) a

/-- A whole number or infinity: a bound that can be counted up to. -/
def Whole : Number → Prop
  | .infinity => True
  | .finite q => ∃ z : ℤ, q = z
  | _ => False

theorem Whole.ne_nan {a : Number} (whole : a.Whole) : a ≠ .nan := by
  rintro rfl
  exact whole

theorem Whole.ge_succ {a : Number} (whole : a.Whole) {n : Nat} (below : (ofNat n).lt a = true) :
    a.ge (ofNat (n + 1)) = true := by
  cases a with
  | nan => cases whole
  | negInfinity => cases whole
  | infinity => rfl
  | finite q =>
      obtain ⟨z, rfl⟩ := whole
      have less : (n : ℤ) < z := by exact_mod_cast of_decide_eq_true below
      have next : ¬ ((z : ℚ) < ((n + 1 : ℕ) : ℚ)) := by
        rw [not_lt]
        exact_mod_cast Int.add_one_le_of_lt less
      simp only [ge, ofNat, lt, ne_eq, reduceCtorEq, not_false_eq_true, decide_true, Bool.true_and, next,
        decide_false, Bool.not_false]

/-- A number below another or not: `>=` is the negation of `<`. -/
theorem ge_eq_not_lt {a b : Number} (left : a ≠ .nan) (right : b ≠ .nan) : a.ge b = !a.lt b := by
  simp [ge, left, right]

theorem ge_of_le {m n : Nat} {a : Number} (larger : m ≤ n) (reached : (ofNat m).ge a = true) :
    (ofNat n).ge a = true := by
  cases a with
  | nan => cases reached
  | negInfinity => rfl
  | infinity => cases reached
  | finite q =>
      rw [ge_eq_not_lt (by simp [ofNat]) (by simp)] at reached ⊢
      simp only [ofNat, lt, Bool.not_eq_true', decide_eq_false_iff_not, not_lt] at reached ⊢
      exact reached.trans (Nat.cast_le.mpr larger)

theorem ge_finite_iff (p q : ℚ) : (finite p).ge (.finite q) = true ↔ q ≤ p := by
  rw [ge_eq_not_lt (by simp) (by simp)]
  simp [lt]

theorem max_finite (p q : ℚ) : max (.finite p) (.finite q) = .finite (p ⊔ q) := by
  unfold max lt
  by_cases less : p < q
  · simp [less, le_of_lt less]
  · simp [less, not_lt.mp less]

theorem min_finite (p q : ℚ) : min (.finite p) (.finite q) = .finite (p ⊓ q) := by
  unfold min lt
  by_cases less : q < p
  · simp [less, le_of_lt less]
  · simp [less, not_lt.mp less]

theorem toUint32_ofNat {n : Nat} (small : n < 2 ^ 32) : (toUint32 (ofNat n)).toNat = n := by
  have remainder : ((n : Int) % 2 ^ 32).toNat = n := by omega
  have whole : toUint32 (ofNat n) = UInt32.ofNat n := by
    simp only [toUint32, ofNat, Rat.num_natCast, Rat.den_natCast, Nat.cast_one, Int.tdiv_one,
      UInt32.ofInt, remainder]
  rw [whole]
  exact UInt32.toNat_ofNat_of_lt' small

theorem toText_whole (shortest : ℚ → List Char) {q : ℚ} (whole : q.den = 1 ∧ 0 ≤ q ∧ q < unsafeBound) :
    toText shortest (.finite q) = Nat.toDigits 10 q.num.toNat := if_pos whole

theorem toText_ofNat (shortest : ℚ → List Char) {n : Nat} (small : n < 2 ^ 53) :
    toText shortest (ofNat n) = Nat.toDigits 10 n := by
  have below : (n : ℚ) < unsafeBound := by
    have cast := Nat.cast_lt (α := ℚ).mpr small
    simpa only [unsafeBound, Nat.cast_pow, Nat.cast_ofNat] using cast
  have digits := toText_whole shortest (q := n) ⟨Rat.den_natCast n, Nat.cast_nonneg n, below⟩
  rw [Rat.num_natCast, Int.toNat_natCast] at digits
  exact digits

/-- `Math.max(1, Math.floor(a))` counts from one up. -/
theorem whole_max_floor {a : Number} (number : a ≠ .nan) :
    (max (ofNat 1) (floor a)).Whole ∧ (max (ofNat 1) (floor a)).ge (ofNat 1) = true := by
  cases a with
  | nan => exact absurd rfl number
  | negInfinity => exact ⟨⟨1, by simp⟩, by decide⟩
  | infinity => exact ⟨trivial, by decide⟩
  | finite q =>
      rw [floor, ofNat, max_finite]
      refine ⟨⟨1 ⊔ q.floor, ?_⟩, ?_⟩
      · rw [Int.cast_max]
        simp
      · simp [ge, lt]

end Number
end Js
