import Mathlib.Tactic.Ring
import Mathlib.Order.Basic

/-! Durations of unsigned 64-bit seconds and instants of signed 64-bit seconds, each with
nanoseconds beside them. A sum out of range is `none`. -/
namespace Time

def nanosPerSec : Nat := 10 ^ 9

structure Duration where
  secs : Nat
  nanos : Nat
  fits : secs < 2 ^ 64
  part : nanos < nanosPerSec
  deriving DecidableEq

structure Instant where
  secs : Int
  nanos : Nat
  low : -2 ^ 63 ≤ secs
  fits : secs < 2 ^ 63
  part : nanos < nanosPerSec
  deriving DecidableEq

namespace Duration

def ofSecs (n : UInt64) : Duration := ⟨n.toNat, 0, n.toNat_lt, by decide⟩

theorem quotient_fits (n : UInt64) (k : Nat) : n.toNat / k < 2 ^ 64 :=
  Nat.lt_of_le_of_lt (Nat.div_le_self _ _) n.toNat_lt

def ofMillis (n : UInt64) : Duration :=
  ⟨n.toNat / 1000, n.toNat % 1000 * 1000000, quotient_fits n 1000, by unfold nanosPerSec; omega⟩

def ofMicros (n : UInt64) : Duration :=
  ⟨n.toNat / 1000000, n.toNat % 1000000 * 1000, quotient_fits n 1000000, by unfold nanosPerSec; omega⟩

def ofNanos (n : UInt64) : Duration :=
  ⟨n.toNat / 1000000000, n.toNat % 1000000000, quotient_fits n 1000000000, by unfold nanosPerSec; omega⟩

def toNanos (d : Duration) : Nat := d.secs * nanosPerSec + d.nanos

def asMillis (d : Duration) : Nat := d.secs * 1000 + d.nanos / 1000000

/-- The seconds and nanoseconds of a sum, with the carry. -/
def carry (a b : Nat) : Nat × Nat :=
  if nanosPerSec ≤ a + b then (1, a + b - nanosPerSec) else (0, a + b)

def add (a b : Duration) : Option Duration :=
  let (carried, nanos) := carry a.nanos b.nanos
  if fits : a.secs + b.secs + carried < 2 ^ 64 ∧ nanos < nanosPerSec then
    some ⟨a.secs + b.secs + carried, nanos, fits.1, fits.2⟩
  else none

theorem carry_spec {a b : Nat} (left : a < nanosPerSec) (right : b < nanosPerSec) :
    (carry a b).1 * nanosPerSec + (carry a b).2 = a + b ∧ (carry a b).2 < nanosPerSec ∧
      (carry a b).1 = (a + b) / nanosPerSec := by
  unfold nanosPerSec at left right
  unfold carry nanosPerSec
  split <;> refine ⟨?_, ?_, ?_⟩ <;> omega

theorem toNanos_ofSecs (n : UInt64) : (ofSecs n).toNanos = n.toNat * 10 ^ 9 := by
  simp only [toNanos, ofSecs, nanosPerSec, Nat.add_zero]

theorem toNanos_ofMillis (n : UInt64) : (ofMillis n).toNanos = n.toNat * 10 ^ 6 := by
  simp only [toNanos, ofMillis, nanosPerSec]
  omega

theorem toNanos_ofMicros (n : UInt64) : (ofMicros n).toNanos = n.toNat * 10 ^ 3 := by
  simp only [toNanos, ofMicros, nanosPerSec]
  omega

theorem toNanos_ofNanos (n : UInt64) : (ofNanos n).toNanos = n.toNat := by
  simp only [toNanos, ofNanos, nanosPerSec]
  omega

theorem asMillis_eq (d : Duration) : d.asMillis = d.toNanos / 10 ^ 6 := by
  simp only [asMillis, toNanos, nanosPerSec]
  omega

/-- A sum that is in range is exact. -/
theorem toNanos_add {a b sum : Duration} (h : a.add b = some sum) : sum.toNanos = a.toNanos + b.toNanos := by
  obtain ⟨exact_, -, -⟩ := carry_spec a.part b.part
  obtain ⟨fits, same⟩ := Option.dite_none_right_eq_some.mp h
  cases same
  calc (a.secs + b.secs + (carry a.nanos b.nanos).1) * nanosPerSec + (carry a.nanos b.nanos).2
      = (a.secs + b.secs) * nanosPerSec +
        ((carry a.nanos b.nanos).1 * nanosPerSec + (carry a.nanos b.nanos).2) := by ring
    _ = (a.secs + b.secs) * nanosPerSec + (a.nanos + b.nanos) := by rw [exact_]
    _ = a.toNanos + b.toNanos := by
        simp only [toNanos]
        ring

theorem add_of_fits {a b : Duration} (fits : a.toNanos + b.toNanos < 2 ^ 64 * 10 ^ 9) :
    ∃ sum, a.add b = some sum := by
  obtain ⟨exact_, part, -⟩ := carry_spec a.part b.part
  have seconds : a.secs + b.secs + (carry a.nanos b.nanos).1 < 2 ^ 64 := by
    simp only [toNanos, nanosPerSec] at fits exact_
    omega
  exact ⟨_, dif_pos ⟨seconds, part⟩⟩

end Duration

namespace Instant

def add (t : Instant) (d : Duration) : Option Instant :=
  let (carried, nanos) := Duration.carry t.nanos d.nanos
  if fits : t.secs + d.secs + carried < 2 ^ 63 ∧ nanos < nanosPerSec then
    some ⟨t.secs + d.secs + carried, nanos, Int.le_trans t.low (by omega), fits.1, fits.2⟩
  else none

def toNanos (t : Instant) : Int := t.secs * nanosPerSec + t.nanos

/-- The clock ends with its last second. -/
theorem add_eq_none_iff (t : Instant) (d : Duration) :
    t.add d = none ↔ 2 ^ 63 * 10 ^ 9 ≤ t.toNanos + d.toNanos := by
  obtain ⟨exact_, part, -⟩ := Duration.carry_spec t.part d.part
  have beyond : 2 ^ 63 * 10 ^ 9 ≤ t.toNanos + d.toNanos ↔
    ¬ t.secs + d.secs + (Duration.carry t.nanos d.nanos).1 < 2 ^ 63 := by
    simp only [toNanos, Duration.toNanos, nanosPerSec] at exact_ part ⊢
    omega
  rw [beyond]
  constructor
  · intro refused fits
    have sum : t.add d = some _ := dif_pos ⟨fits, part⟩
    rw [refused] at sum
    cases sum
  · intro beyond
    exact dif_neg fun fits => beyond fits.1

end Instant
end Time
