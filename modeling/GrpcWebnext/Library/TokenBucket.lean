import GrpcWebnext.Library.Machine
import Mathlib.Algebra.Order.Field.Basic
import Mathlib.Tactic.Linarith
import Mathlib.Tactic.Ring

/-! A token bucket with a gate at half full. What a failure costs and what a success brings
back is cut off at the two ends; how often the gate lets pass is bounded all the same. -/
namespace TokenBucket

inductive Op where
  /-- A failure that passes the gate. -/
  | grant
  | failure
  | success
  deriving DecidableEq

variable {α : Type*} [Field α] [LinearOrder α]

/-- The balance behind an operation; a grant needs more than half of the tokens. -/
def step (max ratio balance : α) : Op → Option α
  | .grant => if max / 2 < balance then some (0 ⊔ (balance - 1)) else none
  | .failure => some (0 ⊔ (balance - 1))
  | .success => some (max ⊓ (balance + ratio))

def grants (ops : List Op) : Nat := ops.count .grant

def successes (ops : List Op) : Nat := ops.count .success

@[simp] theorem grants_append (ops more : List Op) : grants (ops ++ more) = grants ops + grants more :=
  List.count_append

@[simp] theorem successes_append (ops more : List Op) :
    successes (ops ++ more) = successes ops + successes more :=
  List.count_append

/-- The least that a grant takes away. -/
def cost (max : α) : α := 1 ⊓ max / 2

variable [IsStrictOrderedRing α] {max ratio : α}

theorem failure_le {balance : α} (inside : 0 ≤ balance) : 0 ⊔ (balance - 1) ≤ balance :=
  sup_le inside (by linarith)

/-- More than half of the tokens pay the cost in full. -/
theorem grant_le {balance : α} (passes : max / 2 < balance) : 0 ⊔ (balance - 1) ≤ balance - cost max := by
  have half : cost max ≤ max / 2 := inf_le_right
  have one : cost max ≤ 1 := inf_le_left
  exact sup_le (by linarith) (by linarith)

theorem cost_nonneg (full : 0 ≤ max) : 0 ≤ cost max :=
  le_inf zero_le_one (div_nonneg full zero_le_two)

/-- The balance stays inside the bucket. Grants are paid for by the tokens that are gone and by
successes; before the last of them the bucket was more than half full. -/
structure Paid (max ratio : α) (ops : List Op) (balance : α) : Prop where
  low : 0 ≤ balance
  high : balance ≤ max
  paid : grants ops * cost max + balance ≤ max + ratio * successes ops
  bounded : grants ops * cost max ≤ max / 2 + ratio * successes ops + cost max

theorem Paid.start (full : 0 ≤ max) : Paid max ratio [] max where
  low := full
  high := le_rfl
  paid := by simp [grants, successes]
  bounded := by
    have half : 0 ≤ max / 2 := div_nonneg full zero_le_two
    simpa [grants, successes] using add_nonneg half (cost_nonneg full)

theorem Paid.step {ops : List Op} {balance after : α} {op : Op} (earns : 0 ≤ ratio)
    (inv : Paid max ratio ops balance)
    (h : step max ratio balance op = some after) : Paid max ratio (ops ++ [op]) after := by
  have low := inv.low
  have high := inv.high
  have paid := inv.paid
  have bounded := inv.bounded
  cases op with
  | grant =>
      obtain ⟨passes, same⟩ := Option.ite_none_right_eq_some.mp h
      cases same
      have lower := grant_le passes
      have counted : ((grants (ops ++ [Op.grant]) : ℕ) : α) = grants ops + 1 := by simp [grants]
      have others : successes (ops ++ [Op.grant]) = successes ops := by simp [successes]
      refine ⟨le_sup_left, (failure_le low).trans high, ?_, ?_⟩
      · rw [counted, others, add_mul, one_mul]
        linarith
      · rw [counted, others, add_mul, one_mul]
        linarith
  | failure =>
      cases h
      have lower := failure_le low
      have counted : grants (ops ++ [Op.failure]) = grants ops := by simp [grants]
      have others : successes (ops ++ [Op.failure]) = successes ops := by simp [successes]
      refine ⟨le_sup_left, lower.trans high, ?_, ?_⟩
      · rw [counted, others]
        linarith
      · rwa [counted, others]
  | success =>
      cases h
      have fewer : max ⊓ (balance + ratio) ≤ balance + ratio := inf_le_right
      have counted : grants (ops ++ [Op.success]) = grants ops := by simp [grants]
      have others : ((successes (ops ++ [Op.success]) : ℕ) : α) = successes ops + 1 := by simp [successes]
      refine ⟨le_inf (low.trans high) (add_nonneg low earns), inf_le_left, ?_, ?_⟩
      · rw [counted, others, mul_add, mul_one]
        linarith
      · rw [counted, others, mul_add, mul_one]
        linarith

/-- A full bucket, whatever happens to it, has been paid for. -/
theorem run_paid {ops : List Op} {balance : α} (full : 0 ≤ max) (earns : 0 ≤ ratio)
    (h : Machine.run (TokenBucket.step max ratio) max ops = some balance) : Paid max ratio ops balance := by
  have traced : Paid max ratio ([] ++ ops.flatMap fun op => [op]) balance :=
    Machine.run_invariant_trace (I := fun ops balance => Paid max ratio ops balance)
      (fun ops balance op after inv moved => inv.step earns moved) (Paid.start full) h
  simpa using traced

end TokenBucket
