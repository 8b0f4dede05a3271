import Mathlib.Data.List.Forall2

/-! Functions that may have no value, applied along a list. -/
namespace Fallible
universe u v
variable {α : Type u} {β : Type v} {f : α → Option β} {l : List α}

theorem mapM_eq_some_iff {values : List β} :
    l.mapM f = some values ↔ List.Forall₂ (fun a b => f a = some b) l values := by
  induction l generalizing values with
  | nil =>
      rw [List.forall₂_nil_left_iff, List.mapM_nil]
      exact ⟨fun same => (Option.some.inj same).symm, fun same => congrArg some same.symm⟩
  | cons a l ih =>
      rw [List.forall₂_cons_left_iff, List.mapM_cons]
      constructor
      · intro all
        obtain ⟨b, here, all⟩ := Option.bind_eq_some_iff.mp all
        obtain ⟨tail, later, same⟩ := Option.bind_eq_some_iff.mp all
        cases same
        exact ⟨b, tail, here, ih.mp later, rfl⟩
      · rintro ⟨b, tail, here, later, rfl⟩
        rw [here, ih.mpr later]
        rfl

/-- The list has values throughout if and only if each of its elements has one. -/
theorem mapM_isSome_iff : (l.mapM f).isSome = true ↔ ∀ a ∈ l, (f a).isSome = true := by
  induction l with
  | nil => simp
  | cons a l ih =>
      rw [List.forall_mem_cons, ← ih, List.mapM_cons]
      cases f a with
      | none => simp
      | some b => cases l.mapM f <;> simp

end Fallible
