import Mathlib.Data.List.Destutter

/-! Sequences from which repeats are left out: what stands behind one of `destutter'`, and
which steps are left in it. -/
namespace Collapse
universe u
variable {α : Type u} (R : α → α → Prop) [DecidableRel R]

theorem destutter_cons (a : α) (l : List α) : ∃ rest, l.destutter' R a = a :: rest := by
  induction l generalizing a with
  | nil => exact ⟨[], rfl⟩
  | cons b l ih =>
      by_cases related : R a b
      · exact ⟨l.destutter' R b, List.destutter'_cons_pos l related⟩
      · rw [List.destutter'_cons_neg l related]
        exact ih a

/-- One more element stands at the end if the last that is left is related to it. -/
theorem destutter_concat (a : α) (l : List α) (b : α) :
    (l ++ [b]).destutter' R a =
      l.destutter' R a ++ if R ((l.destutter' R a).getLast (List.destutter'_ne_nil l R)) b then [b]
        else [] := by
  induction l generalizing a with
  | nil =>
      by_cases related : R a b
      · rw [List.nil_append, List.destutter'_cons_pos _ related]
        simp [related]
      · rw [List.nil_append, List.destutter'_cons_neg _ related]
        simp [related]
  | cons c l ih =>
      by_cases related : R a c
      · rw [List.cons_append, List.destutter'_cons_pos _ related, ih c]
        simp only [List.destutter'_cons_pos l related, List.cons_append,
          List.getLast_cons (List.destutter'_ne_nil l R)]
      · rw [List.cons_append, List.destutter'_cons_neg _ related, ih a]
        simp only [List.destutter'_cons_neg l related]

/-- Where only repeats are left out, the steps that remain are steps of the sequence. -/
theorem isChain_destutter [DecidableEq α] {S : α → α → Prop} {a : α} {l : List α}
    (steps : (a :: l).IsChain S) :
    (l.destutter' (· ≠ ·) a).IsChain fun b c => b ≠ c ∧ S b c := by
  induction l generalizing a with
  | nil => exact List.isChain_singleton a
  | cons b l ih =>
      obtain ⟨first, rest⟩ := List.isChain_cons_cons.mp steps
      by_cases other : a ≠ b
      · obtain ⟨tail, shape⟩ := destutter_cons (· ≠ ·) b l
        have behind := ih rest
        rw [List.destutter'_cons_pos l other, shape]
        rw [shape] at behind
        exact List.isChain_cons_cons.mpr ⟨⟨other, first⟩, behind⟩
      · rw [List.destutter'_cons_neg l other]
        obtain rfl := not_ne_iff.mp other
        exact ih rest

end Collapse
