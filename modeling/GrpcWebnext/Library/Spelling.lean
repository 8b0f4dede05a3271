import Mathlib.Data.List.DropRight

/-! Texts over one alphabet spelled in another, letter by letter. A symbol that spells
one letter and occurs in no other cuts the spelled text where the letter cuts the text. -/
namespace Spelling
universe u v
variable {α : Type u} {β : Type v}

/-- The symbol `b` spells the letter `a`, and no other letter uses it. -/
structure Marks (spell : α → List β) (a : α) (b : β) : Prop where
  self : spell a = [b]
  others : ∀ c, c ≠ a → b ∉ spell c

/-- Every letter is spelled by something. -/
def Solid (spell : α → List β) : Prop := ∀ c, spell c ≠ []

section Letters
variable {spell : α → List β} {a : α} {b : β}

theorem mem_flatMap_iff (marks : Marks spell a b) {s : List α} : b ∈ s.flatMap spell ↔ a ∈ s := by
  constructor
  · intro member
    obtain ⟨c, inside, used⟩ := List.mem_flatMap.mp member
    by_cases same : c = a
    · exact same ▸ inside
    · exact absurd used (marks.others c same)
  · intro inside
    refine List.mem_flatMap.mpr ⟨a, inside, ?_⟩
    rw [marks.self]
    exact List.mem_singleton_self b

theorem flatMap_eq_nil (solid : Solid spell) {s : List α} : s.flatMap spell = [] ↔ s = [] := by
  constructor
  · intro empty
    cases s with
    | nil => rfl
    | cons c s =>
        rw [List.flatMap_cons, List.append_eq_nil_iff] at empty
        exact absurd empty.1 (solid c)
  · rintro rfl
    rfl

/-- A separator inside a spelled text is a letter of it. -/
theorem split_at (marks : Marks spell a b) {s : List α} {x y : List β}
    (cut : s.flatMap spell = x ++ b :: y) :
    ∃ before behind, s = before ++ a :: behind ∧ before.flatMap spell = x ∧
      behind.flatMap spell = y := by
  induction s generalizing x with
  | nil => simp at cut
  | cons c s ih =>
      rw [List.flatMap_cons] at cut
      by_cases same : c = a
      · subst same
        rw [marks.self, List.singleton_append] at cut
        cases x with
        | nil => exact ⟨[], s, rfl, rfl, (List.cons.inj cut).2⟩
        | cons z x =>
            obtain ⟨first, rest⟩ := List.cons.inj cut
            obtain ⟨before, behind, rfl, rfl, rfl⟩ := ih rest
            refine ⟨c :: before, behind, rfl, ?_, rfl⟩
            rw [List.flatMap_cons, marks.self, first]
            rfl
      · -- The separator stands behind the whole letter, which does not use it.
        rcases List.append_eq_append_iff.mp cut with ⟨w, rfl, rest⟩ | ⟨w, spelled, rest⟩
        · obtain ⟨before, behind, rfl, rfl, rfl⟩ := ih rest
          exact ⟨c :: before, behind, rfl, rfl, rfl⟩
        · cases w with
          | nil =>
              obtain ⟨before, behind, rfl, empty, rfl⟩ := ih (x := []) rest.symm
              refine ⟨c :: before, behind, rfl, ?_, rfl⟩
              rw [List.flatMap_cons, empty, spelled, List.append_nil, List.append_nil]
          | cons z w =>
              obtain ⟨rfl, _⟩ := List.cons.inj rest
              exact absurd (spelled ▸ by simp) (marks.others c same)

theorem filter_flatMap (solid : Solid spell) (l : List (List α)) :
    (l.map (·.flatMap spell)).filter (· ≠ []) = (l.filter (· ≠ [])).map (·.flatMap spell) := by
  rw [List.filter_map]
  congr 1
  apply List.filter_congr
  intro s _
  simp [flatMap_eq_nil solid]

end Letters

section Cuts
variable [DecidableEq α] [DecidableEq β] {spell : α → List β} {a : α} {b : β}

/-- Symbols that are not the separator join the first piece. -/
theorem splitOn_append {w : List β} (free : b ∉ w) (s : List β) :
    (w ++ s).splitOn b = (s.splitOn b).modifyHead (w ++ ·) := by
  induction w with
  | nil => cases split : s.splitOn b <;> simp [split]
  | cons x w ih =>
      rw [List.mem_cons, not_or] at free
      obtain ⟨other, free⟩ := free
      have differs : (x == b) = false := beq_false_of_ne (Ne.symm other)
      rw [List.cons_append, List.splitOn_cons_eq_if_modifyHead, differs, ih free]
      simp [List.modifyHead_modifyHead, Function.comp_def]

theorem splitOn_flatMap (marks : Marks spell a b) (s : List α) :
    (s.flatMap spell).splitOn b = (s.splitOn a).map (·.flatMap spell) := by
  induction s with
  | nil => simp
  | cons c s ih =>
      rw [List.flatMap_cons, List.splitOn_cons_eq_if_modifyHead]
      by_cases same : c = a
      · subst same
        rw [marks.self, List.singleton_append, List.splitOn_cons_eq_if_modifyHead]
        simp [ih]
      · rw [splitOn_append (marks.others c same), ih, beq_false_of_ne same]
        cases split : s.splitOn a <;> simp

theorem dropWhile_flatMap (marks : Marks spell a b) (solid : Solid spell) (s : List α) :
    (s.flatMap spell).dropWhile (· == b) = (s.dropWhile (· == a)).flatMap spell := by
  induction s with
  | nil => rfl
  | cons c s ih =>
      by_cases same : c = a
      · subst same
        rw [List.flatMap_cons, marks.self, List.singleton_append, List.dropWhile_cons, List.dropWhile_cons]
        simpa using ih
      · rw [List.dropWhile_cons, beq_false_of_ne same]
        obtain ⟨x, w, spelled⟩ := List.exists_cons_of_ne_nil (solid c)
        have other : x ≠ b := by
          rintro rfl
          exact marks.others c same (spelled ▸ List.mem_cons_self)
        rw [List.flatMap_cons, spelled, List.cons_append, List.dropWhile_cons, beq_false_of_ne other]
        simp [spelled]

theorem rdropWhile_flatMap (marks : Marks spell a b) (solid : Solid spell) (s : List α) :
    (s.flatMap spell).rdropWhile (· == b) = (s.rdropWhile (· == a)).flatMap spell := by
  induction s using List.reverseRecOn with
  | nil => rfl
  | append_singleton s c ih =>
      by_cases same : c = a
      · subst same
        rw [List.flatMap_append, List.flatMap_singleton, marks.self, List.rdropWhile_concat,
          List.rdropWhile_concat]
        simpa using ih
      · rw [List.rdropWhile_concat_neg _ _ _ (by simpa using same), List.flatMap_append,
          List.flatMap_singleton, List.rdropWhile_eq_self_iff]
        intro nonempty
        rw [List.getLast_append_of_ne_nil _ (solid c)]
        intro last
        rw [beq_iff_eq] at last
        exact marks.others c same (last ▸ List.getLast_mem (solid c))

end Cuts

end Spelling
