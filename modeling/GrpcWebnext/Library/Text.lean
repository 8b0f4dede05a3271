import Mathlib.Data.List.DropRight

/-! Character strings as the routers cut them: trimming, splitting at the first
separator, and the non-empty fields between separators. -/
namespace Text

abbrev Str := List Char

/-- `str::trim_matches` of one character. -/
def trimMatches (c : Char) (s : Str) : Str := (s.dropWhile (· == c)).rdropWhile (· == c)

/-- `str::split_once`: the text before and behind the first separator. -/
def splitOnce (sep : Char) : Str → Option (Str × Str)
  | [] => none
  | c :: cs =>
      if c = sep then some ([], cs)
      else (splitOnce sep cs).map fun (before, behind) => (c :: before, behind)

/-- The non-empty pieces between separators. -/
def fields (sep : Char) (s : Str) : List Str := (s.splitOn sep).filter (· ≠ [])

def join (sep : Char) (pieces : List Str) : Str := [sep].intercalate pieces

theorem fields_cons_sep (sep : Char) (s : Str) : fields sep (sep :: s) = fields sep s := by
  have split : (sep :: s).splitOn sep = [[]] ++ s.splitOn sep :=
    List.splitOn_append_cons_self [] s
  simp [fields, split]

theorem fields_concat_sep (sep : Char) (s : Str) : fields sep (s ++ [sep]) = fields sep s := by
  have split : (s ++ [sep]).splitOn sep = s.splitOn sep ++ [[]] :=
    List.splitOn_append_cons_self s []
  simp [fields, split]

theorem fields_dropWhile (sep : Char) (s : Str) :
    fields sep (s.dropWhile (· == sep)) = fields sep s := by
  induction s with
  | nil => rfl
  | cons c s ih =>
      by_cases same : c = sep
      · subst same
        rw [fields_cons_sep, ← ih]
        simp only [List.dropWhile_cons, beq_self_eq_true, if_true]
      · simp only [List.dropWhile_cons, beq_iff_eq, same, if_false]

theorem fields_rdropWhile (sep : Char) (s : Str) :
    fields sep (s.rdropWhile (· == sep)) = fields sep s := by
  induction s using List.reverseRecOn with
  | nil => rfl
  | append_singleton s c ih =>
      by_cases same : c = sep
      · subst same
        rw [fields_concat_sep, ← ih]
        simp only [List.rdropWhile_concat, beq_self_eq_true, if_true]
      · simp only [List.rdropWhile_concat, beq_iff_eq, same, if_false]

/-- Trimming separators loses no field. -/
theorem fields_trimMatches (sep : Char) (s : Str) : fields sep (trimMatches sep s) = fields sep s := by
  rw [trimMatches, fields_rdropWhile, fields_dropWhile]

/-- A text that does not end in the character is trimmed at its front only. -/
theorem trimMatches_of_last {c : Char} {s : Str} (last : s.getLast? ≠ some c) :
    trimMatches c s = s.dropWhile (· == c) := by
  have suffix : s.dropWhile (· == c) <:+ s := List.dropWhile_suffix _
  obtain ⟨front, whole⟩ := suffix
  rw [trimMatches, List.rdropWhile_eq_self_iff]
  intro nonempty same
  rw [beq_iff_eq] at same
  refine last ?_
  rw [← whole, List.getLast?_append, List.getLast?_eq_getLast_of_ne_nil nonempty, same,
    Option.some_or]

theorem splitOnce_none {sep : Char} {s : Str} : splitOnce sep s = none ↔ sep ∉ s := by
  induction s with
  | nil => simp [splitOnce]
  | cons c s ih =>
      by_cases same : c = sep
      · simp [splitOnce, same]
      · simp [splitOnce, same, ih, Ne.symm same]

theorem splitOnce_some {sep : Char} {s before behind : Str}
    (cut : splitOnce sep s = some (before, behind)) : s = before ++ sep :: behind := by
  induction s generalizing before with
  | nil => cases cut
  | cons c s ih =>
      simp only [splitOnce] at cut
      split at cut
      · rename_i same
        cases cut
        rw [same, List.nil_append]
      · obtain ⟨⟨front, back⟩, later, same⟩ := Option.map_eq_some_iff.mp cut
        cases same
        rw [ih later, List.cons_append]

theorem splitOnce_append {sep : Char} {before : Str} (free : sep ∉ before) (behind : Str) :
    splitOnce sep (before ++ sep :: behind) = some (before, behind) := by
  induction before with
  | nil => simp [splitOnce]
  | cons c before ih =>
      simp only [List.mem_cons, not_or] at free
      simp [splitOnce, Ne.symm free.1, ih free.2]

theorem mem_of_mem_splitOn {sep c : Char} {s piece : Str} (inside : piece ∈ s.splitOn sep)
    (member : c ∈ piece) : c ∈ s := by
  induction s generalizing piece with
  | nil =>
      rw [List.splitOn_nil, List.mem_singleton] at inside
      rwa [inside] at member
  | cons first s ih =>
      rw [List.splitOn_cons_eq_if_modifyHead] at inside
      split at inside
      · rcases List.mem_cons.mp inside with rfl | later
        · cases member
        · exact List.mem_cons_of_mem _ (ih later member)
      · obtain ⟨head, rest, pieces⟩ := List.exists_cons_of_ne_nil (List.splitOn_ne_nil sep s)
        rw [pieces] at inside ih
        rcases List.mem_cons.mp inside with rfl | later
        · rcases List.mem_cons.mp member with rfl | behind
          · exact List.mem_cons_self
          · exact List.mem_cons_of_mem _ (ih List.mem_cons_self behind)
        · exact List.mem_cons_of_mem _ (ih (List.mem_cons_of_mem _ later) member)

theorem mem_of_mem_fields {sep c : Char} {s piece : Str} (inside : piece ∈ fields sep s)
    (member : c ∈ piece) : c ∈ s :=
  mem_of_mem_splitOn (List.mem_of_mem_filter inside) member

/-- A character of a joined text is the separator or comes from a piece. -/
theorem mem_join {sep c : Char} {pieces : List Str} (member : c ∈ join sep pieces) :
    c = sep ∨ ∃ piece ∈ pieces, c ∈ piece := by
  induction pieces with
  | nil => cases member
  | cons piece pieces ih =>
      cases pieces with
      | nil =>
          rw [join, List.intercalate_singleton] at member
          exact .inr ⟨piece, List.mem_cons_self, member⟩
      | cons next pieces =>
          rw [join, List.intercalate_cons_cons, List.mem_append, List.mem_append] at member
          rcases member with (here | between) | later
          · exact .inr ⟨piece, List.mem_cons_self, here⟩
          · exact .inl (List.mem_singleton.mp between)
          · exact (ih later).imp id fun ⟨p, inside, found⟩ =>
              ⟨p, List.mem_cons_of_mem _ inside, found⟩

theorem fields_append_cons (sep : Char) (s t : Str) :
    fields sep (s ++ sep :: t) = fields sep s ++ fields sep t := by
  rw [fields, List.splitOn_append_cons_self, List.filter_append, fields, fields]

/-- The fields of pieces that each have a separator in front. -/
theorem fields_flatMap_cons (sep : Char) (pieces : List Str) :
    fields sep (pieces.flatMap (sep :: ·)) = pieces.flatMap (fields sep) := by
  have behind : ∀ s : Str,
      fields sep (s ++ pieces.flatMap (sep :: ·)) = fields sep s ++ pieces.flatMap (fields sep) := by
    induction pieces with
    | nil => simp
    | cons piece pieces ih =>
        intro s
        rw [List.flatMap_cons, List.flatMap_cons, List.cons_append, fields_append_cons, ih]
  have empty : fields sep [] = [] := rfl
  simpa [empty] using behind []

theorem cons_join (sep : Char) {pieces : List Str} (nonempty : pieces ≠ []) :
    sep :: join sep pieces = pieces.flatMap (sep :: ·) := by
  induction pieces with
  | nil => exact absurd rfl nonempty
  | cons piece pieces ih =>
      cases pieces with
      | nil => simp [join]
      | cons next pieces =>
          rw [List.flatMap_cons, ← ih (List.cons_ne_nil _ _), join, List.intercalate_cons_cons, join]
          simp

theorem fields_join_flatMap (sep : Char) (pieces : List Str) :
    fields sep (join sep pieces) = pieces.flatMap (fields sep) := by
  cases pieces with
  | nil => rfl
  | cons piece pieces =>
      rw [← fields_cons_sep, cons_join sep (List.cons_ne_nil _ _), fields_flatMap_cons]

theorem fields_self {sep : Char} {s : Str} (free : sep ∉ s) (nonempty : s ≠ []) :
    fields sep s = [s] := by
  have split := List.splitOn_intercalate sep (fun p member => List.mem_singleton.mp member ▸ free)
    (List.cons_ne_nil s [])
  rw [List.intercalate_singleton] at split
  rw [fields, split]
  simp [nonempty]

theorem fields_join {sep : Char} {pieces : List Str} (free : ∀ p ∈ pieces, sep ∉ p)
    (nonempty : ∀ p ∈ pieces, p ≠ []) : fields sep (join sep pieces) = pieces := by
  cases pieces with
  | nil => simp [fields, join]
  | cons p pieces =>
      rw [fields, join, List.splitOn_intercalate sep free (by simp)]
      simp only [List.filter_eq_self, decide_eq_true_eq]
      exact nonempty

end Text
