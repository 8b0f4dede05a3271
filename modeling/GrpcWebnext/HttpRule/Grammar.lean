import GrpcWebnext.HttpRule.Template

/-! The template grammar in its own terms, and that `parse_template` reads every
template of it back. A literal, a field path and a template carry the conditions
the grammar puts on them, so that an ill-formed one cannot be written down. -/
namespace GrpcWebnext.HttpRule
open Text (Str)

/-- The characters that have a meaning of their own in a template. -/
def reserved : List Char := ['{', '}', '/', ':', '=']

structure Literal where
  text : Str
  nonempty : text ≠ []
  plain : ∀ c ∈ text, c ∉ reserved
  notStar : text ≠ ['*']
  notRest : text ≠ ['*', '*']
  deriving DecidableEq

structure FieldPath where
  names : List Str
  nonempty : names ≠ []
  plain : ∀ name ∈ names, ∀ c ∈ name, c ≠ '.' ∧ c ∉ reserved

/-- A segment that captures nothing. -/
inductive Pat where
  | literal (lit : Literal)
  | star
  | rest
  deriving DecidableEq

/-- A template segment. A variable without a sub-pattern stands for `{path=*}`. -/
inductive TSeg where
  | plain (pat : Pat)
  | var (field : FieldPath) (sub : Option (List Pat))

def TSeg.pats : TSeg → List Pat
  | .plain pat => [pat]
  | .var _ sub => sub.getD [.star]

/-- A `**` has nothing behind it. -/
def RestLast (pats : List Pat) : Prop := ∀ before after, pats = before ++ .rest :: after → after = []

structure Template where
  segs : List TSeg
  verb : Option Literal
  restLast : RestLast (segs.flatMap TSeg.pats)

def Pat.text : Pat → Str
  | .literal lit => lit.text
  | .star => ['*']
  | .rest => ['*', '*']

def FieldPath.text (field : FieldPath) : Str := Text.join '.' field.names

/-- What stands between the braces of a variable. -/
def variableText (field : FieldPath) : Option (List Pat) → Str
  | none => field.text
  | some pats => field.text ++ '=' :: Text.join '/' (pats.map Pat.text)

def TSeg.text : TSeg → Str
  | .plain pat => pat.text
  | .var field sub => '{' :: (variableText field sub ++ ['}'])

def pathText (segs : List TSeg) : Str := segs.flatMap fun seg => '/' :: seg.text

def Template.verbText (t : Template) : Str := (t.verb.map Literal.text).getD []

/-- The template as it is written in an annotation. -/
def Template.text (t : Template) : Str :=
  pathText t.segs ++ match t.verb with
    | none => []
    | some lit => ':' :: lit.text

/-- The parsed segment of a plain pattern. -/
def Pat.segment : Pat → Segment
  | .literal lit => .literal lit.text
  | .star => .anyOne
  | .rest => .anyRest

def TSeg.segment : TSeg → Segment
  | .plain pat => pat.segment
  | .var field sub => .capture field.names ((sub.getD [.star]).map Pat.segment)

/-- The brace depth behind a text that holds no separator at depth zero. -/
def solid (sep : Char) : Nat → Str → Option Nat
  | depth, [] => some depth
  | depth, c :: cs =>
      if c = '{' then solid sep (depth + 1) cs
      else if c = '}' then solid sep (depth - 1) cs
      else if c = sep ∧ depth = 0 then none
      else solid sep depth cs

theorem splitFrom_solid {sep : Char} {depth depth' : Nat} {piece : Str}
    (h : solid sep depth piece = some depth') (s : Str) :
    splitFrom sep depth (piece ++ s) = (splitFrom sep depth' s).modifyHead (piece ++ ·) := by
  induction piece generalizing depth with
  | nil =>
      cases h
      cases split : splitFrom sep depth' s <;>
        simp only [List.nil_append, split, List.modifyHead_cons, List.modifyHead_nil]
  | cons c piece ih =>
      simp only [solid] at h
      simp only [List.cons_append, splitFrom]
      split at h
      · rw [if_pos ‹_›, ih h, List.modifyHead_modifyHead]
        rfl
      · rw [if_neg ‹_›]
        split at h
        · rw [if_pos ‹_›, ih h, List.modifyHead_modifyHead]
          rfl
        · rw [if_neg ‹_›]
          split at h
          · cases h
          · rw [if_neg ‹_›, ih h, List.modifyHead_modifyHead]
            rfl

theorem solid_append {sep : Char} {depth depth' : Nat} {piece : Str}
    (h : solid sep depth piece = some depth') (s : Str) :
    solid sep depth (piece ++ s) = solid sep depth' s := by
  induction piece generalizing depth with
  | nil =>
      cases h
      rfl
  | cons c piece ih =>
      simp only [solid] at h
      simp only [List.cons_append, solid]
      split at h
      · rw [if_pos ‹_›, ih h]
      · rw [if_neg ‹_›]
        split at h
        · rw [if_pos ‹_›, ih h]
        · rw [if_neg ‹_›]
          split at h
          · cases h
          · rw [if_neg ‹_›, ih h]

/-- Text without braces keeps the depth; at depth zero it must not hold the separator. -/
theorem solid_plain {sep : Char} {depth : Nat} {s : Str}
    (plain : ∀ c ∈ s, c ≠ '{' ∧ c ≠ '}' ∧ (c = sep → depth ≠ 0)) : solid sep depth s = some depth := by
  induction s with
  | nil => rfl
  | cons c s ih =>
      obtain ⟨notOpen, notClose, inside⟩ := plain c List.mem_cons_self
      have noCut : ¬ (c = sep ∧ depth = 0) := fun both => inside both.1 both.2
      simp only [solid, notOpen, notClose, noCut, if_false]
      exact ih fun c member => plain c (List.mem_cons_of_mem _ member)

/-- Wrapping a brace free text in braces hides every separator in it. -/
theorem solid_braces {sep : Char} {inner : Str}
    (plain : ∀ c ∈ inner, c ≠ '{' ∧ c ≠ '}') : solid sep 0 ('{' :: (inner ++ ['}'])) = some 0 := by
  have hidden : solid sep 1 inner = some 1 :=
    solid_plain fun c member => ⟨(plain c member).1, (plain c member).2, fun _ => Nat.one_ne_zero⟩
  simp only [solid, if_true, Nat.zero_add]
  rw [solid_append hidden]
  simp [solid]

theorem splitFrom_plain {sep : Char} {s : Str} (h : solid sep 0 s = some 0) :
    splitFrom sep 0 s = [s] := by
  have split := splitFrom_solid h []
  simpa only [List.append_nil, splitFrom, List.modifyHead_cons] using split

theorem splitFrom_sep {sep : Char} (notOpen : sep ≠ '{') (notClose : sep ≠ '}') {piece : Str}
    (h : solid sep 0 piece = some 0) (s : Str) :
    splitFrom sep 0 (piece ++ sep :: s) = piece :: splitFrom sep 0 s := by
  rw [splitFrom_solid h]
  simp [splitFrom, notOpen, notClose]

theorem Pat.text_plain (pat : Pat) : ∀ c ∈ pat.text, c ∉ reserved := by
  cases pat with
  | literal lit => exact lit.plain
  | star => simp [Pat.text, reserved]
  | rest => simp [Pat.text, reserved]

theorem Pat.text_ne_nil (pat : Pat) : pat.text ≠ [] := by
  cases pat with
  | literal lit => exact lit.nonempty
  | star => decide
  | rest => decide

theorem FieldPath.text_plain (field : FieldPath) : ∀ c ∈ field.text, c ∉ reserved := by
  intro c member
  rcases Text.mem_join member with rfl | ⟨name, within, inside⟩
  · decide
  · exact (field.plain name within c inside).2

theorem FieldPath.split_text (field : FieldPath) : field.text.splitOn '.' = field.names :=
  List.splitOn_intercalate '.'
    (fun name within inside => (field.plain name within '.' inside).1 rfl) field.nonempty

theorem ne_of_not_reserved {c : Char} (plain : c ∉ reserved) : c ≠ '{' ∧ c ≠ '}' := by
  simp only [reserved, List.mem_cons, not_or] at plain
  exact ⟨plain.1, plain.2.1⟩

theorem variableText_plain (field : FieldPath) (sub : Option (List Pat)) :
    ∀ c ∈ variableText field sub, c ≠ '{' ∧ c ≠ '}' := by
  intro c member
  cases sub with
  | none => exact ne_of_not_reserved (field.text_plain c member)
  | some pats =>
      simp only [variableText, List.mem_append, List.mem_cons] at member
      rcases member with named | rfl | inside
      · exact ne_of_not_reserved (field.text_plain c named)
      · decide
      · rcases Text.mem_join inside with rfl | ⟨piece, within, found⟩
        · decide
        · obtain ⟨pat, _, rfl⟩ := List.mem_map.mp within
          exact ne_of_not_reserved (pat.text_plain c found)

/-- No separator of a segment's text stands outside its braces. -/
theorem TSeg.text_solid (seg : TSeg) {sep : Char} (special : sep ∈ reserved) :
    solid sep 0 seg.text = some 0 := by
  cases seg with
  | plain pat =>
      refine solid_plain fun c member => ?_
      obtain ⟨notOpen, notClose⟩ := ne_of_not_reserved (pat.text_plain c member)
      exact ⟨notOpen, notClose, fun same => absurd (same ▸ special) (pat.text_plain c member)⟩
  | var field sub => exact solid_braces (variableText_plain field sub)

theorem TSeg.text_ne_nil (seg : TSeg) : seg.text ≠ [] := by
  cases seg with
  | plain pat => exact pat.text_ne_nil
  | var field sub => exact List.cons_ne_nil _ _

theorem TSeg.text_last (seg : TSeg) : seg.text.getLast? ≠ some '/' := by
  cases seg with
  | plain pat =>
      intro slash
      exact pat.text_plain '/' (List.mem_of_getLast? slash) (by decide)
  | var field sub =>
      rw [TSeg.text, ← List.cons_append, List.getLast?_concat]
      decide

theorem pathText_solid (segs : List TSeg) : solid ':' 0 (pathText segs) = some 0 := by
  induction segs with
  | nil => rfl
  | cons seg segs ih =>
      have first : solid ':' 0 ('/' :: seg.text) = some 0 := by
        simpa [solid] using seg.text_solid (by decide : ':' ∈ reserved)
      rw [pathText, List.flatMap_cons, solid_append first]
      exact ih

theorem split_pathText (segs : List TSeg) :
    splitFrom '/' 0 (pathText segs) = [] :: segs.map TSeg.text := by
  induction segs with
  | nil => rfl
  | cons seg segs ih =>
      have behind : splitFrom '/' 0 (seg.text ++ pathText segs) =
          seg.text :: segs.map TSeg.text := by
        rw [splitFrom_solid (seg.text_solid (by decide)), ih, List.modifyHead_cons, List.append_nil]
      have cut : splitFrom '/' 0 ([] ++ '/' :: (seg.text ++ pathText segs)) =
          [] :: splitFrom '/' 0 (seg.text ++ pathText segs) :=
        splitFrom_sep (by decide) (by decide) rfl _
      rw [behind] at cut
      simpa only [pathText, List.flatMap_cons, List.cons_append, List.nil_append,
        List.map_cons] using cut

theorem pathText_last (segs : List TSeg) : (pathText segs).getLast? ≠ some '/' := by
  rcases List.eq_nil_or_concat segs with rfl | ⟨before, seg, rfl⟩
  · decide
  · have last : ('/' :: seg.text).getLast? = seg.text.getLast? :=
      List.getLast?_cons_of_ne_nil seg.text_ne_nil
    rw [pathText, List.concat_eq_append, List.flatMap_append, List.flatMap_singleton,
      List.getLast?_append, last]
    intro slash
    cases found : seg.text.getLast? with
    | none => exact seg.text_ne_nil (List.getLast?_eq_none_iff.mp found)
    | some c =>
        rw [found, Option.some_or] at slash
        exact seg.text_last (found.trans slash)

/-- Dropping leading slashes loses no piece that is not empty. -/
theorem split_dropWhile (s : Str) :
    (splitFrom '/' 0 (s.dropWhile (· == '/'))).filter (· ≠ []) =
      (splitFrom '/' 0 s).filter (· ≠ []) := by
  induction s with
  | nil => rfl
  | cons c s ih =>
      by_cases same : c = '/'
      · subst same
        have cut : splitFrom '/' 0 ([] ++ '/' :: s) = [] :: splitFrom '/' 0 s :=
          splitFrom_sep (by decide) (by decide) rfl s
        rw [List.nil_append] at cut
        simp only [List.dropWhile_cons, beq_self_eq_true, if_true, ih, cut]
        simp
      · simp only [List.dropWhile_cons, beq_iff_eq, same, if_false]

theorem Pat.parse_text (pat : Pat) : plainSegment pat.text = pat.segment := by
  cases pat with
  | literal lit => simp only [Pat.text, plainSegment, lit.notStar, lit.notRest, if_false, Pat.segment]
  | star => rfl
  | rest => rfl

theorem stripBraces_plain {s : Str} (plain : ∀ c ∈ s, c ∉ reserved) : stripBraces s = none := by
  cases s with
  | nil => rfl
  | cons c s =>
      have notOpen : c ≠ '{' := (ne_of_not_reserved (plain c List.mem_cons_self)).1
      unfold stripBraces
      split
      · exact absurd (List.cons.inj ‹_›).1 notOpen
      · rfl

theorem stripBraces_braces (inner : Str) : stripBraces ('{' :: (inner ++ ['}'])) = some inner := by
  simp [stripBraces]

theorem TSeg.parse_text (seg : TSeg) : parseSegment seg.text = seg.segment := by
  cases seg with
  | plain pat =>
      simp only [TSeg.text, parseSegment, stripBraces_plain pat.text_plain, pat.parse_text,
        TSeg.segment]
  | var field sub =>
      have free : '=' ∉ field.text := fun member => field.text_plain '=' member (by decide)
      cases sub with
      | none =>
          have split : Text.splitOnce '=' field.text = none := Text.splitOnce_none.mpr free
          simp only [TSeg.text, variableText, parseSegment, stripBraces_braces, split,
            Option.getD_none, field.split_text, TSeg.segment]
          rfl
      | some pats =>
          have pieces : Text.fields '/' (Text.join '/' (pats.map Pat.text)) =
              pats.map Pat.text := by
            refine Text.fields_join (fun piece within slash => ?_) (fun piece within => ?_)
            · obtain ⟨pat, _, rfl⟩ := List.mem_map.mp within
              exact pat.text_plain '/' slash (by decide)
            · obtain ⟨pat, _, rfl⟩ := List.mem_map.mp within
              exact pat.text_ne_nil
          simp only [TSeg.text, variableText, parseSegment, stripBraces_braces,
            Text.splitOnce_append free, Option.getD_some, field.split_text,
            Text.fields_trimMatches, pieces, List.map_map, TSeg.segment]
          congr 1
          exact List.map_congr_left fun pat _ => pat.parse_text

theorem split_text (t : Template) : splitOutsideBraces t.text ':' =
    pathText t.segs :: (t.verb.map Literal.text).toList := by
  unfold Template.text splitOutsideBraces
  cases t.verb with
  | none => simpa using splitFrom_plain (pathText_solid t.segs)
  | some lit =>
      have verb : solid ':' 0 lit.text = some 0 := by
        refine solid_plain fun c member => ?_
        obtain ⟨notOpen, notClose⟩ := ne_of_not_reserved (lit.plain c member)
        exact ⟨notOpen, notClose, fun same => absurd (by rw [same]; decide) (lit.plain c member)⟩
      simp only [Option.map_some, Option.toList_some]
      rw [splitFrom_sep (by decide) (by decide) (pathText_solid t.segs), splitFrom_plain verb]

theorem parse_pathText (segs : List TSeg) :
    ((splitOutsideBraces (Text.trimMatches '/' (pathText segs)) '/').filter (· ≠ [])).map
      parseSegment = segs.map TSeg.segment := by
  rw [Text.trimMatches_of_last (pathText_last segs), splitOutsideBraces, split_dropWhile, split_pathText]
  have kept : (segs.map TSeg.text).filter (· ≠ []) = segs.map TSeg.text := by
    simp only [List.filter_eq_self, decide_eq_true_eq, List.mem_map]
    rintro _ ⟨seg, _, rfl⟩
    exact seg.text_ne_nil
  rw [List.filter_cons_of_neg (by simp), kept, List.map_map]
  exact List.map_congr_left fun seg _ => seg.parse_text

/-- Parsing the text of a template gives its segments and its verb. -/
theorem parseTemplate_text (t : Template) :
    parseTemplate t.text = (t.segs.map TSeg.segment, t.verbText) := by
  have verb : Text.join ':' (t.verb.map Literal.text).toList = t.verbText := by
    unfold Template.verbText
    cases t.verb with
    | none => rfl
    | some lit => exact List.intercalate_singleton
  simp only [parseTemplate, split_text, List.headD_cons, List.tail_cons, parse_pathText, verb]

end GrpcWebnext.HttpRule
