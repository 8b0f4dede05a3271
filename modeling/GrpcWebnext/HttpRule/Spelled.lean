import GrpcWebnext.HttpRule.GoTemplate
import GrpcWebnext.HttpRule.Template

/-! The Go template parser reads the bytes of a template as the Rust one reads its
characters. Every separator is one byte that no other character uses. -/
namespace GrpcWebnext.HttpRule
open Framing (Bytes)
open Text (Str)
open Utf8 (encode)

mutual

/-- A segment with its texts as bytes. -/
def Segment.spelled : Segment → Go.Segment
  | .literal text => .literal (encode text)
  | .anyOne => .anyOne
  | .anyRest => .anyRest
  | .capture field subs => .capture (field.map encode) (spelledList subs)

def spelledList : List Segment → List Go.Segment
  | [] => []
  | seg :: segs => seg.spelled :: spelledList segs

end

theorem spelledList_eq (segs : List Segment) : spelledList segs = segs.map Segment.spelled := by
  induction segs with
  | nil => rfl
  | cons seg segs ih => rw [spelledList, ih, List.map_cons]

/-- The separator `c` of the Rust text and the byte `b` of the Go one. -/
abbrev Sep (c : Char) (b : UInt8) : Prop := Spelling.Marks String.utf8EncodeChar c b

theorem sep_slash : Sep '/' 47 := Utf8.marks_ascii '/' (by decide)

theorem sep_colon : Sep ':' 58 := Utf8.marks_ascii ':' (by decide)

theorem sep_dot : Sep '.' 46 := Utf8.marks_ascii '.' (by decide)

theorem sep_equals : Sep '=' 61 := Utf8.marks_ascii '=' (by decide)

theorem sep_open : Sep '{' 123 := Utf8.marks_ascii '{' (by decide)

theorem sep_question : Sep '?' 63 := Utf8.marks_ascii '?' (by decide)

theorem sep_close : Sep '}' 125 := Utf8.marks_ascii '}' (by decide)

section Cuts
variable {c : Char} {b : UInt8}

theorem encode_cons (c : Char) (s : Str) : encode (c :: s) = String.utf8EncodeChar c ++ encode s := rfl

theorem encode_cons_sep (sep : Sep c b) (s : Str) : encode (c :: s) = b :: encode s := by
  rw [encode_cons, sep.self]
  rfl

theorem encode_ne_nil {s : Str} : encode s = [] ↔ s = [] :=
  Spelling.flatMap_eq_nil Utf8.encodeChar_solid

theorem trim_encode (sep : Sep c b) (s : Str) : Go.trim b (encode s) = encode (Text.trimMatches c s) := by
  rw [Go.trim, Text.trimMatches, encode, Spelling.dropWhile_flatMap sep Utf8.encodeChar_solid,
    Spelling.rdropWhile_flatMap sep Utf8.encodeChar_solid]
  rfl

theorem pieces_encode (sep : Sep c b) (s : Str) :
    Go.pieces b (encode s) = (Text.fields c s).map encode := by
  rw [Go.pieces, Text.fields, encode, Spelling.splitOn_flatMap sep]
  exact Spelling.filter_flatMap Utf8.encodeChar_solid _

theorem join_encode (sep : Sep c b) (pieces : List Str) :
    Go.join b (pieces.map encode) = encode (Text.join c pieces) := by
  induction pieces with
  | nil => rfl
  | cons piece rest ih =>
      cases rest with
      | nil => simp [Go.join, Text.join]
      | cons next rest =>
          simp only [Go.join, Text.join, List.map_cons, List.intercalate_cons_cons] at ih ⊢
          rw [ih, Utf8.encode_append, Utf8.encode_append, encode_cons_sep sep]
          rfl

/-- Bytes that are neither the separator nor a brace join the first piece. -/
theorem splitFrom_append {w : Bytes} (free : ∀ x ∈ w, x ≠ 123 ∧ x ≠ 125 ∧ x ≠ b) (depth : Nat)
    (s : Bytes) : Go.splitFrom b depth (w ++ s) = (Go.splitFrom b depth s).modifyHead (w ++ ·) := by
  induction w with
  | nil => cases split : Go.splitFrom b depth s <;> simp [split]
  | cons x w ih =>
      obtain ⟨⟨notOpen, notClose, notSep⟩, free⟩ := List.forall_mem_cons.mp free
      simp only [List.cons_append, Go.splitFrom, notOpen, notClose, notSep, false_and, if_false, ih free,
        List.modifyHead_modifyHead]
      rfl

theorem splitFrom_encode (sep : Sep c b) (notOpen : c ≠ '{') (notClose : c ≠ '}') (depth : Nat)
    (s : Str) : Go.splitFrom b depth (encode s) = (splitFrom c depth s).map encode := by
  induction s generalizing depth with
  | nil => rfl
  | cons d s ih =>
      -- The head of a non-empty list of pieces, on both sides.
      have first : ∀ (depth : Nat) (w : Bytes), w = String.utf8EncodeChar d →
          ((splitFrom c depth s).map encode).modifyHead (w ++ ·) =
            ((splitFrom c depth s).modifyHead (d :: ·)).map encode := by
        rintro depth w rfl
        cases splitFrom c depth s <;> rfl
      have other : ∀ {x : UInt8} {letter : Char}, Sep letter x → d ≠ letter →
          ∀ y ∈ String.utf8EncodeChar d, y ≠ x := by
        rintro x letter marks differs y used rfl
        exact marks.others d differs used
      by_cases isOpen : d = '{'
      · subst isOpen
        rw [encode_cons_sep sep_open]
        simp only [Go.splitFrom, splitFrom, if_true, ih]
        exact first (depth + 1) [123] sep_open.self.symm
      · by_cases isClose : d = '}'
        · subst isClose
          have same : (if 0 < depth then depth - 1 else depth) = depth - 1 := by
            split <;> omega
          rw [encode_cons_sep sep_close]
          simp only [Go.splitFrom, splitFrom, isOpen, if_true, if_false, ih, same,
            show (125 : UInt8) ≠ 123 by decide]
          exact first (depth - 1) [125] sep_close.self.symm
        · by_cases isSep : d = c
          · subst isSep
            have byte : b ≠ 123 ∧ b ≠ 125 := by
              constructor
              · rintro rfl
                exact other sep_open isOpen 123 (sep.self ▸ List.mem_singleton_self _) rfl
              · rintro rfl
                exact other sep_close isClose 125 (sep.self ▸ List.mem_singleton_self _) rfl
            rw [encode_cons_sep sep]
            simp only [Go.splitFrom, splitFrom, byte.1, byte.2, isOpen, isClose, if_false, true_and, ih]
            split
            · rfl
            · exact first depth [b] sep.self.symm
          · rw [encode_cons, splitFrom_append (fun y used => ⟨other sep_open isOpen y used,
              other sep_close isClose y used, other sep isSep y used⟩), ih]
            simp only [splitFrom, isOpen, isClose, isSep, false_and, if_false]
            exact first depth _ rfl

theorem cutAt_encode (sep : Sep c b) (s : Str) :
    Go.cutAt b (encode s) = (Text.splitOnce c s).map (Prod.map encode encode) := by
  induction s with
  | nil => rfl
  | cons d s ih =>
      by_cases same : d = c
      · subst same
        rw [encode_cons_sep sep]
        simp [Go.cutAt, Text.splitOnce, encode]
      · have skip : ∀ w : Bytes, b ∉ w →
            Go.cutAt b (w ++ encode s) = (Go.cutAt b (encode s)).map fun pair =>
              (w ++ pair.1, pair.2) := by
          intro w free
          induction w with
          | nil =>
              rw [List.nil_append]
              cases Go.cutAt b (encode s) <;> rfl
          | cons x w more =>
              rw [List.mem_cons, not_or] at free
              simp only [List.cons_append, Go.cutAt, Ne.symm free.1, if_false, more free.2]
              cases Go.cutAt b (encode s) <;> rfl
        rw [encode_cons, skip _ (sep.others d same), ih]
        simp only [Text.splitOnce, same, if_false]
        cases Text.splitOnce c s <;> rfl

end Cuts

theorem plainSegment_encode (seg : Str) : Go.plainSegment (encode seg) = (plainSegment seg).spelled := by
  have star : encode seg = [42] ↔ seg = ['*'] := ⟨fun same => Utf8.encode_injective same, by rintro rfl; rfl⟩
  have rest : encode seg = [42, 42] ↔ seg = ['*', '*'] :=
    ⟨fun same => Utf8.encode_injective same, by rintro rfl; rfl⟩
  simp only [Go.plainSegment, plainSegment, star, rest]
  split
  · rfl
  · split <;> rfl

theorem cutBraces_encode (seg : Str) : Go.cutBraces (encode seg) = (stripBraces seg).map encode := by
  cases seg with
  | nil => rfl
  | cons c rest =>
      by_cases isOpen : c = '{'
      · subst isOpen
        rw [encode_cons_sep sep_open]
        simp only [Go.cutBraces, stripBraces]
        rcases List.eq_nil_or_concat rest with rfl | ⟨init, d, rfl⟩
        · rfl
        · rw [List.concat_eq_append]
          have last : (encode (init ++ [d])).getLast? = (String.utf8EncodeChar d).getLast? := by
            rw [Utf8.encode_append, List.getLast?_append_of_ne_nil _
              (by simp [encode, Utf8.encodeChar_solid d])]
            simp [encode]
          by_cases isClose : d = '}'
          · subst isClose
            rw [if_pos (by rw [last]; rfl), if_pos (by simp)]
            simp [Utf8.encode_append, show encode ['}'] = [125] from rfl]
          · rw [if_neg, if_neg (by simpa using isClose)]
            · rfl
            · rw [last]
              intro closes
              exact sep_close.others d isClose (List.mem_of_getLast? closes)
      · obtain ⟨x, w, spelled⟩ := List.exists_cons_of_ne_nil (Utf8.encodeChar_solid c)
        have other : x ≠ 123 := by
          rintro rfl
          exact sep_open.others c isOpen (spelled ▸ List.mem_cons_self)
        rw [encode_cons, spelled]
        simp [Go.cutBraces, stripBraces, isOpen, other]

theorem parseSegment_encode (seg : Str) : Go.parseSegment (encode seg) = (parseSegment seg).spelled := by
  unfold Go.parseSegment parseSegment
  rw [cutBraces_encode]
  cases stripBraces seg with
  | none => exact plainSegment_encode seg
  | some inner =>
      have pair : (Go.cutAt 61 (encode inner)).getD (encode inner, [42]) =
          Prod.map encode encode ((Text.splitOnce '=' inner).getD (inner, ['*'])) := by
        rw [cutAt_encode sep_equals]
        cases Text.splitOnce '=' inner <;> rfl
      simp only [Option.map_some, pair]
      obtain ⟨field, pattern⟩ := (Text.splitOnce '=' inner).getD (inner, ['*'])
      have names : (encode field).splitOn 46 = (field.splitOn '.').map encode :=
        Spelling.splitOn_flatMap sep_dot field
      simp only [Prod.map, names, trim_encode sep_slash, pieces_encode sep_slash, List.map_map,
        Segment.spelled, spelledList_eq]
      congr 1
      apply List.map_congr_left
      intro piece _
      exact plainSegment_encode piece

/-- The two parsers read a template alike. -/
theorem parseTemplate_encode (template : Str) :
    Go.parseTemplate (encode template) =
      ((parseTemplate template).1.map Segment.spelled, encode (parseTemplate template).2) := by
  have colons := splitFrom_encode sep_colon (by decide) (by decide) 0 template
  unfold Go.parseTemplate parseTemplate Go.splitOutsideBraces splitOutsideBraces
  rw [colons]
  generalize splitFrom ':' 0 template = parts
  have head : (parts.map encode).headD [] = encode (parts.headD []) := by
    cases parts <;> rfl
  have verb : (if 1 < (parts.map encode).length then Go.join 58 (parts.map encode).tail else []) =
      encode (Text.join ':' parts.tail) := by
    rw [← List.map_tail, join_encode sep_colon]
    split
    · rfl
    · rename_i short
      cases parts with
      | nil => rfl
      | cons part rest =>
          cases rest with
          | nil => rfl
          | cons next rest => simp at short
  simp only [head, verb, trim_encode sep_slash, Prod.mk.injEq, and_true,
    splitFrom_encode sep_slash (by decide) (by decide)]
  have kept := Spelling.filter_flatMap Utf8.encodeChar_solid
    (splitFrom '/' 0 (Text.trimMatches '/' (parts.headD [])))
  have mapped : ∀ l : List Str, (l.map encode).map Go.parseSegment =
      (l.map parseSegment).map Segment.spelled := by
    intro l
    rw [List.map_map, List.map_map]
    apply List.map_congr_left
    intro seg _
    exact parseSegment_encode seg
  rw [← mapped]
  exact congrArg (List.map Go.parseSegment) kept

end GrpcWebnext.HttpRule
