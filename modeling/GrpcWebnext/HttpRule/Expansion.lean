import GrpcWebnext.HttpRule.QueryText
import GrpcWebnext.HttpRule.SameRoutes

/-! A path written from a template and the strings that its wildcards stand for, and
what the two matchers read back from it. -/
namespace GrpcWebnext.HttpRule
open Framing (Bytes)
open Text (Str)
open Utf8 (encode)

/-- The bytes that stand for themselves in an encoded component. -/
def unreserved (b : UInt8) : Bool :=
  (65 ≤ b && b ≤ 90) || (97 ≤ b && b ≤ 122) || (48 ≤ b && b ≤ 57) ||
    b == 45 || b == 46 || b == 95 || b == 126

def percentEncode (bytes : Bytes) : Bytes :=
  bytes.flatMap fun b => if unreserved b then [b] else escape [b]

structure Word where
  text : Str
  nonempty : text ≠ []

/-- The component that carries a string. -/
def Word.encoded (word : Word) : Str :=
  (percentEncode (encode word.text)).map fun b => Char.ofNat b.toNat

/-- A template with any verb that holds no slash and no colon. -/
structure Written where
  segs : List TSeg
  verb : Option Str
  restLast : RestLast (segs.flatMap TSeg.pats)
  nonempty : segs ≠ []
  filled : ∀ seg ∈ segs, seg.pats ≠ []
  unescaped : ∀ lit, Pat.literal lit ∈ segs.flatMap TSeg.pats → '%' ∉ lit.text
  verbPlain : ∀ text, verb = some text → '/' ∉ text ∧ ':' ∉ text

def verbSuffix : Option Str → Str
  | none => []
  | some text => ':' :: text

def Written.text (t : Written) : Str := pathText t.segs ++ verbSuffix t.verb

/-- What a pattern stands for: a string for a `*`, a list of them for a `**`. -/
inductive Filling : Pat → Type where
  | literal (lit : Literal) : Filling (.literal lit)
  | star (word : Word) : Filling .star
  | rest (words : List Word) : Filling .rest

inductive Fillings : List Pat → Type where
  | nil : Fillings []
  | cons {pat : Pat} {pats : List Pat} (first : Filling pat) (others : Fillings pats) :
      Fillings (pat :: pats)

/-- An assignment of strings to every wildcard of a template. -/
inductive Assignment : List TSeg → Type where
  | nil : Assignment []
  | plain {pat : Pat} {segs : List TSeg} (here : Filling pat) (others : Assignment segs) :
      Assignment (.plain pat :: segs)
  | var {field : FieldPath} {sub : Option (List Pat)} {segs : List TSeg}
      (here : Fillings (sub.getD [.star])) (others : Assignment segs) :
      Assignment (.var field sub :: segs)

/-- The components of a pattern, each beside the string it carries. -/
def Filling.pieces : {pat : Pat} → Filling pat → List (Str × Str)
  | _, .literal lit => [(lit.text, lit.text)]
  | _, .star word => [(word.encoded, word.text)]
  | _, .rest words => words.map fun word => (word.encoded, word.text)

def Fillings.pieces : {pats : List Pat} → Fillings pats → List (Str × Str)
  | _, .nil => []
  | _, .cons first others => first.pieces ++ others.pieces

/-- What is written in the place of a pattern. -/
def Filling.text {pat : Pat} (filling : Filling pat) : Str :=
  Text.join '/' (filling.pieces.map Prod.fst)

def Fillings.texts : {pats : List Pat} → Fillings pats → List Str
  | _, .nil => []
  | _, .cons first others => first.text :: others.texts

/-- What is written in the place of each segment. -/
def Assignment.texts : {segs : List TSeg} → Assignment segs → List Str
  | _, .nil => []
  | _, .plain here others => here.text :: others.texts
  | _, .var here others => Text.join '/' here.texts :: others.texts

/-- The template with the strings in it. -/
def Assignment.path {segs : List TSeg} (a : Assignment segs) : Str :=
  a.texts.flatMap ('/' :: ·)

def Assignment.comps : {segs : List TSeg} → Assignment segs → List Str
  | _, .nil => []
  | _, .plain here others => here.pieces.map Prod.fst ++ others.comps
  | _, .var here others => here.pieces.map Prod.fst ++ others.comps

/-- The variables of the template, each with the components it stands over. -/
def Assignment.runs : {segs : List TSeg} → Assignment segs → List (FieldPath × List Str)
  | _, .nil => []
  | _, .plain _ others => others.runs
  | .var field _ :: _, .var here others => (field, here.pieces.map Prod.fst) :: others.runs

/-- Each variable with the strings of its pattern, joined by slashes. -/
def Assignment.captures : {segs : List TSeg} → Assignment segs → List PathVar
  | _, .nil => []
  | _, .plain _ others => others.captures
  | .var field _ :: _, .var here others =>
      (field.names, Text.join '/' (here.pieces.map Prod.snd)) :: others.captures

/-- Every `**` stands for at least one string. -/
def Filling.whole : {pat : Pat} → Filling pat → Bool
  | _, .rest [] => false
  | _, _ => true

def Fillings.whole : {pats : List Pat} → Fillings pats → Bool
  | _, .nil => true
  | _, .cons first others => first.whole && others.whole

def Assignment.whole : {segs : List TSeg} → Assignment segs → Bool
  | _, .nil => true
  | _, .plain here others => here.whole && others.whole
  | _, .var here others => here.whole && others.whole

/-- Both matchers match the template on the path and capture these values. -/
def ReadsBack (t : Written) (path : Str) (captures : List PathVar) : Prop :=
  matchSegments (parseTemplate t.text).1 (parseTemplate t.text).2 path = .hit captures ∧
    Go.matchSegments (Go.parseTemplate (encode t.text)).1 (Go.parseTemplate (encode t.text)).2
        (encode path) =
      some (captures.map fun (field, value) => (field.map encode, encode value))

/-- Both matchers find that the template does not match the path. -/
def Refused (t : Written) (path : Str) : Prop :=
  matchSegments (parseTemplate t.text).1 (parseTemplate t.text).2 path = .miss ∧
    Go.matchSegments (Go.parseTemplate (encode t.text)).1 (Go.parseTemplate (encode t.text)).2
        (encode path) = none

/-- A component that is left whole by both routers and is read as the text. -/
structure Carries (comp text : Str) : Prop where
  nonempty : comp ≠ []
  noSlash : '/' ∉ comp
  noColon : ':' ∉ comp
  whole : slicesCharacter (encode comp) = false
  noPlus : plusEscape (encode comp) = false
  reads : GrpcWebnext.Go.percentDecode (encode comp) = encode text

theorem Carries.legible {comp text : Str} (carries : Carries comp text) : Legible comp := by
  refine ⟨carries.noPlus, ?_⟩
  rw [carries.reads]
  exact valid_iff.mpr ⟨text, rfl⟩

theorem Carries.decoded {comp text : Str} (carries : Carries comp text) :
    percentDecode comp = some text := by
  obtain ⟨value, found, decoded⟩ := percentDecode_some carries.whole
  have same : encode value = encode text := (decoded.legible carries.legible).trans carries.reads
  rw [found, Utf8.encode_injective same]

section Encoding

theorem unreserved_ascii {b : UInt8} (kept : unreserved b = true) :
    b.toNat < 128 ∧ b ≠ 37 ∧ b ≠ 47 ∧ b ≠ 58 := by
  simp only [unreserved, Bool.or_eq_true, Bool.and_eq_true, decide_eq_true_eq, beq_iff_eq,
    UInt8.le_iff_toNat_le, ← UInt8.toNat_inj, UInt8.reduceToNat] at kept
  simp only [ne_eq, ← UInt8.toNat_inj, UInt8.reduceToNat]
  omega

theorem percentEncode_cons (b : UInt8) (bytes : Bytes) :
    percentEncode (b :: bytes) = (if unreserved b then [b] else escape [b]) ++ percentEncode bytes :=
  List.flatMap_cons

/-- The bytes of an encoded component are ASCII and no separators. -/
theorem percentEncode_mem {bytes : Bytes} {b : UInt8} (member : b ∈ percentEncode bytes) :
    b.toNat < 128 ∧ b ≠ 47 ∧ b ≠ 58 := by
  obtain ⟨c, _, inside⟩ := List.mem_flatMap.mp member
  split at inside
  · rename_i kept
    rw [List.mem_singleton.mp inside]
    obtain ⟨small, _, noSlash, noColon⟩ := unreserved_ascii kept
    exact ⟨small, noSlash, noColon⟩
  · exact escape_all (fun b => b.toNat < 128 ∧ b ≠ 47 ∧ b ≠ 58) (by decide) (by decide) inside

theorem percentEncode_head (bytes : Bytes) :
    (percentEncode bytes).head?.any Utf8.isContinuation = false := by
  apply Utf8.ascii_head
  intro b member
  exact (percentEncode_mem member).1

theorem percentEncode_reads (bytes : Bytes) :
    slicesCharacter (percentEncode bytes) = false ∧ plusEscape (percentEncode bytes) = false ∧
      GrpcWebnext.Go.percentDecode (percentEncode bytes) = bytes := by
  induction bytes with
  | nil => exact ⟨rfl, rfl, rfl⟩
  | cons b bytes ih =>
      obtain ⟨whole, noPlus, reads⟩ := ih
      rw [percentEncode_cons]
      split
      · rename_i kept
        obtain ⟨_, other, _, _⟩ := unreserved_ascii kept
        rw [List.singleton_append, slicesCharacter_of_ne other, plusEscape_of_ne other,
          go_percentDecode_of_ne other, reads]
        exact ⟨whole, noPlus, rfl⟩
      · obtain ⟨hi, lo, back⟩ := hexVal_escape b
        obtain ⟨hiPercent, hiPlus, _, _⟩ := hexVal_some hi
        obtain ⟨loPercent, _, _, _⟩ := hexVal_some lo
        have spelled : escape [b] ++ percentEncode bytes =
            37 :: hexDigit (b.toNat / 16) :: hexDigit (b.toNat % 16) :: percentEncode bytes := rfl
        rw [spelled]
        refine ⟨?_, ?_, ?_⟩
        · rw [slicesCharacter_whole (by simp [percentEncode_head]), slicesCharacter_of_ne hiPercent,
            slicesCharacter_of_ne loPercent, whole]
        · rw [plusEscape_of_plusDigit (plusDigit_eq_false (.inl hiPlus) _), plusEscape_of_ne hiPercent,
            plusEscape_of_ne loPercent, noPlus]
        · simp only [GrpcWebnext.Go.percentDecode, GrpcWebnext.Go.unhex, hi, lo, back, reads]

theorem Word.encode_encoded (word : Word) : encode word.encoded = percentEncode (encode word.text) :=
  Utf8.encode_ascii fun _ member => (percentEncode_mem member).1

theorem Word.carries (word : Word) : Carries word.encoded word.text := by
  have free : ∀ {c : Char} {x : UInt8}, Sep c x → x ∉ percentEncode (encode word.text) →
      c ∉ word.encoded := by
    intro c x sep absent inside
    have used := (Spelling.mem_flatMap_iff sep).mpr inside
    exact absent (word.encode_encoded ▸ used)
  obtain ⟨whole, noPlus, reads⟩ := percentEncode_reads (encode word.text)
  rw [← word.encode_encoded] at whole noPlus reads
  refine ⟨?_, free sep_slash ?_, free sep_colon ?_, whole, noPlus, reads⟩
  · intro empty
    rw [empty] at reads
    exact word.nonempty (encode_ne_nil.mp reads.symm)
  · exact fun inside => (percentEncode_mem inside).2.1 rfl
  · exact fun inside => (percentEncode_mem inside).2.2 rfl

theorem Literal.carries {lit : Literal} (unescaped_ : '%' ∉ lit.text) :
    Carries lit.text lit.text := by
  have free : (37 : UInt8) ∉ encode lit.text := fun inside =>
    unescaped_ ((Spelling.mem_flatMap_iff sep_percent).mp inside)
  obtain ⟨whole, noPlus, same⟩ := unescaped free
  exact ⟨lit.nonempty, fun slash => lit.plain '/' slash (by decide),
    fun colon => lit.plain ':' colon (by decide), whole, noPlus, same⟩

end Encoding

/-- No literal among the patterns holds a percent sign. -/
def Unescaped (pats : List Pat) : Prop := ∀ lit, Pat.literal lit ∈ pats → '%' ∉ lit.text

section Fillings
variable {pat : Pat} {pats : List Pat}

theorem Filling.carries (filling : Filling pat) (plain : Unescaped [pat]) :
    ∀ piece ∈ filling.pieces, Carries piece.1 piece.2 := by
  intro piece inside
  cases filling with
  | literal lit =>
      rw [List.mem_singleton.mp inside]
      exact Literal.carries (plain lit (List.mem_singleton_self _))
  | star word =>
      rw [List.mem_singleton.mp inside]
      exact word.carries
  | rest words =>
      obtain ⟨word, _, rfl⟩ := List.mem_map.mp inside
      exact word.carries

theorem Fillings.carries (fillings : Fillings pats) (plain : Unescaped pats) :
    ∀ piece ∈ fillings.pieces, Carries piece.1 piece.2 := by
  induction fillings with
  | nil =>
      intro piece inside
      cases inside
  | @cons pat pats first others ih =>
      intro piece inside
      rcases List.mem_append.mp inside with here | later
      · refine first.carries (fun lit member => plain lit ?_) piece here
        rw [List.mem_singleton.mp member]
        exact List.mem_cons_self
      · exact ih (fun lit member => plain lit (List.mem_cons_of_mem _ member)) piece later

theorem Filling.covers (filling : Filling pat) : Covers [pat] (filling.pieces.map Prod.fst) := by
  cases filling with
  | literal lit => exact .literal .nil
  | star word => exact .star word.encoded .nil
  | rest words =>
      have run := Covers.rest ((words.map fun word => (word.encoded, word.text)).map Prod.fst) .nil
      rwa [List.append_nil] at run

theorem Covers.cons {pat : Pat} {pats : List Pat} {here comps : List Str} (first : Covers [pat] here)
    (others : Covers pats comps) : Covers (pat :: pats) (here ++ comps) := by
  cases first with
  | literal none =>
      cases none
      exact .literal others
  | star comp none =>
      cases none
      exact .star comp others
  | rest run none =>
      cases none
      rw [List.append_nil]
      exact .rest run others

theorem Fillings.covers (fillings : Fillings pats) :
    Covers pats (fillings.pieces.map Prod.fst) := by
  induction fillings with
  | nil => exact .nil
  | cons first others ih =>
      rw [Fillings.pieces, List.map_append]
      exact first.covers.cons ih

/-- The value of a variable over pieces that carry their strings. -/
theorem valueOf_pieces {pieces : List (Str × Str)}
    (carries : ∀ piece ∈ pieces, Carries piece.1 piece.2) :
    valueOf (pieces.map Prod.fst) = some (Text.join '/' (pieces.map Prod.snd)) := by
  have decoded : (pieces.map Prod.fst).mapM percentDecode = some (pieces.map Prod.snd) := by
    induction pieces with
    | nil => rfl
    | cons piece pieces ih =>
        obtain ⟨here, later⟩ := List.forall_mem_cons.mp carries
        simp [List.mapM_cons, here.decoded, ih later]
  rw [valueOf, decoded, Option.map_some]

theorem fields_pieces {pieces : List (Str × Str)}
    (carries : ∀ piece ∈ pieces, Carries piece.1 piece.2) :
    Text.fields '/' (Text.join '/' (pieces.map Prod.fst)) = pieces.map Prod.fst := by
  apply Text.fields_join
  · intro comp inside
    obtain ⟨piece, member, rfl⟩ := List.mem_map.mp inside
    exact (carries piece member).noSlash
  · intro comp inside
    obtain ⟨piece, member, rfl⟩ := List.mem_map.mp inside
    exact (carries piece member).nonempty

theorem Fillings.fields (fillings : Fillings pats) (plain : Unescaped pats) :
    fillings.texts.flatMap (Text.fields '/') = fillings.pieces.map Prod.fst := by
  induction fillings with
  | nil => rfl
  | @cons pat pats first others ih =>
      have here : Unescaped [pat] := fun lit member =>
        plain lit (List.mem_singleton.mp member ▸ List.mem_cons_self)
      rw [Fillings.texts, List.flatMap_cons, Filling.text, fields_pieces (first.carries here),
        ih fun lit member => plain lit (List.mem_cons_of_mem _ member), Fillings.pieces,
        List.map_append]

end Fillings

section Assignments
variable {segs : List TSeg}

theorem Unescaped.left {pats others : List Pat} (plain : Unescaped (pats ++ others)) :
    Unescaped pats := fun lit member => plain lit (List.mem_append_left _ member)

theorem Unescaped.right {pats others : List Pat} (plain : Unescaped (pats ++ others)) :
    Unescaped others := fun lit member => plain lit (List.mem_append_right _ member)

theorem Assignment.carries (a : Assignment segs) (plain : Unescaped (segs.flatMap TSeg.pats)) :
    ∀ comp ∈ a.comps, ∃ text, Carries comp text := by
  induction a with
  | nil =>
      intro comp inside
      cases inside
  | plain here others ih =>
      rw [List.flatMap_cons] at plain
      intro comp inside
      rcases List.mem_append.mp inside with first | later
      · obtain ⟨piece, member, rfl⟩ := List.mem_map.mp first
        exact ⟨piece.2, here.carries plain.left piece member⟩
      · exact ih plain.right comp later
  | var here others ih =>
      rw [List.flatMap_cons] at plain
      intro comp inside
      rcases List.mem_append.mp inside with first | later
      · obtain ⟨piece, member, rfl⟩ := List.mem_map.mp first
        exact ⟨piece.2, here.carries plain.left piece member⟩
      · exact ih plain.right comp later

theorem Assignment.denotes (a : Assignment segs) : Denotes segs a.comps a.runs := by
  induction a with
  | nil => exact .nil
  | plain here others ih => exact .plain here.covers ih
  | var here others ih => exact .var here.covers ih

theorem Assignment.capturesOf_runs (a : Assignment segs)
    (plain : Unescaped (segs.flatMap TSeg.pats)) : capturesOf a.runs = some a.captures := by
  induction a with
  | nil => rfl
  | plain here others ih =>
      rw [List.flatMap_cons] at plain
      exact ih plain.right
  | var here others ih =>
      rw [List.flatMap_cons] at plain
      have value := valueOf_pieces (here.carries plain.left)
      have rest := ih plain.right
      unfold capturesOf at rest ⊢
      simp [Assignment.runs, Assignment.captures, List.mapM_cons, value, rest]

theorem Assignment.fields_path (a : Assignment segs) (plain : Unescaped (segs.flatMap TSeg.pats)) :
    Text.fields '/' a.path = a.comps := by
  rw [Assignment.path, Text.fields_flatMap_cons]
  induction a with
  | nil => rfl
  | plain here others ih =>
      rw [List.flatMap_cons] at plain
      rw [Assignment.texts, List.flatMap_cons, Filling.text, fields_pieces (here.carries plain.left),
        ih plain.right, Assignment.comps]
  | var here others ih =>
      rw [List.flatMap_cons] at plain
      rw [Assignment.texts, List.flatMap_cons, Text.fields_join_flatMap, here.fields plain.left,
        ih plain.right, Assignment.comps]

theorem Filling.pieces_ne_nil {pat : Pat} {filling : Filling pat} (whole : filling.whole = true) :
    filling.pieces ≠ [] := by
  cases filling with
  | literal lit => exact List.cons_ne_nil _ _
  | star word => exact List.cons_ne_nil _ _
  | rest words =>
      cases words with
      | nil => cases whole
      | cons word words => exact List.cons_ne_nil _ _

theorem Filling.text_whole {pat : Pat} {filling : Filling pat} (whole : filling.whole = true) :
    '/' :: filling.text = (filling.pieces.map Prod.fst).flatMap ('/' :: ·) :=
  Text.cons_join '/' fun empty => Filling.pieces_ne_nil whole (List.map_eq_nil_iff.mp empty)

theorem Fillings.texts_whole {pats : List Pat} {fillings : Fillings pats}
    (whole : fillings.whole = true) :
    fillings.texts.flatMap ('/' :: ·) = (fillings.pieces.map Prod.fst).flatMap ('/' :: ·) := by
  induction fillings with
  | nil => rfl
  | cons first others ih =>
      rw [Fillings.whole, Bool.and_eq_true] at whole
      rw [Fillings.texts, List.flatMap_cons, Filling.text_whole whole.1, ih whole.2, Fillings.pieces,
        List.map_append, List.flatMap_append]

theorem Fillings.texts_ne_nil {pats : List Pat} (fillings : Fillings pats) (some : pats ≠ []) :
    fillings.texts ≠ [] := by
  cases fillings with
  | nil => exact absurd rfl some
  | cons first others => exact List.cons_ne_nil _ _

/-- Where every `**` stands for something, the path is its components. -/
theorem Assignment.path_whole {a : Assignment segs} (whole : a.whole = true)
    (filled : ∀ seg ∈ segs, seg.pats ≠ []) : a.path = a.comps.flatMap ('/' :: ·) := by
  rw [Assignment.path]
  induction a with
  | nil => rfl
  | plain here others ih =>
      rw [Assignment.whole, Bool.and_eq_true] at whole
      rw [Assignment.texts, List.flatMap_cons, Filling.text_whole whole.1,
        ih whole.2 (List.forall_mem_cons.mp filled).2, Assignment.comps, List.flatMap_append]
  | var here others ih =>
      rw [Assignment.whole, Bool.and_eq_true] at whole
      obtain ⟨some, later⟩ := List.forall_mem_cons.mp filled
      rw [Assignment.texts, List.flatMap_cons, Text.cons_join '/' (here.texts_ne_nil some),
        Fillings.texts_whole whole.1, ih whole.2 later, Assignment.comps, List.flatMap_append]

/-- Such a path has a component. -/
theorem Assignment.comps_ne_nil {a : Assignment segs} (whole : a.whole = true) (some : segs ≠ [])
    (filled : ∀ seg ∈ segs, seg.pats ≠ []) : a.comps ≠ [] := by
  have first : ∀ {pieces : List (Str × Str)} {behind : List Str}, pieces ≠ [] →
      pieces.map Prod.fst ++ behind ≠ [] := by
    intro pieces behind nonempty none
    exact nonempty (List.map_eq_nil_iff.mp (List.append_eq_nil_iff.mp none).1)
  cases a with
  | nil => exact absurd rfl some
  | plain here others =>
      rw [Assignment.whole, Bool.and_eq_true] at whole
      exact first (Filling.pieces_ne_nil whole.1)
  | @var field sub segs here others =>
      rw [Assignment.whole, Bool.and_eq_true] at whole
      apply first
      have nonempty : sub.getD [.star] ≠ [] := (List.forall_mem_cons.mp filled).1
      generalize sub.getD [.star] = pats at here whole nonempty
      cases here with
      | nil => exact absurd rfl nonempty
      | cons filling fillings =>
          rw [Fillings.whole, Bool.and_eq_true] at whole
          intro none
          exact Filling.pieces_ne_nil whole.1.1 (List.append_eq_nil_iff.mp none).1

theorem Filling.open_eq {pat : Pat} {filling : Filling pat} (opened : filling.whole = false) :
    pat = .rest ∧ filling.text = [] := by
  cases filling with
  | literal lit => cases opened
  | star word => cases opened
  | rest words =>
      cases words with
      | nil => exact ⟨rfl, rfl⟩
      | cons word words => cases opened

theorem Fillings.rest_mem {pats : List Pat} {fillings : Fillings pats}
    (opened : fillings.whole = false) : Pat.rest ∈ pats := by
  induction fillings with
  | nil => cases opened
  | cons first others ih =>
      rcases Bool.and_eq_false_iff.mp opened with here | later
      · rw [(Filling.open_eq here).1]
        exact List.mem_cons_self
      · exact List.mem_cons_of_mem _ (ih later)

/-- A `**` of no strings leaves a slash at the end. -/
theorem Fillings.texts_open {pats : List Pat} {fillings : Fillings pats} (last : RestLast pats)
    (opened : fillings.whole = false) :
    ∃ front, fillings.texts.flatMap ('/' :: ·) = front ++ ['/'] := by
  induction fillings with
  | nil => cases opened
  | @cons pat pats first others ih =>
      rcases Bool.and_eq_false_iff.mp opened with here | later
      · obtain ⟨rfl, empty⟩ := Filling.open_eq here
        have none : pats = [] := last [] pats rfl
        subst none
        cases others
        exact ⟨[], by rw [Fillings.texts, empty]; rfl⟩
      · obtain ⟨front, ends⟩ := ih last.tail later
        exact ⟨'/' :: first.text ++ front, by
          rw [Fillings.texts, List.flatMap_cons, ends, List.append_assoc]⟩

theorem segs_eq_nil (filled : ∀ seg ∈ segs, seg.pats ≠ []) (none : segs.flatMap TSeg.pats = []) :
    segs = [] := by
  cases segs with
  | nil => rfl
  | cons seg segs =>
      rw [List.flatMap_cons, List.append_eq_nil_iff] at none
      exact absurd none.1 (filled seg List.mem_cons_self)

theorem Assignment.path_open {a : Assignment segs} (last : RestLast (segs.flatMap TSeg.pats))
    (filled : ∀ seg ∈ segs, seg.pats ≠ []) (opened : a.whole = false) :
    ∃ front, a.path = front ++ ['/'] := by
  rw [Assignment.path]
  induction a with
  | nil => cases opened
  | @plain pat segs here others ih =>
      rw [List.flatMap_cons] at last
      obtain ⟨_, later⟩ := List.forall_mem_cons.mp filled
      rcases Bool.and_eq_false_iff.mp opened with first | behind
      · obtain ⟨rfl, empty⟩ := Filling.open_eq first
        have none : segs = [] := segs_eq_nil later (last.behind (List.mem_singleton_self _))
        subst none
        cases others
        exact ⟨[], by rw [Assignment.texts, empty]; rfl⟩
      · obtain ⟨front, ends⟩ := ih last.of_append later behind
        exact ⟨'/' :: here.text ++ front, by
          rw [Assignment.texts, List.flatMap_cons, ends, List.append_assoc]⟩
  | @var field sub segs here others ih =>
      rw [List.flatMap_cons] at last
      obtain ⟨some, later⟩ := List.forall_mem_cons.mp filled
      rcases Bool.and_eq_false_iff.mp opened with first | behind
      · have none : segs = [] := segs_eq_nil later (last.behind (Fillings.rest_mem first))
        subst none
        cases others
        have inside : RestLast (sub.getD [.star]) := last.left
        obtain ⟨front, ends⟩ := Fillings.texts_open inside first
        refine ⟨front, ?_⟩
        rw [Assignment.texts, List.flatMap_cons, Text.cons_join '/' (here.texts_ne_nil some), ends]
        exact List.append_nil _
      · obtain ⟨front, ends⟩ := ih last.of_append later behind
        exact ⟨'/' :: Text.join '/' here.texts ++ front, by
          rw [Assignment.texts, List.flatMap_cons, ends, List.append_assoc]⟩

end Assignments

section Splitting

theorem splitFrom_free {sep : Char} {s : Str} (free : sep ∉ s) (depth : Nat) :
    splitFrom sep depth s = [s] := by
  induction s generalizing depth with
  | nil => rfl
  | cons c s ih =>
      obtain ⟨other, later⟩ := List.ne_and_not_mem_of_not_mem_cons free
      have noCut : ¬ (c = sep ∧ depth = 0) := fun both => other both.1.symm
      simp only [splitFrom, noCut, if_false, ih later, List.modifyHead_cons]
      split
      · rfl
      · split <;> rfl

theorem Written.parseTemplate_text (t : Written) :
    parseTemplate t.text = (t.segs.map TSeg.segment, t.verb.getD []) := by
  have colons : ∃ behind, splitOutsideBraces t.text ':' = pathText t.segs :: behind ∧
      Text.join ':' behind = t.verb.getD [] := by
    unfold Written.text splitOutsideBraces
    cases shown : t.verb with
    | none =>
        refine ⟨[], ?_, rfl⟩
        simpa [verbSuffix] using splitFrom_plain (pathText_solid t.segs)
    | some text =>
        refine ⟨[text], ?_, List.intercalate_singleton⟩
        rw [verbSuffix, splitFrom_sep (by decide) (by decide) (pathText_solid t.segs),
          splitFrom_free (t.verbPlain text shown).2]
  obtain ⟨behind, split, verb⟩ := colons
  simp only [parseTemplate, split, List.headD_cons, List.tail_cons, parse_pathText, verb]

theorem splitVerb_bare {comps : List Str} (carries : ∀ comp ∈ comps, ∃ text, Carries comp text) :
    SplitVerb comps comps [] := by
  rcases List.eq_nil_or_concat comps with rfl | ⟨init, last, rfl⟩
  · exact .empty
  · rw [List.concat_eq_append] at carries ⊢
    obtain ⟨text, carried⟩ := carries last (List.mem_append_right _ (List.mem_singleton_self _))
    exact .bare carried.noColon

/-- The verb behind the last component is cut off it again. -/
theorem splitVerb_spelled {comps : List Str} (carries : ∀ comp ∈ comps, ∃ text, Carries comp text)
    (nonempty : comps ≠ []) {verb : Option Str} (noSlash : ∀ text, verb = some text → '/' ∉ text) :
    SplitVerb (Text.fields '/' (comps.flatMap ('/' :: ·) ++ verbSuffix verb)) comps
      (verb.getD []) := by
  have each : ∀ pieces : List Str, (∀ piece ∈ pieces, '/' ∉ piece ∧ piece ≠ []) →
      Text.fields '/' (pieces.flatMap ('/' :: ·)) = pieces := by
    intro pieces plain
    rw [Text.fields_flatMap_cons]
    induction pieces with
    | nil => rfl
    | cons piece pieces ih =>
        obtain ⟨here, later⟩ := List.forall_mem_cons.mp plain
        rw [List.flatMap_cons, Text.fields_self here.1 here.2, ih later, List.singleton_append]
  have plain : ∀ comp ∈ comps, '/' ∉ comp ∧ comp ≠ [] := by
    intro comp inside
    obtain ⟨text, carried⟩ := carries comp inside
    exact ⟨carried.noSlash, carried.nonempty⟩
  cases verb with
  | none =>
      rw [verbSuffix, List.append_nil, each comps plain]
      exact splitVerb_bare carries
  | some verb =>
      rcases List.eq_nil_or_concat comps with rfl | ⟨init, last, rfl⟩
      · exact absurd rfl nonempty
      · rw [List.concat_eq_append] at carries plain ⊢
        have final : last ∈ init ++ [last] := List.mem_append_right _ (List.mem_singleton_self _)
        obtain ⟨text, carried⟩ := carries last final
        have joined : (init ++ [last]).flatMap ('/' :: ·) ++ verbSuffix (some verb) =
            (init ++ [last ++ ':' :: verb]).flatMap ('/' :: ·) := by
          simp [verbSuffix, List.flatMap_append]
        rw [joined, each]
        · exact .verb carried.noColon carried.nonempty
        · intro piece inside
          rcases List.mem_append.mp inside with before | here
          · exact plain piece (List.mem_append_left _ before)
          · rw [List.mem_singleton.mp here]
            refine ⟨?_, by simp⟩
            simp [carried.noSlash, noSlash verb rfl]

end Splitting

section Matching
variable {t : Written} {path : Str}

theorem Written.go_parseTemplate (t : Written) : Go.parseTemplate (encode t.text) =
    ((t.segs.map TSeg.segment).map Segment.spelled, encode (t.verb.getD [])) := by
  rw [parseTemplate_encode, t.parseTemplate_text]

/-- A path with the components of an assignment and the verb is read back by both matchers. -/
theorem Written.readsBack (a : Assignment t.segs)
    (split : SplitVerb (Text.fields '/' path) a.comps (t.verb.getD [])) :
    ReadsBack t path a.captures := by
  have cut := stripVerb_iff.mpr split
  have carries := a.carries t.unescaped
  have rust : matchSegments (t.segs.map TSeg.segment) (t.verb.getD []) path = .hit a.captures := by
    rw [matchSegments_eq, cut]
    have decodable : Decodable t.segs a.comps := by
      intro before field sub after _ front here behind vars whole _ _ comp inside undecoded
      have member : comp ∈ a.comps := by
        rw [whole]
        exact List.mem_append_left _ (List.mem_append_right _ inside)
      obtain ⟨text, carried⟩ := carries comp member
      rw [carried.decoded] at undecoded
      cases undecoded
    rcases walk_complete a.denotes t.restLast with panics | ⟨found, walked, captures⟩
    · exact absurd decodable (walk_panic panics)
    · have same : a.captures = found :=
        Option.some.inj ((a.capturesOf_runs t.unescaped).symm.trans captures)
      simp only [walked, Outcome.bind, if_true, same]
  refine ⟨by rw [t.parseTemplate_text]; exact rust, ?_⟩
  have alike : ReadsAlike (t.segs.map TSeg.segment) (t.verb.getD []) path := by
    intro parts stripped
    rw [Text.fields_trimMatches, cut] at stripped
    cases stripped
    have member := takeList_mem (t.segs.map TSeg.segment) a.comps 0
    constructor
    · intro taken inside comp within
      obtain ⟨text, carried⟩ := carries comp (member taken inside comp within)
      exact carried.whole
    · intro _ taken inside comp within
      obtain ⟨text, carried⟩ := carries comp (member taken inside comp within)
      exact carried.legible
  have agrees := (matchers_agree_iff _ _ _).mpr alike
  rw [rust] at agrees
  rw [t.go_parseTemplate]
  exact agrees

theorem Written.refused (cut : stripVerb (t.verb.getD []) (Text.fields '/' path) = none) :
    Refused t path := by
  have rust : matchSegments (t.segs.map TSeg.segment) (t.verb.getD []) path = .miss := by
    rw [matchSegments_eq, cut]
  have alike : ReadsAlike (t.segs.map TSeg.segment) (t.verb.getD []) path := by
    intro parts stripped
    rw [Text.fields_trimMatches, cut] at stripped
    cases stripped
  have agrees := (matchers_agree_iff _ _ _).mpr alike
  rw [rust] at agrees
  refine ⟨by rw [t.parseTemplate_text]; exact rust, ?_⟩
  rw [t.go_parseTemplate]
  exact agrees

/-- A colon right behind a slash is no verb. -/
theorem Written.refused_open (front text : Str) (shown : t.verb = some text) :
    Refused t (front ++ ['/'] ++ verbSuffix t.verb) := by
  apply Written.refused
  have noSlash : '/' ∉ ':' :: text := by
    simp [(t.verbPlain text shown).1]
  rw [shown, verbSuffix, List.append_assoc, List.singleton_append, Text.fields_append_cons,
    Text.fields_self noSlash (List.cons_ne_nil _ _)]
  simp [stripVerb, Text.splitOnce]

end Matching

/-- A template with its wildcards replaced by encoded strings is matched, and gives the
strings back, but where a verb would follow a `**` that stands for none: then the path ends
in a slash and the verb, and no matcher takes that. Without the slash it is matched if a
component is left. -/
theorem expansion_reads_back (t : Written) (a : Assignment t.segs) :
    (t.verb = none ∨ a.whole = true → ReadsBack t (a.path ++ verbSuffix t.verb) a.captures) ∧
      (¬ (t.verb = none ∨ a.whole = true) → Refused t (a.path ++ verbSuffix t.verb)) ∧
      (a.comps ≠ [] →
        ReadsBack t (a.comps.flatMap ('/' :: ·) ++ verbSuffix t.verb) a.captures) := by
  have noSlash : ∀ text, t.verb = some text → '/' ∉ text := fun text shown =>
    (t.verbPlain text shown).1
  have carries := a.carries t.unescaped
  have spelled : a.comps ≠ [] →
      ReadsBack t (a.comps.flatMap ('/' :: ·) ++ verbSuffix t.verb) a.captures :=
    fun some => t.readsBack a (splitVerb_spelled carries some noSlash)
  refine ⟨?_, ?_, spelled⟩
  · intro closed
    cases shown : t.verb with
    | none =>
        apply t.readsBack a
        rw [shown, verbSuffix, List.append_nil, a.fields_path t.unescaped]
        exact splitVerb_bare carries
    | some text =>
        have whole : a.whole = true := closed.resolve_left (by rw [shown]; exact Option.some_ne_none _)
        rw [Assignment.path_whole whole t.filled]
        rw [shown] at spelled
        exact spelled (Assignment.comps_ne_nil whole t.nonempty t.filled)
  · intro opened
    rw [not_or, Bool.not_eq_true] at opened
    obtain ⟨front, ends⟩ := Assignment.path_open t.restLast t.filled opened.2
    obtain ⟨text, shown⟩ := Option.ne_none_iff_exists'.mp opened.1
    rw [ends]
    exact Written.refused_open front text shown

/-- The template `/**:cancel`. -/
def cancelAll : Written where
  segs := [.plain .rest]
  verb := some "cancel".toList
  restLast := by
    intro before after same
    cases before with
    | nil => exact (List.cons.inj same).2.symm
    | cons pat before => simp [TSeg.pats] at same
  nonempty := List.cons_ne_nil _ _
  filled := by simp [TSeg.pats]
  unescaped := by simp [TSeg.pats]
  verbPlain := by
    rintro text same
    cases same
    decide

/-- With no string for the `**`, the path `/:cancel` is refused by both matchers. -/
theorem verb_alone_refused :
    (Assignment.plain (.rest []) .nil : Assignment cancelAll.segs).path ++
        verbSuffix cancelAll.verb = "/:cancel".toList ∧
      Refused cancelAll "/:cancel".toList ∧
      ¬ ReadsBack cancelAll "/:cancel".toList
        (Assignment.plain (.rest []) .nil : Assignment cancelAll.segs).captures := by
  have text : cancelAll.text = "/**:cancel".toList := by decide
  have refused : Refused cancelAll "/:cancel".toList := by
    unfold Refused
    rw [text]
    constructor
    · decide +kernel
    · decide +kernel
  refine ⟨by decide, refused, ?_⟩
  rintro ⟨matched, _⟩
  rw [refused.1] at matched
  cases matched

end GrpcWebnext.HttpRule
