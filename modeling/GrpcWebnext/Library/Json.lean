import Mathlib.Data.Char
import Mathlib.Data.List.Lex
import GrpcWebnext.Library.OrderedMap
import GrpcWebnext.Library.Text

/-! JSON texts up to whitespace, the values they stand for, and what becomes of a text
that is read into a tree of ordered maps and written back. -/
namespace Json
open Text (Str)

/-- What a string is made of: characters, and surrogates that have lost their pair. -/
inductive CodeUnit where
  | char (c : Char)
  | lone (code : Nat)
  deriving DecidableEq

/-- One character of a string literal with its spelling, an escape or the character. -/
structure Piece where
  spelling : Str
  unit : CodeUnit
  deriving DecidableEq

abbrev Literal := List Piece

def Literal.units (literal : Literal) : List CodeUnit := literal.map Piece.unit

/-- The text of a literal, if all its surrogates are paired. -/
def Literal.text (literal : Literal) : Option Str :=
  literal.mapM fun piece => match piece.unit with
    | .char c => some c
    | .lone _ => none

/-- The text with a replacement character for each unpaired surrogate. -/
def Literal.lossy (literal : Literal) : Str :=
  literal.map fun piece => match piece.unit with
    | .char c => c
    | .lone _ => Char.ofNat 0xFFFD

/-- A JSON text up to whitespace. -/
inductive Tree where
  | null
  | bool (b : Bool)
  | number (spelling : Str)
  | string (literal : Literal)
  | array (items : List Tree)
  | object (fields : List (Literal × Tree))

/-- A JSON value: objects are maps. -/
inductive Value (N : Type) where
  | null
  | bool (b : Bool)
  | number (n : N)
  | string (units : List CodeUnit)
  | array (items : List (Value N))
  | object (member : List CodeUnit → Option (Value N))

mutual

def Tree.depth : Tree → Nat
  | .array items => depthItems items + 1
  | .object fields => depthFields fields + 1
  | _ => 0
termination_by structural t => t

def depthItems : List Tree → Nat
  | [] => 0
  | item :: rest => max item.depth (depthItems rest)
termination_by structural items => items

def depthFields : List (Literal × Tree) → Nat
  | [] => 0
  | (_, value) :: rest => max value.depth (depthFields rest)
termination_by structural fields => fields

end

mutual

/-- The numerals of a text. -/
def Tree.numerals : Tree → List Str
  | .number spelling => [spelling]
  | .array items => numeralsItems items
  | .object fields => numeralsFields fields
  | _ => []
termination_by structural t => t

def numeralsItems : List Tree → List Str
  | [] => []
  | item :: rest => item.numerals ++ numeralsItems rest
termination_by structural items => items

def numeralsFields : List (Literal × Tree) → List Str
  | [] => []
  | (_, value) :: rest => value.numerals ++ numeralsFields rest
termination_by structural fields => fields

end

mutual

/-- The string literals of a text, the keys of its objects among them. -/
def Tree.literals : Tree → List Literal
  | .string literal => [literal]
  | .array items => literalsItems items
  | .object fields => literalsFields fields
  | _ => []
termination_by structural t => t

def literalsItems : List Tree → List Literal
  | [] => []
  | item :: rest => item.literals ++ literalsItems rest
termination_by structural items => items

def literalsFields : List (Literal × Tree) → List Literal
  | [] => []
  | (key, value) :: rest => key :: value.literals ++ literalsFields rest
termination_by structural fields => fields

end

section Values
variable {N : Type} (read : Str → Value N)

mutual

/-- The value of a text, its numerals read as they are by one reader. Of fields with the
same name the last one counts. -/
def Tree.value : Tree → Value N
  | .null => .null
  | .bool b => .bool b
  | .number spelling => read spelling
  | .string literal => .string literal.units
  | .array items => .array (valueItems items)
  | .object fields => .object (valueFields fields)
termination_by structural t => t

def valueItems : List Tree → List (Value N)
  | [] => []
  | item :: rest => item.value :: valueItems rest
termination_by structural items => items

def valueFields : List (Literal × Tree) → List CodeUnit → Option (Value N)
  | [], _ => none
  | (key, value) :: rest, name =>
      (valueFields rest name).or (if key.units = name then some value.value else none)
termination_by structural fields => fields

end

end Values

/-- The last field of a name. -/
def memberOf (name : Str) : List (Literal × Tree) → Option Tree
  | [] => none
  | (key, value) :: rest =>
      (memberOf name rest).or (if key.units = name.map .char then some value else none)

def Literal.spell (literal : Literal) : Str := '"' :: literal.flatMap Piece.spelling ++ ['"']

mutual

/-- The text without whitespace. -/
def Tree.spell : Tree → Str
  | .null => "null".toList
  | .bool b => (if b then "true" else "false").toList
  | .number spelling => spelling
  | .string literal => literal.spell
  | .array items => '[' :: spellItems items ++ [']']
  | .object fields => '\x7b' :: spellFields fields ++ ['\x7d']
termination_by structural t => t

def spellItems : List Tree → Str
  | [] => []
  | item :: rest => item.spell ++ if rest.isEmpty then [] else ',' :: spellItems rest
termination_by structural items => items

def spellFields : List (Literal × Tree) → Str
  | [] => []
  | (key, value) :: rest =>
      key.spell ++ ':' :: value.spell ++ if rest.isEmpty then [] else ',' :: spellFields rest
termination_by structural fields => fields

end

mutual

/-- No object of the text has a name twice. -/
def Tree.Distinct : Tree → Prop
  | .array items => DistinctItems items
  | .object fields => (fields.map fun field => field.1.units).Nodup ∧ DistinctFields fields
  | _ => True
termination_by structural t => t

def DistinctItems : List Tree → Prop
  | [] => True
  | item :: rest => item.Distinct ∧ DistinctItems rest
termination_by structural items => items

def DistinctFields : List (Literal × Tree) → Prop
  | [] => True
  | (_, value) :: rest => value.Distinct ∧ DistinctFields rest
termination_by structural fields => fields

end

section Readers
variable {N : Type} {f g : Str → Value N}

theorem valueFields_name (fields : List (Literal × Tree)) (name : Str) :
    valueFields f fields (name.map .char) = (memberOf name fields).map (Tree.value f) := by
  induction fields with
  | nil => rfl
  | cons field rest ih =>
      obtain ⟨key, value⟩ := field
      rw [valueFields, ih, memberOf]
      cases memberOf name rest with
      | some found => rfl
      | none =>
          simp only [Option.map_none, Option.none_or]
          split <;> rfl

theorem memberOf_mem {fields : List (Literal × Tree)} {name : Str} {value : Tree}
    (found : memberOf name fields = some value) : ∃ key, (key, value) ∈ fields := by
  induction fields with
  | nil => cases found
  | cons field rest ih =>
      obtain ⟨key, first⟩ := field
      rcases Option.or_eq_some_iff.mp found with later | ⟨_, here⟩
      · obtain ⟨other, member⟩ := ih later
        exact ⟨other, List.mem_cons_of_mem _ member⟩
      · obtain ⟨_, same⟩ := Option.ite_none_right_eq_some.mp here
        cases same
        exact ⟨key, List.mem_cons_self⟩

theorem DistinctFields.mem {fields : List (Literal × Tree)} (distinct : DistinctFields fields)
    {key : Literal} {value : Tree} (member : (key, value) ∈ fields) : value.Distinct := by
  induction fields with
  | nil => cases member
  | cons field rest ih =>
      rcases List.mem_cons.mp member with rfl | later
      · exact distinct.1
      · exact ih distinct.2 later

theorem valueFields_none {fields : List (Literal × Tree)} {name : List CodeUnit}
    (absent : name ∉ fields.map fun field => field.1.units) : valueFields f fields name = none := by
  induction fields with
  | nil => rfl
  | cons field rest ih =>
      obtain ⟨key, value⟩ := field
      rw [List.map_cons, List.mem_cons, not_or] at absent
      rw [valueFields, ih absent.2, if_neg (Ne.symm absent.1)]
      rfl

mutual

/-- Two readers give a text the same value if and only if they read its numerals alike. -/
theorem value_eq_iff : ∀ (t : Tree), t.Distinct →
    (t.value f = t.value g ↔ ∀ s ∈ t.numerals, f s = g s)
  | .null, _ => by simp [Tree.value, Tree.numerals]
  | .bool b, _ => by simp [Tree.value, Tree.numerals]
  | .number spelling, _ => by simp [Tree.value, Tree.numerals]
  | .string literal, _ => by simp [Tree.value, Tree.numerals]
  | .array items, distinct => by
      rw [Tree.value, Tree.value, Value.array.injEq, Tree.numerals]
      exact valueItems_eq_iff items distinct
  | .object fields, distinct => by
      rw [Tree.value, Tree.value, Value.object.injEq, Tree.numerals]
      exact valueFields_eq_iff fields distinct.1 distinct.2

theorem valueItems_eq_iff : ∀ (items : List Tree), DistinctItems items →
    (valueItems f items = valueItems g items ↔ ∀ s ∈ numeralsItems items, f s = g s)
  | [], _ => by simp [valueItems, numeralsItems]
  | item :: rest, distinct => by
      rw [valueItems, valueItems, List.cons.injEq, numeralsItems, List.forall_mem_append,
        value_eq_iff item distinct.1, valueItems_eq_iff rest distinct.2]

theorem valueFields_eq_iff : ∀ (fields : List (Literal × Tree)),
    (fields.map fun field => field.1.units).Nodup → DistinctFields fields →
    (valueFields f fields = valueFields g fields ↔ ∀ s ∈ numeralsFields fields, f s = g s)
  | [], _, _ => by simp [valueFields, numeralsFields]
  | (key, value) :: rest, names, distinct => by
      rw [List.map_cons, List.nodup_cons] at names
      rw [numeralsFields, List.forall_mem_append, ← value_eq_iff value distinct.1,
        ← valueFields_eq_iff rest names.2 distinct.2]
      constructor
      · intro same
        constructor
        · have here := congrFun same key.units
          simpa [valueFields, valueFields_none names.1] using here
        · funext name
          have there := congrFun same name
          by_cases first : key.units = name
          · rw [← first, valueFields_none names.1, valueFields_none names.1]
          · simpa [valueFields, first] using there
      · rintro ⟨here, there⟩
        funext name
        rw [valueFields, valueFields, here, there]

end

end Readers

section Respelling
variable (f : Piece → Piece)

mutual

/-- The same text with its characters in another spelling. -/
def Tree.respell : Tree → Tree
  | .string literal => .string (literal.map f)
  | .array items => .array (respellItems items)
  | .object fields => .object (respellFields fields)
  | .null => .null
  | .bool b => .bool b
  | .number spelling => .number spelling
termination_by structural t => t

def respellItems : List Tree → List Tree
  | [] => []
  | item :: rest => item.respell :: respellItems rest
termination_by structural items => items

def respellFields : List (Literal × Tree) → List (Literal × Tree)
  | [] => []
  | (key, value) :: rest => (key.map f, value.respell) :: respellFields rest
termination_by structural fields => fields

end

variable {f} {N : Type} {read : Str → Value N}

theorem units_respell (kept : ∀ piece, (f piece).unit = piece.unit) (literal : Literal) :
    Literal.units (literal.map f) = literal.units := by
  simp [Literal.units, Function.comp_def, kept]

mutual

theorem value_respell (kept : ∀ piece, (f piece).unit = piece.unit) : ∀ (t : Tree),
    (t.respell f).value read = t.value read
  | .null => rfl
  | .bool b => rfl
  | .number spelling => rfl
  | .string literal => by rw [Tree.respell, Tree.value, Tree.value, units_respell kept]
  | .array items => by rw [Tree.respell, Tree.value, Tree.value, valueItems_respell kept items]
  | .object fields => by rw [Tree.respell, Tree.value, Tree.value, valueFields_respell kept fields]

theorem valueItems_respell (kept : ∀ piece, (f piece).unit = piece.unit) : ∀ (items : List Tree),
    valueItems read (respellItems f items) = valueItems read items
  | [] => rfl
  | item :: rest => by
      rw [respellItems, valueItems, valueItems, value_respell kept item, valueItems_respell kept rest]

theorem valueFields_respell (kept : ∀ piece, (f piece).unit = piece.unit) :
    ∀ (fields : List (Literal × Tree)),
    valueFields read (respellFields f fields) = valueFields read fields
  | [] => rfl
  | (key, value) :: rest => by
      funext name
      rw [respellFields, valueFields, valueFields, units_respell kept, value_respell kept value,
        valueFields_respell kept rest]

end

end Respelling

section Rewriting
variable (reread : Str → Option Str) (written : Char → Str)

def writeChar (c : Char) : Piece := ⟨written c, .char c⟩

def write (text : Str) : Literal := text.map (writeChar written)

mutual

/-- A text read into a tree of ordered maps and written back: `reread` is a numeral read
as a number and written, and `written` the spelling of a character. -/
def Tree.rewrite : Tree → Option Tree
  | .null => some .null
  | .bool b => some (.bool b)
  | .number spelling => (reread spelling).map .number
  | .string literal => literal.text.map fun text => .string (write written text)
  | .array items => (rewriteItems items).map .array
  | .object fields => (rewriteFields fields).map fun entries =>
      .object ((OrderedMap.ofList entries).map fun entry => (write written entry.1, entry.2))
termination_by structural t => t

def rewriteItems : List Tree → Option (List Tree)
  | [] => some []
  | item :: rest => item.rewrite.bind fun item => (rewriteItems rest).map (item :: ·)
termination_by structural items => items

def rewriteFields : List (Literal × Tree) → Option (List (Str × Tree))
  | [] => some []
  | (key, value) :: rest =>
      key.text.bind fun name => value.rewrite.bind fun value =>
        (rewriteFields rest).map ((name, value) :: ·)
termination_by structural fields => fields

end

variable {reread written}

theorem text_cons {piece : Piece} {rest : Literal} {text : Str}
    (read : Literal.text (piece :: rest) = some text) :
    ∃ c tail, piece.unit = .char c ∧ rest.text = some tail ∧ text = c :: tail := by
  obtain ⟨spelling, unit⟩ := piece
  cases unit with
  | lone code => cases read
  | char c =>
      simp only [Literal.text, List.mapM_cons, Option.pure_def, Option.bind_eq_bind,
        Option.bind_some, Option.bind_eq_some_iff] at read
      obtain ⟨tail, later, same⟩ := read
      exact ⟨c, tail, rfl, later, (Option.some.inj same).symm⟩

theorem units_of_text {literal : Literal} {text : Str} (read : literal.text = some text) :
    literal.units = text.map .char := by
  induction literal generalizing text with
  | nil =>
      cases read
      rfl
  | cons piece rest ih =>
      obtain ⟨c, tail, char, later, rfl⟩ := text_cons read
      rw [Literal.units, List.map_cons, ← Literal.units, ih later, char, List.map_cons]

theorem lossy_of_text {literal : Literal} {text : Str} (read : literal.text = some text) :
    literal.lossy = text := by
  induction literal generalizing text with
  | nil =>
      cases read
      rfl
  | cons piece rest ih =>
      obtain ⟨c, tail, char, later, rfl⟩ := text_cons read
      rw [Literal.lossy, List.map_cons, ← Literal.lossy, ih later, char]

@[simp] theorem write_units (text : Str) : (write written text).units = text.map .char := by
  simp [write, writeChar, Literal.units]

@[simp] theorem write_text (text : Str) : (write written text).text = some text := by
  induction text with
  | nil => rfl
  | cons c rest ih =>
      simp only [write, Literal.text] at ih
      simp [write, writeChar, Literal.text, List.mapM_cons, ih]

mutual

theorem rewrite_isSome : ∀ (t : Tree), (t.rewrite reread written).isSome = true ↔
    (∀ s ∈ t.numerals, (reread s).isSome = true) ∧ ∀ l ∈ t.literals, l.text.isSome = true
  | .null => by simp [Tree.rewrite, Tree.numerals, Tree.literals]
  | .bool b => by simp [Tree.rewrite, Tree.numerals, Tree.literals]
  | .number spelling => by simp [Tree.rewrite, Tree.numerals, Tree.literals]
  | .string literal => by simp [Tree.rewrite, Tree.numerals, Tree.literals]
  | .array items => by
      rw [Tree.rewrite, Option.isSome_map, Tree.numerals, Tree.literals]
      exact rewriteItems_isSome items
  | .object fields => by
      rw [Tree.rewrite, Option.isSome_map, Tree.numerals, Tree.literals]
      exact rewriteFields_isSome fields

theorem rewriteItems_isSome : ∀ (items : List Tree), (rewriteItems reread written items).isSome = true ↔
    (∀ s ∈ numeralsItems items, (reread s).isSome = true) ∧
      ∀ l ∈ literalsItems items, l.text.isSome = true
  | [] => by simp [rewriteItems, numeralsItems, literalsItems]
  | item :: rest => by
      have here := rewrite_isSome item
      have later := rewriteItems_isSome rest
      rw [numeralsItems, literalsItems, List.forall_mem_append, List.forall_mem_append,
        and_and_and_comm, ← here, ← later, rewriteItems]
      cases item.rewrite reread written <;> simp

theorem rewriteFields_isSome : ∀ (fields : List (Literal × Tree)),
    (rewriteFields reread written fields).isSome = true ↔
      (∀ s ∈ numeralsFields fields, (reread s).isSome = true) ∧
        ∀ l ∈ literalsFields fields, l.text.isSome = true
  | [] => by simp [rewriteFields, numeralsFields, literalsFields]
  | (key, value) :: rest => by
      have here := rewrite_isSome value
      have later := rewriteFields_isSome rest
      rw [numeralsFields, literalsFields, List.forall_mem_append, List.cons_append,
        List.forall_mem_cons, List.forall_mem_append, and_left_comm, and_and_and_comm, ← here, ← later,
        rewriteFields]
      cases key.text <;> cases value.rewrite reread written <;> simp

end

theorem rewriteItems_cons {item : Tree} {rest items' : List Tree} :
    rewriteItems reread written (item :: rest) = some items' ↔
      ∃ item', item.rewrite reread written = some item' ∧
        ∃ rest', rewriteItems reread written rest = some rest' ∧ item' :: rest' = items' := by
  simp only [rewriteItems, Option.bind_eq_some_iff, Option.map_eq_some_iff]

theorem rewriteFields_cons {key : Literal} {value : Tree} {rest : List (Literal × Tree)}
    {entries : List (Str × Tree)} :
    rewriteFields reread written ((key, value) :: rest) = some entries ↔
      ∃ name, key.text = some name ∧ ∃ value', value.rewrite reread written = some value' ∧
        ∃ rest', rewriteFields reread written rest = some rest' ∧ (name, value') :: rest' = entries := by
  simp only [rewriteFields, Option.bind_eq_some_iff, Option.map_eq_some_iff]

def toFields (written : Char → Str) (entries : List (Str × Tree)) : List (Literal × Tree) :=
  entries.map fun entry => (write written entry.1, entry.2)

theorem units_injective {s t : Str} (same : s.map CodeUnit.char = t.map CodeUnit.char) : s = t :=
  List.map_injective_iff.mpr (fun _ _ => CodeUnit.char.inj) same

section
variable {N : Type} {f : Str → Value N}

theorem valueFields_text (entries : List (Str × Tree)) (name : Str) :
    valueFields f (toFields written entries) (name.map .char) =
      (OrderedMap.last name entries).map (Tree.value f) := by
  induction entries with
  | nil => rfl
  | cons entry rest ih =>
      obtain ⟨key, value⟩ := entry
      have same : key.map CodeUnit.char = name.map .char ↔ name = key :=
        ⟨fun spelled => (units_injective spelled).symm, fun named => by rw [named]⟩
      rw [toFields, List.map_cons, ← toFields, valueFields, ih, OrderedMap.last, write_units]
      simp only [same]
      cases OrderedMap.last name rest with
      | some found => rfl
      | none =>
          simp only [Option.map_none, Option.none_or]
          split <;> rfl

theorem valueFields_other (entries : List (Str × Tree)) {name : List CodeUnit}
    (other : ∀ text : Str, name ≠ text.map .char) : valueFields f (toFields written entries) name = none := by
  apply valueFields_none
  intro inside
  obtain ⟨field, member, named⟩ := List.mem_map.mp inside
  obtain ⟨entry, _, rfl⟩ := List.mem_map.mp member
  rw [write_units] at named
  exact other entry.1 named.symm

/-- An ordered map has the members of the entries it was made of. -/
theorem valueFields_ofList (entries : List (Str × Tree)) :
    valueFields f (toFields written (OrderedMap.ofList entries)) =
      valueFields f (toFields written entries) := by
  funext name
  by_cases spelled : ∃ text : Str, name = text.map .char
  · obtain ⟨text, rfl⟩ := spelled
    rw [valueFields_text, valueFields_text, OrderedMap.last_ofList]
  · have other : ∀ text : Str, name ≠ text.map .char := fun text same => spelled ⟨text, same⟩
    rw [valueFields_other _ other, valueFields_other _ other]

mutual

/-- The value of a text that was written back, by a reader of the new numerals. -/
theorem value_rewrite : ∀ (t : Tree) {r : Tree}, t.rewrite reread written = some r →
    r.value f = t.value fun s => f ((reread s).getD s)
  | .null, r, done => by
      cases done
      rfl
  | .bool b, r, done => by
      cases done
      rfl
  | .number spelling, r, done => by
      obtain ⟨new, read, rfl⟩ := Option.map_eq_some_iff.mp done
      rw [Tree.value, Tree.value, read]
      rfl
  | .string literal, r, done => by
      obtain ⟨text, read, rfl⟩ := Option.map_eq_some_iff.mp done
      rw [Tree.value, Tree.value, write_units, units_of_text read]
  | .array items, r, done => by
      obtain ⟨items', read, rfl⟩ := Option.map_eq_some_iff.mp done
      rw [Tree.value, Tree.value, valueItems_rewrite items read]
  | .object fields, r, done => by
      obtain ⟨entries, read, rfl⟩ := Option.map_eq_some_iff.mp done
      rw [Tree.value, Tree.value, ← toFields, valueFields_ofList, valueFields_rewrite fields read]

theorem valueItems_rewrite : ∀ (items : List Tree) {items' : List Tree},
    rewriteItems reread written items = some items' →
      valueItems f items' = valueItems (fun s => f ((reread s).getD s)) items
  | [], items', done => by
      cases done
      rfl
  | item :: rest, items', done => by
      obtain ⟨item', here, rest', later, rfl⟩ := rewriteItems_cons.mp done
      rw [valueItems, valueItems, value_rewrite item here, valueItems_rewrite rest later]

theorem valueFields_rewrite : ∀ (fields : List (Literal × Tree)) {entries : List (Str × Tree)},
    rewriteFields reread written fields = some entries →
      valueFields f (toFields written entries) =
        valueFields (fun s => f ((reread s).getD s)) fields
  | [], entries, done => by
      cases done
      rfl
  | (key, value) :: rest, entries, done => by
      obtain ⟨name, named, value', here, rest', later, rfl⟩ := rewriteFields_cons.mp done
      funext asked
      rw [toFields, List.map_cons, ← toFields, valueFields, valueFields, write_units,
        units_of_text named, value_rewrite value here, valueFields_rewrite rest later]

end

end

mutual

/-- The names of each object of the text ascend. -/
def Tree.Ordered : Tree → Prop
  | .array items => OrderedItems items
  | .object fields => (fields.map fun field => field.1.lossy).Pairwise (· < ·) ∧ OrderedFields fields
  | _ => True
termination_by structural t => t

def OrderedItems : List Tree → Prop
  | [] => True
  | item :: rest => item.Ordered ∧ OrderedItems rest
termination_by structural items => items

def OrderedFields : List (Literal × Tree) → Prop
  | [] => True
  | (_, value) :: rest => value.Ordered ∧ OrderedFields rest
termination_by structural fields => fields

end

/-- A literal with every character in the spelling of the writer. -/
def Plain (written : Char → Str) (literal : Literal) : Prop := ∃ text, literal = write written text

/-- A text that stays as it is when it is written back. -/
structure Canonical (reread : Str → Option Str) (written : Char → Str) (t : Tree) : Prop where
  numerals : ∀ s ∈ t.numerals, reread s = some s
  literals : ∀ l ∈ t.literals, Plain written l
  ordered : t.Ordered

theorem write_lossy (text : Str) : (write written text).lossy = text := by
  simp [write, writeChar, Literal.lossy, Function.comp_def]

theorem plain_iff {literal : Literal} :
    (literal.text.map fun text => Tree.string (write written text)) = some (.string literal) ↔
      Plain written literal := by
  constructor
  · intro kept
    obtain ⟨text, _, same⟩ := Option.map_eq_some_iff.mp kept
    exact ⟨text, (Tree.string.inj same).symm⟩
  · rintro ⟨text, rfl⟩
    rw [write_text]
    rfl

theorem keys_rewriteFields {m entries : List (Str × Tree)}
    (done : rewriteFields reread written (toFields written m) = some entries) :
    entries.map Prod.fst = m.map Prod.fst := by
  induction m generalizing entries with
  | nil =>
      cases done
      rfl
  | cons entry rest ih =>
      obtain ⟨name, named, value, _, rest', later, rfl⟩ := rewriteFields_cons.mp done
      rw [write_text] at named
      cases named
      rw [List.map_cons, List.map_cons, ih later]

theorem names_toFields (entries : List (Str × Tree)) :
    (toFields written entries).map (fun field => field.1.lossy) = entries.map Prod.fst := by
  rw [toFields, List.map_map]
  apply List.map_congr_left
  intro entry _
  exact write_lossy entry.1

/-- The fields of an object stay as they are if and only if each of them does and they
are already in order. -/
theorem ofList_kept {fields : List (Literal × Tree)} :
    (∃ entries, rewriteFields reread written fields = some entries ∧
        toFields written (OrderedMap.ofList entries) = fields) ↔
      (fields.map fun field => field.1.lossy).Pairwise (· < ·) ∧
        ∃ entries, rewriteFields reread written fields = some entries ∧
          toFields written entries = fields := by
  constructor
  · rintro ⟨entries, done, rfl⟩
    have keys := keys_rewriteFields done
    have ordered := OrderedMap.ofList_ascending entries
    have same : OrderedMap.ofList entries = entries := by
      rw [OrderedMap.ofList_eq_self, OrderedMap.Ascending, keys]
      exact ordered
    refine ⟨?_, entries, done, by rw [same]⟩
    rw [names_toFields]
    exact ordered
  · rintro ⟨ordered, entries, done, rfl⟩
    rw [names_toFields] at ordered
    exact ⟨entries, done, by rw [OrderedMap.ofList_eq_self.mpr ordered]⟩

mutual

theorem rewrite_kept : ∀ (t : Tree), t.rewrite reread written = some t ↔
    (∀ s ∈ t.numerals, reread s = some s) ∧ (∀ l ∈ t.literals, Plain written l) ∧ t.Ordered
  | .null => by simp [Tree.rewrite, Tree.numerals, Tree.literals, Tree.Ordered]
  | .bool b => by simp [Tree.rewrite, Tree.numerals, Tree.literals, Tree.Ordered]
  | .number spelling => by
      simp [Tree.rewrite, Tree.numerals, Tree.literals, Tree.Ordered]
  | .string literal => by
      rw [Tree.rewrite, plain_iff]
      simp [Tree.numerals, Tree.literals, Tree.Ordered]
  | .array items => by
      rw [Tree.rewrite, Tree.numerals, Tree.literals, Tree.Ordered, ← rewriteItems_kept items]
      simp
  | .object fields => by
      rw [Tree.rewrite, Tree.numerals, Tree.literals, Tree.Ordered]
      have kept := rewriteFields_kept fields
      have inner : ((rewriteFields reread written fields).map fun entries =>
          Tree.object (toFields written (OrderedMap.ofList entries))) = some (.object fields) ↔
          ∃ entries, rewriteFields reread written fields = some entries ∧
            toFields written (OrderedMap.ofList entries) = fields := by
        simp
      rw [← and_assoc, and_left_comm, and_assoc, ← kept, ← ofList_kept]
      exact inner

theorem rewriteItems_kept : ∀ (items : List Tree), rewriteItems reread written items = some items ↔
    (∀ s ∈ numeralsItems items, reread s = some s) ∧ (∀ l ∈ literalsItems items, Plain written l) ∧
      OrderedItems items
  | [] => by simp [rewriteItems, numeralsItems, literalsItems, OrderedItems]
  | item :: rest => by
      have here := rewrite_kept item
      have later := rewriteItems_kept rest
      have both : rewriteItems reread written (item :: rest) = some (item :: rest) ↔
          item.rewrite reread written = some item ∧ rewriteItems reread written rest = some rest := by
        rw [rewriteItems_cons]
        simp
      rw [both, here, later, numeralsItems, literalsItems, OrderedItems, List.forall_mem_append,
        List.forall_mem_append]
      tauto

theorem rewriteFields_kept : ∀ (fields : List (Literal × Tree)),
    (∃ entries, rewriteFields reread written fields = some entries ∧
        toFields written entries = fields) ↔
      (∀ s ∈ numeralsFields fields, reread s = some s) ∧
        (∀ l ∈ literalsFields fields, Plain written l) ∧ OrderedFields fields
  | [] => by simp [rewriteFields, numeralsFields, literalsFields, OrderedFields, toFields]
  | (key, value) :: rest => by
      have here := rewrite_kept value
      have later := rewriteFields_kept rest
      have both : (∃ entries, rewriteFields reread written ((key, value) :: rest) = some entries ∧
          toFields written entries = (key, value) :: rest) ↔
          Plain written key ∧ value.rewrite reread written = some value ∧
            ∃ entries, rewriteFields reread written rest = some entries ∧
              toFields written entries = rest := by
        constructor
        · rintro ⟨entries, done, same⟩
          obtain ⟨name, named, value', kept, rest', later, rfl⟩ := rewriteFields_cons.mp done
          cases same
          exact ⟨⟨name, rfl⟩, kept, rest', later, rfl⟩
        · rintro ⟨⟨name, rfl⟩, done, entries, later, same⟩
          refine ⟨(name, value) :: entries,
            rewriteFields_cons.mpr ⟨name, write_text name, value, done, entries, later, rfl⟩, ?_⟩
          rw [toFields, List.map_cons, ← toFields, same]
      rw [both, here, later, numeralsFields, literalsFields, OrderedFields, List.forall_mem_append,
        List.cons_append, List.forall_mem_cons, List.forall_mem_append]
      tauto

end

theorem rewrite_eq_self {t : Tree} : t.rewrite reread written = some t ↔ Canonical reread written t := by
  rw [rewrite_kept]
  exact ⟨fun ⟨numerals, literals, ordered⟩ => ⟨numerals, literals, ordered⟩,
    fun canonical => ⟨canonical.numerals, canonical.literals, canonical.ordered⟩⟩

end Rewriting

end Json
