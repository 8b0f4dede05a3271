import GrpcWebnext.Library.Text

/-! JSON texts with their whitespace: an acceptor that takes one character after another
and keeps a stack of the brackets that are open, and the members of an object as the texts
of their names and values. -/
namespace JsonSyntax
open Text (Str)

def isSpace (c : Char) : Bool := c == ' ' || c == '\t' || c == '\n' || c == '\r'

def skip (s : Str) : Str := s.dropWhile isSpace

def exponent : Str → Bool
  | [] => true
  | e :: rest =>
      let digits := if rest.head? = some '+' ∨ rest.head? = some '-' then rest.tail else rest
      (e == 'e' || e == 'E') && digits != [] && digits.all Char.isDigit

def fraction (s : Str) : Bool :=
  if s.head? = some '.' then
    s.tail.takeWhile Char.isDigit != [] && exponent (s.tail.dropWhile Char.isDigit)
  else exponent s

def isNumber (s : Str) : Bool :=
  let unsigned := if s.head? = some '-' then s.tail else s
  let whole := unsigned.takeWhile Char.isDigit
  (whole == ['0'] || (whole != [] && whole.head? != some '0')) &&
    fraction (unsigned.dropWhile Char.isDigit)

def isScalar (s : Str) : Bool :=
  s == "null".toList || s == "true".toList || s == "false".toList || isNumber s

/-- A character of a number or of one of the three names. -/
def isScalarChar (c : Char) : Bool := c.isAlphanum || c == '-' || c == '+' || c == '.'

def isHex (c : Char) : Bool :=
  c.isDigit || ('a' ≤ c && c ≤ 'f') || ('A' ≤ c && c ≤ 'F')

/-- Where in a string literal the next character stands: among its characters, behind a
backslash, or at a hex digit with so many to follow. -/
inductive Inside where
  | plain
  | slash
  | hex (left : Nat)
  deriving DecidableEq

/-- The next character of a literal: it breaks it, closes it or goes on with it. -/
def Inside.step : Inside → Char → Option (Option Inside)
  | .plain, c =>
      if c = '"' then some none
      else if c = '\\' then some (some .slash)
      else if c.toNat < 32 then none
      else some (some .plain)
  | .slash, c =>
      if c = 'u' then some (some (.hex 3))
      else if c ∈ ['"', '\\', '/', 'b', 'f', 'n', 'r', 't'] then some (some .plain)
      else none
  | .hex left, c =>
      if isHex c then some (some (if left = 0 then .plain else .hex (left - 1))) else none

inductive Bracket where
  | array
  | object
  deriving DecidableEq

/-- What is read next. -/
inductive Place where
  | value
  /-- An item or the end of an array that has none so far. -/
  | item
  /-- A name or the end of an object that has none so far. -/
  | member
  | name
  | colon
  | string (isName : Bool) (inside : Inside)
  | scalar (spelling : Str)
  | behind
  deriving DecidableEq

abbrev State := Place × List Bracket

def afterValue (opened : List Bracket) (c : Char) : Option State :=
  if isSpace c then some (.behind, opened)
  else match opened with
    | [] => none
    | .array :: outer =>
        if c = ',' then some (.value, opened)
        else if c = ']' then some (.behind, outer)
        else none
    | .object :: outer =>
        if c = ',' then some (.name, opened)
        else if c = '\x7d' then some (.behind, outer)
        else none

def startValue (opened : List Bracket) (c : Char) : Option State :=
  if c = '"' then some (.string false .plain, opened)
  else if c = '[' then some (.item, .array :: opened)
  else if c = '\x7b' then some (.member, .object :: opened)
  else if isScalarChar c then some (.scalar [c], opened)
  else none

def step : State → Char → Option State
  | (.value, opened), c => if isSpace c then some (.value, opened) else startValue opened c
  | (.item, opened), c =>
      if isSpace c then some (.item, opened)
      else if c = ']' then some (.behind, opened.tail)
      else startValue opened c
  | (.member, opened), c =>
      if isSpace c then some (.member, opened)
      else if c = '"' then some (.string true .plain, opened)
      else if c = '\x7d' then some (.behind, opened.tail)
      else none
  | (.name, opened), c =>
      if isSpace c then some (.name, opened)
      else if c = '"' then some (.string true .plain, opened)
      else none
  | (.colon, opened), c =>
      if isSpace c then some (.colon, opened)
      else if c = ':' then some (.value, opened)
      else none
  | (.string isName inside, opened), c => (inside.step c).map fun next => match next with
      | some inside => (.string isName inside, opened)
      | none => (if isName then .colon else .behind, opened)
  | (.scalar spelling, opened), c =>
      if isScalarChar c then some (.scalar (spelling ++ [c]), opened)
      else if isScalar spelling then afterValue opened c
      else none
  | (.behind, opened), c => afterValue opened c

def run (state : State) (text : Str) : Option State := text.foldlM step state

def complete : State → Bool
  | (.behind, []) => true
  | (.scalar spelling, []) => isScalar spelling
  | _ => false

/-- One JSON value, with whitespace around it. -/
def isText (text : Str) : Bool := (run (.value, []) text).any complete

/-- A literal without its opening quote: what it holds as it is spelled, and what follows. -/
def untilQuote : Inside → Str → Option (Str × Str)
  | _, [] => none
  | inside, c :: rest => match inside.step c with
    | none => none
    | some none => some ([], rest)
    | some (some inside) => (untilQuote inside rest).map fun read => (c :: read.1, read.2)

/-- A member of an object: the spelling of its name, and the text of its value. -/
def member (text : Str) : Option (Str × Str) :=
  match skip text with
  | '"' :: rest => (untilQuote .plain rest).bind fun read => match skip read.2 with
    | ':' :: value => if isText value then some (read.1, value) else none
    | _ => none
  | _ => none

/-- The members written one after another with commas between them. -/
inductive Listed : Str → List (Str × Str) → Prop
  | last {text m} (read : member text = some m) : Listed text [m]
  | more {text others m ms} (read : member text = some m) (rest : Listed others ms) :
      Listed (text ++ ',' :: others) (m :: ms)

/-- A text cut at the commas that have a whole member before them. -/
def cut (before : Str) : Str → Option (List (Str × Str))
  | [] => (member before).map fun m => [m]
  | c :: rest => match if c = ',' then member before else none with
    | some m => (cut [] rest).map (m :: ·)
    | none => cut (before ++ [c]) rest

/-- The members of the object that a text is. -/
def objectMembers (text : Str) : Option (List (Str × Str)) :=
  match skip text with
  | '\x7b' :: rest => match skip rest.reverse with
    | '\x7d' :: inner => if skip inner.reverse = [] then some [] else cut [] inner.reverse
    | _ => none
  | _ => none

theorem complete_comma {state : State} (whole : complete state = true) : step state ',' = none := by
  obtain ⟨place, opened⟩ := state
  cases opened with
  | cons bracket outer => cases place <;> cases whole
  | nil =>
      cases place with
      | behind => rfl
      | scalar spelling =>
          have scalar : isScalar spelling = true := whole
          have comma : isScalarChar ',' = false := rfl
          simp only [step, comma, scalar, Bool.false_eq_true, if_false, if_true]
          rfl
      | value => cases whole
      | item => cases whole
      | member => cases whole
      | name => cases whole
      | colon => cases whole
      | string isName inside => cases whole

theorem run_append (state : State) (text more : Str) :
    run state (text ++ more) = (run state text).bind fun reached => run reached more :=
  List.foldlM_append

/-- No value goes on behind a comma. -/
theorem isText_comma {text : Str} (whole : isText text = true) (more : Str) :
    isText (text ++ ',' :: more) = false := by
  unfold isText at whole ⊢
  rw [run_append]
  cases ran : run (.value, []) text with
  | none => rfl
  | some reached =>
      rw [ran] at whole
      have stuck : run reached (',' :: more) = none := by
        rw [run, List.foldlM_cons, complete_comma whole]
        rfl
      rw [Option.bind_some, stuck]
      rfl

theorem skip_append {text : Str} (solid : skip text ≠ []) (more : Str) :
    skip (text ++ more) = skip text ++ more := by
  unfold skip at solid ⊢
  rw [List.dropWhile_append, if_neg]
  simpa using solid

theorem untilQuote_append {inside : Inside} {text body rest : Str}
    (read : untilQuote inside text = some (body, rest)) (more : Str) :
    untilQuote inside (text ++ more) = some (body, rest ++ more) := by
  induction text generalizing inside body with
  | nil => cases read
  | cons c text ih =>
      rw [List.cons_append]
      unfold untilQuote at read ⊢
      cases taken : inside.step c with
      | none =>
          rw [taken] at read
          cases read
      | some next =>
          rw [taken] at read
          cases next with
          | none =>
              cases read
              rfl
          | some next =>
              obtain ⟨later, found, same⟩ := Option.map_eq_some_iff.mp read
              cases same
              simp only [ih found, Option.map_some]

/-- A member taken apart: a name in quotes, a colon and one value. -/
theorem member_eq_some_iff {text name value : Str} :
    member text = some (name, value) ↔ ∃ rest behind, skip text = '"' :: rest ∧
      untilQuote .plain rest = some (name, behind) ∧ skip behind = ':' :: value ∧
      isText value = true := by
  unfold member
  constructor
  · intro read
    split at read
    case h_2 => cases read
    case h_1 rest opens =>
      obtain ⟨⟨body, behind⟩, closes, read⟩ := Option.bind_eq_some_iff.mp read
      dsimp only at read
      split at read
      case h_2 => cases read
      case h_1 found colon =>
        obtain ⟨whole, same⟩ := Option.ite_none_right_eq_some.mp read
        cases same
        exact ⟨rest, behind, opens, closes, colon, whole⟩
  · rintro ⟨rest, behind, opens, closes, colon, whole⟩
    simp only [opens, closes, Option.bind_some, colon, whole, if_true]

theorem member_append {text name value more : Str} (read : member text = some (name, value)) :
    member (text ++ more) = if isText (value ++ more) then some (name, value ++ more) else none := by
  obtain ⟨rest, behind, opens, closes, colon, _⟩ := member_eq_some_iff.mp read
  have solid : skip text ≠ [] := by simp [opens]
  have after : skip behind ≠ [] := by simp [colon]
  simp only [member, skip_append solid, opens, List.cons_append, untilQuote_append closes,
    Option.bind_some, skip_append after, colon]

/-- A member is complete at its last comma only. -/
theorem member_comma {text : Str} {m : Str × Str} (read : member text = some m) (more : Str) :
    member (text ++ ',' :: more) = none := by
  obtain ⟨name, value⟩ := m
  obtain ⟨_, _, _, _, _, whole⟩ := member_eq_some_iff.mp read
  rw [member_append read, isText_comma whole, if_neg Bool.false_ne_true]

theorem listed_iff {text : Str} {ms : List (Str × Str)} :
    Listed text ms ↔ (∃ m, member text = some m ∧ ms = [m]) ∨
      ∃ first others m rest, text = first ++ ',' :: others ∧ member first = some m ∧
        Listed others rest ∧ ms = m :: rest := by
  constructor
  · intro listed
    cases listed with
    | last read => exact .inl ⟨_, read, rfl⟩
    | more read rest => exact .inr ⟨_, _, _, _, rfl, read, rest, rfl⟩
  · rintro (⟨m, read, rfl⟩ | ⟨first, others, m, rest, rfl, read, listed, rfl⟩)
    · exact .last read
    · exact .more read listed

/-- The cuts are the only ones: what has been passed over holds no whole member. -/
theorem cut_eq_some_iff {rest : Str} : ∀ {before : Str} {ms : List (Str × Str)},
    (∀ v w, before = v ++ ',' :: w → member v = none) →
    (cut before rest = some ms ↔ Listed (before ++ rest) ms) := by
  induction rest with
  | nil =>
      intro before ms passed
      rw [cut, List.append_nil, listed_iff]
      constructor
      · intro read
        obtain ⟨m, found, rfl⟩ := Option.map_eq_some_iff.mp read
        exact .inl ⟨m, found, rfl⟩
      · rintro (⟨m, found, rfl⟩ | ⟨v, w, m, _, split, found, _⟩)
        · rw [found]
          rfl
        · rw [passed v w split] at found
          cases found
  | cons c rest ih =>
      intro before ms passed
      unfold cut
      cases whole : (if c = ',' then member before else none) with
      | some m =>
          obtain ⟨rfl, found⟩ := Option.ite_none_right_eq_some.mp whole
          have later : ∀ {ms}, cut [] rest = some ms ↔ Listed rest ms :=
            ih fun v w split => absurd split (by simp)
          rw [listed_iff]
          constructor
          · intro read
            obtain ⟨others, cuts, rfl⟩ := Option.map_eq_some_iff.mp read
            exact .inr ⟨before, rest, m, others, rfl, found, later.mp cuts, rfl⟩
          · rintro (⟨m', beyond, _⟩ | ⟨v, w, m', others, split, found', listed, rfl⟩)
            · rw [member_comma found] at beyond
              cases beyond
            · rcases List.append_eq_append_iff.mp split with ⟨tail, same, left⟩ | ⟨tail, same, left⟩
              · cases tail with
                | nil =>
                    cases left
                    rw [List.append_nil] at same
                    rw [same, found] at found'
                    cases found'
                    rw [later.mpr listed]
                    rfl
                | cons comma tail =>
                    cases left
                    rw [same, member_comma found] at found'
                    cases found'
              · cases tail with
                | nil =>
                    cases left
                    rw [List.append_nil] at same
                    rw [← same, found] at found'
                    cases found'
                    rw [later.mpr listed]
                    rfl
                | cons comma tail =>
                    cases left
                    rw [passed v tail same] at found'
                    cases found'
      | none =>
          have passed' : ∀ v w, before ++ [c] = v ++ ',' :: w → member v = none := by
            intro v w split
            rcases List.eq_nil_or_concat w with rfl | ⟨w, last, rfl⟩
            · obtain ⟨rfl, ends⟩ := List.append_inj' split rfl
              cases ends
              simpa using whole
            · rw [List.concat_eq_append, ← List.cons_append, ← List.append_assoc] at split
              exact passed v w (List.append_inj' split rfl).1
          have shifted : cut (before ++ [c]) rest = some ms ↔ Listed (before ++ [c] ++ rest) ms :=
            ih passed'
          rw [List.append_assoc] at shifted
          exact shifted

/-- The members of an object written without whitespace around its braces. -/
theorem objectMembers_braces {inner : Str} {ms : List (Str × Str)} (solid : skip inner ≠ []) :
    objectMembers ('\x7b' :: inner ++ ['\x7d']) = some ms ↔ Listed inner ms := by
  have opens : skip ('\x7b' :: inner ++ ['\x7d']) = '\x7b' :: (inner ++ ['\x7d']) := rfl
  have closes : skip (inner ++ ['\x7d']).reverse = '\x7d' :: inner.reverse := by
    rw [List.reverse_append]
    rfl
  simp only [objectMembers, opens, closes, List.reverse_reverse, solid, if_false]
  exact cut_eq_some_iff fun v w split => absurd split (by simp)

/-- A member is written as a name in quotes and its text behind a colon. -/
theorem member_written {name : Str} (closes : untilQuote .plain (name ++ ['"']) = some (name, []))
    (value : Str) :
    member ('"' :: name ++ '"' :: ':' :: value) = if isText value then some (name, value) else none := by
  have opens : skip ('"' :: name ++ '"' :: ':' :: value) =
      '"' :: (name ++ ['"'] ++ ':' :: value) := by
    rw [List.append_assoc]
    rfl
  have colon : skip (':' :: value) = ':' :: value := rfl
  simp only [member, opens, untilQuote_append closes, Option.bind_some, List.nil_append, colon]

/-- Members that begin as one written with this text behind its colon: the text is its value, or
the value ends at a comma of the text and the other members follow. -/
theorem listed_written {name : Str} (closes : untilQuote .plain (name ++ ['"']) = some (name, []))
    {text : Str} {ms : List (Str × Str)} :
    Listed ('"' :: name ++ '"' :: ':' :: text) ms ↔
      (isText text = true ∧ ms = [(name, text)]) ∨
        ∃ value others rest, text = value ++ ',' :: others ∧ isText value = true ∧
          Listed others rest ∧ ms = (name, value) :: rest := by
  rw [listed_iff, member_written closes]
  constructor
  · rintro (⟨m, read, rfl⟩ | ⟨first, others, ⟨name', value⟩, rest, split, read, listed, rfl⟩)
    · obtain ⟨whole, same⟩ := Option.ite_none_right_eq_some.mp read
      cases same
      exact .inl ⟨whole, rfl⟩
    · obtain ⟨tail, behind, opens, ends, colon, whole⟩ := member_eq_some_iff.mp read
      cases first with
      | nil => cases opens
      | cons c first =>
          obtain ⟨rfl, same⟩ := List.cons.inj split
          have same : name ++ '"' :: ':' :: text = first ++ ',' :: others := same
          obtain rfl : first = tail := (List.cons.inj opens).2
          -- both readings of the name start at the same quote
          have here := untilQuote_append ends (',' :: others)
          have there := untilQuote_append closes (':' :: text)
          rw [List.append_assoc, List.singleton_append, same, here] at there
          cases behind with
          | nil => cases colon
          | cons b behind =>
              obtain ⟨rfl, rest_⟩ := Prod.mk.inj (Option.some.inj there)
              obtain ⟨rfl, rfl⟩ := List.cons.inj rest_
              obtain rfl : behind = value := (List.cons.inj colon).2
              exact .inr ⟨behind, others, rest, rfl, whole, listed, rfl⟩
  · rintro (⟨whole, rfl⟩ | ⟨value, others, rest, rfl, whole, listed, rfl⟩)
    · exact .inl ⟨(name, text), if_pos whole, rfl⟩
    · refine .inr ⟨'"' :: name ++ '"' :: ':' :: value, others, (name, value), rest, ?_, ?_, listed, rfl⟩
      · simp only [List.cons_append, List.append_assoc]
      · rw [member_written closes, if_pos whole]

end JsonSyntax
