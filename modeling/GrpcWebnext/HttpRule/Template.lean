import GrpcWebnext.PercentDecode

/-! Path templates of `google.api.http` and their matcher, as in `httprule.rs`. -/
namespace GrpcWebnext.HttpRule
open Text (Str)

/-- A parsed template segment. A capture holds its own sub-pattern. -/
inductive Segment where
  | literal (text : Str)
  | anyOne
  | anyRest
  | capture (field : List Str) (subs : List Segment)

/-- A captured path variable: the dotted field path and its decoded value. -/
abbrev PathVar := List Str × Str

/-- The outcome of a matcher that may also panic while it decodes a component. -/
inductive Outcome (α : Type) where
  | panic
  | miss
  | hit (value : α)
  deriving DecidableEq

def Outcome.bind {α β : Type} : Outcome α → (α → Outcome β) → Outcome β
  | .panic, _ => .panic
  | .miss, _ => .miss
  | .hit value, next => next value

/-- The pieces between separators at brace depth zero, from a given depth on. -/
def splitFrom (sep : Char) : Nat → Str → List Str
  | _, [] => [[]]
  | depth, c :: cs =>
      if c = '{' then (splitFrom sep (depth + 1) cs).modifyHead (c :: ·)
      else if c = '}' then (splitFrom sep (depth - 1) cs).modifyHead (c :: ·)
      else if c = sep ∧ depth = 0 then [] :: splitFrom sep depth cs
      else (splitFrom sep depth cs).modifyHead (c :: ·)

/-- Split on the separator, ignoring the ones inside braces. -/
def splitOutsideBraces (s : Str) (sep : Char) : List Str := splitFrom sep 0 s

/-- A non-capturing segment: a wildcard or a literal. -/
def plainSegment (seg : Str) : Segment :=
  if seg = ['*'] then .anyOne
  else if seg = ['*', '*'] then .anyRest
  else .literal seg

/-- The text between the braces, if the segment is wrapped in them. -/
def stripBraces (seg : Str) : Option Str :=
  match seg with
  | '{' :: rest => if rest.getLast? = some '}' then some rest.dropLast else none
  | _ => none

/-- One template segment: a capture with its own sub-pattern, or a plain one. -/
def parseSegment (seg : Str) : Segment :=
  match stripBraces seg with
  | some inner =>
      let (field, pattern) := (Text.splitOnce '=' inner).getD (inner, ['*'])
      .capture (field.splitOn '.')
        ((Text.fields '/' (Text.trimMatches '/' pattern)).map plainSegment)
  | none => plainSegment seg

/-- The segments of a template and its trailing custom verb. -/
def parseTemplate (template : Str) : List Segment × Str :=
  let parts := splitOutsideBraces template ':'
  let path := parts.headD []
  let customVerb := Text.join ':' parts.tail
  (((splitOutsideBraces (Text.trimMatches '/' path) '/').filter (· ≠ [])).map parseSegment,
    customVerb)

/-- The components of a capture, decoded one by one. -/
def decodeAll : List Str → Outcome (List Str)
  | [] => .hit []
  | part :: parts => match percentDecode part with
    | none => .panic
    | some value => (decodeAll parts).bind fun values => .hit (value :: values)

mutual

def matchSegment : Segment → List Str → Nat → List PathVar → Outcome (Nat × List PathVar)
  | .literal text, parts, i, vars => if parts[i]? = some text then .hit (i + 1, vars) else .miss
  | .anyOne, parts, i, vars => if i < parts.length then .hit (i + 1, vars) else .miss
  | .anyRest, parts, _, vars => .hit (parts.length, vars)
  | .capture field subs, parts, start, vars =>
      (matchList subs parts start vars).bind fun (stop, vars) =>
        (decodeAll ((parts.take stop).drop start)).bind fun values =>
          .hit (stop, vars ++ [(field, Text.join '/' values)])
termination_by structural seg => seg

/-- Match segments from index `i` on; the index just past what was consumed. -/
def matchList : List Segment → List Str → Nat → List PathVar → Outcome (Nat × List PathVar)
  | [], _, i, vars => .hit (i, vars)
  | seg :: segs, parts, i, vars =>
      (matchSegment seg parts i vars).bind fun (i, vars) => matchList segs parts i vars
termination_by structural segs => segs

end

/-- The path components with the verb cut off the last one, if it is the expected verb. -/
def stripVerb (customVerb : Str) (parts : List Str) : Option (List Str) :=
  match parts.getLast? with
  | some last =>
      let (head, verb) := (Text.splitOnce ':' last).getD (last, [])
      if verb ≠ customVerb ∨ (head = [] ∧ ':' ∈ last) then none
      else some (parts.dropLast ++ [head])
  | none => if customVerb ≠ [] then none else some []

/-- Match a request path against a template: the captured variables, in order. -/
def matchSegments (segments : List Segment) (customVerb path : Str) : Outcome (List PathVar) :=
  match stripVerb customVerb (Text.fields '/' (Text.trimMatches '/' path)) with
  | none => .miss
  | some parts => (matchList segments parts 0 []).bind fun (stop, vars) =>
      if stop = parts.length then .hit vars else .miss

end GrpcWebnext.HttpRule
