import GrpcWebnext.Metadata

/-! Path templates and their matcher, as in `httprule.go`. A Go string is its bytes. -/
namespace GrpcWebnext.HttpRule.Go
open Framing (Bytes)

inductive Segment where
  | literal (text : Bytes)
  | anyOne
  | anyRest
  | capture (field : List Bytes) (sub : List Segment)

abbrev PathVar := List Bytes × Bytes

/-- `strings.Trim` of one byte. -/
def trim (c : UInt8) (s : Bytes) : Bytes := (s.dropWhile (· == c)).rdropWhile (· == c)

/-- `strings.Cut` at the first separator, `none` when there is none. -/
def cutAt (sep : UInt8) : Bytes → Option (Bytes × Bytes)
  | [] => none
  | b :: rest =>
      if b = sep then some ([], rest)
      else (cutAt sep rest).map fun (before, after) => (b :: before, after)

def join (sep : UInt8) (pieces : List Bytes) : Bytes := [sep].intercalate pieces

/-- The non-empty pieces of `strings.Split`. -/
def pieces (sep : UInt8) (s : Bytes) : List Bytes := (s.splitOn sep).filter (· ≠ [])

/-- The loop of `splitOutsideBraces`, at a given depth. -/
def splitFrom (sep : UInt8) : Nat → Bytes → List Bytes
  | _, [] => [[]]
  | depth, b :: rest =>
      if b = 123 then (splitFrom sep (depth + 1) rest).modifyHead (b :: ·)
      else if b = 125 then
        (splitFrom sep (if 0 < depth then depth - 1 else depth) rest).modifyHead (b :: ·)
      else if b = sep ∧ depth = 0 then [] :: splitFrom sep depth rest
      else (splitFrom sep depth rest).modifyHead (b :: ·)

def splitOutsideBraces (s : Bytes) (sep : UInt8) : List Bytes := splitFrom sep 0 s

def plainSegment (seg : Bytes) : Segment :=
  if seg = [42] then .anyOne
  else if seg = [42, 42] then .anyRest
  else .literal seg

/-- `strings.CutPrefix` and `strings.CutSuffix` of the braces. -/
def cutBraces (seg : Bytes) : Option Bytes :=
  match seg with
  | 123 :: rest => if rest.getLast? = some 125 then some rest.dropLast else none
  | _ => none

def parseSegment (seg : Bytes) : Segment :=
  match cutBraces seg with
  | some inner =>
      let (field, pattern) := (cutAt 61 inner).getD (inner, [42])
      .capture (field.splitOn 46) ((pieces 47 (trim 47 pattern)).map plainSegment)
  | none => plainSegment seg

def parseTemplate (template : Bytes) : List Segment × Bytes :=
  let parts := splitOutsideBraces template 58
  let path := parts.headD []
  let customVerb := if 1 < parts.length then join 58 parts.tail else []
  (((splitOutsideBraces (trim 47 path) 47).filter (· ≠ [])).map parseSegment, customVerb)

mutual

def matchSegment : Segment → List Bytes → Nat → List PathVar → Option (Nat × List PathVar)
  | .literal text, parts, i, vars => if parts[i]? = some text then some (i + 1, vars) else none
  | .anyOne, parts, i, vars => if i < parts.length then some (i + 1, vars) else none
  | .anyRest, parts, _, vars => some (parts.length, vars)
  | .capture field sub, parts, start, vars =>
      (matchList sub parts start vars).map fun (stop, vars) =>
        (stop, vars ++
          [(field, join 47 (((parts.take stop).drop start).map GrpcWebnext.Go.percentDecode))])
termination_by structural seg => seg

/-- The loop of `matchList`. The captures it has collected do not outlive a failure. -/
def matchList : List Segment → List Bytes → Nat → List PathVar → Option (Nat × List PathVar)
  | [], _, i, vars => some (i, vars)
  | seg :: segs, parts, i, vars =>
      (matchSegment seg parts i vars).bind fun (i, vars) => matchList segs parts i vars
termination_by structural segs => segs

end

/-- The path components without the verb of the last one, if it is the expected verb. -/
def stripVerb (customVerb : Bytes) (parts : List Bytes) : Option (List Bytes) :=
  match parts.getLast? with
  | some last =>
      let (head, verb) := (cutAt 58 last).getD (last, [])
      if verb ≠ customVerb ∨ ((cutAt 58 last).isSome ∧ head = []) then none
      else some (parts.dropLast ++ [head])
  | none => if customVerb ≠ [] then none else some []

def matchSegments (segments : List Segment) (customVerb path : Bytes) : Option (List PathVar) :=
  (stripVerb customVerb (pieces 47 (trim 47 path))).bind fun parts =>
    (matchList segments parts 0 []).bind fun (stop, vars) =>
      if stop = parts.length then some vars else none

end GrpcWebnext.HttpRule.Go
