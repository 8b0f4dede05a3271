import GrpcWebnext.HttpRule.Matching
import GrpcWebnext.HttpRule.SameDecoding

/-! The Rust and the Go router on one template and one path. Both walk the components
alike; they can part only where a captured component is decoded. -/
namespace GrpcWebnext.HttpRule
open Framing (Bytes)
open Text (Str)
open Utf8 (encode)

/-- A capture before its components are decoded. -/
abbrev Taken := List Str × List Str

mutual

/-- The walk of a matcher without the decoding: where it stops, and what was captured by
then. -/
def takeSegment : Segment → List Str → Nat → Option Nat × List Taken
  | .literal text, parts, i => (if parts[i]? = some text then some (i + 1) else none, [])
  | .anyOne, parts, i => (if i < parts.length then some (i + 1) else none, [])
  | .anyRest, parts, _ => (some parts.length, [])
  | .capture field subs, parts, start =>
      match takeList subs parts start with
      | (none, taken) => (none, taken)
      | (some stop, taken) => (some stop, taken ++ [(field, (parts.take stop).drop start)])
termination_by structural seg => seg

def takeList : List Segment → List Str → Nat → Option Nat × List Taken
  | [], _, i => (some i, [])
  | seg :: segs, parts, i =>
      match takeSegment seg parts i with
      | (none, taken) => (none, taken)
      | (some i, taken) => ((takeList segs parts i).1, taken ++ (takeList segs parts i).2)
termination_by structural segs => segs

end

mutual

/-- What is captured on the way are components of the path. -/
theorem takeSegment_mem : ∀ (seg : Segment) (parts : List Str) (i : Nat),
    ∀ taken ∈ (takeSegment seg parts i).2, ∀ comp ∈ taken.2, comp ∈ parts
  | .literal text, parts, i, taken, member, comp, inside => by cases member
  | .anyOne, parts, i, taken, member, comp, inside => by cases member
  | .anyRest, parts, i, taken, member, comp, inside => by cases member
  | .capture field subs, parts, i, taken, member, comp, inside => by
      have walk := takeList_mem subs parts i
      rw [takeSegment] at member
      split at member
      · rename_i none
        rw [none] at walk
        exact walk taken member comp inside
      · rename_i stop found some
        rw [some] at walk
        rcases List.mem_append.mp member with before | here
        · exact walk taken before comp inside
        · rw [List.mem_singleton.mp here] at inside
          exact List.mem_of_mem_take (List.mem_of_mem_drop inside)

theorem takeList_mem : ∀ (segs : List Segment) (parts : List Str) (i : Nat),
    ∀ taken ∈ (takeList segs parts i).2, ∀ comp ∈ taken.2, comp ∈ parts
  | [], parts, i, taken, member, comp, inside => by cases member
  | seg :: segs, parts, i, taken, member, comp, inside => by
      have first := takeSegment_mem seg parts i
      rw [takeList] at member
      split at member
      · rename_i none
        rw [none] at first
        exact first taken member comp inside
      · rename_i next found some
        rw [some] at first
        rcases List.mem_append.mp member with before | later
        · exact first taken before comp inside
        · exact takeList_mem segs parts next taken later comp inside

end

section Rust

def rustVars (taken : List Taken) : Option (List PathVar) :=
  taken.mapM fun (field, comps) => (valueOf comps).map fun value => (field, value)

/-- What the Rust matcher makes of a walk: a panic in any capture comes first. -/
def rustOutcome (vars : List PathVar) (walk : Option Nat × List Taken) : Outcome (Nat × List PathVar) :=
  match rustVars walk.2, walk.1 with
  | none, _ => .panic
  | some _, none => .miss
  | some found, some stop => .hit (stop, vars ++ found)

theorem rustVars_append (taken more : List Taken) :
    rustVars (taken ++ more) = (rustVars taken).bind fun found => (rustVars more).map (found ++ ·) := by
  simp only [rustVars, List.mapM_append]
  cases taken.mapM fun (field, comps) => (valueOf comps).map fun value => (field, value) with
  | none => rfl
  | some found =>
      cases more.mapM fun (field, comps) => (valueOf comps).map fun value => (field, value) <;> rfl

theorem rustOutcome_bind (vars : List PathVar) (i : Nat) (taken : List Taken)
    (walk : Nat → Option Nat × List Taken) :
    ((rustOutcome vars (some i, taken)).bind fun (i, vars) => rustOutcome vars (walk i)) =
      rustOutcome vars ((walk i).1, taken ++ (walk i).2) := by
  unfold rustOutcome
  simp only [rustVars_append]
  cases rustVars taken with
  | none => rfl
  | some found =>
      simp only [Outcome.bind, Option.bind_some]
      cases rustVars (walk i).2 with
      | none => rfl
      | some more => cases (walk i).1 <;> simp

theorem rustOutcome_none_bind (vars : List PathVar) (taken : List Taken)
    (next : Nat × List PathVar → Outcome (Nat × List PathVar)) :
    (rustOutcome vars (none, taken)).bind next = rustOutcome vars (none, taken) := by
  unfold rustOutcome
  cases rustVars taken <;> rfl

mutual

theorem matchSegment_take : ∀ (seg : Segment) (parts : List Str) (i : Nat) (vars : List PathVar),
    matchSegment seg parts i vars = rustOutcome vars (takeSegment seg parts i)
  | .literal text, parts, i, vars => by
      simp only [matchSegment, takeSegment]
      split <;> simp [rustOutcome, rustVars]
  | .anyOne, parts, i, vars => by
      simp only [matchSegment, takeSegment]
      split <;> simp [rustOutcome, rustVars]
  | .anyRest, parts, i, vars => by simp [matchSegment, takeSegment, rustOutcome, rustVars]
  | .capture field subs, parts, i, vars => by
      rw [matchSegment, takeSegment, matchList_take subs parts i vars]
      cases walked : takeList subs parts i with
      | mk stop taken =>
          cases stop with
          | none => exact rustOutcome_none_bind vars taken _
          | some stop =>
              simp only [rustOutcome, rustVars_append]
              cases rustVars taken with
              | none => rfl
              | some found =>
                  simp only [Outcome.bind, decodeAll_eq, rustVars, valueOf, List.mapM_cons, List.mapM_nil]
                  cases ((parts.take stop).drop i).mapM percentDecode with
                  | none => rfl
                  | some values => simp

theorem matchList_take : ∀ (segs : List Segment) (parts : List Str) (i : Nat) (vars : List PathVar),
    matchList segs parts i vars = rustOutcome vars (takeList segs parts i)
  | [], parts, i, vars => by simp [matchList, takeList, rustOutcome, rustVars]
  | seg :: segs, parts, i, vars => by
      rw [matchList, takeList, matchSegment_take seg parts i vars]
      cases walked : takeSegment seg parts i with
      | mk next taken =>
          cases next with
          | none => exact rustOutcome_none_bind vars taken _
          | some next =>
              simp only [matchList_take segs]
              exact rustOutcome_bind vars next taken (takeList segs parts)

end

end Rust

section Go

/-- What the Go matcher makes of a capture. -/
def goVars (taken : List Taken) : List Go.PathVar :=
  taken.map fun (field, comps) => (field.map encode,
    Go.join 47 (comps.map fun comp => GrpcWebnext.Go.percentDecode (encode comp)))

def goOutcome (vars : List Go.PathVar) (walk : Option Nat × List Taken) :
    Option (Nat × List Go.PathVar) :=
  walk.1.map fun stop => (stop, vars ++ goVars walk.2)

mutual

theorem go_matchSegment_take : ∀ (seg : Segment) (parts : List Str) (i : Nat) (vars : List Go.PathVar),
    Go.matchSegment seg.spelled (parts.map encode) i vars = goOutcome vars (takeSegment seg parts i)
  | .literal text, parts, i, vars => by
      have same : (parts.map encode)[i]? = some (encode text) ↔ parts[i]? = some text := by
        rw [List.getElem?_map]
        cases parts[i]? with
        | none => simp
        | some part =>
            simp only [Option.map_some, Option.some.injEq]
            exact ⟨Utf8.encode_injective, congrArg encode⟩
      simp only [Segment.spelled, Go.matchSegment, takeSegment, same]
      split <;> simp [goOutcome, goVars]
  | .anyOne, parts, i, vars => by
      simp only [Segment.spelled, Go.matchSegment, takeSegment, List.length_map]
      split <;> simp [goOutcome, goVars]
  | .anyRest, parts, i, vars => by
      simp [Segment.spelled, Go.matchSegment, takeSegment, goOutcome, goVars]
  | .capture field subs, parts, i, vars => by
      rw [Segment.spelled, Go.matchSegment, takeSegment, go_matchList_take subs parts i vars]
      cases walked : takeList subs parts i with
      | mk stop taken =>
          cases stop with
          | none => rfl
          | some stop =>
              simp [goOutcome, goVars, List.map_drop, List.map_take, Function.comp_def]

theorem go_matchList_take : ∀ (segs : List Segment) (parts : List Str) (i : Nat)
    (vars : List Go.PathVar),
    Go.matchList (spelledList segs) (parts.map encode) i vars = goOutcome vars (takeList segs parts i)
  | [], parts, i, vars => by simp [spelledList, Go.matchList, takeList, goOutcome, goVars]
  | seg :: segs, parts, i, vars => by
      rw [spelledList, Go.matchList, takeList, go_matchSegment_take seg parts i vars]
      cases walked : takeSegment seg parts i with
      | mk next taken =>
          cases next with
          | none => rfl
          | some next =>
              simp only [goOutcome, Option.map_some, Option.bind_some, go_matchList_take segs]
              cases (takeList segs parts next).1 <;> simp [goVars]

end

theorem stripVerb_encode (verb : Str) (parts : List Str) :
    Go.stripVerb (encode verb) (parts.map encode) = (stripVerb verb parts).map (·.map encode) := by
  unfold Go.stripVerb stripVerb
  rw [List.getLast?_map]
  cases parts.getLast? with
  | none =>
      simp only [Option.map_none, ne_eq, encode_ne_nil]
      split <;> rfl
  | some last =>
      simp only [Option.map_some, cutAt_encode sep_colon]
      have same : ∀ text : Str, encode text = encode verb ↔ text = verb :=
        fun text => ⟨Utf8.encode_injective, congrArg encode⟩
      have rest : ∀ head : Str, (parts.map encode).dropLast ++ [encode head] =
          (parts.dropLast ++ [head]).map encode := by
        intro head
        rw [List.map_append, List.map_dropLast]
        rfl
      cases cut : Text.splitOnce ':' last with
      | none =>
          have none : ':' ∉ last := Text.splitOnce_none.mp cut
          have empty : ([] : Bytes) = encode verb ↔ [] = verb := same []
          simp only [Option.map_none, Option.getD_none, Option.isSome_none, Bool.false_eq_true, false_and,
            or_false, none, and_false, ne_eq, empty]
          split
          · rfl
          · rw [rest]
            rfl
      | some cutting =>
          obtain ⟨head, behind⟩ := cutting
          have some : ':' ∈ last := by
            by_contra none
            rw [Text.splitOnce_none.mpr none] at cut
            cases cut
          simp only [Option.map_some, Option.getD_some, Option.isSome_some, Prod.map, true_and, some,
            and_true, ne_eq, same, encode_ne_nil]
          split
          · rfl
          · rw [rest]
            rfl

end Go

/-- The routers make the same decision and, on a match, capture the same names with the
same values. -/
def Agrees : Outcome (List PathVar) → Option (List Go.PathVar) → Prop
  | .panic, _ => False
  | .miss, found => found = none
  | .hit vars, found => found = some (vars.map fun (field, value) => (field.map encode, encode value))

/-- No component that is captured on the way slices a character, and where the template
matches, all of them are read alike. -/
def ReadsAlike (segments : List Segment) (verb path : Str) : Prop :=
  ∀ parts, stripVerb verb (Text.fields '/' (Text.trimMatches '/' path)) = some parts →
    (∀ taken ∈ (takeList segments parts 0).2, ∀ comp ∈ taken.2, slicesCharacter (encode comp) = false) ∧
    ((takeList segments parts 0).1 = some parts.length →
      ∀ taken ∈ (takeList segments parts 0).2, ∀ comp ∈ taken.2, Legible comp)

section Values

theorem length_join_cons (piece : Bytes) {rest : List Bytes} (more : rest ≠ []) :
    (Go.join 47 (piece :: rest)).length = piece.length + 1 + (Go.join 47 rest).length := by
  obtain ⟨next, rest, rfl⟩ := List.exists_cons_of_ne_nil more
  simp only [Go.join, List.intercalate_cons_cons, List.length_append, List.length_singleton]

/-- Where the joined Go value is a text, so is each of its parts. -/
theorem valid_of_join {pieces : List Bytes} {text : Str} (joined : Go.join 47 pieces = encode text) :
    ∀ piece ∈ pieces, Utf8.valid piece = true := by
  induction pieces generalizing text with
  | nil =>
      intro piece inside
      cases inside
  | cons first rest ih =>
      cases rest with
      | nil =>
          intro piece inside
          rw [List.mem_singleton.mp inside]
          exact valid_iff.mpr ⟨text, by simpa [Go.join] using joined⟩
      | cons next rest =>
          have cut : encode text = first ++ 47 :: Go.join 47 (next :: rest) := by
            rw [← joined]
            simp [Go.join, List.intercalate_cons_cons]
          obtain ⟨before, behind, rfl, here, there⟩ := Spelling.split_at sep_slash cut
          intro piece inside
          rcases List.mem_cons.mp inside with rfl | later
          · exact valid_iff.mpr ⟨before, here.symm⟩
          · exact ih there.symm piece later

/-- The Rust value of a variable, beside its components. -/
theorem values_decoded {comps : List Str}
    (whole : ∀ comp ∈ comps, slicesCharacter (encode comp) = false) :
    ∃ values, comps.mapM percentDecode = some values ∧ List.Forall₂ Decoded comps values := by
  induction comps with
  | nil => exact ⟨[], rfl, .nil⟩
  | cons comp comps ih =>
      obtain ⟨here, later⟩ := List.forall_mem_cons.mp whole
      obtain ⟨value, decoded, reads⟩ := percentDecode_some here
      obtain ⟨values, all, rest⟩ := ih later
      exact ⟨value :: values, by simp [List.mapM_cons, decoded, all], .cons reads rest⟩

theorem join_legible {comps values : List Str} (decoded : List.Forall₂ Decoded comps values)
    (legible : ∀ comp ∈ comps, Legible comp) :
    values.map encode = comps.map fun comp => GrpcWebnext.Go.percentDecode (encode comp) := by
  induction decoded with
  | nil => rfl
  | cons reads rest ih =>
      obtain ⟨here, later⟩ := List.forall_mem_cons.mp legible
      rw [List.map_cons, List.map_cons, reads.legible here, ih later]

/-- Parts that are no longer than those they are compared with, of the same joined
length, are all of the same length. -/
theorem plain_of_join {comps values : List Str} (decoded : List.Forall₂ Decoded comps values)
    (valid : ∀ comp ∈ comps, Utf8.valid (GrpcWebnext.Go.percentDecode (encode comp)) = true) :
    (Go.join 47 (values.map encode)).length ≤
        (Go.join 47 (comps.map fun comp => GrpcWebnext.Go.percentDecode (encode comp))).length ∧
      ((∃ comp ∈ comps, plusEscape (encode comp) = true) → (Go.join 47 (values.map encode)).length <
        (Go.join 47 (comps.map fun comp => GrpcWebnext.Go.percentDecode (encode comp))).length) := by
  induction decoded with
  | nil =>
      refine ⟨Nat.le_refl _, ?_⟩
      rintro ⟨comp, inside, _⟩
      cases inside
  | @cons comp value comps values reads rest ih =>
      obtain ⟨here, later⟩ := List.forall_mem_cons.mp valid
      obtain ⟨short, shorter⟩ := reads.shorter here
      obtain ⟨shortRest, shorterRest⟩ := ih later
      cases rest with
      | nil =>
          simp only [List.map_cons, List.map_nil, Go.join, List.intercalate_singleton]
          refine ⟨short, ?_⟩
          rintro ⟨c, inside, plus⟩
          rw [List.mem_singleton.mp inside] at plus
          exact shorter plus
      | @cons next nextValue comps values _ _ =>
          have left : (Go.join 47 ((value :: nextValue :: values).map encode)).length = _ :=
            length_join_cons (encode value) (List.cons_ne_nil _ _)
          have right : (Go.join 47 ((comp :: next :: comps).map fun comp =>
              GrpcWebnext.Go.percentDecode (encode comp))).length = _ :=
            length_join_cons (GrpcWebnext.Go.percentDecode (encode comp)) (List.cons_ne_nil _ _)
          rw [left, right]
          refine ⟨by omega, ?_⟩
          rintro ⟨c, inside, plus⟩
          rcases List.mem_cons.mp inside with rfl | behind
          · have less := shorter plus
            omega
          · have less := shorterRest ⟨c, behind, plus⟩
            omega

/-- The two values of a variable are the same if and only if each component is legible. -/
theorem value_iff {comps values : List Str} (decoded : List.Forall₂ Decoded comps values) :
    encode (Text.join '/' values) =
        Go.join 47 (comps.map fun comp => GrpcWebnext.Go.percentDecode (encode comp)) ↔
      ∀ comp ∈ comps, Legible comp := by
  rw [← join_encode sep_slash]
  constructor
  · intro same
    have valid : ∀ comp ∈ comps, Utf8.valid (GrpcWebnext.Go.percentDecode (encode comp)) = true := by
      intro comp inside
      rw [join_encode sep_slash] at same
      exact valid_of_join same.symm _ (List.mem_map_of_mem inside)
    have shorter := (plain_of_join decoded valid).2
    rw [same] at shorter
    intro comp inside
    refine ⟨?_, valid comp inside⟩
    cases plus : plusEscape (encode comp) with
    | false => rfl
    | true => exact absurd (shorter ⟨comp, inside, plus⟩) (Nat.lt_irrefl _)
  · intro legible
    rw [join_legible decoded legible]

/-- One capture that slices a character ends the match in a panic. -/
theorem rustVars_none {taken : List Taken}
    (sliced : ∃ var ∈ taken, ∃ comp ∈ var.2, slicesCharacter (encode comp) = true) :
    rustVars taken = none := by
  obtain ⟨var, member, comp, inside, slices⟩ := sliced
  have undecoded : valueOf var.2 = none := valueOf_none.mpr ⟨comp, inside, percentDecode_none slices⟩
  obtain ⟨front, back, rfl⟩ := List.append_of_mem member
  rw [rustVars_append]
  cases rustVars front with
  | none => rfl
  | some found => simp [rustVars, List.mapM_cons, undecoded]

theorem rustVars_some {taken : List Taken}
    (whole : ∀ var ∈ taken, ∀ comp ∈ var.2, slicesCharacter (encode comp) = false) :
    ∃ found, rustVars taken = some found ∧
      ((found.map fun (field, value) => (field.map encode, encode value)) = goVars taken ↔
        ∀ var ∈ taken, ∀ comp ∈ var.2, Legible comp) := by
  induction taken with
  | nil => exact ⟨[], rfl, by simp [goVars]⟩
  | cons var taken ih =>
      obtain ⟨here, later⟩ := List.forall_mem_cons.mp whole
      obtain ⟨values, decoded, reads⟩ := values_decoded here
      obtain ⟨found, all, same⟩ := ih later
      refine ⟨(var.1, Text.join '/' values) :: found, ?_, ?_⟩
      · have value : valueOf var.2 = some (Text.join '/' values) := by rw [valueOf, decoded]; rfl
        have rest := all
        rw [rustVars] at rest
        simp [rustVars, List.mapM_cons, value, rest]
      · simp only [goVars, List.map_cons, List.cons.injEq, Prod.mk.injEq, true_and,
          List.forall_mem_cons, value_iff reads]
        exact and_congr Iff.rfl same

end Values

/-- The matchers agree on a template if and only if what it captures is read alike. -/
theorem matchers_agree_iff (segments : List Segment) (verb path : Str) :
    Agrees (matchSegments segments verb path)
        (Go.matchSegments (segments.map Segment.spelled) (encode verb) (encode path)) ↔
      ReadsAlike segments verb path := by
  simp only [matchSegments, Go.matchSegments, trim_encode sep_slash, pieces_encode sep_slash,
    stripVerb_encode, ReadsAlike]
  cases stripVerb verb (Text.fields '/' (Text.trimMatches '/' path)) with
  | none => simp [Agrees]
  | some parts =>
      simp only [Option.map_some, Option.bind_some, matchList_take, ← spelledList_eq, go_matchList_take,
        Option.some.injEq, forall_eq', List.length_map]
      generalize takeList segments parts 0 = walk
      obtain ⟨stop, taken⟩ := walk
      by_cases sliced : ∃ var ∈ taken, ∃ comp ∈ var.2, slicesCharacter (encode comp) = true
      · simp only [rustOutcome, rustVars_none sliced, Outcome.bind, Agrees, false_iff, not_and]
        intro whole
        obtain ⟨var, member, comp, inside, slices⟩ := sliced
        rw [whole var member comp inside] at slices
        cases slices
      · have whole : ∀ var ∈ taken, ∀ comp ∈ var.2, slicesCharacter (encode comp) = false := by
          simpa using sliced
        obtain ⟨found, all, same⟩ := rustVars_some whole
        cases stop with
        | none =>
            simp only [rustOutcome, goOutcome, all, Outcome.bind, Agrees, Option.map_none, Option.bind_none,
              reduceCtorEq, false_implies, and_true, true_iff]
            exact whole
        | some stop =>
            by_cases finished : stop = parts.length
            · simp only [rustOutcome, goOutcome, all, Outcome.bind, Option.map_some, Option.bind_some,
                List.nil_append, finished, if_true, Agrees, Option.some.injEq, true_implies, ← same]
              exact ⟨fun equal => ⟨whole, equal.symm⟩, fun both => both.2.symm⟩
            · simp only [rustOutcome, goOutcome, all, Outcome.bind, Agrees, finished, Option.map_some,
                Option.bind_some, Option.some.injEq, if_false, false_implies, and_true, true_iff]
              exact whole

/-- The parsers read every template alike, and the routers agree on a template, a verb
and a path if and only if what the template captures is read alike. -/
theorem routers_agree_iff (template verb path : Str) :
    Go.parseTemplate (encode template) =
        ((parseTemplate template).1.map Segment.spelled, encode (parseTemplate template).2) ∧
      (Agrees (matchSegments (parseTemplate template).1 verb path)
          (Go.matchSegments (Go.parseTemplate (encode template)).1 (encode verb) (encode path)) ↔
        ReadsAlike (parseTemplate template).1 verb path) := by
  refine ⟨parseTemplate_encode template, ?_⟩
  rw [parseTemplate_encode]
  exact matchers_agree_iff (parseTemplate template).1 verb path

/-- Two paths on `/v1/{x}`. Of `%FF` the Rust router captures U+FFFD and the Go router
the byte; of `%+5` the Rust number parser takes the plus sign and captures a control
character, and the Go router the text as it stands. -/
theorem captures_read_differently :
    (matchSegments (parseTemplate "/v1/{x}".toList).1 [] "/v1/%FF".toList =
        .hit [(["x".toList], [Char.ofNat 0xFFFD])] ∧
      Go.matchSegments (Go.parseTemplate (utf8 "/v1/{x}")).1 [] (utf8 "/v1/%FF") =
        some [([utf8 "x"], [0xFF])]) ∧
    (matchSegments (parseTemplate "/v1/{x}".toList).1 [] "/v1/%+5".toList =
        .hit [(["x".toList], [Char.ofNat 5])] ∧
      Go.matchSegments (Go.parseTemplate (utf8 "/v1/{x}")).1 [] (utf8 "/v1/%+5") =
        some [([utf8 "x"], utf8 "%+5")]) ∧
    ¬ Agrees (matchSegments (parseTemplate "/v1/{x}".toList).1 [] "/v1/%FF".toList)
        (Go.matchSegments (Go.parseTemplate (utf8 "/v1/{x}")).1 [] (utf8 "/v1/%FF")) ∧
    ¬ Agrees (matchSegments (parseTemplate "/v1/{x}".toList).1 [] "/v1/%+5".toList)
        (Go.matchSegments (Go.parseTemplate (utf8 "/v1/{x}")).1 [] (utf8 "/v1/%+5")) := by
  have rust : matchSegments (parseTemplate "/v1/{x}".toList).1 [] "/v1/%FF".toList =
      .hit [(["x".toList], [Char.ofNat 0xFFFD])] := by decide +kernel
  have go : Go.matchSegments (Go.parseTemplate (utf8 "/v1/{x}")).1 [] (utf8 "/v1/%FF") =
      some [([utf8 "x"], [0xFF])] := by decide +kernel
  have rustPlus : matchSegments (parseTemplate "/v1/{x}".toList).1 [] "/v1/%+5".toList =
      .hit [(["x".toList], [Char.ofNat 5])] := by decide +kernel
  have goPlus : Go.matchSegments (Go.parseTemplate (utf8 "/v1/{x}")).1 [] (utf8 "/v1/%+5") =
      some [([utf8 "x"], utf8 "%+5")] := by decide +kernel
  refine ⟨⟨rust, go⟩, ⟨rustPlus, goPlus⟩, ?_, ?_⟩
  · rw [rust, go, Agrees]
    decide +kernel
  · rw [rustPlus, goPlus, Agrees]
    decide +kernel

end GrpcWebnext.HttpRule
