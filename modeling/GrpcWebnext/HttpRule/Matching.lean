import GrpcWebnext.HttpRule.Grammar

/-! The language a template denotes, and when `match_segments` decides it. -/
namespace GrpcWebnext.HttpRule
open Text (Str)

/-- The runs of path components a list of patterns stands for. -/
inductive Covers : List Pat → List Str → Prop
  | nil : Covers [] []
  | literal {lit : Literal} {pats : List Pat} {comps : List Str} :
      Covers pats comps → Covers (.literal lit :: pats) (lit.text :: comps)
  | star {pats : List Pat} {comps : List Str} (comp : Str) :
      Covers pats comps → Covers (.star :: pats) (comp :: comps)
  | rest {pats : List Pat} {comps : List Str} (run : List Str) :
      Covers pats comps → Covers (.rest :: pats) (run ++ comps)

/-- The language of a list of segments, with the run each variable covers. -/
inductive Denotes : List TSeg → List Str → List (FieldPath × List Str) → Prop
  | nil : Denotes [] [] []
  | plain {pat : Pat} {segs : List TSeg} {here comps : List Str}
      {vars : List (FieldPath × List Str)} :
      Covers [pat] here → Denotes segs comps vars →
        Denotes (.plain pat :: segs) (here ++ comps) vars
  | var {field : FieldPath} {sub : Option (List Pat)} {segs : List TSeg}
      {here comps : List Str} {vars : List (FieldPath × List Str)} :
      Covers (sub.getD [.star]) here → Denotes segs comps vars →
        Denotes (.var field sub :: segs) (here ++ comps) ((field, here) :: vars)

/-- The last component split at its first colon into a head and a verb text. -/
inductive SplitVerb : List Str → List Str → Str → Prop
  | empty : SplitVerb [] [] []
  | bare {init : List Str} {last : Str} :
      ':' ∉ last → SplitVerb (init ++ [last]) (init ++ [last]) []
  | verb {init : List Str} {head text : Str} : ':' ∉ head → head ≠ [] →
      SplitVerb (init ++ [head ++ ':' :: text]) (init ++ [head]) text

/-- The request path is in the language of the template. -/
def InLanguage (t : Template) (path : Str) (vars : List (FieldPath × List Str)) : Prop :=
  ∃ comps, SplitVerb (Text.fields '/' path) comps t.verbText ∧ Denotes t.segs comps vars

/-- A variable's value: its components decoded one by one and joined. -/
def valueOf (comps : List Str) : Option Str := (comps.mapM percentDecode).map (Text.join '/')

def capturesOf (vars : List (FieldPath × List Str)) : Option (List PathVar) :=
  vars.mapM fun (field, comps) => (valueOf comps).map fun value => (field.names, value)

/-- What the program makes of a template and a path. -/
def outcome (t : Template) (path : Str) : Outcome (List PathVar) :=
  matchSegments (parseTemplate t.text).1 (parseTemplate t.text).2 path

/-- The program matches exactly the paths of the language, with exactly their captures. -/
def DecidesLanguage (t : Template) (path : Str) : Prop :=
  match outcome t path with
  | .panic => False
  | .miss => ∀ vars, ¬ InLanguage t path vars
  | .hit found => (∃ vars, InLanguage t path vars) ∧
      ∀ vars, InLanguage t path vars → capturesOf vars = some found

/-- Every component a variable can be tried on is one `percent_decode` returns from. -/
def Decodable (segs : List TSeg) (comps : List Str) : Prop :=
  ∀ before field sub after, segs = before ++ .var field sub :: after →
    ∀ front here behind vars, comps = front ++ here ++ behind → Denotes before front vars →
      Covers (sub.getD [.star]) here → ∀ comp ∈ here, percentDecode comp ≠ none

/-- The components that patterns take off the front of a path, and what is left. -/
def consume : List Pat → List Str → Option (List Str × List Str)
  | [], comps => some ([], comps)
  | .literal _ :: _, [] => none
  | .literal lit :: pats, comp :: comps =>
      if comp = lit.text then (consume pats comps).map fun (here, left) => (comp :: here, left)
      else none
  | .star :: _, [] => none
  | .star :: pats, comp :: comps =>
      (consume pats comps).map fun (here, left) => (comp :: here, left)
  | .rest :: pats, comps => (consume pats []).map fun (here, left) => (comps ++ here, left)

/-- The walk of the matcher over a path, one segment after the other. -/
def walk : List TSeg → List Str → Outcome (List PathVar × List Str)
  | [], comps => .hit ([], comps)
  | .plain pat :: segs, comps => match consume [pat] comps with
    | none => .miss
    | some (_, left) => walk segs left
  | .var field sub :: segs, comps => match consume (sub.getD [.star]) comps with
    | none => .miss
    | some (here, left) => match valueOf here with
      | none => .panic
      | some value => (walk segs left).bind fun (vars, left) =>
          .hit ((field.names, value) :: vars, left)

theorem decodeAll_eq (comps : List Str) :
    decodeAll comps = match comps.mapM percentDecode with
      | none => .panic
      | some values => .hit values := by
  induction comps with
  | nil => rfl
  | cons comp comps ih =>
      simp only [decodeAll, ih, List.mapM_cons]
      cases percentDecode comp with
      | none => rfl
      | some value => cases comps.mapM percentDecode <;> rfl

theorem consume_append {pats : List Pat} {comps here left : List Str}
    (h : consume pats comps = some (here, left)) : comps = here ++ left ∧ Covers pats here := by
  induction pats generalizing comps here left with
  | nil =>
      cases h
      exact ⟨rfl, .nil⟩
  | cons pat pats ih =>
      cases pat with
      | literal lit =>
          cases comps with
          | nil => cases h
          | cons comp comps =>
              simp only [consume] at h
              split at h
              · obtain ⟨⟨more, rest⟩, inner, same⟩ := Option.map_eq_some_iff.mp h
                cases same
                obtain ⟨rfl, covers⟩ := ih inner
                subst ‹comp = lit.text›
                exact ⟨rfl, .literal covers⟩
              · cases h
      | star =>
          cases comps with
          | nil => cases h
          | cons comp comps =>
              obtain ⟨⟨more, rest⟩, inner, same⟩ := Option.map_eq_some_iff.mp h
              cases same
              obtain ⟨rfl, covers⟩ := ih inner
              exact ⟨rfl, .star comp covers⟩
      | rest =>
          obtain ⟨⟨more, rest⟩, inner, same⟩ := Option.map_eq_some_iff.mp h
          cases same
          obtain ⟨nothing, covers⟩ := ih inner
          rw [List.append_assoc, ← nothing, List.append_nil]
          exact ⟨rfl, .rest comps covers⟩

theorem RestLast.of_not_mem {pats : List Pat} (none : Pat.rest ∉ pats) : RestLast pats := by
  rintro before after rfl
  simp at none

theorem RestLast.tail {pat : Pat} {pats : List Pat} (last : RestLast (pat :: pats)) :
    RestLast pats := by
  intro before after split
  exact last (pat :: before) after (by rw [split, List.cons_append])

theorem RestLast.of_append {front pats : List Pat} (last : RestLast (front ++ pats)) :
    RestLast pats := by
  induction front with
  | nil => exact last
  | cons pat front ih => exact ih last.tail

theorem RestLast.left {pats behind : List Pat} (last : RestLast (pats ++ behind)) :
    RestLast pats := by
  intro before after split
  have tail := last before (after ++ behind) (by rw [split, List.append_assoc, List.cons_append])
  exact (List.append_eq_nil_iff.mp tail).1

/-- A `**` in front leaves nothing for the patterns behind it. -/
theorem RestLast.behind {pats behind : List Pat} (last : RestLast (pats ++ behind))
    (some : Pat.rest ∈ pats) : behind = [] := by
  obtain ⟨before, after, rfl⟩ := List.append_of_mem some
  have tail := last before (after ++ behind) (by rw [List.append_assoc, List.cons_append])
  exact (List.append_eq_nil_iff.mp tail).2

/-- Greedy consumption finds every run the patterns cover; a `**` also takes what is behind. -/
theorem consume_covers {pats : List Pat} {here : List Str} (covers : Covers pats here)
    (last : RestLast pats) (behind : List Str) :
    consume pats (here ++ behind) =
      if Pat.rest ∈ pats then some (here ++ behind, []) else some (here, behind) := by
  induction covers with
  | nil => rfl
  | @literal lit pats comps covers ih =>
      simp only [List.cons_append, consume, if_true, ih last.tail, List.mem_cons, reduceCtorEq,
        false_or]
      split <;> rfl
  | @star pats comps comp covers ih =>
      simp only [List.cons_append, consume, ih last.tail, List.mem_cons, reduceCtorEq, false_or]
      split <;> rfl
  | @rest pats comps run covers ih =>
      have none : pats = [] := last [] pats rfl
      subst none
      cases covers
      simp only [consume, Option.map_some, List.append_nil, List.mem_cons, true_or, if_true]

theorem drop_inside {parts : List Str} {i : Nat} {comp : Str} {comps : List Str}
    (tail : parts.drop i = comp :: comps) :
    i < parts.length ∧ parts[i]? = some comp ∧ parts.drop (i + 1) = comps := by
  have inside : i < parts.length := by
    apply Nat.lt_of_not_le
    intro beyond
    rw [List.drop_eq_nil_of_le beyond] at tail
    cases tail
  rw [List.drop_eq_getElem_cons inside] at tail
  obtain ⟨rfl, rfl⟩ := List.cons.inj tail
  exact ⟨inside, List.getElem?_eq_getElem inside, rfl⟩

theorem matchList_pats (pats : List Pat) (parts : List Str) {i : Nat} (bound : i ≤ parts.length)
    (vars : List PathVar) :
    matchList (pats.map Pat.segment) parts i vars =
      match consume pats (parts.drop i) with
      | none => .miss
      | some (here, _) => .hit (i + here.length, vars) := by
  induction pats generalizing i with
  | nil => simp only [List.map_nil, matchList, consume, List.length_nil, Nat.add_zero]
  | cons pat pats ih =>
      simp only [List.map_cons, matchList]
      cases pat with
      | literal lit =>
          simp only [Pat.segment, matchSegment]
          cases tail : parts.drop i with
          | nil =>
              have beyond : parts[i]? = none :=
                List.getElem?_eq_none_iff.mpr (List.drop_eq_nil_iff.mp tail)
              simp only [beyond, reduceCtorEq, if_false, Outcome.bind, consume]
          | cons comp comps =>
              obtain ⟨inside, found, rest⟩ := drop_inside tail
              simp only [found, Option.some.injEq, consume]
              split
              · simp only [Outcome.bind, ih inside, rest]
                cases consume pats comps with
                | none => rfl
                | some result =>
                    simp only [Option.map_some, List.length_cons]
                    congr 2
                    omega
              · rfl
      | star =>
          simp only [Pat.segment, matchSegment]
          cases tail : parts.drop i with
          | nil =>
              have beyond : ¬ i < parts.length := Nat.not_lt.mpr (List.drop_eq_nil_iff.mp tail)
              simp only [beyond, if_false, Outcome.bind, consume]
          | cons comp comps =>
              obtain ⟨inside, found, rest⟩ := drop_inside tail
              simp only [inside, if_true, Outcome.bind, consume, ih inside, rest]
              cases consume pats comps with
              | none => rfl
              | some result =>
                  simp only [Option.map_some, List.length_cons]
                  congr 2
                  omega
      | rest =>
          simp only [Pat.segment, matchSegment, Outcome.bind, ih (Nat.le_refl _),
            List.drop_length, consume]
          cases consume pats [] with
          | none => rfl
          | some result =>
              simp only [Option.map_some, List.length_append, List.length_drop]
              congr 2
              omega

theorem Outcome.bind_hit {α : Type} (outcome : Outcome α) : outcome.bind .hit = outcome := by
  cases outcome <;> rfl

theorem matchSegment_pat (pat : Pat) (parts : List Str) {i : Nat} (bound : i ≤ parts.length)
    (vars : List PathVar) :
    matchSegment pat.segment parts i vars =
      match consume [pat] (parts.drop i) with
      | none => .miss
      | some (here, _) => .hit (i + here.length, vars) := by
  have single := matchList_pats [pat] parts bound vars
  simp only [List.map_cons, List.map_nil, matchList] at single
  rw [← single]
  exact (Outcome.bind_hit _).symm

/-- The index arithmetic of the matcher, once a run has been consumed. -/
theorem consume_drop {pats : List Pat} {parts here left : List Str} {i : Nat}
    (bound : i ≤ parts.length) (h : consume pats (parts.drop i) = some (here, left)) :
    i + here.length ≤ parts.length ∧ parts.drop (i + here.length) = left ∧
      (parts.take (i + here.length)).drop i = here := by
  obtain ⟨split, _⟩ := consume_append h
  have size := congrArg List.length split
  simp only [List.length_drop, List.length_append] at size
  refine ⟨by omega, ?_, ?_⟩
  · rw [← List.drop_drop, split, List.drop_left]
  · rw [List.drop_take, split, Nat.add_sub_cancel_left, List.take_left]

theorem matchList_segs (segs : List TSeg) (parts : List Str) {i : Nat} (bound : i ≤ parts.length)
    (vars : List PathVar) :
    matchList (segs.map TSeg.segment) parts i vars =
      (walk segs (parts.drop i)).bind fun (found, left) =>
        .hit (parts.length - left.length, vars ++ found) := by
  induction segs generalizing i vars with
  | nil =>
      simp only [List.map_nil, matchList, walk, Outcome.bind, List.length_drop, List.append_nil]
      congr 2
      omega
  | cons seg segs ih =>
      simp only [List.map_cons, matchList]
      cases seg with
      | plain pat =>
          simp only [TSeg.segment, matchSegment_pat pat parts bound, walk]
          cases taken : consume [pat] (parts.drop i) with
          | none => rfl
          | some result =>
              obtain ⟨here, left⟩ := result
              obtain ⟨bound, rest, _⟩ := consume_drop bound taken
              simp only [Outcome.bind, ih bound, rest]
      | var field sub =>
          simp only [TSeg.segment, matchSegment, matchList_pats _ parts bound, walk]
          cases taken : consume (sub.getD [.star]) (parts.drop i) with
          | none => rfl
          | some result =>
              obtain ⟨here, left⟩ := result
              obtain ⟨bound, rest, run⟩ := consume_drop bound taken
              simp only [Outcome.bind, run, decodeAll_eq, valueOf]
              cases here.mapM percentDecode with
              | none => rfl
              | some values =>
                  simp only [Option.map_some, ih bound, rest]
                  cases walk segs left with
                  | panic => rfl
                  | miss => rfl
                  | hit result => simp only [Outcome.bind, List.append_assoc, List.singleton_append]

theorem valueOf_none {comps : List Str} :
    valueOf comps = none ↔ ∃ comp ∈ comps, percentDecode comp = none := by
  induction comps with
  | nil => simp [valueOf]
  | cons comp comps ih =>
      rw [valueOf, Option.map_eq_none_iff] at ih ⊢
      cases decoded : percentDecode comp with
      | none => simp [List.mapM_cons, decoded]
      | some value =>
          cases rest : comps.mapM percentDecode with
          | none => simpa [List.mapM_cons, decoded, rest] using ih
          | some values => simpa [List.mapM_cons, decoded, rest] using ih

theorem walk_sound {segs : List TSeg} {comps left : List Str} {found : List PathVar}
    (h : walk segs comps = .hit (found, left)) :
    ∃ here vars, comps = here ++ left ∧ Denotes segs here vars ∧ capturesOf vars = some found := by
  induction segs generalizing comps found with
  | nil =>
      cases h
      exact ⟨[], [], rfl, .nil, rfl⟩
  | cons seg segs ih =>
      cases seg with
      | plain pat =>
          simp only [walk] at h
          split at h
          · cases h
          · rename_i run rest taken
            obtain ⟨rfl, covers⟩ := consume_append taken
            obtain ⟨here, vars, rfl, denotes, captures⟩ := ih h
            exact ⟨run ++ here, vars, (List.append_assoc ..).symm, .plain covers denotes, captures⟩
      | var field sub =>
          simp only [walk] at h
          split at h
          · cases h
          · rename_i run rest taken
            obtain ⟨rfl, covers⟩ := consume_append taken
            cases decoded : valueOf run with
            | none => simp only [decoded, reduceCtorEq] at h
            | some value =>
                simp only [decoded] at h
                cases behind : walk segs rest with
                | panic => simp only [behind, Outcome.bind, reduceCtorEq] at h
                | miss => simp only [behind, Outcome.bind, reduceCtorEq] at h
                | hit result =>
                    obtain ⟨more, left'⟩ := result
                    simp only [behind, Outcome.bind, Outcome.hit.injEq, Prod.mk.injEq] at h
                    obtain ⟨rfl, rfl⟩ := h
                    obtain ⟨here, vars, rfl, denotes, captures⟩ := ih behind
                    refine ⟨run ++ here, (field, run) :: vars, (List.append_assoc ..).symm,
                      .var covers denotes, ?_⟩
                    unfold capturesOf at captures ⊢
                    simp [List.mapM_cons, decoded, captures]

theorem Denotes.eq_nil {segs : List TSeg} {comps : List Str} {vars : List (FieldPath × List Str)}
    (denotes : Denotes segs comps vars) (none : segs.flatMap TSeg.pats = []) : comps = [] := by
  induction denotes with
  | nil => rfl
  | plain covers denotes ih =>
      rw [List.flatMap_cons, List.append_eq_nil_iff] at none
      cases none.1
  | var covers denotes ih =>
      rw [List.flatMap_cons, List.append_eq_nil_iff] at none
      simp only [TSeg.pats] at none
      rw [none.1] at covers
      cases covers
      exact ih none.2

/-- Under the rule for `**` the consumed run is the covered one, whatever follows. -/
theorem consume_exact {pats behind : List Pat} {here comps : List Str} (covers : Covers pats here)
    (last : RestLast (pats ++ behind)) (ends : behind = [] → comps = []) :
    consume pats (here ++ comps) = some (here, comps) := by
  rw [consume_covers covers last.left]
  split
  · rw [ends (last.behind ‹_›), List.append_nil]
  · rfl

theorem walk_complete {segs : List TSeg} {comps : List Str} {vars : List (FieldPath × List Str)}
    (denotes : Denotes segs comps vars) (last : RestLast (segs.flatMap TSeg.pats)) :
    walk segs comps = .panic ∨
      ∃ found, walk segs comps = .hit (found, []) ∧ capturesOf vars = some found := by
  induction denotes with
  | nil => exact .inr ⟨[], rfl, rfl⟩
  | @plain pat segs here comps vars covers denotes ih =>
      rw [List.flatMap_cons] at last
      simp only [walk, consume_exact covers last denotes.eq_nil]
      exact ih last.of_append
  | @var field sub segs here comps vars covers denotes ih =>
      rw [List.flatMap_cons] at last
      simp only [walk, consume_exact covers last denotes.eq_nil]
      cases decoded : valueOf here with
      | none => exact .inl rfl
      | some value =>
          rcases ih last.of_append with panics | ⟨found, walked, captures⟩
          · exact .inl (by rw [panics]; rfl)
          · refine .inr ⟨(field.names, value) :: found, by rw [walked]; rfl, ?_⟩
            unfold capturesOf at captures ⊢
            simp [List.mapM_cons, decoded, captures]

theorem walk_panic {segs : List TSeg} {comps : List Str} (h : walk segs comps = .panic) :
    ¬ Decodable segs comps := by
  induction segs generalizing comps with
  | nil => cases h
  | cons seg segs ih =>
      cases seg with
      | plain pat =>
          simp only [walk] at h
          split at h
          · cases h
          · rename_i run rest taken
            obtain ⟨rfl, covers⟩ := consume_append taken
            intro decodable
            apply ih h
            rintro before field sub after rfl front here behind vars rfl denotes inside
            exact decodable (.plain pat :: before) field sub after rfl (run ++ front) here behind
              vars (by simp only [List.append_assoc]) (.plain covers denotes) inside
      | var field sub =>
          simp only [walk] at h
          split at h
          · cases h
          · rename_i run rest taken
            obtain ⟨rfl, covers⟩ := consume_append taken
            intro decodable
            cases decoded : valueOf run with
            | none =>
                obtain ⟨comp, member, fails⟩ := valueOf_none.mp decoded
                exact decodable [] field sub segs rfl [] run rest [] rfl .nil covers comp member fails
            | some value =>
                rw [decoded] at h
                have panics : walk segs rest = .panic := by
                  cases behind : walk segs rest with
                  | panic => rfl
                  | miss => simp only [behind, Outcome.bind, reduceCtorEq] at h
                  | hit result => simp only [behind, Outcome.bind, reduceCtorEq] at h
                apply ih panics
                rintro before field' sub' after rfl front here behind vars rfl denotes inside
                exact decodable (.var field sub :: before) field' sub' after rfl (run ++ front) here
                  behind ((field, run) :: vars) (by simp only [List.append_assoc])
                  (.var covers denotes) inside

theorem walk_panics {before after : List TSeg} {field : FieldPath} {sub : Option (List Pat)}
    {front here : List Str} {vars : List (FieldPath × List Str)} {comp : Str}
    (denotes : Denotes before front vars) (covers : Covers (sub.getD [.star]) here)
    (last : RestLast ((before ++ .var field sub :: after).flatMap TSeg.pats))
    (member : comp ∈ here) (fails : percentDecode comp = none) (behind : List Str) :
    walk (before ++ .var field sub :: after) (front ++ (here ++ behind)) = .panic := by
  have later : ∀ segs : List TSeg, (segs ++ .var field sub :: after).flatMap TSeg.pats ≠ [] := by
    intro segs none
    simp only [List.flatMap_append, List.flatMap_cons, TSeg.pats, List.append_eq_nil_iff] at none
    rw [none.2.1] at covers
    cases covers
    cases member
  induction denotes with
  | nil =>
      simp only [List.nil_append, List.flatMap_cons] at last
      have taken := consume_covers covers last.left behind
      have stuck : ∀ more, valueOf (here ++ more) = none := fun more =>
        valueOf_none.mpr ⟨comp, List.mem_append_left _ member, fails⟩
      by_cases greedy : Pat.rest ∈ sub.getD [.star]
      · rw [if_pos greedy] at taken
        simp only [List.nil_append, walk, taken, stuck]
      · rw [if_neg greedy] at taken
        have alone := stuck []
        rw [List.append_nil] at alone
        simp only [List.nil_append, walk, taken, alone]
  | @plain pat segs run comps vars plain denotes ih =>
      simp only [List.cons_append, List.flatMap_cons] at last
      have taken : consume [pat] (run ++ (comps ++ (here ++ behind))) =
          some (run, comps ++ (here ++ behind)) :=
        consume_exact plain last fun none => absurd none (later segs)
      simp only [List.cons_append, List.append_assoc, walk, taken]
      exact ih last.of_append
  | @var field' sub' segs run comps vars inside denotes ih =>
      simp only [List.cons_append, List.flatMap_cons] at last
      have taken : consume (sub'.getD [.star]) (run ++ (comps ++ (here ++ behind))) =
          some (run, comps ++ (here ++ behind)) :=
        consume_exact inside last fun none => absurd none (later segs)
      simp only [List.cons_append, List.append_assoc, walk, taken]
      cases valueOf run with
      | none => rfl
      | some value => simp only [ih last.of_append, Outcome.bind]

theorem walk_panic_iff {segs : List TSeg} (last : RestLast (segs.flatMap TSeg.pats))
    (comps : List Str) : walk segs comps = .panic ↔ ¬ Decodable segs comps := by
  refine ⟨walk_panic, ?_⟩
  intro stuck
  simp only [Decodable, not_forall] at stuck
  obtain ⟨before, field, sub, after, rfl, front, here, behind, vars, rfl, denotes, covers, comp,
    member, fails⟩ := stuck
  rw [List.append_assoc]
  exact walk_panics denotes covers last member (Classical.not_not.mp fails) behind

theorem SplitVerb.nil_iff {comps : List Str} {verb : Str} :
    SplitVerb [] comps verb ↔ comps = [] ∧ verb = [] := by
  constructor
  · intro split
    generalize empty : ([] : List Str) = parts at split
    cases split with
    | empty => exact ⟨rfl, rfl⟩
    | bare => simp at empty
    | verb => simp at empty
  · rintro ⟨rfl, rfl⟩
    exact .empty

theorem SplitVerb.bare_iff {init comps : List Str} {last verb : Str} (free : ':' ∉ last) :
    SplitVerb (init ++ [last]) comps verb ↔ comps = init ++ [last] ∧ verb = [] := by
  constructor
  · intro split
    generalize whole : init ++ [last] = parts at split
    cases split with
    | empty => simp at whole
    | bare _ => exact ⟨rfl, rfl⟩
    | verb _ _ =>
        obtain ⟨_, rfl⟩ := List.append_singleton_inj.mp whole
        simp at free
  · rintro ⟨rfl, rfl⟩
    exact .bare free

theorem SplitVerb.verb_iff {init comps : List Str} {head text verb : Str} (free : ':' ∉ head) :
    SplitVerb (init ++ [head ++ ':' :: text]) comps verb ↔
      head ≠ [] ∧ comps = init ++ [head] ∧ verb = text := by
  constructor
  · intro split
    generalize whole : init ++ [head ++ ':' :: text] = parts at split
    cases split with
    | empty => simp at whole
    | bare colon =>
        obtain ⟨_, rfl⟩ := List.append_singleton_inj.mp whole
        simp at colon
    | @verb init' head' text' free' nonempty =>
        obtain ⟨rfl, same⟩ := List.append_singleton_inj.mp whole
        have once := Text.splitOnce_append free text
        rw [same, Text.splitOnce_append free'] at once
        cases once
        exact ⟨nonempty, rfl, rfl⟩
  · rintro ⟨nonempty, rfl, rfl⟩
    exact .verb free nonempty

theorem stripVerb_iff {verb : Str} {parts comps : List Str} :
    stripVerb verb parts = some comps ↔ SplitVerb parts comps verb := by
  rcases List.eq_nil_or_concat parts with rfl | ⟨init, last, rfl⟩
  · rw [SplitVerb.nil_iff]
    simp [stripVerb, eq_comm, and_comm]
  · rw [List.concat_eq_append]
    simp only [stripVerb, List.getLast?_concat, List.dropLast_concat]
    by_cases colon : ':' ∈ last
    · obtain ⟨head, text, rfl, free⟩ := List.eq_append_cons_of_mem colon
      rw [SplitVerb.verb_iff free, Text.splitOnce_append free]
      simp only [Option.getD_some, colon, and_true, Option.ite_none_left_eq_some, not_or,
        Classical.not_not, Option.some.injEq]
      constructor
      · rintro ⟨⟨rfl, nonempty⟩, rfl⟩
        exact ⟨nonempty, rfl, rfl⟩
      · rintro ⟨nonempty, rfl, rfl⟩
        exact ⟨⟨rfl, nonempty⟩, rfl⟩
    · rw [SplitVerb.bare_iff colon, Text.splitOnce_none.mpr colon]
      simp only [Option.getD_none, colon, and_false, or_false, Option.ite_none_left_eq_some,
        Classical.not_not, Option.some.injEq, ne_eq]
      constructor
      · rintro ⟨rfl, rfl⟩
        exact ⟨rfl, rfl⟩
      · rintro ⟨rfl, rfl⟩
        exact ⟨rfl, rfl⟩

/-- The matcher on segments of the grammar, as a walk over the components. -/
theorem matchSegments_eq (segs : List TSeg) (verb path : Str) :
    matchSegments (segs.map TSeg.segment) verb path =
      match stripVerb verb (Text.fields '/' path) with
      | none => .miss
      | some comps => (walk segs comps).bind fun (found, left) =>
          if left = [] then .hit found else .miss := by
  simp only [matchSegments, Text.fields_trimMatches]
  cases stripVerb verb (Text.fields '/' path) with
  | none => rfl
  | some comps =>
      simp only [matchList_segs segs comps (Nat.zero_le _), List.drop_zero, List.nil_append]
      cases walked : walk segs comps with
      | panic => rfl
      | miss => rfl
      | hit result =>
          obtain ⟨found, left⟩ := result
          obtain ⟨here, vars, rfl, _, _⟩ := walk_sound walked
          have ends : (here ++ left).length - left.length = (here ++ left).length ↔ left = [] := by
            rw [List.length_append, ← List.length_eq_zero_iff]
            omega
          simp only [Outcome.bind, ends]

theorem outcome_eq (t : Template) (path : Str) :
    outcome t path = match stripVerb t.verbText (Text.fields '/' path) with
      | none => .miss
      | some comps => (walk t.segs comps).bind fun (found, left) =>
          if left = [] then .hit found else .miss := by
  simp only [outcome, parseTemplate_text]
  exact matchSegments_eq t.segs t.verbText path

/-- Every component tried against a variable decodes, once the verb has matched. -/
def PathDecodable (t : Template) (path : Str) : Prop :=
  ∀ comps, SplitVerb (Text.fields '/' path) comps t.verbText → Decodable t.segs comps

/-- Matching is the denotation of the grammar exactly where no component a
variable is tried on makes `percent_decode` panic. -/
theorem match_decides_language_iff (t : Template) (path : Str) :
    DecidesLanguage t path ↔ PathDecodable t path := by
  rw [DecidesLanguage, outcome_eq]
  cases split : stripVerb t.verbText (Text.fields '/' path) with
  | none =>
      have outside : ∀ comps, ¬ SplitVerb (Text.fields '/' path) comps t.verbText := by
        intro comps inside
        rw [stripVerb_iff.mpr inside] at split
        cases split
      refine iff_of_true ?_ fun comps inside => absurd inside (outside comps)
      rintro vars ⟨comps, inside, _⟩
      exact outside comps inside
  | some comps =>
      have only : ∀ comps', SplitVerb (Text.fields '/' path) comps' t.verbText ↔ comps' = comps := by
        intro comps'
        rw [← stripVerb_iff, split, Option.some.injEq, eq_comm]
      have language : ∀ vars, InLanguage t path vars ↔ Denotes t.segs comps vars := by
        intro vars
        simp only [InLanguage, only, exists_eq_left]
      simp only [PathDecodable, only, forall_eq, language]
      rw [← Classical.not_not (a := Decodable t.segs comps), ← walk_panic_iff t.restLast]
      cases walked : walk t.segs comps with
      | panic => simp [Outcome.bind]
      | miss =>
          simp only [Outcome.bind, reduceCtorEq, not_false_eq_true, iff_true]
          intro vars denotes
          rcases walk_complete denotes t.restLast with other | ⟨found, other, _⟩
          · rw [walked] at other
            cases other
          · rw [walked] at other
            cases other
      | hit result =>
          obtain ⟨found, left⟩ := result
          obtain ⟨here, vars, whole, denotes, captures⟩ := walk_sound walked
          have agree : ∀ vars, Denotes t.segs comps vars →
              left = [] ∧ capturesOf vars = some found := by
            intro vars denotes
            rcases walk_complete denotes t.restLast with other | ⟨found', other, captures⟩
            · rw [walked] at other
              cases other
            · rw [walked] at other
              cases other
              exact ⟨rfl, captures⟩
          simp only [Outcome.bind, reduceCtorEq, not_false_eq_true, iff_true]
          by_cases ends : left = []
          · subst ends
            rw [List.append_nil] at whole
            subst whole
            rw [if_pos rfl]
            exact ⟨⟨vars, denotes⟩, fun vars denotes => (agree vars denotes).2⟩
          · rw [if_neg ends]
            intro vars denotes
            exact ends (agree vars denotes).1

/-- The template `/v1/{x}`. -/
def shallow : Template where
  segs := [.plain (.literal ⟨"v1".toList, by decide, by simp [reserved], by decide, by decide⟩),
    .var ⟨["x".toList], by decide, by simp [reserved]⟩ none]
  verb := none
  restLast := RestLast.of_not_mem (by decide)

/-- A percent sign one byte before a two byte character: the slice behind it panics. -/
theorem match_panics_on_split_character : ¬ DecidesLanguage shallow "/v1/%aé".toList := by
  have fails : percentDecode "%aé".toList = none := by decide
  have parts : Text.fields '/' "/v1/%aé".toList = ["v1".toList, "%aé".toList] := by decide
  have strip : stripVerb shallow.verbText ["v1".toList, "%aé".toList] =
      some ["v1".toList, "%aé".toList] := by decide
  have covers : Covers (Option.getD none [.star]) ["%aé".toList] := .star _ .nil
  have panics : walk shallow.segs (["v1".toList] ++ (["%aé".toList] ++ [])) = .panic :=
    walk_panics (.plain (.literal .nil) .nil) covers shallow.restLast
      List.mem_cons_self fails []
  simp only [List.append_nil, List.cons_append, List.nil_append] at panics
  simp only [DecidesLanguage, outcome_eq, parts, strip, panics, Outcome.bind, not_false_eq_true]

end GrpcWebnext.HttpRule
