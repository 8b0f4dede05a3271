import GrpcWebnext.RustClient.StreamEnd

/-! What the cuts between the chunks of a response body change in what a stream of the Rust
client gives out. -/
namespace GrpcWebnext.RustClient
open Framing (Bytes)

section
variable (max : Option Nat)

/-- A frame the client takes for a message: not compressed, and within the limit. -/
def accepted (frame : UInt8 × Bytes) : Bool := frame.1 = 0 ∧ fits max frame.2.length = true

/-- The bytes behind the messages. -/
def left (stream : Bytes) : Bytes := (Scan.scan (nextMessage max) stream).2

/-- The stream has a frame that is compressed or over the limit, complete up to its header. -/
def Offends (stream : Bytes) : Prop := (refusal max (left max stream)).isSome = true

instance (stream : Bytes) : Decidable (Offends max stream) := inferInstanceAs (Decidable (_ = true))

theorem not_offends_nil : ¬ Offends max [] := Bool.false_ne_true

/-- What a stream of bytes is to be read as, and the event that closes it: the messages in
front of the first offending frame, and the error of that frame, or else what the end makes
of the rest. -/
def reading (stream : Bytes) (close : BodyEvent) : List Bytes × Option Answer :=
  (((Framing.parse stream).1.takeWhile (accepted max)).map Prod.snd,
    match refusal max (left max stream) with
    | some status => some (.error status)
    | none => (told max (left max stream) [close]).2)

/-- The chunk that brings the header of the first offending frame completes no message: the
messages in front of that frame were complete before. -/
def Held (before : Bytes) (chunks : List Bytes) : Prop :=
  ∀ early chunk late, chunks = early ++ chunk :: late → ¬ Offends max (before ++ early.flatten) →
    Offends max (before ++ early.flatten ++ chunk) →
      deframed max (before ++ early.flatten ++ chunk) = deframed max (before ++ early.flatten)

end

section
variable {max : Option Nat}

/-- The tests on a header, with the length at hand. -/
theorem accept_eq (flag : UInt8) (rest : Bytes) (len : Nat) :
    (if flag = 0 ∧ fits max len ∧ len ≤ rest.length then some (rest.take len, rest.drop len) else none) =
      (if len ≤ rest.length then some ((flag, rest.take len), rest.drop len) else none).bind fun item =>
        if accepted max item.1 = true then some (item.1.2, item.2) else none := by
  by_cases complete : len ≤ rest.length
  · have size : (rest.take len).length = len := by
      rw [List.length_take, Nat.min_eq_left complete]
    simp only [complete, and_true, if_true, Option.bind_some, accepted, size, decide_eq_true_eq]
  · simp only [complete, and_false, if_false, Option.bind_none]

/-- A message is a frame that is accepted. -/
theorem nextMessage_eq (bytes : Bytes) :
    nextMessage max bytes = (Framing.nextFrame bytes).bind fun item =>
      if accepted max item.1 = true then some (item.1.2, item.2) else none := by
  match bytes with
  | flag :: a :: b :: c :: d :: rest => exact accept_eq flag rest (Framing.ofBe32 a b c d)
  | [] | [_] | [_, _] | [_, _, _] | [_, _, _, _] => rfl

/-- The messages are the frames that the whole parse finds, up to the first that is refused. -/
theorem deframed_eq (stream : Bytes) :
    deframed max stream = ((Framing.parse stream).1.takeWhile (accepted max)).map Prod.snd := by
  induction stream using Scan.scan_induct Framing.nextFrame_shrinks with
  | stop bs incomplete =>
      have none : nextMessage max bs = none := by
        rw [nextMessage_eq, incomplete]
        rfl
      rw [Framing.parse, Scan.scan_none incomplete, deframed, Scan.scan_none none]
      rfl
  | cut bs frame rest taken ih =>
      rw [Framing.parse, Scan.scan_some Framing.nextFrame_shrinks taken]
      have next : nextMessage max bs = _ := nextMessage_eq bs
      rw [taken, Option.bind_some] at next
      by_cases accepts : accepted max frame = true
      · rw [if_pos accepts] at next
        rw [deframed, Scan.scan_some (nextMessage_shrinks max) next, List.takeWhile_cons_of_pos accepts,
          List.map_cons, ← Framing.parse, ← ih, deframed]
      · rw [if_neg accepts] at next
        rw [deframed, Scan.scan_none next, List.takeWhile_cons_of_neg accepts]
        rfl

theorem deframed_append (stream more : Bytes) :
    deframed max (stream ++ more) = deframed max stream ++ deframed max (left max stream ++ more) := by
  rw [deframed, scan_more]
  rfl

theorem left_append (stream more : Bytes) :
    left max (stream ++ more) = left max (left max stream ++ more) := by
  rw [left, scan_more]
  rfl

/-- A refused header stays refused, with whatever follows. -/
theorem refusal_more {bytes : Bytes} {status : Status} (refused : refusal max bytes = some status)
    (more : Bytes) :
    refusal max (bytes ++ more) = some status := by
  match bytes, refused with
  | _ :: _ :: _ :: _ :: _ :: _, refused => exact refused

theorem refused_append {stream : Bytes} {status : Status}
    (refused : refusal max (left max stream) = some status)
    (more : Bytes) : deframed max (stream ++ more) = deframed max stream ∧
      refusal max (left max (stream ++ more)) = some status := by
  have stuck := (refusal_extends refused more).1
  have none : deframed max (left max stream ++ more) = [] := by
    rw [deframed, Scan.scan_none stuck]
  have rest : left max (left max stream ++ more) = left max stream ++ more := by
    rw [left, Scan.scan_none stuck]
  rw [deframed_append, left_append, none, rest, List.append_nil]
  exact ⟨rfl, refusal_more refused more⟩

theorem Offends.append {stream : Bytes} (offends : Offends max stream) (more : Bytes) :
    Offends max (stream ++ more) := by
  obtain ⟨status, refused⟩ := Option.isSome_iff_exists.mp offends
  rw [Offends, (refused_append refused more).2]
  rfl

theorem held_nil (before : Bytes) : Held max before [] := by
  intro early chunk late split
  simp at split

/-- Only the first chunk, and those behind it, matter. -/
theorem held_cons (before chunk : Bytes) (chunks : List Bytes) :
    Held max before (chunk :: chunks) ↔
      (¬ Offends max before → Offends max (before ++ chunk) →
        deframed max (before ++ chunk) = deframed max before) ∧ Held max (before ++ chunk) chunks := by
  constructor
  · intro held
    constructor
    · have here := held [] chunk chunks rfl
      rw [List.flatten_nil, List.append_nil] at here
      exact here
    · intro early other late split
      have there := held (chunk :: early) other late (by rw [split, List.cons_append])
      rw [List.flatten_cons, ← List.append_assoc] at there
      exact there
  · rintro ⟨here, there⟩ early other late split
    cases early with
    | nil =>
        cases split
        rw [List.flatten_nil, List.append_nil]
        exact here
    | cons first early =>
        cases split
        rw [List.flatten_cons, ← List.append_assoc]
        exact there early other late rfl

/-- Behind an offending frame the cuts do not matter. -/
theorem held_of_offends {before : Bytes} (offends : Offends max before) (chunks : List Bytes) :
    Held max before chunks := by
  intro early chunk late _ quiet
  exact absurd (offends.append early.flatten) quiet

/-- What a stream is told behind some of its bytes is the reading of all of it exactly when
the cuts hold. The induction is on the chunks, the bytes before them being read. -/
theorem told_eq_reading_iff {close : BodyEvent} (closes : ∀ bytes, close ≠ .chunk bytes)
    (chunks : List Bytes) :
    ∀ before, ¬ Offends max before →
      ((deframed max before ++ (told max (left max before) (chunks.map BodyEvent.chunk ++ [close])).1,
          (told max (left max before) (chunks.map BodyEvent.chunk ++ [close])).2) =
        reading max (before ++ chunks.flatten) close ↔ Held max before chunks) := by
  induction chunks with
  | nil =>
      intro before quiet
      have none : refusal max (left max before) = none := Option.not_isSome_iff_eq_none.mp quiet
      have silent : (told max (left max before) [close]).1 = [] := by
        cases close with
        | chunk bytes => exact absurd rfl (closes bytes)
        | failed reason | deadline | ended => rfl
      rw [List.map_nil, List.nil_append, List.flatten_nil, List.append_nil, reading, none, ← deframed_eq,
        silent, List.append_nil]
      exact iff_of_true rfl (held_nil before)
  | cons chunk chunks ih =>
      intro before quiet
      have grown : deframed max (before ++ chunk) = _ := deframed_append before chunk
      rw [List.map_cons, List.cons_append, List.flatten_cons, ← List.append_assoc, held_cons, told, push_eq]
      rw [← left, ← left_append]
      cases refused : refusal max (left max (before ++ chunk)) with
      | some status =>
          have offends : Offends max (before ++ chunk) := by
            rw [Offends, refused]
            rfl
          obtain ⟨same, still⟩ := refused_append refused chunks.flatten
          simp only [List.append_nil]
          rw [reading, ← deframed_eq, same, still]
          constructor
          · intro equal
            have first : deframed max before = deframed max (before ++ chunk) := (Prod.mk.inj equal).1
            exact ⟨fun _ _ => first.symm, held_of_offends offends chunks⟩
          · rintro ⟨here, _⟩
            rw [here quiet offends]
      | none =>
          have quiet' : ¬ Offends max (before ++ chunk) := by
            rw [Offends, refused]
            decide
          have rest := ih (before ++ chunk) quiet'
          rw [grown, List.append_assoc, left_append before chunk] at rest
          rw [and_iff_right fun _ offends => absurd offends quiet', ← rest]
          rfl

end

/-- The answers of a stream settle what it is told. -/
theorem answers_injective {messages others : List Bytes} {last final : Option Answer}
    (lastOther : ∀ message, last ≠ said message) (finalOther : ∀ message, final ≠ said message)
    (same : ∀ n : Nat, ((messages.map said)[n]?).getD last = ((others.map said)[n]?).getD final) :
    messages = others ∧ last = final := by
  have beyond : ∀ (list : List Bytes) (answer : Option Answer),
      ((list.map said)[list.length]?).getD answer = answer := by
    intro list answer
    rw [List.getElem?_eq_none (by rw [List.length_map]), Option.getD_none]
  have inside : ∀ (list : List Bytes) (answer : Option Answer) (n : Nat) (short : n < list.length),
      ((list.map said)[n]?).getD answer = said list[n] := by
    intro list answer n short
    rw [List.getElem?_map, List.getElem?_eq_getElem short]
    rfl
  have atMost : others.length ≤ messages.length := by
    by_contra longer
    have here := same messages.length
    rw [beyond, inside _ _ _ (Nat.lt_of_not_le longer)] at here
    exact lastOther _ here
  have atLeast : messages.length ≤ others.length := by
    by_contra longer
    have here := same others.length
    rw [beyond, inside _ _ _ (Nat.lt_of_not_le longer)] at here
    exact finalOther _ here.symm
  have sized : messages.length = others.length := Nat.le_antisymm atLeast atMost
  constructor
  · apply List.ext_getElem sized
    intro n short short'
    have here := same n
    rw [inside _ _ _ short, inside _ _ _ short'] at here
    simpa [said] using here
  · have here := same messages.length
    rw [beyond, sized, beyond] at here
    exact here

/-- A stream over the chunks of a body and the event that closes it. -/
def overChunks (max : Option Nat) (chunks : List Bytes) (close : BodyEvent)
    (trailers : Option Headers) : Streaming :=
  .new max (chunks.map BodyEvent.chunk ++ [close]) trailers

/-- The answers to a reader of the messages and then, for ever, of the last answer. -/
def answersOf (given : List Bytes × Option Answer) (n : Nat) : Option Answer :=
  ((given.1.map said)[n]?).getD given.2

theorem reading_other (max : Option Nat) (stream : Bytes) (close : BodyEvent) (message : Bytes) :
    (reading max stream close).2 ≠ said message := by
  unfold reading
  cases refusal max (left max stream) with
  | some status => exact fun impossible => by cases impossible
  | none => exact told_other max [close] (left max stream) message

/-- A stream answers what its bytes are to be read as exactly when its cuts hold. -/
theorem answers_reading_iff (max : Option Nat) (chunks : List Bytes) {close : BodyEvent}
    (closes : ∀ bytes, close ≠ .chunk bytes) (trailers : Option Headers) :
    (overChunks max chunks close trailers).answer = answersOf (reading max chunks.flatten close) ↔
      Held max [] chunks := by
  have polls : (overChunks max chunks close trailers).Polls := ⟨rfl, rfl, rfl⟩
  have answers : (overChunks max chunks close trailers).answer =
      answersOf (told max [] (chunks.map BodyEvent.chunk ++ [close])) :=
    funext (Streaming.answer_eq _ _ polls rfl)
  have pairs : told max [] (chunks.map BodyEvent.chunk ++ [close]) = reading max chunks.flatten close ↔
      Held max [] chunks := told_eq_reading_iff closes chunks [] (not_offends_nil max)
  rw [answers, ← pairs]
  constructor
  · intro same
    obtain ⟨messages, last⟩ :=
      answers_injective (told_other max _ []) (reading_other max _ close) (congrFun same)
    exact Prod.ext messages last
  · intro same
    rw [same]

/-- Of two ways to cut one body, both make the stream give out all messages in front of the
first offending frame and then its error, and so the same, exactly when in both the chunk that
brings the header of that frame completes no message. -/
theorem chunking_immaterial_iff (max : Option Nat) {first second : List Bytes}
    (same : first.flatten = second.flatten) {close : BodyEvent} (closes : ∀ bytes, close ≠ .chunk bytes)
    (trailers : Option Headers) :
    ((overChunks max first close trailers).answer = (overChunks max second close trailers).answer ∧
        (overChunks max first close trailers).answer = answersOf (reading max first.flatten close)) ↔
      Held max [] first ∧ Held max [] second := by
  rw [← answers_reading_iff max first closes trailers,
    ← answers_reading_iff max second closes trailers, ← same]
  constructor
  · rintro ⟨alike, read⟩
    exact ⟨read, alike.symm.trans read⟩
  · rintro ⟨inFirst, inSecond⟩
    exact ⟨inFirst.trans inSecond.symm, inFirst⟩

/-- A message, and the header of a compressed one. -/
def goodThenBad : List Bytes := [encodeMessage [7], [1, 0, 0, 0, 0]]

/-- Cut between the two, and in front of the last byte as well, the message comes out. -/
theorem cut_between_holds :
    (overChunks none goodThenBad .ended none).answer =
      (overChunks none [encodeMessage [7], [1, 0, 0, 0], [0]] .ended none).answer := by
  have two : Held none [] goodThenBad :=
    (held_cons _ _ _).mpr ⟨by decide, (held_cons _ _ _).mpr ⟨by decide, held_nil _⟩⟩
  have three : Held none [] [encodeMessage [7], [1, 0, 0, 0], [0]] :=
    (held_cons _ _ _).mpr ⟨by decide, (held_cons _ _ _).mpr
      ⟨by decide, (held_cons _ _ _).mpr ⟨by decide, held_nil _⟩⟩⟩
  exact ((chunking_immaterial_iff none (by decide) (by simp) none).mpr ⟨two, three⟩).1

/-- In one chunk the message is lost; cut between the two frames it is given out, as it is
to be read. -/
theorem joined_chunk_loses_message :
    (overChunks none goodThenBad .ended none).answer 0 = said [7] ∧
    (overChunks none [goodThenBad.flatten] .ended none).answer 0 =
      some (.error (.new Code.unimplemented "compressed gRPC messages are not supported by this client")) ∧
    (reading none goodThenBad.flatten .ended).1 = [[7]] ∧
    ¬ ∀ first second : List Bytes, first.flatten = second.flatten →
      (overChunks none first .ended none).answer = (overChunks none second .ended none).answer := by
  have apart : (overChunks none goodThenBad .ended none).answer 0 = said [7] := rfl
  have joined : (overChunks none [goodThenBad.flatten] .ended none).answer 0 =
      some (.error (.new Code.unimplemented
        "compressed gRPC messages are not supported by this client")) := rfl
  refine ⟨apart, joined, by decide, fun alike => ?_⟩
  have same := congrFun (alike goodThenBad [goodThenBad.flatten] (by decide)) 0
  rw [apart, joined] at same
  cases same

end GrpcWebnext.RustClient
