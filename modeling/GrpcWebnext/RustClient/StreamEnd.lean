import GrpcWebnext.RustClient.Streaming

/-! What a stream of the Rust client gives out over any events: messages in order, one lasting
end, and OK only for a body and trailers that say so. -/
namespace GrpcWebnext.RustClient
open Framing (Bytes)

/-- The bytes of the chunks among the events. -/
def chunkBytes : List BodyEvent → Bytes
  | [] => []
  | .chunk bytes :: rest => bytes ++ chunkBytes rest
  | _ :: rest => chunkBytes rest

theorem chunkBytes_append (chunks : List Bytes) (rest : List BodyEvent) :
    chunkBytes (chunks.map BodyEvent.chunk ++ rest) = chunks.flatten ++ chunkBytes rest := by
  induction chunks with
  | nil => rfl
  | cons bytes chunks ih =>
      rw [List.map_cons, List.cons_append, chunkBytes, ih, List.flatten_cons, List.append_assoc]

/-- A stream is told the messages of all chunks before the event that ended it. -/
theorem told_messages (max : Option Nat) (events : List BodyEvent) : ∀ buffer, nextMessage max buffer = none →
    ∃ (chunks : List Bytes) (rest : List BodyEvent), events = chunks.map BodyEvent.chunk ++ rest ∧
      (told max buffer events).1 = deframed max (buffer ++ chunks.flatten) ∧
      (rest = [] ↔ (told max buffer events).2 = none) := by
  induction events with
  | nil =>
      intro buffer incomplete
      refine ⟨[], [], rfl, ?_, iff_of_true rfl rfl⟩
      rw [List.flatten_nil, List.append_nil, deframed, Scan.scan_none incomplete]
      rfl
  | cons event rest ih =>
      intro buffer incomplete
      have none_ : deframed max (buffer ++ ([] : List Bytes).flatten) = [] := by
        rw [List.flatten_nil, List.append_nil, deframed, Scan.scan_none incomplete]
      cases event with
      | chunk bytes =>
          simp only [told]
          split
          · rename_i messages left pushed
            have stuck := Scan.scan_left (nextMessage_shrinks max) (buffer ++ bytes)
            rw [push_ok pushed] at stuck
            obtain ⟨chunks, rest', split, same, ends⟩ := ih left stuck
            refine ⟨bytes :: chunks, rest', by rw [split]; rfl, ?_, ends⟩
            rw [List.flatten_cons, ← List.append_assoc, deframed, scan_more, push_ok pushed, same]
            rfl
          · exact ⟨[], _, rfl, none_.symm, by simp⟩
      | failed reason => exact ⟨[], _, rfl, none_.symm, by simp [told]⟩
      | deadline => exact ⟨[], _, rfl, none_.symm, by simp [told]⟩
      | ended => exact ⟨[], _, rfl, none_.symm, by simp [told]⟩

/-- The body ended by itself behind these events: chunks of whole messages, and its end. -/
def EndedWell (max : Option Nat) (buffer : Bytes) (events : List BodyEvent) : Prop :=
  ∃ (chunks : List Bytes) (rest : List BodyEvent), events = chunks.map BodyEvent.chunk ++ .ended :: rest ∧
    Whole max (buffer ++ chunks.flatten)

theorem told_ended_iff (max : Option Nat) (events : List BodyEvent) :
    ∀ buffer, nextMessage max buffer = none →
    ((told max buffer events).2 = some (.ok none) ↔ EndedWell max buffer events) := by
  induction events with
  | nil =>
      intro buffer _
      refine iff_of_false (by simp [told]) ?_
      rintro ⟨chunks, rest, impossible, _⟩
      cases chunks <;> cases impossible
  | cons event rest ih =>
      intro buffer incomplete
      have other : (∀ bytes, event ≠ .chunk bytes) → event ≠ .ended →
        ¬ EndedWell max buffer (event :: rest) := by
        rintro unchunked unended ⟨chunks, rest', split, _⟩
        cases chunks with
        | nil => exact unended (List.cons.inj split).1
        | cons bytes chunks => exact unchunked bytes (List.cons.inj split).1
      cases event with
      | chunk bytes =>
          have onward : EndedWell max buffer (.chunk bytes :: rest) ↔
              EndedWell max (Scan.scan (nextMessage max) (buffer ++ bytes)).2 rest := by
            have same : ∀ chunks : List Bytes, Whole max (buffer ++ (bytes :: chunks).flatten) ↔
                Whole max ((Scan.scan (nextMessage max) (buffer ++ bytes)).2 ++ chunks.flatten) := by
              intro chunks
              rw [whole_iff, whole_iff, List.flatten_cons, ← List.append_assoc, scan_more]
            constructor
            · rintro ⟨chunks, rest', split, whole⟩
              cases chunks with
              | nil => cases split
              | cons first chunks =>
                  cases split
                  exact ⟨chunks, rest', rfl, (same chunks).mp whole⟩
            · rintro ⟨chunks, rest', rfl, whole⟩
              exact ⟨bytes :: chunks, rest', rfl, (same chunks).mpr whole⟩
          rw [onward]
          simp only [told]
          split
          · rename_i messages left pushed
            rw [push_ok pushed]
            have stuck := Scan.scan_left (nextMessage_shrinks max) (buffer ++ bytes)
            rw [push_ok pushed] at stuck
            exact ih left stuck
          · rename_i status pushed
            refine iff_of_false (by simp) ?_
            rintro ⟨chunks, rest', _, whole⟩
            obtain ⟨stuck, some_⟩ := refusal_extends (push_error pushed) chunks.flatten
            rw [whole_iff, Scan.scan_none stuck] at whole
            exact some_ (List.append_eq_nil_iff.mp whole).1
      | failed reason =>
          exact iff_of_false (by simp [told])
            (other (fun _ same => by cases same) (fun same => by cases same))
      | deadline =>
          exact iff_of_false (by simp [told])
            (other (fun _ same => by cases same) (fun same => by cases same))
      | ended =>
          have here : EndedWell max buffer (.ended :: rest) ↔ buffer = [] := by
            constructor
            · rintro ⟨chunks, rest', split, whole⟩
              cases chunks with
              | nil =>
                  rw [List.flatten_nil, List.append_nil, whole_iff, Scan.scan_none incomplete] at whole
                  exact whole
              | cons first chunks => cases split
            · rintro rfl
              exact ⟨[], rest, rfl, [], rfl, fun m inside => by cases inside⟩
          rw [here]
          simp only [told]
          cases buffer with
          | nil => simp
          | cons b buffer => simp

theorem told_other (max : Option Nat) (events : List BodyEvent) :
    ∀ buffer message, (told max buffer events).2 ≠ said message := by
  induction events with
  | nil =>
      intro buffer message impossible
      cases impossible
  | cons event rest ih =>
      intro buffer message
      cases event with
      | chunk bytes =>
          simp only [told]
          split
          · exact ih _ message
          · simp [said]
      | failed reason => simp [told, said]
      | deadline => simp [told, said]
      | ended =>
          simp only [told, said]
          split <;> simp

/-- The errors that `message` returns are no OK. -/
theorem told_error (max : Option Nat) (events : List BodyEvent) :
    ∀ buffer status, (told max buffer events).2 = some (.error status) → status.isOk = false := by
  induction events with
  | nil =>
      intro buffer status given
      cases given
  | cons event rest ih =>
      intro buffer status given
      cases event with
      | chunk bytes =>
          simp only [told] at given
          split at given
          · exact ih _ _ given
          · rename_i pushed
            cases given
            exact refusal_error (push_error pushed)
      | failed reason =>
          cases given
          rfl
      | deadline =>
          cases given
          rfl
      | ended =>
          simp only [told] at given
          split at given
          · cases given
            rfl
          · cases given

/-- The trailers carry a `grpc-status` that parses to 0. -/
def CarryOk (trailers : Option Headers) : Prop :=
  ((trailers.bind fun block => block.get "grpc-status").bind fun raw => parseI32 (trim raw)) = some 0

theorem statusOfTrailers_isOk (trailers : Option Headers) :
    (statusOfTrailers trailers).isOk ↔ CarryOk trailers := by
  unfold CarryOk
  cases trailers with
  | none => simp [statusOfTrailers, Status.isOk, Status.new, Code.internal, Code.ok]
  | some block =>
      rw [Option.bind_some, ← fromHeaders_isOk, statusOfTrailers]
      cases Status.fromHeaders block with
      | none => simp [Status.isOk, Status.new, Code.internal, Code.ok]
      | some status => simp

/-- A stream gives out the messages of the chunks before the event that ends it, in order, and
from then on one and the same answer: its end, an error, or nothing yet. Wherever `finish` takes
over, it returns OK exactly when the body has ended well and the trailers carry an OK. -/
theorem streaming_sound (max : Option Nat) (events : List BodyEvent) (trailers : Option Headers) :
    (∃ (messages : List Bytes) (last : Option Answer), messages <+: deframed max (chunkBytes events) ∧
      (∃ (chunks : List Bytes) (rest : List BodyEvent), events = chunks.map BodyEvent.chunk ++ rest ∧
        messages = deframed max chunks.flatten ∧ (rest = [] ↔ last = none)) ∧
      (∀ message, last ≠ said message) ∧
      ∀ n, (Streaming.new max events trailers).answer n = ((messages.map said)[n]?).getD last) ∧
    ∀ n, (∃ status, ((Streaming.new max events trailers).after n).Finishes status ∧ status.isOk) ↔
      EndedWell max [] events ∧ CarryOk trailers := by
  have polls : (Streaming.new max events trailers).Polls := ⟨rfl, rfl, rfl⟩
  constructor
  · obtain ⟨chunks, rest, split, same, ends⟩ := told_messages max events [] rfl
    refine ⟨_, _, ?_, ⟨chunks, rest, split, same, ends⟩, told_other max events [],
      Streaming.answer_eq events _ polls rfl⟩
    rw [same, split, chunkBytes_append]
    exact deframed_prefix max chunks.flatten _
  · intro n
    have finishes := fun status =>
      (Streaming.finishes_after status n _).trans (Streaming.finishes_iff events status _ polls rfl)
    rw [← told_ended_iff max events [] rfl, ← statusOfTrailers_isOk]
    constructor
    · rintro ⟨status, done_, ok⟩
      have given : verdict trailers (told max [] events).2 = some status := (finishes status).mp done_
      unfold verdict at given
      split at given
      · rename_i ended
        cases given
        exact ⟨ended, ok⟩
      · rename_i failed
        cases given
        exact absurd ok (by rw [told_error max events [] _ failed]; exact Bool.false_ne_true)
      · cases given
    · rintro ⟨ended, ok⟩
      refine ⟨_, (finishes _).mpr ?_, ok⟩
      exact congrArg (verdict trailers) ended

end GrpcWebnext.RustClient