import GrpcWebnext.RustClient.Deframer

/-! A response stream of the Rust client, `Streaming` of `client.rs`. -/
namespace GrpcWebnext.RustClient
open Framing (Bytes)

/-- What polling the body brings, with the deadline where its timer wins the race. -/
inductive BodyEvent where
  | chunk (bytes : Bytes)
  | failed (reason : String)
  | deadline
  | ended

/-- `Streaming`, with the events that are still to come. -/
structure Streaming where
  maxMessageBytes : Option Nat
  body : List BodyEvent
  trailers : Option Headers
  buffer : Bytes
  ready : List Bytes
  ended : Bool
  failed : Option Status

/-- `Streaming::new`. -/
def Streaming.new (maxMessageBytes : Option Nat) (body : List BodyEvent)
    (trailers : Option Headers) : Streaming :=
  ⟨maxMessageBytes, body, trailers, [], [], false, none⟩

def Streaming.fail (s : Streaming) (status : Status) : Streaming × Option Status :=
  ({ s with ended := true, failed := some status }, some status)

/-- What `message` makes of the next event: a status if it returns that as its error. -/
def Streaming.hear (s : Streaming) : BodyEvent → Streaming × Option Status
  | .chunk bytes => match push s.maxMessageBytes (s.buffer ++ bytes) with
    | .ok (messages, left) =>
        ({ s with body := s.body.tail, buffer := left, ready := s.ready ++ messages }, none)
    | .error status => { s with body := s.body.tail, buffer := s.buffer ++ bytes }.fail status
  | .failed reason =>
      { s with body := s.body.tail }.fail (.new Code.unavailable ("stream failed: " ++ reason))
  | .deadline => { s with body := s.body.tail }.fail (.new Code.deadlineExceeded "deadline exceeded")
  | .ended =>
      let s := { s with body := s.body.tail, ended := true }
      if 0 < s.buffer.length then s.fail (.new Code.internal "response body ended mid-message (truncated)")
      else (s, none)

/-- What `message` returns. -/
abbrev Answer := Except Status (Option Bytes)

/-- What `message` returns without polling the body. -/
def Streaming.atHand (s : Streaming) : Option (Streaming × Answer) :=
  match s.ready with
  | message :: ready => some ({ s with ready }, .ok (some message))
  | [] => match s.failed with
    | some status => some (s, .error status)
    | none => if s.ended then some (s, .ok none) else none

/-- The loop of `message` over the events to come; `none` while it waits for another. -/
def Streaming.messageLoop : List BodyEvent → Streaming → Streaming × Option Answer
  | [], s => match s.atHand with
    | some (s', answer) => (s', some answer)
    | none => (s, none)
  | event :: rest, s => match s.atHand with
    | some (s', answer) => (s', some answer)
    | none => match s.hear event with
      | (s', some status) => (s', some (.error status))
      | (s', none) => messageLoop rest s'

/-- `message`. -/
def Streaming.message (s : Streaming) : Streaming × Option Answer := messageLoop s.body s

/-- What the trailers say of a body that has ended well. -/
def statusOfTrailers : Option Headers → Status
  | some trailers =>
      (Status.fromHeaders trailers).getD (.new Code.internal "response trailers carried no grpc-status")
  | none => .new Code.internal "response ended without trailers"

/-- `status`. -/
def Streaming.status (s : Streaming) : Status :=
  match s.failed with
  | some status => status
  | none => statusOfTrailers s.trailers

/-- `finish`, for `n` rounds of its loop. -/
def Streaming.finish : Nat → Streaming → Option Status
  | 0, _ => none
  | n + 1, s => match s.message with
    | (s', some (.ok (some _))) => finish n s'
    | (s', some (.ok none)) => some s'.status
    | (_, some (.error status)) => some status
    | (_, none) => none

/-- What call `n` of `message` returns. -/
def Streaming.answer (s : Streaming) : Nat → Option Answer
  | 0 => s.message.2
  | n + 1 => s.message.1.answer n

/-- The stream behind `n` calls of `message`. -/
def Streaming.after (s : Streaming) : Nat → Streaming
  | 0 => s
  | n + 1 => s.message.1.after n

def said (message : Bytes) : Option Answer := some (.ok (some message))

/-- What is made of the events that are to come: the messages, and the answer that is given
from then on. -/
def told (maxMessageBytes : Option Nat) : Bytes → List BodyEvent → List Bytes × Option Answer
  | _, [] => ([], none)
  | buffer, .chunk bytes :: rest => match push maxMessageBytes (buffer ++ bytes) with
    | .ok (messages, left) =>
        (messages ++ (told maxMessageBytes left rest).1, (told maxMessageBytes left rest).2)
    | .error status => ([], some (.error status))
  | _, .failed reason :: _ => ([], some (.error (.new Code.unavailable ("stream failed: " ++ reason))))
  | _, .deadline :: _ => ([], some (.error (.new Code.deadlineExceeded "deadline exceeded")))
  | buffer, .ended :: _ =>
      ([], some (if 0 < buffer.length
        then .error (.new Code.internal "response body ended mid-message (truncated)")
        else .ok none))

namespace Streaming

theorem message_of_atHand {s s' : Streaming} {answer : Answer} (found : s.atHand = some (s', answer)) :
    s.message = (s', some answer) := by
  unfold message
  cases s.body <;> simp only [messageLoop, found]

theorem message_ready {s : Streaming} {message : Bytes} {ready : List Bytes}
    (queued : s.ready = message :: ready) :
    s.message = ({ s with ready }, said message) := by
  refine message_of_atHand ?_
  simp only [atHand, queued]

theorem message_failed {s : Streaming} {status : Status} (empty : s.ready = [])
    (failed : s.failed = some status) :
    s.message = (s, some (.error status)) := by
  refine message_of_atHand ?_
  simp only [atHand, empty, failed]

theorem message_ended {s : Streaming} (empty : s.ready = []) (failed : s.failed = none)
    (ended : s.ended = true) :
    s.message = (s, some (.ok none)) := by
  refine message_of_atHand ?_
  simp only [atHand, empty, failed, ended, if_true]

/-- Nothing is at hand, and the body has to be polled. -/
structure Polls (s : Streaming) : Prop where
  empty : s.ready = []
  well : s.failed = none
  open_ : s.ended = false

theorem Polls.atHand {s : Streaming} (polls : Polls s) : s.atHand = none := by
  simp only [Streaming.atHand, polls.empty, polls.well, polls.open_, Bool.false_eq_true, if_false]

/-- An answer that leaves the stream as it is is given for ever. -/
theorem answer_sticky {s : Streaming} {answer : Option Answer} (same : s.message = (s, answer)) :
    ∀ n, s.answer n = answer := by
  intro n
  induction n with
  | zero => rw [Streaming.answer, same]
  | succ n ih => rw [Streaming.answer, same, ih]

theorem answer_congr {s t : Streaming} (same : s.message = t.message) : ∀ n, s.answer n = t.answer n := by
  intro n
  cases n with
  | zero => rw [Streaming.answer, Streaming.answer, same]
  | succ n => rw [Streaming.answer, Streaming.answer, same]

/-- The queue is given out first. -/
theorem answer_ready (ready : List Bytes) : ∀ (s : Streaming), s.ready = ready → ∀ n,
    s.answer n = ((ready.map said)[n]?).getD ({ s with ready := [] }.answer (n - ready.length)) := by
  induction ready with
  | nil =>
      intro s empty n
      have same : { s with ready := [] } = s := by rw [← empty]
      rw [same]
      rfl
  | cons message ready ih =>
      intro s queued n
      cases n with
      | zero => rw [Streaming.answer, message_ready queued]; rfl
      | succ n =>
          rw [Streaming.answer, message_ready queued, ih _ rfl n, List.map_cons, List.getElem?_cons_succ,
            List.length_cons, Nat.add_sub_add_right]

/-- A stream that returns an error, or its end, has recorded it. -/
theorem message_hear {s s' : Streaming} (polls : Polls s) {event : BodyEvent} {rest : List BodyEvent}
    (next : s.body = event :: rest) {status : Status} (hears : s.hear event = (s', some status)) :
    s.message = (s', some (.error status)) := by
  rw [Streaming.message, next]
  simp only [messageLoop, polls.atHand, hears]

theorem message_hear_on {s s' : Streaming} (polls : Polls s) {event : BodyEvent} {rest : List BodyEvent}
    (next : s.body = event :: rest) (hears : s.hear event = (s', none)) (body : s'.body = rest) :
    s.message = s'.message := by
  rw [Streaming.message, Streaming.message, next, body]
  simp only [messageLoop, polls.atHand, hears]

theorem message_waits {s : Streaming} (polls : Polls s) (last : s.body = []) : s.message = (s, none) := by
  rw [Streaming.message, last]
  simp only [messageLoop, polls.atHand]

/-- A failure is recorded, and is the answer from then on. -/
theorem answer_fail {s t : Streaming} (polls : Polls s) {event : BodyEvent} {rest : List BodyEvent}
    (next : s.body = event :: rest)
    {status : Status} (hears : s.hear event = t.fail status) (empty : t.ready = []) :
    ∀ n, s.answer n = some (.error status) := by
  intro n
  have first : s.message = ({ t with ended := true, failed := some status }, some (.error status)) :=
    message_hear polls next hears
  have later : ({ t with ended := true, failed := some status } : Streaming).message =
    (_, some (.error status)) :=
    message_failed empty rfl
  cases n with
  | zero => rw [Streaming.answer, first]
  | succ n =>
      rw [Streaming.answer, first]
      exact answer_sticky later n

/-- The answers of a stream that polls are the messages it is told and, behind them, always the
same. The induction is on the events that are to come. -/
theorem answer_eq (body : List BodyEvent) : ∀ s : Streaming, Polls s → s.body = body → ∀ n,
    s.answer n = (((told s.maxMessageBytes s.buffer body).1.map said)[n]?).getD
      (told s.maxMessageBytes s.buffer body).2 := by
  induction body with
  | nil =>
      intro s polls last n
      exact answer_sticky (message_waits polls last) n
  | cons event rest ih =>
      intro s polls next n
      cases event with
      | chunk bytes =>
          cases pushed : push s.maxMessageBytes (s.buffer ++ bytes) with
          | error status =>
              simp only [told, pushed]
              refine answer_fail polls next (t :=
                { s with body := s.body.tail, buffer := s.buffer ++ bytes }) ?_ polls.empty n
              simp only [hear, pushed]
          | ok result =>
              obtain ⟨messages, left⟩ := result
              have hears : s.hear (.chunk bytes) =
                ({ s with body := rest, buffer := left, ready := messages }, none) := by
                simp only [hear, pushed, polls.empty, next, List.tail_cons, List.nil_append]
              rw [answer_congr (message_hear_on polls next hears rfl) n, answer_ready messages _ rfl n,
                ih { s with body := rest, buffer := left, ready := [] } ⟨rfl, polls.well, polls.open_⟩ rfl]
              simp only [told, pushed, List.map_append, List.getElem?_append, List.length_map]
              split
              · rename_i inside
                rw [List.getElem?_map, List.getElem?_eq_getElem inside]
                rfl
              · rename_i outside
                rw [List.getElem?_eq_none (by rw [List.length_map]; exact Nat.le_of_not_lt outside)]
                rfl
      | failed reason => exact answer_fail polls next (t := { s with body := s.body.tail }) rfl polls.empty n
      | deadline => exact answer_fail polls next (t := { s with body := s.body.tail }) rfl polls.empty n
      | ended =>
          simp only [told]
          by_cases cut : 0 < s.buffer.length
          · rw [if_pos cut]
            refine answer_fail polls next (t :=
              { s with body := s.body.tail, ended := true }) ?_ polls.empty n
            simp only [hear, cut, if_true]
          · have hears : s.hear .ended = ({ s with body := s.body.tail, ended := true }, none) := by
              simp only [hear, cut, if_false]
            have done_ : s.message = ({ s with body := s.body.tail, ended := true } : Streaming).message :=
              message_hear_on polls next hears (by rw [next]; rfl)
            have later : ({ s with body := s.body.tail, ended := true } : Streaming).message =
              (_, some (.ok none)) :=
              message_ended polls.empty polls.well rfl
            rw [if_neg cut, answer_congr done_ n]
            exact answer_sticky later n

/-- `finish` returns the status, after enough rounds. -/
def Finishes (s : Streaming) (status : Status) : Prop := ∃ n, s.finish n = some status

/-- Rounds that go round again do not matter. -/
theorem finishes_ready (ready : List Bytes) (status : Status) : ∀ s : Streaming, s.ready = ready →
    (s.Finishes status ↔ { s with ready := [] }.Finishes status) := by
  induction ready with
  | nil =>
      intro s empty
      have same : { s with ready := [] } = s := by rw [← empty]
      rw [same]
  | cons message ready ih =>
      intro s queued
      rw [← ih { s with ready } rfl]
      have round : ∀ n, s.finish (n + 1) = ({ s with ready } : Streaming).finish n := by
        intro n
        simp only [finish, message_ready queued, said]
      constructor
      · rintro ⟨n, finishes⟩
        cases n with
        | zero => cases finishes
        | succ n => exact ⟨n, (round n).symm.trans finishes⟩
      · rintro ⟨n, finishes⟩
        exact ⟨n + 1, (round n).trans finishes⟩

theorem finishes_congr {s t : Streaming} (same : s.message = t.message) (status : Status) :
    s.Finishes status ↔ t.Finishes status := by
  refine exists_congr fun n => ?_
  cases n with
  | zero => rfl
  | succ n => simp only [finish, same]

end Streaming

/-- The status that `finish` makes of the last answer of `message`. -/
def verdict (trailers : Option Headers) : Option Answer → Option Status
  | some (.ok none) => some (statusOfTrailers trailers)
  | some (.error status) => some status
  | _ => none

namespace Streaming

/-- `finish` is over in one round where no message is left. -/
theorem finishes_last {s s' : Streaming} {answer : Option Answer} {trailers : Option Headers}
    (last : s.message = (s', answer))
    (well : answer = some (.ok none) → s'.status = statusOfTrailers trailers)
    (other : ∀ message, answer ≠ said message)
    (status : Status) : s.Finishes status ↔ verdict trailers answer = some status := by
  have round : ∀ n, s.finish (n + 1) = verdict trailers answer := by
    intro n
    simp only [finish, last]
    match answer, well, other with
    | some (.ok (some message)), _, other => exact absurd rfl (other message)
    | some (.ok none), well, _ => exact congrArg some (well rfl)
    | some (.error status), _, _ => rfl
    | none, _, _ => rfl
  constructor
  · rintro ⟨n, finishes⟩
    cases n with
    | zero => cases finishes
    | succ n => exact (round n).symm.trans finishes
  · exact fun given => ⟨1, (round 0).trans given⟩

/-- The same along the events that are to come. -/
theorem finishes_iff (body : List BodyEvent) (status : Status) : ∀ s : Streaming, Polls s → s.body = body →
    (s.Finishes status ↔ verdict s.trailers (told s.maxMessageBytes s.buffer body).2 = some status) := by
  induction body with
  | nil =>
      intro s polls last
      exact finishes_last (message_waits polls last) (fun impossible => by cases impossible)
        (fun _ impossible => by cases impossible) status
  | cons event rest ih =>
      intro s polls next
      have fails : ∀ {t : Streaming} {reason : Status}, s.hear event = t.fail reason →
          (s.Finishes status ↔ verdict s.trailers (some (.error reason)) = some status) := by
        intro t reason hears
        have last : s.message = ({ t with ended := true, failed := some reason }, some (.error reason)) :=
          message_hear polls next hears
        exact finishes_last last (fun impossible => by cases impossible)
          (fun _ impossible => by cases impossible) status
      cases event with
      | chunk bytes =>
          cases pushed : push s.maxMessageBytes (s.buffer ++ bytes) with
          | error reason =>
              simp only [told, pushed]
              refine fails (t := { s with body := s.body.tail, buffer := s.buffer ++ bytes }) ?_
              simp only [hear, pushed]
          | ok result =>
              obtain ⟨messages, left⟩ := result
              have hears : s.hear (.chunk bytes) =
                ({ s with body := rest, buffer := left, ready := messages }, none) := by
                simp only [hear, pushed, polls.empty, next, List.tail_cons, List.nil_append]
              rw [finishes_congr (message_hear_on polls next hears rfl), finishes_ready messages status _ rfl,
                ih { s with body := rest, buffer := left, ready := [] } ⟨rfl, polls.well, polls.open_⟩ rfl]
              simp only [told, pushed]
      | failed reason => exact fails (t := { s with body := s.body.tail }) rfl
      | deadline => exact fails (t := { s with body := s.body.tail }) rfl
      | ended =>
          simp only [told]
          by_cases cut : 0 < s.buffer.length
          · rw [if_pos cut]
            refine fails (t := { s with body := s.body.tail, ended := true }) ?_
            simp only [hear, cut, if_true]
          · have hears : s.hear .ended = ({ s with body := s.body.tail, ended := true }, none) := by
              simp only [hear, cut, if_false]
            have done_ : s.message = ({ s with body := s.body.tail, ended := true } : Streaming).message :=
              message_hear_on polls next hears (by rw [next]; rfl)
            have last : ({ s with body := s.body.tail, ended := true } : Streaming).message =
              (_, some (.ok none)) :=
              message_ended polls.empty polls.well rfl
            rw [if_neg cut, finishes_congr done_]
            refine finishes_last last (fun _ => ?_) (fun _ impossible => by cases impossible) status
            simp only [Streaming.status, polls.well]

theorem polls_of_atHand {s : Streaming} (none_ : s.atHand = none) : Polls s := by
  unfold atHand at none_
  split at none_
  · cases none_
  · rename_i empty
    split at none_
    · cases none_
    · rename_i well
      split at none_
      · cases none_
      · rename_i open_
        exact ⟨empty, well, by simpa using open_⟩

theorem hear_fail {s s' : Streaming} {event : BodyEvent} {status : Status}
    (hears : s.hear event = (s', some status)) :
    s'.failed = some status ∧ s'.ready = s.ready := by
  cases event with
  | chunk bytes =>
      simp only [hear] at hears
      split at hears
      · cases hears
      · cases hears
        exact ⟨rfl, rfl⟩
  | failed reason | deadline =>
      cases hears
      exact ⟨rfl, rfl⟩
  | ended =>
      simp only [hear] at hears
      split at hears
      · cases hears
        exact ⟨rfl, rfl⟩
      · cases hears

theorem hear_body (s : Streaming) (event : BodyEvent) : (s.hear event).1.body = s.body.tail := by
  cases event with
  | chunk bytes =>
      simp only [hear]
      split <;> rfl
  | failed reason => rfl
  | deadline => rfl
  | ended =>
      simp only [hear]
      split <;> rfl

/-- The stream behind an answer without a message gives the same answer again. -/
theorem message_settled (events : List BodyEvent) :
    ∀ {s s' : Streaming} {answer : Option Answer}, s.body = events →
    s.message = (s', answer) → (∀ message, answer ≠ said message) →
      s'.message = (s', answer) ∧ (answer = some (.ok none) → s'.failed = none) := by
  have atOnce : ∀ {s s' : Streaming} {answer : Option Answer} {found : Streaming × Answer},
    s.atHand = some found →
      s.message = (s', answer) → (∀ message, answer ≠ said message) →
        s'.message = (s', answer) ∧ (answer = some (.ok none) → s'.failed = none) := by
    intro s s' answer found here given other
    obtain ⟨t, given'⟩ := found
    cases (message_of_atHand here).symm.trans given
    unfold atHand at here
    split at here
    · cases here
      exact absurd rfl (other _)
    · rename_i empty
      split at here
      · rename_i failed
        cases here
        exact ⟨message_failed empty failed, fun impossible => by cases impossible⟩
      · rename_i well
        split at here
        · rename_i ended
          cases here
          exact ⟨message_ended empty well ended, fun _ => well⟩
        · cases here
  induction events with
  | nil =>
      intro s s' answer last given other
      cases here : s.atHand with
      | some found => exact atOnce here given other
      | none =>
          have waits := message_waits (polls_of_atHand here) last
          cases waits.symm.trans given
          exact ⟨waits, fun impossible => by cases impossible⟩
  | cons event rest ih =>
      intro s s' answer next given other
      cases here : s.atHand with
      | some found => exact atOnce here given other
      | none =>
          have polls := polls_of_atHand here
          have body := hear_body s event
          cases hears : s.hear event with
          | mk t result =>
              rw [hears, next, List.tail_cons] at body
              cases result with
              | some status =>
                  cases (message_hear polls next hears).symm.trans given
                  obtain ⟨failed, empty⟩ := hear_fail hears
                  exact ⟨message_failed (empty.trans polls.empty) failed, fun impossible =>
                    by cases impossible⟩
              | none => exact ih body ((message_hear_on polls next hears body).symm.trans given) other

/-- What `finish` returns does not depend on how many messages were taken before. -/
theorem finishes_message (s : Streaming) (status : Status) :
    s.message.1.Finishes status ↔ s.Finishes status := by
  cases given : s.message with
  | mk s' answer =>
      by_cases another : ∃ message, answer = said message
      · obtain ⟨message, rfl⟩ := another
        have round : ∀ n, s.finish (n + 1) = s'.finish n := by
          intro n
          simp only [finish, given, said]
        constructor
        · rintro ⟨n, finishes⟩
          exact ⟨n + 1, (round n).trans finishes⟩
        · rintro ⟨n, finishes⟩
          cases n with
          | zero => cases finishes
          | succ n => exact ⟨n, (round n).symm.trans finishes⟩
      · have other := not_exists.mp another
        obtain ⟨again, well⟩ := message_settled _ rfl given other
        have ends : answer = some (.ok none) → s'.status = statusOfTrailers s'.trailers := by
          intro ended
          simp only [Streaming.status, well ended]
        exact (finishes_last again ends other status).trans (finishes_last given ends other status).symm

theorem finishes_after (status : Status) (n : Nat) : ∀ s : Streaming, (s.after n).Finishes status ↔
    s.Finishes status := by
  induction n with
  | zero =>
      intro s
      rfl
  | succ n ih =>
      intro s
      rw [Streaming.after, ih, finishes_message]

end Streaming

end GrpcWebnext.RustClient
