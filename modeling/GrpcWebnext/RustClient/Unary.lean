import GrpcWebnext.RustClient.Chunking

/-! Calls with a single response in the Rust client, against the streams it opens over the
same exchange: `request`, `single_response` and `open_stream` of `client.rs`. -/
namespace GrpcWebnext.RustClient
open Framing (Bytes)

/-- A response of the transport: its headers, what polling its body brings, and the trailers
behind that. -/
structure Response where
  status : Nat
  headers : Headers
  body : List BodyEvent
  trailers : Option Headers

/-- What comes of sending a request under the call's timer. -/
inductive Sent where
  | failed (status : Status)
  | deadline
  | answered (response : Response)

/-- What `request` makes of the response. -/
def Response.opened (response : Response) : Except Status Response :=
  if response.status ≠ 200 then .error (.new Code.unavailable s!"HTTP {response.status}")
  else match Status.fromHeaders response.headers with
    | some status =>
        .error (if status.isOk
          then .new Code.internal "trailers-only response reported OK with no message" else status)
    | none => .ok response

/-- What `request` returns in time. -/
def Sent.opened : Sent → Except Status Response
  | .failed status => .error status
  | .deadline => .error (.new Code.deadlineExceeded "deadline exceeded")
  | .answered response => response.opened

/-- `open_stream`: the initial metadata and the stream. -/
def openStream (max : Option Nat) (sent : Sent) : Except Status (Metadata × Streaming) :=
  sent.opened.map fun response =>
    (Metadata.fromHeaders response.headers, .new max response.body response.trailers)

/-- `response.bytes()` under the same timer; `none` while the body goes on. -/
def readBody : List BodyEvent → Option (Except Status Bytes)
  | [] => none
  | .chunk bytes :: rest => (readBody rest).map fun read => read.map (bytes ++ ·)
  | .failed reason :: _ => some (.error (.new Code.unavailable ("response body failed: " ++ reason)))
  | .deadline :: _ => some (.error (.new Code.deadlineExceeded "deadline exceeded"))
  | .ended :: _ => some (.ok [])

structure UnaryResponse where
  message : Bytes
  headers : Metadata
  trailers : Metadata

/-- `single_response_inner` behind the body it has read. -/
def Response.single (max : Option Nat) (response : Response) (bytes : Bytes) : Except Status UnaryResponse :=
  match push max bytes with
  | .error status => .error status
  | .ok (messages, left) =>
      if 0 < left.length then .error (.new Code.internal "response body ended mid-message (truncated)")
      else
        let status := statusOfTrailers response.trailers
        if !status.isOk then .error status
        else match messages with
          | [] => .error (.new Code.internal "response carried no message")
          | message :: _ => .ok ⟨message, Metadata.fromHeaders response.headers, status.metadata⟩

/-- `single_response`; `none` while it waits for the body. -/
def singleResponse (max : Option Nat) (sent : Sent) : Option (Except Status UnaryResponse) :=
  match sent.opened with
  | .error status => some (.error status)
  | .ok response => match readBody response.body with
    | none => none
    | some (.error status) => some (.error status)
    | some (.ok bytes) => some (response.single max bytes)

/-- The event that ends a body. -/
def closing : List BodyEvent → Option BodyEvent
  | [] => none
  | .chunk _ :: rest => closing rest
  | event :: _ => some event

/-- The bytes in front of it. -/
def leading : List BodyEvent → Bytes
  | .chunk bytes :: rest => bytes ++ leading rest
  | _ => []

theorem readBody_eq (body : List BodyEvent) : readBody body = (closing body).map fun
    | .failed reason => .error (.new Code.unavailable ("response body failed: " ++ reason))
    | .deadline => .error (.new Code.deadlineExceeded "deadline exceeded")
    | .ended | .chunk _ => .ok (leading body) := by
  induction body with
  | nil => rfl
  | cons event rest ih =>
      cases event with
      | chunk bytes =>
          rw [readBody, ih, closing, leading]
          cases closing rest with
          | none => rfl
          | some event => cases event <;> rfl
      | failed reason | deadline | ended => rfl

/-- What the end of the body makes of the bytes before it. -/
def atEnd (max : Option Nat) (bytes : Bytes) : Answer :=
  match push max bytes with
  | .error status => .error status
  | .ok (_, left) =>
      if 0 < left.length
        then .error (.new Code.internal "response body ended mid-message (truncated)") else .ok none

/-- What is refused stays refused when there is more. -/
theorem push_error_append {max : Option Nat} {bytes : Bytes} {status : Status}
    (pushed : push max bytes = .error status)
    (more : Bytes) : push max (bytes ++ more) = .error status := by
  rw [push_eq, show refusal max (Scan.scan (nextMessage max) (bytes ++ more)).2 = some status from
    (refused_append (push_error pushed) more).2]

/-- What was pushed may be pushed with the rest. -/
theorem push_ok_append {max : Option Nat} {bytes left : Bytes} {messages : List Bytes}
    (pushed : push max bytes = .ok (messages, left)) (more : Bytes) :
    push max (bytes ++ more) = (push max (left ++ more)).map fun next => (messages ++ next.1, next.2) := by
  rw [push_eq, push_eq, scan_more, push_ok pushed]
  dsimp only
  cases refusal max (Scan.scan (nextMessage max) (left ++ more)).2 <;> rfl

theorem atEnd_append {max : Option Nat} {bytes left : Bytes} {messages : List Bytes}
    (pushed : push max bytes = .ok (messages, left)) (more : Bytes) :
    atEnd max (bytes ++ more) = atEnd max (left ++ more) := by
  rw [atEnd, atEnd, push_ok_append pushed]
  cases push max (left ++ more) <;> rfl

/-- A stream whose body has ended is told what the whole body comes to, however it was cut:
the last answer always, and the messages where that is the end. -/
theorem told_ended {max : Option Nat} {body : List BodyEvent} (ended : closing body = some .ended) :
    ∀ {buffer : Bytes}, nextMessage max buffer = none → refusal max buffer = none →
      (told max buffer body).2 = some (atEnd max (buffer ++ leading body)) ∧
        (atEnd max (buffer ++ leading body) = .ok none →
          (told max buffer body).1 = deframed max (buffer ++ leading body)) := by
  induction body with
  | nil => cases ended
  | cons event rest ih =>
      intro buffer incomplete calm
      cases event with
      | chunk bytes =>
          rw [leading, ← List.append_assoc]
          cases pushed : push max (buffer ++ bytes) with
          | error status =>
              have refused := push_error_append pushed (leading rest)
              refine ⟨?_, fun well => ?_⟩
              · simp only [told, pushed, atEnd, refused]
              · rw [atEnd, refused] at well
                cases well
          | ok result =>
              obtain ⟨messages, left⟩ := result
              have scanned := push_ok pushed
              have again : nextMessage max left = none := by
                have stuck := Scan.scan_left (nextMessage_shrinks max) (buffer ++ bytes)
                rwa [scanned] at stuck
              have quiet : refusal max left = none := by
                rw [push_eq, scanned] at pushed
                cases none_ : refusal max left with
                | none => rfl
                | some status =>
                    rw [none_] at pushed
                    cases pushed
              obtain ⟨last, all⟩ := ih ended again quiet
              rw [atEnd_append pushed, deframed, scan_more, scanned]
              simp only [told, pushed]
              exact ⟨last, fun well => congrArg (messages ++ ·) (all well)⟩
      | ended =>
          have alone : push max (buffer ++ []) = .ok ([], buffer) := by
            rw [List.append_nil, push_eq, Scan.scan_none incomplete]
            dsimp only
            rw [calm]
          refine ⟨?_, fun _ => ?_⟩
          · simp only [leading, told, atEnd, alone]
          · rw [show leading (.ended :: rest) = [] from rfl, List.append_nil, deframed,
              Scan.scan_none incomplete]
            rfl
      | failed reason | deadline => cases ended

theorem closing_chunks (chunks : List Bytes) (rest : List BodyEvent) :
    closing (chunks.map BodyEvent.chunk ++ rest) = closing rest := by
  induction chunks with
  | nil => rfl
  | cons bytes chunks ih => exact ih

theorem closing_chunk (body : List BodyEvent) (bytes : Bytes) : closing body ≠ some (.chunk bytes) := by
  induction body with
  | nil => simp [closing]
  | cons event rest ih => cases event <;> simp [closing, ih]

/-- Only a body that ended is the end of a stream. -/
theorem closing_of_ok {max : Option Nat} {body : List BodyEvent}
    (well : (told max [] body).2 = some (.ok none)) :
    closing body = some .ended := by
  obtain ⟨chunks, rest, rfl, _⟩ := (told_ended_iff max body [] rfl).mp well
  exact closing_chunks chunks _

theorem single_eq (max : Option Nat) (response : Response) (bytes : Bytes) :
    response.single max bytes = match atEnd max bytes with
      | .error status => .error status
      | .ok _ =>
          let status := statusOfTrailers response.trailers
          if !status.isOk then .error status
          else match deframed max bytes with
            | [] => .error (.new Code.internal "response carried no message")
            | message :: _ => .ok ⟨message, Metadata.fromHeaders response.headers, status.metadata⟩ := by
  unfold Response.single atEnd
  cases pushed : push max bytes with
  | error status => rfl
  | ok result =>
      obtain ⟨messages, left⟩ := result
      rw [deframed, push_ok pushed]
      dsimp only
      split <;> rfl

section Stream
variable {max : Option Nat} {response : Response}

/-- The stream that is opened over the response. -/
def Response.stream (max : Option Nat) (response : Response) : Streaming :=
  .new max response.body response.trailers

theorem openStream_eq {sent : Sent} {opened : Metadata × Streaming} :
    openStream max sent = .ok opened ↔ ∃ response, sent.opened = .ok response ∧
      opened = (Metadata.fromHeaders response.headers, response.stream max) := by
  unfold openStream
  cases sent.opened with
  | error status =>
      exact iff_of_false (fun impossible => by cases impossible) fun ⟨_, impossible, _⟩ => by cases impossible
  | ok response => simp [Except.map, Response.stream, eq_comm]

theorem stream_finishes (status : Status) :
    (response.stream max).Finishes status ↔
      verdict response.trailers (told max [] response.body).2 = some status :=
  Streaming.finishes_iff response.body status _ ⟨rfl, rfl, rfl⟩ rfl

/-- What the stream over a response is told where its body ends. -/
theorem told_whole (max : Option Nat) (ended : closing response.body = some .ended) :
    (told max [] response.body).2 = some (atEnd max (leading response.body)) ∧
      (atEnd max (leading response.body) = .ok none →
        (told max [] response.body).1 = deframed max (leading response.body)) := by
  have whole := @told_ended max response.body ended [] rfl rfl
  rwa [List.nil_append] at whole

theorem stream_first (message : Bytes) :
    (response.stream max).answer 0 = said message ↔ (told max [] response.body).1.head? = some message := by
  rw [Streaming.answer_eq response.body _ ⟨rfl, rfl, rfl⟩ rfl 0]
  change ((List.map said (told max [] response.body).1)[0]?).getD _ = _ ↔ _
  cases (told max [] response.body).1 with
  | nil => exact iff_of_false (told_other max response.body [] message) (by simp)
  | cons first rest => simp [said]

/-- A stream finishes with OK exactly behind the end of its body, with the trailers' OK. -/
theorem stream_ok (status : Status) :
    (response.stream max).Finishes status ∧ status.isOk = true ↔
      (told max [] response.body).2 = some (.ok none) ∧ status = statusOfTrailers response.trailers ∧
        status.isOk = true := by
  rw [stream_finishes, ← and_assoc]
  refine and_congr_left fun ok => ?_
  constructor
  · intro given
    unfold verdict at given
    split at given
    · rename_i ended
      exact ⟨ended, (Option.some.inj given).symm⟩
    · rename_i failed
      rw [← Option.some.inj given, told_error max response.body [] _ failed] at ok
      cases ok
    · cases given
  · rintro ⟨ended, rfl⟩
    rw [ended]
    rfl

theorem stream_ok_iff :
    (∃ status, (response.stream max).Finishes status ∧ status.isOk = true) ↔
      (told max [] response.body).2 = some (.ok none) ∧ (statusOfTrailers response.trailers).isOk = true := by
  simp only [stream_ok]
  constructor
  · rintro ⟨_, ended, rfl, ok⟩
    exact ⟨ended, ok⟩
  · rintro ⟨ended, ok⟩
    exact ⟨_, ended, rfl, ok⟩

/-- A single response over a body that has ended, by what the stream over it does. -/
theorem single_ok_iff (ended : closing response.body = some .ended) (r : UnaryResponse) :
    response.single max (leading response.body) = .ok r ↔
      (response.stream max).answer 0 = said r.message ∧ r.headers = Metadata.fromHeaders response.headers ∧
        ∃ status, ((response.stream max).Finishes status ∧ status.isOk = true) ∧
          r.trailers = status.metadata := by
  obtain ⟨last, all⟩ := told_whole max ended
  simp only [stream_first, stream_ok, last, Option.some.injEq]
  rw [single_eq]
  cases whole : atEnd max (leading response.body) with
  | error status => simp
  | ok none_ =>
      cases none_ with
      | some message =>
          exact absurd (last.trans (congrArg some whole)) (told_other max response.body [] message)
      | none =>
          rw [all whole]
          cases ok : (statusOfTrailers response.trailers).isOk with
          | false =>
              refine iff_of_false (by simp [ok]) ?_
              rintro ⟨_, _, status, ⟨_, rfl, fine⟩, _⟩
              rw [ok] at fine
              cases fine
          | true =>
              cases deframed max (leading response.body) with
              | nil => simp [ok]
              | cons message rest =>
                  obtain ⟨m, headers, trailers⟩ := r
                  simp only [ok, Bool.not_true, Bool.false_eq_true, if_false, Except.ok.injEq,
                    UnaryResponse.mk.injEq,
                    List.head?_cons, Option.some.injEq, true_and]
                  constructor
                  · rintro ⟨rfl, rfl, rfl⟩
                    exact ⟨rfl, rfl, _, ⟨rfl, ok⟩, rfl⟩
                  · rintro ⟨rfl, rfl, status, ⟨rfl, _⟩, rfl⟩
                    exact ⟨rfl, rfl, rfl⟩

theorem single_error_iff (ended : closing response.body = some .ended) (e : Status) :
    response.single max (leading response.body) = .error e ↔
      (response.stream max).Finishes e ∧ e.isOk = false ∨
        (∃ status, (response.stream max).Finishes status ∧ status.isOk = true) ∧
          (∀ message, (response.stream max).answer 0 ≠ said message) ∧
          e = .new Code.internal "response carried no message" := by
  obtain ⟨last, all⟩ := told_whole max ended
  rw [stream_ok_iff, stream_finishes, last, single_eq]
  simp only [stream_first, ne_eq]
  cases whole : atEnd max (leading response.body) with
  | error status =>
      have bad := told_error max response.body [] status (last.trans (congrArg some whole))
      simp only [verdict, Except.error.injEq, Option.some.injEq, reduceCtorEq, false_and, or_false]
      exact ⟨fun same => ⟨same, same ▸ bad⟩, fun both => both.1⟩
  | ok none_ =>
      cases none_ with
      | some message =>
          exact absurd (last.trans (congrArg some whole)) (told_other max response.body [] message)
      | none =>
          rw [all whole]
          simp only [verdict, Option.some.injEq, true_and]
          cases ok : (statusOfTrailers response.trailers).isOk with
          | false =>
              simp only [Bool.not_false, if_true, Except.error.injEq, Bool.false_eq_true, false_and, or_false]
              exact ⟨fun same => ⟨same, same ▸ ok⟩, fun both => both.1⟩
          | true =>
              have good : ¬ (statusOfTrailers response.trailers = e ∧ e.isOk = false) := by
                rintro ⟨rfl, bad⟩
                rw [ok] at bad
                cases bad
              cases deframed max (leading response.body) with
              | nil =>
                  simp only [Bool.not_true, Bool.false_eq_true, if_false, Except.error.injEq, good, false_or,
                    List.head?_nil, reduceCtorEq, not_false_eq_true, implies_true, true_and]
                  exact eq_comm
              | cons message rest => simp [good]

end Stream

/-- The two ways to read one exchange. A call with a single response returns OK exactly where
the stream has a message and finishes with OK. It returns an error exactly where the stream
could not be opened, or its body ended and the stream finishes with that error or with OK and
no message, or the body failed or was cut off by the deadline. And it waits exactly where
the body has not come to its end. -/
theorem single_response_agrees (max : Option Nat) (sent : Sent) :
    (∀ r, singleResponse max sent = some (.ok r) ↔
      ∃ stream status, openStream max sent = .ok (r.headers, stream) ∧
      stream.answer 0 = said r.message ∧ (stream.Finishes status ∧ status.isOk = true) ∧
      r.trailers = status.metadata) ∧
    (∀ e, singleResponse max sent = some (.error e) ↔ openStream max sent = .error e ∨
      ∃ headers stream, openStream max sent = .ok (headers, stream) ∧
        (closing stream.body = some .ended ∧
            (stream.Finishes e ∧ e.isOk = false ∨
              (∃ status, stream.Finishes status ∧ status.isOk = true) ∧
                (∀ message, stream.answer 0 ≠ said message) ∧
                e = .new Code.internal "response carried no message") ∨
          (∃ reason, closing stream.body = some (.failed reason) ∧
            e = .new Code.unavailable ("response body failed: " ++ reason)) ∨
          closing stream.body = some .deadline ∧ e = .new Code.deadlineExceeded "deadline exceeded")) ∧
    (singleResponse max sent = none ↔ ∃ headers stream, openStream max sent = .ok (headers, stream) ∧
      closing stream.body = none) := by
  cases opened : sent.opened with
  | error status => simp [singleResponse, openStream, opened, Except.map]
  | ok response =>
      have isOpen : openStream max sent = .ok (Metadata.fromHeaders response.headers, response.stream max) :=
        openStream_eq.mpr ⟨response, opened, rfl⟩
      have body : (response.stream max).body = response.body := rfl
      have noOk : closing response.body ≠ some .ended → ∀ status,
          ¬ ((response.stream max).Finishes status ∧ status.isOk = true) := by
        intro other status finishes
        exact other (closing_of_ok ((stream_ok status).mp finishes).1)
      have expand : ∀ {P : Metadata → Streaming → Prop},
          (∃ headers stream, openStream max sent = .ok (headers, stream) ∧ P headers stream) ↔
            P (Metadata.fromHeaders response.headers) (response.stream max) := by
        intro P
        simp only [isOpen, Except.ok.injEq, Prod.mk.injEq]
        exact ⟨fun ⟨_, _, ⟨rfl, rfl⟩, holds⟩ => holds, fun holds => ⟨_, _, ⟨rfl, rfl⟩, holds⟩⟩
      have asOk : ∀ r : UnaryResponse,
          (∃ stream status, openStream max sent = .ok (r.headers, stream) ∧ stream.answer 0 = said r.message ∧
            (stream.Finishes status ∧ status.isOk = true) ∧ r.trailers = status.metadata) ↔
            (response.stream max).answer 0 = said r.message ∧
              r.headers = Metadata.fromHeaders response.headers ∧
              ∃ status, ((response.stream max).Finishes status ∧ status.isOk = true) ∧
                r.trailers = status.metadata := by
        intro r
        simp only [isOpen, Except.ok.injEq, Prod.mk.injEq]
        constructor
        · rintro ⟨_, status, ⟨same, rfl⟩, first, finishes, trailers⟩
          exact ⟨first, same.symm, status, finishes, trailers⟩
        · rintro ⟨first, same, status, finishes, trailers⟩
          exact ⟨_, status, ⟨same.symm, rfl⟩, first, finishes, trailers⟩
      have noError : ∀ e, openStream max sent ≠ .error e := fun e => by simp [isOpen]
      simp only [asOk, expand, noError, false_or, body]
      cases closes : closing response.body with
      | none =>
          have waits : singleResponse max sent = none := by
            simp only [singleResponse, opened, readBody_eq, closes, Option.map_none]
          refine ⟨fun r => ?_, fun e => ?_, iff_of_true waits rfl⟩
          · refine iff_of_false (by simp [waits]) fun ⟨_, _, status, finishes, _⟩ => ?_
            exact noOk (by simp [closes]) status finishes
          · exact iff_of_false (by simp [waits]) (by simp)
      | some event =>
          cases event with
          | chunk bytes => exact absurd closes (closing_chunk _ bytes)
          | ended =>
              have value : singleResponse max sent = some (response.single max (leading response.body)) := by
                simp only [singleResponse, opened, readBody_eq, closes, Option.map_some]
              simp only [value, Option.some.injEq, true_and, reduceCtorEq, false_and, exists_false, or_false]
              exact ⟨single_ok_iff closes, single_error_iff closes, trivial⟩
          | failed reason =>
              have value : singleResponse max sent =
                  some (.error (.new Code.unavailable ("response body failed: " ++ reason))) := by
                simp only [singleResponse, opened, readBody_eq, closes, Option.map_some]
              refine ⟨fun r => ?_, fun e => ?_, by simp [value]⟩
              · refine iff_of_false (by simp [value]) fun ⟨_, _, status, finishes, _⟩ => ?_
                exact noOk (by simp [closes]) status finishes
              · rw [value]
                constructor
                · rintro ⟨⟩
                  exact .inr (.inl ⟨reason, rfl, rfl⟩)
                · rintro (⟨⟨⟩, _⟩ | ⟨_, ⟨⟩, rfl⟩ | ⟨⟨⟩, _⟩)
                  rfl
          | deadline =>
              have value : singleResponse max sent =
                  some (.error (.new Code.deadlineExceeded "deadline exceeded")) := by
                simp only [singleResponse, opened, readBody_eq, closes, Option.map_some]
              refine ⟨fun r => ?_, fun e => ?_, by simp [value]⟩
              · refine iff_of_false (by simp [value]) fun ⟨_, _, status, finishes, _⟩ => ?_
                exact noOk (by simp [closes]) status finishes
              · rw [value]
                constructor
                · rintro ⟨⟩
                  exact .inr (.inr ⟨rfl, rfl⟩)
                · rintro (⟨⟨⟩, _⟩ | ⟨_, ⟨⟩, _⟩ | ⟨_, rfl⟩)
                  rfl

end GrpcWebnext.RustClient
