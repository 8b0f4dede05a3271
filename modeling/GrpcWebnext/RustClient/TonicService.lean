import GrpcWebnext.Deadline.Forwarded
import GrpcWebnext.MetadataParity.Items
import GrpcWebnext.RustClient.Status

/-! The transport that generated stubs drive, `tonic_service.rs` of the client: one timer from
the opening of a call to the last frame of its body. -/
namespace GrpcWebnext.RustClient.Tonic
open Framing (Bytes)
open Text (Str)
open Time (Duration)

/-- `tonic::Status`, with its metadata as headers. -/
structure Failure where
  code : Nat
  message : Str
  metadata : HeaderMap
  deriving DecidableEq

def deadlineExceeded : Failure := ⟨Code.deadlineExceeded, "deadline exceeded".toList, []⟩

/-- `Metadata::to_headers`. -/
def toHeaders (metadata : Metadata) : Headers :=
  metadata.map fun (key, value) => (key, match value with
    | .ascii text => text
    | .binary bytes => (Base64.encodePadded bytes).map fun b => Char.ofNat b.toNat)

def toWireHeaders (headers : HeaderMap) : Except Failure Headers :=
  headers.mapM fun (name, value) => match toStr value with
    | some text => .ok (name, text)
    | none => .error ⟨Code.internal, "metadata value for `".toList ++ name ++
        "` is not valid ASCII; binary metadata must use a `-bin` key".toList, []⟩

def grpcTimeout (headers : HeaderMap) : Option Duration :=
  (headers.get "grpc-timeout").bind fun value => (toStr value).bind fun raw =>
    if raw.length = 0 then none
    else
      let (digits, unit) := raw.splitAt (raw.length - 1)
      (HttpRule.Rust.parseUnsigned 64 digits).bind fun parsed =>
        let value := UInt64.ofNat parsed.toNat
        match unit with
        | ['n'] => some (Duration.ofNanos value)
        | ['u'] => some (Duration.ofMicros value)
        | ['m'] => some (Duration.ofMillis value)
        | ['S'] => some (Duration.ofSecs value)
        | ['M'] => (Deadline.Rust.checkedMul value 60).map Duration.ofSecs
        | ['H'] => (Deadline.Rust.checkedMul value 3600).map Duration.ofSecs
        | _ => none

/-- What the stream of the body has ready. -/
inductive Ready where
  | chunk (bytes : Bytes)
  | failed (reason : Str)
  | ended
  deriving DecidableEq

/-- What a poll says, of the call or of its body. -/
inductive Outcome where
  | waiting
  | opened (status : Nat) (headers : HeaderMap)
  | data (bytes : Bytes)
  | trailers (headers : HeaderMap)
  | failed (status : Failure)
  | finished
  deriving DecidableEq

/-- A response of the transport, with the instants at which its body has something ready. -/
structure Answer where
  status : Nat
  rawHeaders : Headers
  body : List (Nat × Ready)
  trailers : Option Headers

/-- `Inner`; the deadline is the instant at which the timer is ready. -/
structure Inner where
  body : List (Nat × Ready)
  trailers : Option Headers
  deadline : Option Nat
  ended : Bool

def due (deadline : Option Nat) (now : Nat) : Bool := deadline.any fun d => d ≤ now

/-- What stands outside: when a `Delay` is ready, and how the `http` crate explains itself. -/
structure Outside where
  delay : Duration → Nat
  explain : Answer → Str

/-- A call: `send` on its way, the body it returned, or nothing once it returned an error. -/
inductive Call where
  | opening (answer : Option (Nat × Except Status Answer)) (deadline : Option Nat)
  | reading (inner : Inner)
  | gone

/-- `send`: the headers it refuses, or the call under its timer. -/
def send (outside : Outside) (headers : HeaderMap) (answer : Option (Nat × Except Status Answer)) :
    Except Failure Call :=
  (toWireHeaders headers).map fun _ => .opening answer ((grpcTimeout headers).map outside.delay)

/-- What polls say besides that they wait. -/
def news (seen : List (Nat × Outcome)) : List Outcome := (seen.map Prod.snd).filter fun outcome =>
    outcome ≠ .waiting

/-- An outcome with nothing behind it. -/
def Outcome.last : Outcome → Bool
  | .trailers _ | .failed _ | .finished => true
  | .waiting | .opened _ _ | .data _ => false

/-- What is heard of a script: a part of it, all of it and then its end for ever, or, where the
deadline `may` come first, a part of it and that failure. -/
inductive Heard (may : Prop) (script : List Outcome) : List Outcome → Prop
  | part {heard : List Outcome} (front : heard <+: script) : Heard may script heard
  | all (n : Nat) (closed : ∃ outcome ∈ script, outcome.last) :
      Heard may script (script ++ List.replicate n .finished)
  | late {front : List Outcome} (n : Nat) (cut : may) (before : front <+: script) :
      Heard may script (front ++ .failed deadlineExceeded :: List.replicate n .finished)

/-- What a poll may still say when the deadline has passed. -/
def Outcome.settled : Outcome → Bool
  | .opened _ _ | .failed _ | .finished => true
  | .waiting | .data _ | .trailers _ => false

/-- The client reads the timeout that the server reads. -/
theorem grpcTimeout_eq (headers : HeaderMap) :
    grpcTimeout headers = Deadline.Rust.parseGrpcTimeout headers := by
  unfold grpcTimeout Deadline.Rust.parseGrpcTimeout
  refine Option.bind_congr fun value _ => Option.bind_congr fun raw _ => ?_
  split
  · rfl
  · refine Option.bind_congr fun parsed _ => ?_
    dsimp only
    split <;> simp_all

namespace Call

def ended : Call → Bool
  | .opening _ _ => false
  | .reading inner => inner.ended
  | .gone => true

/-- The timer, while the call has one. -/
def Timed (deadline : Option Nat) : Call → Prop
  | .opening _ timer => timer = deadline
  | .reading inner => inner.deadline = deadline
  | .gone => True

/-- How many late polls a call can stand. -/
def stage : Call → Nat
  | .opening _ _ => 2
  | .reading inner => if inner.ended then 0 else 1
  | .gone => 0

/-- What is next has come by then. -/
def Present (now : Nat) : Call → Prop
  | .opening answer _ => ∃ result, answer = some result ∧ result.1 ≤ now
  | .reading inner => ∃ event, inner.body.head? = some event ∧ event.1 ≤ now
  | .gone => False

theorem ended_iff_stage (call : Call) : call.ended = true ↔ call.stage = 0 := by
  cases call with
  | opening answer deadline => simp [ended, stage]
  | reading inner => cases over_ : inner.ended <;> simp [ended, stage, over_]
  | gone => simp [ended, stage]

end Call

theorem news_cons (now : Nat) (outcome : Outcome) (seen : List (Nat × Outcome)) :
    news ((now, outcome) :: seen) = if outcome = .waiting then news seen else outcome :: news seen := by
  unfold news
  rw [List.map_cons, List.filter_cons]
  by_cases waits : outcome = .waiting <;> simp [waits]

theorem news_ended (times : List Nat) :
    news (times.map fun now => (now, .finished)) = List.replicate times.length .finished := by
  induction times with
  | nil => rfl
  | cons now times ih =>
      rw [List.map_cons, news_cons, if_neg nofun, ih, List.length_cons, List.replicate_succ]

theorem Heard.mono {may might : Prop} (imp : may → might) {script heard : List Outcome}
    (h : Heard may script heard) :
    Heard might script heard := by
  cases h with
  | part front => exact .part front
  | all n closed => exact .all n closed
  | late n cut before => exact .late n (imp cut) before

theorem Heard.cons {may : Prop} {script heard : List Outcome} (outcome : Outcome)
    (h : Heard may script heard) :
    Heard may (outcome :: script) (outcome :: heard) := by
  cases h with
  | part front => exact .part (List.cons_prefix_cons.mpr ⟨rfl, front⟩)
  | all n closed =>
      obtain ⟨last, inside, closes⟩ := closed
      exact .all n ⟨last, List.mem_cons_of_mem _ inside, closes⟩
  | late n cut before => exact .late n cut (List.cons_prefix_cons.mpr ⟨rfl, before⟩)

/-- The call that `send` starts. -/
theorem send_ok {outside : Outside} {headers : HeaderMap}
    {answer : Option (Nat × Except Status Answer)} {call : Call}
    (sent : send outside headers answer = .ok call) :
    call = .opening answer ((Deadline.Rust.parseGrpcTimeout headers).map outside.delay) := by
  unfold send at sent
  rw [grpcTimeout_eq] at sent
  cases wire : toWireHeaders headers with
  | error failure =>
      rw [wire] at sent
      cases sent
  | ok entries =>
      rw [wire] at sent
      cases sent
      rfl

section Crates
variable [Rust.Crates]

/-- `HeaderValue::try_from`. -/
def headerValue (value : Str) : Option Bytes :=
  let bytes := Utf8.encode value
  if Rust.fits bytes then some bytes else none

/-- An entry as the `http` crate represents it. -/
def represented (entry : Str × Str) : Option (Str × Bytes) :=
  (Rust.headerName entry.1).bind fun name => (headerValue entry.2).map fun value => (name, value)

def toHeaderMap (headers : Headers) : HeaderMap := headers.filterMap represented

/-- A status of the client as one of tonic. -/
def Failure.ofStatus (status : Status) : Failure :=
  ⟨codeOfI32 status.code, status.message, toHeaderMap (toHeaders status.metadata)⟩

/-- What `poll_frame` makes of what the body has ready. -/
def Inner.hear (s : Inner) : Ready → Inner × Outcome
  | .chunk bytes => (s, .data bytes)
  | .failed reason =>
      ({ s with ended := true }, .failed ⟨Code.unavailable, "stream failed: ".toList ++ reason, []⟩)
  | .ended => ({ s with ended := true }, match s.trailers with
      | some trailers => .trailers (toHeaderMap trailers)
      | none => .finished)

def Inner.pollFrame (s : Inner) (now : Nat) : Inner × Outcome :=
  if s.ended then (s, .finished)
  else if due s.deadline now then ({ s with ended := true }, .failed deadlineExceeded)
  else match s.body with
    | (there, ready) :: body => if there ≤ now then { s with body }.hear ready else (s, .waiting)
    | [] => (s, .waiting)

/-- The headers of the response that is built; pseudo-headers are left out. -/
def Answer.built (response : Answer) : Option HeaderMap :=
  if 100 ≤ response.status ∧ response.status < 1000 then
    (response.rawHeaders.filter fun entry => entry.1.head? ≠ some ':').mapM represented
  else none

/-- A poll of the call; a response that is there goes before the timer. -/
def Call.poll (outside : Outside) (now : Nat) : Call → Call × Outcome
  | .opening answer deadline => match answer.filter fun a => a.1 ≤ now with
    | some (_, .error status) => (.gone, .failed (.ofStatus status))
    | some (_, .ok response) => match response.built with
      | some headers =>
          (.reading ⟨response.body, response.trailers, deadline, false⟩, .opened response.status headers)
      | none =>
          (.gone, .failed ⟨Code.internal, "malformed response headers: ".toList ++
            outside.explain response, []⟩)
    | none =>
        if due deadline now then (.gone, .failed deadlineExceeded) else (.opening answer deadline, .waiting)
  | .reading inner => ((.reading (inner.pollFrame now).1), (inner.pollFrame now).2)
  | .gone => (.gone, .finished)

def Call.after (outside : Outside) : List Nat → Call → Call
  | [], call => call
  | now :: times, call => after outside times (call.poll outside now).1

/-- What polls at these instants say. -/
def Call.polls (outside : Outside) : List Nat → Call → List (Nat × Outcome)
  | [], _ => []
  | now :: times, call => (now, (call.poll outside now).2) :: polls outside times (call.poll outside now).1

/-- What the body has to say, with no deadline. -/
def told (trailers : Option Headers) : List (Nat × Ready) → List Outcome
  | [] => []
  | (_, .chunk bytes) :: rest => .data bytes :: told trailers rest
  | (_, .failed reason) :: _ => [.failed ⟨Code.unavailable, "stream failed: ".toList ++ reason, []⟩]
  | (_, .ended) :: _ => [match trailers with
      | some trailers => .trailers (toHeaderMap trailers)
      | none => .finished]

/-- What an exchange has to say, with no deadline. -/
def script (outside : Outside) : Option (Nat × Except Status Answer) → List Outcome
  | none => []
  | some (_, .error status) => [.failed (.ofStatus status)]
  | some (_, .ok response) => match response.built with
    | some headers => .opened response.status headers :: told response.trailers response.body
    | none => [.failed ⟨Code.internal, "malformed response headers: ".toList ++ outside.explain response, []⟩]

namespace Call

/-- What a call still has to say. -/
def rest (outside : Outside) : Call → List Outcome
  | .opening answer _ => script outside answer
  | .reading inner => if inner.ended then [] else told inner.trailers inner.body
  | .gone => []

variable {outside : Outside}

theorem rest_of_ended {call : Call} (over_ : call.ended = true) : call.rest outside = [] := by
  cases call with
  | opening answer deadline => cases over_
  | reading inner => exact if_pos over_
  | gone => rfl

/-- What one poll does. -/
inductive Polled (outside : Outside) (deadline : Option Nat) (now : Nat) (call : Call) : Call × Outcome → Prop
  | over_ (ended : call.ended = true) : Polled outside deadline now call (call, .finished)
  | waits (going : call.ended = false) (early : due deadline now = false) (absent : ¬ call.Present now) :
      Polled outside deadline now call (call, .waiting)
  | late {next : Call} (going : call.ended = false) (late : due deadline now = true)
      (ended : next.ended = true) :
      Polled outside deadline now call (next, .failed deadlineExceeded)
  | speaks {next : Call} {outcome : Outcome} (going : call.ended = false) (spoken : outcome ≠ .waiting)
      (first : call.rest outside = outcome :: next.rest outside) (last : next.ended = outcome.last)
      (stage : next.stage < call.stage ∨ due deadline now = false ∧ next.stage = call.stage)
      (late : due deadline now = true → outcome.settled = true) :
        Polled outside deadline now call (next, outcome)

end Call

theorem Inner.pollFrame_deadline (s : Inner) (now : Nat) : (s.pollFrame now).1.deadline = s.deadline := by
  unfold Inner.pollFrame
  split
  · rfl
  · split
    · rfl
    · split
      · split
        · rename_i ready _ _ _
          cases ready <;> rfl
        · rfl
      · rfl

/-- What one poll of the body does. -/
theorem Inner.pollFrame_polled (outside : Outside) (s : Inner) (now : Nat) :
    Call.Polled outside s.deadline now (.reading s)
      ((.reading (s.pollFrame now).1), (s.pollFrame now).2) := by
  unfold Inner.pollFrame
  cases ended : s.ended with
  | true => exact .over_ ended
  | false =>
      rw [if_neg Bool.false_ne_true]
      cases passed : due s.deadline now with
      | true => exact .late ended passed rfl
      | false =>
          rw [if_neg Bool.false_ne_true]
          have all : (Call.reading s).rest outside = told s.trailers s.body := by
            rw [Call.rest, ended, if_neg Bool.false_ne_true]
          cases next : s.body with
          | nil =>
              refine .waits ended passed ?_
              rintro ⟨event, head, _⟩
              rw [next] at head
              cases head
          | cons event body =>
              obtain ⟨there, ready⟩ := event
              dsimp only
              by_cases here : there ≤ now
              · rw [if_pos here]
                rw [next] at all
                have punctual (outcome : Outcome) : due s.deadline now = true → outcome.settled = true := by
                  intro late
                  rw [passed] at late
                  cases late
                cases ready with
                | chunk bytes =>
                    refine .speaks ended nofun all rfl (.inr ⟨passed, ?_⟩) (punctual _)
                    simp only [Inner.hear, Call.stage, ended, Bool.false_eq_true, if_false]
                | failed reason =>
                    refine .speaks ended nofun all rfl (.inl ?_) (punctual _)
                    simp only [Inner.hear, Call.stage, ended, if_true, Bool.false_eq_true, if_false,
                      Nat.lt_one_iff]
                | ended =>
                    refine .speaks ended ?_ all ?_ (.inl ?_) (punctual _)
                    · cases s.trailers <;> exact nofun
                    · cases s.trailers <;> rfl
                    · simp only [Inner.hear, Call.stage, ended, if_true, Bool.false_eq_true,
                        if_false, Nat.lt_one_iff]
              · rw [if_neg here]
                refine .waits ended passed ?_
                rintro ⟨event, head, come⟩
                rw [next] at head
                cases head
                exact here come

namespace Call
variable {outside : Outside}

theorem poll_polled (outside : Outside) {deadline : Option Nat} {call : Call}
    (timed : call.Timed deadline) (now : Nat) :
    Polled outside deadline now call (call.poll outside now) := by
  cases call with
  | gone => exact .over_ rfl
  | reading inner =>
      obtain rfl := timed
      exact inner.pollFrame_polled outside now
  | opening answer timer =>
      obtain rfl := timed
      unfold poll
      dsimp only
      cases here : answer.filter fun a => a.1 ≤ now with
      | none =>
          dsimp only
          cases passed : due timer now with
          | true => exact .late rfl passed rfl
          | false =>
              refine .waits rfl passed ?_
              rintro ⟨result, rfl, come⟩
              rw [Option.filter_some, if_pos (decide_eq_true come)] at here
              cases here
      | some found =>
          obtain ⟨there, result⟩ := found
          obtain rfl : answer = some (there, result) := (Option.filter_eq_some_iff.mp here).1
          cases result with
          | error status => exact .speaks rfl nofun rfl rfl (.inl Nat.two_pos) fun _ => rfl
          | ok response =>
              dsimp only
              cases built : response.built with
              | none =>
                  refine .speaks rfl nofun ?_ rfl (.inl Nat.two_pos) fun _ => rfl
                  simp only [rest, script, built]
              | some headers =>
                  refine .speaks rfl nofun ?_ rfl (.inl Nat.one_lt_two) fun _ => rfl
                  simp only [rest, script, built, Bool.false_eq_true, if_false]

theorem Timed.poll {deadline : Option Nat} {call : Call} (timed : call.Timed deadline) (now : Nat) :
    (call.poll outside now).1.Timed deadline := by
  cases call with
  | gone => exact trivial
  | reading inner => exact (inner.pollFrame_deadline now).trans timed
  | opening answer timer =>
      unfold Call.poll
      dsimp only
      split
      · exact trivial
      · split
        · exact timed
        · exact trivial
      · split
        · exact trivial
        · exact timed

theorem Timed.after {deadline : Option Nat} (times : List Nat) : ∀ {call : Call}, call.Timed deadline →
    (call.after outside times).Timed deadline := by
  induction times with
  | nil => exact fun timed => timed
  | cons now times ih => exact fun timed => ih (timed.poll now)

/-- A call that has ended says so for ever. -/
theorem polls_of_ended (times : List Nat) : ∀ {call : Call}, call.ended = true →
    call.polls outside times = times.map fun now => (now, .finished) := by
  induction times with
  | nil => exact fun _ => rfl
  | cons now times ih =>
      intro call ended
      have same : call.poll outside now = (call, .finished) := by
        cases call with
        | opening answer deadline => cases ended
        | reading inner =>
            have still : inner.pollFrame now = (inner, .finished) := if_pos ended
            rw [poll, still]
        | gone => rfl
      rw [polls, same, ih ended, List.map_cons]

theorem stage_poll {deadline : Option Nat} {call : Call} (timed : call.Timed deadline) (now : Nat) :
    (call.poll outside now).1.stage ≤ call.stage - if due deadline now then 1 else 0 := by
  have polled := poll_polled outside timed now
  revert polled
  generalize call.poll outside now = result
  intro polled
  cases polled with
  | over_ ended =>
      rw [(ended_iff_stage call).mp ended]
      exact Nat.zero_le _
  | waits going early absent =>
      rw [early]
      exact Nat.le_refl _
  | late going late ended =>
      rw [(ended_iff_stage _).mp ended]
      exact Nat.zero_le _
  | speaks going spoken first last stage late =>
      rcases stage with less | ⟨early, same⟩
      · dsimp only
        split <;> omega
      · rw [early, same]
        exact Nat.le_refl _

/-- Each late poll takes a call further. -/
theorem stage_after {deadline : Option Nat} (times : List Nat) : ∀ {call : Call}, call.Timed deadline →
    (call.after outside times).stage ≤ call.stage - times.countP fun now => due deadline now := by
  induction times with
  | nil => exact fun _ => Nat.le_refl _
  | cons now times ih =>
      intro call timed
      have first := @stage_poll _ outside _ _ timed now
      have further := ih (@Timed.poll _ outside _ _ timed now)
      rw [List.countP_cons, after]
      omega

/-- A poll that is late says nothing of the body. -/
theorem settled_of_due {deadline : Option Nat} (times : List Nat) : ∀ {call : Call}, call.Timed deadline →
    ∀ p ∈ call.polls outside times, due deadline p.1 = true → p.2.settled = true := by
  induction times with
  | nil => nofun
  | cons now times ih =>
      intro call timed p inside late
      rcases List.mem_cons.mp inside with rfl | inside
      · have polled := poll_polled outside timed now
        revert polled late
        generalize call.poll outside now = result
        intro late polled
        cases polled with
        | over_ ended => rfl
        | waits going early absent =>
            rw [early] at late
            cases late
        | late going passed ended => rfl
        | speaks going spoken first last stage settled => exact settled late
      · exact ih (timed.poll now) p inside late

end Call

/-- What the polls of a call hear. The induction is on the polls. -/
theorem heard_polls {outside : Outside} {deadline : Option Nat} (times : List Nat) :
    ∀ {call : Call}, call.Timed deadline →
    call.ended = false →
      Heard (∃ now ∈ times, due deadline now = true) (call.rest outside)
        (news (call.polls outside times)) := by
  induction times with
  | nil => exact fun _ _ => .part List.nil_prefix
  | cons now times ih =>
      intro call timed going
      have polled := call.poll_polled outside timed now
      have timed' := @Call.Timed.poll _ outside _ _ timed now
      rw [Call.polls]
      revert polled timed'
      generalize call.poll outside now = result
      intro polled timed'
      cases polled with
      | over_ ended =>
          rw [going] at ended
          cases ended
      | waits going early absent =>
          rw [news_cons, if_pos rfl]
          exact (ih timed' going).mono fun ⟨at_, inside, late⟩ => ⟨at_, List.mem_cons_of_mem _ inside, late⟩
      | late going late ended =>
          rw [news_cons, if_neg nofun, Call.polls_of_ended times ended, news_ended]
          exact @Heard.late _ _ [] _ ⟨now, List.mem_cons_self, late⟩ List.nil_prefix
      | @speaks next outcome going spoken first last stage settled =>
          rw [news_cons, if_neg spoken, first]
          cases ended : next.ended with
          | true =>
              rw [Call.polls_of_ended times ended, news_ended, Call.rest_of_ended ended]
              exact .all _ ⟨outcome, List.mem_singleton_self _, last.symm.trans ended⟩
          | false =>
              refine Heard.cons outcome ((ih timed' ended).mono ?_)
              exact fun ⟨at_, inside, late⟩ => ⟨at_, List.mem_cons_of_mem _ inside, late⟩

/-- One timer, set for the timeout that the server reads in the same headers, covers a call
from its opening to the end of its body. Whenever it is polled, what is heard is the exchange
in order, or a part of it and the deadline, and nothing after its end. Once the timer is ready
no poll waits and none gives out a part of the body, and the second one finds the call ended.
Until then a poll waits only for what has not come. -/
theorem one_timer (outside : Outside) {headers : HeaderMap}
    {answer : Option (Nat × Except Status Answer)} {call : Call}
    (sent : send outside headers answer = .ok call) (times : List Nat) :
    let deadline := (Deadline.Rust.parseGrpcTimeout headers).map outside.delay
    Heard (∃ now ∈ times, due deadline now = true) (script outside answer) (news (call.polls outside times)) ∧
      (∀ p ∈ call.polls outside times, due deadline p.1 = true → p.2.settled = true) ∧
      (2 ≤ times.countP (fun now => due deadline now) →
        ∀ later, ∀ p ∈ (call.after outside times).polls outside later, p.2 = .finished) ∧
      ∀ now, ((call.after outside times).poll outside now).2 = .waiting →
        ¬ (call.after outside times).Present now := by
  obtain rfl := send_ok sent
  intro deadline
  have timed : Call.Timed deadline (.opening answer deadline) := rfl
  refine ⟨heard_polls times timed rfl, Call.settled_of_due times timed, fun twice later p inside =>
    ?_, fun now waits => ?_⟩
  · have none_left : (Call.after outside times (.opening answer deadline)).stage = 0 :=
      Nat.le_zero.mp ((Call.stage_after times timed).trans (Nat.sub_eq_zero_of_le twice).le)
    rw [Call.polls_of_ended later ((Call.ended_iff_stage _).mpr none_left)] at inside
    obtain ⟨now, _, rfl⟩ := List.mem_map.mp inside
    rfl
  · have polled := Call.poll_polled outside (@Call.Timed.after _ outside _ times _ timed) now
    revert polled waits
    generalize Call.poll outside now (Call.after outside times (.opening answer deadline)) = result
    intro waits polled
    cases polled with
    | over_ ended => cases waits
    | waits going early absent => exact absent
    | late going late ended => cases waits
    | speaks going spoken first last stage settled => exact absurd waits spoken

end Crates

/-- A server that answers, sends one chunk and then stalls. -/
def stalling : Option (Nat × Except Status Answer) :=
  some (2, .ok ⟨200, [(":status".toList, "200".toList), ("x-a".toList, "b".toList)],
    [(3, .chunk [0, 0, 0, 0, 0]), (90, .ended)], none⟩)

def asking : HeaderMap := [("te".toList, utf8 "trailers"), ("grpc-timeout".toList, utf8 "7n")]

theorem one_timer_stalling :
    let _ : Rust.Crates := Rust.published
    let outside : Outside := ⟨Duration.toNanos, fun _ => []⟩
    let call : Call := .opening stalling (some 7)
    send outside asking stalling = .ok call ∧
      news (call.polls outside [1, 4, 5, 6, 8, 95]) =
        [.opened 200 [("x-a".toList, [98])], .data [0, 0, 0, 0, 0], .failed deadlineExceeded, .finished] ∧
      Heard (∃ now ∈ [1, 4, 5, 6, 8, 95],
        due ((Deadline.Rust.parseGrpcTimeout asking).map outside.delay) now = true)
        (script outside stalling) (news (call.polls outside [1, 4, 5, 6, 8, 95])) := by
  intro _ outside call
  have sent : send outside asking stalling = .ok call := by rfl
  exact ⟨sent, by decide, (one_timer outside sent _).1⟩

end GrpcWebnext.RustClient.Tonic
