import GrpcWebnext.Library.Machine
import GrpcWebnext.NodeClient.Retry

/-! `makeUnaryRequest` and `makeServerStreamRequest` of `client.ts` over the two stream
transports, as machines for one call. A label is what happens next and the draw
`Math.random` would give; other calls of the client may move the shared throttle at any
time. Listeners return normally. -/
namespace GrpcWebnext.NodeClient
open Text (Str)
open Framing (Bytes)
open Js (Number)

/-- Why `ctx.signal` is aborted: its deadline timer, or anything else. -/
inductive AbortReason where
  | deadline
  | other
  deriving DecidableEq

def statusForAbort : AbortReason → StatusResult
  | .deadline => ⟨H2ts.Status.deadlineExceeded, "deadline exceeded".toList, []⟩
  | .other => ⟨H2ts.Status.cancelled, "cancelled".toList, []⟩

/-- The status of an explicit `cancel()`. -/
def cancelled : StatusResult := ⟨H2ts.Status.cancelled, "cancelled".toList, []⟩

inductive Charge where
  | debit
  | credit
  deriving DecidableEq

/-- The client's throttle, with what this call has charged to it and for which code. -/
structure Ledger where
  throttle : Option Throttle
  charges : List (Int × Charge)
  deriving DecidableEq

/-- `this.throttle?.onFailure()` on account of a status. -/
def Ledger.onFailure (ledger : Ledger) (code : Int) : Ledger :=
  match ledger.throttle with
  | none => ledger
  | some t => ⟨some t.onFailure, ledger.charges ++ [(code, .debit)]⟩

def Ledger.onSuccess (ledger : Ledger) (code : Int) : Ledger :=
  match ledger.throttle with
  | none => ledger
  | some t => ⟨some t.onSuccess, ledger.charges ++ [(code, .credit)]⟩

/-- The lines both call paths run on a completed attempt: the delay of a retry, and
what the throttle is charged. -/
def settle (policy : Option ResolvedPolicy) (ledger : Ledger) (status : StatusResult)
    (attempt : Nat) (random : Number) : Option Number × Ledger :=
  match policy.bind fun p => nextDelay p ledger.throttle status attempt random with
  | some delay => (some delay, ledger.onFailure status.code)
  | none =>
      if status.code = H2ts.Status.ok then (none, ledger.onSuccess status.code)
      else if policy.any (·.retryableStatusCodes.contains status.code) then
        (none, ledger.onFailure status.code)
      else (none, ledger)

namespace Unary

structure UnaryResponse where
  message : Bytes
  headers : Metadata
  status : StatusResult

inductive Phase where
  | attempting
  | backingOff (delay : Number) (status : StatusResult) (res : Option UnaryResponse)
  | settled

inductive Emission where
  | metadata (metadata : Metadata)
  | status (status : StatusResult)
  /-- The callback with an error. -/
  | error (status : StatusResult)
  /-- The callback with a message, still to be deserialized. -/
  | value (message : Bytes)

structure State where
  attempt : Nat
  phase : Phase
  signal : Option AbortReason
  ledger : Ledger
  /-- The statuses attempts have ended with, in order. -/
  ended : List StatusResult
  emitted : List Emission

def init (signal : Option AbortReason) (throttle : Option Throttle) : State :=
  ⟨1, .attempting, signal, ⟨throttle, []⟩, [], []⟩

inductive Event where
  | resolve (res : UnaryResponse)
  | reject (reason : Str)
  | abort (reason : AbortReason)
  | elapsed
  | others (throttle : Throttle)

def errorForFailure (signal : Option AbortReason) (reason : Str) : StatusResult :=
  match signal with
  | some cause => statusForAbort cause
  | none => ⟨H2ts.Status.unavailable, reason, []⟩

/-- The end of the loop body: what the caller is told. -/
def report (s : State) (status : StatusResult) (res : Option UnaryResponse) : State :=
  let events := (res.map fun r => [Emission.metadata r.headers, .status r.status]).getD []
  let outcome :=
    if status.code = H2ts.Status.ok then Emission.value (res.elim [] (·.message)) else .error status
  { s with phase := .settled, emitted := s.emitted ++ events ++ [outcome] }

/-- An attempt has completed; an aborted signal lets `sleep` return false at once. -/
def conclude (policy : Option ResolvedPolicy) (s : State) (status : StatusResult)
    (res : Option UnaryResponse) (random : Number) : State :=
  let s := { s with ended := s.ended ++ [status] }
  match settle policy s.ledger status s.attempt random with
  | (none, ledger) => report { s with ledger } status res
  | (some delay, ledger) =>
      if s.signal.isSome then report { s with ledger } status res
      else { s with ledger, phase := .backingOff delay status res }

def step (policy : Option ResolvedPolicy) (s : State) : Event × Number → Option State
  | (.resolve res, random) => match s.phase with
    | .attempting => some (conclude policy s res.status (some res) random)
    | _ => none
  | (.reject reason, random) => match s.phase with
    | .attempting => some (conclude policy s (errorForFailure s.signal reason) none random)
    | _ => none
  | (.abort reason, _) =>
      -- `dispose` has detached the timer and the listener of a settled call
      match s.phase, s.signal with
      | .attempting, none => some { s with signal := some reason }
      | .backingOff _ status res, none => some (report { s with signal := some reason } status res)
      | _, _ => some s
  | (.elapsed, _) => match s.phase with
    | .backingOff _ _ _ => some { s with attempt := s.attempt + 1, phase := .attempting }
    | _ => none
  | (.others throttle, _) =>
      some { s with ledger := { s.ledger with throttle := s.ledger.throttle.map fun _ => throttle } }

end Unary

namespace Stream
variable {Msg : Type}

inductive Transport where
  | h2ts
  | ws
  deriving DecidableEq

inductive Phase where
  /-- The current attempt has not reported its status. On h2ts `aborted` is its
  controller and `leaving` says the read loop is left; on ws `aborted` is the queued
  `onAbort` of a signal that was aborted before the attempt. -/
  | running (aborted leaving : Bool)
  | backingOff (delay : Number) (status : StatusResult)
  | finished
  deriving DecidableEq

inductive Emission (Msg : Type) where
  | metadata (metadata : Metadata)
  /-- A message, with the attempt it came from. -/
  | data (attempt : Nat) (message : Msg)
  | status (status : StatusResult)
  | error (status : StatusResult)
  | «end»
  deriving DecidableEq

structure State (Msg : Type) where
  attempt : Nat
  /-- Attempts started so far. -/
  started : Nat
  phase : Phase
  committed : Bool
  headers : Option Metadata
  signal : Option AbortReason
  ledger : Ledger
  /-- The statuses attempts have ended with, in order. -/
  ended : List StatusResult
  emitted : List (Emission Msg)
  deriving DecidableEq

inductive Event (Msg : Type) where
  | headers (metadata : Metadata)
  | message (message : Msg)
  /-- The response ends with a status: trailers, and on ws a reset or a close too. -/
  | respond (status : StatusResult)
  /-- The h2ts request or body fails. -/
  | fail (reason : Str)
  | abort (reason : AbortReason)
  /-- The microtask of a signal that was aborted before the attempt started. -/
  | notice
  | cancel
  | elapsed
  | others (throttle : Throttle)

def commit (s : State Msg) : State Msg :=
  if s.committed then s
  else { s with
    committed := true
    emitted := s.emitted ++ (s.headers.map Emission.metadata).toList }

def finish (s : State Msg) (status : StatusResult) : State Msg :=
  let s := commit s
  let last := if status.code = H2ts.Status.ok then Emission.end else .error status
  { s with phase := .finished, emitted := s.emitted ++ [.status status, last] }

def start (s : State Msg) : State Msg :=
  { s with started := s.started + 1, phase := .running s.signal.isSome false }

def init (signal : Option AbortReason) (throttle : Option Throttle) : State Msg :=
  start ⟨1, 0, .finished, false, none, signal, ⟨throttle, []⟩, [], []⟩

/-- The handler of an attempt's status. -/
def onStatus (policy : Option ResolvedPolicy) (s : State Msg) (status : StatusResult)
    (random : Number) : State Msg :=
  let s := { s with ended := s.ended ++ [status] }
  if s.committed then finish s status
  else match settle policy s.ledger status s.attempt random with
    | (none, ledger) => finish { s with ledger } status
    | (some delay, ledger) =>
        let s := { s with ledger, attempt := s.attempt + 1 }
        if s.signal.isSome then finish s status
        else { s with phase := .backingOff delay status }

/-- `abortOrUnknown` with the controller aborted. -/
def abortStatus (signal : Option AbortReason) : StatusResult :=
  match signal with
  | some reason => statusForAbort reason
  | none => cancelled

/-- The status with which the event makes the running attempt end, if it does. -/
def ending (transport : Transport) (signal : Option AbortReason) (aborted : Bool) :
    Event Msg → Option StatusResult
  | .respond status => match transport with
    | .ws => some status
    | .h2ts => some (if aborted then abortStatus signal else status)
  | .fail reason => match transport with
    | .ws => none
    | .h2ts => some (if aborted then abortStatus signal else ⟨H2ts.Status.unknown, reason, []⟩)
  | .abort reason => match transport, signal with
    | .ws, none => some (statusForAbort reason)
    | _, _ => none
  | .notice => match transport with
    | .ws => if aborted then signal.map statusForAbort else none
    | .h2ts => none
  | .cancel => match transport with
    | .ws => some cancelled
    | .h2ts => none
  | _ => none

/-- `ctx.signal` is aborted once. -/
def signalled (s : State Msg) : Event Msg → State Msg
  | .abort reason => { s with signal := s.signal.or (some reason) }
  | _ => s

/-- What an event that does not end the running attempt does. -/
def proceed (transport : Transport) (s : State Msg) (aborted leaving : Bool) :
    Event Msg → Option (State Msg)
  | .headers metadata => if leaving then none else some { s with headers := some metadata }
  | .message message =>
      if leaving then none
      else
        let s := commit s
        some { s with
          -- the h2ts read loop looks at its controller after each message
          phase := .running aborted (transport = .h2ts && aborted)
          emitted := s.emitted ++ [.data s.started message] }
  | .abort _ => some { s with phase := .running (aborted || transport = .h2ts) leaving }
  | .cancel => some { s with phase := .running (aborted || transport = .h2ts) leaving }
  | _ => none

def step (policy : Option ResolvedPolicy) (transport : Transport) (s : State Msg)
    (label : Event Msg × Number) : Option (State Msg) :=
  match label.1 with
  | .others throttle =>
      some { s with ledger := { s.ledger with throttle := s.ledger.throttle.map fun _ => throttle } }
  | event => match s.phase with
    | .running aborted leaving => match ending transport s.signal aborted event with
      | some status => some (onStatus policy (signalled s event) status label.2)
      | none => proceed transport (signalled s event) aborted leaving event
    | .backingOff _ status => match event with
      | .elapsed => some (start s)
      | .abort _ => some (finish (signalled s event) status)
      | .cancel => some s
      | _ => none
    | .finished => match event with
      | .abort _ => some s
      | .cancel => some s
      | _ => none

/-- Everything a step can do. -/
inductive Move (policy : Option ResolvedPolicy) (transport : Transport) (s : State Msg) :
    Event Msg × Number → State Msg → Prop where
  | others (throttle : Throttle) (random : Number) :
      Move policy transport s (.others throttle, random)
        { s with ledger := { s.ledger with throttle := s.ledger.throttle.map fun _ => throttle } }
  | ends {aborted leaving : Bool} {event : Event Msg} {status : StatusResult} (random : Number)
      (running : s.phase = .running aborted leaving)
      (ended : ending transport s.signal aborted event = some status) :
      Move policy transport s (event, random) (onStatus policy (signalled s event) status random)
  | proceeds {aborted leaving : Bool} {event : Event Msg} {t : State Msg} (random : Number)
      (running : s.phase = .running aborted leaving)
      (goes : ending transport s.signal aborted event = none)
      (moved : proceed transport (signalled s event) aborted leaving event = some t) :
      Move policy transport s (event, random) t
  | elapses {delay : Number} {status : StatusResult} (random : Number)
      (waiting : s.phase = .backingOff delay status) :
      Move policy transport s (.elapsed, random) (start s)
  | gives {delay : Number} {status : StatusResult} (reason : AbortReason) (random : Number)
      (waiting : s.phase = .backingOff delay status) :
      Move policy transport s (.abort reason, random) (finish (signalled s (.abort reason)) status)
  | misses {delay : Number} {status : StatusResult} (random : Number)
      (waiting : s.phase = .backingOff delay status) : Move policy transport s (.cancel, random) s
  | idles {event : Event Msg} (random : Number) (closed : s.phase = .finished) :
      Move policy transport s (event, random) s

theorem step_move {policy : Option ResolvedPolicy} {transport : Transport} {s t : State Msg}
    {label : Event Msg × Number} (h : step policy transport s label = some t) :
    Move policy transport s label t := by
  obtain ⟨event, random⟩ := label
  cases phase : s.phase with
  | running aborted leaving =>
      unfold step at h
      split at h
      · rename_i throttle named
        cases h
        cases (show event = .others throttle from named)
        exact .others throttle random
      · simp only [phase] at h
        split at h
        · rename_i ended
          cases h
          exact .ends random phase ended
        · rename_i goes
          exact .proceeds random phase goes h
  | backingOff delay status =>
      cases event <;> simp only [step, phase, Option.some.injEq, reduceCtorEq] at h <;> subst h
      · exact .gives _ random phase
      · exact .misses random phase
      · exact .elapses random phase
      · simpa only [phase] using Move.others (s := s) _ random
  | finished =>
      cases event <;> simp only [step, phase, Option.some.injEq, reduceCtorEq] at h <;> subst h
      · exact .idles random phase
      · exact .idles random phase
      · simpa only [phase] using Move.others (s := s) _ random

end Stream
end GrpcWebnext.NodeClient
