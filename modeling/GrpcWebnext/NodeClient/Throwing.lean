import GrpcWebnext.NodeClient.Calls

/-! The stream transports under handlers that may throw. The client's handlers run user
code: deserializers, listeners and callbacks. On ws an exception ends in the event loop;
on h2ts the loop that reads the response catches it and reports a status. -/
namespace GrpcWebnext.NodeClient.Throwing
open Text (Str)
open Js (Number)
open GrpcWebnext.NodeClient.Stream (Event Transport ending abortStatus)

/-- The user code that throws when it is called: the listeners of `metadata`, `data` and
`status`, the listener of `end` or `error`, the deserializer and the callback. -/
structure User where
  metadata : Bool
  deserialize : Bool
  data : Bool
  status : Bool
  last : Bool
  callback : Bool

/-- What happens next, with the draw of `Math.random`; the user code while it is handled,
and again if a second `onStatus` is called for it; and the text of what is thrown. -/
structure Label (Msg : Type) where
  event : Event Msg
  random : Number
  user : User
  again : User
  thrown : Str

/-- The handlers of a call with state `H`. Each says whether it throws. A call that waits
out a backoff is restarted, or given up when its signal is aborted. -/
structure Handlers (H Msg : Type) where
  onHeaders : User → Metadata → H → H × Bool
  onMessage : User → Msg → H → H × Bool
  onStatus : User → Number → StatusResult → H → H × Bool
  waiting : H → Option StatusResult
  restart : H → H
  giveUp : User → StatusResult → H → H
  others : Throttle → H → H

inductive Called where
  | headers
  | message
  | status
  deriving DecidableEq

/-- A started stream, with the handlers it has called; `past` are those of the attempts
before it. -/
structure Conn (H : Type) where
  call : H
  signal : Option AbortReason
  aborted : Bool
  leaving : Bool
  closed : Bool
  calls : List Called
  past : List (List Called)

def Conn.init {H : Type} (call : H) (signal : Option AbortReason) : Conn H :=
  ⟨call, signal, signal.isSome, false, false, [], []⟩

section Machine
variable {H Msg : Type} (hs : Handlers H Msg)

/-- The terminal call of a handler, and whether it threw. -/
def report (s : Conn H) (user : User) (random : Number) (status : StatusResult) : Conn H × Bool :=
  let (call, threw) := hs.onStatus user random status s.call
  ({ s with call, closed := true, calls := s.calls ++ [.status] }, threw)

/-- The catch of the h2ts read loop. What `onStatus` throws there is an unhandled
rejection. -/
def caught (s : Conn H) (label : Label Msg) (reason : Str) : Conn H :=
  (report hs s label.again label.random
    (if s.aborted then abortStatus s.signal else ⟨H2ts.Status.unknown, reason, []⟩)).1

/-- A handler has returned, or thrown. -/
def handled (transport : Transport) (s : Conn H) (label : Label Msg) (threw : Bool) : Conn H :=
  match transport, threw with
  | .h2ts, true => caught hs s label label.thrown
  | _, _ => s

/-- `ctx.signal` is aborted once. -/
def signalled (s : Conn H) : Event Msg → Conn H
  | .abort reason => { s with signal := s.signal.or (some reason) }
  | _ => s

/-- An event while the attempt is running. -/
def onEvent (transport : Transport) (s : Conn H) (label : Label Msg) : Option (Conn H) :=
  match ending transport s.signal s.aborted label.event with
  | some status =>
      match transport, label.event with
      | .h2ts, .fail reason => some (caught hs s label reason)
      | _, event =>
          let (s, threw) := report hs (signalled s event) label.user label.random status
          some (handled hs transport s label threw)
  | none =>
      match label.event with
      | .headers metadata =>
          if s.leaving then none
          else
            let (call, threw) := hs.onHeaders label.user metadata s.call
            some (handled hs transport { s with call, calls := s.calls ++ [.headers] } label threw)
      | .message message =>
          if s.leaving then none
          else
            let (call, threw) := hs.onMessage label.user message s.call
            some (handled hs transport
              { s with call, calls := s.calls ++ [.message], leaving := transport = .h2ts && s.aborted }
              label threw)
      | .abort reason =>
          some { signalled s (.abort reason : Event Msg) with aborted := s.aborted || transport = .h2ts }
      | .cancel => some { s with aborted := s.aborted || transport = .h2ts }
      | _ => none

def step (transport : Transport) (s : Conn H) (label : Label Msg) : Option (Conn H) :=
  match label.event with
  | .others throttle => some { s with call := hs.others throttle s.call }
  | event =>
      if s.closed then
        match hs.waiting s.call, event with
        | some _, .elapsed =>
            if s.signal.isSome then none
            else some { s with
              call := hs.restart s.call, aborted := false, leaving := false, closed := false
              calls := [], past := s.past ++ [s.calls] }
        -- `sleep` resolves to false at once under an aborted signal
        | some status, .notice =>
            if s.signal.isSome then some { s with call := hs.giveUp label.user status s.call } else none
        | some status, .abort reason =>
            if s.signal.isSome then some s
            else some { s with signal := some reason, call := hs.giveUp label.user status s.call }
        | _, .abort _ => some s
        | _, .cancel => some s
        | _, _ => none
      else onEvent hs transport s label

/-- What the handlers of an attempt and the call see of a state. -/
structure View (H : Type) where
  call : H
  closed : Bool
  calls : List Called
  past : List (List Called)

def Conn.view (s : Conn H) : View H := ⟨s.call, s.closed, s.calls, s.past⟩

/-- `onHeaders` or `onMessage` is called. -/
inductive Hears (s : Conn H) (label : Label Msg) : Called → H × Bool → Prop where
  | headers (metadata : Metadata) (event : label.event = .headers metadata) :
      Hears s label .headers (hs.onHeaders label.user metadata s.call)
  | message (message : Msg) (event : label.event = .message message) :
      Hears s label .message (hs.onMessage label.user message s.call)

/-- The status of a response that ends on its own, or of a cancel that the loop notices. -/
def responded (s : Conn H) (status : StatusResult) : StatusResult :=
  if s.aborted then abortStatus s.signal else status

/-- A backoff is cut short: by the abort, or at once if the signal was aborted before. -/
def Hurried (s : Conn H) (event : Event Msg) : Prop :=
  event = .notice ∧ s.signal.isSome ∨ (∃ reason, event = .abort reason) ∧ s.signal = none

/-- Everything a step can do to the call. -/
inductive Turn (transport : Transport) (s : Conn H) (label : Label Msg) : View H → Prop where
  | idles (closed : s.closed = true)
      (unhurried : ∀ status, hs.waiting s.call = some status → ¬ Hurried s label.event) :
      Turn transport s label s.view
  | goesOn (running : s.closed = false) (goes : ending transport s.signal s.aborted label.event = none)
      (unheard : ∀ called result, ¬ Hears hs s label called result) :
      Turn transport s label s.view
  | others (throttle : Throttle) (event : label.event = .others throttle) :
      Turn transport s label { s.view with call := hs.others throttle s.call }
  | hears (running : s.closed = false) {called : Called} {result : H × Bool}
      (heard : Hears hs s label called result) (goes : transport = .h2ts → result.2 = false) :
      Turn transport s label ⟨result.1, false, s.calls ++ [called], s.past⟩
  | trips (running : s.closed = false) (loops : transport = .h2ts) {called : Called} {result : H × Bool}
      (heard : Hears hs s label called result) (threw : result.2 = true) (status : StatusResult) :
      Turn transport s label
        ⟨(hs.onStatus label.again label.random status result.1).1, true,
          s.calls ++ [called] ++ [.status], s.past⟩
  | ends (running : s.closed = false) (status : StatusResult)
      (ended : ending transport s.signal s.aborted label.event = some status)
      (responds : transport = .h2ts → ∃ sent, label.event = .respond sent ∧
        (hs.onStatus label.user label.random status s.call).2 = false) :
      Turn transport s label
        ⟨(hs.onStatus label.user label.random status s.call).1, true, s.calls ++ [.status], s.past⟩
  | repeats (running : s.closed = false) (loops : transport = .h2ts) (sent status : StatusResult)
      (responds : label.event = .respond sent)
      (threw : (hs.onStatus label.user label.random (responded s sent) s.call).2 = true) :
      Turn transport s label
        ⟨(hs.onStatus label.again label.random status
            (hs.onStatus label.user label.random (responded s sent) s.call).1).1,
          true, s.calls ++ [.status] ++ [.status], s.past⟩
  | fails (running : s.closed = false) (loops : transport = .h2ts) (reason : Str)
      (failed : label.event = .fail reason) (status : StatusResult)
      (ended : ending transport s.signal s.aborted label.event = some status) :
      Turn transport s label
        ⟨(hs.onStatus label.again label.random status s.call).1, true, s.calls ++ [.status], s.past⟩
  | restarts (closed : s.closed = true) {status : StatusResult} (waits : hs.waiting s.call = some status)
      (elapsed : label.event = .elapsed) :
      Turn transport s label ⟨hs.restart s.call, false, [], s.past ++ [s.calls]⟩
  | givesUp (closed : s.closed = true) {status : StatusResult} (waits : hs.waiting s.call = some status)
      (hurried : Hurried s label.event) :
      Turn transport s label { s.view with call := hs.giveUp label.user status s.call }

variable {hs}

theorem handled_ws (s : Conn H) (label : Label Msg) (threw : Bool) : handled hs .ws s label threw = s := by
  cases threw <;> rfl

theorem handled_calm (s : Conn H) (label : Label Msg) : handled hs .h2ts s label false = s := rfl

theorem handled_threw (s : Conn H) (label : Label Msg) :
    handled hs .h2ts s label true = caught hs s label label.thrown := rfl

/-- On h2ts a response or a failure ends the attempt. -/
theorem ending_h2ts {s : Conn H} {event : Event Msg} {status : StatusResult}
    (ended : ending .h2ts s.signal s.aborted event = some status) :
    (∃ sent, event = .respond sent ∧ status = responded s sent) ∨ ∃ reason, event = .fail reason := by
  cases event with
  | respond sent =>
      cases ended
      exact .inl ⟨sent, rfl, rfl⟩
  | fail reason => exact .inr ⟨reason, rfl⟩
  | headers | message | abort | notice | cancel | elapsed | others => cases ended

/-- A handler of an attempt that goes on has been called. -/
theorem handled_turn {transport : Transport} {s t : Conn H} {label : Label Msg} (running : s.closed = false)
    {called : Called} {result : H × Bool} (heard : Hears hs s label called result)
    (call : t.call = result.1) (closed : t.closed = false) (calls : t.calls = s.calls ++ [called])
    (past : t.past = s.past) :
    Turn hs transport s label (handled hs transport t label result.2).view := by
  have quiet : t.view = ⟨result.1, false, s.calls ++ [called], s.past⟩ := by
    rw [Conn.view, call, closed, calls, past]
  cases transport with
  | ws =>
      rw [handled_ws, quiet]
      exact .hears running heard fun loops => by cases loops
  | h2ts =>
      cases threw : result.2 with
      | false =>
          rw [handled_calm, quiet]
          exact .hears running heard fun _ => threw
      | true =>
          have trips := Turn.trips running rfl heard threw
            (if t.aborted then abortStatus t.signal else ⟨H2ts.Status.unknown, label.thrown, []⟩)
          rw [← call, ← calls, ← past] at trips
          exact trips

theorem unheard_of_event {s : Conn H} {label : Label Msg}
    (headers : ∀ metadata, label.event ≠ .headers metadata)
    (message : ∀ message, label.event ≠ .message message) (called : Called) (result : H × Bool) :
    ¬ Hears hs s label called result := by
  intro heard
  cases heard with
  | headers metadata event => exact headers metadata event
  | message content event => exact message content event

theorem onEvent_turn {transport : Transport} {s t : Conn H} {label : Label Msg} (running : s.closed = false)
    (h : onEvent hs transport s label = some t) : Turn hs transport s label t.view := by
  unfold onEvent at h
  split at h
  · rename_i status ended
    have sig : (signalled s label.event).call = s.call ∧ (signalled s label.event).calls = s.calls ∧
        (signalled s label.event).past = s.past := by
      cases label.event <;> exact ⟨rfl, rfl, rfl⟩
    cases transport with
    | ws =>
        simp only [report, handled_ws, Option.some.injEq] at h
        subst h
        have ends : Turn hs .ws s label _ := .ends running status ended fun loops => by cases loops
        rw [← sig.1, ← sig.2.1, ← sig.2.2] at ends
        exact ends
    | h2ts =>
        rcases ending_h2ts ended with ⟨sent, event, rfl⟩ | ⟨reason, event⟩
        · simp only [event, report, Option.some.injEq] at h
          have same : signalled s (Event.respond sent : Event Msg) = s := rfl
          rw [same] at h
          cases threw : (hs.onStatus label.user label.random (responded s sent) s.call).2 with
          | false =>
              rw [threw, handled_calm] at h
              subst h
              exact .ends running (responded s sent) ended fun _ => ⟨sent, event, threw⟩
          | true =>
              rw [threw, handled_threw] at h
              subst h
              exact .repeats running rfl sent _ event threw
        · simp only [event, Option.some.injEq] at h
          subst h
          exact .fails running rfl reason event _ (by rw [event]; rfl)
  · rename_i goes
    split at h
    · rename_i metadata event
      split at h
      · cases h
      · cases h
        exact handled_turn running (.headers metadata event) rfl running rfl rfl
    · rename_i message event
      split at h
      · cases h
      · cases h
        exact handled_turn running (.message message event) rfl running rfl rfl
    · rename_i reason event
      cases h
      exact .goesOn running goes (unheard_of_event (fun _ other => by cases event.symm.trans other)
        fun _ other => by cases event.symm.trans other)
    · rename_i event
      cases h
      exact .goesOn running goes (unheard_of_event (fun _ other => by cases event.symm.trans other)
        fun _ other => by cases event.symm.trans other)
    · cases h

theorem step_turn {transport : Transport} {s t : Conn H} {label : Label Msg}
    (h : step hs transport s label = some t) : Turn hs transport s label t.view := by
  unfold step at h
  split at h
  · rename_i throttle event
    cases h
    exact .others throttle event
  · split at h
    · rename_i closed
      split at h
      · rename_i status waits event
        split at h
        · cases h
        · cases h
          exact .restarts closed waits event
      · rename_i status waits event
        split at h
        · rename_i signal
          cases h
          exact .givesUp closed waits (.inl ⟨event, signal⟩)
        · cases h
      · rename_i status reason waits event
        split at h
        · rename_i signal
          cases h
          refine .idles closed fun _ _ hurried => ?_
          rcases hurried with ⟨other, _⟩ | ⟨_, none⟩
          · cases event.symm.trans other
          · simp only [none, Option.isSome_none, Bool.false_eq_true] at signal
        · rename_i signal
          cases h
          exact .givesUp closed waits (.inr ⟨⟨reason, event⟩, by simpa using signal⟩)
      · rename_i event resting
        cases h
        exact .idles closed fun status waits _ => resting status waits
      · rename_i event
        cases h
        refine .idles closed fun _ _ hurried => ?_
        rcases hurried with ⟨other, _⟩ | ⟨⟨_, other⟩, _⟩ <;> cases event.symm.trans other
      · cases h
    · rename_i running
      exact onEvent_turn (by simpa using running) h

/-- The handlers were called as a stream calls them: `onStatus` once if it is closed, and
nothing after it. -/
def Once (closed : Bool) (calls : List Called) : Prop :=
  ∃ before, .status ∉ before ∧ calls = before ++ if closed then [.status] else []

/-- Every stream that was started has called its handlers so. -/
structure ToldOnce (s : Conn H) : Prop where
  past : ∀ calls ∈ s.past, Once true calls
  current : Once s.closed s.calls

/-- The handler of a response's status does not throw into the catch of the read loop. -/
def Calm (hs : Handlers H Msg) (transport : Transport) (s : Conn H) (label : Label Msg) : Prop :=
  transport = .h2ts → s.closed = false → ∀ sent, label.event = .respond sent →
    (hs.onStatus label.user label.random (responded s sent) s.call).2 = false

theorem once_running {calls : List Called} : Once false calls ↔ .status ∉ calls := by
  constructor
  · rintro ⟨before, silent, rfl⟩
    simpa using silent
  · intro silent
    exact ⟨calls, silent, (List.append_nil calls).symm⟩

theorem once_closed {calls : List Called} : Once true (calls ++ [.status]) ↔ .status ∉ calls := by
  constructor
  · rintro ⟨before, silent, same⟩
    rw [(List.append_inj' same rfl).1]
    exact silent
  · intro silent
    exact ⟨calls, silent, rfl⟩

theorem calm_of_closed {transport : Transport} {s : Conn H} {label : Label Msg} (closed : s.closed = true) :
    Calm hs transport s label :=
  fun _ running => absurd (running.symm.trans closed) Bool.false_ne_true

theorem calm_of_event {transport : Transport} {s : Conn H} {label : Label Msg}
    (other : ∀ sent, label.event ≠ .respond sent) : Calm hs transport s label :=
  fun _ _ sent event => absurd event (other sent)

theorem Hears.called {s : Conn H} {label : Label Msg} {called : Called} {result : H × Bool}
    (heard : Hears hs s label called result) :
    called ≠ .status ∧ ∀ sent, label.event ≠ .respond sent := by
  cases heard with
  | headers metadata event => exact ⟨by decide, fun sent other => by cases event.symm.trans other⟩
  | message message event => exact ⟨by decide, fun sent other => by cases event.symm.trans other⟩

/-- A step calls the handlers as it should exactly when no `onStatus` throws into the
catch. -/
theorem told_step {transport : Transport} {s t : Conn H} {label : Label Msg} (told : ToldOnce s)
    (h : step hs transport s label = some t) : ToldOnce t ↔ Calm hs transport s label := by
  have split : ToldOnce t ↔ (∀ calls ∈ t.view.past, Once true calls) ∧ Once t.view.closed t.view.calls :=
    ⟨fun told => ⟨told.past, told.current⟩, fun ⟨past, current⟩ => ⟨past, current⟩⟩
  rw [split]
  have current := told.current
  have turn := step_turn h
  generalize t.view = seen at turn ⊢
  cases turn with
  | idles closed unhurried => exact iff_of_true ⟨told.past, told.current⟩ (calm_of_closed closed)
  | goesOn running goes unheard =>
      refine iff_of_true ⟨told.past, told.current⟩ fun loops _ sent event => ?_
      subst loops
      rw [event] at goes
      cases goes
  | others throttle event =>
      exact iff_of_true ⟨told.past, told.current⟩
        (calm_of_event fun sent other => by cases event.symm.trans other)
  | hears running heard goes =>
      rw [running, once_running] at current
      obtain ⟨nonstatus, other⟩ := heard.called
      refine iff_of_true ⟨told.past, once_running.mpr ?_⟩ (calm_of_event other)
      simp [current, Ne.symm nonstatus]
  | trips running loops heard threw status =>
      rw [running, once_running] at current
      obtain ⟨nonstatus, other⟩ := heard.called
      refine iff_of_true ⟨told.past, once_closed.mpr ?_⟩ (calm_of_event other)
      simp [current, Ne.symm nonstatus]
  | ends running status ended responds =>
      rw [running, once_running] at current
      refine iff_of_true ⟨told.past, once_closed.mpr current⟩ fun loops _ sent event => ?_
      obtain ⟨_, _, calm⟩ := responds loops
      subst loops
      rw [event] at ended
      cases ended
      exact calm
  | repeats running loops sent status responds threw =>
      refine iff_of_false (fun twice => ?_) fun calm => ?_
      · exact once_closed.mp twice.2 (by simp)
      · exact absurd (threw.symm.trans (calm loops running sent responds)) (by decide)
  | fails running loops reason failed status ended =>
      rw [running, once_running] at current
      exact iff_of_true ⟨told.past, once_closed.mpr current⟩
        (calm_of_event fun sent other => by cases failed.symm.trans other)
  | restarts closed waits elapsed =>
      rw [closed] at current
      refine iff_of_true ⟨fun calls found => ?_, once_running.mpr List.not_mem_nil⟩ (calm_of_closed closed)
      rcases List.mem_append.mp found with old | new
      · exact told.past calls old
      · rw [List.mem_singleton.mp new]
        exact current
  | givesUp closed waits hurried => exact iff_of_true ⟨told.past, told.current⟩ (calm_of_closed closed)

/-- What was called stays called. -/
theorem untold_step {transport : Transport} {s t : Conn H} {label : Label Msg} (untold : ¬ ToldOnce s)
    (h : step hs transport s label = some t) : ¬ ToldOnce t := by
  refine fun told => untold ?_
  have past : ∀ calls ∈ t.view.past, Once true calls := told.past
  have current : Once t.view.closed t.view.calls := told.current
  have earlier : ∀ {called : Called}, .status ∉ s.calls ++ [called] → s.closed = false →
    Once s.closed s.calls := by
    intro called silent running
    rw [running]
    exact once_running.mpr fun inside => silent (List.mem_append_left _ inside)
  have turn := step_turn h
  generalize t.view = seen at turn past current
  cases turn with
  | idles closed unhurried => exact ⟨past, current⟩
  | goesOn running goes unheard => exact ⟨past, current⟩
  | others throttle event => exact ⟨past, current⟩
  | hears running heard goes => exact ⟨past, earlier (once_running.mp current) running⟩
  | trips running loops heard threw status => exact ⟨past, earlier (once_closed.mp current) running⟩
  | ends running status ended responds =>
      refine ⟨past, ?_⟩
      rw [running]
      exact once_running.mpr (once_closed.mp current)
  | repeats running loops sent status responds threw =>
      exact absurd (once_closed.mp current) (by simp)
  | fails running loops reason failed status ended =>
      refine ⟨past, ?_⟩
      rw [running]
      exact once_running.mpr (once_closed.mp current)
  | restarts closed waits elapsed =>
      refine ⟨fun calls found => past calls (List.mem_append_left _ found), ?_⟩
      rw [closed]
      exact past s.calls (List.mem_append_right _ (List.mem_singleton_self _))
  | givesUp closed waits hurried => exact ⟨past, current⟩

end Machine

end GrpcWebnext.NodeClient.Throwing
