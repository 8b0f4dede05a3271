import GrpcWebnext.NodeClient.OneOutcome

/-! Transport failures, from the wire to the caller. Each transport runs one attempt at a
time and has its own places at which the attempt can fail; above them are the four kinds
of call. -/
namespace GrpcWebnext.NodeClient
open Text (Str)
open Js (Number)

/-- The statuses shown since `before` are all this one. -/
def ShowsOnly (status : StatusResult) (before after : List StatusResult) : Prop :=
  ∃ shown, after = before ++ shown ∧ ∀ other ∈ shown, other = status

theorem ShowsOnly.nothing (status : StatusResult) (before : List StatusResult) :
    ShowsOnly status before before :=
  ⟨[], (List.append_nil before).symm, fun _ none_ => absurd none_ List.not_mem_nil⟩

theorem ShowsOnly.mem {status other : StatusResult} {before after : List StatusResult}
    (shows : ShowsOnly status before after) (found : other ∈ after) : other ∈ before ∨ other = status := by
  obtain ⟨shown, rfl, same⟩ := shows
  exact (List.mem_append.mp found).imp_right (same other)

namespace Throwing
open GrpcWebnext.NodeClient.Stream (Event Transport ending abortStatus)

/-- A `CloseEvent`. -/
structure CloseEvent where
  code : Nat
  reason : Str

def closeStatusBase : Int := 4000

/-- The private codes that carry a status. -/
def CloseEvent.carriesStatus (event : CloseEvent) : Bool :=
  closeStatusBase ≤ event.code && event.code ≤ closeStatusBase + H2ts.Status.unauthenticated

def statusForClose (event : Option CloseEvent) : StatusResult :=
  match event.filter CloseEvent.carriesStatus with
  | some event => ⟨event.code - closeStatusBase, event.reason, []⟩
  | none => ⟨H2ts.Status.unavailable, "websocket closed".toList, []⟩

/-- Where an attempt is: on h2ts it awaits `this.conn()`, then `conn.request`, then the
body; on ws its socket is connecting, then open. -/
inductive Position where
  | dialling
  | requested
  | reading
  deriving DecidableEq

/-- What happens to a stream: at its socket or tunnel, or on the side of the client. -/
inductive Wire (Msg : Type) where
  | dialled
  | refused (reason : Str)
  | unanswered (reason : Str)
  | dropped (reason : Str)
  | errored
  | closed (event : CloseEvent)
  | headers (metadata : Metadata)
  | message (message : Msg)
  | ended (status : StatusResult)
  | abort (reason : AbortReason)
  | notice
  | cancel
  | elapsed
  | others (throttle : Throttle)

namespace Wire
variable {Msg : Type}

/-- The transport fails to carry the call. -/
def fails : Wire Msg → Bool
  | .refused _ | .unanswered _ | .dropped _ | .errored => true
  | .closed event => !event.carriesStatus
  | _ => false

/-- Where headers are heard. -/
def head : Transport → Position
  | .h2ts => .requested
  | .ws => .reading

/-- What the stream makes of it, where it can happen. -/
def event (transport : Transport) (position : Position) : Wire Msg → Option (Event Msg)
  | .dialled => none
  | .refused reason => if transport = .h2ts ∧ position = .dialling then some (.fail reason) else none
  | .unanswered reason => if transport = .h2ts ∧ position = .requested then some (.fail reason) else none
  | .dropped reason => if transport = .h2ts ∧ position = .reading then some (.fail reason) else none
  | .errored => if transport = .ws then some (.respond (statusForClose none)) else none
  | .closed event => if transport = .ws then some (.respond (statusForClose (some event))) else none
  | .headers metadata => if position = head transport then some (.headers metadata) else none
  | .message content => if position = .reading then some (.message content) else none
  | .ended status => if position = .reading then some (.respond status) else none
  | .abort reason => some (.abort reason)
  | .notice => some .notice
  | .cancel => some .cancel
  | .elapsed => some .elapsed
  | .others throttle => some (.others throttle)

/-- Where the attempt is after it. -/
def next (transport : Transport) (position : Position) : Wire Msg → Position
  | .dialled => head transport
  | .headers _ => .reading
  | .elapsed => .dialling
  | _ => position

/-- What comes over the socket, which `finished` guards. -/
def remote : Wire Msg → Bool
  | .abort _ | .notice | .cancel | .elapsed | .others _ => false
  | _ => true

end Wire

/-- A call that also keeps the statuses its attempts have reported. -/
structure Heard (H : Type) where
  call : H
  told : List StatusResult

section Streams
variable {H Msg : Type} (hs : Handlers H Msg) (transport : Transport)

def recording : Handlers (Heard H) Msg where
  onHeaders user metadata c :=
    (⟨(hs.onHeaders user metadata c.call).1, c.told⟩, (hs.onHeaders user metadata c.call).2)
  onMessage user message c :=
    (⟨(hs.onMessage user message c.call).1, c.told⟩, (hs.onMessage user message c.call).2)
  onStatus user random status c :=
    (⟨(hs.onStatus user random status c.call).1, c.told ++ [status]⟩,
      (hs.onStatus user random status c.call).2)
  waiting c := hs.waiting c.call
  restart c := ⟨hs.restart c.call, c.told⟩
  giveUp user status c := ⟨hs.giveUp user status c.call, c.told⟩
  others throttle c := ⟨hs.others throttle c.call, c.told⟩

/-- A stream, and where its attempt is. -/
structure Wired (H : Type) where
  position : Position
  conn : Conn (Heard H)

def Wired.init {H : Type} (call : H) (signal : Option AbortReason) : Wired H :=
  ⟨.dialling, Conn.init ⟨call, []⟩ signal⟩

/-- What happens on the wire, with the draws and the user code of a `Label`. -/
structure Occurrence (Msg : Type) where
  wire : Wire Msg
  random : Number
  user : User
  again : User
  thrown : Str

def Occurrence.label {Msg : Type} (o : Occurrence Msg) (event : Event Msg) : Label Msg :=
  ⟨event, o.random, o.user, o.again, o.thrown⟩

def carry (s : Wired H) (o : Occurrence Msg) : Option (Wired H) :=
  if transport = .ws ∧ s.conn.closed = true ∧ o.wire.remote = true then some s
  else match o.wire with
    | .dialled => if s.position = .dialling ∧ s.conn.closed = false then
        some { s with position := Wire.head transport } else none
    | wire => (wire.event transport s.position).bind fun event =>
        (step (recording hs) transport s.conn (o.label event)).map fun conn =>
          ⟨wire.next transport s.position, conn⟩

/-- What a kind of call shows its caller: nothing but the status it has just been given,
or the one it waited with. -/
structure Reporting (hs : Handlers H Msg) where
  shown : H → List StatusResult
  onHeaders : ∀ user metadata c, shown (hs.onHeaders user metadata c).1 = shown c ∧
    hs.waiting (hs.onHeaders user metadata c).1 = hs.waiting c
  onMessage : ∀ user message c, shown (hs.onMessage user message c).1 = shown c ∧
    hs.waiting (hs.onMessage user message c).1 = hs.waiting c
  onStatus : ∀ user random status c, ShowsOnly status (shown c) (shown (hs.onStatus user random status c).1)
  backs : ∀ user random status c other, hs.waiting (hs.onStatus user random status c).1 =
    some other → other = status
  restart : ∀ c, shown (hs.restart c) = shown c ∧ hs.waiting (hs.restart c) = none
  giveUp : ∀ user status c, ShowsOnly status (shown c) (shown (hs.giveUp user status c)) ∧
    hs.waiting (hs.giveUp user status c) = none
  others : ∀ throttle c, shown (hs.others throttle c) = shown c ∧
    hs.waiting (hs.others throttle c) = hs.waiting c

variable {hs transport}

/-- The attempt has ended with this status: the retry layer is given it, and the caller
is shown no other. -/
structure EndsWith (reporting : Reporting hs) (s t : Conn (Heard H)) (status : StatusResult) : Prop where
  told : t.call.told = s.call.told ++ [status]
  shown : ShowsOnly status (reporting.shown s.call.call) (reporting.shown t.call.call)
  closed : t.closed = true

/-- A failure is a close without a status on ws and an exception on h2ts. -/
theorem event_of_failure {position : Position} {wire : Wire Msg} {event : Event Msg}
    (fails : wire.fails = true)
    (heard : wire.event transport position = some event) :
    transport = .ws ∧ event = .respond (statusForClose none) ∨ transport = .h2ts ∧
    ∃ reason, event = .fail reason := by
  cases wire with
  | refused reason | unanswered reason | dropped reason =>
      obtain ⟨⟨loops, -⟩, same⟩ := Option.ite_none_right_eq_some.mp heard
      cases same
      exact .inr ⟨loops, reason, rfl⟩
  | errored =>
      obtain ⟨socket, same⟩ := Option.ite_none_right_eq_some.mp heard
      cases same
      exact .inl ⟨socket, rfl⟩
  | closed close =>
      obtain ⟨socket, same⟩ := Option.ite_none_right_eq_some.mp heard
      cases same
      have no_status : statusForClose (some close) = statusForClose none := by
        have uncoded : close.carriesStatus = false := by simpa [Wire.fails] using fails
        simp [statusForClose, Option.filter, uncoded]
      exact .inl ⟨socket, congrArg Event.respond no_status⟩
  | _ => cases fails

/-- Any other occurrence than the dial goes to the stream. -/
theorem carry_step {s t : Wired H} {o : Occurrence Msg} (running : s.conn.closed = false)
    (dialled : o.wire ≠ .dialled) (h : carry hs transport s o = some t) :
    ∃ event, o.wire.event transport s.position = some event ∧
      step (recording hs) transport s.conn (o.label event) = some t.conn := by
  unfold carry at h
  rw [if_neg (by simp [running])] at h
  split at h
  · rename_i dials
    exact absurd dials dialled
  · obtain ⟨event, heard, moved⟩ := Option.bind_eq_some_iff.mp h
    obtain ⟨conn, stepped, rfl⟩ := Option.map_eq_some_iff.mp moved
    exact ⟨event, heard, stepped⟩

/-- What a failing transport makes of a running attempt. -/
theorem failure_ends (reporting : Reporting hs) {s t : Wired H} {o : Occurrence Msg}
    (running : s.conn.closed = false)
    (calm : s.conn.signal = none) (fails : o.wire.fails = true) (h : carry hs transport s o = some t) :
    ∃ status, EndsWith reporting s.conn t.conn status ∧
      (transport = .ws → status.code = H2ts.Status.unavailable) ∧
      (transport = .h2ts → status.code = if s.conn.aborted then H2ts.Status.cancelled
        else H2ts.Status.unknown) := by
  have dialled : o.wire ≠ .dialled := fun dials => by simp [dials, Wire.fails] at fails
  obtain ⟨event, heard, stepped⟩ := carry_step running dialled h
  obtain ⟨rfl, rfl⟩ | ⟨rfl, reason, rfl⟩ := event_of_failure fails heard
  · simp only [step, Occurrence.label, running, Bool.false_eq_true, if_false, onEvent, ending, handled,
      Option.some.injEq] at stepped
    refine ⟨statusForClose none, ?_, fun _ => rfl, fun crossed => ?_⟩
    · rw [← stepped]
      exact ⟨rfl, reporting.onStatus _ _ _ _, rfl⟩
    · cases crossed
  · simp only [step, Occurrence.label, running, Bool.false_eq_true, if_false, onEvent, ending, calm, caught,
      Option.some.injEq] at stepped
    refine ⟨if s.conn.aborted then abortStatus none else ⟨H2ts.Status.unknown, reason, []⟩, ?_,
      fun crossed => ?_, fun _ => ?_⟩
    · rw [← stepped]
      exact ⟨rfl, reporting.onStatus _ _ _ _, rfl⟩
    · cases crossed
    · rw [apply_ite StatusResult.code]
      rfl

/-- What the caller has been shown, and what a call waits with, has been reported by its
attempts. -/
structure Sourced (reporting : Reporting hs) (c : Heard H) : Prop where
  shown : ∀ status ∈ reporting.shown c.call, status ∈ c.told
  waits : ∀ status, hs.waiting c.call = some status → c.told.getLast? = some status

theorem Sourced.same {reporting : Reporting hs} {c : Heard H} (sourced : Sourced reporting c) {call : H}
    (same : reporting.shown call = reporting.shown c.call ∧ hs.waiting call = hs.waiting c.call) :
    Sourced reporting ⟨call, c.told⟩ where
  shown status found := sourced.shown status (same.1 ▸ found)
  waits status waits := sourced.waits status (same.2.symm.trans waits)

theorem Sourced.onStatus {reporting : Reporting hs} {c : Heard H} (sourced : Sourced reporting c)
    (user : User)
    (random : Number) (status : StatusResult) :
    Sourced reporting ((recording hs).onStatus user random status c).1 where
  shown other found := by
    rcases (reporting.onStatus user random status c.call).mem found with old | rfl
    · exact List.mem_append_left _ (sourced.shown other old)
    · exact List.mem_append_right _ (List.mem_singleton_self other)
  waits other waits := by
    cases reporting.backs user random status c.call other waits
    exact List.getLast?_concat

theorem Sourced.hears {reporting : Reporting hs} {s : Conn (Heard H)} (sourced : Sourced reporting s.call)
    {label : Label Msg} {called : Called} {result : Heard H × Bool}
    (heard : Hears (recording hs) s label called result) :
    Sourced reporting result.1 := by
  cases heard with
  | headers metadata _ => exact sourced.same (reporting.onHeaders label.user metadata s.call.call)
  | message message _ => exact sourced.same (reporting.onMessage label.user message s.call.call)

theorem Sourced.step {reporting : Reporting hs} {s t : Conn (Heard H)} {label : Label Msg}
    (sourced : Sourced reporting s.call) (h : step (recording hs) transport s label = some t) :
    Sourced reporting t.call := by
  have turn := step_turn h
  change Sourced reporting t.view.call
  generalize t.view = view at turn
  cases turn with
  | idles closed unhurried => exact sourced
  | goesOn running goes unheard => exact sourced
  | others throttle _ => exact sourced.same (reporting.others throttle s.call.call)
  | hears running heard goes => exact sourced.hears heard
  | trips running loops heard threw status => exact (sourced.hears heard).onStatus _ _ status
  | ends running status ended responds => exact sourced.onStatus _ _ status
  | repeats running loops sent status responds threw => exact (sourced.onStatus _ _ _).onStatus _ _ status
  | fails running loops reason failed status ended => exact sourced.onStatus _ _ status
  | restarts closed waits elapsed =>
      obtain ⟨shown, rests⟩ := reporting.restart s.call.call
      exact ⟨fun status found => sourced.shown status (shown ▸ found),
        fun status waits => by cases rests.symm.trans waits⟩
  | @givesUp closed status waits hurried =>
      obtain ⟨shows, rests⟩ := reporting.giveUp label.user status s.call.call
      refine ⟨fun other found => ?_, fun other waits => by cases rests.symm.trans waits⟩
      rcases shows.mem found with old | rfl
      · exact sourced.shown other old
      · exact List.mem_of_getLast? (sourced.waits other waits)

theorem carry_sourced {reporting : Reporting hs} {s t : Wired H} {o : Occurrence Msg}
    (sourced : Sourced reporting s.conn.call) (h : carry hs transport s o = some t) :
    Sourced reporting t.conn.call := by
  unfold carry at h
  split at h
  · cases h
    exact sourced
  · split at h
    · split at h
      · cases h
        exact sourced
      · cases h
    · obtain ⟨event, heard, moved⟩ := Option.bind_eq_some_iff.mp h
      obtain ⟨conn, stepped, rfl⟩ := Option.map_eq_some_iff.mp moved
      exact sourced.step stepped

/-- Whatever a run has shown its caller was reported by an attempt. -/
theorem run_sourced (reporting : Reporting hs) {call : H} (fresh : reporting.shown call = [])
    (idle : hs.waiting call = none)
    {signal : Option AbortReason} {os : List (Occurrence Msg)} {s : Wired H}
    (h : Machine.run (carry hs transport) (.init call signal) os = some s) :
    Sourced reporting s.conn.call := by
  refine Machine.run_invariant (fun _ _ _ sourced moved => carry_sourced sourced moved) ?_ h
  exact ⟨fun status found => absurd (fresh ▸ found) List.not_mem_nil, fun status waits =>
    by cases idle.symm.trans waits⟩

/-- On every run of a stream, an attempt whose transport fails under a signal that is not
aborted ends with one status, for the retry layer and the caller; and what the caller is
shown at any time is what attempts have ended with. -/
def FailureReports (reporting : Reporting hs) (transport : Transport) (call : H) (signal : Option AbortReason)
    (code : Int → Prop) : Prop :=
  ∀ os s, Machine.run (carry hs transport) (.init call signal) os = some s →
    Sourced reporting s.conn.call ∧
      ∀ o t, carry hs transport s o = some t → s.conn.closed = false → s.conn.signal = none →
        o.wire.fails = true →
        ∃ status, EndsWith reporting s.conn t.conn status ∧ code status.code

theorem failureReports (reporting : Reporting hs) (transport : Transport) {call : H}
    (fresh : reporting.shown call = [])
    (idle : hs.waiting call = none) (signal : Option AbortReason) :
    FailureReports reporting transport call signal fun code => code = H2ts.Status.unavailable ↔
      transport ≠ .h2ts := by
  intro os s h
  refine ⟨run_sourced reporting fresh idle h, fun o t moved running calm fails => ?_⟩
  obtain ⟨status, ends, socket, tunnel⟩ := failure_ends reporting running calm fails moved
  refine ⟨status, ends, ?_⟩
  cases transport with
  | ws => exact iff_of_true (socket rfl) (by simp)
  | h2ts =>
      refine iff_of_false ?_ (by simp)
      rw [tunnel rfl]
      split <;> decide

end Streams

section Kinds
variable {Msg : Type}

/-- The statuses among the events of a readable stream. -/
def statusesShown (emitted : List (Stream.Emission Msg)) : List StatusResult :=
  emitted.filterMap fun
    | .status status => some status
    | .error status => some status
    | _ => none

theorem tellStatus_shows (user : User) (status : StatusResult) (emitted : List (Stream.Emission Msg)) :
    ShowsOnly status (statusesShown emitted) (statusesShown (tellStatus user status emitted).1) := by
  unfold tellStatus
  split
  · refine ⟨[status], ?_, fun other found => List.mem_singleton.mp found⟩
    rw [statusesShown, List.filterMap_append]
    rfl
  · refine ⟨status :: statusesShown ([last status] : List (Stream.Emission Msg)), ?_, fun other found => ?_⟩
    · rw [statusesShown, List.filterMap_append]
      rfl
    · rcases List.mem_cons.mp found with same | ended
      · exact same
      · unfold last at ended
        split at ended
        · cases ended
        · exact List.mem_singleton.mp ended

namespace ServerCall

/-- Held headers are all that `commit` emits. -/
theorem commit_shown (user : User) (c : ServerCall Msg) :
    statusesShown (commit user c).1.emitted = statusesShown c.emitted := by
  unfold commit
  split
  · rfl
  · split
    · rfl
    · simp [statusesShown]

theorem finish_shown (user : User) (status : StatusResult) (c : ServerCall Msg) :
    ShowsOnly status (statusesShown c.emitted) (statusesShown (finish user status c).1.emitted) := by
  have held := commit_shown user { c with backoff := none }
  unfold finish
  generalize commit user { c with backoff := none } = committed at held
  obtain ⟨c', threw⟩ := committed
  change statusesShown c'.emitted = statusesShown c.emitted at held
  cases threw with
  | true =>
      change ShowsOnly status _ (statusesShown c'.emitted)
      rw [held]
      exact .nothing status _
  | false =>
      rw [← held]
      exact tellStatus_shows user status c'.emitted

def reporting (policy : Option ResolvedPolicy) :
    Reporting (handlers policy : Handlers (ServerCall Msg) Msg) where
  shown c := statusesShown c.emitted
  onHeaders _ _ _ := ⟨rfl, rfl⟩
  onMessage user message c := by
    have held := commit_shown user c
    have waits := (commit_spec user c).2.1
    change statusesShown (onMessage user message c).1.emitted = _ ∧
      (onMessage user message c).1.backoff = c.backoff
    unfold onMessage
    generalize commit user c = committed at held waits
    obtain ⟨c', threw⟩ := committed
    cases threw with
    | true => exact ⟨held, waits⟩
    | false =>
        dsimp only
        split
        · exact ⟨held, waits⟩
        · refine ⟨?_, waits⟩
          rw [← held]
          simp [statusesShown]
  onStatus user random status c := by
    by_cases finishes : Finishes policy status c
    · obtain ⟨ledger, same⟩ := onStatus_finishes finishes user random
      have finished := finish_shown user status { c with ledger }
      rw [← same] at finished
      exact finished
    · obtain ⟨ledger, same⟩ := onStatus_backs finishes user random
      have silent : (onStatus policy user random status c).1.emitted = c.emitted := by rw [same]
      change ShowsOnly status _ (statusesShown (onStatus policy user random status c).1.emitted)
      rw [silent]
      exact .nothing status _
  backs user random status c other waits := by
    change (onStatus policy user random status c).1.backoff = some other at waits
    by_cases finishes : Finishes policy status c
    · obtain ⟨ledger, same⟩ := onStatus_finishes finishes user random
      rw [same, (finish_committed user status _).2] at waits
      cases waits
    · obtain ⟨ledger, same⟩ := onStatus_backs finishes user random
      rw [same] at waits
      cases waits
      rfl
  restart _ := ⟨rfl, rfl⟩
  giveUp user status c := ⟨finish_shown user status c, (finish_committed user status c).2⟩
  others _ _ := ⟨rfl, rfl⟩

end ServerCall

namespace ClientCall

/-- The errors the callback has been called with. -/
def refusals (c : ClientCall Msg) : List StatusResult :=
  c.answers.filterMap fun
    | .error status => some status
    | .ok _ => none

def reporting : Reporting (handlers : Handlers (ClientCall Msg) Msg) where
  shown := refusals
  onHeaders _ _ _ := ⟨rfl, rfl⟩
  onMessage user message c := by
    refine ⟨?_, rfl⟩
    change refusals (onMessage user message c).1 = refusals c
    unfold onMessage
    split <;> rfl
  onStatus user random status c := by
    change ShowsOnly status (refusals c) (refusals (onStatus user random status c).1)
    simp only [onStatus, refusals, List.filterMap_append]
    refine ⟨_, rfl, fun other found => ?_⟩
    split at found
    · cases found
    · exact List.mem_singleton.mp found
  backs _ _ _ _ _ waits := by cases waits
  restart _ := ⟨rfl, rfl⟩
  giveUp _ status _ := ⟨.nothing status _, rfl⟩
  others _ _ := ⟨rfl, rfl⟩

end ClientCall

namespace BidiCall

def reporting : Reporting (handlers : Handlers (List (Stream.Emission Msg)) Msg) where
  shown := statusesShown
  onHeaders _ metadata emitted := ⟨by simp [handlers, onHeaders, statusesShown], rfl⟩
  onMessage user message emitted := by
    refine ⟨?_, rfl⟩
    change statusesShown (onMessage user message emitted).1 = statusesShown emitted
    unfold onMessage
    split
    · rfl
    · simp [statusesShown]
  onStatus user _ status emitted := tellStatus_shows user status emitted
  backs _ _ _ _ _ waits := by cases waits
  restart _ := ⟨rfl, rfl⟩
  giveUp _ status _ := ⟨.nothing status _, rfl⟩
  others _ _ := ⟨rfl, rfl⟩

end BidiCall

end Kinds

namespace UnaryCall
open GrpcWebnext.NodeClient.Unary (State UnaryResponse)

inductive Carrier where
  | fetch
  | h2ts
  deriving DecidableEq

/-- What `unary` awaits: on h2ts its tunnel, then the response and its body; on Fetch the
response, then its body, or the text of a response that is not ok. -/
inductive Stage where
  | dialling
  | requested
  | failing (status : Nat)
  | reading

def Carrier.enter : Carrier → Stage
  | .fetch => .requested
  | .h2ts => .dialling

/-- What happens to a unary call. A rejection says whether the tunnel noted before it is
now known to be dead. -/
inductive Arrival where
  | dialled
  | rejected (reason : Str) (stale : Bool)
  | response (status : Nat)
  | text (content : Str)
  | body (res : UnaryResponse)
  | undecodable (reason : Str) (stale : Bool)
  | abort (reason : AbortReason)
  | elapsed
  | others (throttle : Throttle)

/-- The transport fails to carry the call. -/
def Arrival.fails : Arrival → Bool
  | .rejected _ _ | .text _ => true
  | _ => false

/-- The response to a status that is not ok. -/
def httpFailure (status : Nat) (content : Str) : UnaryResponse :=
  ⟨[], [], ⟨H2ts.Status.unavailable, "HTTP ".toList ++ (toString status).toList ++ ": ".toList ++
    content, []⟩⟩

/-- What is awaited next, or how the attempt has ended. -/
inductive Awaited where
  | stage (stage : Stage) (again : Bool)
  | ends (event : Unary.Event)

/-- The catch of the h2ts loop. -/
def caught (again aborted : Bool) (reason : Str) (stale : Bool) : Awaited :=
  if again || aborted || !stale then .ends (.reject reason) else .stage .dialling true

def await (carrier : Carrier) (stage : Stage) (again aborted : Bool) : Arrival → Option Awaited
  | .dialled => match carrier, stage with
    | .h2ts, .dialling => some (.stage .requested again)
    | _, _ => none
  | .rejected reason stale => match carrier, stage with
    | .h2ts, .failing _ => none
    | .h2ts, _ => some (caught again aborted reason stale)
    | .fetch, .dialling => none
    | .fetch, .failing status => some (.ends (.resolve (httpFailure status [])))
    | .fetch, _ => some (.ends (.reject reason))
  | .response status => match carrier, stage with
    | .h2ts, .requested => some (.stage .reading again)
    | .fetch, .requested =>
        some (.stage (if 200 ≤ status ∧ status < 300 then .reading else .failing status) again)
    | _, _ => none
  | .text content => match carrier, stage with
    | .fetch, .failing status => some (.ends (.resolve (httpFailure status content)))
    | _, _ => none
  | .body res => match stage with
    | .reading => some (.ends (.resolve res))
    | _ => none
  | .undecodable reason stale => match carrier, stage with
    | .h2ts, .reading => some (caught again aborted reason stale)
    | .fetch, .reading => some (.ends (.reject reason))
    | _, _ => none
  | _ => none

/-- A unary call, and where its attempt is; `again` is the second round on h2ts. -/
structure Exchange where
  stage : Stage
  again : Bool
  call : State

def Exchange.init (carrier : Carrier) (signal : Option AbortReason) (throttle : Option Throttle) : Exchange :=
  ⟨carrier.enter, false, Unary.init signal throttle⟩

def exchange (policy : Option ResolvedPolicy) (carrier : Carrier) (s : Exchange)
    (label : Arrival × Number × User) : Option Exchange :=
  let (arrival, random, user) := label
  match arrival with
  | .abort reason =>
      (step policy s.call ((.abort reason, random), user)).map fun call => { s with call }
  | .elapsed =>
      (step policy s.call ((.elapsed, random), user)).map fun call => ⟨carrier.enter, false, call⟩
  | .others throttle =>
      (step policy s.call ((.others throttle, random), user)).map fun call => { s with call }
  | arrival => match s.call.phase with
    | .attempting => (await carrier s.stage s.again s.call.signal.isSome arrival).bind fun
      | .stage stage again => some { s with stage, again }
      | .ends event => (step policy s.call ((event, random), user)).map fun call => { s with call }
    | _ => none

/-- The statuses the caller of a unary call is shown. -/
def statusesShown (emitted : List Unary.Emission) : List StatusResult :=
  emitted.filterMap fun
    | .status status => some status
    | .error status => some status
    | _ => none

variable {policy : Option ResolvedPolicy} {carrier : Carrier}

/-- An attempt's status is the one its response carries. -/
def Carries (status : StatusResult) (res : Option UnaryResponse) : Prop :=
  ∀ r, res = some r → r.status = status

theorem cut_sublist (user : User) (events : List Unary.Emission) : (cut user events).Sublist events := by
  induction events with
  | nil => exact .slnil
  | cons event rest ih =>
      cases event with
      | metadata _ | status _ =>
          unfold cut
          split
          · exact (List.nil_sublist rest).cons_cons _
          · exact ih.cons_cons _
      | value _ =>
          unfold cut
          split
          · exact List.nil_sublist _
          · exact ih.cons_cons _
      | error _ => exact ih.cons_cons _

/-- A report shows the caller one status, as far as its listeners let it. -/
theorem cut_shows (user : User) {status : StatusResult} {res : Option UnaryResponse}
    (carries : Carries status res)
    (before : List Unary.Emission) :
    ShowsOnly status (statusesShown before) (statusesShown (before ++ cut user (reported status res))) := by
  refine ⟨statusesShown (cut user (reported status res)), List.filterMap_append, fun other found => ?_⟩
  have shown := ((cut_sublist user (reported status res)).filterMap _).subset found
  obtain ⟨event, told, is_status⟩ := List.mem_filterMap.mp shown
  rcases List.mem_append.mp told with response | outcome
  · cases res with
    | none => cases response
    | some r =>
        rw [← carries r rfl]
        simp only [Option.map_some, Option.getD_some, List.mem_cons, List.not_mem_nil, or_false] at response
        rcases response with rfl | rfl
        · cases is_status
        · exact (Option.some.inj is_status).symm
  · rw [List.mem_singleton] at outcome
    split at outcome
    · subst outcome
      cases is_status
    · subst outcome
      exact (Option.some.inj is_status).symm

/-- What the caller has been shown, and what a call waits with, is a status an attempt has
ended with. -/
structure Sourced (s : State) : Prop where
  shown : ∀ status ∈ statusesShown s.emitted, status ∈ s.ended
  waits : ∀ delay status res, s.phase = .backingOff delay status res →
    s.ended.getLast? = some status ∧ Carries status res

/-- An attempt has ended with this status, and the caller is shown no other. -/
structure EndsWith (s t : State) (status : StatusResult) : Prop where
  ended : t.ended = s.ended ++ [status]
  shown : ShowsOnly status (statusesShown s.emitted) (statusesShown t.emitted)
  waits : ∀ delay other res, t.phase = .backingOff delay other res → other = status ∧ Carries status res

theorem conclude_ends {s : State} {status : StatusResult} {res : Option UnaryResponse}
    (carries : Carries status res)
    (random : Number) (user : User) {t : State}
    (h : t = { Unary.conclude policy s status res random with
      emitted := s.emitted ++ cut user
        ((Unary.conclude policy s status res random).emitted.drop s.emitted.length) }) :
    EndsWith s t status := by
  subst h
  refine ⟨(Unary.conclude_frame policy s status res random).2.2, ?_, ?_⟩
  · have told : (Unary.conclude policy s status res random).phase = .settled ∧ _ ∨ _ :=
      conclude_cases s status res random
    dsimp only
    rcases told with ⟨-, emitted⟩ | ⟨-, emitted⟩
    · rw [emitted, List.drop_left]
      exact cut_shows user carries s.emitted
    · rw [emitted, List.drop_length, cut, List.append_nil]
      exact .nothing status _
  · intro delay other held waiting
    change (Unary.conclude policy s status res random).phase = _ at waiting
    unfold Unary.conclude at waiting
    dsimp only at waiting
    split at waiting
    · cases waiting
    · split at waiting
      · cases waiting
      · cases waiting
        exact ⟨rfl, carries⟩

theorem resolve_ends {s t : State} {res : UnaryResponse} {random : Number} {user : User}
    (h : step policy s ((.resolve res, random), user) = some t) : EndsWith s t res.status := by
  obtain ⟨u, moved, rfl⟩ := Option.map_eq_some_iff.mp h
  cases phase : s.phase <;> simp only [Unary.step, phase, Option.some.injEq, reduceCtorEq] at moved
  subst moved
  have carries : Carries res.status (some res) := by
    rintro r ⟨⟩
    rfl
  exact conclude_ends carries random user rfl

theorem reject_ends {s t : State} {reason : Str} {random : Number} {user : User}
    (h : step policy s ((.reject reason, random), user) = some t) :
    EndsWith s t (Unary.errorForFailure s.signal reason) := by
  obtain ⟨u, moved, rfl⟩ := Option.map_eq_some_iff.mp h
  cases phase : s.phase <;> simp only [Unary.step, phase, Option.some.injEq, reduceCtorEq] at moved
  subst moved
  exact conclude_ends (fun _ none_ => by cases none_) random user rfl

theorem Sourced.ended {s t : State} {status : StatusResult} (sourced : Sourced s)
    (ends : EndsWith s t status) :
    Sourced t where
  shown other found := by
    rw [ends.ended]
    rcases ends.shown.mem found with old | rfl
    · exact List.mem_append_left _ (sourced.shown other old)
    · exact List.mem_append_right _ (List.mem_singleton_self other)
  waits delay other res waiting := by
    obtain ⟨rfl, carries⟩ := ends.waits delay other res waiting
    rw [ends.ended]
    exact ⟨List.getLast?_concat, carries⟩

/-- A step that tells the caller nothing. -/
theorem Sourced.quiet {s u : State} (sourced : Sourced s) (user : User) (emitted : u.emitted = s.emitted)
    (ended : u.ended = s.ended)
    (waits : ∀ delay status res, u.phase = .backingOff delay status res →
      s.phase = .backingOff delay status res) :
    Sourced { u with emitted := s.emitted ++ cut user (u.emitted.drop s.emitted.length) } where
  shown status found := by
    rw [emitted, List.drop_length, cut, List.append_nil] at found
    exact ended ▸ sourced.shown status found
  waits delay status res waiting := ended ▸ sourced.waits delay status res (waits delay status res waiting)

theorem Sourced.step {s t : State} {label : (Unary.Event × Number) × User} (sourced : Sourced s)
    (h : step policy s label = some t) : Sourced t := by
  obtain ⟨⟨event, random⟩, user⟩ := label
  cases event with
  | resolve res => exact sourced.ended (resolve_ends h)
  | reject reason => exact sourced.ended (reject_ends h)
  | abort reason =>
      obtain ⟨u, moved, rfl⟩ := Option.map_eq_some_iff.mp h
      cases phase : s.phase with
      | attempting =>
          cases signal : s.signal <;>
            simp only [Unary.step, phase, signal, Option.some.injEq] at moved <;> subst moved
          · exact sourced.quiet user rfl rfl fun _ _ _ waiting => by cases waiting
          · exact sourced.quiet user rfl rfl fun _ _ _ waiting => waiting
      | backingOff delay status res =>
          obtain ⟨last, carries⟩ := sourced.waits delay status res phase
          cases signal : s.signal <;>
            simp only [Unary.step, phase, signal, Option.some.injEq] at moved <;> subst moved
          · refine ⟨fun other found => ?_, fun _ _ _ waiting => by cases waiting⟩
            simp only [report_emitted, List.drop_left] at found
            rcases (cut_shows user carries s.emitted).mem found with old | rfl
            · exact sourced.shown other old
            · exact List.mem_of_getLast? last
          · exact sourced.quiet user rfl rfl fun _ _ _ waiting => waiting
      | settled =>
          cases signal : s.signal <;>
            simp only [Unary.step, phase, signal, Option.some.injEq] at moved <;> subst moved
          · exact sourced.quiet user rfl rfl fun _ _ _ waiting => waiting
          · exact sourced.quiet user rfl rfl fun _ _ _ waiting => waiting
  | elapsed =>
      obtain ⟨u, moved, rfl⟩ := Option.map_eq_some_iff.mp h
      cases phase : s.phase <;> simp only [Unary.step, phase, Option.some.injEq, reduceCtorEq] at moved
      subst moved
      exact sourced.quiet user rfl rfl fun _ _ _ waiting => by cases waiting
  | others throttle =>
      obtain ⟨u, moved, rfl⟩ := Option.map_eq_some_iff.mp h
      cases moved
      exact sourced.quiet user rfl rfl fun _ _ _ waiting => waiting

/-- An occurrence moves the stage, or is an event of the call. -/
theorem exchange_cases {s t : Exchange} {arrival : Arrival} {random : Number} {user : User}
    (h : exchange policy carrier s (arrival, random, user) = some t) :
    (t.call = s.call ∧ ∃ again, await carrier s.stage s.again s.call.signal.isSome arrival =
      some (.stage t.stage again)) ∨
      ∃ event, step policy s.call ((event, random), user) = some t.call ∧
        (arrival.fails = true → await carrier s.stage s.again s.call.signal.isSome arrival =
          some (.ends event)) := by
  unfold exchange at h
  dsimp only at h
  split at h
  · obtain ⟨call, moved, rfl⟩ := Option.map_eq_some_iff.mp h
    exact .inr ⟨_, moved, fun fails => by cases fails⟩
  · obtain ⟨call, moved, rfl⟩ := Option.map_eq_some_iff.mp h
    exact .inr ⟨_, moved, fun fails => by cases fails⟩
  · obtain ⟨call, moved, rfl⟩ := Option.map_eq_some_iff.mp h
    exact .inr ⟨_, moved, fun fails => by cases fails⟩
  · split at h
    · obtain ⟨awaited, found, moved⟩ := Option.bind_eq_some_iff.mp h
      cases awaited with
      | stage stage again =>
          cases moved
          exact .inl ⟨rfl, again, found⟩
      | ends event =>
          obtain ⟨call, stepped, rfl⟩ := Option.map_eq_some_iff.mp moved
          exact .inr ⟨event, stepped, fun _ => found⟩
    · cases h

theorem exchange_sourced {s t : Exchange} {label : Arrival × Number × User} (sourced : Sourced s.call)
    (h : exchange policy carrier s label = some t) : Sourced t.call := by
  rcases exchange_cases h with ⟨same, -⟩ | ⟨event, moved, -⟩
  · exact same ▸ sourced
  · exact sourced.step moved

theorem run_sourced {signal : Option AbortReason} {throttle : Option Throttle}
    {labels : List (Arrival × Number × User)} {s : Exchange}
    (h : Machine.run (exchange policy carrier) (.init carrier signal throttle) labels = some s) :
    Sourced s.call := by
  refine Machine.run_invariant (I := fun s : Exchange => Sourced s.call)
    (fun _ _ _ sourced moved => exchange_sourced sourced moved) ?_ h
  exact ⟨fun status found => absurd found List.not_mem_nil, fun _ _ _ waiting => by cases waiting⟩

/-- The first round over h2ts met a tunnel that was dead: the request goes out again, and
no attempt has ended. -/
def Replayed (carrier : Carrier) (s : Exchange) (arrival : Arrival) : Prop :=
  carrier = .h2ts ∧ s.again = false ∧ ∃ reason, arrival = .rejected reason true

theorem caught_stage {again again' : Bool} {reason : Str} {stale : Bool} {stage : Stage}
    (h : caught again false reason stale = .stage stage again') : again = false ∧ stale = true := by
  cases again <;> cases stale <;> first | exact ⟨rfl, rfl⟩ | cases h

theorem caught_ends {again : Bool} {reason : Str} {stale : Bool} {event : Unary.Event}
    (h : caught again false reason stale = .ends event) : event = .reject reason := by
  cases again <;> cases stale <;> cases h <;> rfl

/-- Only a replay lets an attempt go on whose transport has failed. -/
theorem await_replays {stage stage' : Stage} {again again' : Bool} {arrival : Arrival}
    (fails : arrival.fails = true)
    (h : await carrier stage again false arrival = some (.stage stage' again')) :
    carrier = .h2ts ∧ again = false ∧ ∃ reason, arrival = .rejected reason true := by
  cases arrival with
  | rejected reason stale =>
      cases carrier <;> cases stage <;> simp only [await, Option.some.injEq, reduceCtorEq] at h
      all_goals
        obtain ⟨first, rfl⟩ := caught_stage h
        exact ⟨rfl, first, reason, rfl⟩
  | text content => cases carrier <;> cases stage <;> simp only [await, Option.some.injEq, reduceCtorEq] at h
  | _ => cases fails

/-- An attempt whose transport has failed rejects, or has the response to a status that is
not ok. -/
theorem await_ends {stage : Stage} {again : Bool} {arrival : Arrival} {event : Unary.Event}
    (fails : arrival.fails = true) (h : await carrier stage again false arrival = some (.ends event)) :
    (∃ reason, event = .reject reason) ∨ ∃ status content, event = .resolve (httpFailure status content) := by
  cases arrival with
  | rejected reason stale =>
      cases carrier <;> cases stage <;>
        simp only [await, Option.some.injEq, Awaited.ends.injEq, reduceCtorEq] at h
      · exact .inl ⟨reason, h.symm⟩
      · exact .inr ⟨_, [], h.symm⟩
      · exact .inl ⟨reason, h.symm⟩
      · exact .inl ⟨reason, caught_ends h⟩
      · exact .inl ⟨reason, caught_ends h⟩
      · exact .inl ⟨reason, caught_ends h⟩
  | text content =>
      cases carrier <;> cases stage <;>
        simp only [await, Option.some.injEq, Awaited.ends.injEq, reduceCtorEq] at h
      exact .inr ⟨_, content, h.symm⟩
  | _ => cases fails

/-- What a failing transport makes of an attempt: its end with UNAVAILABLE, or a replay. -/
theorem failure_ends {s t : Exchange} {arrival : Arrival} {random : Number} {user : User}
    (calm : s.call.signal = none)
    (fails : arrival.fails = true) (h : exchange policy carrier s (arrival, random, user) = some t) :
    (∃ status, EndsWith s.call t.call status ∧ status.code = H2ts.Status.unavailable) ∨
      Replayed carrier s arrival ∧ t.call = s.call := by
  rcases exchange_cases h with ⟨same, again, goesOn⟩ | ⟨event, moved, ended⟩
  · rw [calm] at goesOn
    exact .inr ⟨await_replays fails goesOn, same⟩
  · have ended := ended fails
    rw [calm] at ended
    obtain ⟨reason, rfl⟩ | ⟨status, content, rfl⟩ := await_ends fails ended
    · have ends := reject_ends moved
      rw [calm] at ends
      exact .inl ⟨_, ends, rfl⟩
    · exact .inl ⟨_, resolve_ends moved, rfl⟩

end UnaryCall

/-- A transport that fails is UNAVAILABLE to the retry layer and to the caller, on every
path but that of a stream over h2ts. -/
theorem transport_failure_unavailable_iff (policy : Option RetryPolicy) (signal : Option AbortReason)
    (throttle : Option Throttle) (Msg : Type) (transport : Transport) (carrier : UnaryCall.Carrier) :
    (∀ labels s, Machine.run (UnaryCall.exchange (policy.map resolvePolicy) carrier)
      (.init carrier signal throttle)
        labels = some s →
      UnaryCall.Sourced s.call ∧
        ∀ arrival random user t, UnaryCall.exchange (policy.map resolvePolicy) carrier s
          (arrival, random, user) = some t →
          s.call.signal = none → arrival.fails = true →
          (∃ status, UnaryCall.EndsWith s.call t.call status ∧ status.code = H2ts.Status.unavailable) ∨
            UnaryCall.Replayed carrier s arrival ∧ t.call = s.call) ∧
    FailureReports (ServerCall.reporting (policy.map resolvePolicy)) transport
      (ServerCall.init throttle : ServerCall Msg) signal
        (fun code => code = H2ts.Status.unavailable ↔ transport ≠ .h2ts) ∧
    FailureReports ClientCall.reporting transport (⟨none, []⟩ : ClientCall Msg) signal
      (fun code => code = H2ts.Status.unavailable ↔ transport ≠ .h2ts) ∧
    FailureReports BidiCall.reporting transport ([] : List (Stream.Emission Msg)) signal
      fun code => code = H2ts.Status.unavailable ↔ transport ≠ .h2ts := by
  refine ⟨?_, ?_, ?_, ?_⟩
  · intro labels s h
    exact ⟨UnaryCall.run_sourced h, fun _ _ _ _ moved calm fails => UnaryCall.failure_ends calm fails moved⟩
  · exact failureReports (ServerCall.reporting _) transport rfl rfl signal
  · exact failureReports ClientCall.reporting transport rfl rfl signal
  · exact failureReports BidiCall.reporting transport rfl rfl signal

/-- A dial that is refused. -/
def refusedDial : Occurrence Unit := ⟨.refused "refused".toList, .ofNat 0, .calm, .calm, []⟩

/-- A socket that closes with 1006. -/
def lostSocket : Occurrence Unit := ⟨.closed ⟨1006, []⟩, .ofNat 0, .calm, .calm, []⟩

/-- The caller of a bidi stream whose socket is lost before it opens sees UNAVAILABLE. -/
theorem lost_socket_unavailable :
    ∃ t status, carry (BidiCall.handlers : Handlers _ Unit) .ws (.init [] none) lostSocket = some t ∧
      EndsWith BidiCall.reporting (Wired.init ([] : List (Stream.Emission Unit)) none).conn t.conn status ∧
      status.code = H2ts.Status.unavailable := by
  obtain ⟨status, ends, code⟩ :=
    ((transport_failure_unavailable_iff none none none Unit .ws .fetch).2.2.2 [] _ rfl).2
    lostSocket _ rfl rfl rfl rfl
  exact ⟨_, status, rfl, ends, code.mpr (by simp)⟩

/-- A server stream over h2ts whose dial is refused ends with UNKNOWN. -/
theorem refused_dial_unknown :
    ∃ t, carry (ServerCall.handlers none : Handlers (ServerCall Unit) Unit) .h2ts
        (.init (ServerCall.init none) none) refusedDial = some t ∧
      t.conn.call.told.map StatusResult.code = [H2ts.Status.unknown] ∧
      (statusesShown t.conn.call.call.emitted).map StatusResult.code =
        [H2ts.Status.unknown, H2ts.Status.unknown] :=
  ⟨_, rfl, by decide, by decide⟩

end Throwing
end GrpcWebnext.NodeClient
