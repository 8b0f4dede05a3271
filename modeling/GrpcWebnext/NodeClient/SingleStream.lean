import GrpcWebnext.FrameCodec
import GrpcWebnext.NodeClient.Failures
import GrpcWebnext.NodeClient.MetadataHeaders

/-! `SingleStreamConn` of `ws-transport.ts`: one WebSocket that carries one stream, from its
construction to the end of both. -/
namespace GrpcWebnext.NodeClient.SingleStream
open Framing (Bytes)
open Throwing (CloseEvent statusForClose)

universe u v

/-- What the handlers of a stream are told. -/
inductive Told where
  | headers (metadata : Metadata)
  | message (payload : Bytes)
  | status (status : StatusResult)
  deriving DecidableEq

def Told.isStatus : Told → Bool
  | .status _ => true
  | _ => false

/-- The frames of a connection's codec, and what `onMessage` makes of one that arrives. -/
structure Codec (F : Type u) (D : Type v) where
  opening : F
  message : Bytes → F
  halfClose : F
  reset : StatusResult → F
  hear : D → Option Told

/-- `readyState` of a WebSocket. -/
inductive Ready where
  | connecting
  | opened
  | closing
  | closed
  deriving DecidableEq

/-- A connection with its socket: the frames that took, and whether it threw. -/
structure Conn (F : Type u) where
  ready : Ready
  wire : List F
  threw : Bool
  open_ : Bool
  finished : Bool
  pending : List F
  /-- It is one of the transport's `conns`. -/
  registered : Bool
  told : List Told

section Methods
variable {F : Type u} {D : Type v} (codec : Codec F D)

/-- `ws.send`: it throws before the socket is open, and drops the frame once it closes. -/
def Conn.wsSend (s : Conn F) (frame : F) : Conn F :=
  match s.ready with
  | .connecting => { s with threw := true }
  | .opened => { s with wire := s.wire ++ [frame] }
  | .closing | .closed => s

/-- `ws.close`. -/
def Conn.wsClose (s : Conn F) : Conn F :=
  match s.ready with
  | .connecting | .opened => { s with ready := .closing }
  | .closing | .closed => s

def Conn.sendRaw (s : Conn F) (frame : F) : Conn F :=
  if s.finished then s else if s.open_ then s.wsSend frame else { s with pending := s.pending ++ [frame] }

/-- `finish`, with `onDone`. -/
def Conn.finish (s : Conn F) (status : StatusResult) : Conn F :=
  if s.finished then s
  else { s with finished := true, registered := false, told := s.told ++ [.status status] }

def Conn.terminate (s : Conn F) (status : StatusResult) : Conn F :=
  if s.finished then s else ((s.sendRaw (codec.reset status)).finish status).wsClose

/-- The `open` listener. -/
def Conn.onOpen (s : Conn F) : Conn F :=
  { s.pending.foldl Conn.wsSend { s with open_ := true } with pending := [] }

def Conn.onMessage (s : Conn F) (data : D) : Conn F :=
  if s.finished then s
  else match codec.hear data with
    | none => s
    | some (.status status) => s.finish status
    | some told => { s with told := s.told ++ [told] }

def Conn.onClose (s : Conn F) (event : Option CloseEvent) : Conn F :=
  { s with open_ := false }.finish (statusForClose event)

/-- The constructor, and the transport's `conns.add`. -/
def Conn.init : Conn F :=
  { Conn.sendRaw ⟨.connecting, [], false, false, false, [], false, []⟩ codec.opening with registered := true }

/-- What happens to a connection: at its socket, or by its caller. -/
inductive Event (D : Type v) where
  | opened
  | message (data : D)
  | closing
  | errored
  | closed (event : CloseEvent)
  | send (payload : Bytes)
  | halfClose
  | cancel
  | abort (reason : AbortReason)
  | closeTransport

def step (s : Conn F) : Event D → Option (Conn F)
  | .opened => if s.ready = .connecting then some (Conn.onOpen { s with ready := .opened }) else none
  -- no message event fires once the socket is closing
  | .message data => if s.ready = .opened then some (s.onMessage codec data) else none
  | .closing => if s.ready = .opened then some { s with ready := .closing } else none
  | .errored => if s.ready ≠ .closed then some (Conn.onClose { s with ready := .closing } none) else none
  | .closed event =>
      if s.ready ≠ .closed then some (Conn.onClose { s with ready := .closed } (some event)) else none
  | .send payload => some (s.sendRaw (codec.message payload))
  | .halfClose => some (s.sendRaw codec.halfClose)
  | .cancel => some (s.terminate codec cancelled)
  | .abort reason => some (s.terminate codec (statusForAbort reason))
  | .closeTransport => some (if s.registered then { s.wsClose with registered := false } else s)

/-- The frame an event has the connection send. -/
def Event.frame : Event D → Option F
  | .send payload => some (codec.message payload)
  | .halfClose => some codec.halfClose
  | .cancel => some (codec.reset cancelled)
  | .abort reason => some (codec.reset (statusForAbort reason))
  | _ => none

/-- What it has to tell the handlers. -/
def Event.tells : Event D → Option Told
  | .message data => codec.hear data
  | .errored => some (.status (statusForClose none))
  | .closed event => some (.status (statusForClose (some event)))
  | .cancel => some (.status cancelled)
  | .abort reason => some (.status (statusForAbort reason))
  | _ => none

/-- It ends the stream. -/
def Event.ends (e : Event D) : Bool := (e.tells codec).any Told.isStatus

/-- The client itself ends the stream, and says so. -/
def Event.terminates : Event D → Bool
  | .cancel | .abort _ => true
  | _ => false

/-- The events up to the first that ends the stream, and with it. -/
def life : List (Event D) → List (Event D)
  | [] => []
  | e :: rest => e :: if e.ends codec then [] else life rest

/-- The frames of a stream, behind its open frame. -/
def issued (es : List (Event D)) : List F := (life codec es).filterMap (Event.frame codec)

/-- What the handlers are to hear of it. -/
def heard (es : List (Event D)) : List Told := (life codec es).filterMap (Event.tells codec)

end Methods

section Life
variable {F : Type u} {D : Type v} {codec : Codec F D} {es : List (Event D)} {e : Event D}

theorem life_concat : life codec (es ++ [e]) = if es.any (Event.ends codec) then life codec es
    else life codec es ++ [e] := by
  induction es with
  | nil =>
      simp only [List.nil_append, life, List.any_nil, Bool.false_eq_true, if_false]
      split <;> rfl
  | cons f es ih =>
      rw [List.cons_append, life, life, List.any_cons]
      cases ends : f.ends codec with
      | true => rfl
      | false =>
          simp only [Bool.false_eq_true, if_false, Bool.false_or, ih]
          split <;> rfl

theorem issued_ended (ended : es.any (Event.ends codec) = true) :
    issued codec (es ++ [e]) = issued codec es := by
  rw [issued, life_concat, if_pos ended, issued]

theorem heard_ended (ended : es.any (Event.ends codec) = true) :
    heard codec (es ++ [e]) = heard codec es := by
  rw [heard, life_concat, if_pos ended, heard]

theorem issued_live (live : es.any (Event.ends codec) = false) :
    issued codec (es ++ [e]) = issued codec es ++ (e.frame codec).toList := by
  rw [issued, life_concat, if_neg (by rw [live]; exact Bool.false_ne_true), List.filterMap_append, issued]
  cases found : e.frame codec <;> simp [found]

theorem heard_live (live : es.any (Event.ends codec) = false) :
    heard codec (es ++ [e]) = heard codec es ++ (e.tells codec).toList := by
  rw [heard, life_concat, if_neg (by rw [live]; exact Bool.false_ne_true), List.filterMap_append, heard]
  cases found : e.tells codec <;> simp [found]

theorem heard_cons : heard codec (e :: es) = (e.tells codec).toList ++ if e.ends codec then []
    else heard codec es := by
  rw [heard, life]
  cases tells : e.tells codec <;> cases e.ends codec <;> simp [tells, heard]

/-- A status is the last thing that is heard, and there is one exactly where the stream ends. -/
theorem heard_shape (es : List (Event D)) : ∃ front last, heard codec es = front ++ last ∧
    (∀ told ∈ front, told.isStatus = false) ∧ (es.any (Event.ends codec) = false → last = []) ∧
    (es.any (Event.ends codec) = true → ∃ status, last = [.status status]) := by
  induction es with
  | nil => exact ⟨[], [], rfl, List.forall_mem_nil _, fun _ => rfl, fun impossible => by cases impossible⟩
  | cons e es ih =>
      obtain ⟨front, last, shape, plain, live, over_⟩ := ih
      rw [heard_cons, List.any_cons]
      cases ends : e.ends codec with
      | true =>
          obtain ⟨told, tells, isStatus⟩ := (Option.any_eq_true ..).mp ends
          cases told with
          | status status =>
              refine ⟨[], [.status status], ?_, List.forall_mem_nil _, fun impossible =>
                ?_, fun _ => ⟨status, rfl⟩⟩
              · rw [tells]
                rfl
              · cases impossible
          | headers metadata => cases isStatus
          | message payload => cases isStatus
      | false =>
          refine ⟨(e.tells codec).toList ++ front, last, ?_, ?_, live, over_⟩
          · rw [if_neg Bool.false_ne_true, shape, List.append_assoc]
          · intro told inside
            rcases List.mem_append.mp inside with here | later
            · have tells := Option.mem_toList.mp here
              simpa [Event.ends, Option.mem_def.mp tells] using ends
            · exact plain told later

end Life

section Runs
variable {F : Type u} {D : Type v} {codec : Codec F D} {frames : List F} {told : List Told} {s s' : Conn F}

/-- A connection that has been given `frames` to send and has told its handlers `told`. -/
structure Held (frames : List F) (told : List Told) (s : Conn F) : Prop where
  calm : s.threw = false
  connecting : s.ready = .connecting → s.open_ = false ∧ s.wire = [] ∧ s.pending = frames
  opened : s.ready = .opened → s.open_ = true ∧ s.pending = [] ∧ s.wire = frames
  part : s.wire <+: frames
  gone : s.registered = true → s.finished = false
  told : s.told = told

theorem sendRaw_unopened (shut : s.open_ = false) (live : s.finished = false) (frame : F) :
    s.sendRaw frame = { s with pending := s.pending ++ [frame] } := by
  simp only [Conn.sendRaw, live, shut, Bool.false_eq_true, if_false]

theorem sendRaw_opened (ready : s.ready = .opened) (open_ : s.open_ = true)
    (live : s.finished = false) (frame : F) :
    s.sendRaw frame = { s with wire := s.wire ++ [frame] } := by
  simp only [Conn.sendRaw, Conn.wsSend, live, open_, ready, Bool.false_eq_true, if_false, if_true]

/-- A frame that comes too late for the socket is dropped or waits for good. -/
theorem sendRaw_late (late : s.ready = .closing ∨ s.ready = .closed) (live : s.finished = false) (frame : F) :
    ∃ pending, s.sendRaw frame = { s with pending } := by
  unfold Conn.sendRaw
  rw [if_neg (by rw [live]; exact Bool.false_ne_true)]
  split
  · have dropped : s.wsSend frame = s := by
      unfold Conn.wsSend
      rcases late with ready | ready <;> simp only [ready]
    exact ⟨s.pending, dropped⟩
  · exact ⟨s.pending ++ [frame], rfl⟩

theorem Held.sendRaw (held : Held frames told s) (live : s.finished = false) (frame : F) :
    Held (frames ++ [frame]) told (s.sendRaw frame) := by
  have longer := held.part.trans (List.prefix_append frames [frame])
  have late : s.ready = .closing ∨ s.ready = .closed → Held (frames ++ [frame]) told (s.sendRaw frame) := by
    intro late
    obtain ⟨pending, sent⟩ := sendRaw_late late live frame
    rw [sent]
    refine ⟨held.calm, fun other => ?_, fun other => ?_, longer, held.gone, held.told⟩
    · rcases late with ready | ready <;> cases ready.symm.trans other
    · rcases late with ready | ready <;> cases ready.symm.trans other
  cases ready : s.ready with
  | connecting =>
      obtain ⟨shut, none_, waiting⟩ := held.connecting ready
      rw [sendRaw_unopened shut live]
      refine ⟨held.calm, fun _ => ⟨shut, none_, ?_⟩, fun other => ?_, longer, held.gone, held.told⟩
      · rw [← waiting]
      · cases ready.symm.trans other
  | opened =>
      obtain ⟨open_, none_, sent⟩ := held.opened ready
      rw [sendRaw_opened ready open_ live, sent]
      refine ⟨held.calm, fun other => ?_, fun _ => ⟨open_, none_, rfl⟩, List.prefix_rfl, held.gone, held.told⟩
      cases ready.symm.trans other
  | closing => exact late (.inl ready)
  | closed => exact late (.inr ready)

theorem Held.finish (held : Held frames told s) (live : s.finished = false) (status : StatusResult) :
    Held frames (told ++ [.status status]) (s.finish status) := by
  rw [Conn.finish, if_neg (by rw [live]; exact Bool.false_ne_true)]
  refine ⟨held.calm, held.connecting, held.opened, held.part, fun impossible => ?_, ?_⟩
  · cases impossible
  · rw [← held.told]

/-- Once the socket closes nothing more is asked of it. -/
theorem Held.shut (held : Held frames told s) {ready : Ready}
    (going : ready = .closing ∨ ready = .closed) (open_ : Bool) :
    Held frames told { s with ready, open_ } := by
  refine ⟨held.calm, fun other => ?_, fun other => ?_, held.part, held.gone, held.told⟩
  · rcases going with rfl | rfl <;> cases other
  · rcases going with rfl | rfl <;> cases other

theorem Held.wsClose (held : Held frames told s) : Held frames told s.wsClose := by
  unfold Conn.wsClose
  split
  · exact held.shut (.inl rfl) s.open_
  · exact held.shut (.inl rfl) s.open_
  · exact held
  · exact held

theorem foldl_wsSend (pending : List F) :
    ∀ {s : Conn F}, s.ready = .opened → pending.foldl Conn.wsSend s =
      { s with wire := s.wire ++ pending } := by
  induction pending with
  | nil =>
      intro s _
      rw [List.append_nil]
      rfl
  | cons frame pending ih =>
      intro s ready
      have sent : s.wsSend frame = { s with wire := s.wire ++ [frame] } := by rw [Conn.wsSend, ready]
      rw [List.foldl_cons, sent, ih (by exact ready)]
      simp only [List.append_assoc, List.singleton_append]

theorem Held.onOpen (held : Held frames told s) (ready : s.ready = .connecting) :
    Held frames told (Conn.onOpen { s with ready := .opened }) := by
  obtain ⟨_, none_, waiting⟩ := held.connecting ready
  unfold Conn.onOpen
  rw [foldl_wsSend _ rfl]
  have sent : s.wire ++ s.pending = frames := by rw [none_, waiting, List.nil_append]
  refine ⟨held.calm, fun other => ?_, fun _ => ⟨rfl, rfl, sent⟩, ?_, held.gone, held.told⟩
  · cases other
  · rw [← sent]

theorem sendRaw_finished (s : Conn F) (frame : F) : (s.sendRaw frame).finished = s.finished := by
  unfold Conn.sendRaw Conn.wsSend
  repeat' split
  all_goals rfl

/-- The stream ends with a status of the client's own. -/
theorem Held.terminate (held : Held frames told s) (live : s.finished = false) (status : StatusResult) :
    Held (frames ++ [codec.reset status]) (told ++ [.status status]) (s.terminate codec status) := by
  rw [Conn.terminate, if_neg (by rw [live]; exact Bool.false_ne_true)]
  exact ((held.sendRaw live (codec.reset status)).finish (by rw [sendRaw_finished, live]) status).wsClose

theorem Held.hears (held : Held frames told s) (live : s.finished = false) (data : D) :
    Held frames (told ++ (codec.hear data).toList) (s.onMessage codec data) := by
  rw [Conn.onMessage, if_neg (by rw [live]; exact Bool.false_ne_true)]
  cases codec.hear data with
  | none => rwa [Option.toList_none, List.append_nil]
  | some next =>
      have more : Held frames (told ++ [next]) { s with told := s.told ++ [next] } :=
        ⟨held.calm, held.connecting, held.opened, held.part, held.gone, by rw [← held.told]⟩
      cases next with
      | status status => exact held.finish live status
      | headers metadata => exact more
      | message payload => exact more

/-- One step of a stream that is not over adds what its event has to say. -/
theorem held_step {e : Event D} (held : Held frames told s) (live : s.finished = false)
    (h : step codec s e = some s') :
    Held (frames ++ (e.frame codec).toList) (told ++ (e.tells codec).toList) s' := by
  have same : ∀ {t : Conn F}, Held frames told t → Held (frames ++ []) (told ++ []) t := by
    intro t same
    rwa [List.append_nil, List.append_nil]
  have told_ : ∀ {told : List Told} {t : Conn F}, Held frames told t → Held (frames ++ []) told t := by
    intro told t same
    rwa [List.append_nil]
  cases e with
  | opened =>
      obtain ⟨ready, ⟨⟩⟩ := Option.ite_none_right_eq_some.mp h
      exact same (held.onOpen ready)
  | message data =>
      obtain ⟨_, ⟨⟩⟩ := Option.ite_none_right_eq_some.mp h
      exact told_ (held.hears live data)
  | closing =>
      obtain ⟨_, ⟨⟩⟩ := Option.ite_none_right_eq_some.mp h
      exact same (held.shut (.inl rfl) s.open_)
  | errored =>
      obtain ⟨_, ⟨⟩⟩ := Option.ite_none_right_eq_some.mp h
      exact told_ ((held.shut (.inl rfl) false).finish live _)
  | closed event =>
      obtain ⟨_, ⟨⟩⟩ := Option.ite_none_right_eq_some.mp h
      exact told_ ((held.shut (.inr rfl) false).finish live _)
  | send payload =>
      cases h
      rw [show Event.tells codec (.send payload) = none from rfl, Option.toList_none, List.append_nil]
      exact held.sendRaw live _
  | halfClose =>
      cases h
      rw [show Event.tells codec .halfClose = none from rfl, Option.toList_none, List.append_nil]
      exact held.sendRaw live _
  | cancel =>
      cases h
      exact held.terminate live cancelled
  | abort reason =>
      cases h
      exact held.terminate live (statusForAbort reason)
  | closeTransport =>
      cases h
      refine same ?_
      split
      · have closed := held.wsClose
        exact ⟨closed.calm, closed.connecting, closed.opened, closed.part, fun impossible =>
          (nomatch impossible), closed.told⟩
      · exact held

/-- A stream that is over sends and hears nothing. -/
theorem held_quiet {e : Event D} (held : Held frames told s) (ended : s.finished = true)
    (h : step codec s e = some s') :
    Held frames told s' ∧ s'.finished = true := by
  have unsent : ∀ frame, s.sendRaw frame = s := fun frame => if_pos ended
  cases e with
  | opened =>
      obtain ⟨ready, ⟨⟩⟩ := Option.ite_none_right_eq_some.mp h
      refine ⟨held.onOpen ready, ?_⟩
      rw [Conn.onOpen, foldl_wsSend _ rfl]
      exact ended
  | message data =>
      obtain ⟨_, ⟨⟩⟩ := Option.ite_none_right_eq_some.mp h
      rw [Conn.onMessage, if_pos ended]
      exact ⟨held, ended⟩
  | closing =>
      obtain ⟨_, ⟨⟩⟩ := Option.ite_none_right_eq_some.mp h
      exact ⟨held.shut (.inl rfl) s.open_, ended⟩
  | errored =>
      obtain ⟨_, ⟨⟩⟩ := Option.ite_none_right_eq_some.mp h
      rw [Conn.onClose, Conn.finish, if_pos (by exact ended)]
      exact ⟨held.shut (.inl rfl) false, ended⟩
  | closed event =>
      obtain ⟨_, ⟨⟩⟩ := Option.ite_none_right_eq_some.mp h
      rw [Conn.onClose, Conn.finish, if_pos (by exact ended)]
      exact ⟨held.shut (.inr rfl) false, ended⟩
  | send payload =>
      cases h
      rw [unsent]
      exact ⟨held, ended⟩
  | halfClose =>
      cases h
      rw [unsent]
      exact ⟨held, ended⟩
  | cancel | abort reason =>
      cases h
      rw [Conn.terminate, if_pos ended]
      exact ⟨held, ended⟩
  | closeTransport =>
      cases h
      rw [if_neg fun listed => Bool.false_ne_true ((held.gone listed).symm.trans ended)]
      exact ⟨held, ended⟩

theorem sendRaw_told (s : Conn F) (frame : F) : (s.sendRaw frame).told = s.told := by
  unfold Conn.sendRaw Conn.wsSend
  repeat' split
  all_goals rfl

theorem wsClose_finished (s : Conn F) : s.wsClose.finished = s.finished := by
  unfold Conn.wsClose
  split <;> rfl

theorem wsClose_told (s : Conn F) : s.wsClose.told = s.told := by
  unfold Conn.wsClose
  split <;> rfl

/-- A stream is over once a status has been told, and only then. -/
def Settled (s : Conn F) : Prop := s.finished = s.told.any Told.isStatus

theorem Settled.same {t : Conn F} (settled : Settled s) (finished : t.finished = s.finished)
    (told : t.told = s.told) :
    Settled t := by
  rw [Settled, finished, told]
  exact settled

theorem Settled.finish (settled : Settled s) (status : StatusResult) : Settled (s.finish status) := by
  unfold Conn.finish
  split
  · exact settled
  · simp [Settled, Told.isStatus]

theorem Settled.terminate (settled : Settled s) (status : StatusResult) :
    Settled (s.terminate codec status) := by
  unfold Conn.terminate
  split
  · exact settled
  · have sent : Settled (s.sendRaw (codec.reset status)) :=
      settled.same (sendRaw_finished s _) (sendRaw_told s _)
    exact (sent.finish status).same (wsClose_finished _) (wsClose_told _)

theorem Settled.onMessage (settled : Settled s) (data : D) : Settled (s.onMessage codec data) := by
  unfold Conn.onMessage
  split
  · exact settled
  · split
    · exact settled
    · exact settled.finish _
    · rename_i told other found
      have plain : told.isStatus = false := by
        cases told with
        | status status => exact absurd rfl (other status)
        | headers metadata => rfl
        | message payload => rfl
      rw [Settled, List.any_append, List.any_cons, plain, List.any_nil, Bool.or_false, Bool.or_false]
      exact settled

theorem Settled.onClose (settled : Settled s) (ready : Ready) (event : Option CloseEvent) :
    Settled (Conn.onClose { s with ready } event) := by
  have same : Settled { s with ready, open_ := false } := settled.same rfl rfl
  exact same.finish _

theorem settled_step {e : Event D} (settled : Settled s) (h : step codec s e = some s') : Settled s' := by
  cases e with
  | opened =>
      obtain ⟨_, ⟨⟩⟩ := Option.ite_none_right_eq_some.mp h
      rw [Conn.onOpen, foldl_wsSend _ rfl]
      exact settled.same rfl rfl
  | message data =>
      obtain ⟨_, ⟨⟩⟩ := Option.ite_none_right_eq_some.mp h
      exact settled.onMessage data
  | closing =>
      obtain ⟨_, ⟨⟩⟩ := Option.ite_none_right_eq_some.mp h
      exact settled.same rfl rfl
  | errored =>
      obtain ⟨_, ⟨⟩⟩ := Option.ite_none_right_eq_some.mp h
      exact settled.onClose .closing _
  | closed event =>
      obtain ⟨_, ⟨⟩⟩ := Option.ite_none_right_eq_some.mp h
      exact settled.onClose .closed _
  | send payload | halfClose =>
      cases h
      exact settled.same (sendRaw_finished s _) (sendRaw_told s _)
  | cancel | abort reason =>
      cases h
      exact settled.terminate _
  | closeTransport =>
      cases h
      split
      · exact settled.same (wsClose_finished s) (wsClose_told s)
      · exact settled

theorem any_heard (es : List (Event D)) : (heard codec es).any Told.isStatus = es.any (Event.ends codec) := by
  obtain ⟨front, last, shape, plain, live, ended⟩ := @heard_shape _ _ codec es
  have none_ : front.any Told.isStatus = false := by simpa using plain
  rw [shape, List.any_append, none_, Bool.false_or]
  cases any : es.any (Event.ends codec) with
  | true =>
      obtain ⟨status, rfl⟩ := ended any
      rfl
  | false =>
      rw [live any]
      rfl

/-- What a run comes to. -/
theorem held_run {es : List (Event D)} (h : Machine.run (step codec) (Conn.init codec) es = some s) :
    Held (codec.opening :: issued codec es) (heard codec es) s ∧ s.finished = es.any (Event.ends codec) := by
  have settled : Settled s := Machine.run_invariant (fun _ _ _ settled moved => settled_step settled moved)
    (show Settled (Conn.init codec) from rfl) h
  have held : Held (codec.opening :: issued codec es) (heard codec es) s := by
    induction es using List.reverseRecOn generalizing s with
    | nil =>
        cases h
        refine ⟨rfl, fun _ => ⟨rfl, rfl, rfl⟩, fun impossible => ?_, List.nil_prefix, fun _ => rfl, rfl⟩
        cases impossible
    | append_singleton es e ih =>
        obtain ⟨u, front, last⟩ := Machine.run_concat_inv h
        have before : Settled u :=
          Machine.run_invariant (fun _ _ _ settled moved => settled_step settled moved)
          (show Settled (Conn.init codec) from rfl) front
        have held := ih front before
        have over_ : u.finished = es.any (Event.ends codec) := by rw [before, held.told, any_heard]
        cases ended : es.any (Event.ends codec) with
        | true =>
            rw [issued_ended ended, heard_ended ended]
            exact (held_quiet held (over_.trans ended) last).1
        | false =>
            rw [issued_live ended, heard_live ended]
            exact held_step held (over_.trans ended) last
  refine ⟨held, ?_⟩
  rw [settled, held.told, any_heard]

theorem wsSend_wire (s : Conn F) (frame : F) : s.wire <+: (s.wsSend frame).wire := by
  unfold Conn.wsSend
  split
  · exact List.prefix_rfl
  · exact List.prefix_append _ _
  · exact List.prefix_rfl
  · exact List.prefix_rfl

theorem sendRaw_wire (s : Conn F) (frame : F) : s.wire <+: (s.sendRaw frame).wire := by
  unfold Conn.sendRaw
  split
  · exact List.prefix_rfl
  · split
    · exact wsSend_wire s frame
    · exact List.prefix_rfl

theorem finish_wire (s : Conn F) (status : StatusResult) : (s.finish status).wire = s.wire := by
  unfold Conn.finish
  split <;> rfl

theorem wsClose_wire (s : Conn F) : s.wsClose.wire = s.wire := by
  unfold Conn.wsClose
  split <;> rfl

/-- What the socket took stays taken. -/
theorem wire_step {e : Event D} (h : step codec s e = some s') : s.wire <+: s'.wire := by
  cases e with
  | opened =>
      obtain ⟨_, ⟨⟩⟩ := Option.ite_none_right_eq_some.mp h
      rw [Conn.onOpen, foldl_wsSend _ rfl]
      exact List.prefix_append _ _
  | message data =>
      obtain ⟨_, ⟨⟩⟩ := Option.ite_none_right_eq_some.mp h
      unfold Conn.onMessage
      split
      · exact List.prefix_rfl
      · split
        · exact List.prefix_rfl
        · rw [finish_wire]
        · exact List.prefix_rfl
  | closing =>
      obtain ⟨_, ⟨⟩⟩ := Option.ite_none_right_eq_some.mp h
      exact List.prefix_rfl
  | errored | closed event =>
      obtain ⟨_, ⟨⟩⟩ := Option.ite_none_right_eq_some.mp h
      rw [Conn.onClose, finish_wire]
  | send payload | halfClose =>
      cases h
      exact sendRaw_wire s _
  | cancel | abort reason =>
      cases h
      unfold Conn.terminate
      split
      · exact List.prefix_rfl
      · rw [wsClose_wire, finish_wire]
        exact sendRaw_wire s _
  | closeTransport =>
      cases h
      split
      · rw [wsClose_wire]
      · exact List.prefix_rfl

/-- A stream that the client ends on an open socket says so in its last frame. -/
theorem terminate_wire (held : Held frames told s) (live : s.finished = false) (ready : s.ready = .opened)
    (status : StatusResult) : (s.terminate codec status).wire = frames ++ [codec.reset status] := by
  obtain ⟨open_, _, sent⟩ := held.opened ready
  rw [Conn.terminate, if_neg (by rw [live]; exact Bool.false_ne_true), wsClose_wire, finish_wire,
    sendRaw_opened ready open_ live, sent]

theorem life_over {front back : List (Event D)} (ended : front.any (Event.ends codec) = true) :
    life codec (front ++ back) = life codec front := by
  induction back using List.reverseRecOn with
  | nil => rw [List.append_nil]
  | append_singleton back e ih =>
      rw [← List.append_assoc, life_concat, List.any_append, ended, Bool.true_or, if_pos rfl, ih]

/-- A connection in any interleaving of its socket and its caller. The socket takes the open
frame and what the caller issued behind it, in order and each once, from the moment it opens
until it closes, and is never asked to send before. The handlers hear what arrived, in order,
and one status at the end, whatever ends the stream, upon which the transport lets go of it.
Where the client ends it on an open socket, the server is told. -/
theorem single_stream {es : List (Event D)} (h : Machine.run (step codec) (Conn.init codec) es = some s) :
    (s.threw = false ∧ s.wire <+: codec.opening :: issued codec es ∧
      (s.ready = .connecting → s.wire = []) ∧
        (s.ready = .opened → s.wire = codec.opening :: issued codec es)) ∧
    (s.told = heard codec es ∧ (s.registered = true → s.finished = false) ∧
      ∃ front last, s.told = front ++ last ∧ (∀ told ∈ front, told.isStatus = false) ∧
        (s.finished = false → last = []) ∧ (s.finished = true → ∃ status, last = [.status status])) ∧
    ∀ front e back u, es = front ++ e :: back → Machine.run (step codec) (Conn.init codec) front = some u →
      e.terminates = true → u.ready = .opened → u.finished = false →
      s.wire = codec.opening :: issued codec es ∧ ∃ status, (issued codec es).getLast? =
        some (codec.reset status) := by
  obtain ⟨held, over_⟩ := held_run h
  refine ⟨⟨held.calm, held.part, fun ready => (held.connecting ready).2.1, fun ready =>
    (held.opened ready).2.2⟩,
    ⟨held.told, held.gone, ?_⟩, ?_⟩
  · obtain ⟨front, last, shape, plain, live, ended⟩ := @heard_shape _ _ codec es
    exact ⟨front, last, held.told.trans shape, plain, fun finished => live (over_.symm.trans finished),
      fun finished => ended (over_.symm.trans finished)⟩
  · rintro front e back u rfl reached terminates ready live
    obtain ⟨before, running⟩ := held_run reached
    have none_ : front.any (Event.ends codec) = false := running.symm.trans live
    rw [Machine.run_append, reached] at h
    obtain ⟨v, moved, rest⟩ := Machine.run_cons_inv h
    have grown : v.wire <+: s.wire := Machine.run_invariant (I := fun t => v.wire <+: t.wire)
      (fun _ _ _ longer moved => longer.trans (wire_step moved)) List.prefix_rfl rest
    have last : ∃ status, step codec u e = some (u.terminate codec status) ∧
      e.frame codec = some (codec.reset status) ∧
        e.ends codec = true := by
      cases e with
      | cancel => exact ⟨cancelled, rfl, rfl, rfl⟩
      | abort reason => exact ⟨statusForAbort reason, rfl, rfl, rfl⟩
      | _ => cases terminates
    obtain ⟨status, stepped, frame, ends⟩ := last
    cases moved.symm.trans stepped
    have whole : issued codec (front ++ e :: back) = issued codec front ++ [codec.reset status] := by
      have ended : (front ++ [e]).any (Event.ends codec) = true := by
        rw [List.any_append, none_, List.any_cons, ends]
        rfl
      rw [← List.singleton_append, ← List.append_assoc, issued, life_over ended, ← issued,
        issued_live none_, frame]
      rfl
    have told := @terminate_wire _ _ codec _ _ _ before live ready status
    rw [told] at grown
    have part := held.part
    rw [whole, ← List.cons_append] at part ⊢
    refine ⟨?_, status, List.getLast?_concat⟩
    exact part.eq_of_length (Nat.le_antisymm part.length_le grown.length_le)

end Runs

section Proto
variable (js : MetadataForm.LowerCase)

def addMetadatum (md : MetadataForm.Metadata js) (m : Ts.Metadatum) : MetadataForm.Metadata js :=
  match m.binValue, m.asciiValue with
  | some value, _ => md.add m.key (.bin value)
  | none, some value => md.add m.key (.ascii value)
  | none, none => md

/-- `Metadata.fromMetadatumList`. -/
def fromMetadatumList (items : List Ts.Metadatum) : Metadata :=
  (items.foldl (addMetadatum js) .empty).map.map fun (key, values) => (key, values.map fun
    | .ascii value => .text value
    | .bin value => .binary value)

/-- The chain of `onMessage` over the kinds of a frame. -/
def hearFrame (frame : Ts.Frame) : Option Told :=
  match frame.header, frame.message, frame.trailer, frame.reset with
  | some header, _, _, _ => some (.headers (fromMetadatumList js header.headers))
  | none, some message, _, _ => some (.message message.payload)
  | none, none, some t, _ => some (.status ⟨t.statusCode, t.statusMessage, fromMetadatumList js t.trailers⟩)
  | none, none, none, some r => some (.status ⟨r.statusCode, r.statusMessage, []⟩)
  | none, none, none, none => none

/-- The `+proto` codec of a call: what does not decode makes the listener throw, and is lost. -/
def protoCodec (reader : ProtoWire.Reader) (subscribe : Ts.Subscribe) : Codec Bytes Bytes where
  opening := Ts.encodeFrame { Ts.Frame.base with subscribe := some subscribe }
  message payload := Ts.encodeFrame { Ts.Frame.base with message := some ⟨payload⟩ }
  halfClose := Ts.encodeFrame { Ts.Frame.base with halfClose := some ⟨⟩ }
  reset status := Ts.encodeFrame { Ts.Frame.base with reset := some ⟨status.code.toNat, status.details⟩ }
  hear bytes := (Ts.decodeFrame reader bytes).bind (hearFrame js)

end Proto

/-- The codec of a call without metadata and deadline. -/
def bareCodec : Codec Bytes Bytes := protoCodec MetadataForm.asciiLower ProtoWire.standard ⟨[], [], 0, []⟩

/-- Two messages, of which one waits for the socket to open, and a cancellation behind the
first answer. -/
def cancelledEvents : List (Event Bytes) :=
  [.send [1], .opened, .send [2], .message (Ws.encodeFrame (.message [9])), .cancel, .send [3],
    .closed ⟨1000, []⟩]

theorem single_stream_cancelled :
    ∃ s, Machine.run (step bareCodec) (Conn.init bareCodec) cancelledEvents = some s ∧
    s.told = [.message [9], .status cancelled] ∧
    s.wire = [bareCodec.opening, bareCodec.message [1], bareCodec.message [2],
      bareCodec.reset cancelled] := by
  obtain ⟨s, ran⟩ : ∃ s, Machine.run (step bareCodec) (Conn.init bareCodec) cancelledEvents =
    some s := ⟨_, rfl⟩
  obtain ⟨_, ⟨told, _⟩, last⟩ := single_stream ran
  obtain ⟨sent, _⟩ := last (cancelledEvents.take 4) .cancel (cancelledEvents.drop 5) _ rfl rfl rfl rfl rfl
  exact ⟨s, ran, told.trans (by decide), sent.trans (by decide)⟩

end GrpcWebnext.NodeClient.SingleStream
