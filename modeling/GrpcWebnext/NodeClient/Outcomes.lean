import GrpcWebnext.NodeClient.Throwing

/-! What the caller of a call is told at its end, whatever user code throws on the way:
`makeUnaryRequest`, `makeServerStreamRequest`, `makeClientStreamRequest` and
`makeBidiStreamRequest` of `client.ts`. -/
namespace GrpcWebnext.NodeClient.Throwing
open Text (Str)
open Framing (Bytes)
open Js (Number)
open GrpcWebnext.NodeClient.Stream (Event Transport ending Emission)

section Told
variable {H Msg : Type}

/-- What handlers tell the caller. A status finishes the call, or begins a backoff; a call
that finishes tells the caller when the user code is as `shows` has it, and `onStatus`
returns if it is `quiet` too. A handler throws only where the status behind it finishes. -/
structure Tells (hs : Handlers H Msg) where
  finishes : StatusResult → H → Prop
  shows : User → H → Prop
  quiet : User → Prop
  untold : H → Prop
  settled : H → Prop
  onHeaders : ∀ user metadata c, untold c → untold (hs.onHeaders user metadata c).1
  onMessage : ∀ user message c, untold c → untold (hs.onMessage user message c).1
  headersThrew : ∀ user metadata c, (hs.onHeaders user metadata c).2 = true →
    ∀ status, finishes status (hs.onHeaders user metadata c).1
  messageThrew : ∀ user message c, (hs.onMessage user message c).2 = true →
    ∀ status, finishes status (hs.onMessage user message c).1
  finishing : ∀ user random status c, untold c → finishes status c →
    hs.waiting (hs.onStatus user random status c).1 = none ∧
      (settled (hs.onStatus user random status c).1 ↔ shows user c) ∧
      ((hs.onStatus user random status c).2 = false ↔ shows user c ∧ quiet user)
  backing : ∀ user random status c, untold c → ¬ finishes status c →
    hs.waiting (hs.onStatus user random status c).1 = some status ∧
      untold (hs.onStatus user random status c).1 ∧ (hs.onStatus user random status c).2 = false
  repeated : ∀ user again random status status' c, (hs.onStatus user random status c).2 = true →
    hs.waiting (hs.onStatus again random status' (hs.onStatus user random status c).1).1 = none
  givenUp : ∀ user status c, untold c → hs.waiting c = some status →
    hs.waiting (hs.giveUp user status c) = none ∧ (settled (hs.giveUp user status c) ↔ shows user c)
  restarted : ∀ c, untold c → untold (hs.restart c)
  unmoved : ∀ throttle c, hs.waiting (hs.others throttle c) = hs.waiting c ∧
    (untold (hs.others throttle c) ↔ untold c) ∧ (settled (hs.others throttle c) ↔ settled c)

variable {hs : Handlers H Msg} (tells : Tells hs)

/-- The user code that reports a status lets it through. On h2ts a failure is reported by
the catch of the read loop, and a response's status must not throw into it. -/
def Tells.Lets (transport : Transport) (label : Label Msg) (c : H) : Prop :=
  match transport, label.event with
  | .ws, _ => tells.shows label.user c
  | .h2ts, .fail _ => tells.shows label.again c
  | .h2ts, _ => tells.shows label.user c ∧ tells.quiet label.user

/-- User code does not get between a call that finishes and its caller: at the end of an
attempt, when a backoff is cut short, and where an exception has ended the attempt. -/
structure Tells.Fine (transport : Transport) (s : Conn H) (label : Label Msg) : Prop where
  hurried : s.closed = true → ∀ status, hs.waiting s.call = some status → Hurried s label.event →
    tells.shows label.user s.call
  ends : s.closed = false → ∀ status, ending transport s.signal s.aborted label.event = some status →
    tells.finishes status s.call → tells.Lets transport label s.call
  trips : s.closed = false → transport = .h2ts → ∀ called result, Hears hs s label called result →
    result.2 = true → tells.shows label.again result.1

/-- The call has finished: its last attempt is closed and no backoff follows. -/
def Conn.Finished (hs : Handlers H Msg) (s : Conn H) : Prop := s.closed = true ∧ hs.waiting s.call = none

/-- The handlers were called as they should be, and the caller has one outcome if the call
has finished, else none. -/
structure Tells.Answered (s : Conn H) : Prop where
  told : ToldOnce s
  settled : s.Finished hs → tells.settled s.call
  untold : ¬ s.Finished hs → tells.untold s.call

variable {tells}

theorem not_finished {s : Conn H} (running : s.closed = false) : ¬ s.Finished hs :=
  fun finished => Bool.false_ne_true (running.symm.trans finished.1)

@[simp] theorem Tells.lets_ws (label : Label Msg) (c : H) :
    tells.Lets .ws label c ↔ tells.shows label.user c := Iff.rfl

theorem Tells.lets_fail {label : Label Msg} {reason : Str} (failed : label.event = .fail reason) (c : H) :
    tells.Lets .h2ts label c ↔ tells.shows label.again c := by
  simp only [Tells.Lets, failed]

theorem Tells.lets_respond {label : Label Msg} {sent : StatusResult} (responds : label.event = .respond sent)
    (c : H) : tells.Lets .h2ts label c ↔ tells.shows label.user c ∧ tells.quiet label.user := by
  simp only [Tells.Lets, responds]

theorem Tells.Fine.calm {transport : Transport} {s : Conn H} {label : Label Msg}
    (silent : ¬ s.Finished hs → tells.untold s.call) (fine : tells.Fine transport s label) :
    Calm hs transport s label := by
  intro loops running sent event
  subst loops
  have untold : tells.untold s.call := silent (not_finished running)
  have ended : ending .h2ts s.signal s.aborted label.event = some (responded s sent) := by rw [event]; rfl
  by_cases finishes : tells.finishes (responded s sent) s.call
  · have lets := fine.ends running _ ended finishes
    exact (tells.finishing label.user _ _ _ untold finishes).2.2.mpr ((tells.lets_respond event _).mp lets)
  · exact (tells.backing label.user _ _ _ untold finishes).2.2

theorem Hears.unique {s : Conn H} {label : Label Msg} {called called' : Called} {result result' : H × Bool}
    (heard : Hears hs s label called result) (again : Hears hs s label called' result') :
    result = result' := by
  cases heard with
  | headers metadata event =>
      cases again with
      | headers _ event' =>
          cases event.symm.trans event'
          rfl
      | message _ event' => cases event.symm.trans event'
  | message message event =>
      cases again with
      | headers _ event' => cases event.symm.trans event'
      | message _ event' =>
          cases event.symm.trans event'
          rfl

theorem Hears.ending {s : Conn H} {label : Label Msg} {called : Called} {result : H × Bool}
    (heard : Hears hs s label called result) (transport : Transport) (signal : Option AbortReason)
    (aborted : Bool) : ending transport signal aborted label.event = none := by
  cases heard with
  | headers metadata event => rw [event]; rfl
  | message message event => rw [event]; rfl

theorem Tells.untold_heard {s : Conn H} {label : Label Msg} {called : Called} {result : H × Bool}
    (heard : Hears hs s label called result) (untold : tells.untold s.call) : tells.untold result.1 := by
  cases heard with
  | headers metadata event => exact tells.onHeaders _ _ _ untold
  | message message event => exact tells.onMessage _ _ _ untold

theorem Tells.finishes_heard {s : Conn H} {label : Label Msg} {called : Called} {result : H × Bool}
    (heard : Hears hs s label called result) (threw : result.2 = true) (status : StatusResult) :
    tells.finishes status result.1 := by
  cases heard with
  | headers metadata event => exact tells.headersThrew _ _ _ threw _
  | message message event => exact tells.messageThrew _ _ _ threw _

/-- Until it finishes, a call has told its caller nothing. -/
theorem untold_unfinished {transport : Transport} {s t : Conn H} {label : Label Msg}
    (silent : ¬ s.Finished hs → tells.untold s.call) (h : step hs transport s label = some t) :
    ¬ t.Finished hs → tells.untold t.call := by
  have running : s.closed = false → tells.untold s.call := fun running => silent (not_finished running)
  have waiting : ∀ status, hs.waiting s.call = some status → tells.untold s.call :=
    fun status waits => silent fun finished => by simp [finished.2] at waits
  have reported : ∀ user random status c, tells.untold c →
      ¬ (hs.waiting (hs.onStatus user random status c).1 = none) →
        tells.untold (hs.onStatus user random status c).1 := by
    intro user random status c untold waits
    by_cases finishes : tells.finishes status c
    · exact absurd (tells.finishing user random status c untold finishes).1 waits
    · exact (tells.backing user random status c untold finishes).2.1
  have turn := step_turn h
  have seen : (t.Finished hs ↔ t.view.closed = true ∧ hs.waiting t.view.call = none) ∧ t.view.call = t.call :=
    ⟨Iff.rfl, rfl⟩
  rw [seen.1, ← seen.2]
  generalize t.view = seen at turn ⊢
  cases turn with
  | idles closed unhurried => exact silent
  | goesOn live goes unheard => exact silent
  | others throttle event =>
      obtain ⟨waits, untold, _⟩ := tells.unmoved throttle s.call
      rw [Conn.view, waits, untold]
      exact silent
  | hears live heard goes => exact fun _ => tells.untold_heard heard (running live)
  | trips live loops heard threw status =>
      intro unfinished
      exact reported _ _ _ _ (tells.untold_heard heard (running live)) fun none => unfinished ⟨rfl, none⟩
  | ends live status ended responds =>
      intro unfinished
      exact reported _ _ _ _ (running live) fun none => unfinished ⟨rfl, none⟩
  | repeats live loops sent status responds threw =>
      intro unfinished
      exact absurd ⟨rfl, tells.repeated _ _ _ _ _ _ threw⟩ unfinished
  | fails live loops reason failed status ended =>
      intro unfinished
      exact reported _ _ _ _ (running live) fun none => unfinished ⟨rfl, none⟩
  | restarts closed waits elapsed => exact fun _ => tells.restarted _ (waiting _ waits)
  | givesUp closed waits hurried =>
      intro unfinished
      exact absurd ⟨closed, (tells.givenUp _ _ _ (waiting _ waits) waits).1⟩ unfinished

/-- A status that ends an attempt is told as it should be when it is let through. -/
theorem settled_reported {random : Number} {status : StatusResult} {c : H} {user : User}
    (untold : tells.untold c) :
    (hs.waiting (hs.onStatus user random status c).1 = none →
        tells.settled (hs.onStatus user random status c).1) ↔
      (tells.finishes status c → tells.shows user c) := by
  by_cases finishes : tells.finishes status c
  · obtain ⟨closed, settled, _⟩ := tells.finishing user random status c untold finishes
    rw [settled, imp_iff_right closed, imp_iff_right finishes]
  · have waits := (tells.backing user random status c untold finishes).1
    rw [waits]
    exact iff_of_true (fun closed => by cases closed) fun finishing => absurd finishing finishes

theorem fine_closed {transport : Transport} {s : Conn H} {label : Label Msg} (closed : s.closed = true) :
    tells.Fine transport s label ↔
      ∀ status, hs.waiting s.call = some status → Hurried s label.event → tells.shows label.user s.call :=
  ⟨fun fine => fine.hurried closed, fun hurried =>
    ⟨fun _ => hurried, fun live => absurd (live.symm.trans closed) Bool.false_ne_true,
      fun live => absurd (live.symm.trans closed) Bool.false_ne_true⟩⟩

theorem fine_heard {transport : Transport} {s : Conn H} {label : Label Msg} (live : s.closed = false)
    {called : Called} {result : H × Bool} (heard : Hears hs s label called result) :
    tells.Fine transport s label ↔
      (transport = .h2ts → result.2 = true → tells.shows label.again result.1) := by
  constructor
  · exact fun fine loops threw => fine.trips live loops called result heard threw
  · refine fun trips => ⟨fun closed => absurd (live.symm.trans closed) Bool.false_ne_true,
      fun _ status ended => ?_, fun _ loops _ _ other threw => ?_⟩
    · cases (heard.ending transport s.signal s.aborted).symm.trans ended
    · rw [other.unique heard] at threw ⊢
      exact trips loops threw

theorem fine_unheard {transport : Transport} {s : Conn H} {label : Label Msg} (live : s.closed = false)
    (unheard : ∀ called result, ¬ Hears hs s label called result) :
    tells.Fine transport s label ↔
      ∀ status, ending transport s.signal s.aborted label.event = some status →
        tells.finishes status s.call → tells.Lets transport label s.call :=
  ⟨fun fine => fine.ends live, fun ends =>
    ⟨fun closed => absurd (live.symm.trans closed) Bool.false_ne_true, fun _ => ends,
      fun _ _ called result heard => absurd heard (unheard called result)⟩⟩

theorem unheard_of_ending {transport : Transport} {s : Conn H} {label : Label Msg} {status : StatusResult}
    (ended : ending transport s.signal s.aborted label.event = some status) (called : Called)
    (result : H × Bool) : ¬ Hears hs s label called result :=
  fun heard => by cases (heard.ending transport s.signal s.aborted).symm.trans ended

/-- The end of an attempt is fine when its status, if it finishes the call, is let through. -/
theorem fine_ended {transport : Transport} {s : Conn H} {label : Label Msg} (live : s.closed = false)
    {status : StatusResult} (ended : ending transport s.signal s.aborted label.event = some status) :
    tells.Fine transport s label ↔
      (tells.finishes status s.call → tells.Lets transport label s.call) := by
  rw [fine_unheard live (unheard_of_ending ended), ended]
  exact ⟨fun ends => ends status rfl, fun ends other same => by cases same; exact ends⟩

theorem fine_others {transport : Transport} {s : Conn H} {label : Label Msg} {throttle : Throttle}
    (event : label.event = .others throttle) : tells.Fine transport s label := by
  refine ⟨fun _ _ _ hurried => ?_, fun _ status ended => ?_, fun _ _ called result heard => ?_⟩
  · rcases hurried with ⟨other, _⟩ | ⟨⟨_, other⟩, _⟩ <;> cases event.symm.trans other
  · rw [event] at ended
    cases ended
  · exact absurd heard (unheard_of_event (fun _ other => by cases event.symm.trans other)
      (fun _ other => by cases event.symm.trans other) called result)

/-- A step of a call that was answered so far keeps it answered exactly when user code does
not get in between. -/
theorem answered_step {transport : Transport} {s t : Conn H} {label : Label Msg}
    (silent : ¬ s.Finished hs → tells.untold s.call) (answered : tells.Answered s)
    (h : step hs transport s label = some t) : tells.Answered t ↔ tells.Fine transport s label := by
  have running : s.closed = false → tells.untold s.call := fun running => silent (not_finished running)
  have parts : tells.Answered t ↔ Calm hs transport s label ∧
      (t.view.closed = true → hs.waiting t.view.call = none → tells.settled t.view.call) := by
    rw [← told_step answered.told h]
    exact ⟨fun answered => ⟨answered.told, fun closed none => answered.settled ⟨closed, none⟩⟩,
      fun ⟨told, settled⟩ =>
        ⟨told, fun finished => settled finished.1 finished.2, untold_unfinished silent h⟩⟩
  rw [parts]
  have turn := step_turn h
  generalize t.view = seen at turn ⊢
  cases turn with
  | idles closed unhurried =>
      refine iff_of_true ⟨calm_of_closed closed, fun closed none => answered.settled ⟨closed, none⟩⟩ ?_
      exact (fine_closed closed).mpr fun status waits hurried => absurd hurried (unhurried status waits)
  | goesOn live goes unheard =>
      have fine : tells.Fine transport s label :=
        (fine_unheard live unheard).mpr fun status ended => by cases goes.symm.trans ended
      exact iff_of_true ⟨fine.calm silent, fun closed =>
        absurd (live.symm.trans closed) Bool.false_ne_true⟩ fine
  | others throttle event =>
      obtain ⟨waits, _, settled⟩ := tells.unmoved throttle s.call
      have fine : tells.Fine transport s label := fine_others event
      refine iff_of_true ⟨fine.calm silent, fun closed none => ?_⟩ fine
      exact settled.mpr (answered.settled ⟨closed, waits.symm.trans none⟩)
  | hears live heard goes =>
      have fine : tells.Fine transport s label :=
        (fine_heard live heard).mpr fun loops threw => by cases (goes loops).symm.trans threw
      exact iff_of_true ⟨fine.calm silent, fun closed => by cases closed⟩ fine
  | trips live loops heard threw status =>
      have finishes := tells.finishes_heard heard threw status
      obtain ⟨finished, shown, _⟩ := tells.finishing label.again label.random status _
        (tells.untold_heard heard (running live)) finishes
      rw [fine_heard live heard, imp_iff_right loops, imp_iff_right threw, ← shown]
      exact ⟨fun both => both.2 rfl finished, fun settled =>
        ⟨calm_of_event heard.called.2, fun _ _ => settled⟩⟩
  | ends live status ended responds =>
      rw [imp_iff_right (show true = true from rfl), settled_reported (running live)]
      cases transport with
      | ws =>
          rw [fine_ended live ended, Tells.lets_ws]
          exact and_iff_right fun loops => by cases loops
      | h2ts =>
          obtain ⟨sent, event, quiet⟩ := responds rfl
          have fine : tells.Fine .h2ts s label := by
            rw [fine_ended live ended, Tells.lets_respond event]
            exact fun finishes => (tells.finishing _ _ _ _ (running live) finishes).2.2.mp quiet
          refine iff_of_true ⟨fine.calm silent, fun finishes => ?_⟩ fine
          exact ((tells.finishing _ _ _ _ (running live) finishes).2.2.mp quiet).1
  | repeats live loops sent status responds threw =>
      refine iff_of_false (fun both => ?_) fun fine => ?_
      · exact absurd (threw.symm.trans (both.1 loops live sent responds)) (by decide)
      · exact absurd (threw.symm.trans (fine.calm silent loops live sent responds)) (by decide)
  | fails live loops reason failed status ended =>
      subst loops
      rw [imp_iff_right (show true = true from rfl), settled_reported (running live), fine_ended live ended,
        Tells.lets_fail failed]
      exact and_iff_right (calm_of_event fun sent other => by cases failed.symm.trans other)
  | restarts closed waits elapsed =>
      refine iff_of_true ⟨calm_of_closed closed, fun closed => by cases closed⟩ ((fine_closed closed).mpr ?_)
      intro _ _ hurried
      rcases hurried with ⟨other, _⟩ | ⟨⟨_, other⟩, _⟩ <;> cases elapsed.symm.trans other
  | givesUp closed waits hurried =>
      have untold : tells.untold s.call := silent fun finished => by simp [finished.2] at waits
      obtain ⟨finished, shown⟩ := tells.givenUp label.user _ _ untold waits
      rw [fine_closed closed]
      constructor
      · exact fun both _ _ _ => shown.mp (both.2 closed finished)
      · exact fun fine => ⟨calm_of_closed closed, fun _ _ => shown.mpr (fine _ waits hurried)⟩

/-- A caller that was not answered as it should be is never put right. -/
theorem unanswered_step {transport : Transport} {s t : Conn H} {label : Label Msg}
    (silent : ¬ s.Finished hs → tells.untold s.call) (unanswered : ¬ tells.Answered s)
    (h : step hs transport s label = some t) : ¬ tells.Answered t := by
  intro answered
  have told : ToldOnce s := by
    by_contra untold
    exact untold_step untold h answered.told
  refine unanswered ⟨told, fun finished => ?_, silent⟩
  have settled : t.view.closed = true → hs.waiting t.view.call = none → tells.settled t.view.call :=
    fun closed none => answered.settled ⟨closed, none⟩
  have dead : s.closed = false → False := fun live => Bool.false_ne_true (live.symm.trans finished.1)
  have turn := step_turn h
  generalize t.view = seen at turn settled
  cases turn with
  | idles closed unhurried => exact settled finished.1 finished.2
  | others throttle event =>
      obtain ⟨waits, _, same⟩ := tells.unmoved throttle s.call
      exact same.mp (settled finished.1 (waits.trans finished.2))
  | goesOn live | hears live | trips live | ends live | repeats live | fails live => exact (dead live).elim
  | restarts closed waits | givesUp closed waits => cases finished.2.symm.trans waits

/-- Along a run the caller is told what it should be exactly when user code never gets in
between. -/
theorem Tells.answered_iff (tells : Tells hs) {transport : Transport} {call : H} (fresh : tells.untold call)
    (signal : Option AbortReason) {labels : List (Label Msg)} {s : Conn H}
    (h : Machine.run (step hs transport) (Conn.init call signal) labels = some s) :
    tells.Answered s ↔ Machine.Along (step hs transport) (tells.Fine transport)
      (Conn.init call signal) labels := by
  have start : tells.Answered (Conn.init call signal) :=
    ⟨⟨fun calls found => absurd found List.not_mem_nil, once_running.mpr List.not_mem_nil⟩,
      fun finished => absurd finished.1 Bool.false_ne_true, fun _ => fresh⟩
  exact Machine.run_iff_along (J := fun s => ¬ s.Finished hs → tells.untold s.call) (P := tells.Answered)
    (fun _ => fresh) start (fun _ _ _ silent moved => untold_unfinished silent moved)
    (fun _ _ _ silent answered moved => answered_step silent answered moved)
    (fun _ _ _ silent unanswered moved => unanswered_step silent unanswered moved) h

end Told
end GrpcWebnext.NodeClient.Throwing
