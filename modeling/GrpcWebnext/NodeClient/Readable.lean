import GrpcWebnext.Library.Machine
import GrpcWebnext.Library.Number

/-! `ClientReadableStream` of `call.ts` as a machine. A `data` listener runs while the
emission that called it is on the stack; what it does there are labels of its own, up to
the one with which it returns. -/
namespace GrpcWebnext.NodeClient.Readable
open Js (Number)
variable {M E : Type}

/-- Who emits a `data` event: `deliver`, or the loop of `resume`. -/
inductive Frame where
  | delivering
  | flushing
  deriving DecidableEq

inductive Result (M E : Type) where
  | value (message : M)
  | done
  | rejected (error : E)
  deriving DecidableEq

/-- What the consumer sees: events, and the promises of `next()` as they settle. -/
inductive Shown (M E : Type) where
  | data (message : M)
  | «end»
  | error (error : E)
  | settled (promise : Nat) (result : Result M E)
  deriving DecidableEq

structure State (M E : Type) where
  queue : List M
  ended : Bool
  errored : Option E
  paused : Bool
  /-- The promise whose resolvers are held. -/
  waiter : Option Nat
  /-- The deliveries that are parked. -/
  ready : List Nat
  highWaterMark : Number
  listening : Bool
  stack : List Frame
  /-- The calls of `next()` so far, and the deliveries that were parked. -/
  calls : Nat
  parked : Nat
  /-- The messages passed to `deliver` before the end. -/
  arrived : List M
  shown : List (Shown M E)

def init (highWaterMark : Number) : State M E :=
  ⟨[], false, none, false, none, [], .max (.ofNat 1) (.floor highWaterMark), false, [], 0, 0, [], []⟩

def settle (s : State M E) (promise : Nat) (result : Result M E) : State M E :=
  { s with shown := s.shown ++ [.settled promise result] }

def release (s : State M E) : State M E :=
  if s.paused || (Number.ofNat s.queue.length).ge s.highWaterMark then s else { s with ready := [] }

def emitData (s : State M E) (frame : Frame) (message : M) : State M E :=
  { s with shown := s.shown ++ [.data message], stack := frame :: s.stack }

/-- What `resume` does behind its loop. -/
def resumed (s : State M E) : State M E :=
  match s.queue, s.waiter with
  | message :: rest, some promise =>
      release (settle { s with queue := rest, waiter := none } promise (.value message))
  | _, _ => release s

/-- The loop of `resume` up to its next emission, or its end. The message stays in the
queue until the listener has returned. -/
def flush (s : State M E) : State M E :=
  match s.queue with
  | message :: _ => if !s.paused && s.listening then emitData s .flushing message else resumed s
  | [] => resumed s

def resume (s : State M E) : State M E :=
  if s.paused then flush { s with paused := false } else s

/-- The listener returns: `deliver` is over, or the loop goes on. -/
def returns (s : State M E) : Option (State M E) :=
  match s.stack with
  | .delivering :: rest => some { s with stack := rest }
  | .flushing :: rest => some (flush { s with stack := rest, queue := s.queue.tail })
  | [] => none

def enqueue (s : State M E) (message : M) : State M E :=
  let s := { s with queue := s.queue ++ [message] }
  if !s.paused && (Number.ofNat s.queue.length).lt s.highWaterMark then s
  else { s with ready := s.ready ++ [s.parked], parked := s.parked + 1 }

def deliver (s : State M E) (message : M) : State M E :=
  if s.ended || s.errored.isSome then s
  else
    let s := { s with arrived := s.arrived ++ [message] }
    if s.paused then enqueue s message
    else if s.listening then emitData s .delivering message
    else match s.waiter with
      | some promise => settle { s with waiter := none } promise (.value message)
      | none => enqueue s message

def finish (s : State M E) : State M E :=
  let s := { s with ended := true, ready := [] }
  match s.waiter with
  | some promise => settle { s with waiter := none } promise (s.errored.elim .done .rejected)
  | none => s

def fail (s : State M E) (error : E) : State M E := finish { s with errored := some error }

/-- `next()`; a promise that has to wait takes the one slot. -/
def next (s : State M E) : State M E :=
  let promise := s.calls
  let s := { s with calls := s.calls + 1 }
  match s.queue with
  | message :: rest => settle (release { s with queue := rest }) promise (.value message)
  | [] => match s.errored with
    | some error => settle s promise (.rejected error)
    | none => if s.ended then settle s promise .done else { s with waiter := some promise }

inductive Label (M E : Type) where
  | deliver (message : M)
  | pause
  | resume
  | «end»
  | error (error : E)
  | listen
  | next
  /-- The `data` listener returns. -/
  | returns
  deriving DecidableEq

/-- A listener may pause, resume and listen; the rest waits until it has returned. The
listeners of the terminal events run behind the stream's own. -/
def step (s : State M E) : Label M E → Option (State M E)
  | .pause => some { s with paused := true }
  | .resume => some (resume s)
  | .listen => some { s with listening := true }
  | .returns => returns s
  | .deliver message => if s.stack = [] then some (deliver s message) else none
  | .end => if s.stack = [] then some (finish { s with shown := s.shown ++ [.end] }) else none
  | .error error =>
      if s.stack = [] then some (fail { s with shown := s.shown ++ [.error error] } error) else none
  | .next => if s.stack = [] then some (next s) else none

def Shown.message : Shown M E → Option M
  | .data message => some message
  | .settled _ (.value message) => some message
  | _ => none

/-- The messages handed to the consumer, in either mode. -/
def handed (s : State M E) : List M := s.shown.filterMap Shown.message

def Shown.isTerminal : Shown M E → Prop
  | .end => True
  | .error _ => True
  | _ => False

/-- No `data` comes behind `end` or `error`. -/
def Quiet (shown : List (Shown M E)) : Prop :=
  ∀ before last after, shown = before ++ last :: after → last.isTerminal →
    ∀ message, .data message ∉ after

/-- One consumption mode: no promises are asked for, or no listener is attached. -/
def OneMode (labels : List (Label M E)) : Prop := .next ∉ labels ∨ .listen ∉ labels

/-- The messages that were handed over are the first ones, in their order; and unless
the stream is paused, as many promises are settled as messages have come, and all of them
at the end. -/
structure Consumed (s : State M E) : Prop where
  inOrder : handed s <+: s.arrived
  quiet : Quiet s.shown
  settled : ∀ promise < s.calls, (s.paused = false ∧ promise < s.arrived.length) ∨ s.ended = true →
    ∃ result, .settled promise result ∈ s.shown

/-- A message for a listener finds no older one queued; the loop of `resume` is not
entered from one of its own emissions, nor with messages left at the end; and a promise
is asked for when none is waiting. -/
def Sound (s : State M E) : Label M E → Prop
  | .deliver _ => s.ended = false → s.paused = false → s.listening = true → s.queue = []
  | .resume => s.paused = true → s.listening = true →
      .flushing ∉ s.stack ∧ (s.ended = true → s.queue = [])
  | .next => s.waiter = none
  | _ => True

instance Sound.decidable (s : State M E) : ∀ label, Decidable (Sound s label)
  | .deliver _ => inferInstanceAs (Decidable (_ → _))
  | .resume => inferInstanceAs (Decidable (_ → _))
  | .next => inferInstanceAs (Decidable (_ = _))
  | .pause | .end | .error _ | .listen | .returns => isTrue trivial

theorem quiet_concat {shown : List (Shown M E)} {last : Shown M E} (quiet : Quiet shown)
    (live : ∀ message, last = .data message → ∀ old ∈ shown, ¬ old.isTerminal) : Quiet (shown ++ [last]) := by
  intro before terminal after split ends message found
  rcases List.eq_nil_or_concat after with rfl | ⟨front, final, rfl⟩
  · cases found
  · rw [List.concat_eq_append, ← List.cons_append, ← List.append_assoc] at split
    obtain ⟨earlier, same⟩ := List.append_inj' split rfl
    cases same
    rw [List.concat_eq_append, List.mem_append, List.mem_singleton] at found
    rcases found with old | new
    · exact quiet before terminal front earlier ends message old
    · exact live message new.symm terminal (by simp [earlier]) ends

theorem enqueue_frame (s : State M E) (message : M) :
    ∃ ready parked, enqueue s message = { s with queue := s.queue ++ [message], ready, parked } := by
  unfold enqueue
  dsimp only
  split
  · exact ⟨s.ready, s.parked, rfl⟩
  · exact ⟨_, _, rfl⟩

theorem release_frame (s : State M E) : ∃ ready, release s = { s with ready } := by
  unfold release
  split
  · exact ⟨s.ready, rfl⟩
  · exact ⟨[], rfl⟩

section Flowing

/-- What has come is handed over or queued; while the loop emits, its message is both. -/
def Backlog (s : State M E) : Prop :=
  match s.stack with
  | [] => s.arrived = handed s ++ s.queue
  | [.delivering] => s.arrived = handed s ∧ s.queue = []
  | [.flushing] =>
      (∃ message rest, s.queue = message :: rest ∧ s.arrived = handed s ++ rest) ∧ s.ended = false
  | _ => False

theorem live_concat {shown : List (Shown M E)} (live : ∀ old ∈ shown, ¬ old.isTerminal) (message : M) :
    ∀ old ∈ shown ++ [.data message], ¬ old.isTerminal := by
  intro old found
  rcases List.mem_append.mp found with earlier | new
  · exact live old earlier
  · cases List.mem_singleton.mp new
    exact id

/-- A stream no promise has been asked of. -/
structure Flowing (s : State M E) : Prop where
  calls : s.calls = 0
  waiter : s.waiter = none
  failed : s.errored.isSome = true → s.ended = true
  quiet : Quiet s.shown
  live : s.ended = false → ∀ old ∈ s.shown, ¬ old.isTerminal
  backlog : Backlog s

theorem Flowing.init (highWaterMark : Number) : Flowing (init highWaterMark : State M E) where
  calls := rfl
  waiter := rfl
  failed := fun failed => by cases failed
  quiet := by
    intro before last after split
    simp [Readable.init] at split
  live := fun _ _ old => absurd old List.not_mem_nil
  backlog := rfl

theorem Flowing.consumed {s : State M E} (inv : Flowing s) : Consumed s := by
  refine ⟨?_, inv.quiet, fun promise asked => ?_⟩
  · have backlog := inv.backlog
    unfold Backlog at backlog
    split at backlog
    · exact backlog ▸ List.prefix_append _ _
    · exact backlog.1 ▸ List.prefix_rfl
    · obtain ⟨⟨message, rest, _, arrived⟩, _⟩ := backlog
      exact arrived ▸ List.prefix_append _ _
    · exact backlog.elim
  · rw [inv.calls] at asked
    cases asked

theorem Flowing.enqueue {s : State M E} (inv : Flowing s) (idle : s.stack = []) (message : M) :
    Flowing (enqueue { s with arrived := s.arrived ++ [message] } message) := by
  obtain ⟨ready, parked, same⟩ := enqueue_frame { s with arrived := s.arrived ++ [message] } message
  rw [same]
  refine ⟨inv.calls, inv.waiter, inv.failed, inv.quiet, inv.live, ?_⟩
  have backlog := inv.backlog
  simp only [Backlog, idle] at backlog ⊢
  rw [backlog, List.append_assoc]
  rfl

theorem Flowing.deliver {s : State M E} (inv : Flowing s) (idle : s.stack = []) {message : M}
    (sound : Sound s (.deliver message)) : Flowing (deliver s message) := by
  unfold Readable.deliver
  split
  · exact inv
  · rename_i open_
    have running : s.ended = false := by
      cases ended : s.ended with
      | false => rfl
      | true => simp [ended] at open_
    dsimp only
    split
    · exact inv.enqueue idle message
    · rename_i flows
      split
      · rename_i listening
        have queue := sound running (by simpa using flows) listening
        refine ⟨inv.calls, inv.waiter, inv.failed, quiet_concat inv.quiet fun _ _ => inv.live running, ?_, ?_⟩
        · exact fun _ => live_concat (inv.live running) message
        · have backlog := inv.backlog
          simp only [Backlog, idle, queue, List.append_nil] at backlog
          simp only [Backlog, emitData, idle, queue, backlog, handed, List.filterMap_append]
          exact ⟨rfl, trivial⟩
      · split
        · rename_i promise waiting
          exact absurd (inv.waiter.symm.trans waiting) (by simp)
        · exact inv.enqueue idle message

theorem Flowing.resumed {s : State M E} (inv : Flowing s) : Flowing (resumed s) := by
  have same : Readable.resumed s = release s := by
    unfold Readable.resumed
    rw [inv.waiter]
    cases s.queue <;> rfl
  obtain ⟨ready, frame⟩ := release_frame s
  rw [same, frame]
  exact ⟨inv.calls, inv.waiter, inv.failed, inv.quiet, inv.live, inv.backlog⟩

/-- The loop starts with no emission under way, and not at the end unless it is empty. -/
theorem Flowing.flush {s : State M E} (inv : Flowing s) (idle : s.queue ≠ [] → s.listening = true →
    s.stack = [] ∧ s.ended = false) : Flowing (flush s) := by
  unfold Readable.flush
  split
  · rename_i message rest queue
    split
    · rename_i flows
      have listening : s.listening = true := (Bool.and_eq_true_iff.mp flows).2
      obtain ⟨bottom, running⟩ := idle (by simp [queue]) listening
      refine ⟨inv.calls, inv.waiter, inv.failed, quiet_concat inv.quiet fun _ _ => inv.live running, ?_, ?_⟩
      · exact fun _ => live_concat (inv.live running) message
      · have backlog := inv.backlog
        simp only [Backlog, bottom, queue] at backlog
        simp only [Backlog, emitData, bottom]
        refine ⟨⟨message, rest, queue, ?_⟩, running⟩
        rw [backlog]
        simp [handed, Shown.message]
    · exact inv.resumed
  · exact inv.resumed

theorem Flowing.resume {s : State M E} (inv : Flowing s) (sound : Sound s .resume) :
    Flowing (resume s) := by
  unfold Readable.resume
  split
  · rename_i paused
    have unpaused : Flowing { s with paused := false } :=
      ⟨inv.calls, inv.waiter, inv.failed, inv.quiet, inv.live, inv.backlog⟩
    refine unpaused.flush fun backed listening => ?_
    obtain ⟨outside, empty⟩ := sound paused listening
    have backlog := inv.backlog
    unfold Backlog at backlog
    split at backlog
    · rename_i bottom
      refine ⟨bottom, ?_⟩
      cases ended : s.ended with
      | false => rfl
      | true => exact absurd (empty ended) backed
    · exact absurd backlog.2 backed
    · rename_i emitting
      exact absurd (by rw [emitting]; exact List.mem_cons_self) outside
    · exact backlog.elim
  · exact inv

theorem Flowing.returns {s t : State M E} (inv : Flowing s) (h : returns s = some t) : Flowing t := by
  have backlog := inv.backlog
  unfold Readable.returns at h
  unfold Backlog at backlog
  split at h
  · rename_i rest emitting
    rw [emitting] at backlog
    cases h
    cases rest with
    | cons frame rest => exact backlog.elim
    | nil =>
        refine ⟨inv.calls, inv.waiter, inv.failed, inv.quiet, inv.live, ?_⟩
        simp only [Backlog, backlog.1, backlog.2]
        exact (List.append_nil _).symm
  · rename_i rest emitting
    rw [emitting] at backlog
    cases h
    cases rest with
    | cons frame rest => exact backlog.elim
    | nil =>
        obtain ⟨⟨message, later, queue, arrived⟩, running⟩ := backlog
        have shifted : Flowing { s with stack := [], queue := s.queue.tail } := by
          refine ⟨inv.calls, inv.waiter, inv.failed, inv.quiet, inv.live, ?_⟩
          rw [queue]
          exact arrived
        exact shifted.flush fun _ _ => ⟨rfl, running⟩
  · cases h

theorem Flowing.finish {s : State M E} (inv : Flowing s) (idle : s.stack = []) (last : Shown M E)
    (terminal : last.isTerminal) (silent : last.message = none) (errored : Option E) :
    Flowing (finish { s with shown := s.shown ++ [last], errored }) := by
  unfold Readable.finish
  simp only [inv.waiter]
  refine ⟨inv.calls, rfl, fun _ => rfl, ?_, fun running => (by cases running), ?_⟩
  · refine quiet_concat inv.quiet fun message data => ?_
    subst data
    exact terminal.elim
  · have backlog := inv.backlog
    simp only [Backlog, idle] at backlog ⊢
    rw [backlog]
    simp [handed, silent]

theorem Flowing.step {s t : State M E} {label : Label M E} (inv : Flowing s) (other : label ≠ .next)
    (sound : Sound s label) (h : step s label = some t) : Flowing t := by
  cases label with
  | pause =>
      cases h
      exact ⟨inv.calls, inv.waiter, inv.failed, inv.quiet, inv.live, inv.backlog⟩
  | listen =>
      cases h
      exact ⟨inv.calls, inv.waiter, inv.failed, inv.quiet, inv.live, inv.backlog⟩
  | resume =>
      cases h
      exact inv.resume sound
  | returns => exact inv.returns h
  | deliver message =>
      simp only [Readable.step, Option.ite_none_right_eq_some, Option.some.injEq] at h
      obtain ⟨idle, rfl⟩ := h
      exact inv.deliver idle sound
  | «end» =>
      simp only [Readable.step, Option.ite_none_right_eq_some, Option.some.injEq] at h
      obtain ⟨idle, rfl⟩ := h
      exact inv.finish idle .end trivial rfl s.errored
  | error error =>
      simp only [Readable.step, Option.ite_none_right_eq_some, Option.some.injEq] at h
      obtain ⟨idle, rfl⟩ := h
      exact inv.finish idle (.error error) trivial rfl (some error)
  | next => exact absurd rfl other

end Flowing

section Iterating

/-- A stream without a listener; at most the last promise waits, and while the stream is
not paused only for a message that has not come. -/
structure Iterating (s : State M E) : Prop where
  listening : s.listening = false
  stack : s.stack = []
  failed : s.errored.isSome = true → s.ended = true
  silent : ∀ message, .data message ∉ s.shown
  backlog : s.arrived = handed s ++ s.queue
  count : s.ended = false → (handed s).length + s.waiter.toList.length = s.calls
  waiting : ∀ promise, s.waiter = some promise → promise + 1 = s.calls ∧ s.ended = false
  settled : ∀ promise < s.calls, s.waiter = some promise ∨ ∃ result, .settled promise result ∈ s.shown
  starved : s.paused = false → s.waiter ≠ none → s.queue = []

theorem Iterating.init (highWaterMark : Number) : Iterating (init highWaterMark : State M E) where
  listening := rfl
  stack := rfl
  failed := fun failed => by cases failed
  silent := fun _ => List.not_mem_nil
  backlog := rfl
  count := fun _ => rfl
  waiting := fun _ waiting => by cases waiting
  settled := fun _ asked => absurd asked (Nat.not_lt_zero _)
  starved := fun _ waiting => absurd rfl waiting

theorem Iterating.consumed {s : State M E} (inv : Iterating s) : Consumed s := by
  refine ⟨inv.backlog ▸ List.prefix_append _ _, ?_, ?_⟩
  · intro before last after split _ message found
    exact inv.silent message (by rw [split]; simp [found])
  · intro promise asked due
    rcases inv.settled promise asked with waiting | settled
    · obtain ⟨last, running⟩ := inv.waiting promise waiting
      rcases due with ⟨unpaused, come⟩ | ended
      · have count := inv.count running
        rw [inv.backlog, inv.starved unpaused (by simp [waiting]), List.append_nil] at come
        simp only [waiting, Option.toList_some, List.length_singleton] at count
        omega
      · exact absurd (running.symm.trans ended) Bool.false_ne_true
    · exact settled

theorem handed_settle (s : State M E) (promise : Nat) (result : Result M E) :
    handed (settle s promise result) = handed s ++ (Shown.settled promise result).message.toList := by
  cases result <;> simp [handed, settle, Shown.message]

theorem silent_concat {shown : List (Shown M E)} (silent : ∀ message, .data message ∉ shown)
    {last : Shown M E}
    (other : ∀ message, last ≠ .data message) (message : M) : .data message ∉ shown ++ [last] := by
  intro found
  rcases List.mem_append.mp found with old | new
  · exact silent message old
  · exact other message (List.mem_singleton.mp new).symm

theorem settled_ne_data (promise : Nat) (result : Result M E) (message : M) :
    Shown.settled promise result ≠ .data message := by
  intro same
  cases same

/-- Without a promise that waits, all have settled. -/
theorem Iterating.all_settled {s : State M E} (inv : Iterating s) (free : s.waiter = none) :
    ∀ promise < s.calls, ∃ result, .settled promise result ∈ s.shown := by
  intro promise asked
  rcases inv.settled promise asked with waiting | settled
  · cases free.symm.trans waiting
  · exact settled

/-- When the one that waits settles, all have. -/
theorem Iterating.settles {s : State M E} (inv : Iterating s) {promise : Nat}
    (waiting : s.waiter = some promise)
    {shown : List (Shown M E)} (sub : s.shown ⊆ shown) (result : Result M E) :
    ∀ other < s.calls, ∃ result', .settled other result' ∈ shown ++ [.settled promise result] := by
  intro other asked
  rcases inv.settled other asked with same | ⟨result', settled⟩
  · cases waiting.symm.trans same
    exact ⟨result, List.mem_append_right _ (List.mem_singleton_self _)⟩
  · exact ⟨result', List.mem_append_left _ (sub settled)⟩

/-- The one waiting promise gets the next message. -/
theorem Iterating.serve {s : State M E} (inv : Iterating s) {promise : Nat}
    (waiting : s.waiter = some promise) (message : M) {queue arrived : List M} (ready : List Nat)
    (came : arrived = handed s ++ message :: queue) :
    Iterating (settle { s with queue, arrived, ready, waiter := none } promise (.value message)) := by
  obtain ⟨last, running⟩ := inv.waiting promise waiting
  have count := inv.count running
  simp only [waiting, Option.toList_some, List.length_singleton] at count
  refine ⟨inv.listening, inv.stack, inv.failed, ?_, ?_, ?_, ?_, ?_, ?_⟩
  · exact silent_concat inv.silent (settled_ne_data _ _)
  · rw [handed_settle]
    simp only [settle, Shown.message, Option.toList_some]
    rw [came, List.append_assoc]
    rfl
  · intro _
    rw [handed_settle, List.length_append]
    exact count
  · intro other absurdity
    cases absurdity
  · exact fun other asked => .inr (inv.settles waiting (List.Subset.refl _) _ other asked)
  · exact fun _ absurdity => absurd rfl absurdity

theorem Iterating.enqueue {s : State M E} (inv : Iterating s) (held : s.paused = true ∨ s.waiter = none)
    (message : M) : Iterating (enqueue { s with arrived := s.arrived ++ [message] } message) := by
  obtain ⟨ready, parked, same⟩ := enqueue_frame { s with arrived := s.arrived ++ [message] } message
  rw [same]
  refine ⟨inv.listening, inv.stack, inv.failed, inv.silent, ?_, inv.count, inv.waiting, inv.settled, ?_⟩
  · change s.arrived ++ [message] = handed s ++ (s.queue ++ [message])
    rw [inv.backlog, List.append_assoc]
  · intro unpaused waits
    rcases held with paused | none
    · exact absurd (unpaused.symm.trans paused) Bool.false_ne_true
    · exact absurd none waits

theorem Iterating.deliver {s : State M E} (inv : Iterating s) (message : M) :
    Iterating (deliver s message) := by
  unfold Readable.deliver
  split
  · exact inv
  · dsimp only
    split
    · rename_i paused
      exact inv.enqueue (.inl paused) message
    · rename_i flows
      split
      · rename_i listening
        exact absurd (inv.listening.symm.trans listening) Bool.false_ne_true
      · split
        · rename_i promise waiting
          have empty := inv.starved (by simpa using flows) (by simp [waiting])
          refine inv.serve waiting message s.ready ?_
          rw [inv.backlog, empty, List.append_nil]
        · rename_i none
          exact inv.enqueue (.inr none) message

theorem Iterating.resume {s : State M E} (inv : Iterating s) : Iterating (resume s) := by
  unfold Readable.resume
  split
  · have still : flush { s with paused := false } = resumed { s with paused := false } := by
      unfold flush
      split
      · rw [if_neg (by simp [inv.listening])]
      · rfl
    rw [still]
    unfold resumed
    split
    · rename_i message rest promise queue waiting
      obtain ⟨ready, frame⟩ := release_frame
        (settle { s with paused := false, queue := rest, waiter := none } promise (.value message))
      rw [frame]
      have unpaused : Iterating (settle { s with queue := rest, waiter := none } promise (.value message)) :=
        inv.serve waiting message s.ready (by rw [inv.backlog, queue])
      exact ⟨unpaused.listening, unpaused.stack, unpaused.failed, unpaused.silent, unpaused.backlog,
        unpaused.count, unpaused.waiting, unpaused.settled, fun _ absurdity => absurd rfl absurdity⟩
    · rename_i free
      obtain ⟨ready, frame⟩ := release_frame { s with paused := false }
      rw [frame]
      refine ⟨inv.listening, inv.stack, inv.failed, inv.silent, inv.backlog, inv.count, inv.waiting,
        inv.settled, fun _ waits => ?_⟩
      obtain ⟨promise, waiting⟩ := Option.ne_none_iff_exists'.mp waits
      cases queue : s.queue with
      | nil => rfl
      | cons message rest => exact (free message rest promise queue waiting).elim
  · exact inv

/-- A promise that settles at once. -/
theorem Iterating.answer {s : State M E} (inv : Iterating s) (free : s.waiter = none)
    (result : Result M E) {queue : List M} (ready : List Nat)
    (taken : s.queue = (Shown.settled s.calls result).message.toList ++ queue)
    (last : (Shown.settled s.calls result).message = none → s.ended = true) :
    Iterating (settle { s with queue, ready, calls := s.calls + 1 } s.calls result) := by
  refine ⟨inv.listening, inv.stack, inv.failed, ?_, ?_, ?_, ?_, ?_, fun _ waits => absurd free waits⟩
  · exact silent_concat inv.silent (settled_ne_data _ _)
  · rw [handed_settle]
    change s.arrived = handed s ++ _ ++ queue
    rw [inv.backlog, taken, List.append_assoc]
  · intro running
    have count := inv.count running
    rw [handed_settle, List.length_append]
    simp only [settle, free, Option.toList_none, List.length_nil] at count ⊢
    cases handedOver : (Shown.settled s.calls result).message with
    | none => exact absurd (running.symm.trans (last handedOver)) Bool.false_ne_true
    | some message => exact congrArg (· + 1) count
  · intro promise waiting
    exact absurd (free.symm.trans waiting) (by simp)
  · intro promise asked
    right
    rcases Nat.lt_succ_iff_lt_or_eq.mp asked with earlier | rfl
    · obtain ⟨result, settled⟩ := inv.all_settled free promise earlier
      exact ⟨result, List.mem_append_left _ settled⟩
    · exact ⟨result, List.mem_append_right _ (List.mem_singleton_self _)⟩

theorem Iterating.next {s : State M E} (inv : Iterating s) (free : s.waiter = none) :
    Iterating (next s) := by
  unfold Readable.next
  dsimp only
  split
  · rename_i message rest queue
    obtain ⟨ready, frame⟩ := release_frame { s with calls := s.calls + 1, queue := rest }
    rw [frame]
    exact inv.answer free (.value message) ready queue fun absurdity => by cases absurdity
  · rename_i queue
    split
    · rename_i error failed
      exact inv.answer free (.rejected error) s.ready rfl fun _ => inv.failed (by simp [failed])
    · split
      · rename_i ended
        exact inv.answer free .done s.ready rfl fun _ => ended
      · rename_i running
        have open_ : s.ended = false := by simpa using running
        have count := inv.count open_
        simp only [free, Option.toList_none, List.length_nil] at count
        refine ⟨inv.listening, inv.stack, inv.failed, inv.silent, inv.backlog, ?_, ?_, ?_, fun _ _ => queue⟩
        · intro _
          exact congrArg (· + 1) count
        · intro promise waiting
          cases waiting
          exact ⟨rfl, open_⟩
        · intro promise asked
          rcases Nat.lt_succ_iff_lt_or_eq.mp asked with earlier | rfl
          · exact .inr (inv.all_settled free promise earlier)
          · exact .inl rfl

theorem Iterating.finish {s : State M E} (inv : Iterating s) {last : Shown M E}
    (terminal : last.isTerminal) (silent : last.message = none) (errored : Option E) :
    Iterating (finish { s with shown := s.shown ++ [last], errored }) := by
  have quiet : ∀ message, .data message ∉ s.shown ++ [last] := by
    apply silent_concat inv.silent
    rintro message rfl
    exact terminal
  have same : (s.shown ++ [last]).filterMap Shown.message = handed s := by
    simp [handed, silent]
  unfold Readable.finish
  dsimp only
  split
  · rename_i promise waiting
    have ends : (Shown.settled promise (errored.elim .done .rejected) : Shown M E).message = none := by
      cases errored <;> rfl
    refine ⟨inv.listening, inv.stack, fun _ => rfl, ?_, ?_, fun running => (by cases running), ?_, ?_, ?_⟩
    · exact silent_concat quiet (settled_ne_data _ _)
    · rw [handed_settle, ends]
      change s.arrived = (s.shown ++ [last]).filterMap Shown.message ++ [] ++ s.queue
      rw [same, List.append_nil]
      exact inv.backlog
    · intro other absurdity
      cases absurdity
    · exact fun other asked => .inr (inv.settles waiting (List.subset_append_left _ _) _ other asked)
    · exact fun _ absurdity => absurd rfl absurdity
  · rename_i free
    refine ⟨inv.listening, inv.stack, fun _ => rfl, quiet, ?_, fun running => (by cases running), ?_, ?_,
      fun _ waits => absurd free waits⟩
    · change s.arrived = (s.shown ++ [last]).filterMap Shown.message ++ s.queue
      rw [same]
      exact inv.backlog
    · intro other waiting
      exact absurd (free.symm.trans waiting) (by simp)
    · intro other asked
      obtain ⟨result, settled⟩ := inv.all_settled free other asked
      exact .inr ⟨result, List.mem_append_left _ settled⟩

theorem Iterating.step {s t : State M E} {label : Label M E} (inv : Iterating s) (other : label ≠ .listen)
    (sound : Sound s label) (h : step s label = some t) : Iterating t := by
  cases label with
  | pause =>
      cases h
      exact ⟨inv.listening, inv.stack, inv.failed, inv.silent, inv.backlog, inv.count, inv.waiting,
        inv.settled, fun absurdity => by cases absurdity⟩
  | listen => exact absurd rfl other
  | resume =>
      cases h
      exact inv.resume
  | returns =>
      simp only [Readable.step, returns, inv.stack] at h
      cases h
  | deliver message =>
      simp only [Readable.step, Option.ite_none_right_eq_some, Option.some.injEq] at h
      obtain ⟨_, rfl⟩ := h
      exact inv.deliver message
  | «end» =>
      simp only [Readable.step, Option.ite_none_right_eq_some, Option.some.injEq] at h
      obtain ⟨_, rfl⟩ := h
      have terminal : (Shown.end : Shown M E).isTerminal := trivial
      exact inv.finish terminal rfl s.errored
  | error error =>
      simp only [Readable.step, Option.ite_none_right_eq_some, Option.some.injEq] at h
      obtain ⟨_, rfl⟩ := h
      have terminal : (Shown.error error : Shown M E).isTerminal := trivial
      exact inv.finish terminal rfl (some error)
  | next =>
      simp only [Readable.step, Option.ite_none_right_eq_some, Option.some.injEq] at h
      obtain ⟨_, rfl⟩ := h
      exact inv.next sound

end Iterating

/-- In a run in one mode whose steps are sound, every state reached has been consumed in
order. -/
theorem consumed_unless_unsound (M E : Type) (highWaterMark : Number) (labels : List (Label M E))
    (s : State M E) (mode : OneMode labels) (h : Machine.run step (init highWaterMark) labels = some s)
    (sound : Machine.Along step Sound (init highWaterMark) labels) : Consumed s := by
  rcases mode with unasked | unheard
  · have never : ∀ label ∈ labels, label ≠ .next := by
      rintro label inside rfl
      exact unasked inside
    refine (Machine.run_invariant_along (I :=
      Flowing) ?_ (.init highWaterMark) (sound.and_mem never) h).consumed
    intro s label t inv fine moved
    exact inv.step fine.1 fine.2 moved
  · have never : ∀ label ∈ labels, label ≠ .listen := by
      rintro label inside rfl
      exact unheard inside
    refine (Machine.run_invariant_along (I :=
      Iterating) ?_ (.init highWaterMark) (sound.and_mem never) h).consumed
    intro s label t inv fine moved
    exact inv.step fine.1 fine.2 moved

/-- A listener that pauses at the first message and is resumed, and an iterator that reads
ahead and is rejected at the end. -/
def pausing : List (Label Nat Unit) :=
  [.listen, .deliver 1, .pause, .returns, .deliver 2, .deliver 3, .resume, .returns, .returns, .end]

def readingAhead : List (Label Nat Unit) := [.next, .deliver 1, .deliver 2, .next, .next, .error ()]

theorem pausing_and_readingAhead_consumed :
    (∃ s, Machine.run step (init (.ofNat 2)) pausing = some s ∧
      s.shown = [.data 1, .data 2, .data 3, .end] ∧ Consumed s) ∧
    ∃ s, Machine.run step (init (.ofNat 2)) readingAhead = some s ∧
      s.shown = [.settled 0 (.value 1), .settled 1 (.value 2), .error (), .settled 2 (.rejected ())] ∧
      Consumed s := by
  constructor
  · have ends : (Machine.run step (init (.ofNat 2)) pausing).map State.shown =
        some [.data 1, .data 2, .data 3, .end] := by decide +kernel
    obtain ⟨s, ran, shown⟩ := Option.map_eq_some_iff.mp ends
    exact ⟨s, ran, shown, consumed_unless_unsound Nat Unit _ pausing s (.inl (by decide)) ran
      (by decide +kernel)⟩
  · have ends : (Machine.run step (init (.ofNat 2)) readingAhead).map State.shown =
        some [.settled 0 (.value 1), .settled 1 (.value 2), .error (), .settled 2 (.rejected ())] := by
      decide +kernel
    obtain ⟨s, ran, shown⟩ := Option.map_eq_some_iff.mp ends
    exact ⟨s, ran, shown, consumed_unless_unsound Nat Unit _ readingAhead s (.inr (by decide)) ran
      (by decide +kernel)⟩

/-- A listener that comes late, one that resumes the loop it is called from, one that is
resumed behind the end, and promises that overlap. -/
theorem messages_mislaid :
    (Machine.run step (init (.ofNat 2) : State Nat Unit)
      [.deliver 1, .listen, .deliver 2, .returns]).map (fun s => (handed s, s.arrived)) =
        some ([2], [1, 2]) ∧
    (Machine.run step (init (.ofNat 2) : State Nat Unit)
      [.listen, .pause, .deliver 1, .deliver 2, .resume, .pause, .resume, .returns, .returns, .returns]).map
        (fun s => (handed s, s.arrived)) = some ([1, 1, 2], [1, 2]) ∧
    (Machine.run step (init (.ofNat 2) : State Nat Unit)
      [.listen, .pause, .deliver 1, .end, .resume, .returns]).map State.shown = some [.end, .data 1] ∧
    (Machine.run step (init (.ofNat 2) : State Nat Unit)
      [.next, .next, .deliver 1, .end]).map State.shown = some [.settled 1 (.value 1), .end] ∧
    ¬ ∀ (labels : List (Label Nat Unit)) (s : State Nat Unit), OneMode labels →
      Machine.run step (init (.ofNat 2)) labels = some s → Consumed s := by
  have late : (Machine.run step (init (.ofNat 2) : State Nat Unit)
      [.deliver 1, .listen, .deliver 2, .returns]).map (fun s => (handed s, s.arrived)) =
        some ([2], [1, 2]) := by decide +kernel
  refine ⟨late, by decide +kernel, by decide +kernel, by decide +kernel, fun all => ?_⟩
  obtain ⟨s, ran, same⟩ := Option.map_eq_some_iff.mp late
  have ordered := (all _ s (.inl (by decide)) ran).inOrder
  obtain ⟨handedOver, arrived⟩ := Prod.mk.injEq .. ▸ same
  rw [handedOver, arrived] at ordered
  exact absurd ordered (by decide)

end GrpcWebnext.NodeClient.Readable
