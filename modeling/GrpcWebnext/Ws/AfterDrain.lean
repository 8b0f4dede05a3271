import GrpcWebnext.Ws.Drain
import GrpcWebnext.Ws.YetToCall

/-! Calls after a drain: what may still be dispatched on a connection that has seen the
server shut down, and when nothing is. -/
namespace GrpcWebnext.Ws
open Framing (Bytes)

namespace RustServer

/-- Before its call, a task is resolving the method or about to call. -/
def Point.early : Point → Bool
  | .resolving => true
  | .calling => true
  | _ => false

/-- The task has made no call and is still able to: an abort stops it where it gives up
its thread, not before. -/
def Task.yetToCall (t : Task) : Bool :=
  t.point.early && !t.called && (t.life = .running || (t.life = .parked && !t.aborted))

/-- The read loop accepts an open frame in this message. -/
def opens (srv : Config) (s : Conn) (msg : Inbound) : Bool :=
  s.slot.isNone && (decode s.codec srv.methodUrl msg).2.any fun frame => match frame.1 with
    | .subscribe sub => sub.initialPayload.length ≤ srv.maxMessageBytes && srv.methodParses
    | _ => false

/-- The steps that leave no call to be made on a draining connection: the drain is seen
when no stream is still to call, and no open frame is accepted behind it. -/
def hushes (srv : Config) (s : Conn) : Event → Bool
  | .drain => s.tasks.all fun t => !t.yetToCall
  | .receive msg => !(s.draining && opens srv s msg)
  | _ => true

def Task.caller (t : Task) : Caller :=
  ⟨t.point.early, t.called, t.life = .running || (t.life = .parked && !t.aborted), t.pending.isEmpty⟩

/-- How one step may leave a stream. -/
def Task.Turn (t t' : Task) : Prop := t.caller.Turn t'.caller

instance : Std.Refl Task.Turn := ⟨fun t => .refl t.caller⟩

theorem settle_turn {t t' : Task} (point : t'.point = t.point) (called : t'.called = t.called)
    (life : t'.life = t.life) (aborted : t'.aborted = t.aborted) (busy : t.pending ≠ []) :
    t.Turn (settle t') := by
  unfold settle
  split
  · exact Caller.Turn.past called rfl
  · exact Caller.Turn.past called rfl
  · refine Caller.Turn.busy (by simpa [Task.caller] using busy) (congrArg Point.early point) called ?_
    simp only [Task.caller, life, aborted]

theorem sendFailed_turn {t : Task} {out : Out} {rest : List Out} (pending : t.pending = out :: rest) :
    t.Turn (sendFailed t out rest) := by
  unfold sendFailed
  split
  · exact Caller.Turn.past rfl rfl
  · exact settle_turn rfl rfl rfl rfl (by simp [pending])

theorem runStream_turn {srv : Config} {s : Conn} {t t' : Task} {act : Act} {queue : List Out}
    (running : t.life = .running) (h : runStream srv s t act = some (t', queue)) : t.Turn t' := by
  unfold runStream at h
  split at h
  case h_1 none point =>
      cases h
      refine ⟨fun quiet => ⟨?_, rfl⟩, fun _ _ => List.isEmpty_iff.mpr none⟩
      simpa [Caller.yetToCall, Task.caller, Point.early, point] using quiet
  case h_3 none point =>
      cases h
      refine ⟨fun quiet => ⟨rfl, ?_⟩, fun _ early => by cases early⟩
      simpa [Caller.yetToCall, Task.caller, Point.early, point, running] using quiet
  case h_6 =>
      split at h
      split at h <;> (cases h; exact Caller.Turn.past rfl rfl)
  case h_10 out rest pending =>
      split at h
      · cases h
        exact sendFailed_turn pending
      · obtain ⟨queued, _, same⟩ := Option.map_eq_some_iff.mp h
        cases same
        exact settle_turn rfl rfl rfl rfl (by simp [pending])
  case h_11 | h_12 | h_13 =>
      simp only [runStream.expired, Option.ite_none_left_eq_some, Option.some.injEq,
        Prod.mk.injEq] at h
      obtain ⟨_, rfl, rfl⟩ := h
      exact Caller.Turn.past rfl rfl
  case h_14 => cases h
  all_goals (cases h; exact Caller.Turn.past rfl rfl)

theorem modifyTask_turn (s : Conn) (i : Nat) {f : Task → Task} (moved : ∀ t : Task, t.Turn (f t)) :
    List.Forall₂ Task.Turn s.tasks (s.modifyTask i f).tasks :=
  forall₂_modify moved s.tasks i

theorem dropStream_turn (s : Conn) : List.Forall₂ Task.Turn s.tasks s.dropStream.tasks := by
  unfold Conn.dropStream
  split
  · exact List.forall₂_refl _
  · refine modifyTask_turn s _ fun t => Caller.Turn.stays rfl rfl rfl fun able => ?_
    simp only [Task.caller, Task.abort, Bool.not_true, Bool.and_false, Bool.or_false] at able ⊢
    exact Bool.or_eq_true_iff.mpr (.inl able)

theorem stepTask_turn {s s' : Conn} {i : Nat} {f : Task → Option Task}
    (moved : ∀ t t', f t = some t' → t.Turn t') (h : s.stepTask i f = some s') :
    List.Forall₂ Task.Turn s.tasks s'.tasks := by
  obtain ⟨t', turns, rfl⟩ := Option.map_eq_some_iff.mp h
  obtain ⟨t, found, turns⟩ := Option.bind_eq_some_iff.mp turns
  exact forall₂_set found (moved t t' turns)

theorem handleFrame_turn (srv : Config) (s : Conn) (kind : Kind) (json : Bool)
    (closed : ∀ sub, kind = .subscribe sub → s.slot.isNone = true →
      ¬ (sub.initialPayload.length ≤ srv.maxMessageBytes ∧ srv.methodParses = true)) :
    List.Forall₂ Task.Turn s.tasks (handleFrame srv s kind json).tasks := by
  cases kind with
  | subscribe sub =>
      simp only [handleFrame]
      split
      · exact List.forall₂_refl _
      · split
        · exact List.forall₂_refl _
        · split
          · exact List.forall₂_refl _
          · exact absurd ⟨by omega, by simpa using ‹¬ (!srv.methodParses) = true›⟩
              (closed sub rfl (by simpa using ‹¬ s.slot.isSome = true›))
  | message payload =>
      simp only [handleFrame]
      split
      · exact dropStream_turn s
      · split
        · split <;> exact List.forall₂_refl _
        · exact List.forall₂_refl _
  | halfClose =>
      simp only [handleFrame]
      split
      · exact modifyTask_turn s _ fun t => Caller.Turn.stays rfl rfl rfl id
      · exact List.forall₂_refl _
  | reset code message => exact dropStream_turn s
  | trailer code message trailers => exact List.forall₂_refl _
  | header headers => exact List.forall₂_refl _

theorem receive_turn {srv : Config} {s : Conn} {msg : Inbound} (closed : opens srv s msg = false) :
    List.Forall₂ Task.Turn s.tasks (receive srv s msg).tasks := by
  unfold receive
  split
  · exact dropStream_turn s
  · cases decoded : decode s.codec srv.methodUrl msg with
    | mk codec frame =>
        cases frame with
        | none => exact List.forall₂_refl _
        | some frame =>
            refine handleFrame_turn srv { s with codec := codec } frame.1 frame.2 ?_
            rintro sub same empty ⟨small, parses⟩
            simp [opens, decoded, same, small, parses, show s.slot.isNone = true from empty] at closed

theorem pull_turn {srv : Config} {t t' : Task} (h : pull srv t = some t') : t.Turn t' := by
  unfold pull at h
  split at h
  · split at h
    · split at h <;> (cases h; exact Caller.Turn.stays rfl rfl rfl id)
    · cases h
  · cases h

/-- An open frame is accepted in the event. -/
def Conn.accepts (srv : Config) (s : Conn) : Event → Bool
  | .receive msg => opens srv s msg
  | _ => false

/-- A step that opens nothing takes every stream on by a turn. -/
theorem step_turn {srv : Config} {s s' : Conn} {e : Event} (h : step srv s e = some s')
    (closed : s.accepts srv e = false) : List.Forall₂ Task.Turn s.tasks s'.tasks := by
  cases e with
  | receive msg =>
      simp only [step, Option.ite_none_right_eq_some, Option.some.injEq] at h
      obtain ⟨_, rfl⟩ := h
      exact receive_turn closed
  | hangup =>
      simp only [step, Option.ite_none_right_eq_some, Option.some.injEq] at h
      obtain ⟨_, rfl⟩ := h
      exact dropStream_turn s
  | drain =>
      simp only [step, Option.ite_none_right_eq_some, Option.some.injEq] at h
      obtain ⟨_, rfl⟩ := h
      unfold observeDrain
      split <;> exact List.forall₂_refl _
  | flush =>
      obtain ⟨_, _, _, queue, _, _, ⟨_, _, rfl⟩ | ⟨_, _, rfl⟩ | ⟨_, rfl⟩⟩ := flush_some h
      · exact dropStream_turn { s with queue := queue }
      · exact List.forall₂_refl _
      · exact List.forall₂_refl _
  | feed =>
      obtain ⟨_, rfl | ⟨i, payload, rfl⟩⟩ := feed_some h
      · exact List.forall₂_refl _
      · exact modifyTask_turn s _ fun t => Caller.Turn.stays rfl rfl rfl id
  | write =>
      obtain ⟨_, _, _, _, rfl⟩ := write_some h
      exact List.forall₂_refl _
  | writeFail =>
      simp only [step, Option.ite_none_right_eq_some, Option.some.injEq] at h
      obtain ⟨_, rfl⟩ := h
      exact List.forall₂_refl _
  | run i act =>
      obtain ⟨t, t', _, found, running, moved, rfl⟩ := step_run h
      exact forall₂_set found (runStream_turn running moved)
  | wake i =>
      refine stepTask_turn (fun t t' turns => ?_) h
      simp only [Option.ite_none_right_eq_some, Option.some.injEq] at turns
      obtain ⟨⟨parked, live⟩, rfl⟩ := turns
      exact Caller.Turn.stays rfl rfl rfl fun _ => by simp [Task.caller, parked, live]
  | park i =>
      refine stepTask_turn (fun t t' turns => ?_) h
      simp only [Option.ite_none_right_eq_some, Option.some.injEq] at turns
      obtain ⟨running, rfl⟩ := turns
      split
      · exact Caller.Turn.stays rfl rfl rfl fun _ => by simp [Task.caller, running]
      · exact Caller.Turn.stays rfl rfl rfl fun _ => by simp [Task.caller, running]
  | reap i =>
      refine stepTask_turn (fun t t' turns => ?_) h
      simp only [Option.ite_none_right_eq_some, Option.some.injEq] at turns
      obtain ⟨_, rfl⟩ := turns
      refine Caller.Turn.stays rfl rfl rfl fun able => ?_
      simp [Task.caller, Task.die] at able
  | pull i => exact stepTask_turn (fun t t' turns => pull_turn turns) h
  | dropBody i =>
      refine stepTask_turn (fun t t' turns => ?_) h
      simp only [Option.ite_none_right_eq_some, Option.some.injEq] at turns
      obtain ⟨_, rfl⟩ := turns
      exact Caller.Turn.stays rfl rfl rfl id

/-- The stream an accepted open frame adds. -/
theorem receive_of_opens {srv : Config} {s : Conn} {msg : Inbound} (opened : opens srv s msg = true) :
    ∃ codec sub json, receive srv s msg =
      { s with codec := codec, tasks := s.tasks ++ [spawn srv sub json],
               slot := some s.tasks.length } := by
  simp only [opens, Bool.and_eq_true, Option.any_eq_true] at opened
  obtain ⟨empty, ⟨kind, json⟩, decoded, fits⟩ := opened
  cases kind with
  | subscribe sub =>
      simp only [Bool.and_eq_true, decide_eq_true_eq] at fits
      refine ⟨(decode s.codec srv.methodUrl msg).1, sub, json, ?_⟩
      have other : msg ≠ .close := by
        rintro rfl
        simp [decode] at decoded
      have free : s.slot = none := Option.isNone_iff_eq_none.mp empty
      simp [receive, other, decoded, handleFrame, free, fits.1, fits.2]
  | _ => simp at fits

/-- The drain is seen in this event. -/
def Event.isDrain : Event → Bool
  | .drain => true
  | _ => false

theorem step_seen {srv : Config} {s s' : Conn} {e : Event} (h : step srv s e = some s') :
    s'.draining = (e.isDrain || s.draining) := by
  cases e with
  | drain =>
      simp only [step, Option.ite_none_right_eq_some, Option.some.injEq] at h
      obtain ⟨_, rfl⟩ := h
      unfold observeDrain
      split <;> rfl
  | _ => exact step_draining h fun same => by cases same

theorem step_sees {srv : Config} {s s' : Conn} {e : Event} (h : step srv s e = some s')
    (drain : e.isDrain = true) : s'.tasks = s.tasks := by
  cases e with
  | drain =>
      simp only [step, Option.ite_none_right_eq_some, Option.some.injEq] at h
      obtain ⟨_, rfl⟩ := h
      unfold observeDrain
      split <;> rfl
  | _ => cases drain

theorem step_accepts {srv : Config} {s s' : Conn} {e : Event} (h : step srv s e = some s')
    (opened : s.accepts srv e = true) :
    e.isDrain = false ∧ s'.tasks.map Task.caller = s.tasks.map Task.caller ++
      [⟨true, false, true, true⟩] := by
  cases e with
  | receive msg =>
      simp only [step, Option.ite_none_right_eq_some, Option.some.injEq] at h
      obtain ⟨_, rfl⟩ := h
      obtain ⟨codec, sub, json, spawned⟩ := receive_of_opens opened
      refine ⟨rfl, ?_⟩
      rw [spawned, List.map_append]
      cases json <;> rfl
  | _ => cases opened

theorem dispatched_callers (s : Conn) : (s.tasks.map Task.caller).countP Caller.called = s.dispatched :=
  List.countP_map

theorem step_of_runStream {srv : Config} {s : Conn} {i : Nat} {act : Act} {t t' : Task}
    (found : s.tasks[i]? = some t) (running : t.life = .running)
    (moved : runStream srv s t act = some (t', s.queue)) :
    step srv s (.run i act) = some { s with tasks := s.tasks.set i t' } := by
  simp only [step, found, running, if_true, moved, Option.map_some]

theorem running_calls (srv : Config) {s : Conn} {i : Nat} {t : Task} (found : s.tasks[i]? = some t)
    (running : t.life = .running) (early : t.point.early = true) (pending : t.pending = []) :
    ∃ after, Machine.run (step srv) s after =
      some { s with tasks := s.tasks.set i { t with called := true, point := .awaiting } } := by
  have inside : i < s.tasks.length := (List.getElem?_eq_some_iff.mp found).1
  cases point : t.point with
  | resolving =>
      have resolved : step srv s (.run i (.resolved (.ok ()))) =
          some { s with tasks := s.tasks.set i { t with point := .calling } } :=
        step_of_runStream found running (by simp only [runStream, pending, point])
      have called : step srv { s with tasks := s.tasks.set i { t with point := .calling } }
          (.run i .call) =
          some { s with tasks := s.tasks.set i { t with called := true, point := .awaiting } } := by
        refine (step_of_runStream (t := { t with point := .calling }) (by simp [inside]) running
          (by simp only [runStream, pending]; rfl)).trans ?_
        simp only [List.set_set, pending]
      refine ⟨[.run i (.resolved (.ok ())), .run i .call], ?_⟩
      rw [Machine.run_cons resolved, Machine.run_cons called, Machine.run_nil]
  | calling =>
      have called : step srv s (.run i .call) =
          some { s with tasks := s.tasks.set i { t with called := true, point := .awaiting } } :=
        step_of_runStream found running (by simp only [runStream, pending, point])
      exact ⟨[.run i .call], (Machine.run_cons called).trans (Machine.run_nil _)⟩
  | _ => simp [point, Point.early] at early

/-- A stream that is still to call can call. -/
theorem calls_later (srv : Config) {s : Conn} {c : Caller} (inside : c ∈ s.tasks.map Task.caller)
    (waits : c.yetToCall = true) (idle : c.idle = true) :
    ∃ after s', Machine.run (step srv) s after = some s' ∧ s.dispatched < s'.dispatched := by
  obtain ⟨t, member, rfl⟩ := List.mem_map.mp inside
  have pending : t.pending = [] := List.isEmpty_iff.mp idle
  obtain ⟨i, found⟩ := List.mem_iff_getElem?.mp member
  have inside : i < s.tasks.length := (List.getElem?_eq_some_iff.mp found).1
  simp only [Caller.yetToCall, Task.caller, Bool.and_eq_true, Bool.or_eq_true, Bool.not_eq_true',
    decide_eq_true_eq] at waits
  obtain ⟨⟨early, uncalled⟩, running | ⟨parked, live⟩⟩ := waits
  · obtain ⟨after, ran⟩ := running_calls srv found running early pending
    exact ⟨after, _, ran, countP_set_called found uncalled rfl⟩
  · have woken : step srv s (.wake i) =
        some { s with tasks := s.tasks.set i { t with life := .running } } := by
      simp [step, Conn.stepTask, found, parked, live]
    have again : (s.tasks.set i { t with life := .running })[i]? =
        some { t with life := .running } := by simp [inside]
    obtain ⟨after, ran⟩ := running_calls srv
      (s := { s with tasks := s.tasks.set i { t with life := .running } }) again rfl early
      pending
    refine ⟨.wake i :: after, _, (Machine.run_cons woken).trans ran, ?_⟩
    simp only [Conn.dispatched, List.set_set]
    exact countP_set_called found uncalled rfl

/-- The Rust connection, as the drain concerns it. -/
def toDraining (srv : Config) : Draining Conn Event where
  step := step srv
  callers s := s.tasks.map Task.caller
  seen := Conn.draining
  sees := Event.isDrain
  opens := Conn.accepts srv
  step_seen := step_seen
  step_sees h drain := by rw [step_sees h drain]
  step_turn h closed := by
    rw [List.forall₂_map_left_iff, List.forall₂_map_right_iff]
    exact step_turn h closed
  step_opens := step_accepts
  calls inside waits idle := by
    simp only [dispatched_callers]
    exact calls_later srv inside waits idle

theorem hushes_eq (srv : Config) (s : Conn) (e : Event) : hushes srv s e = (toDraining srv).hushes s e := by
  cases e with
  | drain => exact (List.all_map (f := Task.caller) (p := fun c => !c.yetToCall)).symm
  | receive msg => rfl
  | _ => simp [hushes, Draining.hushes, toDraining, Event.isDrain, Conn.accepts]

end RustServer

namespace GoServer

/-- Before its call, a stream looks up its transcoder or is about to dispatch. -/
def Point.early : Point → Bool
  | .starting => true
  | .dispatching => true
  | _ => false

/-- The stream has made no call and is still able to: an abort does not keep it from one. -/
def Task.yetToCall (t : Task) : Bool := t.point.early && !t.called

/-- The read loop accepts an open frame in this message. -/
def opens (srv : Config) (s : Conn) (msg : Inbound) : Bool :=
  s.slot.isNone && (decode s.codec srv.methodUrl msg).2.any fun frame => match frame.1 with
    | .subscribe sub => sub.initialPayload.length ≤ srv.maxMessageBytes
    | _ => false

/-- The steps that leave no call to be made on a connection whose 1001 is queued: it is
queued when no stream is still to call, and no open frame is accepted behind it. -/
def hushes (srv : Config) (s : Conn) : Event → Bool
  | .sendAway true => s.tasks.all fun t => !t.yetToCall
  | .receive msg => !(s.watcher = .sent && opens srv s msg)
  | _ => true

def Task.caller (t : Task) : Caller := ⟨t.point.early, t.called, true, t.pending.isEmpty⟩

theorem yetToCall_caller (t : Task) : t.caller.yetToCall = t.yetToCall := Bool.and_true _

def Task.Turn (t t' : Task) : Prop := t.caller.Turn t'.caller

instance : Std.Refl Task.Turn := ⟨fun t => .refl t.caller⟩

theorem settle_turn {t t' : Task} (point : t'.point = t.point) (called : t'.called = t.called)
    (busy : t.pending ≠ []) : t.Turn (settle t') := by
  unfold settle
  split
  · exact Caller.Turn.past called rfl
  · exact Caller.Turn.busy (by simpa [Task.caller] using busy) (congrArg Point.early point) called rfl

theorem sendFailed_turn {t : Task} {out : Out} {rest : List Out} (pending : t.pending = out :: rest) :
    t.Turn (sendFailed t out rest) := by
  unfold sendFailed
  split
  · exact settle_turn rfl rfl (by simp [pending])
  · exact settle_turn rfl rfl (by simp [pending])
  · exact Caller.Turn.past rfl rfl

theorem runStream_turn {srv : Config} {s : Conn} {t t' : Task} {act : Act} {queue : List Out}
    (h : runStream srv s t act = some (t', queue)) : t.Turn t' := by
  unfold runStream at h
  split at h
  case h_1 none point =>
      cases h
      refine ⟨fun quiet => ⟨?_, rfl⟩, fun _ _ => List.isEmpty_iff.mpr none⟩
      simpa [Caller.yetToCall, Task.caller, Point.early, point] using quiet
  case h_2 =>
      simp only [Option.ite_none_right_eq_some, Option.some.injEq, Prod.mk.injEq] at h
      obtain ⟨_, rfl, _⟩ := h
      exact Caller.Turn.past rfl rfl
  case h_3 none point =>
      cases h
      refine ⟨fun quiet => ⟨rfl, ?_⟩, fun _ early => by cases early⟩
      simpa [Caller.yetToCall, Task.caller, Point.early, point] using quiet
  case h_6 =>
      split at h
      split at h <;> (cases h; exact Caller.Turn.past rfl rfl)
  case h_8 => split at h <;> (cases h; exact Caller.Turn.past rfl rfl)
  case h_9 out rest pending =>
      split at h
      · cases h
        exact sendFailed_turn pending
      · obtain ⟨queued, _, same⟩ := Option.map_eq_some_iff.mp h
        cases same
        split
        · exact settle_turn rfl rfl (by simp [pending])
        · exact sendFailed_turn pending
  case h_10 =>
      simp only [Option.ite_none_right_eq_some, Option.some.injEq, Prod.mk.injEq] at h
      obtain ⟨_, rfl, _⟩ := h
      exact Caller.Turn.stays rfl rfl rfl id
  case h_11 => cases h
  all_goals (cases h; exact Caller.Turn.past rfl rfl)

theorem modifyTask_turn (s : Conn) (i : Nat) {f : Task → Task} (moved : ∀ t : Task, t.Turn (f t)) :
    List.Forall₂ Task.Turn s.tasks (s.modifyTask i f).tasks :=
  forall₂_modify moved s.tasks i

theorem abortStream_turn (s : Conn) : List.Forall₂ Task.Turn s.tasks s.abortStream.tasks := by
  unfold Conn.abortStream
  split
  · exact List.forall₂_refl _
  · exact modifyTask_turn s _ fun t => Caller.Turn.stays rfl rfl rfl id

theorem dropStream_turn (s : Conn) : List.Forall₂ Task.Turn s.tasks s.dropStream.tasks := by
  unfold Conn.dropStream
  split
  · exact List.forall₂_refl _
  · exact abortStream_turn s

theorem stepTask_turn {s s' : Conn} {i : Nat} {f : Task → Option Task}
    (moved : ∀ t t', f t = some t' → t.Turn t') (h : s.stepTask i f = some s') :
    List.Forall₂ Task.Turn s.tasks s'.tasks := by
  obtain ⟨t', turns, rfl⟩ := Option.map_eq_some_iff.mp h
  obtain ⟨t, found, turns⟩ := Option.bind_eq_some_iff.mp turns
  exact forall₂_set found (moved t t' turns)

theorem handleFrame_turn (srv : Config) (s : Conn) (kind : Kind) (json : Bool)
    (closed : ∀ sub, kind = .subscribe sub → s.slot.isNone = true →
      ¬ sub.initialPayload.length ≤ srv.maxMessageBytes) :
    List.Forall₂ Task.Turn s.tasks (handleFrame srv s kind json).tasks := by
  cases kind with
  | subscribe sub =>
      simp only [handleFrame]
      split
      · exact List.forall₂_refl _
      · split
        · exact List.forall₂_refl _
        · exact absurd (by omega) (closed sub rfl (by simpa using ‹¬ s.slot.isSome = true›))
  | message payload =>
      simp only [handleFrame]
      split
      · exact List.forall₂_refl _
      · split
        · split <;> exact List.forall₂_refl _
        · exact List.forall₂_refl _
  | halfClose =>
      simp only [handleFrame]
      split
      · exact modifyTask_turn s _ fun t => Caller.Turn.stays rfl rfl rfl id
      · exact List.forall₂_refl _
  | reset code message => exact dropStream_turn s
  | trailer code message trailers => exact List.forall₂_refl _
  | header headers => exact List.forall₂_refl _

theorem receive_turn {srv : Config} {s : Conn} {msg : Inbound} (closed : opens srv s msg = false) :
    List.Forall₂ Task.Turn s.tasks (receive srv s msg).tasks := by
  unfold receive
  split
  · exact abortStream_turn s
  · cases decoded : decode s.codec srv.methodUrl msg with
    | mk codec frame =>
        cases frame with
        | none => exact List.forall₂_refl _
        | some frame =>
            refine handleFrame_turn srv { s with codec := codec } frame.1 frame.2 ?_
            intro sub same empty small
            simp [opens, decoded, same, small, show s.slot.isNone = true from empty] at closed

theorem pull_turn {srv : Config} {t t' : Task} (h : pull srv t = some t') : t.Turn t' := by
  unfold pull at h
  split at h
  · split at h
    · split at h <;> (cases h; exact Caller.Turn.stays rfl rfl rfl id)
    · cases h
  · cases h

/-- An open frame is accepted in the event. -/
def Conn.accepts (srv : Config) (s : Conn) : Event → Bool
  | .receive msg => opens srv s msg
  | _ => false

/-- A step that opens nothing takes every stream on by a turn. -/
theorem step_turn {srv : Config} {s s' : Conn} {e : Event} (h : step srv s e = some s')
    (closed : s.accepts srv e = false) : List.Forall₂ Task.Turn s.tasks s'.tasks := by
  cases e with
  | receive msg =>
      simp only [step, Option.ite_none_right_eq_some, Option.some.injEq] at h
      obtain ⟨_, rfl⟩ := h
      exact receive_turn closed
  | hangup =>
      simp only [step, Option.ite_none_right_eq_some, Option.some.injEq] at h
      obtain ⟨_, rfl⟩ := h
      exact abortStream_turn s
  | flush sent =>
      obtain ⟨_, _, queue, _, _, rfl⟩ | ⟨_, queue, _, _, rfl⟩ := flush_some h
      · exact List.forall₂_refl _
      · exact dropStream_turn { s with queue := queue }
  | feed =>
      obtain ⟨_, rfl | ⟨i, payload, rfl⟩⟩ := feed_some h
      · exact List.forall₂_refl _
      · exact modifyTask_turn s _ fun t => Caller.Turn.stays rfl rfl rfl id
  | giveUp =>
      obtain ⟨rfl, _⟩ := giveUp_eq h
      exact List.forall₂_refl _
  | write =>
      obtain ⟨_, _, _, _, rfl⟩ := write_some h
      exact List.forall₂_refl _
  | writeFail | drain | unwatch =>
      simp only [step, Option.ite_none_right_eq_some, Option.some.injEq] at h
      obtain ⟨_, rfl⟩ := h
      exact List.forall₂_refl _
  | sendAway sent =>
      simp only [step, Option.ite_none_right_eq_some, sendAway, Option.map_eq_some_iff] at h
      obtain ⟨_, queue, _, rfl⟩ := h
      exact List.forall₂_refl _
  | run i act =>
      obtain ⟨t, t', _, found, moved, rfl⟩ := step_run h
      exact forall₂_set found (runStream_turn moved)
  | pull i => exact stepTask_turn (fun t t' turns => pull_turn turns) h
  | unmap i =>
      refine stepTask_turn (fun t t' turns => ?_) h
      simp only [Option.ite_none_right_eq_some, Option.some.injEq] at turns
      obtain ⟨_, rfl⟩ := turns
      exact Caller.Turn.stays rfl rfl rfl id

/-- The stream an accepted open frame adds. -/
theorem receive_of_opens {srv : Config} {s : Conn} {msg : Inbound} (opened : opens srv s msg = true) :
    ∃ codec sub json, receive srv s msg =
      { s with codec := codec, tasks := s.tasks ++ [spawn srv sub json],
               slot := some s.tasks.length, streamOpen := true } := by
  simp only [opens, Bool.and_eq_true, Option.any_eq_true] at opened
  obtain ⟨empty, ⟨kind, json⟩, decoded, fits⟩ := opened
  cases kind with
  | subscribe sub =>
      simp only [decide_eq_true_eq] at fits
      refine ⟨(decode s.codec srv.methodUrl msg).1, sub, json, ?_⟩
      have other : msg ≠ .close := by
        rintro rfl
        simp [decode] at decoded
      have free : s.slot = none := Option.isNone_iff_eq_none.mp empty
      simp [receive, other, decoded, handleFrame, free, fits]
  | _ => simp at fits

theorem abortStream_watcher (s : Conn) : s.abortStream.watcher = s.watcher := by
  unfold Conn.abortStream
  split <;> rfl

theorem dropStream_watcher (s : Conn) : s.dropStream.watcher = s.watcher := by
  unfold Conn.dropStream
  split
  · rfl
  · exact abortStream_watcher s

theorem handleFrame_watcher (srv : Config) (s : Conn) (kind : Kind) (json : Bool) :
    (handleFrame srv s kind json).watcher = s.watcher := by
  cases kind with
  | subscribe sub =>
      simp only [handleFrame]
      split
      · rfl
      · split <;> rfl
  | message payload =>
      simp only [handleFrame]
      split
      · rfl
      · split
        · split <;> rfl
        · rfl
  | halfClose =>
      simp only [handleFrame]
      split <;> rfl
  | reset code message => exact dropStream_watcher s
  | trailer code message trailers => rfl
  | header headers => rfl

/-- The watcher queues the 1001 in one step, and has nothing left to do behind it. -/
theorem step_sent {srv : Config} {s s' : Conn} {e : Event} (h : step srv s e = some s') :
    (s'.watcher = .sent ∧ e = .sendAway true) ∨ (s'.watcher = .sent ↔ s.watcher = .sent) := by
  have same : s'.watcher = s.watcher → (s'.watcher = .sent ↔ s.watcher = .sent) := by
    intro same
    rw [same]
  cases e with
  | receive msg =>
      simp only [step, Option.ite_none_right_eq_some, Option.some.injEq] at h
      obtain ⟨_, rfl⟩ := h
      refine .inr (same ?_)
      unfold receive
      split
      · exact abortStream_watcher s
      · dsimp only
        split
        · exact handleFrame_watcher srv _ _ _
        · rfl
  | hangup =>
      simp only [step, Option.ite_none_right_eq_some, Option.some.injEq] at h
      obtain ⟨_, rfl⟩ := h
      exact .inr (same (abortStream_watcher s))
  | flush sent =>
      obtain ⟨_, _, queue, _, _, rfl⟩ | ⟨_, queue, _, _, rfl⟩ := flush_some h
      · exact .inr (same rfl)
      · exact .inr (same (dropStream_watcher { s with queue := queue }))
  | feed =>
      obtain ⟨_, rfl | ⟨i, payload, rfl⟩⟩ := feed_some h
      · exact .inr (same rfl)
      · exact .inr (same rfl)
  | giveUp =>
      obtain ⟨rfl, _⟩ := giveUp_eq h
      exact .inr (same rfl)
  | write =>
      obtain ⟨_, _, _, _, rfl⟩ := write_some h
      exact .inr (same rfl)
  | writeFail =>
      simp only [step, Option.ite_none_right_eq_some, Option.some.injEq] at h
      obtain ⟨_, rfl⟩ := h
      exact .inr (same rfl)
  | drain =>
      simp only [step, Option.ite_none_right_eq_some, Option.some.injEq] at h
      obtain ⟨waiting, rfl⟩ := h
      refine .inr ?_
      unfold observeDrain
      split <;> simp [waiting]
  | unwatch =>
      simp only [step, Option.ite_none_right_eq_some, Option.some.injEq] at h
      obtain ⟨⟨waiting, _⟩, rfl⟩ := h
      exact .inr (by simp [waiting])
  | sendAway sent =>
      simp only [step, Option.ite_none_right_eq_some, sendAway, Option.map_eq_some_iff] at h
      obtain ⟨sending, queue, _, rfl⟩ := h
      cases sent with
      | true => exact .inl ⟨rfl, rfl⟩
      | false => exact .inr (by simp [sending])
  | run i act =>
      obtain ⟨_, _, _, _, _, rfl⟩ := step_run h
      exact .inr (same rfl)
  | pull i | unmap i =>
      obtain ⟨t, _, rfl⟩ := Option.map_eq_some_iff.mp h
      exact .inr (same rfl)

/-- The 1001 is queued in the event. -/
def Event.isSent : Event → Bool
  | .sendAway sent => sent
  | _ => false

theorem step_seen {srv : Config} {s s' : Conn} {e : Event} (h : step srv s e = some s') :
    decide (s'.watcher = .sent) = (e.isSent || decide (s.watcher = .sent)) := by
  rcases step_sent h with ⟨now, rfl⟩ | same
  · simp [now, Event.isSent]
  · cases sent : e.isSent with
    | false => simp [same]
    | true =>
        cases e with
        | sendAway queued =>
            cases sent
            simp only [step, Option.ite_none_right_eq_some, sendAway, Option.map_eq_some_iff] at h
            obtain ⟨_, queue, _, rfl⟩ := h
            rfl
        | _ => cases sent

theorem step_sees {srv : Config} {s s' : Conn} {e : Event} (h : step srv s e = some s')
    (sent : e.isSent = true) : s'.tasks = s.tasks := by
  cases e with
  | sendAway queued =>
      simp only [step, Option.ite_none_right_eq_some, sendAway, Option.map_eq_some_iff] at h
      obtain ⟨_, queue, _, rfl⟩ := h
      rfl
  | _ => cases sent

theorem step_accepts {srv : Config} {s s' : Conn} {e : Event} (h : step srv s e = some s')
    (opened : s.accepts srv e = true) :
    e.isSent = false ∧ s'.tasks.map Task.caller = s.tasks.map Task.caller ++ [⟨true, false, true, true⟩] := by
  cases e with
  | receive msg =>
      simp only [step, Option.ite_none_right_eq_some, Option.some.injEq] at h
      obtain ⟨_, rfl⟩ := h
      obtain ⟨codec, sub, json, spawned⟩ := receive_of_opens opened
      refine ⟨rfl, ?_⟩
      rw [spawned, List.map_append]
      rfl
  | _ => cases opened

theorem dispatched_callers (s : Conn) : (s.tasks.map Task.caller).countP Caller.called = s.dispatched :=
  List.countP_map

theorem step_of_runStream {srv : Config} {s : Conn} {i : Nat} {act : Act} {t t' : Task}
    (found : s.tasks[i]? = some t) (moved : runStream srv s t act = some (t', s.queue)) :
    step srv s (.run i act) = some { s with tasks := s.tasks.set i t' } := by
  simp only [step, found, moved, Option.map_some]

/-- A stream that is still to call can call. -/
theorem calls_later (srv : Config) {s : Conn} {c : Caller} (inside : c ∈ s.tasks.map Task.caller)
    (waits : c.yetToCall = true) (idle : c.idle = true) :
    ∃ after s', Machine.run (step srv) s after = some s' ∧ s.dispatched < s'.dispatched := by
  obtain ⟨t, member, rfl⟩ := List.mem_map.mp inside
  rw [yetToCall_caller] at waits
  have pending : t.pending = [] := List.isEmpty_iff.mp idle
  obtain ⟨i, found⟩ := List.mem_iff_getElem?.mp member
  have inside : i < s.tasks.length := (List.getElem?_eq_some_iff.mp found).1
  simp only [Task.yetToCall, Bool.and_eq_true, Bool.not_eq_true'] at waits
  cases point : t.point with
  | starting =>
      have checked : step srv s (.run i (.checked none)) =
          some { s with tasks := s.tasks.set i { t with point := .dispatching } } :=
        step_of_runStream found (by simp only [runStream, pending, point])
      have called : step srv { s with tasks := s.tasks.set i { t with point := .dispatching } }
          (.run i .dispatch) =
          some { s with tasks := s.tasks.set i { t with called := true, point := .awaiting } } := by
        refine (step_of_runStream (t := { t with point := .dispatching }) (by simp [inside])
          (by simp only [runStream, pending]; rfl)).trans ?_
        simp only [List.set_set, pending]
      have ran : Machine.run (step srv) s [.run i (.checked none), .run i .dispatch] =
          some { s with tasks := s.tasks.set i { t with called := true, point := .awaiting } } := by
        rw [Machine.run_cons checked, Machine.run_cons called, Machine.run_nil]
      exact ⟨_, _, ran, countP_set_called found waits.2 rfl⟩
  | dispatching =>
      have called : step srv s (.run i .dispatch) =
          some { s with tasks := s.tasks.set i { t with called := true, point := .awaiting } } :=
        step_of_runStream found (by simp only [runStream, pending, point])
      exact ⟨[.run i .dispatch], _, (Machine.run_cons called).trans (Machine.run_nil _),
        countP_set_called found waits.2 rfl⟩
  | _ => simp [point, Point.early] at waits

/-- The Go connection, as the drain concerns it. -/
def toDraining (srv : Config) : Draining Conn Event where
  step := step srv
  callers s := s.tasks.map Task.caller
  seen s := s.watcher = .sent
  sees := Event.isSent
  opens := Conn.accepts srv
  step_seen := step_seen
  step_sees h sent := by rw [step_sees h sent]
  step_turn h closed := by
    rw [List.forall₂_map_left_iff, List.forall₂_map_right_iff]
    exact step_turn h closed
  step_opens := step_accepts
  calls inside waits idle := by
    simp only [dispatched_callers]
    exact calls_later srv inside waits idle

theorem hushes_eq (srv : Config) (s : Conn) (e : Event) : hushes srv s e = (toDraining srv).hushes s e := by
  cases e with
  | sendAway queued =>
      cases queued with
      | true => simp [hushes, Draining.hushes, toDraining, Event.isSent, yetToCall_caller, Function.comp_def]
      | false => simp [hushes, Draining.hushes, toDraining, Event.isSent, Conn.accepts]
  | receive msg => rfl
  | _ => simp [hushes, Draining.hushes, toDraining, Event.isSent, Conn.accepts]

end GoServer

/-- A connection that has seen the drain calls the backend no more, in every run in
which the drain is seen when no stream is still to make its call and no open frame is
accepted behind it. For the Go connection the drain counts as seen once the 1001 is
queued. A step against the condition leaves a connection that can still call. -/
theorem no_call_after_hushed_drain (json : Option Bool) :
    (∀ (srv : RustServer.Config) (before after : List RustServer.Event)
      (s t : RustServer.Conn),
      Machine.Along (RustServer.step srv) (fun s e => RustServer.hushes srv s e = true)
        (.init json) (before ++ after) →
      Machine.run (RustServer.step srv) (.init json) before = some s → s.draining = true →
      Machine.run (RustServer.step srv) s after = some t → t.dispatched = s.dispatched) ∧
    (∀ (srv : RustServer.Config) (before : List RustServer.Event)
      (s s' : RustServer.Conn) (e : RustServer.Event),
      Machine.run (RustServer.step srv) (.init json) before = some s →
      RustServer.step srv s e = some s' → RustServer.hushes srv s e = false →
      s'.draining = true ∧ ∃ after t, Machine.run (RustServer.step srv) s' after = some t ∧
        s'.dispatched < t.dispatched) ∧
    (∀ (srv : GoServer.Config) (before after : List GoServer.Event)
      (s t : GoServer.Conn),
      Machine.Along (GoServer.step srv) (fun s e => GoServer.hushes srv s e = true)
        (.init json) (before ++ after) →
      Machine.run (GoServer.step srv) (.init json) before = some s → s.watcher = .sent →
      Machine.run (GoServer.step srv) s after = some t → t.dispatched = s.dispatched) ∧
    (∀ (srv : GoServer.Config) (before : List GoServer.Event)
      (s s' : GoServer.Conn) (e : GoServer.Event),
      Machine.run (GoServer.step srv) (.init json) before = some s →
      GoServer.step srv s e = some s' → GoServer.hushes srv s e = false →
      s'.watcher = .sent ∧ ∃ after t, Machine.run (GoServer.step srv) s' after = some t ∧
        s'.dispatched < t.dispatched) := by
  refine ⟨?_, ?_, ?_, ?_⟩
  · intro srv before after s t quiet first draining h
    simp only [RustServer.hushes_eq] at quiet
    have same := Draining.run_hushed (m := RustServer.toDraining srv) rfl quiet first draining h
    rwa [← RustServer.dispatched_callers, ← RustServer.dispatched_callers]
  · intro srv before s s' e first h loud
    rw [RustServer.hushes_eq] at loud
    obtain ⟨draining, after, t, ran, more⟩ :=
      Draining.call_of_not_hushes (m := RustServer.toDraining srv) rfl first h loud
    refine ⟨draining, after, t, ran, ?_⟩
    rwa [← RustServer.dispatched_callers, ← RustServer.dispatched_callers]
  · intro srv before after s t quiet first sent h
    simp only [GoServer.hushes_eq] at quiet
    have same := Draining.run_hushed (m := GoServer.toDraining srv) rfl quiet first (decide_eq_true sent) h
    rwa [← GoServer.dispatched_callers, ← GoServer.dispatched_callers]
  · intro srv before s s' e first h loud
    rw [GoServer.hushes_eq] at loud
    obtain ⟨sent, after, t, ran, more⟩ :=
      Draining.call_of_not_hushes (m := GoServer.toDraining srv) rfl first h loud
    refine ⟨of_decide_eq_true sent, after, t, ran, ?_⟩
    rwa [← GoServer.dispatched_callers, ← GoServer.dispatched_callers]

/-- The stream makes its call, the drain is seen, and behind a Reset the next open frame
is accepted. -/
def rustDrained : List RustServer.Event × List RustServer.Event :=
  ([.receive openFrame, .wake 0, .run 0 .call, .park 0, .drain],
    [.receive resetMessage, .receive openFrame, .wake 1, .run 1 .call])

/-- The watcher finds no stream; the first open frame is handled behind its queued
Close. -/
def goDrained : List GoServer.Event × List GoServer.Event :=
  ([.drain, .sendAway true], [.receive openFrame, .run 0 (.checked none), .run 0 .dispatch])

/-- Both servers call the backend on a socket that has seen the drain. -/
theorem call_after_drain :
    (∃ s t, Machine.run (RustServer.step smallRust) (.init none) rustDrained.1 = some s ∧
      s.draining = true ∧ s.dispatched = 1 ∧
      Machine.run (RustServer.step smallRust) s rustDrained.2 = some t ∧ t.dispatched = 2) ∧
    (∃ s t, Machine.run (GoServer.step smallGo) (.init none) goDrained.1 = some s ∧
      closeGoingAway ∈ s.queue ∧ s.dispatched = 0 ∧
      Machine.run (GoServer.step smallGo) s goDrained.2 = some t ∧ t.dispatched = 1) :=
  ⟨⟨_, _, rfl, by decide, by decide, rfl, by decide⟩,
    ⟨_, _, rfl, by decide, by decide, rfl, by decide⟩⟩

/-- Up to the last open frame both runs meet the condition; that frame does not. -/
theorem drained_until_the_last_open :
    (∃ s t, Machine.run (RustServer.step smallRust) (.init none) rustDrained.1 = some s ∧
      Machine.run (RustServer.step smallRust) s [.receive resetMessage] = some t ∧
      t.dispatched = s.dispatched) ∧
    (∃ s', Machine.run (RustServer.step smallRust) (.init none)
        (rustDrained.1 ++ [.receive resetMessage, .receive openFrame]) = some s' ∧
      s'.draining = true ∧ ∃ after t, Machine.run (RustServer.step smallRust) s' after = some t ∧
        s'.dispatched < t.dispatched) ∧
    (∃ s t, Machine.run (GoServer.step smallGo) (.init none) goDrained.1 = some s ∧
      Machine.run (GoServer.step smallGo) s [.write] = some t ∧ t.dispatched = s.dispatched) ∧
    (∃ s', Machine.run (GoServer.step smallGo) (.init none)
        (goDrained.1 ++ [.receive openFrame]) = some s' ∧
      s'.watcher = .sent ∧ ∃ after t, Machine.run (GoServer.step smallGo) s' after = some t ∧
        s'.dispatched < t.dispatched) := by
  obtain ⟨rust, rustLoud, go, goLoud⟩ := no_call_after_hushed_drain none
  refine ⟨⟨_, _, rfl, rfl, ?_⟩, ⟨_, rfl, ?_⟩, ⟨_, _, rfl, rfl, ?_⟩, ⟨_, rfl, ?_⟩⟩
  · exact rust smallRust rustDrained.1 [.receive resetMessage] _ _ (by decide) rfl rfl rfl
  · exact rustLoud smallRust (rustDrained.1 ++ [.receive resetMessage]) _ _
      (.receive openFrame) rfl rfl (by decide)
  · exact go smallGo goDrained.1 [.write] _ _ (by decide) rfl rfl rfl
  · exact goLoud smallGo goDrained.1 _ _ (.receive openFrame) rfl rfl (by decide)

end GrpcWebnext.Ws
