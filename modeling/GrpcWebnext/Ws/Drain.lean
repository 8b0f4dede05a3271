import GrpcWebnext.Ws.GoOutbound
import GrpcWebnext.Ws.OneCall

/-! Draining: which streams a connection may still open, and dispatch, once it has
seen the server shut down. -/
namespace GrpcWebnext.Ws

namespace RustServer

/-- A read loop on its way out stays on its way out, and opens nothing any more. -/
theorem step_leaving {srv : Config} {s s' : Conn} {e : Event} (leaving : s.reader.leaving = true)
    (h : step srv s e = some s') :
    s'.reader.leaving = true ∧ s'.tasks.length = s.tasks.length := by
  have busy : s.reader ≠ .ready := by
    intro ready
    rw [ready] at leaving
    cases leaving
  rcases step_cases h with keeps | ⟨msg, _, accepts⟩
  · refine ⟨?_, keeps.length⟩
    cases e with
    | receive msg => simp [step, busy] at h
    | hangup => simp [step, busy] at h
    | drain => simp [step, busy] at h
    | flush =>
        obtain ⟨out, rest, thenEnd, queue, reads, _, moved⟩ := flush_some h
        rw [reads] at leaving
        have ends : thenEnd = true := leaving
        rcases moved with ⟨_, _, rfl⟩ | ⟨_, stays, _⟩ | ⟨_, rfl⟩
        · rfl
        · rw [ends] at stays
          cases stays
        · exact leaving
    | feed =>
        obtain ⟨⟨payload, reads⟩, _⟩ := feed_some h
        rw [reads] at leaving
        cases leaving
    | write =>
        obtain ⟨_, _, _, _, rfl⟩ := write_some h
        exact leaving
    | writeFail =>
        simp only [step, Option.ite_none_right_eq_some, Option.some.injEq] at h
        obtain ⟨_, rfl⟩ := h
        exact leaving
    | run i act =>
        obtain ⟨_, _, _, _, _, _, rfl⟩ := step_run h
        exact leaving
    | wake i | park i | reap i | pull i | dropBody i =>
        obtain ⟨t, _, rfl⟩ := Option.map_eq_some_iff.mp h
        exact leaving
  · exact absurd accepts.reader busy

theorem run_leaving {srv : Config} {s s' : Conn} {es : List Event} (leaving : s.reader.leaving = true)
    (h : Machine.run (step srv) s es = some s') : s'.tasks.length = s.tasks.length := by
  have both : s'.reader.leaving = true ∧ s'.tasks.length = s.tasks.length :=
    Machine.run_invariant (I := fun c => c.reader.leaving = true ∧ c.tasks.length = s.tasks.length)
      (fun c e c' inv moved => by
        obtain ⟨stays, length⟩ := step_leaving inv.1 moved
        exact ⟨stays, length.trans inv.2⟩) ⟨leaving, rfl⟩ h
  exact both.2

theorem handleFrame_draining (srv : Config) (s : Conn) (kind : Kind) (json : Bool) :
    (handleFrame srv s kind json).draining = s.draining := by
  cases kind with
  | subscribe sub =>
      simp only [handleFrame]
      split
      · rfl
      · split
        · rfl
        · split <;> rfl
  | message payload =>
      simp only [handleFrame]
      split
      · exact dropStream_draining s
      · split
        · split <;> rfl
        · rfl
  | halfClose =>
      simp only [handleFrame]
      split <;> rfl
  | reset code message => exact dropStream_draining s
  | trailer code message trailers => rfl
  | header headers => rfl

/-- The flag is set in the drain branch and nowhere else. -/
theorem step_draining {srv : Config} {s s' : Conn} {e : Event} (h : step srv s e = some s')
    (other : e ≠ .drain) : s'.draining = s.draining := by
  cases e with
  | drain => exact absurd rfl other
  | receive msg =>
      simp only [step, Option.ite_none_right_eq_some, Option.some.injEq] at h
      obtain ⟨_, rfl⟩ := h
      unfold receive
      split
      · exact dropStream_draining s
      · dsimp only
        split
        · exact handleFrame_draining srv _ _ _
        · rfl
  | hangup =>
      simp only [step, Option.ite_none_right_eq_some, Option.some.injEq] at h
      obtain ⟨_, rfl⟩ := h
      exact dropStream_draining s
  | flush =>
      obtain ⟨_, _, _, queue, _, _, ⟨_, _, rfl⟩ | ⟨_, _, rfl⟩ | ⟨_, rfl⟩⟩ := flush_some h
      · exact dropStream_draining { s with queue := queue }
      · rfl
      · rfl
  | feed => obtain ⟨_, rfl | ⟨i, payload, rfl⟩⟩ := feed_some h <;> rfl
  | write =>
      obtain ⟨_, _, _, _, rfl⟩ := write_some h
      rfl
  | writeFail =>
      simp only [step, Option.ite_none_right_eq_some, Option.some.injEq] at h
      obtain ⟨_, rfl⟩ := h
      rfl
  | run i act =>
      obtain ⟨_, _, _, _, _, _, rfl⟩ := step_run h
      rfl
  | wake i | park i | reap i | pull i | dropBody i =>
      obtain ⟨t, _, rfl⟩ := Option.map_eq_some_iff.mp h
      rfl

/-- A connection that has seen the drain has opened its stream, or is on its way out. -/
structure Drained (s : Conn) : Prop where
  streams : OneStream s
  slot : s.slot.isSome = true → s.tasks ≠ []
  seen : s.draining = true → s.tasks ≠ [] ∨ s.reader.leaving = true

theorem Drained.init (json : Option Bool) : Drained (.init json) :=
  ⟨.init json, fun some => absurd some Bool.false_ne_true,
    fun some => absurd some Bool.false_ne_true⟩

theorem ne_nil_of_length {tasks tasks' : List Task} (length : tasks'.length = tasks.length)
    (some : tasks ≠ []) : tasks' ≠ [] := by
  rintro rfl
  exact some (List.length_eq_zero_iff.mp length.symm)

theorem Drained.step {srv : Config} {s s' : Conn} {e : Event} (inv : Drained s)
    (once : reopens srv s e = false) (h : step srv s e = some s') : Drained s' := by
  have streams := inv.streams.step once h
  rcases step_cases h with keeps | ⟨msg, rfl, accepts⟩
  · have slot : s'.slot.isSome = true → s'.tasks ≠ [] := by
      intro some
      rcases keeps.slot with same | none
      · exact ne_nil_of_length keeps.length (inv.slot (same ▸ some))
      · rw [none] at some
        cases some
    refine ⟨streams, slot, fun seen => ?_⟩
    by_cases drain : e = .drain
    · subst drain
      simp only [RustServer.step, Option.ite_none_right_eq_some, Option.some.injEq] at h
      obtain ⟨_, rfl⟩ := h
      unfold observeDrain
      split
      · exact .inr rfl
      · rename_i taken
        refine .inl (inv.slot ?_)
        cases slot : s.slot with
        | none => simp [slot] at taken
        | some i => rfl
    · rw [step_draining h drain] at seen
      rcases inv.seen seen with some | leaving
      · exact .inl (ne_nil_of_length keeps.length some)
      · exact .inr (step_leaving leaving h).1
  · obtain ⟨codec, sub, json, _, rfl, _, _⟩ := accepts.spawned
    exact ⟨streams, fun _ => by simp, fun _ => .inl (by simp)⟩

/-- Once the flag is set, no stream is opened any more. -/
theorem Drained.length {srv : Config} {s s' : Conn} {e : Event} (inv : Drained s)
    (seen : s.draining = true) (once : reopens srv s e = false) (h : RustServer.step srv s e = some s') :
    s'.draining = true ∧ s'.tasks.length = s.tasks.length := by
  have stays : s'.draining = true := by
    by_cases drain : e = .drain
    · subst drain
      simp [RustServer.step, seen] at h
    · rw [step_draining h drain, seen]
  rcases step_cases h with keeps | ⟨msg, rfl, accepts⟩
  · exact ⟨stays, keeps.length⟩
  · have none := accepts.first inv.streams once
    rcases inv.seen seen with some | leaving
    · exact absurd none some
    · rw [accepts.reader] at leaving
      cases leaving

theorem run_drained {srv : Config} {s s' : Conn} {es : List Event} (inv : Drained s)
    (seen : s.draining = true)
    (once : Machine.Along (RustServer.step srv) (fun s e => reopens srv s e = false) s es)
    (h : Machine.run (RustServer.step srv) s es = some s') : s'.tasks.length = s.tasks.length := by
  have all : Drained s' ∧ s'.draining = true ∧ s'.tasks.length = s.tasks.length :=
    Machine.run_invariant_along
      (I := fun c => Drained c ∧ c.draining = true ∧ c.tasks.length = s.tasks.length)
      (fun c e c' inv once moved => by
        obtain ⟨drained, seen, length⟩ := inv
        obtain ⟨seen', length'⟩ := drained.length seen once moved
        exact ⟨drained.step once moved, seen', length'.trans length⟩) ⟨inv, seen, rfl⟩ once h
  exact all.2.2

end RustServer

namespace GoServer

/-- No stream is lost, and none that was aborted comes back. -/
def Grows (tasks tasks' : List Task) : Prop :=
  ∀ (i : Nat) (t' : Task), tasks'[i]? = some t' →
    ∃ t : Task, tasks[i]? = some t ∧ (t.aborted = true → t'.aborted = true)

theorem Grows.refl (tasks : List Task) : Grows tasks tasks := fun _ t found => ⟨t, found, id⟩

theorem Grows.modify (tasks : List Task) (k : Nat) {f : Task → Task}
    (stays : ∀ t, t.aborted = true → (f t).aborted = true) : Grows tasks (tasks.modify k f) := by
  intro i t' found
  rw [List.getElem?_modify] at found
  obtain ⟨t, before, same⟩ := Option.map_eq_some_iff.mp found
  refine ⟨t, before, fun aborted => ?_⟩
  split at same
  · exact same ▸ stays t aborted
  · exact same ▸ aborted

theorem Grows.set {tasks : List Task} {k : Nat} {t t' : Task} (here : tasks[k]? = some t)
    (stays : t.aborted = true → t'.aborted = true) : Grows tasks (tasks.set k t') := by
  intro i other found
  rw [List.getElem?_set] at found
  split at found
  · subst ‹k = i›
    split at found
    · cases found
      exact ⟨t, here, stays⟩
    · cases found
  · exact ⟨other, found, id⟩

/-- What a step other than an accepted open does to the streams: it keeps the slot, or
aborts the stream in it and empties it. -/
inductive Handles (s s' : Conn) : Prop
  | keeps (tasks : Grows s.tasks s'.tasks) (slot : s'.slot = s.slot)
      (open_ : s'.streamOpen = s.streamOpen)
  | drops (i : Nat) (tasks : Grows s.tasks s'.tasks) (slot : s.slot = some i)
      (empty : s'.slot = none) (aborted : ∀ t', s'.tasks[i]? = some t' → t'.aborted = true)

theorem Handles.dropStream (s : Conn) : Handles s s.dropStream := by
  unfold Conn.dropStream Conn.abortStream
  split
  · exact .keeps (.refl _) rfl rfl
  · rename_i i slot
    refine .drops i (.modify _ _ fun _ _ => rfl) slot rfl fun t' found => ?_
    simp only [Conn.modifyTask, List.getElem?_modify] at found
    obtain ⟨t, _, same⟩ := Option.map_eq_some_iff.mp found
    rw [if_pos trivial] at same
    exact same ▸ rfl

theorem Handles.finish (s : Conn) : Handles s s.finish := by
  unfold Conn.finish Conn.abortStream
  split
  · exact .keeps (.refl _) rfl rfl
  · exact .keeps (.modify _ _ fun _ _ => rfl) rfl rfl

theorem runStream_aborted {srv : Config} {s : Conn} {t t' : Task} {act : Act} {queue : List Out}
    (h : runStream srv s t act = some (t', queue)) : t'.aborted = t.aborted := by
  unfold runStream at h
  split at h
  case h_2 | h_10 =>
      simp only [Option.ite_none_right_eq_some, Option.some.injEq, Prod.mk.injEq] at h
      obtain ⟨_, rfl, _⟩ := h
      rfl
  case h_6 =>
      split at h
      split at h <;> (cases h; rfl)
  case h_8 => split at h <;> (cases h; rfl)
  case h_9 out rest _ =>
      have settled : ∀ t : Task, (settle t).aborted = t.aborted := by
        intro t
        unfold settle
        split <;> rfl
      have failed : (sendFailed t out rest).aborted = t.aborted := by
        unfold sendFailed
        split
        · exact settled _
        · exact settled _
        · rfl
      split at h
      · cases h
        exact failed
      · obtain ⟨queued, _, same⟩ := Option.map_eq_some_iff.mp h
        cases same
        split
        · exact settled _
        · exact failed
  case h_11 => cases h
  all_goals (cases h; rfl)

theorem pull_aborted {srv : Config} {t t' : Task} (h : pull srv t = some t') :
    t'.aborted = t.aborted := by
  unfold pull at h
  split at h
  · split at h
    · split at h <;> (cases h; rfl)
    · cases h
  · cases h

theorem Handles.stepTask {s s' : Conn} {i : Nat} {f : Task → Option Task}
    (stays : ∀ t t', f t = some t' → t'.aborted = t.aborted) (h : s.stepTask i f = some s') :
    Handles s s' := by
  obtain ⟨t', moved, rfl⟩ := Option.map_eq_some_iff.mp h
  obtain ⟨t, found, moved⟩ := Option.bind_eq_some_iff.mp moved
  exact .keeps (.set found fun aborted => by rw [stays t t' moved, aborted]) rfl rfl

theorem handleFrame_handles (srv : Config) (s : Conn) (kind : Kind) (json : Bool) :
    Handles s (handleFrame srv s kind json) ∨
      ∃ sub, kind = .subscribe sub ∧ s.slot = none ∧
        handleFrame srv s kind json =
          { s with tasks := s.tasks ++ [spawn srv sub json], slot := some s.tasks.length,
                   streamOpen := true } := by
  cases kind with
  | subscribe sub =>
      simp only [handleFrame]
      split
      · exact .inl (.keeps (.refl _) rfl rfl)
      · split
        · exact .inl (.keeps (.refl _) rfl rfl)
        · refine .inr ⟨sub, rfl, ?_, rfl⟩
          simpa using ‹¬ s.slot.isSome = true›
  | message payload =>
      simp only [handleFrame]
      split
      · exact .inl (.keeps (.refl _) rfl rfl)
      · split
        · split <;> exact .inl (.keeps (.refl _) rfl rfl)
        · exact .inl (.keeps (.refl _) rfl rfl)
  | halfClose =>
      simp only [handleFrame]
      split
      · exact .inl (.keeps (.modify _ _ fun _ aborted => aborted) rfl rfl)
      · exact .inl (.keeps (.refl _) rfl rfl)
  | reset code message => exact .inl (.dropStream s)
  | trailer code message trailers => exact .inl (.keeps (.refl _) rfl rfl)
  | header headers => exact .inl (.keeps (.refl _) rfl rfl)

/-- An open frame was accepted. -/
def Opens (s s' : Conn) : Prop :=
  s.slot = none ∧ s'.slot = some s.tasks.length ∧ s'.streamOpen = true ∧
    ∃ t, s'.tasks = s.tasks ++ [t]

theorem step_handles {srv : Config} {s s' : Conn} {e : Event} (h : step srv s e = some s') :
    Handles s s' ∨ Opens s s' := by
  cases e with
  | receive msg =>
      simp only [step, Option.ite_none_right_eq_some, Option.some.injEq] at h
      obtain ⟨_, rfl⟩ := h
      unfold receive
      split
      · exact .inl (.finish s)
      · dsimp only
        split
        · rename_i kind json _
          rcases handleFrame_handles srv { s with codec := (decode s.codec srv.methodUrl msg).1 }
            kind json with (⟨tasks, slot, open_⟩ | ⟨i, tasks, slot, empty, aborted⟩) |
              ⟨sub, _, empty, spawned⟩
          · exact .inl (.keeps tasks slot open_)
          · exact .inl (.drops i tasks slot empty aborted)
          · rw [spawned]
            exact .inr ⟨empty, rfl, rfl, _, rfl⟩
        · exact .inl (.keeps (.refl _) rfl rfl)
  | hangup =>
      simp only [step, Option.ite_none_right_eq_some, Option.some.injEq] at h
      obtain ⟨_, rfl⟩ := h
      exact .inl (.finish s)
  | flush sent =>
      obtain ⟨_, _, queue, _, _, rfl⟩ | ⟨_, queue, _, _, rfl⟩ := flush_some h
      · exact .inl (.keeps (.refl _) rfl rfl)
      · rcases Handles.dropStream { s with queue := queue } with ⟨tasks, slot, open_⟩ |
          ⟨i, tasks, slot, empty, aborted⟩
        · exact .inl (.keeps tasks slot open_)
        · exact .inl (.drops i tasks slot empty aborted)
  | feed =>
      obtain ⟨_, rfl | ⟨i, payload, rfl⟩⟩ := feed_some h
      · exact .inl (.keeps (.refl _) rfl rfl)
      · exact .inl (.keeps (.modify _ _ fun _ aborted => aborted) rfl rfl)
  | giveUp =>
      obtain ⟨rfl, _⟩ := giveUp_eq h
      exact .inl (.keeps (.refl _) rfl rfl)
  | write =>
      obtain ⟨_, _, _, _, rfl⟩ := write_some h
      exact .inl (.keeps (.refl _) rfl rfl)
  | writeFail | drain | unwatch =>
      simp only [step, Option.ite_none_right_eq_some, Option.some.injEq] at h
      obtain ⟨_, rfl⟩ := h
      exact .inl (.keeps (.refl _) rfl rfl)
  | sendAway sent =>
      simp only [step, Option.ite_none_right_eq_some, sendAway, Option.map_eq_some_iff] at h
      obtain ⟨_, queue, _, rfl⟩ := h
      exact .inl (.keeps (.refl _) rfl rfl)
  | run i act =>
      obtain ⟨t, t', queue, found, moved, rfl⟩ := step_run h
      exact .inl (.keeps (.set found fun aborted => by rw [runStream_aborted moved, aborted]) rfl rfl)
  | pull i => exact .inl (.stepTask (fun t t' moved => pull_aborted moved) h)
  | unmap i =>
      refine .inl (.stepTask (fun t t' moved => ?_) h)
      simp only [Option.ite_none_right_eq_some, Option.some.injEq] at moved
      obtain ⟨_, rfl⟩ := moved
      rfl

/-- Every stream that is not in the slot has been aborted, and the flag the drain
watcher reads is only lowered when the slot is empty. -/
structure Tracked (s : Conn) : Prop where
  aborted : ∀ (i : Nat) (t : Task), s.tasks[i]? = some t → s.slot ≠ some i → t.aborted = true
  open_ : s.streamOpen = false → s.slot = none

theorem Tracked.init (json : Option Bool) : Tracked (.init json) :=
  ⟨fun i t found => by simp [Conn.init] at found, fun _ => rfl⟩

theorem Tracked.step {srv : Config} {s s' : Conn} {e : Event} (inv : Tracked s)
    (h : step srv s e = some s') : Tracked s' := by
  rcases step_handles h with (⟨tasks, slot, open_⟩ | ⟨i, tasks, slot, empty, aborted⟩) |
    ⟨empty, slot, open_, t, spawned⟩
  · refine ⟨fun i t' found other => ?_, fun closed => ?_⟩
    · obtain ⟨t, before, stays⟩ := tasks i t' found
      rw [slot] at other
      exact stays (inv.aborted i t before other)
    · rw [slot]
      exact inv.open_ (open_ ▸ closed)
  · refine ⟨fun k t' found _ => ?_, fun _ => empty⟩
    obtain ⟨t, before, stays⟩ := tasks k t' found
    by_cases same : k = i
    · subst same
      exact aborted t' found
    · refine stays (inv.aborted k t before ?_)
      rw [slot]
      exact fun equal => same (Option.some.inj equal).symm
  · refine ⟨fun k t' found other => ?_, fun closed => ?_⟩
    · rw [slot] at other
      rw [spawned, List.getElem?_append] at found
      split at found
      · exact inv.aborted k t' found (by simp [empty])
      · rename_i beyond
        have last : k - s.tasks.length = 0 := by
          have := (List.getElem?_eq_some_iff.mp found).1
          simp only [List.length_singleton] at this
          omega
        exact absurd (congrArg some (by omega)) other
    · rw [open_] at closed
      cases closed

/-- An aborted stream stays aborted over every run. -/
theorem run_aborted {srv : Config} {s s' : Conn} {es : List Event}
    (h : Machine.run (step srv) s es = some s') {i : Nat} {t t' : Task}
    (before : s.tasks[i]? = some t) (aborted : t.aborted = true) (after : s'.tasks[i]? = some t') :
    t'.aborted = true := by
  have stays : i < s'.tasks.length ∧ ∀ t', s'.tasks[i]? = some t' → t'.aborted = true := by
    refine Machine.run_invariant
      (I := fun c => i < c.tasks.length ∧ ∀ t', c.tasks[i]? = some t' → t'.aborted = true)
      (fun c e c' inv moved => ?_) ⟨(List.getElem?_eq_some_iff.mp before).1, ?_⟩ h
    · obtain ⟨inside, stays⟩ := inv
      have length : c.tasks.length ≤ c'.tasks.length := by
        rcases step_cases moved with keeps | ⟨msg, _, accepts⟩
        · exact Nat.le_of_eq keeps.length.symm
        · obtain ⟨_, _, _, _, rfl, _⟩ := accepts.spawned
          simp
      refine ⟨Nat.lt_of_lt_of_le inside length, fun t' found => ?_⟩
      rcases step_handles moved with (⟨tasks, _, _⟩ | ⟨_, tasks, _, _, _⟩) |
        ⟨_, _, _, new, spawned⟩
      · obtain ⟨t, found', keeps⟩ := tasks i t' found
        exact keeps (stays t found')
      · obtain ⟨t, found', keeps⟩ := tasks i t' found
        exact keeps (stays t found')
      · rw [spawned, List.getElem?_append_left inside] at found
        exact stays t' found
    · intro other found
      rw [before] at found
      cases found
      exact aborted
  exact stays.2 t' after

/-- What a step does to the wire: it queues behind what is there, or writes the first
message of the queue. -/
inductive WireStep (s s' : Conn) : Prop
  | queues (new : List Out) (written : s'.written = s.written) (queue : s'.queue = s.queue ++ new)
      (writing : s'.writing = true → s.writing = true)
  | writes (out : Out) (written : s'.written = s.written ++ [out]) (queue : s.queue = out :: s'.queue)
      (live : s.writing = true) (writing : s'.writing = !out.isClose)

theorem SameWire.step {s s' : Conn} (same : SameWire s s') : WireStep s s' := by
  obtain ⟨written, queue, writing⟩ := same
  exact .queues [] written (by rw [queue, List.append_nil]) fun live => writing ▸ live

theorem push_appends {s : Conn} {out : Out} {sent : Bool} {queue : List Out}
    (h : push s out sent = some queue) : ∃ new, queue = s.queue ++ new := by
  rcases push_cases h with ⟨_, rfl⟩ | rfl
  · exact ⟨[], (List.append_nil _).symm⟩
  · exact ⟨[out], rfl⟩

theorem runStream_appends {srv : Config} {s : Conn} {t t' : Task} {act : Act} {queue : List Out}
    (h : runStream srv s t act = some (t', queue)) : ∃ new, queue = s.queue ++ new := by
  by_cases quiet : ∀ sent, act ≠ .send sent
  · exact ⟨[], by rw [(runStream_moves h quiet).1, List.append_nil]⟩
  · simp only [not_forall, not_not] at quiet
    obtain ⟨sent, rfl⟩ := quiet
    obtain ⟨out, rest, _, ⟨rfl, _⟩ | ⟨rfl, _⟩⟩ := runStream_sends h
    · exact ⟨[out], rfl⟩
    · exact ⟨[], (List.append_nil _).symm⟩

theorem receive_wire (srv : Config) (s : Conn) (msg : Inbound) (ready : s.reader = .ready) :
    SameWire s (receive srv s msg) := by
  unfold receive
  split
  · exact abortStream_wire s
  · dsimp only
    split
    · exact (handleFrame_wire srv
        { s with codec := (decode s.codec srv.methodUrl msg).1 } _ _ ready).1
    · exact ⟨rfl, rfl, rfl⟩

theorem step_wire {srv : Config} {s s' : Conn} {e : Event} (h : step srv s e = some s') :
    WireStep s s' := by
  cases e with
  | receive msg =>
      simp only [step, Option.ite_none_right_eq_some, Option.some.injEq] at h
      obtain ⟨ready, rfl⟩ := h
      exact (receive_wire srv s msg ready).step
  | hangup =>
      simp only [step, Option.ite_none_right_eq_some, Option.some.injEq] at h
      obtain ⟨_, rfl⟩ := h
      exact SameWire.step (abortStream_wire s)
  | flush sent =>
      obtain ⟨out, queue, pushed, written, queued, writing, _⟩ := flush_cases h
      obtain ⟨new, rfl⟩ := push_appends pushed
      exact .queues new written queued fun live => writing ▸ live
  | feed =>
      obtain ⟨_, rfl | ⟨i, payload, rfl⟩⟩ := feed_some h
      · exact SameWire.step ⟨rfl, rfl, rfl⟩
      · exact SameWire.step ⟨rfl, rfl, rfl⟩
  | giveUp =>
      obtain ⟨rfl, _⟩ := giveUp_eq h
      exact SameWire.step ⟨rfl, rfl, rfl⟩
  | write =>
      obtain ⟨out, rest, queue, live, rfl⟩ := write_some h
      exact .writes out rfl queue live rfl
  | writeFail =>
      simp only [step, Option.ite_none_right_eq_some, Option.some.injEq] at h
      obtain ⟨_, rfl⟩ := h
      exact .queues [] rfl (List.append_nil _).symm fun live => absurd live Bool.false_ne_true
  | drain | unwatch =>
      simp only [step, Option.ite_none_right_eq_some, Option.some.injEq] at h
      obtain ⟨_, rfl⟩ := h
      exact SameWire.step ⟨rfl, rfl, rfl⟩
  | sendAway sent =>
      simp only [step, Option.ite_none_right_eq_some, sendAway, Option.map_eq_some_iff] at h
      obtain ⟨_, queue, pushed, rfl⟩ := h
      obtain ⟨new, rfl⟩ := push_appends pushed
      exact .queues new rfl rfl id
  | run i act =>
      obtain ⟨t, t', queue, _, moved, rfl⟩ := step_run h
      obtain ⟨new, rfl⟩ := runStream_appends moved
      exact .queues new rfl rfl id
  | pull i | unmap i =>
      obtain ⟨t, _, rfl⟩ := Option.map_eq_some_iff.mp h
      exact SameWire.step ⟨rfl, rfl, rfl⟩

/-- A queued Close is the last message the connection writes. -/
def ClosesAt (final : List Out) (s : Conn) : Prop :=
  (∃ front close rest, close.isClose = true ∧ s.queue = front ++ close :: rest ∧
    s.written ++ front ++ [close] = final) ∨ (s.written = final ∧ s.writing = false)

theorem ClosesAt.step {srv : Config} {s s' : Conn} {e : Event} {final : List Out}
    (inv : ClosesAt final s) (h : step srv s e = some s') : ClosesAt final s' := by
  rcases step_wire h with ⟨new, written, queue, writing⟩ | ⟨out, written, queue, live, writing⟩
  · rcases inv with ⟨front, close, rest, closes, queued, last⟩ | ⟨last, stopped⟩
    · exact .inl ⟨front, close, rest ++ new, closes, by simp [queue, queued], by rw [written, last]⟩
    · refine .inr ⟨written.trans last, Bool.eq_false_iff.mpr fun live => ?_⟩
      rw [writing live] at stopped
      cases stopped
  · rcases inv with ⟨front, close, rest, closes, queued, last⟩ | ⟨last, stopped⟩
    · rw [queue] at queued
      cases front with
      | nil =>
          cases queued
          exact .inr ⟨by simpa [written] using last, by rw [writing, closes]; rfl⟩
      | cons first front =>
          obtain ⟨rfl, later⟩ := List.cons.inj queued
          exact .inl ⟨front, close, rest, closes, later, by simpa [written] using last⟩
    · rw [live] at stopped
      cases stopped

/-- Nothing queued behind a Close is ever written. -/
theorem run_closesAt {srv : Config} {s s' : Conn} {es : List Event} {code : Nat}
    {reason : Framing.Bytes} {queue : List Out} (closing : s.queue = queue ++ [.close code reason])
    (h : Machine.run (GoServer.step srv) s es = some s') : s'.written <+: s.written ++ s.queue := by
  have closes : ClosesAt (s.written ++ s.queue) s' :=
    Machine.run_invariant (fun _ _ _ inv moved => inv.step moved)
      (.inl ⟨queue, _, [], rfl, closing, by rw [closing, List.append_assoc]⟩) h
  rcases closes with ⟨front, close, rest, _, _, last⟩ | ⟨last, _⟩
  · rw [← last, List.append_assoc]
    exact List.prefix_append _ _
  · exact last ▸ List.prefix_refl _

end GoServer

/-- Draining leaves a live stream alone, and nothing else. A Rust connection that has
seen the drain makes a call only for a stream it accepted before, and an idle one
handles no further frame. The Go watcher gives up a socket only when every stream
opened on it so far has been aborted, and what is queued behind its Close, by a stream
opened in the meantime, is never written. -/
theorem drained_socket_keeps_its_stream :
    (∀ (srv : RustServer.Config) (json : Option Bool) (before after : List RustServer.Event)
      (s t : RustServer.Conn),
      Machine.Along (RustServer.step srv) (fun s e => RustServer.reopens srv s e = false)
        (.init json) (before ++ after) →
      Machine.run (RustServer.step srv) (.init json) before = some s → s.draining = true →
      Machine.run (RustServer.step srv) s after = some t →
      ∀ (i : Nat) (task : RustServer.Task), t.tasks[i]? = some task → task.called = true →
        ∃ task, s.tasks[i]? = some task) ∧
    (∀ (srv : RustServer.Config) (es : List RustServer.Event) (s s' t : RustServer.Conn),
      s.slot = none → RustServer.step srv s .drain = some s' →
      Machine.run (RustServer.step srv) s' es = some t → t.tasks.length = s.tasks.length) ∧
    (∀ (srv : GoServer.Config) (json : Option Bool) (before after : List GoServer.Event)
      (s s' t : GoServer.Conn),
      Machine.run (GoServer.step srv) (.init json) before = some s →
      GoServer.step srv s .drain = some s' → s'.watcher = .sending →
      Machine.run (GoServer.step srv) s' after = some t →
      ∀ (i : Nat) (task : GoServer.Task), t.tasks[i]? = some task → i < s.tasks.length →
        task.aborted = true) ∧
    (∀ (srv : GoServer.Config) (es : List GoServer.Event) (s s' t : GoServer.Conn),
      GoServer.step srv s (.sendAway true) = some s' →
      Machine.run (GoServer.step srv) s' es = some t → t.written <+: s'.written ++ s'.queue) := by
  refine ⟨?_, ?_, ?_, ?_⟩
  · intro srv json before after s t once first seen h i task found _
    obtain ⟨onceBefore, onceAfter⟩ := Machine.along_append once first
    have drained : RustServer.Drained s :=
      Machine.run_invariant_along (fun _ _ _ inv once moved => inv.step once moved)
        (.init json) onceBefore first
    have length := RustServer.run_drained drained seen onceAfter h
    have inside : i < t.tasks.length := (List.getElem?_eq_some_iff.mp found).1
    rw [length] at inside
    exact ⟨s.tasks.get ⟨i, inside⟩, List.getElem?_eq_getElem inside⟩
  · intro srv es s s' t idle drain h
    simp only [RustServer.step, RustServer.observeDrain, idle, Option.isNone_none, if_true,
      Option.ite_none_right_eq_some, Option.some.injEq] at drain
    obtain ⟨_, rfl⟩ := drain
    refine (RustServer.run_leaving ?_ h :)
    rfl
  · intro srv json before after s s' t first drain away h i task found old
    have tracked : GoServer.Tracked s :=
      Machine.run_invariant (fun _ _ _ inv moved => inv.step moved) (.init json) first
    simp only [GoServer.step, GoServer.observeDrain, Option.ite_none_right_eq_some,
      Option.some.injEq] at drain
    obtain ⟨_, rfl⟩ := drain
    have idle : s.streamOpen = false := by
      by_contra busy
      rw [Bool.not_eq_false] at busy
      simp [busy] at away
    have here : s.tasks[i]? = some (s.tasks.get ⟨i, old⟩) := List.getElem?_eq_getElem old
    have aborted := tracked.aborted i _ here (by simp [tracked.open_ idle])
    exact GoServer.run_aborted h here aborted found
  · intro srv es s s' t away h
    simp only [GoServer.step, Option.ite_none_right_eq_some, GoServer.sendAway,
      GoServer.push, if_true, Option.map_eq_some_iff, Option.some.injEq] at away
    obtain ⟨_, queue, ⟨_, rfl⟩, rfl⟩ := away
    exact GoServer.run_closesAt rfl h

end GrpcWebnext.Ws
