import GrpcWebnext.NodeClient.Readable

/-! When a delivery of `ClientReadableStream` stays parked. Whatever the consumer or the
transport does may also be done by a listener while it runs. -/
namespace GrpcWebnext.NodeClient.Readable
open Js (Number)
variable {M E : Type}

inductive Act (M E : Type) where
  | label (label : Label M E)
  /-- The last `data` listener is taken off. -/
  | off
  /-- The canceller is the transport's: the terminal event that it may bring about at once
  is an act of its own. -/
  | cancel
  deriving DecidableEq

def act (s : State M E) : Act M E → Option (State M E)
  | .label (.deliver message) => some (deliver s message)
  | .label .pause => some { s with paused := true }
  | .label .resume => some (resume s)
  | .label .end => some (finish { s with shown := s.shown ++ [.end] })
  | .label (.error error) => some (fail { s with shown := s.shown ++ [.error error] } error)
  | .label .listen => some { s with listening := true }
  | .label .next => some (next s)
  | .label .returns => returns s
  | .off => some { s with listening := false }
  | .cancel => some s

/-- The consumer has fallen behind: paused, or with its queue at the mark. -/
def behind (s : State M E) : Bool := s.paused || (Number.ofNat s.queue.length).ge s.highWaterMark

/-- Deliveries wait for a consumer that is behind, and not beyond the end. The loop of
`resume` lets them wait until it is through. -/
structure Settled (s : State M E) : Prop where
  running : s.ready ≠ [] → s.ended = false
  needed : s.ready ≠ [] → .flushing ∉ s.stack → behind s = true

/-- A delivery that no longer waits was let go because the consumer has caught up, or at
the end. -/
def Released (s t : State M E) : Prop :=
  ∀ parked ∈ s.ready, parked ∉ t.ready → behind t = false ∨ t.ended = true

/-- What an operation that ends with `release` leaves of the deliveries that wait. -/
structure Relieved (s t : State M E) : Prop where
  ended : t.ended = s.ended
  mark : t.highWaterMark = s.highWaterMark
  ready : t.ready = s.ready ∧ behind t = true ∨ t.ready = [] ∧ behind t = false

theorem Relieved.settled {s t : State M E} (relieved : Relieved s t)
    (running : s.ready ≠ [] → s.ended = false) : Settled t := by
  rcases relieved.ready with ⟨same, full⟩ | ⟨empty, _⟩
  · exact ⟨fun waits => relieved.ended.trans (running (same ▸ waits)), fun _ _ => full⟩
  · exact ⟨fun waits => absurd empty waits, fun waits => absurd empty waits⟩

theorem Relieved.released {s t : State M E} (relieved : Relieved s t) : Released s t := by
  intro parked waited gone
  rcases relieved.ready with ⟨same, _⟩ | ⟨_, caught⟩
  · exact absurd (same ▸ waited) gone
  · exact .inl caught

theorem relieved_release (s : State M E) : Relieved s (release s) := by
  unfold release
  split
  · rename_i full
    exact ⟨rfl, rfl, .inl ⟨rfl, full⟩⟩
  · rename_i caught
    exact ⟨rfl, rfl, .inr ⟨rfl, eq_false_of_ne_true caught⟩⟩

theorem relieved_resumed (s : State M E) : Relieved s (resumed s) := by
  unfold resumed
  split
  · rename_i message rest promise queue waiting
    have after := relieved_release (settle { s with queue := rest, waiter := none } promise (.value message))
    exact ⟨after.ended, after.mark, after.ready⟩
  · exact relieved_release s

/-- The loop of `resume` stops at an emission, with everything as it was, or behind `release`. -/
theorem flush_cases (s : State M E) :
    (∃ message, flush s = emitData s .flushing message) ∨ Relieved s (flush s) := by
  unfold flush
  split
  · rename_i message rest queue
    split
    · exact .inl ⟨message, rfl⟩
    · exact .inr (relieved_resumed s)
  · exact .inr (relieved_resumed s)

theorem settled_emitting {s : State M E} (running : s.ready ≠ [] → s.ended = false) (message : M) :
    Settled (emitData s .flushing message) :=
  ⟨running, fun _ outside => absurd List.mem_cons_self outside⟩

theorem settled_flush {s : State M E} (running : s.ready ≠ [] → s.ended = false) : Settled (flush s) := by
  rcases flush_cases s with ⟨message, emits⟩ | relieved
  · rw [emits]
    exact settled_emitting running message
  · exact relieved.settled running

/-- A queue that grows leaves no consumer less behind. -/
theorem behind_longer {s : State M E} (message : M) (full : behind s = true) :
    behind { s with queue := s.queue ++ [message] } = true := by
  rcases Bool.or_eq_true_iff.mp full with paused | reached
  · exact Bool.or_eq_true_iff.mpr (.inl paused)
  · refine Bool.or_eq_true_iff.mpr (.inr (Number.ge_of_le ?_ reached))
    simp

/-- A delivery is parked by a consumer that is behind with it. -/
theorem enqueue_cases (s : State M E) (message : M) :
    enqueue s message = { s with queue := s.queue ++ [message] } ∨
      (s.highWaterMark ≠ .nan → behind (enqueue s message) = true) ∧
        enqueue s message = { s with queue := s.queue ++ [message], ready := s.ready ++ [s.parked],
                                     parked := s.parked + 1 } := by
  unfold enqueue
  dsimp only
  split
  · exact .inl rfl
  · rename_i reached
    refine .inr ⟨fun number => ?_, rfl⟩
    rw [behind, Number.ge_eq_not_lt (by simp [Number.ofNat]) number]
    rw [Bool.and_eq_true, Bool.not_eq_true', not_and_or, Bool.not_eq_false, Bool.not_eq_true] at reached
    simpa using reached

theorem settled_enqueue {s : State M E} (inv : Settled s) (number : s.highWaterMark ≠ .nan)
    (running : s.ended = false) (message : M) : Settled (enqueue s message) := by
  rcases enqueue_cases s message with queued | ⟨full, parked⟩
  · rw [queued]
    exact ⟨inv.running, fun waits outside => behind_longer message (inv.needed waits outside)⟩
  · refine ⟨fun _ => ?_, fun _ _ => full number⟩
    rw [parked]
    exact running

theorem settled_deliver {s : State M E} (number : s.highWaterMark ≠ .nan) (inv : Settled s) (message : M) :
    Settled (deliver s message) := by
  unfold deliver
  split
  · exact inv
  · rename_i open_
    have running : s.ended = false := by
      cases ended : s.ended with
      | false => rfl
      | true => simp [ended] at open_
    have arrives : Settled { s with arrived := s.arrived ++ [message] } := ⟨inv.running, inv.needed⟩
    dsimp only
    split
    · exact settled_enqueue arrives number running message
    · split
      · refine ⟨inv.running, fun waits outside => ?_⟩
        exact inv.needed waits fun inside => outside (List.mem_cons_of_mem _ inside)
      · split
        · exact ⟨inv.running, inv.needed⟩
        · exact settled_enqueue arrives number running message

theorem settled_finish (s : State M E) : Settled (finish s) := by
  have emptied : (finish s).ready = [] := by
    unfold finish
    dsimp only
    split <;> rfl
  exact ⟨fun waits => absurd emptied waits, fun waits => absurd emptied waits⟩

theorem settled_next {s : State M E} (inv : Settled s) : Settled (next s) := by
  unfold next
  dsimp only
  split
  · rename_i message rest queue
    have relieved := relieved_release { s with calls := s.calls + 1, queue := rest }
    have after := relieved.settled inv.running
    exact ⟨after.running, after.needed⟩
  · split
    · exact ⟨inv.running, inv.needed⟩
    · split
      · exact ⟨inv.running, inv.needed⟩
      · exact ⟨inv.running, inv.needed⟩

theorem settled_returns {s t : State M E} (inv : Settled s) (h : returns s = some t) : Settled t := by
  unfold returns at h
  split at h
  · rename_i rest emitting
    cases h
    refine ⟨inv.running, fun waits outside => inv.needed waits ?_⟩
    rw [emitting]
    rintro (_ | ⟨_, inside⟩)
    exact outside inside
  · cases h
    exact settled_flush inv.running
  · cases h

theorem settled_act {s t : State M E} {a : Act M E} (number : s.highWaterMark ≠ .nan) (inv : Settled s)
    (h : act s a = some t) : Settled t := by
  cases a with
  | label label =>
      cases label with
      | deliver message =>
          cases h
          exact settled_deliver number inv message
      | pause =>
          cases h
          exact ⟨inv.running, fun _ _ => Bool.or_eq_true_iff.mpr (.inl rfl)⟩
      | resume =>
          cases h
          unfold resume
          split
          · exact settled_flush (s := { s with paused := false }) inv.running
          · exact inv
      | «end» =>
          cases h
          exact settled_finish _
      | error error =>
          cases h
          exact settled_finish _
      | listen =>
          cases h
          exact ⟨inv.running, inv.needed⟩
      | next =>
          cases h
          exact settled_next inv
      | returns => exact settled_returns inv h
  | off =>
      cases h
      exact ⟨inv.running, inv.needed⟩
  | cancel =>
      cases h
      exact inv

/-- What every act leaves alone: the mark, and the deliveries that have not been let go. -/
structure Spares (s t : State M E) : Prop where
  mark : t.highWaterMark = s.highWaterMark
  released : Released s t

/-- Deliveries that still wait have not been let go. -/
theorem released_of_subset {s t : State M E} (kept : s.ready ⊆ t.ready) : Released s t :=
  fun _ waited gone => absurd (kept waited) gone

theorem Spares.unmoved {s t : State M E} (mark : t.highWaterMark = s.highWaterMark)
    (same : t.ready = s.ready) :
    Spares s t :=
  ⟨mark, released_of_subset (same ▸ List.Subset.refl _)⟩

theorem Relieved.spares {s t : State M E} (relieved : Relieved s t) : Spares s t :=
  ⟨relieved.mark, relieved.released⟩

theorem spares_flush (s : State M E) : Spares s (flush s) := by
  rcases flush_cases s with ⟨message, emits⟩ | relieved
  · rw [emits]
    exact .unmoved rfl rfl
  · exact relieved.spares

theorem spares_enqueue (s : State M E) (message : M) : Spares s (enqueue s message) := by
  rcases enqueue_cases s message with queued | ⟨_, parked⟩
  · rw [queued]
    exact .unmoved rfl rfl
  · rw [parked]
    exact ⟨rfl, released_of_subset (List.subset_append_left _ _)⟩

theorem spares_deliver (s : State M E) (message : M) : Spares s (deliver s message) := by
  have arrives := spares_enqueue { s with arrived := s.arrived ++ [message] } message
  unfold deliver
  split
  · exact .unmoved rfl rfl
  · dsimp only
    split
    · exact ⟨arrives.mark, arrives.released⟩
    · split
      · exact .unmoved rfl rfl
      · split
        · exact .unmoved rfl rfl
        · exact ⟨arrives.mark, arrives.released⟩

theorem spares_next (s : State M E) : Spares s (next s) := by
  unfold next
  dsimp only
  split
  · rename_i message rest queue
    have relieved := relieved_release { s with calls := s.calls + 1, queue := rest }
    exact ⟨relieved.mark, relieved.released⟩
  · split
    · exact .unmoved rfl rfl
    · split <;> exact .unmoved rfl rfl

theorem spares_returns {s t : State M E} (h : returns s = some t) : Spares s t := by
  unfold returns at h
  split at h
  · cases h
    exact .unmoved rfl rfl
  · rename_i rest emitting
    cases h
    have flushed := spares_flush { s with stack := rest, queue := s.queue.tail }
    exact ⟨flushed.mark, flushed.released⟩
  · cases h

/-- The end lets every delivery go. -/
theorem spares_finish (s : State M E) : Spares s (finish s) := by
  unfold finish
  dsimp only
  split <;> exact ⟨rfl, fun _ _ _ => .inr rfl⟩

theorem spares_act {s t : State M E} {a : Act M E} (h : act s a = some t) : Spares s t := by
  cases a with
  | label label =>
      cases label with
      | pause | listen =>
          cases h
          exact .unmoved rfl rfl
      | deliver message =>
          cases h
          exact spares_deliver s message
      | resume =>
          cases h
          unfold resume
          split
          · have flushed := spares_flush { s with paused := false }
            exact ⟨flushed.mark, flushed.released⟩
          · exact .unmoved rfl rfl
      | «end» =>
          cases h
          have finished := spares_finish { s with shown := s.shown ++ [.end] }
          exact ⟨finished.mark, finished.released⟩
      | error error =>
          cases h
          have finished := spares_finish { s with shown := s.shown ++ [.error error], errored := some error }
          exact ⟨finished.mark, finished.released⟩
      | next =>
          cases h
          exact spares_next s
      | returns => exact spares_returns h
  | off | cancel =>
      cases h
      exact .unmoved rfl rfl

/-- Deliveries wait exactly as long as they have to, in every run, unless the mark is not a
number. -/
theorem parked_while_behind_iff (E : Type) {M : Type} (message : M) (highWaterMark : Number) :
    (∀ (acts : List (Act M E)) (s : State M E), Machine.run act (init highWaterMark) acts = some s →
      Settled s ∧ ∀ a t, act s a = some t → Released s t) ↔ highWaterMark ≠ .nan := by
  constructor
  · rintro all rfl
    obtain ⟨parked, _⟩ := all [.label (.deliver message)] _ rfl
    have waits : (deliver (init .nan : State M E) message).ready = [0] := rfl
    have caught : behind (deliver (init .nan : State M E) message) = false := rfl
    have full := parked.needed (waits ▸ List.cons_ne_nil 0 []) List.not_mem_nil
    exact absurd (caught.symm.trans full) Bool.false_ne_true
  · intro number acts s h
    have start : (init highWaterMark : State M E).highWaterMark ≠ .nan :=
      (Number.whole_max_floor number).1.ne_nan
    have fresh : Settled (init highWaterMark : State M E) :=
      ⟨fun waits => absurd rfl waits, fun waits => absurd rfl waits⟩
    have kept : s.highWaterMark ≠ .nan ∧ Settled s := by
      refine Machine.run_invariant (I := fun s => s.highWaterMark ≠ .nan ∧ Settled s) ?_ ⟨start, fresh⟩ h
      intro s a t inv moved
      exact ⟨(spares_act moved).mark ▸ inv.1, settled_act inv.1 inv.2 moved⟩
    exact ⟨kept.2, fun a t moved => (spares_act moved).released⟩

/-- With a mark that is not a number the first message parks its delivery, though the stream
is not paused and a queue of one is not at the mark. -/
theorem parked_needlessly :
    (Machine.run act (init .nan : State Nat Unit) [.label (.deliver 1)]).map
      (fun s => (s.ready, s.paused, s.ended, s.stack)) = some ([0], false, false, []) ∧
    (Number.ofNat 1).ge (init .nan : State Nat Unit).highWaterMark = false ∧
    ¬ ∀ (acts : List (Act Nat Unit)) (s : State Nat Unit), Machine.run act (init .nan) acts =
      some s → Settled s := by
  refine ⟨by decide, by decide, fun all => ?_⟩
  have full := (all [.label (.deliver 1)] _ rfl).needed (by decide) (by decide)
  exact absurd full (by decide)

end GrpcWebnext.NodeClient.Readable
