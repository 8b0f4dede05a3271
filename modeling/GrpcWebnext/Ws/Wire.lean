import GrpcWebnext.Library.Machine
import GrpcWebnext.Ws.Frame

/-! The outbound side of a connection: a bounded queue, a writer that stops behind a
Close, and the grammar of what may be written. -/
namespace GrpcWebnext.Ws
open Framing (Bytes)

/-- How far a connection's outbound sequence has come. -/
inductive Stage where
  | fresh
  | opened
  | ended
  | shut
  deriving DecidableEq

/-- The grammar of the outbound frames: an optional Header, Messages, at most one
terminal frame, Close, and nothing behind it. -/
def advance : Stage → Out → Option Stage
  | .shut, _ => none
  | stage, .openRefused _ => some stage
  | _, .close _ _ => some .shut
  | .fresh, .frame _ (.header _) => some .opened
  | .fresh, .frame _ (.message _) => some .opened
  | .opened, .frame _ (.message _) => some .opened
  | .fresh, .frame _ (.trailer _ _ _) => some .ended
  | .opened, .frame _ (.trailer _ _ _) => some .ended
  | .fresh, .frame _ (.reset _ _) => some .ended
  | .opened, .frame _ (.reset _ _) => some .ended
  | _, .frame _ _ => none

def Grammatical (outs : List Out) : Prop := Machine.run advance .fresh outs ≠ none

instance (outs : List Out) : Decidable (Grammatical outs) :=
  inferInstanceAs (Decidable (_ ≠ none))

/-- The same grammar for a queue, where what stands behind a Close is never written. -/
def track : Stage → Out → Option Stage
  | .shut, _ => some .shut
  | stage, out => advance stage out

theorem track_shut (outs : List Out) : Machine.run track .shut outs = some .shut := by
  induction outs with
  | nil => rfl
  | cons out outs ih => exact ih

theorem track_of_ne_shut {stage : Stage} (live : stage ≠ .shut) (out : Out) :
    track stage out = advance stage out := by
  cases stage with
  | shut => exact absurd rfl live
  | fresh => rfl
  | opened => rfl
  | ended => rfl

/-- Queueing one more message moves the stage of the queue on by one. -/
theorem track_push {stage stage' : Stage} {queue : List Out}
    (h : Machine.run track stage queue = some stage') (out : Out) :
    Machine.run track stage (queue ++ [out]) = track stage' out := by
  rw [Machine.run_append, h, Option.bind_some, Machine.run]
  cases track stage' out <;> rfl

theorem track_close {stage : Stage} (code : Nat) (reason : Bytes) :
    track stage (.close code reason) = some .shut := by
  cases stage <;> rfl

theorem track_refused (stage : Stage) (json : Bool) : track stage (.openRefused json) = some stage := by
  cases stage <;> rfl

/-- Before a terminal frame was queued, one may be. -/
theorem track_terminal {stage : Stage} {out : Out} (terminal : out.isTerminal)
    (before : stage = .fresh ∨ stage = .opened) : track stage out = some .ended := by
  rcases before with rfl | rfl <;>
  · unfold Out.isTerminal at terminal
    split at terminal
    · rfl
    · rfl
    · cases terminal

theorem track_second_terminal {out : Out} (terminal : out.isTerminal) : track .ended out = none := by
  unfold Out.isTerminal at terminal
  split at terminal
  · rfl
  · rfl
  · cases terminal

/-- Only a terminal frame brings a sequence that has none to its end. -/
theorem terminal_of_track {stage : Stage} {out : Out} (h : track stage out = some .ended)
    (before : stage ≠ .ended) : out.isTerminal = true := by
  cases out with
  | close code reason =>
      rw [track_close] at h
      cases h
  | openRefused json =>
      rw [track_refused, Option.some.injEq] at h
      exact absurd h before
  | frame json kind =>
      cases stage with
      | ended => exact absurd rfl before
      | shut => cases h
      | fresh => cases kind <;> first | rfl | cases h
      | opened => cases kind <;> first | rfl | cases h

/-- Where a written sequence stands does not depend on how the rest is read. -/
theorem track_of_advance {outs : List Out} {stage stage' : Stage}
    (h : Machine.run advance stage outs = some stage') :
    Machine.run track stage outs = some stage' := by
  induction outs generalizing stage with
  | nil => exact h
  | cons out outs ih =>
      obtain ⟨next, moved, rest⟩ := Machine.run_cons_inv h
      have live : stage ≠ .shut := by
        rintro rfl
        cases moved
      rw [Machine.run_cons (by rw [track_of_ne_shut live, moved])]
      exact ih rest

/-- Behind a terminal frame only a Close, or the refusal of an open frame, may be queued. -/
theorem track_over {outs : List Out} {stage : Stage} (h : Machine.run track .ended outs = some stage) :
    stage = .ended ∨ stage = .shut := by
  induction outs with
  | nil =>
      cases h
      exact .inl rfl
  | cons out outs ih =>
      obtain ⟨next, moved, rest⟩ := Machine.run_cons_inv h
      cases out with
      | openRefused json =>
          cases moved
          exact ih rest
      | close code reason =>
          cases moved
          rw [track_shut] at rest
          cases rest
          exact .inr rfl
      | frame json kind => cases kind <;> cases moved

/-- A Close is the only way into the last stage, for as long as the writer writes. -/
theorem advance_shut {stage : Stage} {out : Out} (h : advance stage out = some .shut) :
    out.isClose = true := by
  cases out with
  | close code reason => rfl
  | openRefused json => cases stage <;> cases h
  | frame json kind => cases stage <;> cases kind <;> cases h

/-- The written messages are grammatical and, while the writer runs, the queued ones
carry on where they stopped and end in a stage that `P` holds of. -/
def WireAt (written queue : List Out) (writing : Bool) (P : Stage → Prop) : Prop :=
  ∃ stage, Machine.run advance .fresh written = some stage ∧
    (writing = true → stage ≠ .shut ∧ ∃ last, Machine.run track stage queue = some last ∧ P last)

section WireAt
variable {written queue : List Out} {writing : Bool} {P Q : Stage → Prop}

theorem WireAt.init {P : Stage → Prop} (fresh : P .fresh) : WireAt [] [] true P :=
  ⟨.fresh, rfl, fun _ => ⟨Stage.noConfusion, .fresh, rfl, fresh⟩⟩

theorem WireAt.grammatical (wire : WireAt written queue writing P) : Grammatical written := by
  obtain ⟨stage, run, _⟩ := wire
  rw [Grammatical, run]
  exact Option.some_ne_none stage

theorem WireAt.mono (wire : WireAt written queue writing P) (weaker : ∀ stage, P stage → Q stage) :
    WireAt written queue writing Q := by
  obtain ⟨stage, run, live⟩ := wire
  refine ⟨stage, run, fun writes => ?_⟩
  obtain ⟨open_, last, tracked, holds⟩ := live writes
  exact ⟨open_, last, tracked, weaker last holds⟩

theorem WireAt.stop (wire : WireAt written queue writing P) (queue' : List Out) :
    WireAt written queue' false Q := by
  obtain ⟨stage, run, _⟩ := wire
  exact ⟨stage, run, fun writes => absurd writes Bool.false_ne_true⟩

/-- What is known of the stage of the whole sequence may be used. -/
theorem WireAt.mono_stage (wire : WireAt written queue writing P)
    (weaker : ∀ stage, Machine.run track .fresh (written ++ queue) = some stage → P stage → Q stage) :
    WireAt written queue writing Q := by
  obtain ⟨stage, run, live⟩ := wire
  refine ⟨stage, run, fun writes => ?_⟩
  obtain ⟨open_, last, tracked, holds⟩ := live writes
  refine ⟨open_, last, tracked, weaker last ?_ holds⟩
  rw [Machine.run_append, track_of_advance run, Option.bind_some, tracked]

theorem WireAt.push (wire : WireAt written queue writing P) {out : Out}
    (next : ∀ stage, P stage → ∃ stage', track stage out = some stage' ∧ Q stage') :
    WireAt written (queue ++ [out]) writing Q := by
  obtain ⟨stage, run, live⟩ := wire
  refine ⟨stage, run, fun writes => ?_⟩
  obtain ⟨open_, last, tracked, holds⟩ := live writes
  obtain ⟨last', moved, holds'⟩ := next last holds
  exact ⟨open_, last', by rw [track_push tracked, moved], holds'⟩

theorem WireAt.write {out : Out} (wire : WireAt written (out :: queue) true P) :
    WireAt (written ++ [out]) queue (!out.isClose) P := by
  obtain ⟨stage, run, live⟩ := wire
  obtain ⟨open_, last, tracked, holds⟩ := live rfl
  obtain ⟨stage', moved, rest⟩ := Machine.run_cons_inv tracked
  rw [track_of_ne_shut open_] at moved
  refine ⟨stage', ?_, fun writes => ⟨?_, last, rest, holds⟩⟩
  · rw [Machine.run_append, run, Option.bind_some, Machine.run_cons moved, Machine.run_nil]
  · rintro rfl
    rw [advance_shut moved] at writes
    cases writes

end WireAt

end GrpcWebnext.Ws
