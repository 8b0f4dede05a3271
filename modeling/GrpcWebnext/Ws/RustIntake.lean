import GrpcWebnext.Ws.Intake
import GrpcWebnext.Ws.RustStreams

/-! The request side of a Rust connection. Each step of the connection is one move of it. -/
namespace GrpcWebnext.Ws.RustServer
open Framing (Bytes)
variable {srv : Config}

def Task.chan (t : Task) : Chan :=
  ⟨t.sub.initialPayload, t.json, t.feeding, t.listening, t.called, t.aborted, t.requests, t.pulled,
    t.delivered⟩

def Reader.held : Reader → Option Bytes
  | .feeding payload => some payload
  | _ => none

def Conn.intake (s : Conn) : Intake :=
  ⟨s.slot, s.reader.held, false, s.reader ≠ .ended, s.tasks.map Task.chan⟩

theorem chan_spawn (sub : Subscribe) (json : Bool) :
    (spawn srv sub json).chan = .spawn srv.toRoute sub json := rfl

theorem intake_current (s : Conn) :
    s.intake.current = (s.slot.bind fun i => s.tasks[i]?).map Task.chan := by
  unfold Intake.current Conn.intake
  cases s.slot with
  | none => rfl
  | some i => simp only [Option.bind_some, List.getElem?_map]

theorem intake_dropStream (s : Conn) : s.dropStream.intake = s.intake.drop false := by
  unfold Conn.dropStream Intake.drop Intake.abort
  cases slot : s.slot with
  | none => simp only [Conn.intake, slot]
  | some i =>
      simp only [Conn.intake, slot, Conn.modifyTask]
      rw [map_modify]
      intro t
      simp only [Task.abort, Task.chan, Bool.and_false]

theorem intake_finish (s : Conn) : s.finish.intake = s.intake.quit false true := by
  have dropped := intake_dropStream s
  simp only [Intake.quit, if_true, ← dropped]
  rfl

theorem ready_intake {s : Conn} (ready : s.reader = .ready) : s.intake.Ready := by
  constructor <;> simp [Conn.intake, ready, Reader.held]

/-- A task that moves without touching its request side. -/
theorem intake_set {s : Conn} {i : Nat} {t t' : Task} (found : s.tasks[i]? = some t)
    (same : t'.chan = t.chan) (queue : List Out) :
    ({ s with tasks := s.tasks.set i t', queue := queue } : Conn).intake = s.intake := by
  simp only [Conn.intake, map_set_of_eq found same]

theorem settle_chan (t : Task) : (settle t).chan = t.chan := by
  unfold settle
  split <;> rfl

/-- `run_stream` touches its request side only by calling the backend. -/
theorem runStream_chan {s : Conn} {t t' : Task} {act : Act} {queue : List Out}
    (h : runStream srv s t act = some (t', queue)) :
    t'.chan = t.chan ∨ t'.chan = { t.chan with called := true } := by
  unfold runStream at h
  split at h
  case h_3 =>
      cases h
      exact .inr rfl
  case h_6 =>
      split at h
      split at h <;> (cases h; exact .inl rfl)
  case h_10 out rest _ =>
      have settled := settle_chan { t with pending := rest }
      split at h
      case isTrue =>
          cases h
          unfold sendFailed
          split
          · exact .inl rfl
          · exact .inl settled
      case isFalse =>
          obtain ⟨queued, _, same⟩ := Option.map_eq_some_iff.mp h
          cases same
          exact .inl settled
  case h_11 | h_12 | h_13 =>
      unfold runStream.expired at h
      split at h
      · cases h
      · cases h
        exact .inl rfl
  case h_14 => cases h
  all_goals (cases h; exact .inl rfl)

theorem intake_sending {s : Conn} (ready : s.reader = .ready) (outs : List Out) (thenEnd : Bool) :
    ({ s with reader := .sending outs thenEnd } : Conn).intake = s.intake := by
  simp [Conn.intake, ready, Reader.held]

theorem handleFrame_moves {s : Conn} (ready : s.reader = .ready) (kind : Kind) (json : Bool) :
    Moves srv.toRoute s.intake (some kind) (handleFrame srv s kind json).intake := by
  have idle := ready_intake ready
  cases kind with
  | subscribe sub =>
      simp only [handleFrame]
      split
      · rw [intake_sending ready]
        exact .ignores idle trivial
      · split
        · rw [intake_sending ready]
          exact .ignores idle trivial
        · split
          · rw [intake_sending ready]
            exact .ignores idle trivial
          · rename_i empty _ _
            have opened : Moves srv.toRoute s.intake (some (.subscribe sub)) _ :=
              .opens sub json idle (by simpa [Conn.intake] using empty)
            simpa [Conn.intake, chan_spawn] using opened
  | message payload =>
      simp only [handleFrame]
      split
      · rename_i large
        have dropped : Moves srv.toRoute s.intake (some (.message payload)) _ :=
          .drops false idle (by simpa [closes] using large)
        rw [← intake_dropStream] at dropped
        simpa [Conn.intake, ready, Reader.held] using dropped
      · rename_i small
        have small : payload.length ≤ srv.maxMessageBytes := Nat.le_of_not_lt small
        split
        · rename_i t found
          have current : s.intake.current = some t.chan := by rw [intake_current, found]; rfl
          split
          · rename_i fed
            have taken : Moves srv.toRoute s.intake (some (.message payload)) _ :=
              .takes idle current fed small
            simpa [Conn.intake, ready, Reader.held] using taken
          · rename_i shut
            refine .ignores idle ⟨small, fun c found => ?_⟩
            rw [current] at found
            cases found
            simpa [Task.chan] using shut
        · rename_i none
          refine .ignores idle ⟨small, fun c found => ?_⟩
          rw [intake_current, none] at found
          cases found
  | halfClose =>
      simp only [handleFrame]
      cases slot : s.slot with
      | none =>
          refine .ignores idle ?_
          simp [Intake.Deaf, intake_current, slot]
      | some i =>
          cases found : s.tasks[i]? with
          | none =>
              have same : s.modifyTask i (fun t => { t with feeding := false }) = s := by
                unfold Conn.modifyTask
                rw [List.modify_eq_self (by simpa using found)]
              dsimp only
              rw [same]
              refine .ignores idle ?_
              simp [Intake.Deaf, intake_current, slot, found]
          | some t =>
              have closed : Moves srv.toRoute s.intake (some .halfClose) _ :=
                .halfCloses (c := t.chan) idle slot (by simp [Conn.intake, found])
              simpa [Conn.intake, Conn.modifyTask, modify_eq_set found, Task.chan] using closed
  | reset code message =>
      have dropped : Moves srv.toRoute s.intake (some (.reset code message)) _ :=
        .drops false idle rfl
      rw [← intake_dropStream] at dropped
      exact dropped
  | trailer code message trailers => exact .ignores idle trivial
  | header headers => exact .ignores idle trivial

theorem receive_moves {s : Conn} (ready : s.reader = .ready) (msg : Inbound) :
    Moves srv.toRoute s.intake (s.codec.handles srv.methodUrl (some msg)) (receive srv s msg).intake := by
  unfold receive
  split
  · rename_i close
    subst close
    rw [intake_finish]
    exact .quits false true (ready_intake ready).held
  · cases decoded : decode s.codec srv.methodUrl msg with
    | mk codec frame =>
        have same : ({ s with codec := codec } : Conn).intake = s.intake := rfl
        simp only [Codec.handles, Codec.next, decoded]
        cases frame with
        | none =>
            rw [Option.map_none, same]
            exact .idle
        | some frame =>
            obtain ⟨kind, json⟩ := frame
            exact handleFrame_moves (s := { s with codec := codec }) ready kind json

theorem flush_moves {s s' : Conn} (h : flush s = some s') :
    Moves srv.toRoute s.intake none s'.intake := by
  obtain ⟨out, rest, thenEnd, queue, sending, _, moved⟩ := flush_some h
  have same : ({ s with queue := queue } : Conn).intake = s.intake := rfl
  have idle : ∀ reader : Reader, reader.held = none → reader ≠ .ended →
      ({ s with queue := queue, reader := reader } : Conn).intake = s.intake := by
    intro reader empty going
    simp [Conn.intake, sending, empty, going, show (Reader.sending (out :: rest) thenEnd).held =
      none from rfl]
  rcases moved with ⟨_, _, rfl⟩ | ⟨_, _, rfl⟩ | ⟨_, rfl⟩
  · rw [intake_finish, same]
    refine .quits false true ?_
    simp [Conn.intake, sending, Reader.held]
  · rw [idle .ready rfl (by simp)]
    exact .idle
  · rw [idle (.sending rest thenEnd) rfl (by simp)]
    exact .idle

theorem feed_moves {s s' : Conn} (h : feed s = some s') :
    Moves srv.toRoute s.intake none s'.intake := by
  unfold feed at h
  split at h
  case h_2 => cases h
  case h_1 payload holding =>
      have held : s.intake.held = some payload := by simp [Conn.intake, holding, Reader.held]
      have released : ({ s with reader := .ready } : Conn).intake = { s.intake with held := none } := by
        simp [Conn.intake, holding, Reader.held]
      split at h
      case h_2 missing =>
          cases h
          rw [released]
          refine .loses fun c found => ?_
          rw [intake_current] at found
          cases slot : s.slot with
          | none => simp [slot] at found
          | some i => simp [slot] at found missing; simp [missing] at found
      case h_1 i t found =>
          obtain ⟨k, slot, found⟩ := Option.bind_eq_some_iff.mp found
          obtain ⟨u, found, same⟩ := Option.map_eq_some_iff.mp found
          cases same
          split at h
          case isTrue deaf =>
              cases h
              rw [released]
              refine .loses fun c current => .inl ?_
              rw [intake_current, slot, Option.bind_some, found] at current
              cases current
              simpa [Task.chan] using deaf
          case isFalse =>
              simp only [Option.ite_none_right_eq_some, Option.some.injEq] at h
              obtain ⟨room, rfl⟩ := h
              have fed : Moves srv.toRoute s.intake none _ :=
                .feeds (c := t.chan) held slot (by simp [Conn.intake, found]) room
              simpa [Conn.intake, Conn.modifyTask, modify_eq_set found, Task.chan, holding, Reader.held]
                using fed

/-- A step of one task. -/
theorem stepTask_moves {s s' : Conn} {i : Nat} {f : Task → Option Task}
    (h : s.stepTask i f = some s')
    (moves : ∀ t t', s.tasks[i]? = some t → f t = some t' → Moves srv.toRoute s.intake none
      { s.intake with chans := s.intake.chans.set i t'.chan }) :
    Moves srv.toRoute s.intake none s'.intake := by
  obtain ⟨t', moved, rfl⟩ := Option.map_eq_some_iff.mp h
  obtain ⟨t, found, moved⟩ := Option.bind_eq_some_iff.mp moved
  have taken := moves t t' found moved
  simpa [Conn.intake, List.map_set] using taken

theorem chans_found {s : Conn} {i : Nat} {t : Task} (found : s.tasks[i]? = some t) :
    s.intake.chans[i]? = some t.chan := by
  simp [Conn.intake, found]

theorem idle_set {s : Conn} {i : Nat} {t t' : Task} (found : s.tasks[i]? = some t)
    (same : t'.chan = t.chan) :
    Moves srv.toRoute s.intake none { s.intake with chans := s.intake.chans.set i t'.chan } := by
  rw [same]
  exact .stays (chans_found found)

/-- A task that is gone drops its body, unless the backend has it. -/
theorem die_moves {s : Conn} {i : Nat} {t : Task} (found : s.tasks[i]? = some t) :
    Moves srv.toRoute s.intake none { s.intake with chans := s.intake.chans.set i t.die.chan } := by
  cases called : t.called with
  | true => exact idle_set found (by simp [Task.die, Task.chan, called])
  | false =>
      have stopped : Moves srv.toRoute s.intake none _ := .stops (chans_found found)
      simpa [Task.die, Task.chan, called] using stopped

theorem pull_moves {s : Conn} {i : Nat} {t t' : Task} (found : s.tasks[i]? = some t)
    (h : pull srv t = some t') :
    Moves srv.toRoute s.intake none { s.intake with chans := s.intake.chans.set i t'.chan } := by
  unfold pull at h
  split at h
  case h_2 => cases h
  case h_1 payload rest waiting =>
      simp only [Option.ite_none_right_eq_some, Bool.and_eq_true] at h
      obtain ⟨⟨called, live⟩, h⟩ := h
      split at h
      case h_1 message made =>
          cases h
          exact .pulls (chans_found found) called live waiting made
      case h_2 panics =>
          cases h
          exact .breaks (chans_found found) waiting panics

/-- One step of the connection is one move of its request side. -/
theorem step_moves {s s' : Conn} {e : Event} (h : step srv s e = some s') :
    Moves srv.toRoute s.intake (s.codec.handles srv.methodUrl e.received) s'.intake := by
  cases e with
  | receive msg =>
      simp only [step, Option.ite_none_right_eq_some, Option.some.injEq] at h
      obtain ⟨ready, rfl⟩ := h
      exact receive_moves ready msg
  | hangup =>
      simp only [step, Option.ite_none_right_eq_some, Option.some.injEq] at h
      obtain ⟨ready, rfl⟩ := h
      rw [intake_finish]
      exact .quits false true (ready_intake ready).held
  | drain =>
      simp only [step, Option.ite_none_right_eq_some, Option.some.injEq] at h
      obtain ⟨⟨ready, _⟩, rfl⟩ := h
      unfold observeDrain
      split
      · have same := intake_sending ready [closeGoingAway] true
        have moved : Moves srv.toRoute s.intake none
            ({ s with reader := .sending [closeGoingAway] true } : Conn).intake := same ▸ .idle
        exact moved
      · exact .idle
  | flush => exact flush_moves h
  | feed => exact feed_moves h
  | write =>
      obtain ⟨_, _, _, _, rfl⟩ := write_some h
      exact .idle
  | writeFail =>
      simp only [step, Option.ite_none_right_eq_some, Option.some.injEq] at h
      obtain ⟨_, rfl⟩ := h
      exact .idle
  | wake i =>
      refine stepTask_moves h fun t t' found moved => ?_
      simp only [Option.ite_none_right_eq_some, Option.some.injEq] at moved
      obtain ⟨_, rfl⟩ := moved
      exact idle_set found rfl
  | park i =>
      refine stepTask_moves h fun t t' found moved => ?_
      simp only [Option.ite_none_right_eq_some, Option.some.injEq] at moved
      obtain ⟨_, rfl⟩ := moved
      split
      · exact die_moves found
      · exact idle_set found rfl
  | reap i =>
      refine stepTask_moves h fun t t' found moved => ?_
      simp only [Option.ite_none_right_eq_some, Option.some.injEq] at moved
      obtain ⟨_, rfl⟩ := moved
      exact die_moves found
  | run i act =>
      obtain ⟨t, t', queue, found, _, moved, rfl⟩ := step_run h
      rcases runStream_chan moved with same | called
      · rw [intake_set found same]
        exact .idle
      · have calls : Moves srv.toRoute s.intake none _ := .calls (chans_found found)
        simpa [Conn.intake, Event.received, List.map_set, called] using calls
  | pull i => exact stepTask_moves h fun t t' found moved => pull_moves found moved
  | dropBody i =>
      refine stepTask_moves h fun t t' found moved => ?_
      simp only [Option.ite_none_right_eq_some, Option.some.injEq] at moved
      obtain ⟨_, rfl⟩ := moved
      exact .stops (chans_found found)

end GrpcWebnext.Ws.RustServer
