import GrpcWebnext.Ws.GoStreams
import GrpcWebnext.Ws.Intake

/-! The request side of a Go connection. Each step of the connection is one move of it. -/
namespace GrpcWebnext.Ws.GoServer
open Framing (Bytes)
variable {srv : Config}

def Task.chan (t : Task) : Chan :=
  ⟨t.sub.initialPayload, t.json, !t.halfClosed, t.mapping, t.called, t.aborted, t.requests, t.pulled,
    t.delivered⟩

def Reader.held : Reader → Option Bytes
  | .feeding payload => some payload
  | _ => none

def Reader.barred : Reader → Bool
  | .rejecting _ => true
  | _ => false

def Conn.intake (s : Conn) : Intake :=
  ⟨s.slot, s.reader.held, s.reader.barred, s.reader ≠ .ended, s.tasks.map Task.chan⟩

theorem chan_spawn (sub : Subscribe) (json : Bool) :
    (spawn srv sub json).chan = .spawn srv.toRoute sub json := rfl

theorem intake_current (s : Conn) :
    s.intake.current = (s.slot.bind fun i => s.tasks[i]?).map Task.chan := by
  unfold Intake.current Conn.intake
  cases s.slot with
  | none => rfl
  | some i => simp only [Option.bind_some, List.getElem?_map]

theorem intake_abortStream (s : Conn) : s.abortStream.intake = s.intake.abort true := by
  unfold Conn.abortStream Intake.abort
  cases slot : s.slot with
  | none => simp only [Conn.intake, slot]
  | some i =>
      simp only [Conn.intake, slot, Conn.modifyTask]
      rw [map_modify]
      intro t
      simp only [Task.abort, Task.chan, Bool.and_true]

theorem intake_dropStream (s : Conn) : s.dropStream.intake = s.intake.drop true := by
  have aborted := intake_abortStream s
  unfold Conn.dropStream Intake.drop
  rw [← aborted]
  split
  · rename_i empty
    simp [Conn.abortStream, empty, Conn.intake]
  · rfl

theorem intake_finish (s : Conn) : s.finish.intake = s.intake.quit true false := by
  have aborted := intake_abortStream s
  simp only [Intake.quit, Bool.false_eq_true, if_false, ← aborted]
  rfl

theorem ready_intake {s : Conn} (ready : s.reader = .ready) : s.intake.Ready := by
  constructor <;> simp [Conn.intake, ready, Reader.held, Reader.barred]

theorem chans_found {s : Conn} {i : Nat} {t : Task} (found : s.tasks[i]? = some t) :
    s.intake.chans[i]? = some t.chan := by
  simp [Conn.intake, found]

theorem settle_chan (t : Task) : (settle t).chan = t.chan := by
  unfold settle
  split <;> rfl

theorem sendFailed_chan (t : Task) (out : Out) (rest : List Out) :
    (sendFailed t out rest).chan = t.chan := by
  have settled := settle_chan { t with pending := rest }
  unfold sendFailed
  split
  · exact settled
  · exact settled
  · rfl

/-- `runStream` touches its request side only by dispatching the call. -/
theorem runStream_chan {s : Conn} {t t' : Task} {act : Act} {queue : List Out}
    (h : runStream srv s t act = some (t', queue)) :
    t'.chan = t.chan ∨ t'.chan = { t.chan with called := true } := by
  unfold runStream at h
  split at h
  case h_2 =>
      simp only [Option.ite_none_right_eq_some, Option.some.injEq, Prod.mk.injEq] at h
      obtain ⟨_, rfl, _⟩ := h
      exact .inl rfl
  case h_3 =>
      cases h
      exact .inr rfl
  case h_6 =>
      split at h
      split at h <;> (cases h; exact .inl rfl)
  case h_8 => split at h <;> (cases h; exact .inl rfl)
  case h_9 sent out rest _ =>
      split at h
      · cases h
        exact .inl (sendFailed_chan t out rest)
      · obtain ⟨queued, _, same⟩ := Option.map_eq_some_iff.mp h
        cases same
        split
        · exact .inl (settle_chan { t with pending := rest })
        · exact .inl (sendFailed_chan t out rest)
  case h_10 =>
      simp only [Option.ite_none_right_eq_some, Option.some.injEq, Prod.mk.injEq] at h
      obtain ⟨_, rfl, _⟩ := h
      exact .inl rfl
  case h_11 => cases h
  all_goals (cases h; exact .inl rfl)

theorem intake_sending {s : Conn} (ready : s.reader = .ready) (outs : List Out) :
    ({ s with reader := .sending outs } : Conn).intake = s.intake := by
  simp [Conn.intake, ready, Reader.held, Reader.barred]

theorem handleFrame_moves {s : Conn} (ready : s.reader = .ready) (kind : Kind) (json : Bool) :
    Moves srv.toRoute s.intake (some kind) (handleFrame srv s kind json).intake := by
  have idle := ready_intake ready
  cases kind with
  | subscribe sub =>
      simp only [handleFrame]
      split
      · rw [intake_sending ready]
        exact .ignores idle trivial
      · split
        · rw [intake_sending ready]
          exact .ignores idle trivial
        · rename_i empty _
          have opened : Moves srv.toRoute s.intake (some (.subscribe sub)) _ :=
            .opens sub json idle (by simpa [Conn.intake] using empty)
          simpa [Conn.intake, chan_spawn] using opened
  | message payload =>
      simp only [handleFrame]
      split
      · rename_i large
        have barred : Moves srv.toRoute s.intake (some (.message payload)) _ := .bars idle large
        simpa [Conn.intake, ready, Reader.held, Reader.barred] using barred
      · rename_i small
        have small : payload.length ≤ srv.maxMessageBytes := Nat.le_of_not_lt small
        split
        · rename_i t found
          have current : s.intake.current = some t.chan := by rw [intake_current, found]; rfl
          split
          · rename_i shut
            refine .ignores idle ⟨small, fun c found => ?_⟩
            rw [current] at found
            cases found
            simpa [Task.chan] using shut
          · rename_i fed
            have taken : Moves srv.toRoute s.intake (some (.message payload)) _ :=
              .takes idle current (by simpa [Task.chan] using fed) small
            simpa [Conn.intake, ready, Reader.held, Reader.barred] using taken
        · rename_i none
          refine .ignores idle ⟨small, fun c found => ?_⟩
          rw [intake_current, none] at found
          cases found
  | halfClose =>
      simp only [handleFrame]
      cases slot : s.slot with
      | none =>
          refine .ignores idle ?_
          simp [Intake.Deaf, intake_current, slot]
      | some i =>
          cases found : s.tasks[i]? with
          | none =>
              have same : s.modifyTask i (fun t => { t with halfClosed := true }) = s := by
                unfold Conn.modifyTask
                rw [List.modify_eq_self (by simpa using found)]
              dsimp only
              rw [same]
              refine .ignores idle ?_
              simp [Intake.Deaf, intake_current, slot, found]
          | some t =>
              have closed : Moves srv.toRoute s.intake (some .halfClose) _ :=
                .halfCloses (c := t.chan) idle slot (chans_found found)
              simpa [Conn.intake, Conn.modifyTask, modify_eq_set found, Task.chan] using closed
  | reset code message =>
      have dropped : Moves srv.toRoute s.intake (some (.reset code message)) _ :=
        .drops true idle rfl
      rw [← intake_dropStream] at dropped
      exact dropped
  | trailer code message trailers => exact .ignores idle trivial
  | header headers => exact .ignores idle trivial

theorem receive_moves {s : Conn} (ready : s.reader = .ready) (msg : Inbound) :
    Moves srv.toRoute s.intake (s.codec.handles srv.methodUrl (some msg)) (receive srv s msg).intake := by
  unfold receive
  split
  · rename_i close
    subst close
    rw [intake_finish]
    exact .quits true false (ready_intake ready).held
  · cases decoded : decode s.codec srv.methodUrl msg with
    | mk codec frame =>
        have same : ({ s with codec := codec } : Conn).intake = s.intake := rfl
        simp only [Codec.handles, Codec.next, decoded]
        cases frame with
        | none =>
            rw [Option.map_none, same]
            exact .idle
        | some frame =>
            obtain ⟨kind, json⟩ := frame
            exact handleFrame_moves (s := { s with codec := codec }) ready kind json

theorem flush_moves {s s' : Conn} {sent : Bool} (h : flush s sent = some s') :
    Moves srv.toRoute s.intake none s'.intake := by
  obtain ⟨out, rest, queue, sending, _, rfl⟩ | ⟨reset, queue, rejecting, _, rfl⟩ := flush_some h
  case inl =>
      have same : ∀ reader : Reader, reader.held = none → reader.barred = false → reader ≠ .ended →
          ({ s with queue := queue, reader := reader } : Conn).intake = s.intake := by
        intro reader empty open_ going
        simp [Conn.intake, sending, empty, open_, going,
          show (Reader.sending (out :: rest)).held = none from rfl,
          show (Reader.sending (out :: rest)).barred = false from rfl]
      split
      · rw [same .ready rfl rfl (by simp)]
        exact .idle
      · rw [same (.sending rest) rfl rfl (by simp)]
        exact .idle
  case inr =>
      have barred : s.intake.barred = true := by simp [Conn.intake, rejecting, Reader.barred]
      have answered : Moves srv.toRoute s.intake none _ := .answers true barred
      have dropped := intake_dropStream { s with queue := queue }
      have same : ({ s with queue := queue } : Conn).intake = s.intake := rfl
      rw [same] at dropped
      rw [← dropped] at answered
      simpa [Conn.intake, rejecting, Reader.held, Reader.barred] using answered

theorem released {s : Conn} {payload : Bytes} (holding : s.reader = .feeding payload) :
    ({ s with reader := .ready } : Conn).intake = { s.intake with held := none } := by
  simp [Conn.intake, holding, Reader.held, Reader.barred]

theorem feed_moves {s s' : Conn} (h : feed s = some s') :
    Moves srv.toRoute s.intake none s'.intake := by
  unfold feed at h
  split at h
  case h_2 => cases h
  case h_1 payload holding =>
      have held : s.intake.held = some payload := by simp [Conn.intake, holding, Reader.held]
      split at h
      case h_2 missing =>
          cases h
          rw [released holding]
          refine .loses fun c found => ?_
          rw [intake_current] at found
          cases slot : s.slot with
          | none => simp [slot] at found
          | some i => simp [slot] at found missing; simp [missing] at found
      case h_1 i t found =>
          obtain ⟨k, slot, found⟩ := Option.bind_eq_some_iff.mp found
          obtain ⟨u, found, same⟩ := Option.map_eq_some_iff.mp found
          cases same
          simp only [Option.ite_none_right_eq_some, Option.some.injEq] at h
          obtain ⟨room, rfl⟩ := h
          have fed : Moves srv.toRoute s.intake none _ :=
            .feeds (c := t.chan) held slot (chans_found found) room
          simpa [Conn.intake, Conn.modifyTask, modify_eq_set found, Task.chan, holding, Reader.held,
            Reader.barred] using fed

theorem giveUp_moves {s s' : Conn} (h : giveUp s = some s') :
    Moves srv.toRoute s.intake none s'.intake := by
  obtain ⟨rfl, payload, holding⟩ := giveUp_eq h
  rw [released holding]
  refine .loses fun c found => .inr ?_
  simp only [giveUp, holding] at h
  rw [intake_current] at found
  obtain ⟨t, current, rfl⟩ := Option.map_eq_some_iff.mp found
  rw [current] at h
  simp only [Option.ite_none_right_eq_some] at h
  exact h.1

theorem stepTask_moves {s s' : Conn} {i : Nat} {f : Task → Option Task}
    (h : s.stepTask i f = some s')
    (moves : ∀ t t', s.tasks[i]? = some t → f t = some t' → Moves srv.toRoute s.intake none
      { s.intake with chans := s.intake.chans.set i t'.chan }) :
    Moves srv.toRoute s.intake none s'.intake := by
  obtain ⟨t', moved, rfl⟩ := Option.map_eq_some_iff.mp h
  obtain ⟨t, found, moved⟩ := Option.bind_eq_some_iff.mp moved
  have taken := moves t t' found moved
  simpa [Conn.intake, List.map_set] using taken

theorem pull_moves {s : Conn} {i : Nat} {t t' : Task} (found : s.tasks[i]? = some t)
    (h : pull srv t = some t') :
    Moves srv.toRoute s.intake none { s.intake with chans := s.intake.chans.set i t'.chan } := by
  unfold pull at h
  split at h
  case h_2 => cases h
  case h_1 payload rest waiting =>
      simp only [Option.ite_none_right_eq_some, Bool.and_eq_true] at h
      obtain ⟨⟨called, live⟩, h⟩ := h
      split at h
      case h_1 message made =>
          cases h
          exact .pulls (chans_found found) called live waiting made
      case h_2 panics =>
          cases h
          exact .breaks (chans_found found) waiting panics

/-- One step of the connection is one move of its request side. -/
theorem step_moves {s s' : Conn} {e : Event} (h : step srv s e = some s') :
    Moves srv.toRoute s.intake (s.codec.handles srv.methodUrl e.received) s'.intake := by
  cases e with
  | receive msg =>
      simp only [step, Option.ite_none_right_eq_some, Option.some.injEq] at h
      obtain ⟨ready, rfl⟩ := h
      exact receive_moves ready msg
  | hangup =>
      simp only [step, Option.ite_none_right_eq_some, Option.some.injEq] at h
      obtain ⟨ready, rfl⟩ := h
      rw [intake_finish]
      exact .quits true false (ready_intake ready).held
  | flush sent => exact flush_moves h
  | feed => exact feed_moves h
  | giveUp => exact giveUp_moves h
  | write =>
      obtain ⟨_, _, _, _, rfl⟩ := write_some h
      exact .idle
  | writeFail | drain | unwatch =>
      simp only [step, Option.ite_none_right_eq_some, Option.some.injEq] at h
      obtain ⟨_, rfl⟩ := h
      exact .idle
  | sendAway sent =>
      simp only [step, Option.ite_none_right_eq_some, sendAway] at h
      obtain ⟨_, h⟩ := h
      obtain ⟨queue, _, rfl⟩ := Option.map_eq_some_iff.mp h
      exact .idle
  | run i act =>
      obtain ⟨t, t', queue, found, moved, rfl⟩ := step_run h
      rcases runStream_chan moved with same | called
      · have stays : Moves srv.toRoute s.intake none _ := .stays (chans_found found)
        simpa [Conn.intake, Event.received, List.map_set, same] using stays
      · have calls : Moves srv.toRoute s.intake none _ := .calls (chans_found found)
        simpa [Conn.intake, Event.received, List.map_set, called] using calls
  | pull i => exact stepTask_moves h fun t t' found moved => pull_moves found moved
  | unmap i =>
      refine stepTask_moves h fun t t' found moved => ?_
      simp only [Option.ite_none_right_eq_some, Option.some.injEq] at moved
      obtain ⟨_, rfl⟩ := moved
      exact .stops (chans_found found)

end GrpcWebnext.Ws.GoServer
