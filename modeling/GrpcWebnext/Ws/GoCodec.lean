import GrpcWebnext.Ws.GoIntake
import GrpcWebnext.Ws.Server

/-! A Go connection writes in one codec. The messages of a stream are those pending and,
while it looks whether it was aborted, those it is going to end on. -/
namespace GrpcWebnext.Ws.GoServer
open Framing (Bytes)
open Voices (Spoken)
variable {srv : Config} {codec : Option Bool} {s s' : Conn}

def Reader.outs : Reader → List Out
  | .sending outs => outs
  | .rejecting reset => [reset]
  | _ => []

def Task.outs (t : Task) : List Out :=
  t.pending ++ match t.point with
    | .ending outs => outs
    | _ => []

def Task.voice (t : Task) : Voice := ⟨t.json, t.outs⟩

def Conn.voices (s : Conn) : Voices := ⟨s.written, s.queue, s.reader.outs, s.tasks.map Task.voice⟩

theorem modifyTask_voices (i : Nat) {f : Task → Task} (same : ∀ t, (f t).voice = t.voice) :
    (s.modifyTask i f).voices = s.voices := by
  unfold Conn.voices Conn.modifyTask
  have kept : ∀ t, (f t).voice = id t.voice := same
  rw [map_modify kept, List.modify_id]

theorem abortStream_voices : s.abortStream.voices = s.voices := by
  unfold Conn.abortStream
  split
  · rfl
  · exact modifyTask_voices _ fun t => rfl

theorem dropStream_voices : s.dropStream.voices = s.voices := by
  unfold Conn.dropStream
  split
  · rfl
  · exact abortStream_voices (s := s)

theorem finish_voices : s.finish.voices = { s.voices with reader := [] } := by
  rw [← abortStream_voices (s := s)]
  rfl

theorem stepTask_voices {i : Nat} {f : Task → Option Task}
    (same : ∀ t t', f t = some t' → t'.voice = t.voice) (h : s.stepTask i f = some s') :
    s'.voices = s.voices := by
  obtain ⟨t', moved, rfl⟩ := Option.map_eq_some_iff.mp h
  obtain ⟨t, found, moved⟩ := Option.bind_eq_some_iff.mp moved
  unfold Conn.voices
  rw [map_set_of_eq found (same t t' moved)]

theorem push_spoken {out : Out} {queue : List Out} {sent : Bool} (inv : s.voices.Spoken codec)
    (speaks : out.Speaks codec) (pushed : push s out sent = some queue) :
    ∀ out ∈ queue, out.Speaks codec := by
  unfold push at pushed
  split at pushed
  · simp only [Option.ite_none_right_eq_some, Option.some.injEq] at pushed
    obtain ⟨_, rfl⟩ := pushed
    exact inv.push speaks
  · simp only [Option.ite_none_left_eq_some, Option.some.injEq] at pushed
    obtain ⟨_, rfl⟩ := pushed
    exact inv.queue

theorem handleFrame_spoken {json : Bool} (inv : s.voices.Spoken (some json)) (kind : Kind) :
    (handleFrame srv s kind json).voices.Spoken (some json) := by
  cases kind with
  | subscribe sub =>
      simp only [handleFrame]
      split
      · refine inv.read fun out inside => ?_
        rw [List.mem_singleton.mp inside]
        exact speaks_refused rfl
      · split
        · exact inv.read (speaks_ending rfl rfl)
        · have opened := inv.opened (rfl : some json = some json)
          simpa [Conn.voices, Task.voice, Task.outs, spawn] using opened
  | message payload =>
      simp only [handleFrame]
      split
      · refine inv.read fun out inside => ?_
        rw [List.mem_singleton.mp inside]
        exact speaks_frame rfl rfl
      · split
        · split
          · exact inv
          · exact inv.hush
        · exact inv
  | halfClose =>
      simp only [handleFrame]
      split
      · rwa [modifyTask_voices]
        exact fun t => rfl
      · exact inv
  | reset code message =>
      rw [← dropStream_voices] at inv
      exact inv
  | trailer code message trailers => exact inv
  | header headers => exact inv

/-- A stream whose messages are all known by their lists. -/
theorem Task.spoken_of {t : Task} (json : codec = some t.json)
    (pending : ∀ out ∈ t.pending, out.Speaks codec)
    (ending : ∀ outs, t.point = .ending outs → ∀ out ∈ outs, out.Speaks codec) : t.voice.Spoken codec := by
  refine ⟨json, fun out inside => ?_⟩
  rcases List.mem_append.mp inside with waits | ends
  · exact pending out waits
  · split at ends
    · exact ending _ ‹_› out ends
    · cases ends

theorem Task.pending_spoken {t : Task} (spoken : t.voice.Spoken codec) :
    ∀ out ∈ t.pending, out.Speaks codec :=
  fun out inside => spoken.outs out (List.mem_append_left _ inside)

theorem Task.ending_spoken {t : Task} (spoken : t.voice.Spoken codec) {outs : List Out}
    (point : t.point = .ending outs) : ∀ out ∈ outs, out.Speaks codec := by
  intro out inside
  refine spoken.outs out (List.mem_append_right _ ?_)
  simp only [point]
  exact inside

theorem settle_spoken {t : Task} (spoken : t.voice.Spoken codec) : (settle t).voice.Spoken codec := by
  unfold settle
  split
  · exact Task.spoken_of spoken.json (Task.pending_spoken (t := t) spoken) fun _ point => by cases point
  · exact spoken

theorem sendFailed_spoken {t : Task} {out : Out} {rest : List Out} (spoken : t.voice.Spoken codec)
    (behind : (Task.voice { t with pending := rest }).Spoken codec) :
    (sendFailed t out rest).voice.Spoken codec := by
  unfold sendFailed
  split
  · exact settle_spoken behind
  · exact settle_spoken behind
  · exact Task.spoken_of spoken.json (fun _ inside => by cases inside) fun _ point => by cases point

/-- The stream goroutine encodes in the codec it was opened with. -/
theorem runStream_spoken {t t' : Task} {act : Act} {queue : List Out} (inv : s.voices.Spoken codec)
    (spoken : t.voice.Spoken codec) (h : runStream srv s t act = some (t', queue)) :
    t'.voice.Spoken codec ∧ ∀ out ∈ queue, out.Speaks codec := by
  -- The stream goes on to its end with the two messages it ends on.
  have ends : ∀ {pending : List Out} {kind : Kind}, (∀ out ∈ pending, out.Speaks codec) →
      kind.hasJson = true →
      (Task.voice ({ t with pending := pending }.goTo
        (.ending [.frame t.json kind, closeNormal]))).Spoken codec := by
    intro pending kind voiced form
    refine Task.spoken_of spoken.json voiced fun outs point => ?_
    cases point
    exact speaks_ending spoken.json form
  unfold runStream at h
  split at h
  case h_1 none point | h_3 none point =>
      cases h
      exact ⟨Task.spoken_of spoken.json (Task.pending_spoken (t := t) spoken)
        (fun _ point => by cases point), inv.queue⟩
  case h_2 none point =>
      simp only [Option.ite_none_right_eq_some, Option.some.injEq, Prod.mk.injEq] at h
      obtain ⟨_, rfl, rfl⟩ := h
      exact ⟨ends (Task.pending_spoken (t := t) spoken) rfl, inv.queue⟩
  case h_4 headers none point =>
      cases h
      refine ⟨Task.spoken_of spoken.json (fun out inside => ?_) (fun _ point => by cases point), inv.queue⟩
      rw [List.mem_singleton.mp inside]
      exact speaks_frame spoken.json rfl
  case h_5 none point =>
      cases h
      exact ⟨ends (Task.pending_spoken (t := t) spoken) rfl, inv.queue⟩
  case h_6 bytes headers buf none point =>
      have locked : codec = some t.json := spoken.json
      have encoded := speaks_encodeAll srv.toRoute locked
        ((Framing.parse (buf ++ bytes)).1.map Prod.snd)
      split at h
      rename_i frames left parsed
      rw [parsed] at encoded
      split at h
      · rename_i outs made
        rw [made] at encoded
        cases h
        exact ⟨Task.spoken_of spoken.json encoded (fun _ point => by cases point), inv.queue⟩
      · rename_i outs e made
        rw [made] at encoded
        cases h
        exact ⟨ends encoded rfl, inv.queue⟩
  case h_7 trailers headers buf none point =>
      cases h
      refine ⟨ends (Task.pending_spoken (t := t) spoken) ?_, inv.queue⟩
      split <;> rfl
  case h_8 outs none point =>
      split at h
      · cases h
        exact ⟨Task.spoken_of spoken.json (Task.pending_spoken (t := t) spoken)
          (fun _ point => by cases point), inv.queue⟩
      · cases h
        exact ⟨Task.spoken_of spoken.json (Task.ending_spoken (t := t) spoken point)
          (fun _ point => by cases point), inv.queue⟩
  case h_9 sent out rest pending =>
      obtain ⟨speaks, others⟩ := List.forall_mem_cons.mp (pending ▸ (Task.pending_spoken (t := t) spoken))
      have behind : (Task.voice { t with pending := rest }).Spoken codec :=
        Task.spoken_of spoken.json others fun outs point => Task.ending_spoken (t := t) spoken point
      split at h
      · cases h
        exact ⟨sendFailed_spoken spoken behind, inv.queue⟩
      · obtain ⟨queued, pushed, same⟩ := Option.map_eq_some_iff.mp h
        cases same
        refine ⟨?_, push_spoken inv speaks pushed⟩
        split
        · exact settle_spoken behind
        · exact sendFailed_spoken spoken behind
  case h_10 =>
      simp only [Option.ite_none_right_eq_some, Option.some.injEq, Prod.mk.injEq] at h
      obtain ⟨_, rfl, rfl⟩ := h
      exact ⟨⟨spoken.json, spoken.outs⟩, inv.queue⟩
  case h_11 => cases h

theorem receive_spoken (inv : s.voices.Spoken s.codec.json) (msg : Inbound) :
    (receive srv s msg).voices.Spoken (receive srv s msg).codec.json := by
  unfold receive
  split
  · rw [finish_voices]
    exact (abortStream_codec s ▸ inv.hush : Spoken s.abortStream.codec.json _)
  · cases decoded : decode s.codec srv.methodUrl msg with
    | mk codec frame =>
        obtain ⟨kept, locked⟩ := inv.decoded decoded
        cases frame with
        | none => exact kept
        | some frame =>
            obtain ⟨kind, json⟩ := frame
            rw [locked kind json rfl] at kept
            dsimp only
            rw [handleFrame_codec, locked kind json rfl]
            exact handleFrame_spoken (s := { s with codec := codec }) kept kind

theorem pull_voice {t t' : Task} (h : pull srv t = some t') : t'.voice = t.voice := by
  unfold pull at h
  split at h
  · simp only [Option.ite_none_right_eq_some] at h
    obtain ⟨_, h⟩ := h
    split at h <;> (cases h; rfl)
  · cases h

/-- One step of a task keeps what is said of it. -/
theorem step_stays {e : Event} (h : step srv s e = some s') (unread : e.received = none)
    (same : s'.voices = s.voices) (inv : s.voices.Spoken s.codec.json) :
    s'.voices.Spoken s'.codec.json := by
  rw [step_codec h, unread, same]
  exact inv

/-- One step keeps everything in the codec. -/
theorem step_spoken {e : Event} (h : step srv s e = some s') (inv : s.voices.Spoken s.codec.json) :
    s'.voices.Spoken s'.codec.json := by
  have codec := step_codec h
  cases e with
  | receive msg =>
      simp only [step, Option.ite_none_right_eq_some, Option.some.injEq] at h
      obtain ⟨_, rfl⟩ := h
      exact receive_spoken inv msg
  | hangup =>
      simp only [step, Option.ite_none_right_eq_some, Option.some.injEq] at h
      obtain ⟨_, rfl⟩ := h
      rw [codec, finish_voices]
      exact inv.hush
  | drain =>
      simp only [step, Option.ite_none_right_eq_some, Option.some.injEq] at h
      obtain ⟨_, rfl⟩ := h
      exact inv
  | flush sent =>
      rw [codec]
      obtain ⟨out, rest, queue, sending, pushed, rfl⟩ | ⟨reset, queue, rejecting, pushed, rfl⟩ :=
        flush_some h
      · have outs : ∀ o ∈ s.reader.outs, o.Speaks s.codec.json := inv.reader
        rw [sending] at outs
        obtain ⟨speaks, others⟩ := List.forall_mem_cons.mp outs
        have queued := inv.queued (push_spoken inv speaks pushed)
        split
        · exact queued.hush
        · exact queued.read others
      · have outs : ∀ o ∈ s.reader.outs, o.Speaks s.codec.json := inv.reader
        rw [rejecting] at outs
        have queued : Spoken s.codec.json ({ s with queue := queue } : Conn).dropStream.voices := by
          rw [dropStream_voices]
          exact inv.queued (push_spoken inv (outs reset (List.mem_singleton_self reset)) pushed)
        refine queued.read fun out inside => ?_
        rw [List.mem_singleton.mp inside]
        exact speaks_close _ _
  | feed =>
      rw [codec]
      obtain ⟨_, rfl | ⟨i, payload, rfl⟩⟩ := feed_some h
      · exact inv.hush
      · have fed := modifyTask_voices (s := { s with reader := .ready }) i
          (f := fun t => { t with requests := t.requests ++ [payload] }) fun t => rfl
        exact fed ▸ inv.hush
  | giveUp =>
      obtain ⟨rfl, _⟩ := giveUp_eq h
      exact inv.hush
  | sendAway sent =>
      simp only [step, Option.ite_none_right_eq_some, sendAway, Option.map_eq_some_iff] at h
      obtain ⟨_, queue, pushed, rfl⟩ := h
      exact inv.queued (push_spoken inv (speaks_close _ _) pushed)
  | unwatch =>
      simp only [step, Option.ite_none_right_eq_some, Option.some.injEq] at h
      obtain ⟨_, rfl⟩ := h
      exact inv
  | write =>
      obtain ⟨out, rest, queued, _, rfl⟩ := write_some h
      exact inv.write queued
  | writeFail =>
      simp only [step, Option.ite_none_right_eq_some, Option.some.injEq] at h
      obtain ⟨_, rfl⟩ := h
      exact inv
  | run i act =>
      obtain ⟨t, t', queue, found, moved, rfl⟩ := step_run h
      have voice : t.voice ∈ s.voices.streams := List.mem_map_of_mem (List.mem_of_getElem? found)
      obtain ⟨spoken, voiced⟩ := runStream_spoken inv (inv.streams _ voice) moved
      have set := (inv.queued voiced).set (i := i) spoken
      simpa [Conn.voices, List.map_set] using set
  | pull i => exact step_stays h rfl (stepTask_voices (fun t t' moved => pull_voice moved) h) inv
  | unmap i =>
      refine step_stays h rfl (stepTask_voices (fun t t' moved => ?_) h) inv
      simp only [Option.ite_none_right_eq_some, Option.some.injEq] at moved
      obtain ⟨_, rfl⟩ := moved
      rfl

theorem received_eq {e : Event} {msg : Inbound} (received : e.received = some msg) :
    e = .receive msg := by
  cases e <;> cases received
  rfl

theorem step_opens {e : Event} (h : step srv s e = some s')
    (more : s'.intake.chans.length ≠ s.intake.chans.length) :
    ∃ msg codec' sub json, e.received = some msg ∧
      decode s.codec srv.methodUrl msg = (codec', some (.subscribe sub, json)) ∧
      s.intake.Ready ∧ s'.intake = { s.intake with
        slot := some s.intake.chans.length
        chans := s.intake.chans ++ [.spawn srv.toRoute sub json] } := by
  rcases step_cases h with keeps | ⟨msg, rfl, accepts⟩
  · simp [Conn.intake, keeps.length] at more
  · obtain ⟨codec', sub, json, decoded, rfl, _⟩ := accepts.spawned
    refine ⟨msg, codec', sub, json, rfl, decoded, ready_intake accepts.reader, ?_⟩
    simp [Conn.intake, chan_spawn]

theorem step_dropped {e : Event} {msg : Inbound} (h : step srv s e = some s')
    (received : e.received = some msg) (data : msg ≠ .close)
    (dropped : decode s.codec srv.methodUrl msg = (s.codec, none)) : s' = s := by
  cases received_eq received
  simp only [step, Option.ite_none_right_eq_some, Option.some.injEq] at h
  obtain ⟨_, rfl⟩ := h
  rw [receive, if_neg data, dropped]

/-- The Go server, as what both servers have in common. -/
def server (srv : Config) : Server srv.toRoute Conn Event where
  init := .init
  step := step srv
  received := Event.received
  codec := Conn.codec
  intake := Conn.intake
  voices := Conn.voices
  init_codec _ := rfl
  init_intake _ := by simp [Conn.init, Conn.intake, Reader.held, Reader.barred]
  init_voices _ := rfl
  step_codec := step_codec
  step_moves := step_moves
  step_opens := step_opens
  step_spoken := step_spoken
  step_dropped := step_dropped

def Event.types (e : Event) : List Bool := typesOf e.received

end GrpcWebnext.Ws.GoServer
