import GrpcWebnext.Ws.RustIntake
import GrpcWebnext.Ws.Server

/-! A Rust connection writes in one codec: every message it has written, queued or
pending is in the codec its read loop is locked to. With its request side this makes it
one of the servers. -/
namespace GrpcWebnext.Ws.RustServer
open Framing (Bytes)
open Voices (Spoken)
variable {srv : Config} {codec : Option Bool} {s s' : Conn}

def Reader.outs : Reader → List Out
  | .sending outs _ => outs
  | _ => []

def Task.voice (t : Task) : Voice := ⟨t.json, t.pending⟩

def Conn.voices (s : Conn) : Voices := ⟨s.written, s.queue, s.reader.outs, s.tasks.map Task.voice⟩

theorem modifyTask_voices (i : Nat) {f : Task → Task} (same : ∀ t, (f t).voice = t.voice) :
    (s.modifyTask i f).voices = s.voices := by
  unfold Conn.voices Conn.modifyTask
  have kept : ∀ t, (f t).voice = id t.voice := same
  rw [map_modify kept, List.modify_id]

theorem dropStream_voices : s.dropStream.voices = s.voices := by
  unfold Conn.dropStream
  split
  · rfl
  · rename_i i _
    exact modifyTask_voices (s := s) i (f := Task.abort) fun t => rfl

theorem finish_voices : s.finish.voices = { s.voices with reader := [] } := by
  rw [← dropStream_voices (s := s)]
  rfl

/-- A task that moves without a word. -/
theorem stepTask_voices {i : Nat} {f : Task → Option Task}
    (same : ∀ t t', f t = some t' → t'.voice = t.voice) (h : s.stepTask i f = some s') :
    s'.voices = s.voices := by
  obtain ⟨t', moved, rfl⟩ := Option.map_eq_some_iff.mp h
  obtain ⟨t, found, moved⟩ := Option.bind_eq_some_iff.mp moved
  unfold Conn.voices
  rw [map_set_of_eq found (same t t' moved)]

theorem push_spoken {out : Out} {queue : List Out} (inv : s.voices.Spoken codec)
    (speaks : out.Speaks codec) (pushed : push s out = some queue) :
    ∀ out ∈ queue, out.Speaks codec := by
  unfold push at pushed
  split at pushed
  · cases pushed
    exact inv.queue
  · simp only [Option.ite_none_right_eq_some, Option.some.injEq] at pushed
    obtain ⟨_, rfl⟩ := pushed
    exact inv.push speaks

theorem handleFrame_spoken {json : Bool} (inv : s.voices.Spoken (some json)) (kind : Kind) :
    (handleFrame srv s kind json).voices.Spoken (some json) := by
  cases kind with
  | subscribe sub =>
      simp only [handleFrame]
      split
      · refine inv.read fun out inside => ?_
        rw [List.mem_singleton.mp inside]
        exact speaks_refused rfl
      · split
        · exact inv.read (speaks_ending rfl rfl)
        · split
          · exact inv.read (speaks_ending rfl rfl)
          · have opened := inv.opened (rfl : some json = some json)
            simpa [Conn.voices, Task.voice, spawn] using opened
  | message payload =>
      simp only [handleFrame]
      split
      · rw [← dropStream_voices] at inv
        exact inv.read (speaks_ending rfl rfl)
      · split
        · split
          · exact inv.hush
          · exact inv
        · exact inv
  | halfClose =>
      simp only [handleFrame]
      split
      · rwa [modifyTask_voices]
        exact fun t => rfl
      · exact inv
  | reset code message =>
      rw [← dropStream_voices] at inv
      exact inv
  | trailer code message trailers => exact inv
  | header headers => exact inv

theorem settle_spoken {t : Task} (spoken : t.voice.Spoken codec) : (settle t).voice.Spoken codec := by
  unfold settle
  split
  · refine ⟨spoken.json, fun out inside => ?_⟩
    rw [List.mem_singleton.mp inside]
    exact speaks_close _ _
  · exact ⟨spoken.json, spoken.outs⟩
  · exact spoken

/-- The stream task encodes in the codec it was opened with. -/
theorem runStream_spoken {t t' : Task} {act : Act} {queue : List Out} (inv : s.voices.Spoken codec)
    (spoken : t.voice.Spoken codec) (h : runStream srv s t act = some (t', queue)) :
    t'.voice.Spoken codec ∧ ∀ out ∈ queue, out.Speaks codec := by
  have single : ∀ {kind : Kind}, kind.hasJson = true →
      ∀ out ∈ [Out.frame t.json kind], out.Speaks codec := by
    intro kind form out inside
    rw [List.mem_singleton.mp inside]
    exact speaks_frame spoken.json form
  unfold runStream at h
  split at h
  case h_1 | h_3 | h_7 =>
      cases h
      exact ⟨⟨spoken.json, spoken.outs⟩, inv.queue⟩
  case h_2 =>
      cases h
      exact ⟨⟨spoken.json, speaks_ending spoken.json rfl⟩, inv.queue⟩
  case h_4 | h_5 | h_8 | h_9 =>
      cases h
      exact ⟨⟨spoken.json, single rfl⟩, inv.queue⟩
  case h_6 bytes headers trailers buf _ _ =>
      have locked : codec = some t.json := spoken.json
      have encoded := speaks_encodeAll srv.toRoute locked
        ((Framing.parse (buf ++ bytes)).1.map Prod.snd)
      split at h
      rename_i frames left parsed
      rw [parsed] at encoded
      split at h
      · rename_i outs made
        rw [made] at encoded
        cases h
        exact ⟨⟨spoken.json, encoded⟩, inv.queue⟩
      · rename_i outs e made
        rw [made] at encoded
        cases h
        refine ⟨⟨spoken.json, fun out inside => ?_⟩, inv.queue⟩
        rcases List.mem_append.mp inside with old | new
        · exact encoded out old
        · exact single rfl out new
  case h_10 out rest pending =>
      have outs : ∀ o ∈ t.pending, o.Speaks codec := spoken.outs
      rw [pending] at outs
      obtain ⟨speaks, others⟩ := List.forall_mem_cons.mp outs
      have behind : (Task.voice { t with pending := rest }).Spoken codec := ⟨spoken.json, others⟩
      split at h
      · cases h
        refine ⟨?_, inv.queue⟩
        unfold sendFailed
        split
        · refine ⟨spoken.json, fun out inside => ?_⟩
          rw [List.mem_singleton.mp inside]
          exact speaks_close _ _
        · exact settle_spoken behind
      · obtain ⟨queued, pushed, same⟩ := Option.map_eq_some_iff.mp h
        cases same
        exact ⟨settle_spoken behind, push_spoken inv speaks pushed⟩
  case h_11 | h_12 | h_13 =>
      simp only [runStream.expired, Option.ite_none_left_eq_some, Option.some.injEq,
        Prod.mk.injEq] at h
      obtain ⟨_, rfl, rfl⟩ := h
      exact ⟨⟨spoken.json, speaks_ending spoken.json rfl⟩, inv.queue⟩
  case h_14 => cases h

theorem receive_spoken (inv : s.voices.Spoken s.codec.json) (msg : Inbound) :
    (receive srv s msg).voices.Spoken (receive srv s msg).codec.json := by
  unfold receive
  split
  · rw [finish_voices]
    exact (dropStream_codec s ▸ inv.hush : Spoken s.dropStream.codec.json _)
  · cases decoded : decode s.codec srv.methodUrl msg with
    | mk codec frame =>
        obtain ⟨kept, locked⟩ := inv.decoded decoded
        cases frame with
        | none => exact kept
        | some frame =>
            obtain ⟨kind, json⟩ := frame
            rw [locked kind json rfl] at kept
            dsimp only
            rw [handleFrame_codec, locked kind json rfl]
            exact handleFrame_spoken (s := { s with codec := codec }) kept kind

theorem pull_voice {t t' : Task} (h : pull srv t = some t') : t'.voice = t.voice := by
  unfold pull at h
  split at h
  · simp only [Option.ite_none_right_eq_some] at h
    obtain ⟨_, h⟩ := h
    split at h <;> (cases h; rfl)
  · cases h

/-- One step of a task keeps what is said of it. -/
theorem step_stays {e : Event} (h : step srv s e = some s') (unread : e.received = none)
    (same : s'.voices = s.voices) (inv : s.voices.Spoken s.codec.json) :
    s'.voices.Spoken s'.codec.json := by
  rw [step_codec h, unread, same]
  exact inv

/-- One step keeps everything in the codec. -/
theorem step_spoken {e : Event} (h : step srv s e = some s') (inv : s.voices.Spoken s.codec.json) :
    s'.voices.Spoken s'.codec.json := by
  have codec := step_codec h
  cases e with
  | receive msg =>
      simp only [step, Option.ite_none_right_eq_some, Option.some.injEq] at h
      obtain ⟨_, rfl⟩ := h
      exact receive_spoken inv msg
  | hangup =>
      simp only [step, Option.ite_none_right_eq_some, Option.some.injEq] at h
      obtain ⟨_, rfl⟩ := h
      rw [codec, finish_voices]
      exact inv.hush
  | drain =>
      simp only [step, Option.ite_none_right_eq_some, Option.some.injEq] at h
      obtain ⟨_, rfl⟩ := h
      rw [codec]
      unfold observeDrain
      split
      · refine inv.read fun out inside => ?_
        rw [List.mem_singleton.mp inside]
        exact speaks_close _ _
      · exact inv
  | flush =>
      obtain ⟨out, rest, thenEnd, queue, sending, pushed, moved⟩ := flush_some h
      have outs : ∀ o ∈ s.reader.outs, o.Speaks s.codec.json := inv.reader
      rw [sending] at outs
      obtain ⟨speaks, others⟩ := List.forall_mem_cons.mp outs
      have queued := inv.queued (push_spoken inv speaks pushed)
      rw [codec]
      rcases moved with ⟨_, _, rfl⟩ | ⟨_, _, rfl⟩ | ⟨_, rfl⟩
      · rw [finish_voices]
        exact queued.hush
      · exact queued.hush
      · exact queued.read others
  | feed =>
      rw [codec]
      obtain ⟨_, rfl | ⟨i, payload, rfl⟩⟩ := feed_some h
      · exact inv.hush
      · have fed := modifyTask_voices (s := { s with reader := .ready }) i
          (f := fun t => { t with requests := t.requests ++ [payload] }) fun t => rfl
        exact fed ▸ inv.hush
  | write =>
      obtain ⟨out, rest, queued, _, rfl⟩ := write_some h
      exact inv.write queued
  | writeFail =>
      simp only [step, Option.ite_none_right_eq_some, Option.some.injEq] at h
      obtain ⟨_, rfl⟩ := h
      exact inv
  | run i act =>
      obtain ⟨t, t', queue, found, _, moved, rfl⟩ := step_run h
      have voice : t.voice ∈ s.voices.streams := List.mem_map_of_mem (List.mem_of_getElem? found)
      obtain ⟨spoken, voiced⟩ := runStream_spoken inv (inv.streams _ voice) moved
      have set := (inv.queued voiced).set (i := i) spoken
      simpa [Conn.voices, List.map_set] using set
  | wake i =>
      refine step_stays h rfl (stepTask_voices (fun t t' moved => ?_) h) inv
      simp only [Option.ite_none_right_eq_some, Option.some.injEq] at moved
      obtain ⟨_, rfl⟩ := moved
      rfl
  | park i =>
      refine step_stays h rfl (stepTask_voices (fun t t' moved => ?_) h) inv
      simp only [Option.ite_none_right_eq_some, Option.some.injEq] at moved
      obtain ⟨_, rfl⟩ := moved
      split <;> rfl
  | reap i =>
      refine step_stays h rfl (stepTask_voices (fun t t' moved => ?_) h) inv
      simp only [Option.ite_none_right_eq_some, Option.some.injEq] at moved
      obtain ⟨_, rfl⟩ := moved
      rfl
  | pull i => exact step_stays h rfl (stepTask_voices (fun t t' moved => pull_voice moved) h) inv
  | dropBody i =>
      refine step_stays h rfl (stepTask_voices (fun t t' moved => ?_) h) inv
      simp only [Option.ite_none_right_eq_some, Option.some.injEq] at moved
      obtain ⟨_, rfl⟩ := moved
      rfl

theorem received_eq {e : Event} {msg : Inbound} (received : e.received = some msg) :
    e = .receive msg := by
  cases e <;> cases received
  rfl

theorem step_opens {e : Event} (h : step srv s e = some s')
    (more : s'.intake.chans.length ≠ s.intake.chans.length) :
    ∃ msg codec' sub json, e.received = some msg ∧
      decode s.codec srv.methodUrl msg = (codec', some (.subscribe sub, json)) ∧
      s.intake.Ready ∧ s'.intake = { s.intake with
        slot := some s.intake.chans.length
        chans := s.intake.chans ++ [.spawn srv.toRoute sub json] } := by
  rcases step_cases h with keeps | ⟨msg, rfl, accepts⟩
  · simp [Conn.intake, keeps.length] at more
  · obtain ⟨codec', sub, json, decoded, rfl, _⟩ := accepts.spawned
    refine ⟨msg, codec', sub, json, rfl, decoded, ready_intake accepts.reader, ?_⟩
    simp [Conn.intake, chan_spawn]

theorem step_dropped {e : Event} {msg : Inbound} (h : step srv s e = some s')
    (received : e.received = some msg) (data : msg ≠ .close)
    (dropped : decode s.codec srv.methodUrl msg = (s.codec, none)) : s' = s := by
  cases received_eq received
  simp only [step, Option.ite_none_right_eq_some, Option.some.injEq] at h
  obtain ⟨_, rfl⟩ := h
  rw [receive, if_neg data, dropped]

/-- The Rust server, as what both servers have in common. -/
def server (srv : Config) : Server srv.toRoute Conn Event where
  init := .init
  step := step srv
  received := Event.received
  codec := Conn.codec
  intake := Conn.intake
  voices := Conn.voices
  init_codec _ := rfl
  init_intake _ := by simp [Conn.init, Conn.intake, Reader.held]
  init_voices _ := rfl
  step_codec := step_codec
  step_moves := step_moves
  step_opens := step_opens
  step_spoken := step_spoken
  step_dropped := step_dropped

/-- The types of the data messages an event brings. -/
def Event.types (e : Event) : List Bool := typesOf e.received

end GrpcWebnext.Ws.RustServer
