import GrpcWebnext.Ws.GoServer

/-! When a Go connection opens a stream: the counterpart of the Rust read loop. -/
namespace GrpcWebnext.Ws.GoServer
open Framing (Bytes)

section Fields
variable (s : Conn)

@[simp] theorem abortStream_length : s.abortStream.tasks.length = s.tasks.length := by
  unfold Conn.abortStream
  split
  · rfl
  · exact List.length_modify ..

@[simp] theorem abortStream_codec : s.abortStream.codec = s.codec := by
  unfold Conn.abortStream
  split <;> rfl

@[simp] theorem dropStream_length : s.dropStream.tasks.length = s.tasks.length := by
  unfold Conn.dropStream
  split
  · rfl
  · exact abortStream_length s

@[simp] theorem dropStream_codec : s.dropStream.codec = s.codec := by
  unfold Conn.dropStream
  split
  · rfl
  · exact abortStream_codec s

@[simp] theorem dropStream_reader : s.dropStream.reader = s.reader := by
  unfold Conn.dropStream Conn.abortStream
  split <;> rfl

end Fields

/-- What a step other than an accepted open leaves alone. -/
structure Keeps (s s' : Conn) : Prop where
  length : s'.tasks.length = s.tasks.length
  opened : s.codec.opened → s'.codec.opened

/-- An open frame is accepted: it finds the slot empty and a stream is started. -/
structure Accepts (srv : Config) (s : Conn) (msg : Inbound) (s' : Conn) : Prop where
  reader : s.reader = .ready
  slot : s.slot = none
  spawned : ∃ codec sub json, decode s.codec srv.methodUrl msg = (codec, some (.subscribe sub, json)) ∧
    s' = { s with codec := codec, tasks := s.tasks ++ [spawn srv sub json],
                  slot := some s.tasks.length, streamOpen := true } ∧
    sub.initialPayload.length ≤ srv.maxMessageBytes

theorem Keeps.refl (s : Conn) : Keeps s s := ⟨rfl, id⟩

theorem Keeps.of_eq {s s' : Conn} (length : s'.tasks.length = s.tasks.length)
    (codec : s'.codec = s.codec) : Keeps s s' := ⟨length, fun opened => by rwa [codec]⟩

theorem keeps_dropStream (s : Conn) (reader : Reader) :
    Keeps s { s.dropStream with reader := reader } :=
  .of_eq (dropStream_length s) (dropStream_codec s)

theorem keeps_finish (s : Conn) : Keeps s s.finish :=
  .of_eq (abortStream_length s) (abortStream_codec s)

theorem handleFrame_cases (srv : Config) (s : Conn) (kind : Kind) (json : Bool) :
    Keeps s (handleFrame srv s kind json) ∨
      ∃ sub, kind = .subscribe sub ∧ s.slot = none ∧
        handleFrame srv s kind json =
          { s with tasks := s.tasks ++ [spawn srv sub json], slot := some s.tasks.length,
                   streamOpen := true } ∧
        sub.initialPayload.length ≤ srv.maxMessageBytes := by
  cases kind with
  | subscribe sub =>
      simp only [handleFrame]
      split
      · exact .inl ⟨rfl, id⟩
      · split
        · exact .inl ⟨rfl, id⟩
        · refine .inr ⟨sub, rfl, ?_, rfl, ?_⟩
          · simpa using ‹¬ s.slot.isSome = true›
          · omega
  | message payload =>
      simp only [handleFrame]
      split
      · exact .inl ⟨rfl, id⟩
      · split
        · split
          · exact .inl (.refl s)
          · exact .inl ⟨rfl, id⟩
        · exact .inl (.refl s)
  | halfClose =>
      simp only [handleFrame]
      split
      · exact .inl ⟨List.length_modify .., id⟩
      · exact .inl (.refl s)
  | reset code message => exact .inl (.of_eq (dropStream_length s) (dropStream_codec s))
  | trailer code message trailers => exact .inl (.refl s)
  | header headers => exact .inl (.refl s)

theorem receive_cases (srv : Config) (s : Conn) (msg : Inbound) (ready : s.reader = .ready) :
    Keeps s (receive srv s msg) ∨ Accepts srv s msg (receive srv s msg) := by
  unfold receive
  split
  · exact .inl (keeps_finish s)
  · cases decoded : decode s.codec srv.methodUrl msg with
    | mk codec frame =>
        have opened : s.codec.opened → codec.opened := by
          intro opened
          have stays := decode_opened s.codec srv.methodUrl msg opened
          rwa [decoded] at stays
        cases frame with
        | none => exact .inl ⟨rfl, opened⟩
        | some frame =>
            obtain ⟨kind, json⟩ := frame
            rcases handleFrame_cases srv { s with codec := codec } kind json with
              keeps | ⟨sub, rfl, empty, spawned, small⟩
            · exact .inl ⟨keeps.length, fun before => keeps.opened (opened before)⟩
            · exact .inr ⟨ready, empty, codec, sub, json, decoded, spawned, small⟩

theorem keeps_stepTask {s s' : Conn} {i : Nat} {f : Task → Option Task}
    (h : s.stepTask i f = some s') : Keeps s s' := by
  obtain ⟨t, _, rfl⟩ := Option.map_eq_some_iff.mp h
  exact ⟨List.length_set .., id⟩

theorem flush_keeps {s s' : Conn} {sent : Bool} (h : flush s sent = some s') : Keeps s s' := by
  obtain ⟨_, _, queue, _, _, rfl⟩ | ⟨_, queue, _, _, rfl⟩ := flush_some h
  · exact ⟨rfl, id⟩
  · have keeps := keeps_dropStream { s with queue := queue } (.sending [closeNormal])
    exact ⟨keeps.length, keeps.opened⟩

theorem feed_keeps {s s' : Conn} (h : feed s = some s') : Keeps s s' := by
  obtain ⟨_, rfl | ⟨i, payload, rfl⟩⟩ := feed_some h
  · exact ⟨rfl, id⟩
  · exact ⟨List.length_modify .., id⟩

/-- Only an accepted open frame starts a stream. -/
theorem step_cases {srv : Config} {s s' : Conn} {e : Event} (h : step srv s e = some s') :
    Keeps s s' ∨ ∃ msg, e = .receive msg ∧ Accepts srv s msg s' := by
  cases e with
  | receive msg =>
      simp only [step, Option.ite_none_right_eq_some, Option.some.injEq] at h
      obtain ⟨ready, rfl⟩ := h
      exact (receive_cases srv s msg ready).imp id fun accepts => ⟨msg, rfl, accepts⟩
  | hangup =>
      simp only [step, Option.ite_none_right_eq_some, Option.some.injEq] at h
      obtain ⟨_, rfl⟩ := h
      exact .inl (keeps_finish s)
  | flush sent => exact .inl (flush_keeps h)
  | feed => exact .inl (feed_keeps h)
  | giveUp =>
      obtain ⟨rfl, _⟩ := giveUp_eq h
      exact .inl ⟨rfl, id⟩
  | write =>
      obtain ⟨_, _, _, _, rfl⟩ := write_some h
      exact .inl ⟨rfl, id⟩
  | writeFail =>
      simp only [step, Option.ite_none_right_eq_some, Option.some.injEq] at h
      obtain ⟨_, rfl⟩ := h
      exact .inl ⟨rfl, id⟩
  | drain =>
      simp only [step, Option.ite_none_right_eq_some, Option.some.injEq] at h
      obtain ⟨_, rfl⟩ := h
      exact .inl ⟨rfl, id⟩
  | sendAway sent =>
      simp only [step, Option.ite_none_right_eq_some, sendAway, Option.map_eq_some_iff] at h
      obtain ⟨_, queue, _, rfl⟩ := h
      exact .inl ⟨rfl, id⟩
  | unwatch =>
      simp only [step, Option.ite_none_right_eq_some, Option.some.injEq] at h
      obtain ⟨_, rfl⟩ := h
      exact .inl ⟨rfl, id⟩
  | run i act =>
      obtain ⟨_, _, _, _, _, rfl⟩ := step_run h
      exact .inl ⟨List.length_set .., id⟩
  | pull i => exact .inl (keeps_stepTask h)
  | unmap i => exact .inl (keeps_stepTask h)

theorem handleFrame_codec (srv : Config) (s : Conn) (kind : Kind) (json : Bool) :
    (handleFrame srv s kind json).codec = s.codec := by
  cases kind with
  | subscribe sub =>
      simp only [handleFrame]
      repeat (split; rfl)
      rfl
  | message payload =>
      simp only [handleFrame]
      split
      · rfl
      · split
        · split <;> rfl
        · rfl
  | halfClose =>
      simp only [handleFrame]
      split <;> rfl
  | reset code message => exact dropStream_codec s
  | trailer code message trailers => rfl
  | header headers => rfl

theorem receive_codec (srv : Config) (s : Conn) (msg : Inbound) :
    (receive srv s msg).codec = (decode s.codec srv.methodUrl msg).1 := by
  unfold receive
  split
  · rename_i close
    subst close
    exact abortStream_codec s
  · cases decode s.codec srv.methodUrl msg with
    | mk codec frame =>
        cases frame with
        | none => rfl
        | some frame => exact handleFrame_codec srv { s with codec := codec } frame.1 frame.2

theorem step_codec {srv : Config} {s s' : Conn} {e : Event} (h : step srv s e = some s') :
    s'.codec = (s.codec.next srv.methodUrl e.received).1 := by
  have task : ∀ {i : Nat} {f : Task → Option Task}, s.stepTask i f = some s' → s'.codec = s.codec := by
    intro i f h
    obtain ⟨t, _, rfl⟩ := Option.map_eq_some_iff.mp h
    rfl
  cases e with
  | receive msg =>
      simp only [step, Option.ite_none_right_eq_some, Option.some.injEq] at h
      obtain ⟨_, rfl⟩ := h
      exact receive_codec srv s msg
  | hangup =>
      simp only [step, Option.ite_none_right_eq_some, Option.some.injEq] at h
      obtain ⟨_, rfl⟩ := h
      exact abortStream_codec s
  | drain =>
      simp only [step, Option.ite_none_right_eq_some, Option.some.injEq] at h
      obtain ⟨_, rfl⟩ := h
      rfl
  | flush sent =>
      obtain ⟨_, _, queue, _, _, rfl⟩ | ⟨_, queue, _, _, rfl⟩ := flush_some h
      · rfl
      · exact dropStream_codec _
  | giveUp =>
      obtain ⟨rfl, _⟩ := giveUp_eq h
      rfl
  | sendAway sent =>
      simp only [step, Option.ite_none_right_eq_some, sendAway, Option.map_eq_some_iff] at h
      obtain ⟨_, queue, _, rfl⟩ := h
      rfl
  | unwatch =>
      simp only [step, Option.ite_none_right_eq_some, Option.some.injEq] at h
      obtain ⟨_, rfl⟩ := h
      rfl
  | feed => obtain ⟨_, rfl | ⟨i, payload, rfl⟩⟩ := feed_some h <;> rfl
  | write =>
      obtain ⟨_, _, _, _, rfl⟩ := write_some h
      rfl
  | writeFail =>
      simp only [step, Option.ite_none_right_eq_some, Option.some.injEq] at h
      obtain ⟨_, rfl⟩ := h
      rfl
  | run i act =>
      obtain ⟨_, _, _, _, _, rfl⟩ := step_run h
      rfl
  | pull i => exact task h
  | unmap i => exact task h

/-- A binary open frame that is accepted although a stream was opened before. -/
def reopens (srv : Config) (s : Conn) : Event → Bool
  | .receive (.binary (some (some (.subscribe sub)))) =>
      s.slot.isNone && !s.tasks.isEmpty && !s.codec.json.getD false &&
        sub.initialPayload.length ≤ srv.maxMessageBytes
  | _ => false

/-- At most one stream was opened, and none before the first open frame. -/
structure OneStream (s : Conn) : Prop where
  one : s.tasks.length ≤ 1
  unopened : s.codec.opened = false → s.tasks = []

theorem OneStream.init (json : Option Bool) : OneStream (.init json) := ⟨Nat.zero_le 1, fun _ => rfl⟩

theorem Accepts.first {srv : Config} {s s' : Conn} {msg : Inbound} (inv : OneStream s)
    (accepts : Accepts srv s msg s') (once : reopens srv s (.receive msg) = false) :
    s.tasks = [] := by
  obtain ⟨codec, sub, json, decoded, _, small⟩ := accepts.spawned
  obtain ⟨_, ⟨raw, rfl, _, unlocked, same⟩ | ⟨f, _, _, unopened⟩⟩ := decode_subscribe decoded
  · rw [← same] at small
    simpa [reopens, accepts.slot, unlocked, small] using once
  · exact inv.unopened unopened

theorem OneStream.step {srv : Config} {s s' : Conn} {e : Event} (inv : OneStream s)
    (once : reopens srv s e = false) (h : step srv s e = some s') : OneStream s' := by
  rcases step_cases h with keeps | ⟨msg, rfl, accepts⟩
  · refine ⟨keeps.length ▸ inv.one, ?_⟩
    intro unopened
    have before : s.codec.opened = false := by
      cases opened : s.codec.opened with
      | false => rfl
      | true =>
          rw [keeps.opened opened] at unopened
          cases unopened
    have none := inv.unopened before
    rw [← List.length_eq_zero_iff] at none ⊢
    rw [keeps.length, none]
  · have none := accepts.first inv once
    obtain ⟨codec, sub, json, decoded, rfl, _⟩ := accepts.spawned
    refine ⟨?_, ?_⟩
    · simp only [none, List.nil_append, List.length_singleton, Nat.le_refl]
    · intro unopened
      have opened := (decode_subscribe decoded).1
      rw [unopened] at opened
      cases opened

theorem run_oneStream {srv : Config} {json : Option Bool} {es : List Event} {s : Conn}
    (once : Machine.Along (step srv) (fun s e => reopens srv s e = false) (.init json) es)
    (h : Machine.run (step srv) (.init json) es = some s) : OneStream s :=
  Machine.run_invariant_along (fun _ _ _ inv once h => inv.step once h) (.init json) once h

theorem dispatched_le (s : Conn) : s.dispatched ≤ s.tasks.length := List.countP_le_length

end GrpcWebnext.Ws.GoServer
