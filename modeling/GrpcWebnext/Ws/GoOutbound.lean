import GrpcWebnext.Ws.GoStreams

/-! What a Go connection writes. The drain watcher adds at most a Close; the stream
goroutine and the read loop share the rest. -/
namespace GrpcWebnext.Ws.GoServer
open Framing (Bytes)

def Conn.stage (s : Conn) : Option Stage := Machine.run track .fresh (s.written ++ s.queue)

/-- The read loop is rejecting the stream; its Reset is still to be queued (`false`) or
only its Close is (`true`). -/
def Reader.rejection : Reader → Option Bool
  | .sending [.close _ _] => some true
  | .sending [_, .close _ _] => some false
  | .rejecting _ => some false
  | _ => none

/-- The frames a read loop answers with a Reset and a Close. -/
def rejectsKind (srv : Config) (s : Conn) : Kind → Bool
  | .message payload => srv.maxMessageBytes < payload.length
  | .subscribe sub => s.slot.isNone && srv.maxMessageBytes < sub.initialPayload.length
  | _ => false

def rejects (srv : Config) (s : Conn) (msg : Inbound) : Bool :=
  (decode s.codec srv.methodUrl msg).2.any fun frame => rejectsKind srv s frame.1

/-- The steps on which the two writers of a connection get into each other's way. -/
def clashes (srv : Config) (s : Conn) : Event → Bool
  | .receive msg => reopens srv s (.receive msg) || (rejects srv s msg && s.stage = some .ended)
  | .run i (.send _) => match s.reader.rejection, s.tasks[i]?.bind fun t => t.pending.head? with
    | some false, some out => out.isTerminal
    | some true, some out => !out.isClose
    | _, _ => false
  | _ => false

/-- A terminal frame and the normal close. -/
def Ending (outs : List Out) : Prop := ∃ out, out.isTerminal = true ∧ outs = [out, closeNormal]

/-- What a stream goroutine has pending carries the outbound sequence on as the
grammar wants. -/
def Fits (pending : List Out) (point : Point) (stage : Stage) : Prop :=
  match point with
  | .starting => pending = [] ∧ stage = .fresh
  | .dispatching => pending = [] ∧ stage = .fresh
  | .awaiting => pending = [] ∧ stage = .fresh
  | .reading _ _ => Machine.run track stage pending = some .opened
  | .ending outs => Ending outs ∧ ∃ last, Machine.run track stage pending = some last ∧
      (last = .fresh ∨ last = .opened)
  | .closing => (Ending pending ∧ stage ≠ .ended) ∨ pending = [closeNormal]
  | .done => pending = []

def Reader.Fits : Reader → Stage → Prop
  | .sending [.openRefused _], _ => True
  | .sending [out, .close _ _], stage => out.isTerminal = true ∧ stage ≠ .ended
  | .sending _, _ => False
  | .rejecting out, stage => out.isTerminal = true ∧ stage ≠ .ended
  | _, _ => True

/-- What the two writers may still queue agrees with the stage. -/
def Agrees (reader : Reader) (tasks : List Task) (stage : Stage) : Prop :=
  stage = .shut ∨ (reader.rejection = some true ∧ stage = .ended) ∨
    (reader.Fits stage ∧ (tasks = [] → stage = .fresh) ∧
      ∀ t ∈ tasks, Fits t.pending t.point stage)

structure Ordered (s : Conn) : Prop where
  streams : OneStream s
  wire : WireAt s.written s.queue s.writing (Agrees s.reader s.tasks)

theorem Ordered.init (json : Option Bool) : Ordered (.init json) :=
  ⟨.init json, .init (.inr (.inr ⟨trivial, fun _ => rfl, fun _ member => absurd member List.not_mem_nil⟩))⟩

/-- Two task lists that look alike from the outbound side. -/
def Alike (tasks tasks' : List Task) : Prop :=
  tasks'.length = tasks.length ∧
    ∀ t' ∈ tasks', ∃ t ∈ tasks, t'.pending = t.pending ∧ t'.point = t.point

theorem Alike.agrees {reader reader' : Reader} {tasks tasks' : List Task} (alike : Alike tasks tasks')
    (kept : reader.rejection = some true → reader'.rejection = some true) {stage : Stage}
    (fits : reader.Fits stage → reader'.Fits stage) (agrees : Agrees reader tasks stage) :
    Agrees reader' tasks' stage := by
  rcases agrees with shut | ⟨rejecting, ended⟩ | ⟨reads, empty, each⟩
  · exact .inl shut
  · exact .inr (.inl ⟨kept rejecting, ended⟩)
  · refine .inr (.inr ⟨fits reads, ?_, ?_⟩)
    · intro none
      rw [← List.length_eq_zero_iff, alike.1, List.length_eq_zero_iff] at none
      exact empty none
    · intro t' member
      obtain ⟨t, within, pending, point⟩ := alike.2 t' member
      rw [pending, point]
      exact each t within

theorem Alike.refl (tasks : List Task) : Alike tasks tasks :=
  ⟨rfl, fun t member => ⟨t, member, rfl, rfl⟩⟩

theorem Alike.modify (tasks : List Task) (i : Nat) {f : Task → Task}
    (same : ∀ t, (f t).pending = t.pending ∧ (f t).point = t.point) :
    Alike tasks (tasks.modify i f) := by
  refine ⟨List.length_modify .., ?_⟩
  intro t' member
  obtain ⟨k, inside, rfl⟩ := List.mem_iff_getElem.mp member
  rw [List.length_modify] at inside
  rw [List.getElem_modify]
  refine ⟨tasks[k], List.getElem_mem inside, ?_⟩
  split
  · exact same tasks[k]
  · exact ⟨rfl, rfl⟩

theorem Alike.set {tasks : List Task} {i : Nat} {t t' : Task} (found : tasks[i]? = some t)
    (pending : t'.pending = t.pending) (point : t'.point = t.point) :
    Alike tasks (tasks.set i t') := by
  refine ⟨List.length_set .., ?_⟩
  intro other member
  rcases List.mem_or_eq_of_mem_set member with old | rfl
  · exact ⟨other, old, rfl, rfl⟩
  · exact ⟨t, List.mem_of_getElem? found, pending, point⟩

theorem Alike.abortStream (s : Conn) : Alike s.tasks s.abortStream.tasks := by
  unfold Conn.abortStream
  split
  · exact .refl s.tasks
  · exact .modify s.tasks _ fun t => ⟨rfl, rfl⟩

theorem Alike.dropStream (s : Conn) : Alike s.tasks s.dropStream.tasks := by
  unfold Conn.dropStream
  split
  · exact .refl s.tasks
  · exact .abortStream s

/-- The wire of a connection is left alone. -/
def SameWire (s s' : Conn) : Prop :=
  s'.written = s.written ∧ s'.queue = s.queue ∧ s'.writing = s.writing

theorem abortStream_wire (s : Conn) : SameWire s s.abortStream := by
  unfold Conn.abortStream
  split <;> exact ⟨rfl, rfl, rfl⟩

theorem dropStream_wire (s : Conn) : SameWire s s.dropStream := by
  unfold Conn.dropStream
  split
  · exact ⟨rfl, rfl, rfl⟩
  · exact abortStream_wire s

theorem Ordered.alike {s s' : Conn} (inv : Ordered s) (same : SameWire s s')
    (alike : Alike s.tasks s'.tasks)
    (kept : s.reader.rejection = some true → s'.reader.rejection = some true)
    (fits : ∀ stage, s.reader.Fits stage → s'.reader.Fits stage) :
    WireAt s'.written s'.queue s'.writing (Agrees s'.reader s'.tasks) := by
  obtain ⟨written, queue, writing⟩ := same
  rw [written, queue, writing]
  exact inv.wire.mono fun stage agrees => alike.agrees kept (fits stage) agrees

/-- A move that queues nothing leaves the goroutine with messages that still fit. -/
theorem runStream_moves {srv : Config} {s : Conn} {t t' : Task} {act : Act} {queue : List Out}
    (h : runStream srv s t act = some (t', queue)) (quiet : ∀ sent, act ≠ .send sent) :
    queue = s.queue ∧ ∀ stage, Fits t.pending t.point stage → Fits t'.pending t'.point stage := by
  unfold runStream at h
  split at h
  case h_1 none point | h_3 none point =>
      cases h
      rw [point]
      exact ⟨rfl, fun stage fits => fits⟩
  case h_2 none point =>
      simp only [Option.ite_none_right_eq_some, Option.some.injEq, Prod.mk.injEq] at h
      obtain ⟨_, rfl, rfl⟩ := h
      refine ⟨rfl, fun stage fits => ?_⟩
      rw [none, point] at fits
      exact ⟨⟨_, rfl, rfl⟩, .fresh, by simp [Task.goTo, none, fits.2], .inl rfl⟩
  case h_4 none point =>
      cases h
      refine ⟨rfl, fun stage fits => ?_⟩
      rw [point] at fits
      obtain ⟨_, rfl⟩ := fits
      exact rfl
  case h_5 none point =>
      cases h
      refine ⟨rfl, fun stage fits => ?_⟩
      rw [none, point] at fits
      exact ⟨⟨_, rfl, rfl⟩, .fresh, by simp [Task.goTo, none, fits.2], .inl rfl⟩
  case h_6 bytes headers buf none point =>
      have opened := srv.track_encodeAll t.json ((Framing.parse (buf ++ bytes)).1.map Prod.snd)
      split at h
      rename_i frames left parsed
      rw [parsed] at opened
      split at h
      · rename_i outs encoded
        rw [encoded] at opened
        cases h
        refine ⟨rfl, fun stage fits => ?_⟩
        rw [none, point] at fits
        cases fits
        exact opened
      · rename_i outs e encoded
        rw [encoded] at opened
        cases h
        refine ⟨rfl, fun stage fits => ?_⟩
        rw [none, point] at fits
        cases fits
        exact ⟨⟨_, rfl, rfl⟩, .opened, opened, .inr rfl⟩
  case h_7 trailers headers buf none point =>
      cases h
      refine ⟨rfl, fun stage fits => ?_⟩
      rw [none, point] at fits
      cases fits
      refine ⟨⟨_, ?_, rfl⟩, .opened, by simp [finishPump, Task.goTo, none], .inr rfl⟩
      cases t.timedOut <;> rfl
  case h_8 outs none point =>
      split at h
      · cases h
        exact ⟨rfl, fun stage fits => none⟩
      · cases h
        refine ⟨rfl, fun stage fits => ?_⟩
        rw [none, point] at fits
        obtain ⟨ending, last, same, before⟩ := fits
        cases same
        refine .inl ⟨ending, ?_⟩
        rcases before with rfl | rfl <;> exact Stage.noConfusion
  case h_9 => exact absurd rfl (quiet _)
  case h_10 =>
      simp only [Option.ite_none_right_eq_some, Option.some.injEq, Prod.mk.injEq] at h
      obtain ⟨_, rfl, rfl⟩ := h
      exact ⟨rfl, fun stage fits => fits⟩
  case h_11 => cases h

/-- A send queues the first pending message, or loses it. -/
theorem runStream_sends {srv : Config} {s : Conn} {t t' : Task} {sent : Bool} {queue : List Out}
    (h : runStream srv s t (.send sent) = some (t', queue)) :
    ∃ out rest, t.pending = out :: rest ∧
      ((queue = s.queue ++ [out] ∧ t' = settle { t with pending := rest }) ∨
        (queue = s.queue ∧ t' = sendFailed t out rest ∧
          (s.writing = false ∨ srv.encodes out = false))) := by
  unfold runStream at h
  split at h
  all_goals try cases ‹Act.send _ = _›
  case h_9 out rest pending =>
      refine ⟨out, rest, pending, ?_⟩
      split at h
      · rename_i fails
        cases h
        exact .inr ⟨rfl, rfl, .inr (by simpa using fails)⟩
      · obtain ⟨queued, pushed, same⟩ := Option.map_eq_some_iff.mp h
        cases same
        unfold push at pushed
        split at pushed
        · rename_i goes
          simp only [Option.ite_none_right_eq_some, Option.some.injEq] at pushed
          exact .inl ⟨pushed.2.symm, by rw [if_pos goes]⟩
        · rename_i stays
          simp only [Option.ite_none_left_eq_some, Option.some.injEq, Bool.not_eq_true] at pushed
          exact .inr ⟨pushed.2.symm, by rw [if_neg stays], .inl pushed.1⟩
  case h_11 => cases h

/-- Behind a terminal frame the sequence is never open again. -/
theorem not_open_after {stage stage' : Stage} {out : Out} {rest : List Out}
    (terminal : out.isTerminal = true) (run : Machine.run track stage (out :: rest) = some stage') :
    stage' = .ended ∨ stage' = .shut := by
  obtain ⟨next, moved, after⟩ := Machine.run_cons_inv run
  cases stage with
  | shut =>
      cases moved
      rw [track_shut] at after
      cases after
      exact .inr rfl
  | ended =>
      rw [track_second_terminal terminal] at moved
      cases moved
  | fresh =>
      rw [track_terminal terminal (.inl rfl)] at moved
      cases moved
      exact track_over after
  | opened =>
      rw [track_terminal terminal (.inr rfl)] at moved
      cases moved
      exact track_over after

theorem settle_of_ne {t : Task} (before : t.point ≠ .closing) : settle t = t := by
  unfold settle
  split
  · exact absurd ‹t.point = .closing› before
  · rfl

theorem settle_fits {t : Task} {out : Out} {rest : List Out} {stage : Stage}
    (pending : t.pending = out :: rest) (fits : Fits t.pending t.point stage) :
    ∃ stage', track stage out = some stage' ∧
      Fits (settle { t with pending := rest }).pending (settle { t with pending := rest }).point stage' := by
  rw [pending] at fits
  cases point : t.point with
  | starting | dispatching | awaiting =>
      rw [point] at fits
      cases fits.1
  | done =>
      rw [point] at fits
      cases fits
  | reading headers buf =>
      rw [point] at fits
      obtain ⟨stage', moved, after⟩ := Machine.run_cons_inv fits
      refine ⟨stage', moved, ?_⟩
      rw [settle_of_ne Point.noConfusion]
      exact after
  | ending outs =>
      rw [point] at fits
      obtain ⟨ending, last, run, before⟩ := fits
      obtain ⟨stage', moved, after⟩ := Machine.run_cons_inv run
      refine ⟨stage', moved, ?_⟩
      rw [settle_of_ne Point.noConfusion]
      exact ⟨ending, last, after, before⟩
  | closing =>
      rw [point] at fits
      rcases fits with ⟨⟨first, terminal, whole⟩, before⟩ | whole
      · obtain ⟨rfl, rfl⟩ := List.cons.inj whole
        have moved : ∃ stage', track stage out = some stage' := by
          cases stage with
          | ended => exact absurd rfl before
          | shut => exact ⟨.shut, rfl⟩
          | fresh => exact ⟨.ended, track_terminal terminal (.inl rfl)⟩
          | opened => exact ⟨.ended, track_terminal terminal (.inr rfl)⟩
        obtain ⟨stage', moved⟩ := moved
        refine ⟨stage', moved, ?_⟩
        simp only [settle]
        exact .inr rfl
      · obtain ⟨rfl, rfl⟩ := List.cons.inj whole
        refine ⟨.shut, track_close 1000 [], ?_⟩
        simp only [settle]
        exact rfl

/-- A frame that cannot be marshalled ends the goroutine, or leaves the Close behind. -/
theorem sendFailed_fits {srv : Config} {t : Task} {out : Out} {rest : List Out} {stage : Stage}
    (pending : t.pending = out :: rest) (fits : Fits t.pending t.point stage)
    (fails : srv.encodes out = false) :
    Fits (sendFailed t out rest).pending (sendFailed t out rest).point stage := by
  rw [pending] at fits
  unfold sendFailed
  split
  · rename_i json code message
    have terminal : (Out.frame json (.reset code message)).isTerminal = true := rfl
    cases point : t.point with
    | starting | dispatching | awaiting =>
        rw [point] at fits
        cases fits.1
    | done =>
        rw [point] at fits
        cases fits
    | reading headers buf =>
        rw [point] at fits
        rcases not_open_after terminal fits with h | h <;> cases h
    | ending outs =>
        rw [point] at fits
        obtain ⟨_, last, run, before⟩ := fits
        rcases not_open_after terminal run with rfl | rfl <;> simp at before
    | closing =>
        rw [point] at fits
        rcases fits with ⟨⟨first, _, whole⟩, _⟩ | whole
        · obtain ⟨rfl, rfl⟩ := List.cons.inj whole
          simp only [settle]
          exact .inr rfl
        · cases whole
  · cases fails
  · exact rfl

theorem Reader.rejection_true {reader : Reader} (h : reader.rejection = some true) :
    ∃ code reason, reader = .sending [.close code reason] := by
  unfold Reader.rejection at h
  split at h
  · exact ⟨_, _, rfl⟩
  · cases h
  · cases h
  · cases h

theorem Reader.rejection_pair (out : Out) (code : Nat) (reason : Bytes) :
    (Reader.sending [out, .close code reason]).rejection = some false := by
  cases out <;> rfl

theorem Reader.fits_pair {out : Out} {code : Nat} {reason : Bytes} {stage : Stage}
    (terminal : out.isTerminal = true) (before : stage ≠ .ended) :
    (Reader.sending [out, .close code reason]).Fits stage := by
  cases out with
  | frame json kind => exact ⟨terminal, before⟩
  | openRefused json => cases terminal
  | close code reason => cases terminal

/-- The readings of a reader whose pending messages fit. -/
theorem Reader.Fits.cases {reader : Reader} {stage : Stage} (fits : reader.Fits stage) :
    (∃ json, reader = .sending [.openRefused json]) ∨
      (∃ out code reason, reader = .sending [out, .close code reason] ∧
        out.isTerminal = true ∧ stage ≠ .ended) ∨
      (∃ out, reader = .rejecting out ∧ out.isTerminal = true ∧ stage ≠ .ended) ∨
      (reader = .ready ∨ reader = .ended ∨ ∃ payload, reader = .feeding payload) := by
  cases reader with
  | ready => exact .inr (.inr (.inr (.inl rfl)))
  | ended => exact .inr (.inr (.inr (.inr (.inl rfl))))
  | feeding payload => exact .inr (.inr (.inr (.inr (.inr ⟨payload, rfl⟩))))
  | rejecting out => exact .inr (.inr (.inl ⟨out, rfl, fits⟩))
  | sending outs =>
      unfold Reader.Fits at fits
      split at fits
      · exact .inl ⟨_, ‹_›⟩
      · exact .inr (.inl ⟨_, _, _, ‹_›, fits⟩)
      · exact fits.elim
      · cases ‹Reader.sending outs = _›
      · rename_i none _
        exact absurd rfl (none outs)

theorem Reader.Fits.moved {reader : Reader} {stage stage' : Stage} {out : Out}
    (fits : reader.Fits stage) (moved : track stage out = some stage')
    (quiet : reader.rejection = some false → out.isTerminal = false) : reader.Fits stage' := by
  have later : stage ≠ .ended → reader.rejection = some false → stage' ≠ .ended := by
    rintro before waiting rfl
    have ends := terminal_of_track moved before
    rw [quiet waiting] at ends
    cases ends
  rcases fits.cases with ⟨json, rfl⟩ | ⟨first, code, reason, rfl, terminal, before⟩ |
    ⟨first, rfl, terminal, before⟩ | rfl | rfl | ⟨payload, rfl⟩
  · trivial
  · exact Reader.fits_pair terminal (later before (Reader.rejection_pair first code reason))
  · exact ⟨terminal, later before rfl⟩
  · trivial
  · trivial
  · trivial

theorem OneStream.only {s : Conn} (one : OneStream s) {i : Nat} {t : Task}
    (found : s.tasks[i]? = some t) (t' : Task) : s.tasks = [t] ∧ s.tasks.set i t' = [t'] := by
  have size := one.one
  match tasks : s.tasks, i with
  | [], _ => simp [tasks] at found
  | [only], 0 =>
      simp only [tasks, List.getElem?_cons_zero, Option.some.injEq] at found
      simp [found]
  | [only], _ + 1 => simp [tasks] at found
  | _ :: _ :: _, _ => simp [tasks] at size

theorem agrees_single {reader : Reader} {t : Task} {stage : Stage} (reads : reader.Fits stage)
    (fits : Fits t.pending t.point stage) : Agrees reader [t] stage := by
  refine .inr (.inr ⟨reads, by simp, ?_⟩)
  intro other member
  rwa [List.mem_singleton.mp member]

theorem send_agrees {reader : Reader} {t : Task} {out : Out} {rest : List Out} {stage : Stage}
    (agrees : Agrees reader [t] stage) (pending : t.pending = out :: rest)
    (before : reader.rejection = some false → out.isTerminal = false)
    (behind : reader.rejection = some true → out.isClose = true) :
    ∃ stage', track stage out = some stage' ∧
      Agrees reader [settle { t with pending := rest }] stage' := by
  rcases agrees with rfl | ⟨rejecting, rfl⟩ | ⟨reads, _, each⟩
  · exact ⟨.shut, rfl, .inl rfl⟩
  · have close := behind rejecting
    cases out with
    | close code reason => exact ⟨.shut, rfl, .inl rfl⟩
    | frame json kind => cases close
    | openRefused json => cases close
  · obtain ⟨stage', moved, fits⟩ := settle_fits pending (each t (List.mem_singleton_self t))
    exact ⟨stage', moved, agrees_single (reads.moved moved before) fits⟩

theorem Ordered.run {srv : Config} {s s' : Conn} {i : Nat} {act : Act} (inv : Ordered s)
    (clear : clashes srv s (.run i act) = false) (h : step srv s (.run i act) = some s') :
    WireAt s'.written s'.queue s'.writing (Agrees s'.reader s'.tasks) := by
  obtain ⟨t, t', queue, found, moved, rfl⟩ := step_run h
  obtain ⟨only, set⟩ := inv.streams.only found t'
  have wire := inv.wire
  rw [only] at wire
  rw [set]
  by_cases sends : ∃ sent, act = .send sent
  · obtain ⟨sent, rfl⟩ := sends
    obtain ⟨out, rest, pending, ⟨rfl, rfl⟩ | ⟨rfl, rfl, stopped | fails⟩⟩ := runStream_sends moved
    · refine wire.push fun stage agrees => send_agrees agrees pending ?_ ?_
      · intro waiting
        simpa [clashes, waiting, found, pending] using clear
      · intro waiting
        simpa [clashes, waiting, found, pending] using clear
    · rw [stopped]
      exact wire.stop _
    · refine wire.mono fun stage agrees => ?_
      rcases agrees with shut | rejecting | ⟨reads, _, each⟩
      · exact .inl shut
      · exact .inr (.inl rejecting)
      · have fits := each t (List.mem_singleton_self t)
        exact agrees_single reads (sendFailed_fits pending fits fails)
  · have quiet : ∀ sent, act ≠ .send sent := fun sent same => sends ⟨sent, same⟩
    obtain ⟨rfl, kept⟩ := runStream_moves moved quiet
    refine wire.mono fun stage agrees => ?_
    rcases agrees with shut | rejecting | ⟨reads, _, each⟩
    · exact .inl shut
    · exact .inr (.inl rejecting)
    · exact agrees_single reads (kept stage (each t (List.mem_singleton_self t)))

theorem push_cases {s : Conn} {out : Out} {sent : Bool} {queue : List Out}
    (h : push s out sent = some queue) :
    (s.writing = false ∧ queue = s.queue) ∨ queue = s.queue ++ [out] := by
  unfold push at h
  split at h
  · simp only [Option.ite_none_right_eq_some, Option.some.injEq] at h
    exact .inr h.2.symm
  · simp only [Option.ite_none_left_eq_some, Option.some.injEq, Bool.not_eq_true] at h
    exact .inl ⟨h.1, h.2.symm⟩

/-- What the read loop has pending moves on by one message. -/
theorem flush_cases {s s' : Conn} {sent : Bool} (h : flush s sent = some s') :
    ∃ out queue, push s out sent = some queue ∧ s'.written = s.written ∧ s'.queue = queue ∧
      s'.writing = s.writing ∧ Alike s.tasks s'.tasks ∧
      ((s.reader = .sending [out] ∧ s'.reader = .ready) ∨
        (∃ next rest, s.reader = .sending (out :: next :: rest) ∧ s'.reader = .sending (next :: rest)) ∨
        (s.reader = .rejecting out ∧ s'.reader = .sending [closeNormal])) := by
  obtain ⟨out, rest, queue, reads, pushed, rfl⟩ | ⟨out, queue, reads, pushed, rfl⟩ := flush_some h
  · refine ⟨out, queue, pushed, rfl, rfl, rfl, .refl _, ?_⟩
    cases rest with
    | nil => exact .inl ⟨reads, rfl⟩
    | cons next rest => exact .inr (.inl ⟨next, rest, reads, rfl⟩)
  · obtain ⟨written, queued, writing⟩ := dropStream_wire { s with queue := queue }
    exact ⟨out, queue, pushed, written, queued, writing, .dropStream { s with queue := queue },
      .inr (.inr ⟨reads, rfl⟩)⟩

theorem Ordered.flush {s s' : Conn} {sent : Bool} (inv : Ordered s) (h : flush s sent = some s') :
    WireAt s'.written s'.queue s'.writing (Agrees s'.reader s'.tasks) := by
  obtain ⟨out, queue, pushed, written, rfl, writing, alike, after⟩ := flush_cases h
  rw [written, writing]
  rcases push_cases pushed with ⟨stopped, _⟩ | queued
  · rw [stopped]
    exact inv.wire.stop _
  · rw [queued]
    refine inv.wire.push fun stage agrees => ?_
    have ended : ∀ {out : Out}, out.isTerminal = true → stage ≠ .ended → stage ≠ .shut →
        track stage out = some .ended := by
      intro out terminal before live
      cases stage with
      | ended => exact absurd rfl before
      | shut => exact absurd rfl live
      | fresh => exact track_terminal terminal (.inl rfl)
      | opened => exact track_terminal terminal (.inr rfl)
    by_cases shut : stage = .shut
    · subst shut
      exact ⟨.shut, rfl, .inl rfl⟩
    · rcases agrees with same | ⟨rejecting, rfl⟩ | ⟨fits, empty, each⟩
      · exact absurd same shut
      · obtain ⟨code, reason, reads⟩ := Reader.rejection_true rejecting
        rcases after with ⟨here, _⟩ | ⟨next, rest, here, _⟩ | ⟨here, _⟩
        · rw [here] at reads
          cases reads
          exact ⟨.shut, rfl, .inl rfl⟩
        · rw [here] at reads
          cases reads
        · rw [here] at reads
          cases reads
      · rcases after with ⟨here, reader⟩ | ⟨next, rest, here, reader⟩ | ⟨here, reader⟩
        · rw [here] at fits
          rw [reader]
          rcases fits.cases with ⟨json, same⟩ | ⟨_, _, _, same, _⟩ | ⟨_, same, _⟩ | same | same |
            ⟨_, same⟩
          · cases same
            have agrees : Agrees .ready s.tasks stage := .inr (.inr ⟨trivial, empty, each⟩)
            exact ⟨stage, track_refused stage json, alike.agrees id id agrees⟩
          all_goals cases same
        · rw [here] at fits
          rw [reader]
          rcases fits.cases with ⟨_, same⟩ | ⟨_, _, _, same, terminal, before⟩ | ⟨_, same, _⟩ | same |
            same | ⟨_, same⟩
          case inr.inl =>
              cases same
              exact ⟨.ended, ended terminal before shut, .inr (.inl ⟨rfl, rfl⟩)⟩
          all_goals cases same
        · rw [here] at fits
          rw [reader]
          obtain ⟨terminal, before⟩ := fits
          exact ⟨.ended, ended terminal before shut, .inr (.inl ⟨rfl, rfl⟩)⟩

theorem Ordered.feed {s s' : Conn} (inv : Ordered s) (h : feed s = some s') :
    WireAt s'.written s'.queue s'.writing (Agrees s'.reader s'.tasks) := by
  obtain ⟨⟨payload, reads⟩, moved⟩ := feed_some h
  have idle : s.reader.rejection = some true → Reader.ready.rejection = some true := by
    rw [reads]
    exact id
  rcases moved with rfl | ⟨i, payload', rfl⟩
  · exact inv.alike ⟨rfl, rfl, rfl⟩ (.refl _) idle fun _ _ => trivial
  · exact inv.alike ⟨rfl, rfl, rfl⟩ (.modify _ _ fun t => ⟨rfl, rfl⟩) idle fun _ _ => trivial

theorem Ordered.giveUp {s s' : Conn} (inv : Ordered s) (h : giveUp s = some s') :
    WireAt s'.written s'.queue s'.writing (Agrees s'.reader s'.tasks) := by
  obtain ⟨rfl, payload, reads⟩ := giveUp_eq h
  refine inv.alike ⟨rfl, rfl, rfl⟩ (.refl _) ?_ fun _ _ => trivial
  rw [reads]
  exact id

theorem Ordered.write {s s' : Conn} (inv : Ordered s) (h : write s = some s') :
    WireAt s'.written s'.queue s'.writing (Agrees s'.reader s'.tasks) := by
  obtain ⟨_, wire⟩ := inv
  unfold GoServer.write at h
  split at h
  · rename_i out rest queued
    simp only [Option.ite_none_right_eq_some, Option.some.injEq] at h
    obtain ⟨writes, rfl⟩ := h
    rw [queued, writes] at wire
    exact wire.write
  · cases h

/-- The Close of the drain watcher ends the sequence wherever it stands. -/
theorem Ordered.sendAway {s s' : Conn} {sent : Bool} (inv : Ordered s)
    (h : sendAway s sent = some s') :
    WireAt s'.written s'.queue s'.writing (Agrees s'.reader s'.tasks) := by
  obtain ⟨queue, pushed, rfl⟩ := Option.map_eq_some_iff.mp h
  rcases push_cases pushed with ⟨stopped, _⟩ | rfl
  · simp only [stopped]
    exact inv.wire.stop _
  · exact inv.wire.push fun stage _ => ⟨.shut, track_close _ _, .inl rfl⟩

theorem Ordered.stepTask {s s' : Conn} {i : Nat} {f : Task → Option Task} (inv : Ordered s)
    (same : ∀ t t', f t = some t' → t'.pending = t.pending ∧ t'.point = t.point)
    (h : s.stepTask i f = some s') :
    WireAt s'.written s'.queue s'.writing (Agrees s'.reader s'.tasks) := by
  obtain ⟨t', moved, rfl⟩ := Option.map_eq_some_iff.mp h
  obtain ⟨t, found, moved⟩ := Option.bind_eq_some_iff.mp moved
  obtain ⟨pending, point⟩ := same t t' moved
  exact inv.alike ⟨rfl, rfl, rfl⟩ (.set found pending point) id fun _ => id

/-- What a handled frame does to the outbound side: nothing that matters, a rejection,
or a new stream. -/
theorem handleFrame_wire (srv : Config) (s : Conn) (kind : Kind) (json : Bool)
    (ready : s.reader = .ready) :
    SameWire s (handleFrame srv s kind json) ∧
      ((Alike s.tasks (handleFrame srv s kind json).tasks ∧
          ((∀ stage, (handleFrame srv s kind json).reader.Fits stage) ∨
            (rejectsKind srv s kind = true ∧
              ∀ stage, stage ≠ .ended → (handleFrame srv s kind json).reader.Fits stage))) ∨
        ∃ sub, (handleFrame srv s kind json).tasks = s.tasks ++ [spawn srv sub json] ∧
          (handleFrame srv s kind json).reader = .ready) := by
  have still : ∀ stage, s.reader.Fits stage := fun stage => by rw [ready]; trivial
  cases kind with
  | subscribe sub =>
      simp only [handleFrame]
      split
      · exact ⟨⟨rfl, rfl, rfl⟩, .inl ⟨.refl _, .inl fun _ => trivial⟩⟩
      · have empty : s.slot.isNone = true := by
          rw [← Option.not_isSome]
          simpa using ‹¬ s.slot.isSome = true›
        split
        · rename_i big
          exact ⟨⟨rfl, rfl, rfl⟩, .inl ⟨.refl _, .inr ⟨by simp [rejectsKind, empty, big],
            fun _ => Reader.fits_pair rfl⟩⟩⟩
        · exact ⟨⟨rfl, rfl, rfl⟩, .inr ⟨sub, rfl, ready⟩⟩
  | message payload =>
      simp only [handleFrame]
      split
      · rename_i big
        exact ⟨⟨rfl, rfl, rfl⟩, .inl ⟨.refl _, .inr ⟨by simp [rejectsKind, big],
          fun _ before => ⟨rfl, before⟩⟩⟩⟩
      · split
        · split
          · exact ⟨⟨rfl, rfl, rfl⟩, .inl ⟨.refl _, .inl still⟩⟩
          · exact ⟨⟨rfl, rfl, rfl⟩, .inl ⟨.refl _, .inl fun _ => trivial⟩⟩
        · exact ⟨⟨rfl, rfl, rfl⟩, .inl ⟨.refl _, .inl still⟩⟩
  | halfClose =>
      simp only [handleFrame]
      split
      · exact ⟨⟨rfl, rfl, rfl⟩, .inl ⟨.modify _ _ fun t => ⟨rfl, rfl⟩, .inl still⟩⟩
      · exact ⟨⟨rfl, rfl, rfl⟩, .inl ⟨.refl _, .inl still⟩⟩
  | reset code message =>
      refine ⟨dropStream_wire s, .inl ⟨.dropStream s, .inl fun stage => ?_⟩⟩
      simp only [handleFrame, Conn.dropStream, Conn.abortStream]
      split
      · exact still stage
      · split <;> exact still stage
  | trailer code message trailers => exact ⟨⟨rfl, rfl, rfl⟩, .inl ⟨.refl _, .inl still⟩⟩
  | header headers => exact ⟨⟨rfl, rfl, rfl⟩, .inl ⟨.refl _, .inl still⟩⟩

theorem Ordered.finish {s : Conn} (inv : Ordered s) (ready : s.reader = .ready) :
    WireAt s.finish.written s.finish.queue s.finish.writing (Agrees s.finish.reader s.finish.tasks) := by
  refine inv.alike (abortStream_wire s) (.abortStream s) ?_ fun _ _ => trivial
  rw [ready]
  exact id

theorem Ordered.receive {srv : Config} {s : Conn} {msg : Inbound} (inv : Ordered s)
    (ready : s.reader = .ready) (clear : clashes srv s (.receive msg) = false) :
    WireAt (receive srv s msg).written (receive srv s msg).queue (receive srv s msg).writing
      (Agrees (receive srv s msg).reader (receive srv s msg).tasks) := by
  simp only [clashes, Bool.or_eq_false_iff] at clear
  have first : ∀ s', Accepts srv s msg s' → s.tasks = [] := fun s' accepts =>
    accepts.first inv.streams clear.1
  have accepted := receive_cases srv s msg ready
  have noRejecting : s.reader.rejection ≠ some true := by
    rw [ready]
    decide
  unfold GoServer.receive at accepted ⊢
  split
  · exact inv.finish ready
  · rename_i open_
    rw [if_neg open_] at accepted
    cases decoded : decode s.codec srv.methodUrl msg with
    | mk codec frame =>
        rw [decoded] at accepted
        cases frame with
        | none => exact inv.alike ⟨rfl, rfl, rfl⟩ (.refl _) id fun _ => id
        | some frame =>
            obtain ⟨kind, json⟩ := frame
            obtain ⟨same, ⟨alike, fits | ⟨rejected, fits⟩⟩ | ⟨sub, tasks, reader⟩⟩ :=
              handleFrame_wire srv { s with codec := codec } kind json ready
            · exact inv.alike same alike (fun h => absurd h noRejecting) fun stage _ => fits stage
            · have before : ∀ stage, s.stage = some stage → stage ≠ .ended := by
                rintro stage found rfl
                have rejects : rejects srv s msg = true := by
                  rw [GoServer.rejects, decoded, Option.any_some]
                  exact rejected
                simp [rejects, found] at clear
              obtain ⟨written, queue, writing⟩ := same
              rw [written, queue, writing]
              refine inv.wire.mono_stage fun stage found agrees => ?_
              exact alike.agrees (fun h => absurd h noRejecting)
                (fun _ => fits stage (before stage found)) agrees
            · have empty : s.tasks = [] := by
                rcases accepted with keeps | accepts
                · have length := keeps.length
                  simp only [tasks, List.length_append, List.length_singleton] at length
                  omega
                · exact first _ accepts
              obtain ⟨written, queue, writing⟩ := same
              rw [written, queue, writing, tasks, reader]
              refine inv.wire.mono fun stage agrees => ?_
              rcases agrees with shut | ⟨rejecting, _⟩ | ⟨_, fresh, _⟩
              · exact .inl shut
              · exact absurd rejecting noRejecting
              · rw [fresh empty, empty]
                exact agrees_single trivial ⟨rfl, rfl⟩

theorem pull_same {srv : Config} {t t' : Task} (h : pull srv t = some t') :
    t'.pending = t.pending ∧ t'.point = t.point := by
  unfold pull at h
  split at h
  · split at h
    · split at h <;> (cases h; exact ⟨rfl, rfl⟩)
    · cases h
  · cases h

/-- The step lemma: whatever moves, the outbound side stays in order, unless the two
writers clash. -/
theorem Ordered.step {srv : Config} {s s' : Conn} {e : Event} (inv : Ordered s)
    (clear : clashes srv s e = false) (h : step srv s e = some s') : Ordered s' := by
  have streams : OneStream s' := by
    refine inv.streams.step ?_ h
    cases e with
    | receive msg =>
        simp only [clashes, Bool.or_eq_false_iff] at clear
        exact clear.1
    | _ => rfl
  refine ⟨streams, ?_⟩
  cases e with
  | receive msg =>
      simp only [GoServer.step, Option.ite_none_right_eq_some, Option.some.injEq] at h
      obtain ⟨ready, rfl⟩ := h
      exact inv.receive ready clear
  | hangup =>
      simp only [GoServer.step, Option.ite_none_right_eq_some, Option.some.injEq] at h
      obtain ⟨ready, rfl⟩ := h
      exact inv.finish ready
  | flush sent => exact inv.flush h
  | feed => exact inv.feed h
  | giveUp => exact inv.giveUp h
  | write => exact inv.write h
  | writeFail =>
      simp only [GoServer.step, Option.ite_none_right_eq_some, Option.some.injEq] at h
      obtain ⟨_, rfl⟩ := h
      exact inv.wire.stop _
  | drain =>
      simp only [GoServer.step, Option.ite_none_right_eq_some, Option.some.injEq] at h
      obtain ⟨_, rfl⟩ := h
      exact inv.alike ⟨rfl, rfl, rfl⟩ (.refl _) id fun _ => id
  | sendAway sent =>
      simp only [GoServer.step, Option.ite_none_right_eq_some] at h
      exact inv.sendAway h.2
  | unwatch =>
      simp only [GoServer.step, Option.ite_none_right_eq_some, Option.some.injEq] at h
      obtain ⟨_, rfl⟩ := h
      exact inv.alike ⟨rfl, rfl, rfl⟩ (.refl _) id fun _ => id
  | run i act => exact inv.run clear h
  | pull i => exact inv.stepTask (fun t t' moved => pull_same moved) h
  | unmap i =>
      refine inv.stepTask (fun t t' moved => ?_) h
      simp only [Option.ite_none_right_eq_some, Option.some.injEq] at moved
      obtain ⟨_, rfl⟩ := moved
      exact ⟨rfl, rfl⟩

theorem run_ordered {srv : Config} {json : Option Bool} {es : List Event} {s : Conn}
    (clear : Machine.Along (GoServer.step srv) (fun s e => clashes srv s e = false) (.init json) es)
    (h : Machine.run (GoServer.step srv) (.init json) es = some s) : Ordered s :=
  Machine.run_invariant_along (fun _ _ _ inv clear h => inv.step clear h) (.init json) clear h

end GrpcWebnext.Ws.GoServer
