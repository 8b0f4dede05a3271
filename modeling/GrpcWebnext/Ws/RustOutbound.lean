import GrpcWebnext.Ws.RustStreams

/-! What a Rust connection writes. The stream task and the read loop both queue
frames; the invariant says where the outbound sequence stands and what each of the
two may still add to it. -/
namespace GrpcWebnext.Ws.RustServer
open Framing (Bytes)

/-- Where the outbound sequence stands, everything queued included. -/
def Conn.stage (s : Conn) : Option Stage := Machine.run track .fresh (s.written ++ s.queue)

/-- The read loop is rejecting the stream; its Reset is still to be queued (`false`) or
only its Close is (`true`). -/
def Reader.rejection : Reader → Option Bool
  | .sending [.close _ _] false => some true
  | .sending [_, .close _ _] false => some false
  | _ => none

/-- The frames a read loop answers with a Reset and a Close: an oversize Message, or an
open frame for an empty slot with an oversize payload or a method that does not parse. -/
def rejectsKind (srv : Config) (s : Conn) : Kind → Bool
  | .message payload => srv.maxMessageBytes < payload.length
  | .subscribe sub => s.slot.isNone &&
      (srv.maxMessageBytes < sub.initialPayload.length || !srv.methodParses)
  | _ => false

def rejects (srv : Config) (s : Conn) (msg : Inbound) : Bool :=
  (decode s.codec srv.methodUrl msg).2.any fun frame => rejectsKind srv s frame.1

/-- The steps on which the two writers of a connection get into each other's way: a
second stream is opened, a rejection begins behind a terminal frame, or the stream
task queues a frame in the middle of a rejection. -/
def clashes (srv : Config) (s : Conn) : Event → Bool
  | .receive msg => reopens srv s (.receive msg) || (rejects srv s msg && s.stage = some .ended)
  | .run i .send => match s.reader.rejection, s.tasks[i]?.bind fun t => t.pending.head? with
    | some false, some out => out.isTerminal
    | some true, some out => !out.isClose
    | _, _ => false
  | _ => false

/-- The stage a task has reached when its pending messages are out. -/
def Point.target : Point → Stage
  | .resolving => .fresh
  | .calling => .fresh
  | .awaiting => .fresh
  | .reading _ _ _ => .opened
  | .finishing => .ended
  | .closing => .shut
  | .done => .shut

/-- The pending messages of a task carry the outbound sequence on as the grammar wants. -/
structure Task.Fits (t : Task) (stage : Stage) : Prop where
  run : Machine.run track stage t.pending = some t.point.target
  terminal : t.point = .finishing → ∃ front last, t.pending = front ++ [last] ∧ last.isTerminal = true

/-- What the read loop has pending is the refusal of an open frame, a rejection that
starts before any terminal frame, or the close of a drained socket. -/
def Reader.Fits : Reader → Stage → Prop
  | .sending [.openRefused _] false, _ => True
  | .sending [out, .close _ _] false, stage => out.isTerminal = true ∧ stage ≠ .ended
  | .sending [.close _ _] true, _ => True
  | .sending _ _, _ => False
  | _, _ => True

/-- What the two writers may still queue agrees with the stage. -/
def Agrees (reader : Reader) (tasks : List Task) (stage : Stage) : Prop :=
  stage = .shut ∨ (reader.rejection = some true ∧ stage = .ended) ∨
    (reader.Fits stage ∧ (tasks = [] → stage = .fresh) ∧
      ∀ t ∈ tasks, t.life ≠ .gone → t.Fits stage)

/-- The invariant of the outbound side. -/
structure Ordered (s : Conn) : Prop where
  streams : OneStream s
  wire : WireAt s.written s.queue s.writing (Agrees s.reader s.tasks)

theorem Ordered.init (json : Option Bool) : Ordered (.init json) :=
  ⟨.init json, .init (.inr (.inr ⟨trivial, fun _ => rfl, fun _ member => absurd member List.not_mem_nil⟩))⟩

/-- Two task lists that look alike from the outbound side. -/
def Alike (tasks tasks' : List Task) : Prop :=
  tasks'.length = tasks.length ∧ ∀ t' ∈ tasks', ∃ t ∈ tasks, t'.pending = t.pending ∧
    t'.point = t.point ∧ (t'.life ≠ .gone → t.life ≠ .gone)

theorem Alike.agrees {reader reader' : Reader} {tasks tasks' : List Task} (alike : Alike tasks tasks')
    (kept : reader.rejection = some true → reader'.rejection = some true) {stage : Stage}
    (fits : reader.Fits stage → reader'.Fits stage) (agrees : Agrees reader tasks stage) :
    Agrees reader' tasks' stage := by
  rcases agrees with shut | ⟨rejecting, ended⟩ | ⟨reads, empty, each⟩
  · exact .inl shut
  · exact .inr (.inl ⟨kept rejecting, ended⟩)
  · refine .inr (.inr ⟨fits reads, ?_, ?_⟩)
    · intro none
      rw [← List.length_eq_zero_iff, alike.1, List.length_eq_zero_iff] at none
      exact empty none
    · intro t' member lives
      obtain ⟨t, within, pending, point, life⟩ := alike.2 t' member
      obtain ⟨run, terminal⟩ := each t within (life lives)
      exact ⟨by rw [pending, point, run], by rwa [pending, point]⟩

theorem Alike.refl (tasks : List Task) : Alike tasks tasks :=
  ⟨rfl, fun t member => ⟨t, member, rfl, rfl, id⟩⟩

theorem Alike.modify (tasks : List Task) (i : Nat) {f : Task → Task}
    (same : ∀ t, (f t).pending = t.pending ∧ (f t).point = t.point ∧ (f t).life = t.life) :
    Alike tasks (tasks.modify i f) := by
  refine ⟨List.length_modify .., ?_⟩
  intro t' member
  obtain ⟨k, inside, rfl⟩ := List.mem_iff_getElem.mp member
  rw [List.length_modify] at inside
  rw [List.getElem_modify]
  refine ⟨tasks[k], List.getElem_mem inside, ?_⟩
  split
  · obtain ⟨pending, point, life⟩ := same tasks[k]
    exact ⟨pending, point, by rw [life]; exact id⟩
  · exact ⟨rfl, rfl, id⟩

theorem Alike.set {tasks : List Task} {i : Nat} {t t' : Task} (found : tasks[i]? = some t)
    (pending : t'.pending = t.pending) (point : t'.point = t.point)
    (life : t'.life ≠ .gone → t.life ≠ .gone) : Alike tasks (tasks.set i t') := by
  refine ⟨List.length_set .., ?_⟩
  intro other member
  rcases List.mem_or_eq_of_mem_set member with old | rfl
  · exact ⟨other, old, rfl, rfl, id⟩
  · exact ⟨t, List.mem_of_getElem? found, pending, point, life⟩

theorem Alike.dropStream (s : Conn) : Alike s.tasks s.dropStream.tasks := by
  unfold Conn.dropStream
  split
  · exact .refl s.tasks
  · exact .modify s.tasks _ fun t => ⟨rfl, rfl, rfl⟩

/-- The points at which the deadline is armed. -/
def Point.inPump : Point → Bool
  | .awaiting => true
  | .reading _ _ _ => true
  | .finishing => true
  | _ => false

/-- A move that queues nothing starts at an empty pending list and brings up messages
that fit there, or drops what is pending for the deadline's Trailer and the close. -/
theorem runStream_moves {srv : Config} {s : Conn} {t t' : Task} {act : Act} {queue : List Out}
    (h : runStream srv s t act = some (t', queue)) (quiet : act ≠ .send) :
    queue = s.queue ∧ t'.life = t.life ∧
      ((t.pending = [] ∧ t'.Fits t.point.target) ∨
        (t.point.inPump = true ∧ t'.point = .closing ∧ ∃ code message trailers,
          t'.pending = [.frame t.json (.trailer code message trailers), closeNormal])) := by
  unfold runStream at h
  split at h
  case h_1 none point | h_3 none point | h_7 none point =>
      cases h
      exact ⟨rfl, rfl, .inl ⟨none, by rw [point, none]; rfl, Point.noConfusion⟩⟩
  case h_2 none point | h_4 none point =>
      cases h
      exact ⟨rfl, rfl, .inl ⟨none, by rw [point]; rfl, Point.noConfusion⟩⟩
  case h_5 none point | h_8 none point | h_9 none point =>
      cases h
      exact ⟨rfl, rfl, .inl ⟨none, by rw [point]; rfl, fun _ => ⟨[], _, rfl, rfl⟩⟩⟩
  case h_6 bytes headers trailers buf none point =>
      have opened := srv.track_encodeAll t.json
        ((Framing.parse (buf ++ bytes)).1.map Prod.snd)
      split at h
      rename_i frames left parsed
      rw [parsed] at opened
      split at h
      · rename_i outs encoded
        rw [encoded] at opened
        cases h
        exact ⟨rfl, rfl, .inl ⟨none, by rw [point]; exact opened, Point.noConfusion⟩⟩
      · rename_i outs e encoded
        rw [encoded] at opened
        cases h
        refine ⟨rfl, rfl, .inl ⟨none, ?_, fun _ => ⟨outs, _, rfl, rfl⟩⟩⟩
        rw [point]
        exact track_push opened _
  case h_10 => exact absurd rfl quiet
  case h_11 point | h_12 point | h_13 point =>
      simp only [runStream.expired, Option.ite_none_left_eq_some, Option.some.injEq,
        Prod.mk.injEq] at h
      obtain ⟨_, rfl, rfl⟩ := h
      exact ⟨rfl, rfl, .inr ⟨by rw [point]; rfl, rfl, _, _, _, rfl⟩⟩
  case h_14 => cases h

/-- While the writer runs, a send queues the first pending message. -/
theorem runStream_sends {srv : Config} {s : Conn} {t t' : Task} {queue : List Out}
    (h : runStream srv s t .send = some (t', queue)) :
    ∃ out rest, t.pending = out :: rest ∧
      (s.writing = true → queue = s.queue ++ [out] ∧ t' = settle { t with pending := rest }) := by
  unfold runStream at h
  split at h
  all_goals try cases ‹Act.send = _›
  case h_10 out rest pending =>
      refine ⟨out, rest, pending, fun writes => ?_⟩
      simp only [writes, Bool.not_true, Bool.false_eq_true, if_false, push, Option.map_if,
        Option.ite_none_right_eq_some, Option.some.injEq, Prod.mk.injEq] at h
      obtain ⟨_, rfl, rfl⟩ := h
      exact ⟨rfl, rfl⟩
  case h_14 => cases h

theorem settle_fits {t : Task} {out : Out} {rest : List Out} {stage : Stage}
    (pending : t.pending = out :: rest) (fits : t.Fits stage) :
    ∃ stage', track stage out = some stage' ∧
      ((settle { t with pending := rest }).life ≠ .gone →
        (settle { t with pending := rest }).Fits stage') := by
  obtain ⟨run, ends⟩ := fits
  rw [pending] at run ends
  obtain ⟨stage', moved, after⟩ := Machine.run_cons_inv run
  refine ⟨stage', moved, fun lives => ?_⟩
  unfold settle at lives ⊢
  split
  · rename_i none point
    dsimp only at none point
    subst none
    rw [point, Machine.run_nil, Option.some.injEq] at after
    subst after
    exact ⟨rfl, Point.noConfusion⟩
  · rename_i none point
    dsimp only at none point
    simp only [none, point, ne_eq, not_true_eq_false] at lives
  · rename_i other _
    refine ⟨after, fun finishing => ?_⟩
    obtain ⟨front, last, whole, terminal⟩ := ends finishing
    cases front with
    | nil => exact absurd finishing (other (List.cons.inj whole).2)
    | cons first front => exact ⟨front, last, (List.cons.inj whole).2, terminal⟩

/-- The readings of a reader whose pending messages fit. -/
theorem Reader.Fits.cases {reader : Reader} {stage : Stage} (fits : reader.Fits stage) :
    (∃ json, reader = .sending [.openRefused json] false) ∨
      (∃ out code reason, reader = .sending [out, .close code reason] false ∧
        out.isTerminal = true ∧ stage ≠ .ended) ∨
      (∃ code reason, reader = .sending [.close code reason] true) ∨
      ∀ outs thenEnd, reader ≠ .sending outs thenEnd := by
  unfold Reader.Fits at fits
  split at fits
  · exact .inl ⟨_, rfl⟩
  · exact .inr (.inl ⟨_, _, _, rfl, fits⟩)
  · exact .inr (.inr (.inl ⟨_, _, rfl⟩))
  · exact fits.elim
  · exact .inr (.inr (.inr ‹_›))

theorem Reader.fits_of_idle {reader : Reader} (idle : ∀ outs thenEnd, reader ≠ .sending outs thenEnd)
    (stage : Stage) : reader.Fits stage := by
  cases reader with
  | sending outs thenEnd => exact absurd rfl (idle outs thenEnd)
  | ready => trivial
  | feeding payload => trivial
  | ended => trivial

theorem Reader.rejection_true {reader : Reader} (h : reader.rejection = some true) :
    ∃ code reason, reader = .sending [.close code reason] false := by
  unfold Reader.rejection at h
  split at h
  · exact ⟨_, _, rfl⟩
  · cases h
  · cases h

theorem Reader.rejection_pair (out : Out) (code : Nat) (reason : Bytes) :
    (Reader.sending [out, .close code reason] false).rejection = some false := by
  cases out <;> rfl

theorem Reader.fits_pair {out : Out} {code : Nat} {reason : Bytes} {stage : Stage}
    (terminal : out.isTerminal = true) (before : stage ≠ .ended) :
    (Reader.sending [out, .close code reason] false).Fits stage := by
  cases out with
  | frame json kind => exact ⟨terminal, before⟩
  | openRefused json => cases terminal
  | close code reason => cases terminal

theorem Reader.Fits.moved {reader : Reader} {stage stage' : Stage} {out : Out}
    (fits : reader.Fits stage) (moved : track stage out = some stage')
    (quiet : reader.rejection = some false → out.isTerminal = false) : reader.Fits stage' := by
  rcases fits.cases with ⟨json, rfl⟩ | ⟨first, code, reason, rfl, terminal, before⟩ |
    ⟨code, reason, rfl⟩ | idle
  · trivial
  · refine Reader.fits_pair terminal ?_
    rintro rfl
    have ends := terminal_of_track moved before
    rw [quiet (Reader.rejection_pair first code reason)] at ends
    cases ends
  · trivial
  · exact Reader.fits_of_idle idle stage'

/-- On a connection with one stream, a task that is found is the only one. -/
theorem OneStream.only {s : Conn} (one : OneStream s) {i : Nat} {t : Task}
    (found : s.tasks[i]? = some t) (t' : Task) : s.tasks = [t] ∧ s.tasks.set i t' = [t'] := by
  have size := one.one
  match tasks : s.tasks, i with
  | [], _ => simp [tasks] at found
  | [only], 0 =>
      simp only [tasks, List.getElem?_cons_zero, Option.some.injEq] at found
      simp [found]
  | [only], _ + 1 => simp [tasks] at found
  | _ :: _ :: _, _ => simp [tasks] at size

theorem send_agrees {reader : Reader} {t : Task} {out : Out} {rest : List Out} {stage : Stage}
    (agrees : Agrees reader [t] stage) (lives : t.life ≠ .gone) (pending : t.pending = out :: rest)
    (before : reader.rejection = some false → out.isTerminal = false)
    (behind : reader.rejection = some true → out.isClose = true) :
    ∃ stage', track stage out = some stage' ∧
      Agrees reader [settle { t with pending := rest }] stage' := by
  rcases agrees with rfl | ⟨rejecting, rfl⟩ | ⟨reads, _, each⟩
  · exact ⟨.shut, rfl, .inl rfl⟩
  · have close := behind rejecting
    cases out with
    | close code reason => exact ⟨.shut, rfl, .inl rfl⟩
    | frame json kind => cases close
    | openRefused json => cases close
  · obtain ⟨stage', moved, fits⟩ := settle_fits pending (each t (List.mem_singleton_self t) lives)
    refine ⟨stage', moved, .inr (.inr ⟨reads.moved moved before, by simp, ?_⟩)⟩
    intro t' member lives'
    rw [List.mem_singleton] at member
    subst member
    exact fits lives'

theorem flush_agrees {s : Conn} {out : Out} {rest : List Out} {thenEnd : Bool} {stage : Stage}
    (reads : s.reader = .sending (out :: rest) thenEnd) (agrees : Agrees s.reader s.tasks stage) :
    ∃ stage', track stage out = some stage' ∧
      (rest = [] → Agrees .ready s.tasks stage' ∧ Agrees .ended s.tasks stage') ∧
      (rest ≠ [] → Agrees (.sending rest thenEnd) s.tasks stage') := by
  rw [reads] at agrees
  rcases agrees with rfl | ⟨rejecting, rfl⟩ | ⟨fits, empty, each⟩
  · exact ⟨.shut, rfl, fun _ => ⟨.inl rfl, .inl rfl⟩, fun _ => .inl rfl⟩
  · obtain ⟨code, reason, same⟩ := Reader.rejection_true rejecting
    cases same
    exact ⟨.shut, rfl, fun _ => ⟨.inl rfl, .inl rfl⟩, fun more => absurd rfl more⟩
  · rcases fits.cases with ⟨json, same⟩ | ⟨first, code, reason, same, terminal, before⟩ |
      ⟨code, reason, same⟩ | idle
    · cases same
      exact ⟨stage, track_refused stage json,
        fun _ => ⟨.inr (.inr ⟨trivial, empty, each⟩), .inr (.inr ⟨trivial, empty, each⟩)⟩,
        fun more => absurd rfl more⟩
    · cases same
      cases stage with
      | ended => exact absurd rfl before
      | shut => exact ⟨.shut, rfl, fun none => absurd none (by simp), fun _ => .inl rfl⟩
      | fresh =>
          exact ⟨.ended, track_terminal terminal (.inl rfl), fun none => absurd none (by simp),
            fun _ => .inr (.inl ⟨rfl, rfl⟩)⟩
      | opened =>
          exact ⟨.ended, track_terminal terminal (.inr rfl), fun none => absurd none (by simp),
            fun _ => .inr (.inl ⟨rfl, rfl⟩)⟩
    · cases same
      exact ⟨.shut, track_close code reason, fun _ => ⟨.inl rfl, .inl rfl⟩,
        fun more => absurd rfl more⟩
    · exact absurd rfl (idle _ _)

/-- A step of the read loop that queues nothing and starts no rejection. -/
theorem Ordered.alike {s s' : Conn} (inv : Ordered s)
    (same : s'.written = s.written ∧ s'.queue = s.queue ∧ s'.writing = s.writing)
    (alike : Alike s.tasks s'.tasks)
    (kept : s.reader.rejection = some true → s'.reader.rejection = some true)
    (fits : ∀ stage, s.reader.Fits stage → s'.reader.Fits stage) :
    WireAt s'.written s'.queue s'.writing (Agrees s'.reader s'.tasks) := by
  obtain ⟨written, queue, writing⟩ := same
  rw [written, queue, writing]
  exact inv.wire.mono fun stage agrees => alike.agrees kept (fits stage) agrees

theorem dropStream_wire (s : Conn) : s.dropStream.written = s.written ∧
    s.dropStream.queue = s.queue ∧ s.dropStream.writing = s.writing := by
  unfold Conn.dropStream
  split <;> exact ⟨rfl, rfl, rfl⟩

/-- What queueing a message of the read loop changes. -/
theorem flush_cases {s s' : Conn} (h : flush s = some s') :
    ∃ out rest thenEnd queue, s.reader = .sending (out :: rest) thenEnd ∧
      push s out = some queue ∧ s'.written = s.written ∧ s'.queue = queue ∧ s'.writing = s.writing ∧
      ((rest = [] ∧ Alike s.tasks s'.tasks ∧ (s'.reader = .ready ∨ s'.reader = .ended)) ∨
        (rest ≠ [] ∧ s'.tasks = s.tasks ∧ s'.reader = .sending rest thenEnd)) := by
  obtain ⟨out, rest, thenEnd, queue, reads, pushed, moved⟩ := flush_some h
  refine ⟨out, rest, thenEnd, queue, reads, pushed, ?_⟩
  rcases moved with ⟨last, _, rfl⟩ | ⟨last, _, rfl⟩ | ⟨more, rfl⟩
  · obtain ⟨written, queued, writing⟩ := dropStream_wire { s with queue := queue }
    exact ⟨written, queued, writing, .inl ⟨last, Alike.dropStream _, .inr rfl⟩⟩
  · exact ⟨rfl, rfl, rfl, .inl ⟨last, .refl _, .inl rfl⟩⟩
  · exact ⟨rfl, rfl, rfl, .inr ⟨more, rfl, rfl⟩⟩

theorem push_cases {s : Conn} {out : Out} {queue : List Out} (h : push s out = some queue) :
    s.writing = false ∨ queue = s.queue ++ [out] := by
  unfold push at h
  split at h
  · exact .inl (by simpa using ‹(!s.writing) = true›)
  · simp only [Option.ite_none_right_eq_some, Option.some.injEq] at h
    exact .inr h.2.symm

theorem Ordered.flush {s s' : Conn} (inv : Ordered s) (h : flush s = some s') :
    WireAt s'.written s'.queue s'.writing (Agrees s'.reader s'.tasks) := by
  obtain ⟨out, rest, thenEnd, queue, reads, pushed, written, rfl, writing, after⟩ := flush_cases h
  rw [written, writing]
  rcases push_cases pushed with stopped | queued
  · rw [stopped]
    exact inv.wire.stop _
  · rw [queued]
    refine inv.wire.push fun stage agrees => ?_
    obtain ⟨stage', moved, last, more⟩ := flush_agrees reads agrees
    refine ⟨stage', moved, ?_⟩
    rcases after with ⟨none, alike, ready | ended⟩ | ⟨some, tasks, reader⟩
    · rw [ready]
      exact alike.agrees id id (last none).1
    · rw [ended]
      exact alike.agrees id id (last none).2
    · rw [tasks, reader]
      exact more some

theorem Ordered.feed {s s' : Conn} (inv : Ordered s) (h : feed s = some s') :
    WireAt s'.written s'.queue s'.writing (Agrees s'.reader s'.tasks) := by
  obtain ⟨⟨payload, reads⟩, moved⟩ := feed_some h
  have idle : s.reader.rejection = some true → Reader.ready.rejection = some true := by
    rw [reads]
    exact id
  rcases moved with rfl | ⟨i, payload', rfl⟩
  · exact inv.alike ⟨rfl, rfl, rfl⟩ (.refl _) idle fun _ _ => trivial
  · exact inv.alike ⟨rfl, rfl, rfl⟩ (.modify _ _ fun t => ⟨rfl, rfl, rfl⟩) idle fun _ _ => trivial

theorem Ordered.write {s s' : Conn} (inv : Ordered s) (h : write s = some s') :
    WireAt s'.written s'.queue s'.writing (Agrees s'.reader s'.tasks) := by
  obtain ⟨_, wire⟩ := inv
  unfold RustServer.write at h
  split at h
  · rename_i out rest queued
    simp only [Option.ite_none_right_eq_some, Option.some.injEq] at h
    obtain ⟨writes, rfl⟩ := h
    rw [queued, writes] at wire
    exact wire.write
  · cases h

/-- A step of one task that touches neither its pending messages nor its position. -/
theorem Ordered.stepTask {s s' : Conn} {i : Nat} {f : Task → Option Task} (inv : Ordered s)
    (same : ∀ t t', f t = some t' → t'.pending = t.pending ∧ t'.point = t.point ∧
      (t'.life ≠ .gone → t.life ≠ .gone))
    (h : s.stepTask i f = some s') :
    WireAt s'.written s'.queue s'.writing (Agrees s'.reader s'.tasks) := by
  obtain ⟨t', moved, rfl⟩ := Option.map_eq_some_iff.mp h
  obtain ⟨t, found, moved⟩ := Option.bind_eq_some_iff.mp moved
  obtain ⟨pending, point, life⟩ := same t t' moved
  exact inv.alike ⟨rfl, rfl, rfl⟩ (.set found pending point life) id fun _ => id

/-- Inside the pump no terminal frame has been queued. -/
theorem Task.Fits.not_over {t : Task} {stage : Stage} (fits : t.Fits stage)
    (inPump : t.point.inPump = true) : stage ≠ .ended := by
  rintro rfl
  have after := track_over fits.run
  cases point : t.point with
  | finishing =>
      obtain ⟨front, last, whole, terminal⟩ := fits.terminal point
      have run := fits.run
      rw [whole, Machine.run_append, Option.bind_eq_some_iff] at run
      obtain ⟨stage, before, run⟩ := run
      rcases track_over before with rfl | rfl
      · rw [Machine.run, track_second_terminal terminal] at run
        cases run
      · rw [track_shut, point] at run
        cases run
  | awaiting => simp [point, Point.target] at after
  | reading headers trailers buf => simp [point, Point.target] at after
  | resolving => simp [point, Point.inPump] at inPump
  | calling => simp [point, Point.inPump] at inPump
  | closing => simp [point, Point.inPump] at inPump
  | done => simp [point, Point.inPump] at inPump

theorem Task.Fits.moved {t t' : Task} {stage : Stage} (fits : t.Fits stage)
    (next : (t.pending = [] ∧ t'.Fits t.point.target) ∨
      (t.point.inPump = true ∧ t'.point = .closing ∧ ∃ code message trailers,
        t'.pending = [.frame t.json (.trailer code message trailers), closeNormal])) :
    t'.Fits stage := by
  rcases next with ⟨none, fits'⟩ | ⟨inPump, closing, code, message, trailers, pending⟩
  · have run := fits.run
    rw [none, Machine.run_nil, Option.some.injEq] at run
    rwa [run]
  · refine ⟨?_, by rw [closing]; exact Point.noConfusion⟩
    rw [pending, closing]
    cases stage with
    | fresh => rfl
    | opened => rfl
    | shut => rfl
    | ended => exact absurd (fits.not_over inPump) (not_not_intro rfl)

theorem Ordered.run {srv : Config} {s s' : Conn} {i : Nat} {act : Act} (inv : Ordered s)
    (clear : clashes srv s (.run i act) = false) (h : step srv s (.run i act) = some s') :
    WireAt s'.written s'.queue s'.writing (Agrees s'.reader s'.tasks) := by
  obtain ⟨t, t', queue, found, running, moved, rfl⟩ := step_run h
  have lives : t.life ≠ .gone := by rw [running]; exact Life.noConfusion
  obtain ⟨only, set⟩ := inv.streams.only found t'
  have wire := inv.wire
  rw [only] at wire
  rw [set]
  by_cases sends : act = .send
  · subst sends
    obtain ⟨out, rest, pending, queued⟩ := runStream_sends moved
    by_cases writes : s.writing = true
    · obtain ⟨rfl, rfl⟩ := queued writes
      refine wire.push fun stage agrees => send_agrees agrees lives pending ?_ ?_
      · intro waiting
        simpa [clashes, waiting, found, pending] using clear
      · intro waiting
        simpa [clashes, waiting, found, pending] using clear
    · simp only [Bool.not_eq_true] at writes
      rw [writes]
      exact wire.stop _
  · obtain ⟨rfl, life, next⟩ := runStream_moves moved sends
    refine wire.mono fun stage agrees => ?_
    rcases agrees with shut | rejecting | ⟨reads, _, each⟩
    · exact .inl shut
    · exact .inr (.inl rejecting)
    · have fits := (each t (List.mem_singleton_self t) lives).moved next
      refine .inr (.inr ⟨reads, by simp, ?_⟩)
      intro other member _
      rwa [List.mem_singleton.mp member]

theorem spawn_fits (srv : Config) (sub : Subscribe) (json : Bool) : (spawn srv sub json).Fits .fresh := by
  cases json with
  | true => exact ⟨rfl, Point.noConfusion⟩
  | false => exact ⟨rfl, Point.noConfusion⟩

theorem rejectStream_fits (json : Bool) (code : Nat) (message : String) {stage : Stage}
    (before : stage ≠ .ended) : (Reader.sending (rejectStream json code message) false).Fits stage :=
  Reader.fits_pair rfl before

/-- The wire of a connection is left alone. -/
def SameWire (s s' : Conn) : Prop :=
  s'.written = s.written ∧ s'.queue = s.queue ∧ s'.writing = s.writing

/-- What a handled frame does to the outbound side: nothing that matters, a rejection,
or a new stream. -/
theorem handleFrame_wire (srv : Config) (s : Conn) (kind : Kind) (json : Bool)
    (ready : s.reader = .ready) :
    SameWire s (handleFrame srv s kind json) ∧
      ((Alike s.tasks (handleFrame srv s kind json).tasks ∧
          ((∀ stage, (handleFrame srv s kind json).reader.Fits stage) ∨
            (rejectsKind srv s kind = true ∧
              ∀ stage, stage ≠ .ended → (handleFrame srv s kind json).reader.Fits stage))) ∨
        ∃ sub, (handleFrame srv s kind json).tasks = s.tasks ++ [spawn srv sub json] ∧
          (handleFrame srv s kind json).reader = .ready) := by
  have still : ∀ stage, s.reader.Fits stage := fun stage => by rw [ready]; trivial
  cases kind with
  | subscribe sub =>
      simp only [handleFrame]
      split
      · exact ⟨⟨rfl, rfl, rfl⟩, .inl ⟨.refl _, .inl fun _ => trivial⟩⟩
      · have empty : s.slot.isNone = true := by
          rw [← Option.not_isSome]
          simpa using ‹¬ s.slot.isSome = true›
        split
        · rename_i big
          exact ⟨⟨rfl, rfl, rfl⟩, .inl ⟨.refl _, .inr ⟨by simp [rejectsKind, empty, big],
            fun _ => rejectStream_fits json _ _⟩⟩⟩
        · split
          · rename_i unparsed
            exact ⟨⟨rfl, rfl, rfl⟩, .inl ⟨.refl _, .inr ⟨by simp [rejectsKind, empty, unparsed],
              fun _ => rejectStream_fits json _ _⟩⟩⟩
          · exact ⟨⟨rfl, rfl, rfl⟩, .inr ⟨sub, rfl, ready⟩⟩
  | message payload =>
      simp only [handleFrame]
      split
      · rename_i big
        exact ⟨dropStream_wire s, .inl ⟨.dropStream s, .inr ⟨by simp [rejectsKind, big],
          fun _ => rejectStream_fits json _ _⟩⟩⟩
      · split
        · split
          · exact ⟨⟨rfl, rfl, rfl⟩, .inl ⟨.refl _, .inl fun _ => trivial⟩⟩
          · exact ⟨⟨rfl, rfl, rfl⟩, .inl ⟨.refl _, .inl still⟩⟩
        · exact ⟨⟨rfl, rfl, rfl⟩, .inl ⟨.refl _, .inl still⟩⟩
  | halfClose =>
      simp only [handleFrame]
      split
      · exact ⟨⟨rfl, rfl, rfl⟩, .inl ⟨.modify _ _ fun t => ⟨rfl, rfl, rfl⟩, .inl still⟩⟩
      · exact ⟨⟨rfl, rfl, rfl⟩, .inl ⟨.refl _, .inl still⟩⟩
  | reset code message =>
      refine ⟨dropStream_wire s, .inl ⟨.dropStream s, .inl fun stage => ?_⟩⟩
      simp only [handleFrame, dropStream_reader]
      exact still stage
  | trailer code message trailers => exact ⟨⟨rfl, rfl, rfl⟩, .inl ⟨.refl _, .inl still⟩⟩
  | header headers => exact ⟨⟨rfl, rfl, rfl⟩, .inl ⟨.refl _, .inl still⟩⟩

theorem Ordered.finish {s : Conn} (inv : Ordered s) (ready : s.reader = .ready) :
    WireAt s.finish.written s.finish.queue s.finish.writing (Agrees s.finish.reader s.finish.tasks) := by
  refine inv.alike (dropStream_wire s) (.dropStream s) ?_ fun _ _ => trivial
  rw [ready]
  exact id

theorem Ordered.receive {srv : Config} {s : Conn} {msg : Inbound} (inv : Ordered s)
    (ready : s.reader = .ready) (clear : clashes srv s (.receive msg) = false) :
    WireAt (receive srv s msg).written (receive srv s msg).queue (receive srv s msg).writing
      (Agrees (receive srv s msg).reader (receive srv s msg).tasks) := by
  simp only [clashes, Bool.or_eq_false_iff] at clear
  have first : ∀ s', Accepts srv s msg s' → s.tasks = [] := fun s' accepts =>
    accepts.first inv.streams clear.1
  have accepted := receive_cases srv s msg ready
  have noRejecting : s.reader.rejection ≠ some true := by
    rw [ready]
    decide
  unfold RustServer.receive at accepted ⊢
  split
  · exact inv.finish ready
  · rename_i open_
    rw [if_neg open_] at accepted
    cases decoded : decode s.codec srv.methodUrl msg with
    | mk codec frame =>
        rw [decoded] at accepted
        cases frame with
        | none => exact inv.alike ⟨rfl, rfl, rfl⟩ (.refl _) id fun _ => id
        | some frame =>
            obtain ⟨kind, json⟩ := frame
            obtain ⟨same, ⟨alike, fits | ⟨rejected, fits⟩⟩ | ⟨sub, tasks, reader⟩⟩ :=
              handleFrame_wire srv { s with codec := codec } kind json ready
            · exact inv.alike same alike (fun h => absurd h noRejecting) fun stage _ => fits stage
            · have before : ∀ stage, s.stage = some stage → stage ≠ .ended := by
                rintro stage found rfl
                have rejects : rejects srv s msg = true := by
                  rw [RustServer.rejects, decoded, Option.any_some]
                  exact rejected
                simp [rejects, found] at clear
              obtain ⟨written, queue, writing⟩ := same
              rw [written, queue, writing]
              refine inv.wire.mono_stage fun stage found agrees => ?_
              exact alike.agrees (fun h => absurd h noRejecting)
                (fun _ => fits stage (before stage found)) agrees
            · have empty : s.tasks = [] := by
                rcases accepted with keeps | accepts
                · have length := keeps.length
                  simp only [tasks, List.length_append, List.length_singleton] at length
                  omega
                · exact first _ accepts
              obtain ⟨written, queue, writing⟩ := same
              rw [written, queue, writing, tasks, reader]
              refine inv.wire.mono fun stage agrees => ?_
              rcases agrees with shut | ⟨rejecting, _⟩ | ⟨_, fresh, _⟩
              · exact .inl shut
              · exact absurd rejecting noRejecting
              · rw [fresh empty]
                refine .inr (.inr ⟨trivial, fun _ => rfl, ?_⟩)
                intro t member _
                simp only [empty, List.nil_append, List.mem_singleton] at member
                rw [member]
                exact spawn_fits srv sub json

theorem pull_same {srv : Config} {t t' : Task} (h : pull srv t = some t') :
    t'.pending = t.pending ∧ t'.point = t.point ∧ t'.life = t.life := by
  unfold pull at h
  split at h
  · split at h
    · split at h <;> (cases h; exact ⟨rfl, rfl, rfl⟩)
    · cases h
  · cases h

/-- The step lemma: whatever moves, the outbound side stays in order, unless the two
writers clash. -/
theorem Ordered.step {srv : Config} {s s' : Conn} {e : Event} (inv : Ordered s)
    (clear : clashes srv s e = false) (h : step srv s e = some s') : Ordered s' := by
  have streams : OneStream s' := by
    refine inv.streams.step ?_ h
    cases e with
    | receive msg =>
        simp only [clashes, Bool.or_eq_false_iff] at clear
        exact clear.1
    | _ => rfl
  refine ⟨streams, ?_⟩
  cases e with
  | receive msg =>
      simp only [RustServer.step, Option.ite_none_right_eq_some, Option.some.injEq] at h
      obtain ⟨ready, rfl⟩ := h
      exact inv.receive ready clear
  | hangup =>
      simp only [RustServer.step, Option.ite_none_right_eq_some, Option.some.injEq] at h
      obtain ⟨ready, rfl⟩ := h
      exact inv.finish ready
  | drain =>
      simp only [RustServer.step, Option.ite_none_right_eq_some, Option.some.injEq] at h
      obtain ⟨⟨ready, _⟩, rfl⟩ := h
      unfold observeDrain
      split
      · refine inv.alike ⟨rfl, rfl, rfl⟩ (.refl _) ?_ fun _ _ => trivial
        intro rejecting
        rw [ready] at rejecting
        cases rejecting
      · exact inv.alike ⟨rfl, rfl, rfl⟩ (.refl _) id fun _ => id
  | flush => exact inv.flush h
  | feed => exact inv.feed h
  | write => exact inv.write h
  | writeFail =>
      simp only [RustServer.step, Option.ite_none_right_eq_some, Option.some.injEq] at h
      obtain ⟨_, rfl⟩ := h
      exact inv.wire.stop _
  | run i act => exact inv.run clear h
  | wake i =>
      refine inv.stepTask (fun t t' moved => ?_) h
      simp only [Option.ite_none_right_eq_some, Option.some.injEq] at moved
      obtain ⟨⟨parked, _⟩, rfl⟩ := moved
      exact ⟨rfl, rfl, fun _ => by rw [parked]; exact Life.noConfusion⟩
  | park i =>
      refine inv.stepTask (fun t t' moved => ?_) h
      simp only [Option.ite_none_right_eq_some, Option.some.injEq] at moved
      obtain ⟨running, rfl⟩ := moved
      have lives : t.life ≠ .gone := by rw [running]; exact Life.noConfusion
      split <;> exact ⟨rfl, rfl, fun _ => lives⟩
  | reap i =>
      refine inv.stepTask (fun t t' moved => ?_) h
      simp only [Option.ite_none_right_eq_some, Option.some.injEq] at moved
      obtain ⟨⟨parked, _⟩, rfl⟩ := moved
      exact ⟨rfl, rfl, fun _ => by rw [parked]; exact Life.noConfusion⟩
  | pull i =>
      refine inv.stepTask (fun t t' moved => ?_) h
      obtain ⟨pending, point, life⟩ := pull_same moved
      exact ⟨pending, point, by rw [life]; exact id⟩
  | dropBody i =>
      refine inv.stepTask (fun t t' moved => ?_) h
      simp only [Option.ite_none_right_eq_some, Option.some.injEq] at moved
      obtain ⟨_, rfl⟩ := moved
      exact ⟨rfl, rfl, id⟩

/-- The run lemma: without a clash, what is written stays grammatical. -/
theorem run_ordered {srv : Config} {json : Option Bool} {es : List Event} {s : Conn}
    (clear : Machine.Along (RustServer.step srv) (fun s e => clashes srv s e = false) (.init json) es)
    (h : Machine.run (RustServer.step srv) (.init json) es = some s) : Ordered s :=
  Machine.run_invariant_along (fun _ _ _ inv clear h => inv.step clear h) (.init json) clear h

end GrpcWebnext.Ws.RustServer
