import GrpcWebnext.Deadline.Forwarded
import GrpcWebnext.Library.Watchdog

/-! The timers of a WebSocket, in `serve` of `ws.rs` and in `serveWS` and `runWriter` of `ws.go`:
the read loop's that presumes a silent peer dead, that of the writer's pings, and the one that
waits for the peer to answer a close. Instants are nanoseconds from the start of the loop. -/
namespace GrpcWebnext.Ws.Keepalive
open Machine (run Along)

inductive Inbound where
  | data
  | ping
  | pong
  | close
  deriving DecidableEq

/-- What happens to a read loop: it takes a frame, a close frame has gone out, the socket is
lost, or a timer has run out. -/
inductive Event where
  | taken (frame : Inbound)
  | closeSent
  | lost
  | expires
  deriving DecidableEq

def closeGrace : Nat := 5 * 10 ^ 9

def passed (deadline : Option Nat) (now : Nat) : Bool := deadline.any fun d => d ≤ now

/-- An event that comes no later than a timer. -/
def inTime (deadline : Option Nat) (now : Nat) : Prop := ∀ d, deadline = some d → now ≤ d

namespace Rust

structure Config where
  wsKeepalive : Option Nat
  wsKeepaliveTimeout : Nat

def Config.maxSilence (cfg : Config) : Option Nat :=
  cfg.wsKeepalive.map fun interval => interval + cfg.wsKeepaliveTimeout

structure Loop where
  now : Nat
  deadline : Option Nat
  closeDeadline : Option Nat
  ended : Bool

def Loop.init (cfg : Config) : Loop := ⟨0, cfg.maxSilence, none, false⟩

def step (cfg : Config) (s : Loop) (e : Nat × Event) : Option Loop :=
  if s.ended || e.1 < s.now then none
  else
    let s := { s with now := e.1 }
    match e.2 with
    | .taken frame =>
        let s := match cfg.maxSilence with
          | some d => { s with deadline := some (s.now + d) }
          | none => s
        some { s with ended := frame = .close }
    | .closeSent =>
        if s.closeDeadline = none then some { s with closeDeadline := some (s.now + closeGrace) } else none
    | .lost => some { s with ended := true }
    | .expires =>
        if passed s.deadline s.now || passed s.closeDeadline s.now
          then some { s with ended := true } else none

/-- The loop lets no timer run out unnoticed. -/
def Prompt (s : Loop) (e : Nat × Event) : Prop := inTime s.deadline e.1 ∧ inTime s.closeDeadline e.1

/-- What shows that the peer is alive. -/
def beat : Event → Bool
  | .taken _ => true
  | _ => false

end Rust

namespace Go

/-- Both are of type `time.Duration`. -/
structure Config where
  wsKeepalive : Int
  wsKeepaliveTimeout : Int

def defaultWSKeepaliveTimeout : Int := 20 * 10 ^ 9

/-- The timeout that counts. -/
def Config.patience (cfg : Config) : Int :=
  if cfg.wsKeepaliveTimeout ≤ 0 then defaultWSKeepaliveTimeout else cfg.wsKeepaliveTimeout

def Config.maxSilence (cfg : Config) : Int :=
  if cfg.wsKeepalive ≤ 0 then 0 else Deadline.Go.wrap (cfg.wsKeepalive + cfg.patience)

structure Loop where
  now : Nat
  readDeadline : Option Nat
  /-- The writer has sent its close frame, and returned. -/
  closing : Bool
  ended : Bool

def refresh (cfg : Config) (s : Loop) : Loop :=
  if 0 < cfg.maxSilence then { s with readDeadline := some (s.now + cfg.maxSilence.toNat) } else s

def Loop.init (cfg : Config) : Loop := refresh cfg ⟨0, none, false, false⟩

def step (cfg : Config) (s : Loop) (e : Nat × Event) : Option Loop :=
  if s.ended || e.1 < s.now then none
  else
    let s := { s with now := e.1 }
    match e.2 with
    | .taken .data | .taken .pong => some (refresh cfg s)
    -- `ReadMessage` answers a ping itself
    | .taken .ping => some s
    | .taken .close => some { s with ended := true }
    | .closeSent =>
        if s.closing then none else some { s with closing := true, readDeadline := some (s.now + closeGrace) }
    | .lost => some { s with ended := true }
    | .expires => if passed s.readDeadline s.now then some { s with ended := true } else none

def Prompt (s : Loop) (e : Nat × Event) : Prop := inTime s.readDeadline e.1

def beat : Event → Bool
  | .taken .data | .taken .pong => true
  | _ => false

end Go

theorem passed_iff {deadline : Option Nat} {now : Nat} :
    passed deadline now = true ↔ ∃ d, deadline = some d ∧ d ≤ now := by
  cases deadline <;> simp [passed]

namespace Rust
variable {cfg : Config} {s t : Loop} {e : Nat × Event}

/-- What a step does to the clock and the two timers. -/
structure Steps (cfg : Config) (s : Loop) (e : Nat × Event) (t : Loop) : Prop where
  going : s.ended = false
  later : s.now ≤ e.1
  now : t.now = e.1
  deadline : t.deadline = if beat e.2 then (cfg.maxSilence.map (e.1 + ·)).or s.deadline else s.deadline
  closing : t.closeDeadline = if e.2 = .closeSent then some (e.1 + closeGrace) else s.closeDeadline
  once : e.2 = .closeSent → s.closeDeadline = none
  expired : e.2 = .expires → passed s.deadline e.1 = true ∨ passed s.closeDeadline e.1 = true

theorem step_some (moved : step cfg s e = some t) : Steps cfg s e t := by
  obtain ⟨at_, event⟩ := e
  unfold step at moved
  split at moved
  · cases moved
  · rename_i open_
    obtain ⟨going, later⟩ : s.ended = false ∧ s.now ≤ at_ := by
      simpa using open_
    cases event with
    | taken frame =>
        cases silence : cfg.maxSilence with
        | none =>
            simp only [silence, Option.some.injEq] at moved
            subst moved
            exact ⟨going, later, rfl, by simp [silence, beat], rfl, nofun, nofun⟩
        | some d =>
            simp only [silence, Option.some.injEq] at moved
            subst moved
            exact ⟨going, later, rfl, by simp [silence, beat], rfl, nofun, nofun⟩
    | closeSent =>
        simp only [Option.ite_none_right_eq_some, Option.some.injEq] at moved
        obtain ⟨first, rfl⟩ := moved
        exact ⟨going, later, rfl, rfl, rfl, fun _ => first, nofun⟩
    | lost =>
        simp only [Option.some.injEq] at moved
        subst moved
        exact ⟨going, later, rfl, rfl, rfl, nofun, nofun⟩
    | expires =>
        simp only [Option.ite_none_right_eq_some, Option.some.injEq, Bool.or_eq_true] at moved
        obtain ⟨expired, rfl⟩ := moved
        exact ⟨going, later, rfl, rfl, rfl, nofun, fun _ => expired⟩

end Rust

namespace Go
variable {cfg : Config} {s t : Loop} {e : Nat × Event}

/-- What a step does to the clock and the timer. -/
structure Steps (cfg : Config) (s : Loop) (e : Nat × Event) (t : Loop) : Prop where
  going : s.ended = false
  later : s.now ≤ e.1
  now : t.now = e.1
  deadline : t.readDeadline = if e.2 = .closeSent then some (e.1 + closeGrace)
    else if beat e.2 ∧ 0 < cfg.maxSilence then some (e.1 + cfg.maxSilence.toNat) else s.readDeadline
  closing : t.closing = (s.closing || e.2 = .closeSent)
  once : e.2 = .closeSent → s.closing = false
  expired : e.2 = .expires → passed s.readDeadline e.1 = true

theorem refresh_steps (going : s.ended = false) {at_ : Nat} (later : s.now ≤ at_) {frame : Inbound}
    (beats : beat (.taken frame) = true) :
    Steps cfg s (at_, .taken frame) (refresh cfg { s with now := at_ }) := by
  unfold refresh
  split
  · rename_i on
    exact ⟨going, later, rfl, by simp [beats, on], by simp, nofun, nofun⟩
  · rename_i off
    exact ⟨going, later, rfl, by simp [off], by simp, nofun, nofun⟩

theorem step_some (moved : step cfg s e = some t) : Steps cfg s e t := by
  obtain ⟨at_, event⟩ := e
  unfold step at moved
  split at moved
  · cases moved
  · rename_i open_
    obtain ⟨going, later⟩ : s.ended = false ∧ s.now ≤ at_ := by
      simpa using open_
    cases event with
    | taken frame =>
        cases frame with
        | data | pong =>
            simp only [Option.some.injEq] at moved
            subst moved
            exact refresh_steps going later rfl
        | ping | close =>
            simp only [Option.some.injEq] at moved
            subst moved
            exact ⟨going, later, rfl, by simp [beat], by simp, nofun, nofun⟩
    | closeSent =>
        simp only [Option.ite_none_left_eq_some, Option.some.injEq] at moved
        obtain ⟨first, rfl⟩ := moved
        exact ⟨going, later, rfl, rfl, by simp, fun _ => Bool.eq_false_iff.mpr first, nofun⟩
    | lost =>
        simp only [Option.some.injEq] at moved
        subst moved
        exact ⟨going, later, rfl, by simp [beat], by simp, nofun, nofun⟩
    | expires =>
        simp only [Option.ite_none_right_eq_some, Option.some.injEq] at moved
        obtain ⟨expired, rfl⟩ := moved
        exact ⟨going, later, rfl, by simp [beat], by simp, nofun, fun _ => expired⟩

end Go

/-- What happens to a socket: a frame arrives on it, the read loop takes the first frame that has
arrived, the writer sends the ping that is due or its close frame, or returns because it cannot
write, the socket is lost, or the read loop's timer has run out. -/
inductive Act where
  | arrives (frame : Inbound)
  | reads (frame : Inbound)
  | pings
  | closes
  | stops
  | lost
  | expires
  deriving DecidableEq

/-- A socket: its read loop, the frames that wait for it, and when the writer's next ping is due. -/
structure Socket (σ : Type) where
  now : Nat
  loop : σ
  inbox : List Inbound
  tick : Option Nat

namespace Socket
variable {σ : Type}

/-- A ping that the writer is late with is followed by that of the next full interval, as both
tickers do it. -/
def step (loopStep : σ → Nat × Event → Option σ) (ended : σ → Bool) (interval : Nat) (s : Socket σ)
    (e : Nat × Act) :
    Option (Socket σ) :=
  if ended s.loop || e.1 < s.now then none
  else
    let s := { s with now := e.1 }
    let react (event : Event) : Option (Socket σ) := (loopStep s.loop (e.1, event)).map fun loop =>
      { s with loop := loop }
    match e.2 with
    | .arrives frame => some { s with inbox := s.inbox ++ [frame] }
    | .reads frame => match s.inbox with
        | first :: rest =>
            if first = frame then (react (.taken frame)).map fun s => { s with inbox := rest } else none
        | [] => none
    | .pings =>
        if passed s.tick s.now then some { s with tick := some ((s.now / interval + 1) * interval) } else none
    | .closes => (react .closeSent).map fun s => { s with tick := none }
    | .stops => some { s with tick := none }
    | .lost => react .lost
    | .expires => react .expires

/-- What the read loop sees of it. -/
def seen : Act → Option Event
  | .reads frame => some (.taken frame)
  | .closes => some .closeSent
  | .lost => some .lost
  | .expires => some .expires
  | _ => none

/-- The writer goes on. -/
def Writes (a : Act) : Prop := a ≠ .closes ∧ a ≠ .stops

/-- Only the writer's Close is seen as one, so not while the writer goes on. -/
theorem Writes.unclosed {a : Act} {event : Event} (writes : Writes a) (sees : seen a = some event) :
    event ≠ .closeSent := by
  rintro rfl
  cases a <;> cases sees
  exact writes.1 rfl

/-- The read loop takes what has arrived before time goes on. -/
def ReadsAtOnce (s : Socket σ) (e : Nat × Act) : Prop := s.inbox ≠ [] → e.1 = s.now

/-- The read loop lets its timer not run out unnoticed. -/
def Prompt (deadline : σ → Option Nat) (s : Socket σ) (e : Nat × Act) : Prop := inTime (deadline s.loop) e.1

def beat (alive : Event → Bool) (a : Act) : Bool := (seen a).any alive

variable {loopStep : σ → Nat × Event → Option σ} {ended : σ →
    Bool} {interval : Nat} {s t : Socket σ} {e : Nat × Act}

/-- What a step does to the clock, the read loop, the inbox and the ticker. -/
structure Steps (loopStep : σ → Nat × Event → Option σ) (interval : Nat) (s : Socket σ)
    (e : Nat × Act) (t : Socket σ) :
    Prop where
  later : s.now ≤ e.1
  now : t.now = e.1
  quiet : seen e.2 = none → t.loop = s.loop
  reacts : ∀ event, seen e.2 = some event → loopStep s.loop (e.1, event) = some t.loop
  arrived : ∀ frame, e.2 = .arrives frame → t.inbox = s.inbox ++ [frame]
  taken : ∀ frame, e.2 = .reads frame → s.inbox = frame :: t.inbox
  waiting : (∀ frame, e.2 ≠ .arrives frame ∧ e.2 ≠ .reads frame) → t.inbox = s.inbox
  tick : Writes e.2 → t.tick = if e.2 = .pings then some ((e.1 / interval + 1) * interval) else s.tick

theorem step_some (moved : step loopStep ended interval s e = some t) : Steps loopStep interval s e t := by
  obtain ⟨at_, act⟩ := e
  unfold step at moved
  split at moved
  · cases moved
  · rename_i open_
    have later : s.now ≤ at_ := by
      rw [Bool.or_eq_true, not_or, decide_eq_true_eq, Nat.not_lt] at open_
      exact open_.2
    cases act with
    | arrives frame =>
        cases moved
        refine ⟨later, rfl, fun _ => rfl, nofun, ?_, nofun, fun other =>
          absurd rfl (other frame).1, fun _ => rfl⟩
        rintro frame ⟨⟩
        rfl
    | reads frame =>
        simp only at moved
        split at moved
        · rename_i first rest waiting
          obtain ⟨rfl, moved⟩ := Option.ite_none_right_eq_some.mp moved
          simp only [Option.map_map, Option.map_eq_some_iff, Function.comp_apply] at moved
          obtain ⟨loop, reacted, rfl⟩ := moved
          refine ⟨later, rfl, nofun, ?_, nofun, ?_, fun other => absurd rfl (other first).2, fun _ => rfl⟩
          · rintro event ⟨⟩
            exact reacted
          · rintro frame ⟨⟩
            exact waiting
        · cases moved
    | pings =>
        obtain ⟨-, moved⟩ := Option.ite_none_right_eq_some.mp moved
        cases moved
        exact ⟨later, rfl, fun _ => rfl, nofun, nofun, nofun, fun _ => rfl, fun _ => rfl⟩
    | closes =>
        simp only [Option.map_map, Option.map_eq_some_iff, Function.comp_apply] at moved
        obtain ⟨loop, reacted, rfl⟩ := moved
        refine ⟨later, rfl, nofun, ?_, nofun, nofun, fun _ => rfl, fun goes => absurd rfl goes.1⟩
        rintro event ⟨⟩
        exact reacted
    | stops =>
        cases moved
        exact ⟨later, rfl, fun _ => rfl, nofun, nofun, nofun, fun _ => rfl, fun goes => absurd rfl goes.2⟩
    | lost | expires =>
        obtain ⟨loop, reacted, rfl⟩ := Option.map_eq_some_iff.mp moved
        refine ⟨later, rfl, nofun, ?_, nofun, nofun, fun _ => rfl, fun _ => rfl⟩
        rintro event ⟨⟩
        exact reacted

/-- Where reading is at once, what has arrived has been taken at that instant, or arrived just now. -/
theorem arrived_taken {es : List (Nat × Act)} (ran : run (step loopStep ended interval) s es = some t)
    (atOnce : Along (step loopStep ended interval) ReadsAtOnce s es) :
    ∀ a frame, (a, .arrives frame) ∈ es → (a, .reads frame) ∈ es ∨ (frame ∈ t.inbox ∧ a = t.now) := by
  refine Machine.run_invariant_history (I := fun es (t : Socket σ) => ∀ a frame, (a, .arrives frame) ∈ es →
    (a, .reads frame) ∈ es ∨ (frame ∈ t.inbox ∧ a = t.now)) ?_ (fun a frame none_ =>
      absurd none_ List.not_mem_nil)
    atOnce ran
  intro es u e t before here moved a frame inside
  have steps := step_some moved
  rcases List.mem_append.mp inside with earlier | now_
  · rcases before a frame earlier with taken | ⟨waits, rfl⟩
    · exact .inl (List.mem_append_left _ taken)
    · have same : e.1 = u.now := here (List.ne_nil_of_mem waits)
      obtain ⟨at_, act⟩ := e
      subst same
      cases act with
      | arrives other =>
          rw [steps.arrived other rfl]
          exact .inr ⟨List.mem_append_left _ waits, steps.now.symm⟩
      | reads other =>
          rw [steps.taken other rfl] at waits
          rcases List.mem_cons.mp waits with rfl | later
          · exact .inl (List.mem_append_right _ List.mem_cons_self)
          · exact .inr ⟨later, steps.now.symm⟩
      | pings | closes | stops | lost | expires =>
          rw [steps.waiting fun _ => ⟨nofun, nofun⟩]
          exact .inr ⟨waits, steps.now.symm⟩
  · obtain rfl := List.mem_singleton.mp now_
    rw [steps.arrived frame rfl]
    exact .inr ⟨List.mem_append_right _ List.mem_cons_self, steps.now.symm⟩

end Socket

/-- The writer has pinged, and there was no sign of life from then on: none taken, and none that
arrived before the last instant where the read loop takes what arrives at once. -/
structure Unanswered (alive : Event → Bool) (timeout lag : Nat) (front : List (Nat × Act))
    (atOnce : Prop) (t p : Nat) :
    Prop where
  pinged : (p, .pings) ∈ front
  patient : p + timeout ≤ t + lag
  taken : ∀ a frame, (a, .reads frame) ∈ front → alive (.taken frame) = true → a < p
  arrived : atOnce → ∀ a frame, (a, .arrives frame) ∈ front → alive (.taken frame) = true → a < p ∨ a = t

/-- A socket that is pinged every `interval`, in any run in which its writer goes on. When it
presumes the peer dead, a ping that has been written has been without any answer for all of the
timeout, less what the writer is late. Where its read loop is prompt, it goes on no longer than
it has to behind the last sign of life. -/
def Watches {σ : Type} (step : Socket σ → Nat × Act → Option (Socket σ)) (start : Socket σ)
    (deadline : σ → Option Nat)
    (alive : Event → Bool) (interval timeout : Nat) : Prop :=
  ∀ es s, run step start es = some s → (∀ e ∈ es, Socket.Writes e.2) →
    (∀ lag front t, lag < timeout → es = front ++ [(t, .expires)] →
      Along step (Watchdog.Punctual Socket.tick lag) start es →
        ∃ p, Unanswered alive timeout lag front (Along step Socket.ReadsAtOnce start es) t p) ∧
    (Along step (Socket.Prompt deadline) start es →
      s.now ≤ Watchdog.lastBeat (Socket.beat alive) 0 es + (interval + timeout))

section
variable {σ : Type} {loopStep : σ → Nat × Event → Option σ} {ended : σ → Bool} {deadline : σ → Option Nat}
variable {alive : Event → Bool} {interval timeout : Nat} {start : Socket σ}

theorem rearms_of (rearms : ∀ s e s', loopStep s e = some s' → e.2 ≠ .closeSent →
      deadline s' = if alive e.2 then some (e.1 + (interval + timeout)) else deadline s) :
    Watchdog.Rearms (Socket.step loopStep ended interval) (fun s => deadline s.loop) (Socket.beat alive)
      Socket.Writes (interval + timeout) := by
  intro s e t moved writes
  have steps := Socket.step_some moved
  change deadline t.loop = if Socket.beat alive e.2 then some (e.1 + (interval + timeout))
    else deadline s.loop
  rw [Socket.beat]
  cases sees : Socket.seen e.2 with
  | none =>
      rw [steps.quiet sees]
      rfl
  | some event => exact rearms _ _ _ (steps.reacts event sees) (writes.unclosed sees)

/-- A read loop whose timer every sign of life sets anew watches its socket. -/
theorem watches_of (positive : 0 < interval)
    (rearms : ∀ s e s', loopStep s e = some s' → e.2 ≠ .closeSent →
      deadline s' = if alive e.2 then some (e.1 + (interval + timeout)) else deadline s)
    (zero : start.now = 0) (armed : deadline start.loop = some (0 + (interval + timeout)))
    (ticking : start.tick = some interval)
    (expired : ∀ front u t s, run (Socket.step loopStep ended interval) start front = some u →
      (∀ e ∈ front, Socket.Writes e.2) → loopStep u.loop (t, .expires) = some s →
        passed (deadline u.loop) t = true) :
    Watches (Socket.step loopStep ended interval) start deadline alive interval timeout := by
  intro es s ran writes
  have clocked : Watchdog.Clocked (Socket.step loopStep ended interval) Socket.now :=
    fun s e t moved => ⟨(Socket.step_some moved).later, (Socket.step_some moved).now⟩
  have ticks : Watchdog.Ticks (Socket.step loopStep ended interval) Socket.tick (fun a => a = .pings)
      Socket.Writes interval := by
    intro s e t moved goes
    rw [(Socket.step_some moved).tick goes]
    simp only [decide_eq_true_eq]
  have sets : Watchdog.Rearms (Socket.step loopStep ended interval) (fun s => deadline s.loop)
      (Socket.beat alive) Socket.Writes (interval + timeout) := rearms_of rearms
  refine ⟨?_, fun prompt => ?_⟩
  · rintro lag front t short rfl punctual
    obtain ⟨u, before, last⟩ := Machine.run_concat_inv ran
    have quiet : ∀ e ∈ front, Socket.Writes e.2 := fun e inside => writes e (List.mem_append_left _ inside)
    obtain ⟨soFar, here⟩ := (Machine.along_concat before).mp punctual
    obtain ⟨d, set_, due⟩ := passed_iff.mp
      (expired front u t s.loop before quiet ((Socket.step_some last).reacts .expires rfl))
    rw [sets.deadline_run before quiet armed] at set_
    cases set_
    obtain ⟨j, first, behind, unanswered⟩ := Watchdog.exists_unanswered positive due
    obtain ⟨k, next, sent⟩ := ticks.signalled before quiet soFar ticking
    -- the ping after the last sign of life is not still to come, or it would be too late by now
    have written : j < k := by
      by_contra ahead
      have soon : t ≤ k * interval + lag := here _ next
      have order : k * interval ≤ j * interval := Nat.mul_le_mul_right interval (Nat.not_lt.mp ahead)
      omega
    obtain ⟨⟨p, act⟩, inside, signal, low, high⟩ := sent j first written
    obtain rfl : act = .pings := of_decide_eq_true signal
    have silent : ∀ a frame, (a, .reads frame) ∈ front → alive (.taken frame) = true → a < p := by
      intro a frame took lives
      have beats : Socket.beat alive (.reads frame) = true := lives
      have upTo : a ≤ Watchdog.lastBeat (Socket.beat alive) 0 front :=
        clocked.beat_le before (Nat.zero_le _) (a, .reads frame) took beats
      exact Nat.lt_of_le_of_lt upTo (behind.trans_le low)
    refine ⟨p, inside, ?_, silent, fun atOnce a frame came lives => ?_⟩
    · simp only at high
      omega
    · obtain ⟨earlier, now_⟩ := (Machine.along_concat before).mp atOnce
      rcases Socket.arrived_taken before earlier a frame came with took | ⟨waits, rfl⟩
      · exact .inl (silent a frame took lives)
      · exact .inr (now_ (List.ne_nil_of_mem waits)).symm
  · exact sets.now_le clocked (fun s e d prompt set_ => prompt d set_) ran writes prompt
      (by rw [zero]; exact Nat.zero_le _) armed

end

/-- The socket of the Rust server. -/
def Rust.Config.socket (cfg : Rust.Config) : Socket Rust.Loop := ⟨0, .init cfg, [], cfg.wsKeepalive⟩

def Rust.socketStep (cfg : Rust.Config) : Socket Rust.Loop → Nat × Act → Option (Socket Rust.Loop) :=
  Socket.step (Rust.step cfg) Rust.Loop.ended (cfg.wsKeepalive.getD 0)

/-- The socket of the Go server. -/
def Go.Config.socket (cfg : Go.Config) : Socket Go.Loop :=
  ⟨0, .init cfg, [], if 0 < cfg.wsKeepalive then some cfg.wsKeepalive.toNat else none⟩

def Go.socketStep (cfg : Go.Config) : Socket Go.Loop → Nat × Act → Option (Socket Go.Loop) :=
  Socket.step (Go.step cfg) Go.Loop.ended cfg.wsKeepalive.toNat

/-- No timer waits for the answer to a close that has not been sent. -/
theorem Rust.unclosed {cfg : Rust.Config} {es : List (Nat × Act)} {s : Socket Rust.Loop}
    (ran : run (Rust.socketStep cfg) cfg.socket es = some s) (writes : ∀ e ∈ es, Socket.Writes e.2) :
    s.loop.closeDeadline = none := by
  refine Machine.run_invariant_mem (I := fun s : Socket Rust.Loop => s.loop.closeDeadline = none) ?_ rfl ran
  intro u e t inside none_ moved
  have steps := Socket.step_some moved
  cases sees : Socket.seen e.2 with
  | none =>
      rw [steps.quiet sees]
      exact none_
  | some event =>
      rw [(Rust.step_some (steps.reacts event sees)).closing, if_neg ((writes _ inside).unclosed sees)]
      exact none_

/-- Both servers drop a connection for its silence only when a ping that they have written has
been left without any answer, and then at once. -/
theorem keepalive :
    (∀ (cfg : Rust.Config) (interval : Nat), cfg.wsKeepalive = some interval → 0 < interval →
      Watches (Rust.socketStep cfg) cfg.socket Rust.Loop.deadline Rust.beat interval cfg.wsKeepaliveTimeout) ∧
    ∀ cfg : Go.Config, 0 < cfg.wsKeepalive → cfg.wsKeepalive + cfg.patience < 2 ^ 63 →
      Watches (Go.socketStep cfg) cfg.socket Go.Loop.readDeadline Go.beat cfg.wsKeepalive.toNat
        cfg.patience.toNat := by
  constructor
  · intro cfg interval on positive
    have silence : cfg.maxSilence = some (interval + cfg.wsKeepaliveTimeout) := by
      rw [Rust.Config.maxSilence, on]
      rfl
    have expired : ∀ front u t s, run (Rust.socketStep cfg) cfg.socket front = some u →
        (∀ e ∈ front, Socket.Writes e.2) → Rust.step cfg u.loop (t, .expires) = some s →
          passed u.loop.deadline t = true := by
      intro front u t s before quiet last
      rcases (Rust.step_some last).expired rfl with silent | unanswered
      · exact silent
      · rw [Rust.unclosed before quiet] at unanswered
        cases unanswered
    have period : cfg.wsKeepalive.getD 0 = interval := by
      rw [on]
      rfl
    rw [Rust.socketStep, period] at expired ⊢
    refine watches_of positive ?_ rfl ?_ on expired
    · intro s e t moved _
      rw [(Rust.step_some moved).deadline, silence]
      rfl
    · rw [Rust.Config.socket, Rust.Loop.init, silence, Nat.zero_add]
  · intro cfg positive fits
    have patient : 0 < cfg.patience := by
      unfold Go.Config.patience Go.defaultWSKeepaliveTimeout
      split <;> omega
    have silence : cfg.maxSilence = cfg.wsKeepalive + cfg.patience := by
      rw [Go.Config.maxSilence, if_neg (by omega), Deadline.Go.wrap, Int.bmod_eq_of_le] <;> omega
    have on : 0 < cfg.maxSilence := by omega
    have limit : cfg.maxSilence.toNat = cfg.wsKeepalive.toNat + cfg.patience.toNat := by omega
    refine watches_of (by omega) ?_ ?_ ?_ ?_ ?_
    · intro s e t moved calm
      rw [(Go.step_some moved).deadline, if_neg calm, limit]
      simp only [on, and_true]
    · rfl
    · rw [Go.Config.socket, Go.Loop.init, Go.refresh, if_pos on, limit]
    · rw [Go.Config.socket, if_pos positive]
    · exact fun front u t s before quiet last => (Go.step_some last).expired rfl

/-- Data at 4, a ping at 10 that nothing answers, the end at 19: ten between pings and five for
an answer. The Go server, which hears nothing at all, leaves at 15. -/
theorem silent_peer_dropped :
    (∃ p, Unanswered Rust.beat 5 0 [(4, .arrives .data), (4, .reads .data), (10, .pings)]
      (Along (Rust.socketStep ⟨some 10, 5⟩) Socket.ReadsAtOnce (Rust.Config.socket ⟨some 10, 5⟩)
        [(4, .arrives .data), (4, .reads .data), (10, .pings), (19, .expires)]) 19 p) ∧
    ∃ p, Unanswered Go.beat 5 0 [(10, .pings)]
      (Along (Go.socketStep ⟨10, 5⟩) Socket.ReadsAtOnce
        (Go.Config.socket ⟨10, 5⟩) [(10, .pings), (15, .expires)]) 15 p := by
  constructor
  · refine (keepalive.1 ⟨some 10, 5⟩ 10 rfl (by decide) _ _ rfl ?_).1 0 _ 19 (by decide) rfl ?_
    · simp [Socket.Writes]
    · refine ⟨?_, ?_, ?_, ?_, trivial⟩ <;> (rintro d ⟨⟩; decide)
  · refine (keepalive.2 ⟨10, 5⟩ (by decide) (by decide) _ _ rfl ?_).1 0 _ 15 (by decide) rfl ?_
    · simp [Socket.Writes]
    · refine ⟨?_, ?_, trivial⟩ <;> (rintro d ⟨⟩; decide)

/-- Behind its close frame a prompt loop goes on no longer than the peer is given to answer. -/
def Parts {σ : Type} (step : σ → Nat × Event → Option σ) (start : σ) (now : σ → Nat)
    (prompt : σ → Nat × Event → Prop) :
    Prop :=
  ∀ es s c, run step start es = some s → Along step prompt start es → (c, .closeSent) ∈ es →
    now s ≤ c + closeGrace

theorem Rust.parts (cfg : Rust.Config) : Parts (Rust.step cfg) (.init cfg) Rust.Loop.now Rust.Prompt := by
  intro es s c ran prompt sent
  have kept : ∀ c, (c, .closeSent) ∈ es → s.closeDeadline = some (c + closeGrace) ∧
    s.now ≤ c + closeGrace := by
    refine Machine.run_invariant_history (I := fun es (s : Rust.Loop) => ∀ c, (c, .closeSent) ∈ es →
      s.closeDeadline = some (c + closeGrace) ∧ s.now ≤ c + closeGrace) ?_ (fun c none_ =>
        absurd none_ List.not_mem_nil) prompt ran
    intro es u e t before prompt moved c sent
    have steps := Rust.step_some moved
    rw [steps.now, steps.closing]
    rcases List.mem_append.mp sent with earlier | here
    · obtain ⟨set_, _⟩ := before c earlier
      have other : e.2 ≠ .closeSent := by
        intro again
        rw [steps.once again] at set_
        cases set_
      rw [if_neg other]
      exact ⟨set_, prompt.2 _ set_⟩
    · obtain rfl := List.mem_singleton.mp here
      exact ⟨rfl, Nat.le_add_right ..⟩
  exact (kept c sent).2

/-- The Go loop does too where it has no keepalive. -/
theorem Go.parts {cfg : Go.Config} (off : cfg.maxSilence ≤ 0) :
    Parts (Go.step cfg) (.init cfg) Go.Loop.now Go.Prompt := by
  intro es s c ran prompt sent
  have kept : ∀ c, (c, .closeSent) ∈ es →
      s.closing = true ∧ s.readDeadline = some (c + closeGrace) ∧ s.now ≤ c + closeGrace := by
    refine Machine.run_invariant_history (I := fun es (s : Go.Loop) => ∀ c, (c, .closeSent) ∈ es →
      s.closing = true ∧ s.readDeadline = some (c + closeGrace) ∧ s.now ≤ c + closeGrace) ?_
      (fun c none_ => absurd none_ List.not_mem_nil) prompt ran
    intro es u e t before prompt moved c sent
    have steps := Go.step_some moved
    have still : ¬ (Go.beat e.2 = true ∧ 0 < cfg.maxSilence) := fun both => absurd both.2 (by omega)
    rw [steps.now, steps.closing, steps.deadline, if_neg still]
    rcases List.mem_append.mp sent with earlier | here
    · obtain ⟨closing, set_, _⟩ := before c earlier
      have other : e.2 ≠ .closeSent := by
        intro again
        rw [steps.once again] at closing
        cases closing
      rw [if_neg other, closing]
      exact ⟨rfl, set_, prompt _ set_⟩
    · obtain rfl := List.mem_singleton.mp here
      exact ⟨Bool.or_true _, rfl, Nat.le_add_right ..⟩
  exact (kept c sent).2.2

/-- A peer that does not answer a close but goes on sending, as often as it has to. -/
def chatter (silence : Nat) : Nat → List (Nat × Event)
  | 0 => [(0, .closeSent), (0, .taken .data)]
  | n + 1 => chatter silence n ++ [((n + 1) * silence, .taken .data)]

theorem Go.chatter_goes_on {cfg : Go.Config} (on : 0 < cfg.maxSilence) (n : Nat) :
    run (Go.step cfg) (.init cfg) (chatter cfg.maxSilence.toNat n) =
        some ⟨n * cfg.maxSilence.toNat, some ((n + 1) * cfg.maxSilence.toNat), true, false⟩ ∧
      Along (Go.step cfg) Go.Prompt (.init cfg) (chatter cfg.maxSilence.toNat n) := by
  induction n with
  | zero =>
      simp [chatter, run, Go.step, Go.Loop.init, Go.refresh, on, Along, Go.Prompt, inTime]
  | succ n ih =>
      obtain ⟨ran, prompt⟩ := ih
      have later : ¬ (n + 1) * cfg.maxSilence.toNat < n * cfg.maxSilence.toNat :=
        Nat.not_lt.mpr (Nat.mul_le_mul_right _ (Nat.le_succ n))
      rw [chatter, Machine.run_append, ran, Machine.along_concat ran]
      refine ⟨?_, prompt, ?_⟩
      · rw [Nat.succ_mul (n + 1)]
        simp only [Option.bind_some, run, Go.step, Bool.false_or, decide_eq_true_eq, later,
          if_false, Go.refresh, on, if_true]
      · rintro d set_
        cases set_
        exact Nat.le_refl _

/-- A close that the peer does not answer: the Rust server leaves within the grace, whatever the
peer goes on sending. The Go server does so exactly when it has no keepalive, since every frame
sets its one timer anew. -/
theorem close_grace :
    (∀ cfg : Rust.Config, Parts (Rust.step cfg) (.init cfg) Rust.Loop.now Rust.Prompt) ∧
    ∀ cfg : Go.Config, Parts (Go.step cfg) (.init cfg) Go.Loop.now Go.Prompt ↔ cfg.maxSilence ≤ 0 := by
  refine ⟨Rust.parts, fun cfg => ⟨fun parts => ?_, Go.parts⟩⟩
  by_contra on
  obtain ⟨n, enough⟩ : ∃ n, closeGrace < n := ⟨closeGrace + 1, Nat.lt_succ_self _⟩
  obtain ⟨ran, prompt⟩ := Go.chatter_goes_on (Int.not_le.mp on) n
  have sent : ∀ n, (0, .closeSent) ∈ chatter cfg.maxSilence.toNat n := by
    intro n
    induction n with
    | zero => exact List.mem_cons_self
    | succ n ih => exact List.mem_append_left _ ih
  have bound := parts _ _ 0 ran prompt (sent _)
  have long : n ≤ n * cfg.maxSilence.toNat := Nat.le_mul_of_pos_right _ (by omega)
  rw [Nat.zero_add] at bound
  exact absurd (long.trans bound) (Nat.not_le.mpr enough)

end GrpcWebnext.Ws.Keepalive
