import GrpcWebnext.Library.History
import Mathlib.Data.List.Count

/-! Graceful shutdown of the Go server: the handlers in flight, any number of calls of
`Shutdown`, and every order in which their goroutines take turns. -/
namespace GrpcWebnext.Shutdown.Go
universe u
variable {ε : Type u}

/-- A handler call: entered, counted by `live.add`, and past its deferred `live.done`. -/
inductive Handler where
  | called
  | counted
  | finished
deriving DecidableEq, Repr

/-- The fields of `liveConns` its mutex guards; `idle` says that the channel is closed. -/
structure LiveConns where
  n : Int
  draining : Bool
  idle : Bool
deriving DecidableEq, Repr

namespace LiveConns

def new : LiveConns := ⟨0, false, false⟩

def signalIfIdle (l : LiveConns) : LiveConns :=
  if !l.draining || l.n != 0 then l
  else if l.idle then l
  else { l with idle := true }

def add (l : LiveConns) : LiveConns := { l with n := l.n + 1 }

def done (l : LiveConns) : LiveConns := signalIfIdle { l with n := l.n - 1 }

/-- What `wait` does under the lock, before it blocks. -/
def startWait (l : LiveConns) : LiveConns := signalIfIdle { l with draining := true }

end LiveConns

/-- Where a call of `Shutdown` stands between two of its shared steps. -/
inductive Phase (ε : Type u) where
  | called
  | stopping
  | stopped
  | waiting
  | returned (result : Option ε)
deriving DecidableEq, Repr

/-- One call of `Shutdown`: what `ctx.Err()` gives by now, and the local `err`. -/
structure Call (ε : Type u) where
  ctx : Option ε
  err : Option ε
  phase : Phase ε
deriving DecidableEq, Repr

structure Server (ε : Type u) where
  draining : Bool
  live : LiveConns
  handlers : List Handler
  calls : List (Call ε)
deriving DecidableEq, Repr

inductive Event (ε : Type u) where
  | serveHTTP
  | add (i : Nat)
  | done (i : Nat)
  | shutdown
  | expire (i : Nat) (e : ε)
  | drainOnce (i : Nat)
  | httpShutdown (i : Nat) (err : Option ε)
  | lock (i : Nat)
  | idle (i : Nat)
  | ctxDone (i : Nat)
deriving DecidableEq, Repr

def init : Server ε := ⟨false, .new, [], []⟩

/-- Handler `i` goes from one point of its body to the next. -/
def moveHandler (s : Server ε) (i : Nat) (before after : Handler) : Option (Server ε) :=
  if s.handlers[i]? = some before then some { s with handlers := s.handlers.set i after } else none

/-- A call of `Shutdown` goes on from `before`. -/
def moveCall [DecidableEq ε] (s : Server ε) (i : Nat) (before : Phase ε) (after : Call ε → Option (Call ε)) :
    Option (Server ε) :=
  match s.calls[i]? with
  | some c =>
      if c.phase = before then (after c).map fun c => { s with calls := s.calls.set i c } else none
  | none => none

/-- The steps between which other goroutines may run. `http.Server.Shutdown` gives any
error; a `select` with both channels ready takes either. -/
def step [DecidableEq ε] (s : Server ε) : Event ε → Option (Server ε)
  | .serveHTTP => some { s with handlers := s.handlers ++ [.called] }
  | .add i => (moveHandler s i .called .counted).map fun s => { s with live := s.live.add }
  | .done i => (moveHandler s i .counted .finished).map fun s => { s with live := s.live.done }
  | .shutdown => some { s with calls := s.calls ++ [⟨none, none, .called⟩] }
  | .expire i e =>
      match s.calls[i]? with
      | some c =>
          if c.ctx = none then some { s with calls := s.calls.set i { c with ctx := some e } } else none
      | none => none
  | .drainOnce i =>
      (moveCall s i .called fun c => some { c with phase := .stopping }).map fun s =>
        { s with draining := true }
  | .httpShutdown i err => moveCall s i .stopping fun c => some { c with err, phase := .stopped }
  | .lock i =>
      (moveCall s i .stopped fun c => some { c with phase := .waiting }).map fun s =>
        { s with live := s.live.startWait }
  | .idle i =>
      if s.live.idle then moveCall s i .waiting fun c => some { c with phase := .returned c.err } else none
  | .ctxDone i =>
      moveCall s i .waiting fun c => c.ctx.map fun e => { c with phase := .returned (some e) }

/-- No counted handler is in flight, and draining has begun. -/
def Idle (s : Server ε) : Prop := s.live.draining = true ∧ s.handlers.count .counted = 0

instance (s : Server ε) : Decidable (Idle s) := inferInstanceAs (Decidable (_ ∧ _))

section Steps

theorem signalIfIdle_n (l : LiveConns) : l.signalIfIdle.n = l.n := by
  unfold LiveConns.signalIfIdle
  split
  · rfl
  · split <;> rfl

theorem signalIfIdle_draining (l : LiveConns) : l.signalIfIdle.draining = l.draining := by
  unfold LiveConns.signalIfIdle
  split
  · rfl
  · split <;> rfl

theorem signalIfIdle_idle (l : LiveConns) :
    l.signalIfIdle.idle = true ↔ l.idle = true ∨ l.draining = true ∧ l.n = 0 := by
  fun_cases LiveConns.signalIfIdle l <;> grind

variable {s t : Server ε} {e : Event ε}

theorem moveHandler_some {i : Nat} {before after : Handler} (h : moveHandler s i before after = some t) :
    s.handlers[i]? = some before ∧ t = { s with handlers := s.handlers.set i after } := by
  unfold moveHandler at h
  split at h
  · exact ⟨‹_›, (Option.some.inj h).symm⟩
  · cases h

variable [DecidableEq ε]

theorem moveCall_some {i : Nat} {before : Phase ε} {after : Call ε → Option (Call ε)}
    (h : moveCall s i before after = some t) :
    ∃ c c', s.calls[i]? = some c ∧ c.phase = before ∧ after c = some c' ∧
      t = { s with calls := s.calls.set i c' } := by
  unfold moveCall at h
  split at h
  · split at h
    · obtain ⟨c', result, rfl⟩ := Option.map_eq_some_iff.mp h
      exact ⟨_, c', ‹_›, ‹_›, result, rfl⟩
    · cases h
  · cases h

/-- What a step can do to the server: a handler moves, or a call does, or one of either comes. -/
inductive Moves (s t : Server ε) : Prop where
  | arrives (result : t = { s with handlers := s.handlers ++ [.called] })
  | adds (i : Nat) (found : s.handlers[i]? = some .called)
      (result : t = { s with handlers := s.handlers.set i .counted, live := s.live.add })
  | ends (i : Nat) (found : s.handlers[i]? = some .counted)
      (result : t = { s with handlers := s.handlers.set i .finished, live := s.live.done })
  | asks (result : t = { s with calls := s.calls ++ [⟨none, none, .called⟩] })
  | expires (i : Nat) (c : Call ε) (e : ε) (found : s.calls[i]? = some c) (running : c.ctx = none)
      (result : t = { s with calls := s.calls.set i { c with ctx := some e } })
  | drains (i : Nat) (c : Call ε) (found : s.calls[i]? = some c) (phase : c.phase = .called)
      (result : t = { s with calls := s.calls.set i { c with phase := .stopping }, draining := true })
  | stops (i : Nat) (c : Call ε) (err : Option ε) (found : s.calls[i]? = some c) (phase : c.phase = .stopping)
      (result : t = { s with calls := s.calls.set i { c with err, phase := .stopped } })
  | locks (i : Nat) (c : Call ε) (found : s.calls[i]? = some c) (phase : c.phase = .stopped)
      (result : t = { s with calls := s.calls.set i { c with phase := .waiting }, live := s.live.startWait })
  | wakes (i : Nat) (c : Call ε) (found : s.calls[i]? = some c) (phase : c.phase = .waiting)
      (closed : s.live.idle = true)
      (result : t = { s with calls := s.calls.set i { c with phase := .returned c.err } })
  | gives (i : Nat) (c : Call ε) (e : ε) (found : s.calls[i]? = some c) (phase : c.phase = .waiting)
      (expired : c.ctx = some e)
      (result : t = { s with calls := s.calls.set i { c with phase := .returned (some e) } })

theorem step_moves (h : step s e = some t) : Moves s t := by
  cases e with
  | serveHTTP => exact .arrives (Option.some.inj h).symm
  | add i =>
      obtain ⟨u, moved, rfl⟩ := Option.map_eq_some_iff.mp h
      obtain ⟨found, rfl⟩ := moveHandler_some moved
      exact .adds i found rfl
  | done i =>
      obtain ⟨u, moved, rfl⟩ := Option.map_eq_some_iff.mp h
      obtain ⟨found, rfl⟩ := moveHandler_some moved
      exact .ends i found rfl
  | shutdown => exact .asks (Option.some.inj h).symm
  | expire i e =>
      simp only [step] at h
      split at h
      · split at h
        · exact .expires i _ e ‹_› ‹_› (Option.some.inj h).symm
        · cases h
      · cases h
  | drainOnce i =>
      obtain ⟨u, moved, rfl⟩ := Option.map_eq_some_iff.mp h
      obtain ⟨c, c', found, phase, after, rfl⟩ := moveCall_some moved
      cases after
      exact .drains i c found phase rfl
  | httpShutdown i err =>
      obtain ⟨c, c', found, phase, after, rfl⟩ := moveCall_some h
      cases after
      exact .stops i c err found phase rfl
  | lock i =>
      obtain ⟨u, moved, rfl⟩ := Option.map_eq_some_iff.mp h
      obtain ⟨c, c', found, phase, after, rfl⟩ := moveCall_some moved
      cases after
      exact .locks i c found phase rfl
  | idle i =>
      simp only [step] at h
      split at h
      · obtain ⟨c, c', found, phase, after, rfl⟩ := moveCall_some h
        cases after
        exact .wakes i c found phase ‹_› rfl
      · cases h
  | ctxDone i =>
      obtain ⟨c, c', found, phase, after, rfl⟩ := moveCall_some h
      obtain ⟨e, expired, rfl⟩ := Option.map_eq_some_iff.mp after
      exact .gives i c e found phase expired rfl

/-- `n` counts the handlers between their `add` and their `done`, and an idle moment of a
drain is signalled. -/
structure Counts (s : Server ε) : Prop where
  n : s.live.n = s.handlers.count .counted
  signalled : Idle s → s.live.idle = true

theorem count_add {l : List Handler} {i : Nat} (found : l[i]? = some .called) :
    (l.set i .counted).count .counted = l.count .counted + 1 := by
  obtain ⟨inside, here⟩ := List.getElem?_eq_some_iff.mp found
  rw [List.count_set inside, here]
  rfl

theorem count_done {l : List Handler} {i : Nat} (found : l[i]? = some .counted) :
    (l.set i .finished).count .counted + 1 = l.count .counted := by
  obtain ⟨inside, here⟩ := List.getElem?_eq_some_iff.mp found
  have some_ : 0 < l.count .counted := List.count_pos_iff.mpr (here ▸ List.getElem_mem inside)
  rw [List.count_set inside, here]
  simp only [BEq.rfl, if_true, reduceCtorEq, beq_iff_eq, if_false]
  omega

omit [DecidableEq ε] in
theorem counts_init : Counts (init : Server ε) :=
  ⟨rfl, fun idle => by cases idle.1⟩

/-- The channel is closed by the step that makes the drain idle, and is never opened again. -/
theorem idle_step (counts : Counts s) (h : step s e = some t) :
    t.live.n = t.handlers.count .counted ∧ (t.live.idle = true ↔ s.live.idle = true ∨ Idle t) := by
  have same : s.live.idle = true ↔ s.live.idle = true ∨ Idle s :=
    ⟨.inl, fun either => either.elim id counts.signalled⟩
  cases step_moves h with
  | arrives result =>
      subst result
      have count : (s.handlers ++ [Handler.called]).count .counted = s.handlers.count .counted := by
        rw [List.count_append]
        rfl
      exact ⟨by rw [count]; exact counts.n, by simpa only [Idle, count] using same⟩
  | adds i found result =>
      subst result
      have more := count_add found
      refine ⟨?_, fun closed => .inl closed, ?_⟩
      · change s.live.n + 1 = _
        rw [counts.n, more]
        rfl
      · rintro (closed | ⟨_, none_⟩)
        · exact closed
        · have : (s.handlers.set i .counted).count .counted = 0 := none_
          omega
  | ends i found result =>
      subst result
      have fewer := count_done found
      have n : s.live.n - 1 = (s.handlers.set i Handler.finished).count .counted := by
        rw [counts.n]
        omega
      refine ⟨(signalIfIdle_n _).trans n, ?_⟩
      change (LiveConns.signalIfIdle _).idle = true ↔ _ ∨ (LiveConns.signalIfIdle _).draining = true ∧ _
      rw [signalIfIdle_idle, signalIfIdle_draining]
      change _ ∨ _ ∧ s.live.n - 1 = 0 ↔ _
      rw [n, Int.natCast_eq_zero]
  | locks i c found phase result =>
      subst result
      refine ⟨(signalIfIdle_n _).trans counts.n, ?_⟩
      change (LiveConns.signalIfIdle _).idle = true ↔ _ ∨ (LiveConns.signalIfIdle _).draining = true ∧ _
      rw [signalIfIdle_idle, signalIfIdle_draining]
      change _ ∨ _ ∧ s.live.n = 0 ↔ _
      rw [counts.n, Int.natCast_eq_zero]
  | asks result | expires i c e found running result | drains i c found phase result
  | stops i c err found phase result | wakes i c found phase closed result
  | gives i c e found phase expired result =>
      subst result
      exact ⟨counts.n, same⟩

theorem counts_step (counts : Counts s) (h : step s e = some t) : Counts t := by
  obtain ⟨n, idle⟩ := idle_step counts h
  exact ⟨n, fun now => idle.mpr (.inr now)⟩

theorem counts_run {es : List (Event ε)} (h : Machine.run step init es = some s) : Counts s :=
  Machine.run_invariant (fun _ _ _ counts => counts_step counts) counts_init h

/-- The channel `idle` remembers an idle moment, whoever was there to wait for it. -/
theorem idle_passed {es : List (Event ε)} (h : Machine.run step init es = some s) :
    s.live.idle = true ↔ Machine.Passed step Idle (init : Server ε) es := by
  refine Machine.run_latch (J := Counts) (L := fun s => s.live.idle = true)
    (fun _ _ _ counts => counts_step counts) (fun _ _ _ counts moved => (idle_step counts moved).2)
    counts_init ?_ h
  exact iff_of_false Bool.false_ne_true fun idle => Bool.false_ne_true idle.1

/-- A handler in flight stays so or ends. -/
theorem counted_step {j : Nat} (inFlight : s.handlers[j]? = some .counted) (h : step s e = some t) :
    t.handlers[j]? = some .counted ∨ t.handlers[j]? = some .finished := by
  have inside := (List.getElem?_eq_some_iff.mp inFlight).1
  cases step_moves h with
  | arrives result =>
      subst result
      exact .inl ((List.getElem?_append_left inside).trans inFlight)
  | adds i found result =>
      subst result
      by_cases same : i = j
      · subst same
        exact .inl (List.getElem?_set_self inside)
      · exact .inl ((List.getElem?_set_ne same).trans inFlight)
  | ends i found result =>
      subst result
      by_cases same : i = j
      · subst same
        exact .inr (List.getElem?_set_self inside)
      · exact .inl ((List.getElem?_set_ne same).trans inFlight)
  | asks result | expires i c e found running result | drains i c found phase result
  | stops i c err found phase result | locks i c found phase result
  | wakes i c found phase closed result | gives i c e found phase expired result =>
      subst result
      exact .inl inFlight

theorem finished_step {j : Nat} (finished : s.handlers[j]? = some .finished) (h : step s e = some t) :
    t.handlers[j]? = some .finished := by
  have inside := (List.getElem?_eq_some_iff.mp finished).1
  cases step_moves h with
  | arrives result =>
      subst result
      exact (List.getElem?_append_left inside).trans finished
  | adds i found result | ends i found result =>
      subst result
      refine (List.getElem?_set_ne fun same => ?_).trans finished
      subst same
      cases found.symm.trans finished
  | asks result | expires i c e found running result | drains i c found phase result
  | stops i c err found phase result | locks i c found phase result
  | wakes i c found phase closed result | gives i c e found phase expired result =>
      subst result
      exact finished

theorem counted_run {j : Nat} {es : List (Event ε)} (inFlight : s.handlers[j]? = some .counted)
    (h : Machine.run step s es = some t) :
    t.handlers[j]? = some .counted ∨ t.handlers[j]? = some .finished := by
  refine Machine.run_invariant (I :=
    fun s => s.handlers[j]? = some .counted ∨ s.handlers[j]? = some .finished)
    (fun s e t either moved => ?_) (.inl inFlight) h
  rcases either with counted | finished
  · exact counted_step counted moved
  · exact .inr (finished_step finished moved)

/-- A drain once begun is not taken back. -/
theorem draining_step (draining : s.live.draining = true) (h : step s e = some t) :
    t.live.draining = true := by
  cases step_moves h with
  | ends i found result =>
      subst result
      exact (signalIfIdle_draining _).trans draining
  | locks i c found phase result =>
      subst result
      exact signalIfIdle_draining _
  | arrives result | adds i found result | asks result | expires i c e found running result
  | drains i c found phase result | stops i c err found phase result
  | wakes i c found phase closed result | gives i c e found phase expired result =>
      subst result
      exact draining

/-- What the rest of the server knows of a call by where it stands. -/
def CallOk (draining idle : Bool) (c : Call ε) : Prop :=
  (c.phase ≠ .called → draining = true) ∧
    ∀ r, c.phase = .returned r → (∃ e, c.ctx = some e ∧ r = some e) ∨ r = c.err ∧ idle = true

omit [DecidableEq ε] in
theorem CallOk.mono {draining draining' idle idle' : Bool} {c : Call ε} (ok : CallOk draining idle c)
    (stays : draining = true → draining' = true) (closed : idle = true → idle' = true) :
    CallOk draining' idle' c :=
  ⟨fun on => stays (ok.1 on), fun r back => (ok.2 r back).imp id fun both => ⟨both.1, closed both.2⟩⟩

omit [DecidableEq ε] in
theorem CallOk.running {idle : Bool} {c : Call ε} (running : ∀ r, c.phase ≠ .returned r) :
    CallOk true idle c :=
  ⟨fun _ => rfl, fun r back => absurd back (running r)⟩

omit [DecidableEq ε] in
/-- Where one call moves to a place that is right, all calls stay right. -/
theorem callsOk_set {draining draining' idle idle' : Bool} {calls : List (Call ε)} {i : Nat} {c : Call ε}
    (all : ∀ c ∈ calls, CallOk draining idle c) (stays : draining = true → draining' = true)
    (closed : idle = true → idle' = true) (ok : CallOk draining' idle' c) :
    ∀ d ∈ calls.set i c, CallOk draining' idle' d := by
  intro d inside
  rcases List.mem_or_eq_of_mem_set inside with old | rfl
  · exact (all d old).mono stays closed
  · exact ok

theorem callsOk_step (all : ∀ c ∈ s.calls, CallOk s.draining s.live.idle c) (h : step s e = some t) :
    ∀ c ∈ t.calls, CallOk t.draining t.live.idle c := by
  have here : ∀ {i : Nat} {c : Call ε}, s.calls[i]? = some c → CallOk s.draining s.live.idle c :=
    fun found => all _ (List.mem_of_getElem? found)
  have begun : ∀ {i : Nat} {c : Call ε} {p : Phase ε}, s.calls[i]? = some c → c.phase = p → p ≠ .called →
      s.draining = true := fun found phase other => (here found).1 (phase ▸ other)
  cases step_moves h with
  | arrives result | adds i found result =>
      subst result
      exact all
  | ends i found result =>
      subst result
      exact fun c inside => (all c inside).mono id fun closed => (signalIfIdle_idle _).mpr (.inl closed)
  | asks result =>
      subst result
      intro c inside
      rcases List.mem_append.mp inside with old | new
      · exact all c old
      · rw [List.mem_singleton.mp new]
        exact ⟨fun on => absurd rfl on, fun r back => by cases back⟩
  | expires i c e found running result =>
      subst result
      have ok : CallOk s.draining s.live.idle { c with ctx := some e } := by
        refine ⟨(here found).1, fun r back => ?_⟩
        rcases (here found).2 r back with ⟨e', expired, _⟩ | both
        · cases running.symm.trans expired
        · exact .inr both
      exact callsOk_set all id id ok
  | drains i c found phase result =>
      subst result
      have ok : CallOk true s.live.idle { c with phase := .stopping } := .running fun r back => by cases back
      exact callsOk_set all (fun _ => rfl) id ok
  | stops i c err found phase result =>
      subst result
      have ok : CallOk s.draining s.live.idle { c with err, phase := .stopped } := by
        rw [begun found phase (by simp)]
        exact .running fun r back => by cases back
      exact callsOk_set all id id ok
  | locks i c found phase result =>
      subst result
      have ok : CallOk s.draining s.live.startWait.idle { c with phase := .waiting } := by
        rw [begun found phase (by simp)]
        exact .running fun r back => by cases back
      exact callsOk_set all id (fun closed => (signalIfIdle_idle _).mpr (.inl closed)) ok
  | wakes i c found phase closed result =>
      subst result
      have ok : CallOk s.draining s.live.idle { c with phase := .returned c.err } := by
        refine ⟨fun _ => begun found phase (by simp), fun r back => .inr ?_⟩
        cases back
        exact ⟨rfl, closed⟩
      exact callsOk_set all id id ok
  | gives i c e found phase expired result =>
      subst result
      have ok : CallOk s.draining s.live.idle { c with phase := .returned (some e) } := by
        refine ⟨fun _ => begun found phase (by simp), fun r back => .inl ?_⟩
        cases back
        exact ⟨e, expired, rfl⟩
      exact callsOk_set all id id ok

theorem callsOk_run {es : List (Event ε)} (h : Machine.run step init es = some s) :
    ∀ c ∈ s.calls, CallOk s.draining s.live.idle c :=
  Machine.run_invariant (I := fun s => ∀ c ∈ s.calls, CallOk s.draining s.live.idle c)
    (fun _ _ _ all => callsOk_step all) (fun _ inside => absurd inside List.not_mem_nil) h

/-- A waiting call may go on as soon as `idle` is closed. -/
theorem idle_enabled {i : Nat} {c : Call ε} (found : s.calls[i]? = some c) (phase : c.phase = .waiting) :
    (step s (.idle i)).isSome = true ↔ s.live.idle = true := by
  cases closed : s.live.idle <;> simp [step, moveCall, found, phase, closed]

/-- Behind an idle moment every handler in flight before the drain has ended. -/
theorem drained_handlers {es front back : List (Event ε)} {u : Server ε} {j : Nat}
    (split : es = front ++ back) (reached : Machine.run step init front = some u)
    (before : u.live.draining = false) (inFlight : u.handlers[j]? = some .counted)
    (passed : Machine.Passed step Idle (init : Server ε) es) (h : Machine.run step init es = some s) :
    s.handlers[j]? = some .finished := by
  subst split
  obtain ⟨front', back', w, split, reached', idle, rest⟩ := passed.rest h
  have finished : w.handlers[j]? = some .finished := by
    rcases List.append_eq_append_iff.mp split with ⟨more, rfl, _⟩ | ⟨more, rfl, _⟩
    · rw [Machine.run_append, reached] at reached'
      rcases counted_run inFlight reached' with counted | finished
      · have some_ := List.count_pos_iff.mpr (List.mem_of_getElem? counted)
        rw [idle.2] at some_
        exact absurd some_ (Nat.lt_irrefl 0)
      · exact finished
    · rw [Machine.run_append, reached'] at reached
      have draining : u.live.draining = true :=
        Machine.run_invariant (I := fun s => s.live.draining = true)
          (fun _ _ _ draining => draining_step draining) idle.1 reached
      rw [before] at draining
      cases draining
  exact Machine.run_invariant (I := fun s => s.handlers[j]? = some .finished)
    (fun _ _ _ finished => finished_step finished) finished rest

/-- `Shutdown` in any interleaving: the count is right, no wake-up is lost, and a result is
the caller's own expiry or comes behind an idle moment, when all that was in flight before
the drain is over. -/
theorem shutdown_waits {es : List (Event ε)} (h : Machine.run step init es = some s) :
    s.live.n = s.handlers.count .counted ∧
      (∀ (i : Nat) (c : Call ε), s.calls[i]? = some c →
        (c.phase ≠ .called → s.draining = true) ∧
        (c.phase = .waiting →
          ((step s (.idle i)).isSome = true ↔ Machine.Passed step Idle (init : Server ε) es)) ∧
        ∀ r, c.phase = .returned r → (∃ e, c.ctx = some e ∧ r = some e) ∨
          r = c.err ∧ Machine.Passed step Idle (init : Server ε) es) ∧
      ∀ front back (u : Server ε) (i j : Nat) (c : Call ε) (r : Option ε), es = front ++ back →
        Machine.run step init front = some u → u.live.draining = false → u.handlers[j]? = some .counted →
        s.calls[i]? = some c → c.phase = .returned r →
          (∃ e, c.ctx = some e ∧ r = some e) ∨ s.handlers[j]? = some .finished := by
  have passed := idle_passed h
  refine ⟨(counts_run h).n, fun i c found => ?_, ?_⟩
  · obtain ⟨on, back⟩ := callsOk_run h c (List.mem_of_getElem? found)
    refine ⟨on, fun phase => (idle_enabled found phase).trans passed, fun r phase => ?_⟩
    exact (back r phase).imp id fun both => ⟨both.1, passed.mp both.2⟩
  · intro front back u i j c r split reached before inFlight found phase
    rcases (callsOk_run h c (List.mem_of_getElem? found)).2 r phase with expired | ⟨_, closed⟩
    · exact .inl expired
    · exact .inr (drained_handlers split reached before inFlight (passed.mp closed) h)

/-- Two drains of one handler: the second arrives when the first is waiting. -/
theorem shutdown_waits_twice :
    ∃ s : Server String,
      Machine.run step init [.serveHTTP, .add 0, .shutdown, .drainOnce 0, .httpShutdown 0 none, .lock 0,
        .shutdown, .drainOnce 1, .httpShutdown 1 none, .lock 1, .expire 1 "deadline exceeded", .ctxDone 1,
        .done 0, .idle 0] = some s ∧
      s.live.n = s.handlers.count .counted :=
  ⟨_, rfl, (shutdown_waits (rfl : Machine.run step (init : Server String) [.serveHTTP, .add 0, .shutdown,
    .drainOnce 0, .httpShutdown 0 none, .lock 0, .shutdown, .drainOnce 1, .httpShutdown 1 none, .lock 1,
    .expire 1 "deadline exceeded", .ctxDone 1, .done 0, .idle 0] = some _)).1⟩

end Steps

end GrpcWebnext.Shutdown.Go
