import GrpcWebnext.Library.Machine

/-! `H2tsTransport`: the cached tunnel and the unary calls over it. A label says what
happens next: a call moves, a dial settles, a connection is lost, the server acts. -/
namespace GrpcWebnext.H2ts

inductive ConnectivityState where
  | idle
  | connecting
  | ready
  | transientFailure
  deriving DecidableEq

inductive Dial where
  | pending
  | open_
  | refused
  deriving DecidableEq

/-- A `Tunnel`, and whether its connection has closed underneath. -/
structure Tunnel where
  dial : Dial
  alive : Bool
  lost : Bool
  deriving DecidableEq

inductive Phase where
  /-- Awaiting `this.conn()`. -/
  | connecting
  /-- The request has been handed to the connection. -/
  | requested
  | returned
  | thrown
  deriving DecidableEq

/-- One call of `unary`: the attempt it is in, the tunnel it found cached on entering
it, and the tunnel whose connection it uses. -/
structure Unary where
  attempt : Nat
  tunnel : Option Nat
  conn : Nat
  phase : Phase
  aborted : Bool
  /-- Requests handed to a connection, over both attempts. -/
  issued : Nat
  /-- Those of them that the server has executed. -/
  executed : Nat
  deriving DecidableEq

structure Transport where
  tunnels : List Tunnel
  cached : Option Nat
  closed : Bool
  connectivity : ConnectivityState
  calls : List Unary
  deriving DecidableEq

def Transport.init : Transport := ⟨[], none, false, .idle, []⟩

def Transport.alive (s : Transport) (k : Nat) : Bool := (s.tunnels[k]?.map Tunnel.alive).getD false

/-- `conn()`: the cached tunnel if it is alive, else a new one, dialled and cached. -/
def Transport.connect (s : Transport) : Nat × Transport :=
  match s.cached.filter s.alive with
  | some k => (k, s)
  | none => (s.tunnels.length, { s with
      tunnels := s.tunnels ++ [⟨.pending, true, false⟩]
      cached := some s.tunnels.length
      connectivity := .connecting })

/-- Whether the tunnel is already known to be dead. -/
def Transport.stale (s : Transport) (tunnel : Option Nat) : Bool :=
  tunnel.any fun k => !s.alive k

/-- The head of the loop: the cached tunnel is noted before `conn()` is called. -/
def enter (s : Transport) (call : Unary) : Unary × Transport :=
  let (k, s') := s.connect
  ({ call with tunnel := s.cached, conn := k, phase := .connecting }, s')

/-- The catch clause: throw, or go round again. -/
def caught (s : Transport) (call : Unary) : Unary × Transport :=
  if 0 < call.attempt || call.aborted || !s.stale call.tunnel then
    ({ call with phase := .thrown }, s)
  else enter s { call with attempt := call.attempt + 1 }

/-- What can make the awaited promise reject: a dial that was refused, a connection
that is gone, an abort; and anything at all once the request is out. -/
def Transport.fails (s : Transport) (call : Unary) : Bool :=
  match call.phase with
  | .connecting => call.aborted || match s.tunnels[call.conn]? with
    | some t => t.dial = .refused || (t.dial = .open_ && t.lost)
    | none => false
  | .requested => true
  | _ => false

inductive Event where
  | unary
  | startStream
  | dialOk (k : Nat)
  | dialFail (k : Nat)
  | lose (k : Nat)
  | die (k : Nat)
  | request (c : Nat)
  | execute (c : Nat)
  | respond (c : Nat)
  | fail (c : Nat)
  | abort (c : Nat)
  | close

/-- A step of one call that may change the transport under it. -/
def Transport.stepCall (s : Transport) (c : Nat) (f : Unary → Option (Unary × Transport)) :
    Option Transport :=
  (s.calls[c]?.bind f).map fun (call, s') => { s' with calls := s.calls.set c call }

def Transport.setTunnel (s : Transport) (k : Nat) (t : Tunnel) : Transport :=
  { s with tunnels := s.tunnels.set k t }

/-- A tunnel that is known dead is evicted, if it is the cached one. -/
def Transport.evict (s : Transport) (k : Nat) : Transport :=
  if s.cached = some k then { s with cached := none } else s

def step (s : Transport) : Event → Option Transport
  | .unary =>
      let (call, s') := enter s ⟨0, none, 0, .connecting, false, 0, 0⟩
      some { s' with calls := s.calls ++ [call] }
  | .startStream => some s.connect.2
  | .dialOk k => match s.tunnels[k]? with
    | some t =>
        if t.dial = .pending then
          some { s.setTunnel k { t with dial := .open_ } with connectivity := .ready }
        else none
    | none => none
  | .dialFail k => match s.tunnels[k]? with
    | some t =>
        if t.dial = .pending then
          some { (s.setTunnel k { t with dial := .refused, alive := false }).evict k with
            connectivity := .transientFailure }
        else none
    | none => none
  | .lose k => match s.tunnels[k]? with
    | some t =>
        if t.dial = .open_ && !t.lost then some (s.setTunnel k { t with lost := true }) else none
    | none => none
  | .die k => match s.tunnels[k]? with
    | some t =>
        if t.lost && t.alive then
          let s' := (s.setTunnel k { t with alive := false }).evict k
          some { s' with
            connectivity := if s.cached = some k ∧ !s.closed then .idle else s.connectivity }
        else none
    | none => none
  | .request c => s.stepCall c fun call => match s.tunnels[call.conn]? with
    | some t =>
        if call.phase = .connecting && t.dial = .open_ && !t.lost then
          some ({ call with phase := .requested, issued := call.issued + 1 }, s)
        else none
    | none => none
  | .execute c => s.stepCall c fun call =>
      if call.executed < call.issued then some ({ call with executed := call.executed + 1 }, s)
      else none
  | .respond c => s.stepCall c fun call => match s.tunnels[call.conn]? with
    | some t =>
        if call.phase = .requested && !t.lost then some ({ call with phase := .returned }, s)
        else none
    | none => none
  | .fail c => s.stepCall c fun call => if s.fails call then some (caught s call) else none
  | .abort c => s.stepCall c fun call => some ({ call with aborted := true }, s)
  | .close => if s.closed then none else some { s with closed := true, cached := none }

/-- The call goes round again although its first request is out. -/
def replays (s : Transport) : Event → Bool
  | .fail c => s.calls[c]?.any fun call =>
      call.phase = .requested && call.attempt = 0 && !call.aborted && s.stale call.tunnel
  | _ => false

/-- A call whose request is out at most once, and not while it still awaits a tunnel. -/
structure Once (call : Unary) : Prop where
  executed : call.executed ≤ call.issued
  issued : call.issued ≤ 1
  fresh : call.phase = .connecting → call.issued = 0

theorem connect_calls (s : Transport) : s.connect.2.calls = s.calls := by
  unfold Transport.connect
  split <;> rfl

theorem evict_calls (s : Transport) (k : Nat) : (s.evict k).calls = s.calls := by
  unfold Transport.evict
  split <;> rfl

/-- What a step does to the calls: nothing, a new one, or one of them moves. -/
inductive Moves (s s' : Transport) : Prop
  | same (calls : s'.calls = s.calls)
  | starts (call : Unary) (calls : s'.calls = s.calls ++ [call]) (once : Once call)
  | moves (c : Nat) (before after : Unary) (found : s.calls[c]? = some before)
      (calls : s'.calls = s.calls.set c after) (keeps : Once before → Once after)

theorem Moves.stepCall {s s' : Transport} {c : Nat} {f : Unary → Option (Unary × Transport)}
    (keeps : ∀ call call' t, s.calls[c]? = some call → f call = some (call', t) → Once call →
      Once call')
    (h : s.stepCall c f = some s') : Moves s s' := by
  obtain ⟨⟨call', t⟩, moved, rfl⟩ := Option.map_eq_some_iff.mp h
  obtain ⟨call, found, moved⟩ := Option.bind_eq_some_iff.mp moved
  exact .moves c call call' found rfl (keeps call call' t found moved)

theorem caught_once {s : Transport} {call : Unary} (once : Once call)
    (first : call.phase = .requested → call.attempt = 0 → call.aborted = false →
      s.stale call.tunnel = false)
    (fails : s.fails call = true) : Once (caught s call).1 := by
  unfold caught
  split
  · exact ⟨once.executed, once.issued, fun waiting => (by cases waiting)⟩
  · rename_i again
    simp only [Bool.or_eq_true, decide_eq_true_eq, Bool.not_eq_true', not_or, Nat.not_lt,
      Nat.le_zero, Bool.not_eq_true, Bool.not_eq_false] at again
    obtain ⟨⟨attempt, live⟩, stale⟩ := again
    have waiting : call.phase = .connecting := by
      cases phase : call.phase with
      | connecting => rfl
      | requested =>
          rw [first phase attempt live] at stale
          cases stale
      | returned => simp [Transport.fails, phase] at fails
      | thrown => simp [Transport.fails, phase] at fails
    exact ⟨once.executed, once.issued, fun _ => once.fresh waiting⟩

theorem step_moves {s s' : Transport} {e : Event} (single : replays s e = false)
    (h : step s e = some s') : Moves s s' := by
  cases e with
  | unary =>
      cases h
      exact .starts _ rfl ⟨Nat.le_refl 0, Nat.zero_le 1, fun _ => rfl⟩
  | startStream =>
      cases h
      exact .same (connect_calls s)
  | dialOk k | lose k =>
      simp only [step] at h
      split at h
      · simp only [Option.ite_none_right_eq_some, Option.some.injEq] at h
        obtain ⟨_, rfl⟩ := h
        exact .same rfl
      · cases h
  | dialFail k | die k =>
      simp only [step] at h
      split at h
      · simp only [Option.ite_none_right_eq_some, Option.some.injEq] at h
        obtain ⟨_, rfl⟩ := h
        exact .same (evict_calls _ k)
      · cases h
  | request c =>
      refine .stepCall (fun call call' t _ moved once => ?_) h
      split at moved
      · simp only [Option.ite_none_right_eq_some, Option.some.injEq, Prod.mk.injEq,
          Bool.and_eq_true, decide_eq_true_eq] at moved
        obtain ⟨⟨⟨phase, _⟩, _⟩, rfl, _⟩ := moved
        have none := once.fresh phase
        have executed := once.executed
        refine ⟨?_, ?_, fun waiting => (by cases waiting)⟩
        · dsimp only
          omega
        · dsimp only
          omega
      · cases moved
  | execute c =>
      refine .stepCall (fun call call' t _ moved once => ?_) h
      simp only [Option.ite_none_right_eq_some, Option.some.injEq, Prod.mk.injEq] at moved
      obtain ⟨behind, rfl, _⟩ := moved
      exact ⟨behind, once.issued, once.fresh⟩
  | respond c =>
      refine .stepCall (fun call call' t _ moved once => ?_) h
      split at moved
      · simp only [Option.ite_none_right_eq_some, Option.some.injEq, Prod.mk.injEq] at moved
        obtain ⟨_, rfl, _⟩ := moved
        exact ⟨once.executed, once.issued, fun waiting => (by cases waiting)⟩
      · cases moved
  | fail c =>
      refine .stepCall (fun call call' t found moved once => ?_) h
      simp only [Option.ite_none_right_eq_some, Option.some.injEq] at moved
      obtain ⟨fails, moved⟩ := moved
      have same : call' = (caught s call).1 := by rw [moved]
      rw [same]
      refine caught_once once (fun phase attempt live => ?_) fails
      simpa [replays, found, phase, attempt, live] using single
  | abort c =>
      refine .stepCall (fun call call' t _ moved once => ?_) h
      cases moved
      exact ⟨once.executed, once.issued, once.fresh⟩
  | close =>
      simp only [step, Option.ite_none_left_eq_some, Option.some.injEq] at h
      obtain ⟨_, rfl⟩ := h
      exact .same rfl

theorem step_once {s s' : Transport} {e : Event} (inv : ∀ call ∈ s.calls, Once call)
    (single : replays s e = false) (h : step s e = some s') : ∀ call ∈ s'.calls, Once call := by
  intro call member
  rcases step_moves single h with calls | ⟨new, calls, once⟩ | ⟨c, before, after, found, calls, keeps⟩
  · exact inv call (calls ▸ member)
  · rw [calls, List.mem_append, List.mem_singleton] at member
    rcases member with old | rfl
    · exact inv call old
    · exact once
  · rw [calls] at member
    rcases List.mem_or_eq_of_mem_set member with old | rfl
    · exact inv call old
    · exact keeps (inv before (List.mem_of_getElem? found))

/-- In a run in which no call goes round again behind a request that is already out,
no call issues its request twice, and the server executes none twice. -/
theorem executed_once_unless_replayed (es : List Event) (s : Transport)
    (single : Machine.Along step (fun s e => replays s e = false) .init es)
    (h : Machine.run step .init es = some s) :
    ∀ call ∈ s.calls, call.issued ≤ 1 ∧ call.executed ≤ 1 := by
  have once : ∀ call ∈ s.calls, Once call :=
    Machine.run_invariant_along (I := fun s => ∀ call ∈ s.calls, Once call)
      (fun _ _ _ inv single moved => step_once inv single moved)
      (fun call member => by cases member) single h
  intro call member
  exact ⟨(once call member).issued,
    Nat.le_trans (once call member).executed (once call member).issued⟩

/-- One call dials; the next finds its tunnel cached, and loses it behind the request. -/
def deathBehindRequest : List Event :=
  [.unary, .dialOk 0, .request 0, .execute 0, .respond 0, .unary, .request 1, .execute 1, .lose 0,
    .die 0, .fail 1, .dialOk 1, .request 1, .execute 1]

/-- Up to the failure each call has been executed once. -/
theorem executed_once_before_death :
    ∃ s, Machine.run step .init (deathBehindRequest.take 10) = some s ∧
      ∀ call ∈ s.calls, call.issued ≤ 1 ∧ call.executed ≤ 1 :=
  ⟨_, rfl, executed_once_unless_replayed (deathBehindRequest.take 10) _ (by decide) rfl⟩

/-- The second call is then executed twice. -/
theorem executed_twice_after_death :
    (Machine.run step .init deathBehindRequest).map (fun s => s.calls.map Unary.executed) =
      some [1, 2] := by
  decide

end GrpcWebnext.H2ts
