import GrpcWebnext.Library.Machine

/-! `Client::tunnel` of the Rust client, `client.rs`: callers that share one dial. Tasks
interleave at `dial.await` only, so the function is two halves. -/
namespace GrpcWebnext.RustClient

inductive ConnectivityState where
  | idle
  | connecting
  | ready
  | transientFailure
  deriving DecidableEq

/-- A dial, by the connection it led to; `closed` is that connection's `is_closed`. -/
inductive Dial where
  | pending
  | opened (closed : Bool)
  | refused
  deriving DecidableEq

/-- A task in `tunnel()`: awaiting a dial, or with what the function returned. -/
inductive Caller where
  | waiting (dial : Nat)
  | returned (conn : Nat)
  | failed
  /-- Its future was dropped. -/
  | dropped
  deriving DecidableEq

/-- `Inner`, with every dial so far and every caller. A connection has the number of its
dial; `completed` is the dial that completed last. -/
structure Inner where
  connector : Bool
  tunnel : Option Nat
  dialing : Option Nat
  state : ConnectivityState
  dials : List Dial
  callers : List Caller
  completed : Option Nat
  deriving DecidableEq

/-- `with_connector`. -/
def Inner.withConnector : Inner := ⟨true, none, none, .idle, [], [], none⟩

/-- `from_connection`: the connection counts as a dial that has completed. -/
def Inner.fromConnection (closed : Bool) : Inner :=
  ⟨false, some 0, none, .ready, [.opened closed], [], some 0⟩

/-- A client over a connection it is given, closed or not, or over a connector. -/
def Inner.new : Option Bool → Inner
  | none => .withConnector
  | some closed => .fromConnection closed

def Inner.isClosed (s : Inner) (conn : Nat) : Bool := s.dials[conn]? = some (.opened true)

/-- Join the dial in flight, or start one. -/
def Inner.dial (s : Inner) : Inner × Caller :=
  if s.connector then
    match s.dialing with
    | some shared => (s, .waiting shared)
    | none =>
        ({ s with
            state := .connecting, dials := s.dials ++ [.pending], dialing := some s.dials.length },
          .waiting s.dials.length)
  else (s, .failed)

/-- `tunnel()` up to `dial.await`. -/
def Inner.enter (s : Inner) : Inner × Caller :=
  match s.tunnel with
  | some conn =>
      if s.isClosed conn then Inner.dial { s with tunnel := none, state := .idle } else (s, .returned conn)
  | none => s.dial

/-- `tunnel()` from `dial.await` on, once that dial has completed. -/
def Inner.resume (s : Inner) (dial : Nat) : Option (Inner × Caller) :=
  match s.dials[dial]? with
  | some (.opened _) =>
      some ({ s with dialing := none, state := .ready, tunnel := some dial }, .returned dial)
  | some .refused => some ({ s with dialing := none, state := .transientFailure }, .failed)
  | _ => none

def Inner.forget (s : Inner) (dead : Nat) : Inner :=
  if s.tunnel = some dead then { s with tunnel := none, state := .idle } else s

/-- `state()`, which notices a tunnel that died. -/
def Inner.look (s : Inner) : Inner :=
  if s.state = .ready ∧ s.tunnel.all s.isClosed then { s with state := .idle } else s

/-- What happens next: a task calls `tunnel()`, a dial completes, a connection closes, a
waiting task resumes or is dropped, a call finds its connection closed, or the state is
read. -/
inductive Event where
  | call
  | open_ (dial : Nat)
  | refuse (dial : Nat)
  | close (conn : Nat)
  | resume (caller : Nat)
  | drop (caller : Nat)
  | forget (conn : Nat)
  | look
  deriving DecidableEq

def Inner.complete (s : Inner) (dial : Nat) (outcome : Dial) : Option Inner :=
  if s.dials[dial]? = some .pending then
    some { s with dials := s.dials.set dial outcome, completed := some dial }
  else none

def step (s : Inner) : Event → Option Inner
  | .call => let (s, caller) := s.enter; some { s with callers := s.callers ++ [caller] }
  | .open_ dial => s.complete dial (.opened false)
  | .refuse dial => s.complete dial .refused
  | .close conn => match s.dials[conn]? with
    | some (.opened _) => some { s with dials := s.dials.set conn (.opened true) }
    | _ => none
  | .resume caller => match s.callers[caller]? with
    | some (.waiting dial) =>
        (s.resume dial).map fun (s, result) => { s with callers := s.callers.set caller result }
    | _ => none
  | .drop caller => match s.callers[caller]? with
    | some (.waiting _) => some { s with callers := s.callers.set caller .dropped }
    | _ => none
  | .forget conn => if s.isClosed conn then some (s.forget conn) else none
  | .look => some s.look

/-- At most one dial is in flight, and the state is ready only while the cached tunnel is
the result of the dial that completed last. -/
structure SingleFlight (s : Inner) : Prop where
  one : ∀ d e : Nat, s.dials[d]? = some .pending → s.dials[e]? = some .pending → d = e
  ready : s.state = .ready → ∃ conn, s.tunnel = some conn ∧ s.completed = some conn

/-- A caller that has waited clears no dial but its own, and does not replace the cached
tunnel by that of an older dial. -/
def Own (s : Inner) (event : Event) : Prop :=
  ∀ caller dial, event = .resume caller → s.callers[caller]? = some (.waiting dial) →
    (∀ slot, s.dialing = some slot → slot = dial) ∧
      ∀ conn, s.tunnel = some conn → (∃ closed, s.dials[dial]? = some (.opened closed)) → conn ≤ dial

/-- What is promised of a step: a caller that has waited touches only what is its own, and
the state after is that of a single flight. -/
def Keeps (s : Inner) (event : Event) : Prop :=
  Own s event ∧ ∀ t, step s event = some t → SingleFlight t

/-- A caller resumes before a dial newer than its own is started, or its dial failed and
none is in flight. -/
def Timely (s : Inner) (event : Event) : Prop :=
  ∀ caller dial, event = .resume caller → s.callers[caller]? = some (.waiting dial) →
    dial + 1 = s.dials.length ∨ s.dials[dial]? = some .refused ∧ s.dialing = none

/-- What holds as long as callers resume in time. -/
structure Fit (s : Inner) : Prop where
  newest : ∀ d, s.dialing = some d → d + 1 = s.dials.length
  pending : ∀ d : Nat, s.dials[d]? = some .pending → s.dialing = some d ∧ s.tunnel = none ∧ s.state ≠ .ready
  tunnel : ∀ conn, s.tunnel = some conn → conn + 1 = s.dials.length ∧
    ∃ closed, s.dials[conn]? = some (.opened closed)
  ready : s.state = .ready → s.tunnel ≠ none
  completed : ∀ d : Nat, d + 1 = s.dials.length → s.dials[d]? ≠ some .pending → s.completed = some d

theorem Fit.singleFlight {s : Inner} (fit : Fit s) : SingleFlight s where
  one d e dpending epending := by
    have slot := (fit.pending d dpending).1.symm.trans (fit.pending e epending).1
    exact Option.some.inj slot
  ready isReady := by
    obtain ⟨conn, cached⟩ := Option.ne_none_iff_exists'.mp (fit.ready isReady)
    obtain ⟨newest, closed, opened⟩ := fit.tunnel conn cached
    exact ⟨conn, cached, fit.completed conn newest (by simp [opened])⟩

theorem Fit.withConnector : Fit .withConnector where
  newest _ slot := by cases slot
  pending _ waits := by cases waits
  tunnel _ cached := by cases cached
  ready isReady := by cases isReady
  completed d newest _ := by cases newest

theorem Fit.fromConnection (closed : Bool) : Fit (.fromConnection closed) where
  newest _ slot := by cases slot
  pending d waits := by
    cases d with
    | zero => cases waits
    | succ d => cases waits
  tunnel conn cached := by
    cases cached
    exact ⟨rfl, closed, rfl⟩
  ready _ cached := by cases cached
  completed d newest _ := by
    cases newest
    rfl

/-- Dropping the cached tunnel leaves a state that is not ready. -/
theorem Fit.idle {s : Inner} (fit : Fit s) : Fit { s with tunnel := none, state := .idle } where
  newest := fit.newest
  pending d waits := ⟨(fit.pending d waits).1, rfl, by simp⟩
  tunnel _ cached := by cases cached
  ready isReady := by cases isReady
  completed := fit.completed

theorem Fit.callers {s : Inner} (fit : Fit s) (callers : List Caller) : Fit { s with callers } :=
  ⟨fit.newest, fit.pending, fit.tunnel, fit.ready, fit.completed⟩

theorem Fit.dial {s : Inner} (fit : Fit s) (empty : s.tunnel = none) : Fit s.dial.1 := by
  unfold Inner.dial
  split
  · split
    · exact fit
    · rename_i slot
      refine ⟨fun d named => ?_, fun d waits => ?_, fun conn cached => ?_, fun isReady =>
        ?_, fun d newest done => ?_⟩
      · cases named
        simp
      · by_cases inside : d < s.dials.length
        · rw [List.getElem?_append_left inside] at waits
          cases slot.symm.trans (fit.pending d waits).1
        · have within := (List.getElem?_eq_some_iff.mp waits).1
          rw [List.length_append, List.length_singleton] at within
          exact ⟨congrArg some (by omega), empty, by simp⟩
      · cases empty.symm.trans cached
      · cases isReady
      · rw [List.length_append, List.length_singleton, Nat.add_right_cancel_iff] at newest
        subst newest
        exact absurd List.getElem?_concat_length done
  · exact fit

theorem Fit.enter {s : Inner} (fit : Fit s) : Fit s.enter.1 := by
  unfold Inner.enter
  split
  · split
    · exact fit.idle.dial rfl
    · exact fit
  · rename_i empty
    exact fit.dial empty

/-- The only dial that can complete is the newest, which the slot holds. -/
theorem Fit.complete {s t : Inner} (fit : Fit s) {dial : Nat} {outcome : Dial} (settled : outcome ≠ .pending)
    (h : s.complete dial outcome = some t) : Fit t := by
  unfold Inner.complete at h
  split at h
  · rename_i waits
    cases h
    obtain ⟨slot, empty, unready⟩ := fit.pending dial waits
    have none_waits : ∀ d : Nat, (s.dials.set dial outcome)[d]? ≠ some .pending := by
      intro d still
      rw [List.getElem?_set] at still
      split at still
      · split at still
        · exact settled (Option.some.inj still)
        · cases still
      · rename_i other
        exact other (Option.some.inj (slot.symm.trans (fit.pending d still).1))
    refine ⟨fun d named => ?_, fun d still => absurd still (none_waits d), fun conn cached => ?_,
      fun isReady => absurd isReady unready, fun d newest _ => ?_⟩
    · rw [List.length_set]
      exact fit.newest d named
    · cases empty.symm.trans cached
    · have last := fit.newest dial slot
      rw [List.length_set] at newest
      exact congrArg some (by omega)
  · cases h

theorem Fit.close {s : Inner} (fit : Fit s) {conn : Nat} {closed : Bool}
    (opened : s.dials[conn]? = some (.opened closed)) :
    Fit { s with dials := s.dials.set conn (.opened true) } := by
  have still : ∀ d : Nat, (s.dials.set conn (.opened true))[d]? = some .pending →
    s.dials[d]? = some .pending := by
    intro d waits
    rw [List.getElem?_set] at waits
    split at waits
    · split at waits <;> cases waits
    · exact waits
  refine ⟨fun d named => ?_, fun d waits => fit.pending d (still d waits), fun other cached => ?_, fit.ready,
    fun d newest done => ?_⟩
  · rw [List.length_set]
    exact fit.newest d named
  · obtain ⟨newest, flag, held⟩ := fit.tunnel other cached
    rw [List.length_set, List.getElem?_set]
    refine ⟨newest, ?_⟩
    split
    · rename_i same
      subst same
      rw [if_pos (List.getElem?_eq_some_iff.mp held).1]
      exact ⟨true, rfl⟩
    · exact ⟨flag, held⟩
  · rw [List.length_set] at newest
    refine fit.completed d newest fun waits => done ?_
    have other : conn ≠ d := fun same => by
      rw [same, waits] at opened
      cases opened
    rw [List.getElem?_set, if_neg other]
    exact waits

/-- Publishing is sound for the newest dial, or for a dial that failed with nothing in the
slot. -/
theorem Fit.resume {s t : Inner} (fit : Fit s) {dial : Nat} {result : Caller}
    (timely : dial + 1 = s.dials.length ∨ s.dials[dial]? = some .refused ∧ s.dialing = none)
    (h : s.resume dial = some (t, result)) : Fit t := by
  have settled : s.dials[dial]? ≠ some .pending := by
    intro waits
    simp [Inner.resume, waits] at h
  have none_waits : ∀ d : Nat, s.dials[d]? ≠ some .pending := by
    intro d waits
    obtain ⟨slot, _, _⟩ := fit.pending d waits
    rcases timely with newest | ⟨_, none⟩
    · have last := fit.newest d slot
      rw [show dial = d by omega] at settled
      exact settled waits
    · cases slot.symm.trans none
  unfold Inner.resume at h
  split at h
  · rename_i closed opened
    cases h
    have newest : dial + 1 = s.dials.length := timely.resolve_right fun failed => by
      cases opened.symm.trans failed.1
    refine ⟨fun d named => (by cases named), fun d waits =>
      absurd waits (none_waits d), fun conn cached => ?_,
      fun _ cached => (by cases cached), fit.completed⟩
    cases cached
    exact ⟨newest, closed, opened⟩
  · rename_i refused
    cases h
    exact ⟨fun d named => (by cases named), fun d waits => absurd waits (none_waits d), fit.tunnel,
      fun isReady => (by cases isReady), fit.completed⟩
  · cases h

theorem Fit.step {s t : Inner} {event : Event} (fit : Fit s) (timely : Timely s event)
    (h : step s event = some t) : Fit t := by
  cases event with
  | call =>
      cases h
      exact fit.enter.callers _
  | open_ dial => exact fit.complete (by simp) h
  | refuse dial => exact fit.complete (by simp) h
  | close conn =>
      simp only [RustClient.step] at h
      split at h
      · rename_i opened
        cases h
        exact fit.close opened
      · cases h
  | resume caller =>
      simp only [RustClient.step] at h
      split at h
      · rename_i dial waits
        obtain ⟨⟨u, result⟩, resumed, rfl⟩ := Option.map_eq_some_iff.mp h
        exact (fit.resume (timely caller dial rfl waits) resumed).callers _
      · cases h
  | drop caller =>
      simp only [RustClient.step] at h
      split at h
      · cases h
        exact fit.callers _
      · cases h
  | forget conn =>
      simp only [RustClient.step] at h
      split at h
      · cases h
        unfold Inner.forget
        split
        · exact fit.idle
        · exact fit
      · cases h
  | look =>
      cases h
      unfold Inner.look
      split
      · exact ⟨fit.newest, fun d waits =>
          ⟨(fit.pending d waits).1, (fit.pending d waits).2.1, by simp⟩, fit.tunnel,
          fun isReady => (by cases isReady), fit.completed⟩
      · exact fit

theorem Fit.own {s : Inner} {event : Event} (fit : Fit s) (timely : Timely s event) : Own s event := by
  intro caller dial resumes waits
  refine ⟨fun slot held => ?_, fun conn cached opened => ?_⟩
  · have last := fit.newest slot held
    rcases timely caller dial resumes waits with newest | ⟨_, none⟩
    · omega
    · cases held.symm.trans none
  · obtain ⟨closed, opened⟩ := opened
    have within := (List.getElem?_eq_some_iff.mp opened).1
    have last := (fit.tunnel conn cached).1
    rcases timely caller dial resumes waits with newest | ⟨refused, _⟩
    · omega
    · cases opened.symm.trans refused

/-- A late caller either empties another dial's slot, or publishes a connection that is not
that of the last dial. -/
theorem Fit.timely {s t : Inner} {event : Event} (fit : Fit s) (keeps : Keeps s event)
    (h : RustClient.step s event = some t) : Timely s event := by
  intro caller dial resumes waits
  subst resumes
  have after := keeps.2 t h
  simp only [RustClient.step, waits] at h
  obtain ⟨⟨u, result⟩, resumed, rfl⟩ := Option.map_eq_some_iff.mp h
  cases slot : s.dialing with
  | some held =>
      have same := (keeps.1 caller dial rfl waits).1 held slot
      subst same
      exact .inl (fit.newest held slot)
  | none =>
      unfold Inner.resume at resumed
      split at resumed
      · rename_i closed opened
        cases resumed
        have within := (List.getElem?_eq_some_iff.mp opened).1
        have settled : s.dials[s.dials.length - 1]? ≠ some .pending := fun pending => by
          cases slot.symm.trans (fit.pending _ pending).1
        have last := fit.completed (s.dials.length - 1) (by omega) settled
        obtain ⟨conn, cached, completed⟩ := after.ready rfl
        cases cached
        have same := Option.some.inj (last.symm.trans completed)
        exact .inl (by omega)
      · rename_i refused
        exact .inr ⟨refused, rfl⟩
      · cases resumed

theorem Fit.new (given : Option Bool) : Fit (.new given) := by
  cases given with
  | none => exact .withConnector
  | some closed => exact .fromConnection closed

/-- Over every run: dials are single-flight, and every caller keeps to its own, exactly when
no caller resumes from a dial that another has been started after; a failed dial does no
harm once the slot is empty. -/
theorem single_flight_iff (given : Option Bool) {events : List Event} {s : Inner}
    (h : Machine.run step (.new given) events = some s) :
    SingleFlight (.new given) ∧ (Machine.Along step Keeps (.new given) events ↔
      Machine.Along step Timely (.new given) events) := by
  refine ⟨(Fit.new given).singleFlight, Machine.along_iff (J := Fit) (Fit.new given) ?_ ?_ h⟩
  · intro s event t fit moved
    constructor
    · exact fun keeps => fit.timely keeps moved
    · refine fun timely => ⟨fit.own timely, fun u other => ?_⟩
      exact (fit.step timely other).singleFlight
  · exact fun s event t fit timely moved => fit.step timely moved

theorem timely_of_event {s : Inner} {event : Event} (other : ∀ caller, event ≠ .resume caller) :
    Timely s event :=
  fun caller _ resumes => absurd resumes (other caller)

/-- Two callers share a dial, and both resume when it has opened. -/
theorem two_callers_share_a_dial :
    ∃ s, Machine.run step (.new none) [.call, .call, .open_ 0, .resume 0, .resume 1] = some s ∧
      Machine.Along step Keeps (.new none) [.call, .call, .open_ 0, .resume 0, .resume 1] := by
  refine ⟨_, rfl, (single_flight_iff none rfl).2.mpr ?_⟩
  refine ⟨timely_of_event (by simp), timely_of_event (by simp), timely_of_event (by simp), ?_, ?_, trivial⟩
  · rintro caller dial ⟨⟩ ⟨⟩
    exact .inl rfl
  · rintro caller dial ⟨⟩ ⟨⟩
    exact .inl rfl

/-- Two callers join dial 0, and the second is slow: by the time it resumes the tunnel has
died and dial 1 has begun. It empties dial 1's slot and publishes the dead tunnel, so the
next caller starts dial 2 beside dial 1. -/
theorem slow_joiner_breaks_single_flight :
    ∃ s t, Machine.run step (.new none) [.call, .call, .open_ 0, .resume 0, .close 0, .call] = some s ∧
      s.dialing = some 1 ∧ s.callers[1]? = some (.waiting 0) ∧
      Machine.run step s [.resume 1] = some t ∧ t.dialing = none ∧ t.state = .ready ∧ t.tunnel = some 0 ∧
      t.isClosed 0 = true ∧
      ∃ u, Machine.run step t [.call] = some u ∧ u.dials[1]? = some .pending ∧ u.dials[2]? = some .pending :=
  ⟨_, _, rfl, rfl, rfl, rfl, rfl, rfl, rfl, rfl, _, rfl, rfl, rfl⟩

end GrpcWebnext.RustClient
