import GrpcWebnext.Library.Collapse
import GrpcWebnext.RustClient.Tunnel

/-! Watching the state of a channel: `StateWatch` of `state.rs` under the client of
`client.rs`, with what each of its steps records. -/
namespace GrpcWebnext.RustClient

/-- The receiver of a watcher: whether it is still there, and all that was sent to it. -/
structure Receiver where
  alive : Bool
  heard : List ConnectivityState
  deriving DecidableEq

/-- `Inner` of `state.rs`, with every receiver so far. A sender has the number of its receiver. -/
structure StateWatch where
  state : Option ConnectivityState
  watchers : List Nat
  receivers : List Receiver
  deriving DecidableEq

namespace StateWatch

def default : StateWatch := ⟨none, [], []⟩

def get (w : StateWatch) : ConnectivityState := w.state.getD .idle

/-- `unbounded_send(..).is_ok()`. -/
def isAlive (w : StateWatch) (id : Nat) : Bool := w.receivers[id]?.any Receiver.alive

def send (state : ConnectivityState) (receivers : List Receiver) (id : Nat) : List Receiver :=
  receivers.modify id fun r => if r.alive then { r with heard := r.heard ++ [state] } else r

def set (w : StateWatch) (state : ConnectivityState) : StateWatch :=
  if w.state = some state then w
  else { state := some state, watchers := w.watchers.filter w.isAlive,
         receivers := w.watchers.foldl (send state) w.receivers }

def watch (w : StateWatch) : StateWatch :=
  { w with watchers := w.watchers ++ [w.receivers.length], receivers := w.receivers ++ [⟨true, []⟩] }

/-- A receiver is dropped. -/
def unwatch (w : StateWatch) (id : Nat) : StateWatch :=
  { w with receivers := w.receivers.modify id fun r => { r with alive := false } }

end StateWatch

/-- What `dial` records. -/
def Inner.dialSets (s : Inner) : List ConnectivityState :=
  if s.connector ∧ s.dialing = none then [.connecting] else []

/-- What a step of the client records, in order. -/
def Inner.sets (s : Inner) : Event → List ConnectivityState
  | .call => match s.tunnel with
    | some conn => if s.isClosed conn then .idle :: s.dialSets else []
    | none => s.dialSets
  | .resume caller => match s.callers[caller]? with
    | some (.waiting dial) => match s.dials[dial]? with
      | some (.opened _) => [.ready]
      | some .refused => [.transientFailure]
      | _ => []
    | _ => []
  | .forget conn => if s.tunnel = some conn then [.idle] else []
  | .look => if s.state = .ready ∧ s.tunnel.all s.isClosed then [.idle] else []
  | .open_ _ | .refuse _ | .close _ | .drop _ => []

/-- A client with its watchers. -/
structure Channel where
  inner : Inner
  watch : StateWatch

/-- What happens to a client, or that a watcher comes or goes. -/
inductive Watching where
  | client (event : Event)
  | watch
  | unwatch (id : Nat)

def Channel.new (given : Option Bool) : Channel :=
  ⟨.new given, match given with
    | none => .default
    | some _ => StateWatch.default.set .ready⟩

def Channel.step (s : Channel) : Watching → Option Channel
  | .client event => (RustClient.step s.inner event).map fun inner =>
      { inner, watch := (s.inner.sets event).foldl StateWatch.set s.watch }
  | .watch => some { s with watch := s.watch.watch }
  | .unwatch id => some { s with watch := s.watch.unwatch id }

/-- What the client records from a state on. -/
def Inner.setsAlong (s : Inner) : List Watching → List ConnectivityState
  | [] => []
  | .client event :: es => s.sets event ++ match RustClient.step s event with
    | none => []
    | some t => t.setsAlong es
  | _ :: es => s.setsAlong es

/-- What may follow a state: never the dial of a new tunnel right behind a ready one. -/
def Visible (before after : ConnectivityState) : Prop := ¬ (before = .ready ∧ after = .connecting)

/-- What a step of the client records, between the states around it. -/
structure Recorded (s t : Inner) (sets : List ConnectivityState) : Prop where
  last : (s.state :: sets).getLast (List.cons_ne_nil _ _) = t.state
  visible : (s.state :: sets).IsChain Visible
  honest : t.tunnel = none → t.state ≠ .ready
  fresh : s.state = .idle → s.tunnel = none →
    sets = [] ∧ t.state = .idle ∧ t.tunnel = none ∨ ∃ x rest, sets = x :: rest ∧ x ≠ .idle

theorem visible_of_ne {before after : ConnectivityState} (other : after ≠ .connecting) :
    Visible before after :=
  fun both => other both.2

theorem Recorded.nothing {s t : Inner} (honest : s.tunnel = none → s.state ≠ .ready)
    (state : t.state = s.state)
    (tunnel : t.tunnel = s.tunnel) : Recorded s t [] where
  last := state.symm
  visible := List.isChain_singleton _
  honest none_ := by
    rw [state]
    exact honest (tunnel.symm.trans none_)
  fresh idle none_ := .inl ⟨rfl, state.trans idle, tunnel.trans none_⟩

theorem Recorded.one {s t : Inner} {x : ConnectivityState} (state : t.state = x) (visible : Visible s.state x)
    (honest : t.tunnel = none → x ≠ .ready) (news : s.state = .idle → s.tunnel = none → x ≠ .idle) :
    Recorded s t [x] where
  last := state.symm
  visible := List.isChain_pair.mpr visible
  honest none_ := by
    rw [state]
    exact honest none_
  fresh idle none_ := .inr ⟨x, [], rfl, news idle none_⟩

/-- Of a client without a tunnel. -/
theorem recorded_dial {s : Inner} (none_ : s.tunnel = none) (unready : s.state ≠ .ready) :
    Recorded s s.dial.1 s.dialSets ∧ s.dial.1.tunnel = none := by
  unfold Inner.dial Inner.dialSets
  cases s.connector with
  | false => exact ⟨.nothing (fun _ => unready) rfl rfl, none_⟩
  | true =>
      cases dialing : s.dialing with
      | some shared => exact ⟨.nothing (fun _ => unready) rfl rfl, none_⟩
      | none =>
          refine ⟨?_, none_⟩
          simp only [if_true, and_self]
          exact .one rfl (fun both => unready both.1) (fun _ same => by cases same) fun _ _ same =>
            by cases same

theorem step_recorded {s t : Inner} {event : Event} (honest : s.tunnel = none → s.state ≠ .ready)
    (moved : step s event = some t) : Recorded s t (s.sets event) := by
  cases event with
  | call =>
      simp only [step, Option.some.injEq] at moved
      subst moved
      unfold Inner.enter Inner.sets
      cases tunnel : s.tunnel with
      | none =>
          obtain ⟨recorded, _⟩ := recorded_dial tunnel (honest tunnel)
          exact ⟨recorded.last, recorded.visible, recorded.honest, recorded.fresh⟩
      | some conn =>
          dsimp only
          split
          · obtain ⟨recorded, none_⟩ :=
              recorded_dial (s := { s with tunnel := none, state := .idle }) rfl (fun same => by cases same)
            refine ⟨?_, ?_, recorded.honest, fun _ impossible => ?_⟩
            · exact (List.getLast_cons (List.cons_ne_nil _ _)).trans recorded.last
            · exact List.isChain_cons_cons.mpr ⟨visible_of_ne (by decide), recorded.visible⟩
            · rw [tunnel] at impossible
              cases impossible
          · exact .nothing honest rfl rfl
  | open_ dial | refuse dial =>
      simp only [step, Inner.complete, Option.ite_none_right_eq_some, Option.some.injEq] at moved
      obtain ⟨_, rfl⟩ := moved
      exact .nothing honest rfl rfl
  | close conn =>
      simp only [step] at moved
      split at moved
      · cases moved
        exact .nothing honest rfl rfl
      · cases moved
  | resume caller =>
      simp only [step] at moved
      split at moved
      · rename_i dial waiting
        obtain ⟨⟨u, result⟩, resumed, rfl⟩ := Option.map_eq_some_iff.mp moved
        unfold Inner.resume at resumed
        split at resumed
        · rename_i closed opened
          have sets : s.sets (.resume caller) = [.ready] := by simp only [Inner.sets, waiting, opened]
          cases resumed
          rw [sets]
          exact .one rfl (visible_of_ne (by decide)) (fun impossible =>
            by cases impossible) fun _ _ same => by cases same
        · rename_i refused
          have sets : s.sets (.resume caller) = [.transientFailure] := by
            simp only [Inner.sets, waiting, refused]
          cases resumed
          rw [sets]
          exact .one rfl (visible_of_ne (by decide)) (fun _ same => by cases same) fun _ _ same =>
            by cases same
        · cases resumed
      · cases moved
  | drop caller =>
      simp only [step] at moved
      split at moved
      · cases moved
        exact .nothing honest rfl rfl
      · cases moved
  | forget conn =>
      simp only [step, Option.ite_none_right_eq_some, Option.some.injEq] at moved
      obtain ⟨_, rfl⟩ := moved
      by_cases held : s.tunnel = some conn
      · simp only [Inner.forget, Inner.sets, held, if_true]
        refine .one rfl (visible_of_ne (by decide)) (fun _ same => by cases same) fun _ none_ => ?_
        rw [held] at none_
        cases none_
      · simp only [Inner.forget, Inner.sets, held, if_false]
        exact .nothing honest rfl rfl
  | look =>
      simp only [step, Option.some.injEq] at moved
      subst moved
      by_cases dead : s.state = .ready ∧ s.tunnel.all s.isClosed
      · simp only [Inner.look, Inner.sets, if_pos dead]
        refine .one rfl (visible_of_ne (by decide)) (fun _ same => by cases same) fun idle _ => ?_
        rw [dead.1] at idle
        cases idle
      · simp only [Inner.look, Inner.sets, if_neg dead]
        exact .nothing honest rfl rfl

namespace StateWatch
variable {w : StateWatch} {id : Nat} {heard : List ConnectivityState}

/-- A live receiver with its one sender, and what it has heard. -/
structure Heard (w : StateWatch) (id : Nat) (heard : List ConnectivityState) : Prop where
  receiver : w.receivers[id]? = some ⟨true, heard⟩
  once : w.watchers.count id = 1

/-- Every sender has a receiver. -/
def Bounded (w : StateWatch) : Prop := ∀ id ∈ w.watchers, id < w.receivers.length

theorem length_send (state : ConnectivityState) (ids : List Nat) (receivers : List Receiver) :
    (ids.foldl (send state) receivers).length = receivers.length := by
  induction ids generalizing receivers with
  | nil => rfl
  | cons id ids ih =>
      rw [List.foldl_cons, ih, send]
      exact List.length_modify ..

/-- A receiver gets the state from each of its senders. -/
theorem getElem_send (state : ConnectivityState) (ids : List Nat) {receivers : List Receiver}
    (here : receivers[id]? = some ⟨true, heard⟩) :
    (ids.foldl (send state) receivers)[id]? = some ⟨true, heard ++ List.replicate (ids.count id) state⟩ := by
  induction ids generalizing receivers heard with
  | nil => rw [List.foldl_nil, here, List.count_nil, List.replicate_zero, List.append_nil]
  | cons other ids ih =>
      rw [List.foldl_cons]
      by_cases same : other = id
      · subst same
        have sent : (send state receivers other)[other]? = some ⟨true, heard ++ [state]⟩ := by
          rw [send, List.getElem?_modify_eq, here]
          rfl
        rw [ih sent, List.count_cons_self, List.replicate_succ, List.append_assoc]
        rfl
      · have kept : (send state receivers other)[id]? = some ⟨true, heard⟩ := by
          rw [send, List.getElem?_modify_ne _ _ same, here]
        rw [ih kept, List.count_cons_of_ne same]

theorem Heard.set (h : Heard w id heard) (state : ConnectivityState) :
    Heard (w.set state) id (if w.state = some state then heard else heard ++ [state]) := by
  unfold StateWatch.set
  by_cases same : w.state = some state
  · rw [if_pos same, if_pos same]
    exact h
  · rw [if_neg same, if_neg same]
    refine ⟨?_, ?_⟩
    · rw [getElem_send state w.watchers h.receiver, h.once]
      rfl
    · have alive : w.isAlive id = true := by
        rw [isAlive, h.receiver]
        rfl
      rw [List.count_filter alive, h.once]

theorem Heard.watch (h : Heard w id heard) : Heard w.watch id heard := by
  have inside := (List.getElem?_eq_some_iff.mp h.receiver).1
  refine ⟨?_, ?_⟩
  · rw [StateWatch.watch, List.getElem?_append_left inside]
    exact h.receiver
  · rw [StateWatch.watch, List.count_append, h.once, List.count_singleton, if_neg]
    exact fun same => absurd (beq_iff_eq.mp same) (Nat.ne_of_gt inside)

theorem Heard.unwatch (h : Heard w id heard) {other : Nat} (another : other ≠ id) :
    Heard (w.unwatch other) id heard := by
  refine ⟨?_, h.once⟩
  rw [StateWatch.unwatch, List.getElem?_modify_ne _ _ another]
  exact h.receiver

theorem Heard.new (bounded : w.Bounded) : Heard w.watch w.receivers.length [] := by
  refine ⟨List.getElem?_concat_length, ?_⟩
  have absent : w.receivers.length ∉ w.watchers := fun inside => Nat.lt_irrefl _ (bounded _ inside)
  rw [StateWatch.watch, List.count_append, List.count_eq_zero_of_not_mem absent, List.count_singleton_self]

theorem Bounded.set (bounded : w.Bounded) (state : ConnectivityState) : (w.set state).Bounded := by
  unfold StateWatch.set
  split
  · exact bounded
  · intro id inside
    exact (bounded id (List.mem_of_mem_filter inside)).trans_eq
      (length_send state w.watchers w.receivers).symm

theorem Bounded.watch (bounded : w.Bounded) : w.watch.Bounded := by
  intro id inside
  rw [StateWatch.watch, List.length_append]
  rcases List.mem_append.mp inside with before | new
  · exact Nat.lt_add_right 1 (bounded id before)
  · obtain rfl := List.mem_singleton.mp new
    exact Nat.lt_succ_self _

theorem Bounded.unwatch (bounded : w.Bounded) (other : Nat) : (w.unwatch other).Bounded := by
  intro id inside
  exact (bounded id inside).trans_eq (List.length_modify ..).symm

theorem set_state (w : StateWatch) (state : ConnectivityState) : (w.set state).state = some state := by
  unfold set
  split
  · assumption
  · rfl

/-- Once a state has been recorded, the last to be recorded is the state. -/
theorem foldl_state (sets : List ConnectivityState) :
    ∀ {w : StateWatch} {state : ConnectivityState}, w.state = some state →
    (sets.foldl StateWatch.set w).state = some ((state :: sets).getLast (List.cons_ne_nil _ _)) := by
  induction sets with
  | nil => exact fun here => here
  | cons x sets ih =>
      intro w state _
      rw [List.foldl_cons, ih (set_state w x), List.getLast_cons (List.cons_ne_nil x sets)]

theorem foldl_bounded (sets : List ConnectivityState) :
    ∀ {w : StateWatch}, w.Bounded → (sets.foldl StateWatch.set w).Bounded := by
  induction sets with
  | nil => exact fun bounded => bounded
  | cons x sets ih => exact fun bounded => ih (bounded.set x)

/-- A receiver that came at the state `first` has heard what was recorded since, without its
repeats, and is up to date. -/
def Follows (first : ConnectivityState) (sets : List ConnectivityState) (w : StateWatch) (id : Nat) : Prop :=
  ∃ heard, Heard w id heard ∧ sets.destutter' (· ≠ ·) first = first :: heard ∧
    (first :: heard).getLast (List.cons_ne_nil _ _) = w.get

theorem Follows.set {first : ConnectivityState} {sets : List ConnectivityState}
    (follows : Follows first sets w id)
    {state : ConnectivityState} (news : w.state = none → state ≠ .idle) :
    Follows first (sets ++ [state]) (w.set state) id := by
  obtain ⟨heard, h, all, last⟩ := follows
  have repeats : w.state = some state ↔ w.get = state := by
    unfold get
    cases here : w.state with
    | none => exact iff_of_false nofun fun same => news here same.symm
    | some x => exact Option.some_inj
  have now : (w.set state).get = state := by
    rw [get, set_state]
    rfl
  have next := Collapse.destutter_concat (· ≠ ·) first sets state
  simp only [all, last] at next
  refine ⟨_, h.set state, ?_, ?_⟩
  · rw [next]
    by_cases same : w.get = state
    · rw [if_neg (not_not.mpr same), if_pos (repeats.mpr same), List.append_nil]
    · rw [if_pos same, if_neg (mt repeats.mp same)]
      rfl
  · rw [now]
    by_cases same : w.get = state
    · simp only [if_pos (repeats.mpr same)]
      exact last.trans same
    · simp only [if_neg (mt repeats.mp same), ← List.cons_append]
      exact List.getLast_concat

theorem Follows.foldl {first : ConnectivityState} (later : List ConnectivityState) :
    ∀ {sets : List ConnectivityState} {w : StateWatch}, Follows first sets w id →
      (w.state = none → later.head? ≠ some .idle) →
        Follows first (sets ++ later) (later.foldl StateWatch.set w) id := by
  induction later with
  | nil =>
      intro sets w follows _
      rw [List.append_nil]
      exact follows
  | cons x later ih =>
      intro sets w follows news
      rw [← List.singleton_append, ← List.append_assoc]
      refine ih (follows.set fun none_ same => news none_ (congrArg some same)) fun none_ => ?_
      rw [set_state] at none_
      cases none_

end StateWatch

/-- What holds of a client and its watch in any interleaving. -/
structure Channel.Fit (s : Channel) : Prop where
  honest : s.inner.tunnel = none → s.inner.state ≠ .ready
  bounded : s.watch.Bounded
  same : s.watch.state = some s.inner.state ∨ s.watch.state = none ∧ s.inner.state = .idle ∧
    s.inner.tunnel = none

theorem Channel.Fit.get {s : Channel} (fit : s.Fit) : s.watch.get = s.inner.state := by
  unfold StateWatch.get
  rcases fit.same with same | ⟨none_, idle, _⟩
  · rw [same]
    rfl
  · rw [none_, idle]
    rfl

theorem Channel.Fit.new (given : Option Bool) : (Channel.new given).Fit := by
  cases given with
  | none => exact ⟨fun _ => nofun, nofun, .inr ⟨rfl, rfl, rfl⟩⟩
  | some closed => exact ⟨nofun, nofun, .inl rfl⟩

/-- The first state to be recorded is not the one that stands from the start. -/
theorem Channel.Fit.news {s : Channel} (fit : s.Fit) {t : Inner} {event : Event}
    (moved : RustClient.step s.inner event = some t)
    (unset : s.watch.state = none) : (s.inner.sets event).head? ≠ some .idle := by
  rcases fit.same with same | ⟨_, idle, none_⟩
  · rw [unset] at same
    cases same
  · rcases (step_recorded fit.honest moved).fresh idle none_ with ⟨nothing, _⟩ | ⟨x, rest, shape, news⟩
    · rw [nothing]
      nofun
    · rw [shape]
      exact fun same => news (Option.some.inj same)

theorem Channel.Fit.step {s t : Channel} {e : Watching} (fit : s.Fit) (moved : s.step e = some t) :
    t.Fit := by
  cases e with
  | watch =>
      cases moved
      exact ⟨fit.honest, fit.bounded.watch, fit.same⟩
  | unwatch id =>
      cases moved
      exact ⟨fit.honest, fit.bounded.unwatch id, fit.same⟩
  | client event =>
      obtain ⟨inner, stepped, rfl⟩ := Option.map_eq_some_iff.mp moved
      have recorded := step_recorded fit.honest stepped
      refine ⟨recorded.honest, StateWatch.foldl_bounded _ fit.bounded, ?_⟩
      rcases fit.same with same | ⟨unset, idle, none_⟩
      · left
        rw [StateWatch.foldl_state _ same, recorded.last]
      · rcases recorded.fresh idle none_ with ⟨nothing, still, gone⟩ | ⟨x, rest, shape, _⟩
        · right
          rw [nothing]
          exact ⟨unset, still, gone⟩
        · left
          have last := recorded.last
          rw [shape, List.getLast_cons (List.cons_ne_nil x rest)] at last
          rw [shape, List.foldl_cons, StateWatch.foldl_state rest (StateWatch.set_state s.watch x), last]

/-- A watcher that stays follows the client through any run. The induction is on its events. -/
theorem follows_run {first : ConnectivityState} {id : Nat} (es : List Watching) :
    ∀ {sets : List ConnectivityState} {s t : Channel}, s.Fit → StateWatch.Follows first sets s.watch id →
      Machine.run Channel.step s es = some t → .unwatch id ∉ es →
        StateWatch.Follows first (sets ++ s.inner.setsAlong es) t.watch id ∧ t.Fit := by
  induction es with
  | nil =>
      intro sets s t fit follows ran _
      cases ran
      rw [Inner.setsAlong, List.append_nil]
      exact ⟨follows, fit⟩
  | cons e es ih =>
      intro sets s t fit follows ran stays
      obtain ⟨u, moved, rest⟩ := Machine.run_cons_inv ran
      obtain ⟨here, later⟩ := List.ne_and_not_mem_of_not_mem_cons stays
      have next := fit.step moved
      cases e with
      | watch =>
          cases moved
          obtain ⟨heard, h, told⟩ := follows
          exact ih (s := { s with watch := s.watch.watch }) next ⟨heard, h.watch, told⟩ rest later
      | unwatch other =>
          cases moved
          obtain ⟨heard, h, told⟩ := follows
          have kept := h.unwatch fun same => here (congrArg _ same.symm)
          exact ih (s := { s with watch := s.watch.unwatch other }) next ⟨heard, kept, told⟩ rest later
      | client event =>
          obtain ⟨inner, stepped, rfl⟩ := Option.map_eq_some_iff.mp moved
          have further := ih next (follows.foldl (s.inner.sets event) (fit.news stepped)) rest later
          rw [Inner.setsAlong, stepped, ← List.append_assoc]
          exact further

/-- What the client records never has the dial of a new tunnel right behind a ready one. -/
theorem visible_setsAlong (es : List Watching) :
    ∀ {s t : Channel}, s.Fit → Machine.run Channel.step s es = some t →
    (s.inner.state :: s.inner.setsAlong es).IsChain Visible := by
  induction es with
  | nil => exact fun _ _ => List.isChain_singleton _
  | cons e es ih =>
      intro s t fit ran
      obtain ⟨u, moved, rest⟩ := Machine.run_cons_inv ran
      have behind := ih (fit.step moved) rest
      cases e with
      | watch | unwatch id =>
          cases moved
          exact behind
      | client event =>
          obtain ⟨inner, stepped, rfl⟩ := Option.map_eq_some_iff.mp moved
          have recorded := step_recorded fit.honest stepped
          rw [Inner.setsAlong, stepped, ← List.cons_append]
          refine recorded.visible.append (List.isChain_cons.mp behind).2 fun x last y first => ?_
          rw [List.getLast?_eq_getLast_of_ne_nil (List.cons_ne_nil _ _), recorded.last] at last
          cases last
          exact (List.isChain_cons.mp behind).1 y first

/-- A watcher that stays hears every state that the client records since it came, in order and
without repeats, so that it is always up to date, in any interleaving of callers, dials and
connections. A tunnel that is dialled anew is never hidden behind the one before. -/
theorem watchers_hear (given : Option Bool) {front back : List Watching} {u t : Channel}
    (before : Machine.run Channel.step (.new given) front = some u)
    (after : Machine.run Channel.step u (.watch :: back) = some t)
    (stays : .unwatch u.watch.receivers.length ∉ back) :
    ∃ heard, t.watch.receivers[u.watch.receivers.length]? = some ⟨true, heard⟩ ∧
      u.inner.state :: heard = (u.inner.setsAlong back).destutter' (· ≠ ·) u.inner.state ∧
      (u.inner.state :: heard).IsChain (fun a b => a ≠ b ∧ Visible a b) ∧
      (u.inner.state :: heard).getLast (List.cons_ne_nil _ _) = t.inner.state := by
  have fit : u.Fit := Machine.run_invariant (fun _ _ _ fit moved => Channel.Fit.step fit moved)
    (.new given) before
  obtain ⟨v, moved, rest⟩ := Machine.run_cons_inv after
  cases moved
  have start : StateWatch.Follows u.inner.state [] u.watch.watch u.watch.receivers.length :=
    ⟨[], .new fit.bounded, rfl, fit.get.symm⟩
  obtain ⟨⟨heard, h, all, last⟩, fit'⟩ := follows_run back (fit.step (e := .watch) rfl) start rest stays
  rw [List.nil_append] at all
  refine ⟨heard, h.receiver, all.symm, ?_, last.trans fit'.get⟩
  rw [← all]
  exact Collapse.isChain_destutter (visible_setsAlong (s := { u with watch := u.watch.watch }) back
    (fit.step (e := .watch) rfl) rest)

/-- A tunnel that dies and is dialled again, with a second watcher that comes late and goes. -/
def redialled : List Watching :=
  [.client .call, .client (.open_ 0), .client (.resume 0), .watch, .client (.close 0), .unwatch 1,
    .client .call, .client (.refuse 1),
    .client (.resume 1)]

theorem watchers_hear_redial :
    ∃ t heard, Machine.run Channel.step (.new none) (.watch :: redialled) = some t ∧
    t.watch.receivers[0]? = some ⟨true, heard⟩ ∧ heard =
      [.connecting, .ready, .idle, .connecting, .transientFailure] := by
  obtain ⟨t, ran⟩ : ∃ t, Machine.run Channel.step (.new none) (.watch :: redialled) = some t := ⟨_, rfl⟩
  obtain ⟨heard, receiver, all, _⟩ :=
    @watchers_hear none [] _ _ _ rfl ran (by simp [redialled, Channel.new, StateWatch.default])
  exact ⟨t, heard, ran, receiver, (List.cons.inj (all.trans (by decide : _ = .idle :: _))).2⟩

end GrpcWebnext.RustClient
