import GrpcWebnext.H2ts.Transport

/-! The tunnel cache of `H2tsTransport` and the connectivity it publishes, up to and behind
`close()`. -/
namespace GrpcWebnext.H2ts

/-- The cached tunnel is established and alive. -/
def Transport.Established (s : Transport) : Prop :=
  ∃ k t, s.cached = some k ∧ s.tunnels[k]? = some t ∧ t.dial = .open_ ∧ t.alive = true

/-- At most one dial is pending, and READY is published of an established tunnel and of
nothing else. -/
structure Published (s : Transport) : Prop where
  one : ∀ (k l : Nat) (t u : Tunnel), s.tunnels[k]? = some t → s.tunnels[l]? = some u →
    t.dial = .pending → u.dial = .pending → k = l
  ready : s.connectivity = .ready ↔ s.Established

/-- What is promised of a step: behind `close()` it opens no WebSocket, and what is
published after it is true. -/
def Keeps (s : Transport) (event : Event) : Prop :=
  ∀ t, step s event = some t → (s.closed = true → t.tunnels.length = s.tunnels.length) ∧ Published t

/-- The catch clause of this call would go round again. -/
def Transport.goesRound (s : Transport) (c : Nat) : Bool :=
  s.calls[c]?.any fun call => !(0 < call.attempt || call.aborted || !s.stale call.tunnel)

/-- The transport is closed while no tunnel is established, and behind that no call starts
or goes round again, and no dial opens. -/
def Orderly (s : Transport) : Event → Prop
  | .close => s.connectivity ≠ .ready
  | .unary => s.closed = false
  | .startStream => s.closed = false
  | .dialOk _ => s.closed = false
  | .fail c => s.closed = true → s.goesRound c = false
  | _ => True

/-- What holds while the steps are orderly. -/
structure Fit (s : Transport) : Prop where
  cached : ∀ k, s.cached = some k → s.closed = false ∧ s.alive k = true
  one : ∀ (k l : Nat) (t u : Tunnel), s.tunnels[k]? = some t → s.tunnels[l]? = some u →
    t.dial = .pending → u.dial = .pending → k = l
  pending : ∀ (k : Nat) (t : Tunnel), s.tunnels[k]? = some t → t.dial = .pending →
    t.alive = true ∧ t.lost = false ∧ (s.closed = false → s.cached = some k)
  ready : s.connectivity = .ready ↔ s.Established

theorem Fit.published {s : Transport} (fit : Fit s) : Published s := ⟨fit.one, fit.ready⟩

theorem Fit.init : Fit .init where
  cached _ named := by cases named
  one _ _ _ _ found := by cases found
  pending _ _ found := by cases found
  ready := by
    refine iff_of_false (by decide) ?_
    rintro ⟨k, t, named, _⟩
    cases named

theorem Fit.calls {s : Transport} (fit : Fit s) (calls : List Unary) : Fit { s with calls } :=
  ⟨fit.cached, fit.one, fit.pending, fit.ready⟩

/-- What `conn()` hands out is not known to be dead. -/
theorem connect_alive (s : Transport) : s.connect.2.alive s.connect.1 = true := by
  unfold Transport.connect
  split
  · rename_i k found
    exact (Option.filter_eq_some_iff.mp found).2
  · simp [Transport.alive]

theorem Fit.connect {s : Transport} (fit : Fit s) (unclosed : s.closed = false) : Fit s.connect.2 := by
  unfold Transport.connect
  split
  · exact fit
  · rename_i empty
    have uncached : s.cached = none := by
      cases cached : s.cached with
      | none => rfl
      | some k =>
          rw [cached] at empty
          simp [Option.filter, (fit.cached k cached).2] at empty
    have settled : ∀ (k : Nat) (t : Tunnel), s.tunnels[k]? = some t → t.dial ≠ .pending := by
      intro k t found waits
      cases uncached.symm.trans ((fit.pending k t found waits).2.2 unclosed)
    have newest : ∀ (k : Nat) (t : Tunnel), (s.tunnels ++ [⟨.pending, true, false⟩])[k]? = some t →
        t.dial = .pending → k = s.tunnels.length ∧ t = ⟨.pending, true, false⟩ := by
      intro k t found waits
      by_cases inside : k < s.tunnels.length
      · rw [List.getElem?_append_left inside] at found
        exact absurd waits (settled k t found)
      · have within := (List.getElem?_eq_some_iff.mp found).1
        rw [List.length_append, List.length_singleton] at within
        have last : k = s.tunnels.length := by omega
        subst last
        rw [List.getElem?_concat_length] at found
        exact ⟨rfl, (Option.some.inj found).symm⟩
    refine ⟨fun k named => ?_, fun k l t u found found' waits waits' => ?_, fun k t found waits => ?_, ?_⟩
    · cases named
      exact ⟨unclosed, by simp [Transport.alive]⟩
    · rw [(newest k t found waits).1, (newest l u found' waits').1]
    · obtain ⟨rfl, rfl⟩ := newest k t found waits
      exact ⟨rfl, rfl, fun _ => rfl⟩
    · refine iff_of_false (by simp) ?_
      rintro ⟨k, t, named, found, opened, _⟩
      cases named
      rw [List.getElem?_concat_length] at found
      cases found
      cases opened

theorem getElem?_set_inv {α : Type} {l : List α} {i j : Nat} {a b : α} (found : (l.set i a)[j]? = some b) :
    i = j ∧ b = a ∨ i ≠ j ∧ l[j]? = some b := by
  rw [List.getElem?_set] at found
  split at found
  · rename_i same
    split at found
    · exact .inl ⟨same, (Option.some.inj found).symm⟩
    · cases found
  · rename_i other
    exact .inr ⟨other, found⟩

theorem alive_setTunnel {s : Transport} {k : Nat} {t t' : Tunnel} (found : s.tunnels[k]? = some t)
    (same : t'.alive = t.alive) (l : Nat) : (s.setTunnel k t').alive l = s.alive l := by
  unfold Transport.alive Transport.setTunnel
  rw [List.getElem?_set]
  split
  · rename_i at_k
    subst at_k
    rw [if_pos (List.getElem?_eq_some_iff.mp found).1, found]
    simp [same]
  · rfl

theorem evict_eq (s : Transport) (k : Nat) :
    s.evict k = { s with cached := if s.cached = some k then none else s.cached } := by
  unfold Transport.evict
  split <;> rfl

/-- A tunnel that is replaced by one alike keeps what it is to the cache. -/
theorem Fit.setTunnel {s : Transport} (fit : Fit s) {k : Nat} {t t' : Tunnel} (found : s.tunnels[k]? = some t)
    (dial : t'.dial = t.dial) (alive : t'.alive = t.alive) (lost : t.dial = .pending → t'.lost = false) :
    Fit (s.setTunnel k t') := by
  have old : ∀ (l : Nat) (u : Tunnel), (s.tunnels.set k t')[l]? = some u →
      ∃ v, s.tunnels[l]? = some v ∧ u.dial = v.dial ∧ u.alive = v.alive ∧
        (v.dial = .pending → u.lost = v.lost) := by
    intro l u named
    rcases getElem?_set_inv named with ⟨rfl, rfl⟩ | ⟨_, named⟩
    · exact ⟨t, found, dial, alive, fun waits => (lost waits).trans (fit.pending k t found waits).2.1.symm⟩
    · exact ⟨u, named, rfl, rfl, fun _ => rfl⟩
  refine ⟨fun l named =>
    ⟨(fit.cached l named).1, (alive_setTunnel found alive l).trans (fit.cached l named).2⟩,
    fun l m u v hu hv waits waits' => ?_, fun l u named waits => ?_, fit.ready.trans ?_⟩
  · obtain ⟨u', hu, du, _⟩ := old l u hu
    obtain ⟨v', hv, dv, _⟩ := old m v hv
    exact fit.one l m u' v' hu hv (du.symm.trans waits) (dv.symm.trans waits')
  · obtain ⟨v, hv, dv, av, lv⟩ := old l u named
    obtain ⟨valive, vlost, cached⟩ := fit.pending l v hv (dv.symm.trans waits)
    exact ⟨av.trans valive, (lv (dv.symm.trans waits)).trans vlost, cached⟩
  · constructor
    · rintro ⟨l, u, named, hu, opened, ualive⟩
      by_cases at_k : k = l
      · subst at_k
        cases found.symm.trans hu
        refine ⟨k, t', named, ?_, dial.trans opened, alive.trans ualive⟩
        exact List.getElem?_set_self (List.getElem?_eq_some_iff.mp found).1
      · exact ⟨l, u, named, (List.getElem?_set_ne at_k).trans hu, opened, ualive⟩
    · rintro ⟨l, u, named, hu, opened, ualive⟩
      obtain ⟨v, hv, dv, av, _⟩ := old l u hu
      exact ⟨l, v, named, hv, dv.symm.trans opened, av.symm.trans ualive⟩

theorem Fit.dialOk {s : Transport} (fit : Fit s) (unclosed : s.closed = false) {k : Nat} {t : Tunnel}
    (found : s.tunnels[k]? = some t) (waits : t.dial = .pending) :
    Fit { s.setTunnel k { t with dial := .open_ } with connectivity := .ready } := by
  obtain ⟨alive, lost, cached⟩ := fit.pending k t found waits
  have pending : ∀ (l : Nat) (u : Tunnel), (s.tunnels.set k { t with dial := .open_ })[l]? = some u →
      u.dial ≠ .pending := by
    intro l u named still
    rcases getElem?_set_inv named with ⟨rfl, rfl⟩ | ⟨other, named⟩
    · cases still
    · exact other (fit.one k l t u found named waits still)
  have same : ∀ l, (s.setTunnel k { t with dial := .open_ }).alive l = s.alive l := alive_setTunnel found rfl
  refine ⟨fun l named => ⟨unclosed, (same l).trans (fit.cached l named).2⟩,
    fun l m u v hu _ still _ => absurd still (pending l u hu),
    fun l u hu still => absurd still (pending l u hu), iff_of_true rfl ?_⟩
  exact ⟨k, _, cached unclosed, List.getElem?_set_self (List.getElem?_eq_some_iff.mp found).1, rfl, alive⟩

/-- A tunnel that is known dead is no longer cached. -/
theorem Fit.buries {s : Transport} (fit : Fit s) {k : Nat} {t' : Tunnel} (dead : t'.dial ≠ .pending)
    {connectivity : ConnectivityState}
    (ready : connectivity = .ready ↔ s.cached ≠ some k ∧ s.Established) :
    Fit { (s.setTunnel k t').evict k with connectivity } := by
  have pending : ∀ (l : Nat) (u : Tunnel), (s.tunnels.set k t')[l]? = some u → u.dial = .pending →
      k ≠ l ∧ s.tunnels[l]? = some u := by
    intro l u named still
    rcases getElem?_set_inv named with ⟨rfl, rfl⟩ | other
    · exact absurd still dead
    · exact other
  have kept : ∀ l : Nat, (if s.cached = some k then none else s.cached) = some l →
    s.cached = some l ∧ k ≠ l := by
    intro l named
    split at named
    · cases named
    · rename_i other
      exact ⟨named, fun same => other (same ▸ named)⟩
  rw [evict_eq]
  refine ⟨fun l named => ?_, fun l m u v hu hv still still' => ?_, fun l u hu still => ?_, ready.trans ?_⟩
  · obtain ⟨named, other⟩ := kept l named
    refine ⟨(fit.cached l named).1, ?_⟩
    have same : (s.tunnels.set k t')[l]? = s.tunnels[l]? := List.getElem?_set_ne other
    simpa only [Transport.alive, Transport.setTunnel, same] using (fit.cached l named).2
  · exact fit.one l m u v (pending l u hu still).2 (pending m v hv still').2 still still'
  · obtain ⟨other, hu⟩ := pending l u hu still
    obtain ⟨alive, lost, cached⟩ := fit.pending l u hu still
    refine ⟨alive, lost, fun unclosed => ?_⟩
    have named := cached unclosed
    exact (if_neg fun same => other (Option.some.inj (same.symm.trans named))).trans named
  · constructor
    · rintro ⟨uncached, l, u, named, hu, opened, alive⟩
      have other : k ≠ l := fun same => uncached (same ▸ named)
      exact ⟨l, u, (if_neg uncached).trans named, (List.getElem?_set_ne other).trans hu, opened, alive⟩
    · rintro ⟨l, u, named, hu, opened, alive⟩
      obtain ⟨named, other⟩ := kept l named
      refine ⟨fun same => other (Option.some.inj (same.symm.trans named)), l, u, named, ?_, opened, alive⟩
      exact (List.getElem?_set_ne other).symm.trans hu

/-- A dial that is refused was the cached one, if any was. -/
theorem Fit.dialFail {s : Transport} (fit : Fit s) {k : Nat} {t : Tunnel} (found : s.tunnels[k]? = some t)
    (waits : t.dial = .pending) :
    Fit { (s.setTunnel k { t with dial := .refused, alive := false }).evict k with
      connectivity := .transientFailure } := by
  refine fit.buries (by simp) (iff_of_false (by simp) ?_)
  rintro ⟨uncached, l, u, named, _⟩
  exact uncached ((fit.pending k t found waits).2.2 (fit.cached l named).1)

theorem Fit.die {s : Transport} (fit : Fit s) {k : Nat} {t : Tunnel} (found : s.tunnels[k]? = some t)
    (lost : t.lost = true) :
    Fit { (s.setTunnel k { t with alive := false }).evict k with
      connectivity := if s.cached = some k ∧ !s.closed then .idle else s.connectivity } := by
  have settled : ({ t with alive := false } : Tunnel).dial ≠ .pending := fun waits => by
    cases lost.symm.trans (fit.pending k t found waits).2.1
  refine fit.buries settled ?_
  by_cases cached : s.cached = some k
  · rw [if_pos ⟨cached, by simp [(fit.cached k cached).1]⟩]
    exact iff_of_false (by simp) fun both => both.1 cached
  · rw [if_neg fun both => cached both.1, fit.ready]
    exact ⟨fun established => ⟨cached, established⟩, And.right⟩

theorem Fit.close {s : Transport} (fit : Fit s) (unready : s.connectivity ≠ .ready) :
    Fit { s with closed := true, cached := none } where
  cached _ named := by cases named
  one := fit.one
  pending k t found waits :=
    ⟨(fit.pending k t found waits).1, (fit.pending k t found waits).2.1, fun unclosed => by
    cases unclosed⟩
  ready := by
    refine iff_of_false unready ?_
    rintro ⟨k, t, named, _⟩
    cases named

/-- A closed transport has no tunnel cached, so a call opens one. -/
theorem Fit.connect_closed {s : Transport} (fit : Fit s) (closed : s.closed = true) :
    s.connect.2.tunnels.length = s.tunnels.length + 1 := by
  have uncached : s.cached = none := by
    cases cached : s.cached with
    | none => rfl
    | some k => cases closed.symm.trans (fit.cached k cached).1
  simp [Transport.connect, uncached]

theorem stepCall_inv {s t : Transport} {c : Nat} {f : Unary → Option (Unary × Transport)}
    (h : s.stepCall c f = some t) :
    ∃ call call' s', s.calls[c]? = some call ∧ f call = some (call', s') ∧
      t = { s' with calls := s.calls.set c call' } := by
  obtain ⟨⟨call', s'⟩, moved, rfl⟩ := Option.map_eq_some_iff.mp h
  obtain ⟨call, found, moved⟩ := Option.bind_eq_some_iff.mp moved
  exact ⟨call, call', s', found, moved, rfl⟩

/-- A call that fails throws, or goes round again and connects. -/
theorem caught_cases (s : Transport) (call : Unary) :
    (caught s call).2 = s ∧ (0 < call.attempt || call.aborted || !s.stale call.tunnel) = true ∨
      (caught s call).2 = s.connect.2 ∧ (0 < call.attempt || call.aborted || !s.stale call.tunnel) =
        false := by
  unfold caught
  split
  · rename_i throws
    exact .inl ⟨rfl, throws⟩
  · rename_i again
    exact .inr ⟨rfl, Bool.not_eq_true _ ▸ again⟩

/-- What a step does to the tunnels: it connects, one of them moves, or the transport closes. -/
inductive Does (s : Transport) : Event → Transport → Prop where
  | connects {event : Event} (calls : List Unary)
      (starts : event = .unary ∨ event = .startStream ∨ ∃ c, event = .fail c ∧ s.goesRound c = true) :
      Does s event { s.connect.2 with calls }
  | calls {event : Event} (calls : List Unary) (rests : ∀ c, event = .fail c → s.goesRound c = false)
      (other : event ≠ .unary ∧ event ≠ .startStream ∧ event ≠ .close ∧ ∀ k, event ≠ .dialOk k) :
      Does s event { s with calls }
  | dialOk {k : Nat} {t : Tunnel} (found : s.tunnels[k]? = some t) (waits : t.dial = .pending) :
      Does s (.dialOk k) { s.setTunnel k { t with dial := .open_ } with connectivity := .ready }
  | dialFail {k : Nat} {t : Tunnel} (found : s.tunnels[k]? = some t) (waits : t.dial = .pending) :
      Does s (.dialFail k) { (s.setTunnel k { t with dial := .refused, alive := false }).evict k with
        connectivity := .transientFailure }
  | lose {k : Nat} {t : Tunnel} (found : s.tunnels[k]? = some t) (opened : t.dial = .open_) :
      Does s (.lose k) (s.setTunnel k { t with lost := true })
  | die {k : Nat} {t : Tunnel} (found : s.tunnels[k]? = some t) (lost : t.lost = true) :
      Does s (.die k) { (s.setTunnel k { t with alive := false }).evict k with
        connectivity := if s.cached = some k ∧ !s.closed then .idle else s.connectivity }
  | close : Does s .close { s with closed := true, cached := none }

/-- A step of one call that leaves the transport under it as it is. -/
theorem Does.of_call {s t : Transport} {event : Event} {c : Nat} {f : Unary → Option (Unary × Transport)}
    (rests : ∀ c, event ≠ .fail c)
    (other : event ≠ .unary ∧ event ≠ .startStream ∧ event ≠ .close ∧ ∀ k, event ≠ .dialOk k)
    (same : ∀ call call' s', f call = some (call', s') → s' = s) (h : s.stepCall c f = some t) :
    Does s event t := by
  obtain ⟨call, call', s', found, moved, rfl⟩ := stepCall_inv h
  cases same call call' s' moved
  exact .calls _ (fun c fails => absurd fails (rests c)) other

theorem step_does {s t : Transport} {event : Event} (h : step s event = some t) : Does s event t := by
  cases event with
  | unary =>
      cases h
      exact .connects _ (.inl rfl)
  | startStream =>
      cases h
      exact .connects s.connect.2.calls (.inr (.inl rfl))
  | dialOk k =>
      simp only [step] at h
      split at h
      · rename_i tunnel found
        split at h
        · rename_i waits
          cases h
          exact .dialOk found waits
        · cases h
      · cases h
  | dialFail k =>
      simp only [step] at h
      split at h
      · rename_i tunnel found
        split at h
        · rename_i waits
          cases h
          exact .dialFail found waits
        · cases h
      · cases h
  | lose k =>
      simp only [step] at h
      split at h
      · rename_i tunnel found
        split at h
        · rename_i opened
          cases h
          simp only [Bool.and_eq_true, decide_eq_true_eq] at opened
          exact .lose found opened.1
        · cases h
      · cases h
  | die k =>
      simp only [step] at h
      split at h
      · rename_i tunnel found
        split at h
        · rename_i lost
          cases h
          simp only [Bool.and_eq_true] at lost
          exact .die found lost.1
        · cases h
      · cases h
  | request c =>
      refine .of_call (by simp) (by simp) (fun call call' s' moved => ?_) h
      split at moved
      · simp only [Option.ite_none_right_eq_some, Option.some.injEq, Prod.mk.injEq] at moved
        exact moved.2.2.symm
      · cases moved
  | execute c =>
      refine .of_call (by simp) (by simp) (fun call call' s' moved => ?_) h
      simp only [Option.ite_none_right_eq_some, Option.some.injEq, Prod.mk.injEq] at moved
      exact moved.2.2.symm
  | respond c =>
      refine .of_call (by simp) (by simp) (fun call call' s' moved => ?_) h
      split at moved
      · simp only [Option.ite_none_right_eq_some, Option.some.injEq, Prod.mk.injEq] at moved
        exact moved.2.2.symm
      · cases moved
  | abort c =>
      refine .of_call (by simp) (by simp) (fun call call' s' moved => ?_) h
      cases moved
      rfl
  | fail c =>
      obtain ⟨call, call', s', found, moved, rfl⟩ := stepCall_inv h
      simp only [Option.ite_none_right_eq_some, Option.some.injEq] at moved
      have state : s' = (caught s call).2 := by rw [moved.2]
      subst state
      rcases caught_cases s call with ⟨same, throws⟩ | ⟨same, again⟩
      · rw [same]
        refine .calls _ (fun d named => ?_) (by simp)
        cases named
        simp only [Transport.goesRound, found, Option.any_some, throws, Bool.not_true]
      · rw [same]
        refine .connects _ (.inr (.inr ⟨c, rfl, ?_⟩))
        simp only [Transport.goesRound, found, Option.any_some, again, Bool.not_false]
  | close =>
      simp only [step] at h
      split at h
      · cases h
      · cases h
        exact .close

theorem Fit.step {s t : Transport} {event : Event} (fit : Fit s) (orderly : Orderly s event)
    (h : H2ts.step s event = some t) : Fit t := by
  cases step_does h with
  | connects calls starts =>
      refine Fit.calls (fit.connect ?_) calls
      rcases starts with rfl | rfl | ⟨c, rfl, again⟩
      · exact orderly
      · exact orderly
      · cases closed : s.closed with
        | false => rfl
        | true => cases again.symm.trans (orderly closed)
  | calls calls rests other => exact fit.calls calls
  | dialOk found waits => exact fit.dialOk orderly found waits
  | dialFail found waits => exact fit.dialFail found waits
  | lose found opened =>
      exact fit.setTunnel found rfl rfl fun waits => by cases opened.symm.trans waits
  | die found lost => exact fit.die found lost
  | close => exact fit.close orderly

theorem Fit.keeps {s : Transport} {event : Event} (fit : Fit s) (orderly : Orderly s event) :
    Keeps s event := by
  intro t h
  refine ⟨fun closed => ?_, (fit.step orderly h).published⟩
  cases step_does h with
  | connects calls starts =>
      rcases starts with rfl | rfl | ⟨c, rfl, again⟩
      · cases closed.symm.trans orderly
      · cases closed.symm.trans orderly
      · cases again.symm.trans (orderly closed)
  | calls calls rests other => rfl
  | dialOk found waits | lose found waits => exact List.length_set
  | dialFail found waits | die found waits =>
      rw [evict_eq]
      exact List.length_set
  | close => rfl

/-- A step out of order opens a WebSocket behind `close()`, or leaves READY published of no
tunnel. -/
theorem Fit.orderly {s t : Transport} {event : Event} (fit : Fit s) (h : H2ts.step s event = some t)
    (keeps : Keeps s event) : Orderly s event := by
  obtain ⟨opens, _, ready⟩ := keeps t h
  have uncached : s.closed = true → s.cached = none := by
    intro closed
    cases cached : s.cached with
    | none => rfl
    | some k => cases closed.symm.trans (fit.cached k cached).1
  cases step_does h with
  | connects calls starts =>
      have unclosed : s.closed = false := by
        cases closed : s.closed with
        | false => rfl
        | true =>
            have grown := (opens closed).symm.trans (fit.connect_closed closed)
            omega
      rcases starts with rfl | rfl | ⟨c, rfl, again⟩
      · exact unclosed
      · exact unclosed
      · exact fun closed => by cases unclosed.symm.trans closed
  | calls calls rests other =>
      cases event with
      | unary | startStream | close | dialOk => simp at other
      | fail c => exact fun _ => rests c rfl
      | dialFail | lose | die | request | execute | respond | abort => trivial
  | @dialOk k t found waits =>
      obtain ⟨l, u, named, _⟩ := ready.mp rfl
      cases closed : s.closed with
      | false => exact closed
      | true => cases (uncached closed).symm.trans named
  | close =>
      intro isReady
      obtain ⟨k, t, named, _⟩ := ready.mp isReady
      cases named
  | dialFail | lose | die => trivial

/-- Over every run: what `conn()` hands out is not known dead, and one dial is pending at a
time, no WebSocket is opened behind `close()` and READY is published of an established
tunnel only, exactly when the transport is closed in order. -/
theorem tunnel_cache_iff {events : List Event} {s : Transport} (h : Machine.run step .init events = some s) :
    (∀ s : Transport, s.connect.2.alive s.connect.1 = true) ∧ Published .init ∧
      (Machine.Along step Keeps .init events ↔ Machine.Along step Orderly .init events) := by
  refine ⟨connect_alive, Fit.init.published, Machine.along_iff (J := Fit) Fit.init ?_ ?_ h⟩
  · exact fun s event t fit moved => ⟨fit.orderly moved, fit.keeps⟩
  · exact fun s event t fit orderly moved => fit.step orderly moved

/-- A tunnel opens, dies and is dialled again. -/
theorem redial_keeps :
    Machine.Along step Keeps .init [.startStream, .dialOk 0, .lose 0, .die 0, .startStream, .dialOk 1] :=
  (tunnel_cache_iff (s :=
    ⟨[⟨.open_, false, true⟩, ⟨.open_, true, false⟩], some 1, false, .ready, []⟩) rfl).2.2.mpr
    ⟨rfl, rfl, trivial, trivial, rfl, rfl, trivial⟩

/-- READY outlasts `close()`; a dial abandoned by it publishes READY; and a call behind it
opens a second dial beside the first. -/
theorem ready_after_close :
    (Machine.run step .init [.startStream, .dialOk 0, .close]).map (fun s => (s.connectivity, s.cached)) =
        some (.ready, none) ∧
      (Machine.run step .init [.startStream, .close, .dialOk 0]).map (fun s => (s.connectivity, s.cached)) =
        some (.ready, none) ∧
      (Machine.run step .init [.startStream, .close, .startStream]).map (fun s => s.tunnels.map Tunnel.dial) =
        some [.pending, .pending] := by
  decide

end GrpcWebnext.H2ts
