import GrpcWebnext.NodeClient.OkIsFinal

/-! `cancel()` on a server stream that retries. It goes to the current attempt, so
between an attempt's status and the end of its backoff nothing hears it. -/
namespace GrpcWebnext.NodeClient.Stream
open Text (Str)
open Js (Number)
variable {Msg : Type} {policy : Option ResolvedPolicy} {transport : Transport}

/-- `error` or `end`. -/
def Emission.isTerminal : Emission Msg → Bool
  | .error _ => true
  | .end => true
  | _ => false

/-- What has been shown to the caller in a call that has not yet finished is no status,
and in one that has, one status and one terminal event; a status shown, or waited with,
is that of an attempt. -/
structure Shown (s : State Msg) : Prop where
  terminal : (s.emitted.filter Emission.isTerminal).length = if s.phase = .finished then 1 else 0
  status : ∀ status, .status status ∈ s.emitted → status ∈ s.ended
  waiting : ∀ delay status, s.phase = .backingOff delay status → status ∈ s.ended
  data : ∀ attempt message, .data attempt message ∈ s.emitted → attempt ≤ s.started

theorem Shown.init (signal : Option AbortReason) (throttle : Option Throttle) :
    Shown (init signal throttle : State Msg) where
  terminal := rfl
  status := fun _ found => absurd found List.not_mem_nil
  waiting := fun _ _ waiting => by cases waiting
  data := fun _ _ found => absurd found List.not_mem_nil

/-- The emissions of `commit` are headers. -/
theorem commit_emitted (s : State Msg) :
    ∃ shown : List Metadata, (commit s).emitted = s.emitted ++ shown.map Emission.metadata := by
  rw [commit_eq]
  cases s.committed with
  | true => exact ⟨[], rfl⟩
  | false => cases s.headers with
    | none => exact ⟨[], rfl⟩
    | some metadata => exact ⟨[metadata], rfl⟩

theorem filter_metadata (shown : List Metadata) :
    (shown.map (Emission.metadata : Metadata → Emission Msg)).filter Emission.isTerminal = [] := by
  simp [List.filter_eq_nil_iff, Emission.isTerminal]

theorem Shown.finish {s : State Msg} (terminal : (s.emitted.filter Emission.isTerminal).length = 0)
    (told : ∀ status, .status status ∈ s.emitted → status ∈ s.ended)
    (data : ∀ attempt message, .data attempt message ∈ s.emitted → attempt ≤ s.started)
    {status : StatusResult} (member : status ∈ s.ended) : Shown (finish s status) := by
  obtain ⟨shown, emitted⟩ := commit_emitted s
  rw [finish_eq, emitted]
  refine ⟨?_, ?_, fun _ _ waiting => (by cases waiting), ?_⟩
  · simp only [List.filter_append, filter_metadata, List.length_append, terminal, List.length_nil]
    split <;> rfl
  · intro other found
    simp only [List.mem_append, List.mem_map, reduceCtorEq, and_false, exists_false, or_false,
      List.mem_cons, Emission.status.injEq, List.not_mem_nil] at found
    rcases found with old | rfl | last
    · exact told other old
    · exact member
    · split at last <;> cases last
  · intro attempt message found
    simp only [List.mem_append, List.mem_map, reduceCtorEq, and_false, exists_false, or_false,
      List.mem_cons, List.not_mem_nil, false_or] at found
    rcases found with old | last
    · exact data attempt message old
    · split at last <;> cases last

theorem Shown.onStatus {s : State Msg} (shown : Shown s) {aborted leaving : Bool}
    (running : s.phase = .running aborted leaving) (status : StatusResult) (random : Number) :
    Shown (onStatus policy s status random) := by
  have terminal : (s.emitted.filter Emission.isTerminal).length = 0 := by
    simpa [running] using shown.terminal
  have told : ∀ other, .status other ∈ s.emitted → other ∈ s.ended ++ [status] :=
    fun other found => List.mem_append_left _ (shown.status other found)
  have member : status ∈ s.ended ++ [status] := by simp
  unfold Stream.onStatus
  dsimp only
  split
  · apply Shown.finish
    exacts [terminal, told, shown.data, member]
  · cases settle policy s.ledger status s.attempt random with
    | mk delay ledger =>
        cases delay with
        | none =>
            apply Shown.finish
            exacts [terminal, told, shown.data, member]
        | some delay =>
            dsimp only
            split
            · apply Shown.finish
              exacts [terminal, told, shown.data, member]
            · refine ⟨terminal, told, fun d st waiting => ?_, shown.data⟩
              cases waiting
              exact member

theorem Shown.signalled {s : State Msg} (shown : Shown s) (event : Event Msg) :
    Shown (signalled s event) := by
  obtain ⟨signal, same⟩ := signalled_eq s event
  rw [same]
  exact ⟨shown.terminal, shown.status, shown.waiting, shown.data⟩

theorem Shown.proceed {s t : State Msg} (shown : Shown s) {aborted leaving : Bool}
    (running : s.phase = .running aborted leaving) {event : Event Msg}
    (moved : proceed transport s aborted leaving event = some t) : Shown t := by
  have terminal : (s.emitted.filter Emission.isTerminal).length = 0 := by
    simpa [running] using shown.terminal
  cases event with
  | headers metadata =>
      simp only [Stream.proceed] at moved
      split at moved
      · cases moved
      · cases moved
        exact ⟨shown.terminal, shown.status, shown.waiting, shown.data⟩
  | message message =>
      simp only [Stream.proceed] at moved
      split at moved
      · cases moved
      · cases moved
        obtain ⟨held, emitted⟩ := commit_emitted s
        have kept : (commit s).ended = s.ended ∧ (commit s).started = s.started := by
          simp only [commit_eq, and_self]
        simp only [emitted, kept.2]
        refine ⟨?_, ?_, fun _ _ waiting => (by cases waiting), ?_⟩
        · simp only [List.filter_append, filter_metadata, List.length_append, terminal,
            List.length_nil]
          rfl
        · intro status found
          rw [kept.1]
          simp only [List.mem_append, List.mem_map, reduceCtorEq, and_false, exists_false,
            or_false, List.mem_singleton] at found
          exact shown.status status found
        · intro attempt content found
          simp only [List.mem_append, List.mem_map, reduceCtorEq, and_false, exists_false,
            or_false, List.mem_singleton, Emission.data.injEq] at found
          rcases found with old | ⟨rfl, rfl⟩
          · exact shown.data attempt content old
          · exact le_rfl
  | abort reason =>
      cases moved
      exact ⟨terminal, shown.status, fun _ _ waiting => (by cases waiting), shown.data⟩
  | cancel =>
      cases moved
      exact ⟨terminal, shown.status, fun _ _ waiting => (by cases waiting), shown.data⟩
  | respond | fail | notice | elapsed | others => cases moved

theorem Shown.step {s t : State Msg} {label : Event Msg × Number} (shown : Shown s)
    (h : step policy transport s label = some t) : Shown t := by
  cases step_move h with
  | others throttle random => exact ⟨shown.terminal, shown.status, shown.waiting, shown.data⟩
  | @ends aborted leaving event status random running ended =>
      exact (shown.signalled event).onStatus ((signalled_phase s event).trans running) status random
  | @proceeds aborted leaving event _ random running goes moved =>
      exact (shown.signalled event).proceed ((signalled_phase s event).trans running) moved
  | elapses random waiting =>
      have terminal : (s.emitted.filter Emission.isTerminal).length = 0 := by
        simpa [waiting] using shown.terminal
      exact ⟨terminal, shown.status, fun _ _ waiting => (by cases waiting),
        fun attempt message found => Nat.le_succ_of_le (shown.data attempt message found)⟩
  | gives reason random waiting =>
      have terminal : (s.emitted.filter Emission.isTerminal).length = 0 := by
        simpa [waiting] using shown.terminal
      apply Shown.finish
      exacts [terminal, shown.status, shown.data, shown.waiting _ _ waiting]
  | misses random waiting => exact shown
  | idles random closed => exact shown

/-- What keeps a cancel effective at one step. It does not fall into a backoff; the
CANCELLED it brings about, at once on ws and when the attempt reports on h2ts, is not
itself retried; and no deadline overtakes it on h2ts. -/
def CancelHeard (policy : Option ResolvedPolicy) (transport : Transport) (s : State Msg)
    (label : Event Msg × Number) : Prop :=
  match label.1, s.phase with
  | .cancel, .backingOff _ _ => False
  | .cancel, .running _ _ => match transport with
    | .ws => Closing policy s cancelled
    | .h2ts => s.signal ≠ some .deadline
  | .abort .deadline, .running aborted _ => transport = .h2ts → aborted = true → s.signal ≠ none
  | .respond _, .running aborted _ => transport = .h2ts → aborted = true → Closing policy s cancelled
  | .fail _, .running aborted _ => transport = .h2ts → aborted = true → Closing policy s cancelled
  | _, _ => True

/-- The call after a cancel that found `s`: no attempt was started since, and it has
finished, or its h2ts attempt is aborted and will finish it. -/
structure Halted (transport : Transport) (s t : State Msg) : Prop where
  started : t.started = s.started
  ended : ∀ status ∈ t.ended, status ∈ s.ended ∨ status.code = H2ts.Status.cancelled
  phase : t.phase = .finished ∨ transport = .h2ts ∧ t.signal ≠ some .deadline ∧
    ∃ leaving, t.phase = .running true leaving

theorem Halted.of_cancel {s t : State Msg} {random : Number}
    (heard : CancelHeard policy transport s (.cancel, random))
    (h : step policy transport s (.cancel, random) = some t) : Halted transport s t := by
  cases phase : s.phase with
  | backingOff delay status => simp only [CancelHeard, phase] at heard
  | finished =>
      simp only [step, phase, Option.some.injEq] at h
      subst h
      exact ⟨rfl, fun _ member => .inl member, .inl phase⟩
  | running aborted leaving =>
      cases transport with
      | ws =>
          simp only [step, phase, ending, Option.some.injEq, signalled] at h
          simp only [CancelHeard, phase] at heard
          subst h
          obtain ⟨_, started, ended⟩ := onStatus_frame policy s cancelled random
          refine ⟨started, fun status member => ?_, .inl (onStatus_finished heard random)⟩
          rw [ended] at member
          rcases List.mem_append.mp member with old | new
          · exact .inl old
          · exact .inr (by rw [List.mem_singleton.mp new]; rfl)
      | h2ts =>
          simp only [step, phase, ending, proceed, signalled, Option.some.injEq] at h
          simp only [CancelHeard, phase] at heard
          subst h
          exact ⟨rfl, fun _ member => .inl member, .inr ⟨rfl, heard, leaving, by simp⟩⟩

/-- The status an aborted h2ts attempt ends with, short of a deadline. -/
theorem abortStatus_code {signal : Option AbortReason} (calm : signal ≠ some .deadline) :
    (abortStatus signal).code = H2ts.Status.cancelled := by
  cases signal with
  | none => rfl
  | some reason => cases reason with
    | deadline => exact absurd rfl calm
    | other => rfl

/-- An aborted h2ts attempt ends by reporting the abort. -/
theorem ending_aborted {signal : Option AbortReason} {event : Event Msg} {status : StatusResult}
    (ended : ending .h2ts signal true event = some status) :
    status = abortStatus signal ∧ (∀ s : State Msg, signalled s event = s) ∧
      ((∃ answer, event = .respond answer) ∨ ∃ reason, event = .fail reason) := by
  cases event with
  | respond answer => exact ⟨(Option.some.inj ended).symm, fun _ => rfl, .inl ⟨answer, rfl⟩⟩
  | fail reason => exact ⟨(Option.some.inj ended).symm, fun _ => rfl, .inr ⟨reason, rfl⟩⟩
  | abort reason => cases signal <;> cases ended
  | headers | message | notice | cancel | elapsed | others => cases ended

/-- Closing with CANCELLED is closing with what the aborted attempt reports. -/
theorem Closing.abortStatus {s : State Msg} (closing : Closing policy s cancelled) :
    Closing policy s (abortStatus s.signal) := by
  cases signal : s.signal with
  | none => exact closing
  | some reason => exact .inr (.inr (by simp [signal]))

theorem finishes_aborted {t u : State Msg} {label : Event Msg × Number} {leaving : Bool}
    {status : StatusResult} (running : t.phase = .running true leaving)
    (heard : CancelHeard policy .h2ts t label)
    (ended : ending .h2ts t.signal true label.1 = some status)
    (h : step policy .h2ts t label = some u) :
    u = onStatus policy t (abortStatus t.signal) label.2 ∧ u.phase = .finished := by
  obtain ⟨event, random⟩ := label
  obtain ⟨rfl, same, kind⟩ := ending_aborted ended
  have closing : Closing policy t cancelled := by
    rcases kind with ⟨answer, rfl⟩ | ⟨reason, rfl⟩
    · simp only [CancelHeard, running] at heard
      exact heard trivial trivial
    · simp only [CancelHeard, running] at heard
      exact heard trivial trivial
  cases step_move h with
  | ends _ running' ended' =>
      rw [running] at running'
      cases running'
      rw [ended] at ended'
      cases ended'
      rw [same]
      exact ⟨rfl, onStatus_finished closing.abortStatus random⟩
  | proceeds _ running' goes _ =>
      rw [running] at running'
      cases running'
      simp only [ended, reduceCtorEq] at goes
  | others | elapses | gives | misses => rcases kind with ⟨_, named⟩ | ⟨_, named⟩ <;> cases named
  | idles _ closed => simp only [running, reduceCtorEq] at closed

/-- No deadline reaches the signal of an aborted attempt. -/
theorem signalled_calm {t : State Msg} {event : Event Msg} {random : Number} {leaving : Bool}
    (running : t.phase = .running true leaving) (calm : t.signal ≠ some .deadline)
    (heard : CancelHeard policy .h2ts t (event, random)) :
    (signalled t event).signal ≠ some .deadline := by
  cases event with
  | abort reason =>
      cases reason with
      | deadline =>
          simp only [CancelHeard, running] at heard
          cases signal : t.signal with
          | none => exact absurd signal (heard trivial trivial)
          | some cause =>
              have kept : (signalled t (.abort .deadline)).signal = t.signal := by
                simp [signalled, signal]
              rw [kept]
              exact calm
      | other => cases signal : t.signal <;> simp_all [signalled]
  | _ => exact calm

theorem Halted.step {s t u : State Msg} {label : Event Msg × Number}
    (halted : Halted transport s t) (heard : CancelHeard policy transport t label)
    (h : step policy transport t label = some u) : Halted transport s u := by
  rcases halted.phase with closed | ⟨rfl, calm, leaving, running⟩
  · cases step_move h with
    | others throttle random => exact ⟨halted.started, halted.ended, .inl closed⟩
    | idles random _ => exact halted
    | ends _ running | proceeds _ running => simp only [closed, reduceCtorEq] at running
    | elapses _ waiting | gives _ _ waiting | misses _ waiting =>
        simp only [closed, reduceCtorEq] at waiting
  · cases step_move h with
    | others throttle random =>
        exact ⟨halted.started, halted.ended, .inr ⟨rfl, calm, leaving, running⟩⟩
    | @ends aborted left event status random running' ended =>
        rw [running] at running'
        cases running'
        obtain ⟨same, closed⟩ := finishes_aborted running heard ended h
        obtain ⟨_, started, shown⟩ := onStatus_frame policy t (Stream.abortStatus t.signal) random
        rw [same] at closed ⊢
        refine ⟨started.trans halted.started, fun st member => ?_, .inl closed⟩
        rw [shown] at member
        rcases List.mem_append.mp member with old | new
        · exact halted.ended st old
        · rw [List.mem_singleton.mp new]
          exact .inr (abortStatus_code calm)
    | @proceeds aborted left event _ random running' goes moved =>
        rw [running] at running'
        cases running'
        obtain ⟨⟨a, l, still, keeps⟩, signal, _, started, ended⟩ :=
          proceed_frame ((signalled_phase t event).trans running) moved
        obtain ⟨_, same⟩ := signalled_eq t event
        have calm' := signalled_calm running calm heard
        rw [← signal] at calm'
        rw [same] at started ended
        refine ⟨started.trans halted.started, ended ▸ halted.ended, .inr ⟨rfl, calm', l, ?_⟩⟩
        rw [still, keeps rfl]
    | elapses _ waiting | gives _ _ waiting | misses _ waiting =>
        simp only [running, reduceCtorEq] at waiting
    | idles _ closed => simp only [running, reduceCtorEq] at closed

/-- What a cancel that found the call in `s` promises of every later state: no further
attempt, no message of one, at most one terminal event, with CANCELLED or a status that
had already ended an attempt; and the call has finished, or the next thing its aborted
attempt reports finishes it. -/
structure Stopped (policy : Option ResolvedPolicy) (transport : Transport) (s t : State Msg) : Prop where
  started : t.started = s.started
  data : ∀ attempt message, .data attempt message ∈ t.emitted → attempt ≤ s.started
  once : (t.emitted.filter Emission.isTerminal).length = if t.phase = .finished then 1 else 0
  status : ∀ status, .status status ∈ t.emitted →
    status.code = H2ts.Status.cancelled ∨ status ∈ s.ended
  ends : t.phase = .finished ∨ ∃ leaving, t.phase = .running true leaving ∧
    ∀ label status u, CancelHeard policy transport t label →
      ending transport t.signal true label.1 = some status →
      step policy transport t label = some u → u.phase = .finished

theorem Halted.stopped {s t : State Msg} (halted : Halted transport s t) (shown : Shown t) :
    Stopped policy transport s t where
  started := halted.started
  data := fun attempt message found => halted.started ▸ shown.data attempt message found
  once := shown.terminal
  status := fun status found => (halted.ended status (shown.status status found)).symm
  ends := by
    rcases halted.phase with closed | ⟨rfl, _, leaving, running⟩
    · exact .inl closed
    · exact .inr ⟨leaving, running, fun label status u heard ended h =>
        (finishes_aborted running heard ended h).2⟩

/-- In every run whose cancels are heard, what `cancel()` finds is what it stops. -/
theorem heard_cancel_stops (policy : Option RetryPolicy) {Msg : Type} (transport : Transport)
    (signal : Option AbortReason) (throttle : Option Throttle)
    (before after : List (Event Msg × Number)) (random : Number) {s t : State Msg}
    (reached : Machine.run (step (policy.map resolvePolicy) transport) (init signal throttle) before =
      some s)
    (later : Machine.run (step (policy.map resolvePolicy) transport) s
      ((.cancel, random) :: after) = some t)
    (heard : Machine.Along (step (policy.map resolvePolicy) transport)
      (CancelHeard (policy.map resolvePolicy) transport) (init signal throttle)
      (before ++ (.cancel, random) :: after)) :
    Stopped (policy.map resolvePolicy) transport s t := by
  have shown : Shown s := Machine.run_invariant (I := Shown)
    (fun s label s' shown first => shown.step first) (Shown.init signal throttle) reached
  have behind := (Machine.along_append heard reached).2
  obtain ⟨u, first, rest⟩ := Machine.run_cons_inv later
  simp only [Machine.Along, first] at behind
  have halted : Halted transport s u := .of_cancel behind.1 first
  refine Halted.stopped (Machine.run_invariant_along (I := Halted transport s) ?_ halted behind.2 rest) ?_
  · exact fun s' label s'' halted heard moved => halted.step heard moved
  · exact Machine.run_invariant (I := Shown) (fun s label s' shown first => shown.step first) shown later

/-- The default policy does not retry CANCELLED, so a cancel before the first message stops. -/
theorem cancel_before_first_message :
    ∃ s t : State Unit,
      Machine.run (step (some (resolvePolicy ⟨none, none, none, none, none⟩)) .ws) (init none none)
        [(.headers [], .ofNat 0)] = some s ∧
      Machine.run (step (some (resolvePolicy ⟨none, none, none, none, none⟩)) .ws) s
        [(.cancel, .ofNat 0)] = some t ∧
      Stopped (some (resolvePolicy ⟨none, none, none, none, none⟩)) .ws s t :=
  ⟨_, _, rfl, rfl, heard_cancel_stops (some ⟨none, none, none, none, none⟩) .ws none none
    [(.headers [], .ofNat 0)] [] (.ofNat 0) rfl rfl
    ⟨trivial, .inr (.inl (by decide +kernel)), trivial⟩⟩

/-- A status of 14 with the details of a lost socket. -/
def closedSocket : StatusResult := ⟨H2ts.Status.unavailable, "websocket closed".toList, []⟩

/-- Under the default policy: the first attempt is lost, `cancel()` comes before the
backoff has elapsed, and a second attempt delivers a message. -/
theorem cancel_lost_in_backoff :
    ∃ s t : State Unit,
      Machine.run (step (some (resolvePolicy ⟨none, none, none, none, none⟩)) .ws) (init none none)
        [(.respond closedSocket, .ofNat 0)] = some s ∧
      Machine.run (step (some (resolvePolicy ⟨none, none, none, none, none⟩)) .ws) s
        [(.cancel, .ofNat 0), (.elapsed, .ofNat 0), (.message (), .ofNat 0)] = some t ∧
      t.started = s.started + 1 ∧ .data 2 () ∈ t.emitted ∧
      ¬Stopped (some (resolvePolicy ⟨none, none, none, none, none⟩)) .ws s t := by
  refine ⟨_, _, rfl, rfl, rfl, by decide +kernel, fun stopped => ?_⟩
  exact absurd stopped.started (by decide +kernel)

end GrpcWebnext.NodeClient.Stream
