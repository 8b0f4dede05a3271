import GrpcWebnext.NodeClient.Calls

/-! What follows an attempt that ended with OK. -/
namespace GrpcWebnext.NodeClient
open Text (Str)
open Js (Number)

/-- The policy, the server and the throttle all let this attempt be retried. -/
def retried (policy : Option ResolvedPolicy) (throttle : Option Throttle) (status : StatusResult)
    (attempt : Nat) : Bool :=
  policy.any fun p => repeats p status attempt && permits throttle

theorem settle_retried {policy : Option ResolvedPolicy} {ledger : Ledger} {status : StatusResult}
    {attempt : Nat} (again : retried policy ledger.throttle status attempt = true)
    (random : Number) :
    ∃ delay, settle policy ledger status attempt random =
      (some delay, ledger.onFailure status.code) := by
  cases policy with
  | none => exact absurd again (by simp [retried])
  | some p =>
      have delayed : (nextDelay p ledger.throttle status attempt random).isSome = true := by
        rw [nextDelay_isSome]
        exact again
      obtain ⟨delay, named⟩ := Option.isSome_iff_exists.mp delayed
      refine ⟨delay, ?_⟩
      simp only [settle, Option.bind_some, named]

theorem settle_reported {policy : Option ResolvedPolicy} {ledger : Ledger} {status : StatusResult}
    {attempt : Nat} (last : retried policy ledger.throttle status attempt = false)
    (random : Number) :
    settle policy ledger status attempt random =
      if status.code = H2ts.Status.ok then (none, ledger.onSuccess status.code)
      else if policy.any (·.retryableStatusCodes.contains status.code) then
        (none, ledger.onFailure status.code)
      else (none, ledger) := by
  have none_named : (policy.bind fun p => nextDelay p ledger.throttle status attempt random) = none := by
    cases policy with
    | none => rfl
    | some p =>
        rw [Option.bind_some, ← Option.not_isSome_iff_eq_none, nextDelay_isSome, ← Bool.not_eq_false]
        simpa [retried] using last
  simp only [settle, none_named]

/-- The throttle was charged for a failure. -/
def Debited (before after : Ledger) : Prop :=
  ∃ code, after.charges = before.charges ++ [(code, Charge.debit)]

theorem debited_onFailure_iff (ledger : Ledger) (code : Int) :
    Debited ledger (ledger.onFailure code) ↔ ledger.throttle ≠ none := by
  unfold Debited Ledger.onFailure
  cases ledger.throttle with
  | none => simp
  | some t => simp

theorem not_debited_onSuccess (ledger : Ledger) (code : Int) :
    ¬Debited ledger (ledger.onSuccess code) := by
  unfold Debited Ledger.onSuccess
  cases ledger.throttle <;> simp

theorem getElem?_concat {α : Type} {l : List α} {a b : α} {i : Nat}
    (found : (l ++ [a])[i]? = some b) : l[i]? = some b ∨ i = l.length ∧ b = a := by
  rcases Nat.lt_trichotomy i l.length with inside | rfl | beyond
  · exact .inl (by rwa [List.getElem?_append_left inside] at found)
  · exact .inr ⟨rfl, by simpa using found.symm⟩
  · rw [List.getElem?_eq_none (by simp; omega)] at found
    cases found

/-- Ending with `status` here costs nothing more: it is not retried, or the call is
already aborted and has no throttle to charge. -/
def Spared (policy : Option ResolvedPolicy) (signal : Option AbortReason)
    (throttle : Option Throttle) (status : StatusResult) (attempt : Nat) : Prop :=
  retried policy throttle status attempt = true → signal ≠ none ∧ throttle = none

/-- The ledger after an attempt that ended with OK. -/
theorem settle_ok_ledger {policy : Option ResolvedPolicy} {ledger : Ledger} {status : StatusResult}
    (ok : status.code = H2ts.Status.ok) (attempt : Nat) (random : Number) :
    (settle policy ledger status attempt random).2 =
      if retried policy ledger.throttle status attempt then ledger.onFailure status.code
      else ledger.onSuccess status.code := by
  cases again : retried policy ledger.throttle status attempt with
  | true =>
      obtain ⟨delay, decided⟩ := settle_retried again random
      rw [decided]
      rfl
  | false =>
      rw [settle_reported again, if_pos ok]
      rfl

theorem mem_onFailure {ledger : Ledger} {code : Int} {entry : Int × Charge}
    (charged : entry ∈ (ledger.onFailure code).charges) :
    entry ∈ ledger.charges ∨ entry = (code, .debit) := by
  unfold Ledger.onFailure at charged
  cases throttle : ledger.throttle with
  | none =>
      rw [throttle] at charged
      exact .inl charged
  | some t =>
      rw [throttle] at charged
      simpa using charged

theorem mem_onSuccess {ledger : Ledger} {code : Int} {entry : Int × Charge}
    (charged : entry ∈ (ledger.onSuccess code).charges) :
    entry ∈ ledger.charges ∨ entry = (code, .credit) := by
  unfold Ledger.onSuccess at charged
  cases throttle : ledger.throttle with
  | none =>
      rw [throttle] at charged
      exact .inl charged
  | some t =>
      rw [throttle] at charged
      simpa using charged

/-- A debit is booked under the code of the status settled. -/
theorem mem_settle {policy : Option ResolvedPolicy} {ledger : Ledger} {status : StatusResult}
    {attempt : Nat} {random : Number} {code : Int}
    (charged : (code, Charge.debit) ∈ (settle policy ledger status attempt random).2.charges) :
    (code, Charge.debit) ∈ ledger.charges ∨ code = status.code := by
  have failed : (code, Charge.debit) ∈ (ledger.onFailure status.code).charges →
      (code, Charge.debit) ∈ ledger.charges ∨ code = status.code := by
    intro member
    rcases mem_onFailure member with old | new
    · exact .inl old
    · exact .inr (congrArg Prod.fst new)
  unfold settle at charged
  split at charged
  · exact failed charged
  · split at charged
    · rcases mem_onSuccess charged with old | new
      · exact .inl old
      · exact absurd new (by simp)
    · split at charged
      · exact failed charged
      · exact .inl charged

theorem settle_spared {policy : Option ResolvedPolicy} {signal : Option AbortReason}
    {ledger : Ledger} {status : StatusResult} {attempt : Nat}
    (spared : Spared policy signal ledger.throttle status attempt)
    (ok : status.code = H2ts.Status.ok) (random : Number)
    (undebited : (H2ts.Status.ok, Charge.debit) ∉ ledger.charges) :
    (H2ts.Status.ok, Charge.debit) ∉ (settle policy ledger status attempt random).2.charges := by
  rw [settle_ok_ledger ok]
  cases again : retried policy ledger.throttle status attempt with
  | true =>
      have free := (spared again).2
      simpa [Ledger.onFailure, free] using undebited
  | false =>
      intro charged
      rcases mem_onSuccess charged with old | new
      · exact undebited old
      · exact absurd new (by simp)

/-- An OK end debits the throttle exactly when it is retried and there is a throttle. -/
theorem debited_settle_iff {policy : Option ResolvedPolicy} {ledger : Ledger}
    {status : StatusResult} (ok : status.code = H2ts.Status.ok) (attempt : Nat) (random : Number) :
    Debited ledger (settle policy ledger status attempt random).2 ↔
      retried policy ledger.throttle status attempt = true ∧ ledger.throttle ≠ none := by
  rw [settle_ok_ledger ok]
  cases retried policy ledger.throttle status attempt with
  | true => simp [debited_onFailure_iff]
  | false => simp [not_debited_onSuccess]

namespace Unary
variable {policy : Option ResolvedPolicy}

theorem conclude_frame (policy : Option ResolvedPolicy) (s : State) (status : StatusResult)
    (res : Option UnaryResponse)
    (random : Number) :
    (conclude policy s status res random).ledger = (settle policy s.ledger status s.attempt random).2 ∧
      (conclude policy s status res random).attempt = s.attempt ∧
      (conclude policy s status res random).ended = s.ended ++ [status] := by
  unfold conclude
  dsimp only
  cases settle policy s.ledger status s.attempt random with
  | mk delay ledger =>
      cases delay with
      | none => exact ⟨rfl, rfl, rfl⟩
      | some delay =>
          dsimp only
          split <;> exact ⟨rfl, rfl, rfl⟩

theorem conclude_settled {s : State} {status : StatusResult}
    (last : retried policy s.ledger.throttle status s.attempt = false ∨ s.signal ≠ none)
    (res : Option UnaryResponse) (random : Number) :
    (conclude policy s status res random).phase = .settled := by
  unfold conclude
  dsimp only
  cases decision : settle policy s.ledger status s.attempt random with
  | mk delay ledger =>
      cases delay with
      | none => rfl
      | some delay =>
          rcases last with last | aborted
          · rw [settle_reported last] at decision
            split at decision
            · cases decision
            · split at decision <;> cases decision
          · dsimp only
            rw [if_pos (Option.isSome_iff_ne_none.mpr aborted)]
            rfl

theorem conclude_backsOff {s : State} {status : StatusResult}
    (again : retried policy s.ledger.throttle status s.attempt = true) (calm : s.signal = none)
    (res : Option UnaryResponse) (random : Number) :
    ∃ delay, (conclude policy s status res random).phase = .backingOff delay status res := by
  obtain ⟨delay, decided⟩ := settle_retried again random
  refine ⟨delay, ?_⟩
  unfold conclude
  simp only [decided, calm, Option.isSome_none, Bool.false_eq_true, if_false]

theorem step_settled {s t : State} {label : Event × Number} (closed : s.phase = .settled)
    (h : step policy s label = some t) : t.phase = .settled ∧ t.attempt = s.attempt := by
  obtain ⟨event, random⟩ := label
  cases event <;> simp only [step, closed, Option.some.injEq, reduceCtorEq] at h
  · subst h
    exact ⟨closed, rfl⟩
  · subst h
    exact ⟨rfl, rfl⟩

theorem run_settled {s t : State} {labels : List (Event × Number)} (closed : s.phase = .settled)
    (h : Machine.run (step policy) s labels = some t) : t.attempt = s.attempt := by
  refine (Machine.run_invariant (I := fun u => u.phase = .settled ∧ u.attempt = s.attempt)
    ?_ ⟨closed, rfl⟩ h).2
  intro u label u' kept first
  obtain ⟨stays, same⟩ := step_settled kept.1 first
  exact ⟨stays, same.trans kept.2⟩

theorem Spared.settled {s : State} {status : StatusResult}
    (spared : Spared policy s.signal s.ledger.throttle status s.attempt)
    (res : Option UnaryResponse) (random : Number) :
    (conclude policy s status res random).phase = .settled := by
  refine conclude_settled ?_ res random
  cases again : retried policy s.ledger.throttle status s.attempt with
  | false => exact .inl rfl
  | true => exact .inr (spared again).1

/-- The attempt ends with `status`, is the last of the call, and is not held against the
throttle. -/
def Final (policy : Option ResolvedPolicy) (s : State) (status : StatusResult)
    (res : Option UnaryResponse) (random : Number) : Prop :=
  let ended := conclude policy s status res random
  (∀ labels t, Machine.run (step policy) ended labels = some t → t.attempt = s.attempt) ∧
    ¬Debited s.ledger ended.ledger

theorem final_iff {s : State} {status : StatusResult} (ok : status.code = H2ts.Status.ok)
    (res : Option UnaryResponse) (random : Number) :
    Final policy s status res random ↔
      Spared policy s.signal s.ledger.throttle status s.attempt := by
  obtain ⟨ledger, attempt, _⟩ := conclude_frame policy s status res random
  unfold Final Spared
  dsimp only
  rw [ledger, debited_settle_iff ok]
  constructor
  · rintro ⟨last, free⟩ again
    refine ⟨fun calm => ?_, not_not.mp fun charged => free ⟨again, charged⟩⟩
    -- the backoff runs out and the next attempt starts
    obtain ⟨delay, waiting⟩ := conclude_backsOff again calm res random
    have next := last [(.elapsed, random)]
      { conclude policy s status res random with
        attempt := (conclude policy s status res random).attempt + 1, phase := .attempting }
      (by simp only [Machine.run, step, waiting])
    simp only [attempt] at next
    omega
  · intro spared
    refine ⟨fun labels t h => ?_, fun charged => charged.2 (spared charged.1).2⟩
    rw [run_settled (Spared.settled spared res random) h, attempt]

/-- Every OK end so far was the end of the last attempt, and none was debited. -/
structure Kept (s : State) : Prop where
  undebited : (H2ts.Status.ok, Charge.debit) ∉ s.ledger.charges
  count : s.attempt = s.ended.length + if s.phase matches .attempting then 1 else 0
  last : ∀ i status, s.ended[i]? = some status → status.code = H2ts.Status.ok →
    s.phase = .settled ∧ s.attempt = i + 1

theorem Kept.init (signal : Option AbortReason) (throttle : Option Throttle) :
    Kept (init signal throttle) where
  undebited := List.not_mem_nil
  count := rfl
  last := fun _ _ found => by cases found

/-- The condition at one step: an attempt that ends with OK here is spared. -/
def SparedAt (policy : Option ResolvedPolicy) (s : State) : Event × Number → Prop
  | (.resolve res, _) => res.status.code = H2ts.Status.ok →
      Spared policy s.signal s.ledger.throttle res.status s.attempt
  | _ => True

theorem Kept.conclude {s : State} (kept : Kept s) (fresh : s.phase = .attempting)
    {status : StatusResult} (res : Option UnaryResponse) (random : Number)
    (spared : status.code = H2ts.Status.ok →
      Spared policy s.signal s.ledger.throttle status s.attempt) :
    Kept (conclude policy s status res random) := by
  obtain ⟨ledger, attempt, ended⟩ := conclude_frame policy s status res random
  have count : s.attempt = s.ended.length + 1 := by simpa [fresh] using kept.count
  have moved : (Unary.conclude policy s status res random).phase ≠ .attempting := by
    unfold Unary.conclude
    dsimp only
    split
    · simp [report]
    · split <;> simp [report]
  refine ⟨?_, ?_, ?_⟩
  · rw [ledger]
    intro charged
    rcases mem_settle charged with old | code
    · exact kept.undebited old
    · exact settle_spared (spared code.symm) code.symm random kept.undebited charged
  · rw [attempt, ended, count, List.length_append]
    split
    · rename_i still
      exact absurd still moved
    · rfl
  · intro i st found ok
    rw [ended] at found
    rcases getElem?_concat found with old | ⟨rfl, rfl⟩
    · exact absurd (kept.last i st old ok).1 (by simp [fresh])
    · exact ⟨Spared.settled (spared ok) res random, by rw [attempt, count]⟩

theorem Kept.step {s t : State} {label : Event × Number} (kept : Kept s)
    (spared : SparedAt policy s label) (h : step policy s label = some t) : Kept t := by
  obtain ⟨event, random⟩ := label
  cases event with
  | resolve res =>
      cases phase : s.phase with
      | attempting =>
          simp only [Unary.step, phase, Option.some.injEq] at h
          subst h
          exact kept.conclude phase (some res) random spared
      | backingOff delay status res => simp only [Unary.step, phase, reduceCtorEq] at h
      | settled => simp only [Unary.step, phase, reduceCtorEq] at h
  | reject reason =>
      cases phase : s.phase with
      | attempting =>
          simp only [Unary.step, phase, Option.some.injEq] at h
          subst h
          refine kept.conclude phase none random fun ok => absurd ok ?_
          unfold errorForFailure statusForAbort
          split
          · split <;> decide
          · simp only [H2ts.Status.unavailable, H2ts.Status.ok]
            decide
      | backingOff delay status res => simp only [Unary.step, phase, reduceCtorEq] at h
      | settled => simp only [Unary.step, phase, reduceCtorEq] at h
  | abort reason =>
      simp only [Unary.step] at h
      split at h
      · cases h
        exact ⟨kept.undebited, kept.count, kept.last⟩
      · rename_i phase _
        cases h
        refine ⟨kept.undebited, ?_, fun i st found ok => ?_⟩
        · simpa [phase, report] using kept.count
        · exact ⟨rfl, (kept.last i st found ok).2⟩
      · cases h
        exact kept
  | elapsed =>
      cases phase : s.phase with
      | backingOff delay status res =>
          simp only [Unary.step, phase, Option.some.injEq] at h
          subst h
          refine ⟨kept.undebited, ?_, fun i st found ok => ?_⟩
          · simpa [phase] using kept.count
          · exact absurd (kept.last i st found ok).1 (by simp [phase])
      | attempting => simp only [Unary.step, phase, reduceCtorEq] at h
      | settled => simp only [Unary.step, phase, reduceCtorEq] at h
  | others throttle =>
      simp only [Unary.step, Option.some.injEq] at h
      subst h
      exact ⟨kept.undebited, kept.count, kept.last⟩

end Unary

namespace Stream
variable {Msg : Type} {policy : Option ResolvedPolicy} {transport : Transport}

/-- `commit` shows the held headers and nothing else. -/
theorem commit_eq (s : State Msg) :
    commit s = { s with
      committed := true
      emitted := s.emitted ++ if s.committed then [] else (s.headers.map Emission.metadata).toList } := by
  unfold commit
  cases committed : s.committed with
  | true => simp [← committed]
  | false => rfl

theorem finish_eq (s : State Msg) (status : StatusResult) :
    finish s status = { s with
      phase := .finished
      committed := true
      emitted := (commit s).emitted ++
        [.status status, if status.code = H2ts.Status.ok then Emission.end else .error status] } := by
  unfold finish
  rw [commit_eq]

/-- What `onStatus` charges: nothing once the call is committed. -/
def bill (policy : Option ResolvedPolicy) (s : State Msg) (status : StatusResult)
    (random : Number) : Ledger :=
  if s.committed then s.ledger else (settle policy s.ledger status s.attempt random).2

theorem onStatus_frame (policy : Option ResolvedPolicy) (s : State Msg) (status : StatusResult)
    (random : Number) :
    (onStatus policy s status random).ledger = bill policy s status random ∧
      (onStatus policy s status random).started = s.started ∧
      (onStatus policy s status random).ended = s.ended ++ [status] := by
  unfold onStatus bill
  dsimp only
  split
  · simp only [finish_eq, and_self]
  · cases settle policy s.ledger status s.attempt random with
    | mk delay ledger =>
        cases delay with
        | none => simp only [finish_eq, and_self]
        | some delay =>
            dsimp only
            split <;> simp only [finish_eq, and_self]

/-- The call is over with this status: it is committed, or not retried, or aborted. -/
def Closing (policy : Option ResolvedPolicy) (s : State Msg) (status : StatusResult) : Prop :=
  s.committed = true ∨ retried policy s.ledger.throttle status s.attempt = false ∨ s.signal ≠ none

theorem onStatus_finished {s : State Msg} {status : StatusResult} (last : Closing policy s status)
    (random : Number) : (onStatus policy s status random).phase = .finished := by
  unfold onStatus
  dsimp only
  cases committed : s.committed with
  | true => simp only [if_true, finish_eq]
  | false =>
      simp only [Bool.false_eq_true, if_false]
      cases decision : settle policy s.ledger status s.attempt random with
      | mk delay ledger =>
          cases delay with
          | none => simp only [finish_eq]
          | some delay =>
              rcases last with shown | last | aborted
              · exact absurd shown (by simp [committed])
              · rw [settle_reported last] at decision
                split at decision
                · cases decision
                · split at decision <;> cases decision
              · simp only [Option.isSome_iff_ne_none.mpr aborted, if_true, finish_eq]

theorem onStatus_backsOff {s : State Msg} {status : StatusResult} (fresh : s.committed = false)
    (again : retried policy s.ledger.throttle status s.attempt = true) (calm : s.signal = none)
    (random : Number) : ∃ delay, (onStatus policy s status random).phase = .backingOff delay status := by
  obtain ⟨delay, decided⟩ := settle_retried again random
  refine ⟨delay, ?_⟩
  unfold onStatus
  simp only [fresh, Bool.false_eq_true, if_false, decided, calm, Option.isSome_none]

theorem step_finished {s t : State Msg} {label : Event Msg × Number} (closed : s.phase = .finished)
    (h : step policy transport s label = some t) : t.phase = .finished ∧ t.started = s.started := by
  obtain ⟨event, random⟩ := label
  cases event <;> simp only [step, closed, Option.some.injEq, reduceCtorEq] at h
  case others =>
    subst h
    exact ⟨rfl, rfl⟩
  all_goals
    subst h
    exact ⟨closed, rfl⟩

theorem run_finished {s t : State Msg} {labels : List (Event Msg × Number)}
    (closed : s.phase = .finished)
    (h : Machine.run (step policy transport) s labels = some t) : t.started = s.started := by
  refine (Machine.run_invariant (I := fun u => u.phase = .finished ∧ u.started = s.started)
    ?_ ⟨closed, rfl⟩ h).2
  intro u label u' kept first
  obtain ⟨stays, same⟩ := step_finished kept.1 first
  exact ⟨stays, same.trans kept.2⟩

/-- The attempt ends with `status`, is the last of the call, and is not held against the
throttle. -/
def Final (policy : Option ResolvedPolicy) (transport : Transport) (s : State Msg)
    (status : StatusResult) (random : Number) : Prop :=
  let ended := onStatus policy s status random
  (∀ labels t, Machine.run (step policy transport) ended labels = some t → t.started = s.started) ∧
    ¬Debited s.ledger ended.ledger

theorem closing_of_spared {s : State Msg} {status : StatusResult}
    (spared : s.committed = true ∨ Spared policy s.signal s.ledger.throttle status s.attempt) :
    Closing policy s status := by
  rcases spared with shown | spared
  · exact .inl shown
  · cases again : retried policy s.ledger.throttle status s.attempt with
    | false => exact .inr (.inl again)
    | true => exact .inr (.inr (spared again).1)

theorem final_iff {s : State Msg} {status : StatusResult} (ok : status.code = H2ts.Status.ok)
    (random : Number) :
    Final policy transport s status random ↔
      (s.committed = true ∨ Spared policy s.signal s.ledger.throttle status s.attempt) := by
  obtain ⟨ledger, started, _⟩ := onStatus_frame policy s status random
  unfold Final
  dsimp only
  rw [ledger]
  constructor
  · rintro ⟨last, free⟩
    cases fresh : s.committed with
    | true => exact .inl rfl
    | false =>
        refine .inr fun again => ⟨fun calm => ?_, not_not.mp fun charged => free ?_⟩
        · obtain ⟨delay, waiting⟩ := onStatus_backsOff fresh again calm random
          have next := last [(.elapsed, random)] (start (onStatus policy s status random))
            (by simp only [Machine.run, step, waiting])
          simp only [start, started] at next
          omega
        · simp only [bill, fresh, Bool.false_eq_true, if_false, debited_settle_iff ok]
          exact ⟨again, charged⟩
  · intro spared
    refine ⟨fun labels t h => ?_, ?_⟩
    · rw [run_finished (onStatus_finished (closing_of_spared spared) random) h, started]
    · unfold bill
      split
      · simp [Debited]
      · rename_i fresh
        rw [debited_settle_iff ok]
        rintro ⟨again, charged⟩
        exact charged ((spared.resolve_left fresh) again).2

/-- Every OK end so far was the end of the last attempt, and none was debited. -/
structure Kept (s : State Msg) : Prop where
  undebited : (H2ts.Status.ok, Charge.debit) ∉ s.ledger.charges
  count : s.started = s.ended.length + if s.phase matches .running _ _ then 1 else 0
  last : ∀ i status, s.ended[i]? = some status → status.code = H2ts.Status.ok →
    s.phase = .finished ∧ s.started = i + 1

theorem Kept.init (signal : Option AbortReason) (throttle : Option Throttle) :
    Kept (init signal throttle : State Msg) where
  undebited := List.not_mem_nil
  count := rfl
  last := fun _ _ found => by cases found

/-- The condition at one step: an attempt that ends with OK here is committed or spared. -/
def SparedAt (policy : Option ResolvedPolicy) (transport : Transport) (s : State Msg)
    (label : Event Msg × Number) : Prop :=
  match s.phase with
  | .running aborted _ => ∀ status ∈ ending transport s.signal aborted label.1,
      status.code = H2ts.Status.ok →
        s.committed = true ∨ Spared policy s.signal s.ledger.throttle status s.attempt
  | _ => True

/-- An attempt that ends with OK was not ended by the signal. -/
theorem signalled_of_ok {s : State Msg} {aborted : Bool} {event : Event Msg}
    {status : StatusResult} (ended : ending transport s.signal aborted event = some status)
    (ok : status.code = H2ts.Status.ok) : signalled s event = s := by
  cases event with
  | abort reason =>
      cases transport <;> cases signal : s.signal <;>
        simp only [ending, signal, Option.some.injEq, reduceCtorEq] at ended
      subst ended
      cases reason <;> exact absurd ok (by decide)
  | _ => rfl

theorem Kept.onStatus {s : State Msg} (kept : Kept s) {aborted leaving : Bool}
    (running : s.phase = .running aborted leaving) {status : StatusResult} (random : Number)
    (spared : status.code = H2ts.Status.ok →
      s.committed = true ∨ Spared policy s.signal s.ledger.throttle status s.attempt) :
    Kept (onStatus policy s status random) := by
  obtain ⟨ledger, started, ended⟩ := onStatus_frame policy s status random
  have count : s.started = s.ended.length + 1 := by simpa [running] using kept.count
  have moved : ∀ aborted leaving,
      (Stream.onStatus policy s status random).phase ≠ .running aborted leaving := by
    intro aborted leaving
    unfold Stream.onStatus
    dsimp only
    split
    · simp [finish_eq]
    · split
      · simp [finish_eq]
      · split <;> simp [finish_eq]
  refine ⟨?_, ?_, ?_⟩
  · rw [ledger]
    unfold bill
    split
    · exact kept.undebited
    · rename_i fresh
      intro charged
      rcases mem_settle charged with old | code
      · exact kept.undebited old
      · exact settle_spared ((spared code.symm).resolve_left fresh) code.symm random
          kept.undebited charged
  · rw [started, ended, count, List.length_append]
    split
    · rename_i still
      exact absurd still (moved _ _)
    · rfl
  · intro i st found ok
    rw [ended] at found
    rcases getElem?_concat found with old | ⟨rfl, rfl⟩
    · exact absurd (kept.last i st old ok).1 (by simp [running])
    · exact ⟨onStatus_finished (closing_of_spared (spared ok)) random, by rw [started, count]⟩

/-- An event that ends nothing leaves the attempt running and the accounts alone; an
aborted attempt stays aborted. -/
theorem proceed_frame {s t : State Msg} {aborted leaving : Bool} {event : Event Msg}
    (running : s.phase = .running aborted leaving)
    (moved : proceed transport s aborted leaving event = some t) :
    (∃ aborted' leaving', t.phase = .running aborted' leaving' ∧ (aborted = true → aborted' = true)) ∧
      t.signal = s.signal ∧ t.ledger = s.ledger ∧ t.started = s.started ∧ t.ended = s.ended := by
  cases event with
  | headers metadata =>
      simp only [proceed] at moved
      split at moved
      · cases moved
      · cases moved
        exact ⟨⟨aborted, leaving, running, id⟩, rfl, rfl, rfl, rfl⟩
  | message message =>
      simp only [proceed, commit_eq] at moved
      split at moved
      · cases moved
      · cases moved
        exact ⟨⟨aborted, _, rfl, id⟩, rfl, rfl, rfl, rfl⟩
  | abort reason =>
      cases moved
      exact ⟨⟨_, leaving, rfl, fun h => by simp [h]⟩, rfl, rfl, rfl, rfl⟩
  | cancel =>
      cases moved
      exact ⟨⟨_, leaving, rfl, fun h => by simp [h]⟩, rfl, rfl, rfl, rfl⟩
  | respond | fail | notice | elapsed | others => cases moved

theorem signalled_eq (s : State Msg) (event : Event Msg) :
    ∃ signal, signalled s event = { s with signal } := by
  cases event with
  | abort reason => exact ⟨_, rfl⟩
  | _ => exact ⟨s.signal, rfl⟩

theorem signalled_phase (s : State Msg) (event : Event Msg) : (signalled s event).phase = s.phase := by
  obtain ⟨signal, same⟩ := signalled_eq s event
  rw [same]

theorem Kept.congr {s t : State Msg} (kept : Kept s) (ledger : t.ledger.charges = s.ledger.charges)
    (started : t.started = s.started) (ended : t.ended = s.ended) {aborted leaving : Bool}
    {aborted' leaving' : Bool} (running : s.phase = .running aborted leaving)
    (still : t.phase = .running aborted' leaving') : Kept t := by
  refine ⟨ledger ▸ kept.undebited, ?_, ?_⟩
  · have count := kept.count
    rw [running] at count
    rw [started, ended, still]
    exact count
  · intro i status found ok
    rw [ended] at found
    exact absurd (kept.last i status found ok).1 (by simp [running])

theorem Kept.step {s t : State Msg} {label : Event Msg × Number} (kept : Kept s)
    (spared : SparedAt policy transport s label)
    (h : step policy transport s label = some t) : Kept t := by
  cases step_move h with
  | others throttle random => exact ⟨kept.undebited, kept.count, kept.last⟩
  | @ends aborted leaving event status random running ended =>
      simp only [SparedAt, running] at spared
      obtain ⟨signal, same⟩ := signalled_eq s event
      have kept' : Kept (signalled s event) := by
        rw [same]
        exact ⟨kept.undebited, kept.count, kept.last⟩
      have running' : (signalled s event).phase = .running aborted leaving := by
        rw [signalled_phase, running]
      refine kept'.onStatus running' random fun ok => ?_
      rw [signalled_of_ok ended ok]
      exact spared status ended ok
  | @proceeds aborted leaving event _ random running goes moved =>
      obtain ⟨⟨a, l, still, _⟩, _, ledger, started, ended⟩ :=
        proceed_frame ((signalled_phase s event).trans running) moved
      obtain ⟨signal, same⟩ := signalled_eq s event
      rw [same] at ledger started ended
      exact kept.congr (congrArg _ ledger) started ended running still
  | elapses random waiting =>
      refine ⟨kept.undebited, ?_, fun i status found ok => ?_⟩
      · have count := kept.count
        rw [waiting] at count
        exact congrArg (· + 1) count
      · exact absurd (kept.last i status found ok).1 (by simp [waiting])
  | gives reason random waiting =>
      have count := kept.count
      simp only [waiting] at count
      rw [finish_eq]
      refine ⟨kept.undebited, count, fun i status found ok => ?_⟩
      exact absurd (kept.last i status found ok).1 (by simp [waiting])
  | misses random waiting => exact kept
  | idles random closed => exact kept

end Stream

/-- When an OK end is the end: in one step, over what may follow it, for both call
paths; and along whole calls. -/
theorem ok_is_final_iff (policy : Option RetryPolicy) :
    (∀ (s : Unary.State) (res : Unary.UnaryResponse) (random : Number),
      res.status.code = H2ts.Status.ok →
        (Unary.Final (policy.map resolvePolicy) s res.status (some res) random ↔
          Spared (policy.map resolvePolicy) s.signal s.ledger.throttle res.status s.attempt)) ∧
    (∀ (Msg : Type) (transport : Stream.Transport) (s : Stream.State Msg) (status : StatusResult)
      (random : Number), status.code = H2ts.Status.ok →
        (Stream.Final (policy.map resolvePolicy) transport s status random ↔
          (s.committed = true ∨
            Spared (policy.map resolvePolicy) s.signal s.ledger.throttle status s.attempt))) ∧
    (∀ (signal : Option AbortReason) (throttle : Option Throttle)
      (labels : List (Unary.Event × Number)) (t : Unary.State),
      Machine.run (Unary.step (policy.map resolvePolicy)) (Unary.init signal throttle) labels = some t →
      Machine.Along (Unary.step (policy.map resolvePolicy)) (Unary.SparedAt (policy.map resolvePolicy))
        (Unary.init signal throttle) labels →
      (H2ts.Status.ok, Charge.debit) ∉ t.ledger.charges ∧
        ∀ i status, t.ended[i]? = some status → status.code = H2ts.Status.ok → t.attempt = i + 1) ∧
    ∀ (Msg : Type) (transport : Stream.Transport) (signal : Option AbortReason)
      (throttle : Option Throttle) (labels : List (Stream.Event Msg × Number)) (t : Stream.State Msg),
      Machine.run (Stream.step (policy.map resolvePolicy) transport) (Stream.init signal throttle)
        labels = some t →
      Machine.Along (Stream.step (policy.map resolvePolicy) transport)
        (Stream.SparedAt (policy.map resolvePolicy) transport) (Stream.init signal throttle) labels →
      (H2ts.Status.ok, Charge.debit) ∉ t.ledger.charges ∧
        ∀ i status, t.ended[i]? = some status → status.code = H2ts.Status.ok → t.started = i + 1 := by
  refine ⟨fun s res random ok => Unary.final_iff ok (some res) random,
    fun Msg transport s status random ok => Stream.final_iff ok random, ?_, ?_⟩
  · intro signal throttle labels t h spared
    have kept := Machine.run_invariant_along (I := Unary.Kept)
      (fun s label s' kept spared first => kept.step spared first)
      (Unary.Kept.init signal throttle) spared h
    exact ⟨kept.undebited, fun i status found ok => (kept.last i status found ok).2⟩
  · intro Msg transport signal throttle labels t h spared
    have kept := Machine.run_invariant_along (I := Stream.Kept)
      (fun s label s' kept spared first => kept.step spared first)
      (Stream.Kept.init signal throttle) spared h
    exact ⟨kept.undebited, fun i status found ok => (kept.last i status found ok).2⟩

/-- OK with `grpc-retry-pushback-ms: 42` in its metadata. -/
def okWithPushback : StatusResult :=
  ⟨H2ts.Status.ok, [], [(pushbackHeader.toList, [.text "42".toList])]⟩

/-- Under the default policy with a full throttle, a unary and a streaming call that
ended with OK and a pushback are retried and debited. -/
theorem ok_with_pushback_is_retried :
    (¬Unary.Final (some (resolvePolicy ⟨none, none, none, none, none⟩))
      (Unary.init none (some (.new ⟨.ofNat 10, .ofNat 1⟩))) okWithPushback
      (some ⟨[], [], okWithPushback⟩) (.ofNat 0)) ∧
    ¬Stream.Final (some (resolvePolicy ⟨none, none, none, none, none⟩)) .ws
      (Stream.init none (some (.new ⟨.ofNat 10, .ofNat 1⟩)) : Stream.State Unit) okWithPushback
      (.ofNat 0) := by
  have again : retried (some (resolvePolicy ⟨none, none, none, none, none⟩))
      (some (.new ⟨.ofNat 10, .ofNat 1⟩)) okWithPushback 1 = true := by decide +kernel
  constructor
  · rw [Unary.final_iff rfl]
    exact fun spared => (spared again).1 rfl
  · rw [Stream.final_iff rfl]
    rintro (shown | spared)
    · cases shown
    · exact (spared again).1 rfl

end GrpcWebnext.NodeClient
