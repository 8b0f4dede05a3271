import GrpcWebnext.NodeClient.OkIsFinal

/-! The commit rule of a server stream that retries, and whose headers the caller is
shown. The headers are held in one variable for all attempts. -/
namespace GrpcWebnext.NodeClient
open Text (Str)
open Js (Number)

namespace Stream
variable {Msg : Type}

/-- What an event does to the headers the current attempt has produced. -/
def Event.own (own : Option Metadata) : Event Msg → Option Metadata
  | .headers metadata => some metadata
  | .elapsed => none
  | _ => own

def Event.last (last : Option Metadata) : Event Msg → Option Metadata
  | .headers metadata => some metadata
  | _ => last

/-- The headers of the last attempt. -/
def ownHeaders (labels : List (Event Msg × Number)) : Option Metadata :=
  labels.foldl (fun own label => label.1.own own) none

/-- The last headers of any attempt. -/
def lastHeaders (labels : List (Event Msg × Number)) : Option Metadata :=
  labels.foldl (fun last label => label.1.last last) none

/-- An attempt shows its headers once, if at all, and before its messages; `fresh` says
that it has shown nothing yet. -/
def Event.order (fresh : Bool) (label : Event Msg × Number) : Option Bool :=
  match label.1 with
  | .headers _ => if fresh then some false else none
  | .message _ => some false
  | .elapsed => some true
  | _ => some fresh

def Orderly (labels : List (Event Msg × Number)) : Prop :=
  (Machine.run Event.order true labels).isSome = true

def Emission.isMetadata : Emission Msg → Bool
  | .metadata _ => true
  | _ => false

section Steps
variable {policy : Option ResolvedPolicy} {transport : Transport}

/-- An attempt that ends either ends the call or is followed by a backoff. -/
theorem onStatus_cases (policy : Option ResolvedPolicy) (s : State Msg) (status : StatusResult)
    (random : Number) :
    (Closing policy s status ∧ ∃ ledger attempt, onStatus policy s status random =
      finish { s with ended := s.ended ++ [status], ledger, attempt } status) ∨
    (s.committed = false ∧ retried policy s.ledger.throttle status s.attempt = true ∧
      s.signal = none ∧ ∃ ledger delay, onStatus policy s status random =
        { s with
          ended := s.ended ++ [status], ledger, attempt := s.attempt + 1
          phase := .backingOff delay status }) := by
  unfold onStatus
  dsimp only
  cases committed : s.committed with
  | true =>
      rw [if_pos rfl]
      exact .inl ⟨.inl committed, s.ledger, s.attempt, rfl⟩
  | false =>
      simp only [Bool.false_eq_true, if_false]
      cases again : retried policy s.ledger.throttle status s.attempt with
      | false =>
          have reported := settle_reported again random
          refine .inl ⟨.inr (.inl again), (settle policy s.ledger status s.attempt random).2, s.attempt, ?_⟩
          cases decision : settle policy s.ledger status s.attempt random with
          | mk delay ledger =>
              cases delay with
              | none => rfl
              | some delay =>
                  rw [decision] at reported
                  split at reported
                  · cases reported
                  · split at reported <;> cases reported
      | true =>
          obtain ⟨delay, decision⟩ := settle_retried again random
          rw [decision]
          cases signal : s.signal with
          | some reason => exact .inl ⟨.inr (.inr (by simp [signal])), _, s.attempt + 1, rfl⟩
          | none => exact .inr ⟨trivial, rfl, rfl, _, delay, rfl⟩

theorem isMetadata_ending (status : StatusResult) :
    [(Emission.status status : Emission Msg),
      if status.code = H2ts.Status.ok then Emission.end else .error status].filter
        Emission.isMetadata = [] := by
  split <;> rfl

/-- A step that shows the running attempt to the caller: its first message, or the status
that ends the call. -/
def Reports (policy : Option ResolvedPolicy) (transport : Transport) (s : State Msg)
    (label : Event Msg × Number) : Prop :=
  match s.phase with
  | .running aborted _ => (∃ message, label.1 = .message message) ∨
      ∃ status, ending transport s.signal aborted label.1 = some status ∧
        Closing policy (signalled s label.1) status
  | .backingOff _ _ => ∃ reason, label.1 = .abort reason
  | .finished => False

/-- What the caller of an orderly call has been shown. -/
structure Heard (labels : List (Event Msg × Number)) (fresh : Bool) (s : State Msg) : Prop where
  headers : s.headers = lastHeaders labels
  own : ownHeaders labels = none ∨ ownHeaders labels = lastHeaders labels
  quiet : s.committed = false → s.emitted = []
  once : s.committed = true → s.emitted.filter Emission.isMetadata = (s.headers.map .metadata).toList
  closed : s.committed = true → s.phase = .finished ∨
    fresh = false ∧ ∃ aborted leaving, s.phase = .running aborted leaving
  data : ∀ attempt message, .data attempt message ∈ s.emitted → attempt = s.started

theorem Heard.init (signal : Option AbortReason) (throttle : Option Throttle) :
    Heard [] true (init signal throttle : State Msg) where
  headers := rfl
  own := .inl rfl
  quiet := fun _ => rfl
  once := fun committed => by cases committed
  closed := fun committed => by cases committed
  data := fun _ _ found => absurd found List.not_mem_nil

theorem Heard.commit {labels : List (Event Msg × Number)} {fresh : Bool} {s : State Msg}
    (heard : Heard labels fresh s) :
    (Stream.commit s).emitted.filter Emission.isMetadata = (s.headers.map .metadata).toList ∧
      ∀ attempt message, .data attempt message ∈ (Stream.commit s).emitted → attempt = s.started := by
  rw [commit_eq]
  cases committed : s.committed with
  | true =>
      simp only [if_true, List.append_nil]
      exact ⟨heard.once committed, heard.data⟩
  | false =>
      rw [heard.quiet committed]
      constructor
      · cases s.headers <;> rfl
      · intro attempt message found
        cases headers : s.headers <;> simp [headers] at found

/-- The end of the call, whatever became of the accounts. -/
theorem Heard.finish {labels : List (Event Msg × Number)} {fresh : Bool} {s : State Msg}
    (heard : Heard labels fresh s) (status : StatusResult) :
    Heard labels fresh (Stream.finish s status) := by
  obtain ⟨once, data⟩ := heard.commit
  rw [finish_eq]
  refine ⟨heard.headers, heard.own, ?_, ?_, fun _ => .inl rfl, ?_⟩
  · intro uncommitted
    cases uncommitted
  · intro _
    rw [List.filter_append, once, isMetadata_ending, List.append_nil]
  · intro attempt message found
    rcases List.mem_append.mp found with old | new
    · exact data attempt message old
    · rcases List.mem_pair.mp new with status | outcome
      · cases status
      · split at outcome <;> cases outcome

theorem ownHeaders_concat (labels : List (Event Msg × Number)) (label : Event Msg × Number) :
    ownHeaders (labels ++ [label]) = label.1.own (ownHeaders labels) := by
  simp [ownHeaders]

theorem lastHeaders_concat (labels : List (Event Msg × Number)) (label : Event Msg × Number) :
    lastHeaders (labels ++ [label]) = label.1.last (lastHeaders labels) := by
  simp [lastHeaders]

/-- A label without headers in an attempt that goes on. -/
theorem Heard.silent {labels : List (Event Msg × Number)} {fresh : Bool} {s : State Msg}
    {label : Event Msg × Number} (heard : Heard labels fresh s) (own : ∀ h, label.1.own h = h)
    (last : ∀ h, label.1.last h = h) : Heard (labels ++ [label]) fresh s := by
  refine ⟨?_, ?_, heard.quiet, heard.once, heard.closed, heard.data⟩
  · rw [lastHeaders_concat, last]
    exact heard.headers
  · rw [ownHeaders_concat, lastHeaders_concat, own, last]
    exact heard.own

/-- What the caller was shown does not depend on the accounts, the signal or the clock. -/
theorem Heard.congr {labels : List (Event Msg × Number)} {fresh : Bool} {s t : State Msg}
    (heard : Heard labels fresh s) (headers : t.headers = s.headers)
    (committed : t.committed = s.committed) (emitted : t.emitted = s.emitted)
    (started : t.started = s.started)
    (closed : t.committed = true → t.phase = .finished ∨
      fresh = false ∧ ∃ aborted leaving, t.phase = .running aborted leaving) : Heard labels fresh t := by
  refine ⟨headers ▸ heard.headers, heard.own, ?_, ?_, closed, ?_⟩
  · intro uncommitted
    rw [emitted]
    exact heard.quiet (committed ▸ uncommitted)
  · intro shown
    rw [emitted, headers]
    exact heard.once (committed ▸ shown)
  · rw [emitted, started]
    exact heard.data

theorem Heard.signalled {labels : List (Event Msg × Number)} {fresh : Bool} {s : State Msg}
    (heard : Heard labels fresh s) (event : Event Msg) : Heard labels fresh (signalled s event) := by
  obtain ⟨signal, same⟩ := signalled_eq s event
  rw [same]
  exact heard.congr rfl rfl rfl rfl heard.closed

theorem Heard.onStatus {labels : List (Event Msg × Number)} {fresh : Bool} {s : State Msg}
    (heard : Heard labels fresh s) (policy : Option ResolvedPolicy) (status : StatusResult)
    (random : Number) : Heard labels fresh (onStatus policy s status random) := by
  rcases onStatus_cases policy s status random with
    ⟨_, ledger, attempt, ends⟩ | ⟨uncommitted, _, _, ledger, delay, backs⟩
  · rw [ends]
    have settled : Heard labels fresh { s with ended := s.ended ++ [status], ledger, attempt } :=
      heard.congr rfl rfl rfl rfl heard.closed
    exact settled.finish status
  · rw [backs]
    exact heard.congr rfl rfl rfl rfl fun shown => absurd (uncommitted.symm.trans shown) Bool.false_ne_true

theorem Heard.proceed {labels : List (Event Msg × Number)} {fresh fresh' : Bool} {s t : State Msg}
    (heard : Heard labels fresh s) {aborted leaving : Bool} (running : s.phase = .running aborted leaving)
    {event : Event Msg} {random : Number} (order : Event.order fresh (event, random) = some fresh')
    (moved : proceed transport s aborted leaving event = some t) :
    Heard (labels ++ [(event, random)]) fresh' t := by
  cases event with
  | headers metadata =>
      simp only [Stream.proceed] at moved
      split at moved
      · cases moved
      · cases moved
        -- the caller has been shown nothing, or the order would be broken
        have early : fresh = true ∧ fresh' = false := by
          simp only [Event.order, Option.ite_none_right_eq_some, Option.some.injEq] at order
          exact ⟨order.1, order.2.symm⟩
        have uncommitted : s.committed = false := by
          by_contra shown
          rcases heard.closed (by simpa using shown) with finished | ⟨late, _⟩
          · rw [running] at finished
            cases finished
          · rw [early.1] at late
            cases late
        refine ⟨?_, .inr ?_, heard.quiet, ?_, ?_, heard.data⟩
        · rw [lastHeaders_concat]
          rfl
        · rw [lastHeaders_concat, ownHeaders_concat]
          rfl
        · exact fun shown => absurd (uncommitted.symm.trans shown) Bool.false_ne_true
        · exact fun shown => absurd (uncommitted.symm.trans shown) Bool.false_ne_true
  | message message =>
      obtain ⟨once, data⟩ := heard.commit
      simp only [Stream.proceed] at moved
      split at moved
      · cases moved
      · cases moved
        cases order
        have kept : (Stream.commit s).headers = s.headers ∧ (Stream.commit s).started = s.started ∧
            (Stream.commit s).committed = true := by
          rw [commit_eq]
          exact ⟨rfl, rfl, rfl⟩
        refine Heard.silent ⟨kept.1.trans heard.headers, heard.own, ?_, ?_, fun _ =>
          .inr ⟨rfl, aborted, _, rfl⟩, ?_⟩
          (fun _ => rfl) fun _ => rfl
        · exact fun uncommitted => absurd (uncommitted.symm.trans kept.2.2) Bool.false_ne_true
        · intro _
          rw [List.filter_append, once, kept.1]
          simp [Emission.isMetadata]
        · intro attempt content found
          rw [kept.2.1]
          rcases List.mem_append.mp found with old | new
          · exact data attempt content old
          · cases List.mem_singleton.mp new
            exact kept.2.1
  | abort | cancel =>
      cases moved
      cases order
      refine Heard.silent (heard.congr rfl rfl rfl rfl fun shown => ?_) (fun _ => rfl) fun _ => rfl
      rcases heard.closed shown with finished | ⟨late, _⟩
      · rw [running] at finished
        cases finished
      · exact .inr ⟨late, _, _, rfl⟩
  | respond | fail | notice | elapsed | others => cases moved

/-- Of the events that end an attempt none brings headers or a message. -/
theorem ending_silent {signal : Option AbortReason} {aborted : Bool} {event : Event Msg}
    {status : StatusResult} (ended : ending transport signal aborted event = some status) :
    (∀ h, event.own h = h) ∧ (∀ h, event.last h = h) ∧
      ∀ fresh (random : Number), Event.order fresh (event, random) = some fresh := by
  cases event with
  | headers | message | elapsed | others => cases ended
  | respond | fail | abort | notice | cancel => exact ⟨fun _ => rfl, fun _ => rfl, fun _ _ => rfl⟩

theorem Heard.step {labels : List (Event Msg × Number)} {fresh fresh' : Bool} {s t : State Msg}
    {label : Event Msg × Number} (heard : Heard labels fresh s)
    (order : Event.order fresh label = some fresh') (h : step policy transport s label = some t) :
    Heard (labels ++ [label]) fresh' t := by
  have move := step_move h
  cases move with
  | others throttle random =>
      cases order
      exact Heard.silent (heard.congr rfl rfl rfl rfl heard.closed) (fun _ => rfl) fun _ => rfl
  | @ends aborted leaving event status random running ended =>
      obtain ⟨own, last, stays⟩ := ending_silent ended
      rw [stays] at order
      cases order
      exact ((heard.signalled event).onStatus policy status random).silent own last
  | @proceeds aborted leaving event _ random running goes moved =>
      exact (heard.signalled event).proceed ((signalled_phase s event).trans running) order moved
  | elapses random waiting =>
      cases order
      have uncommitted : s.committed = false := by
        by_contra shown
        rcases heard.closed (by simpa using shown) with finished | ⟨_, _, _, running⟩
        · rw [waiting] at finished
          cases finished
        · rw [waiting] at running
          cases running
      have absurdity : s.committed = true → False := fun shown =>
        absurd (uncommitted.symm.trans shown) Bool.false_ne_true
      refine ⟨?_, .inl ?_, heard.quiet, fun shown => (absurdity shown).elim,
        fun shown => (absurdity shown).elim, ?_⟩
      · rw [lastHeaders_concat]
        exact heard.headers
      · rw [ownHeaders_concat]
        rfl
      · intro attempt message found
        rw [start, heard.quiet uncommitted] at found
        cases found
  | gives reason random waiting =>
      cases order
      exact ((heard.signalled _).finish _).silent (fun _ => rfl) fun _ => rfl
  | misses random waiting =>
      cases order
      exact heard.silent (fun _ => rfl) fun _ => rfl
  | @idles event random closed =>
      cases event <;> simp only [Stream.step, closed, reduceCtorEq] at h
      all_goals
        cases order
        exact heard.silent (fun _ => rfl) fun _ => rfl

theorem heard_of_run {signal : Option AbortReason} {throttle : Option Throttle}
    (labels : List (Event Msg × Number)) {fresh : Bool} {s : State Msg}
    (order : Machine.run Event.order true labels = some fresh)
    (h : Machine.run (step policy transport) (Stream.init signal throttle) labels = some s) :
    Heard labels fresh s := by
  induction labels using List.reverseRecOn generalizing fresh s with
  | nil =>
      cases order
      cases h
      exact .init signal throttle
  | append_singleton labels label ih =>
      obtain ⟨before, front, ordered⟩ := Machine.run_concat_inv order
      obtain ⟨s', earlier, moved⟩ := Machine.run_concat_inv h
      exact (ih front earlier).step ordered moved

/-- What was shown stays shown, and the commit stands. -/
theorem step_shown {s t : State Msg} {label : Event Msg × Number}
    (h : step policy transport s label = some t) :
    s.emitted <+: t.emitted ∧ (s.committed = true → t.committed = true) := by
  have finishes : ∀ (u : State Msg) (status : StatusResult), u.emitted = s.emitted →
      s.emitted <+: (finish u status).emitted := by
    intro u status same
    rw [finish_eq, commit_eq, List.append_assoc, ← same]
    exact List.prefix_append _ _
  cases step_move h with
  | others throttle random => exact ⟨List.prefix_rfl, id⟩
  | @ends aborted leaving event status random running ended =>
      obtain ⟨signal, same⟩ := signalled_eq s event
      rw [same]
      rcases onStatus_cases policy { s with signal } status random with
        ⟨_, ledger, attempt, ends⟩ | ⟨_, _, _, ledger, delay, backs⟩
      · rw [ends]
        exact ⟨finishes _ status rfl, fun _ => by rw [finish_eq]⟩
      · rw [backs]
        exact ⟨List.prefix_rfl, id⟩
  | @proceeds aborted leaving event _ random running goes moved =>
      obtain ⟨signal, same⟩ := signalled_eq s event
      rw [same] at moved
      cases event with
      | message message =>
          simp only [proceed, commit_eq] at moved
          split at moved
          · cases moved
          · cases moved
            rw [List.append_assoc]
            exact ⟨List.prefix_append _ _, fun _ => rfl⟩
      | headers metadata =>
          simp only [proceed] at moved
          split at moved
          · cases moved
          · cases moved
            exact ⟨List.prefix_rfl, id⟩
      | abort | cancel =>
          cases moved
          exact ⟨List.prefix_rfl, id⟩
      | respond | fail | notice | elapsed | others => cases moved
  | elapses random waiting => exact ⟨List.prefix_rfl, id⟩
  | gives reason random waiting => exact ⟨finishes _ _ rfl, fun _ => by rw [finish_eq]⟩
  | misses random waiting => exact ⟨List.prefix_rfl, id⟩
  | idles random closed => exact ⟨List.prefix_rfl, id⟩

/-- A step commits the call exactly when it reports the attempt. -/
theorem reports_iff {s t : State Msg} {label : Event Msg × Number} (uncommitted : s.committed = false)
    (h : step policy transport s label = some t) :
    Reports policy transport s label ↔ t.committed = true := by
  unfold Reports
  cases step_move h with
  | others throttle random =>
      rw [uncommitted]
      cases s.phase <;> simp [ending]
  | @ends aborted leaving event status random running ended =>
      have silent : ¬ ∃ message, event = .message message := by
        rintro ⟨message, rfl⟩
        cases ended
      simp only [running, silent, false_or, ended, Option.some.injEq, exists_eq_left']
      rcases onStatus_cases policy (signalled s event) status random with
        ⟨closing, ledger, attempt, ends⟩ | ⟨quiet, again, calm, ledger, delay, backs⟩
      · rw [ends, finish_eq]
        exact iff_of_true closing rfl
      · rw [backs]
        refine iff_of_false ?_ (by simp [quiet])
        rintro (shown | last | aborted)
        · exact absurd (quiet.symm.trans shown) Bool.false_ne_true
        · exact absurd (again.symm.trans last) (by decide)
        · exact aborted calm
  | @proceeds aborted leaving event _ random running goes moved =>
      simp only [running, goes, reduceCtorEq, false_and, exists_false, or_false]
      obtain ⟨signal, same⟩ := signalled_eq s event
      rw [same] at moved
      cases event with
      | message message =>
          simp only [proceed, commit_eq] at moved
          split at moved
          · cases moved
          · cases moved
            exact iff_of_true ⟨message, rfl⟩ rfl
      | headers metadata =>
          simp only [proceed] at moved
          split at moved
          · cases moved
          · cases moved
            simp [uncommitted]
      | abort | cancel =>
          cases moved
          simp [uncommitted]
      | respond | fail | notice | elapsed | others => cases moved
  | elapses random waiting =>
      rw [waiting]
      simp [start, uncommitted]
  | gives reason random waiting =>
      rw [waiting, finish_eq]
      exact iff_of_true ⟨reason, rfl⟩ rfl
  | misses random waiting =>
      rw [waiting]
      simp [uncommitted]
  | idles random closed =>
      rw [closed]
      simp [uncommitted]

/-- Whenever an attempt without headers of its own is first shown to the caller, no
earlier attempt has produced headers. -/
def HeadersOwn (policy : Option ResolvedPolicy) (transport : Transport) (start : State Msg)
    (labels : List (Event Msg × Number)) : Prop :=
  ∀ before label after s, labels = before ++ label :: after →
    Machine.run (step policy transport) start before = some s → s.committed = false →
    Reports policy transport s label → ownHeaders before = none → lastHeaders before = none

theorem headersOwn_concat {start s : State Msg} {labels : List (Event Msg × Number)}
    {label : Event Msg × Number} (h : Machine.run (step policy transport) start labels = some s) :
    HeadersOwn policy transport start (labels ++ [label]) ↔
      HeadersOwn policy transport start labels ∧
        (s.committed = false → Reports policy transport s label → ownHeaders labels = none →
          lastHeaders labels = none) := by
  constructor
  · intro all
    refine ⟨fun before next after u split => ?_, all labels label [] s rfl h⟩
    refine all before next (after ++ [label]) u ?_
    rw [split, List.append_assoc, List.cons_append]
  · rintro ⟨earlier, now⟩ before next after u split ran
    rcases List.eq_nil_or_concat after with rfl | ⟨front, final, rfl⟩
    · obtain ⟨rfl, same⟩ := List.append_inj' split rfl
      cases same
      cases h.symm.trans ran
      exact now
    · have shorter : labels = before ++ next :: front := by
        rw [List.concat_eq_append, ← List.cons_append, ← List.append_assoc] at split
        exact (List.append_inj' split rfl).1
      exact earlier before next front u shorter ran

/-- Once the call is committed, no headers come and no attempt starts. -/
theorem Heard.settled {labels : List (Event Msg × Number)} {fresh fresh' : Bool} {s t : State Msg}
    {label : Event Msg × Number} (heard : Heard labels fresh s)
    (order : Event.order fresh label = some fresh') (h : Stream.step policy transport s label = some t)
    (shown : t.committed = true) :
    ownHeaders (labels ++ [label]) = ownHeaders labels ∧
      lastHeaders (labels ++ [label]) = lastHeaders labels := by
  rw [ownHeaders_concat, lastHeaders_concat]
  obtain ⟨event, random⟩ := label
  cases phase : s.phase with
  | finished =>
      cases event <;> simp only [Stream.step, phase, reduceCtorEq] at h
      all_goals exact ⟨rfl, rfl⟩
  | backingOff delay status =>
      cases event with
      | elapsed =>
          simp only [Stream.step, phase, Option.some.injEq] at h
          subst h
          rcases heard.closed shown with finished | ⟨_, _, _, running⟩
          · rw [phase] at finished
            cases finished
          · rw [phase] at running
            cases running
      | headers => simp only [Stream.step, phase, reduceCtorEq] at h
      | message | respond | fail | abort | notice | cancel | others => exact ⟨rfl, rfl⟩
  | running aborted leaving =>
      cases event with
      | headers metadata =>
          simp only [Stream.step, phase, ending, Stream.signalled, Stream.proceed] at h
          split at h
          · cases h
          · cases h
            rcases heard.closed shown with finished | ⟨late, _⟩
            · rw [phase] at finished
              cases finished
            · rw [late] at order
              cases order
      | elapsed => simp only [Stream.step, phase, ending, Stream.proceed, reduceCtorEq] at h
      | message | respond | fail | abort | notice | cancel | others => exact ⟨rfl, rfl⟩

theorem headersOwn_iff {signal : Option AbortReason} {throttle : Option Throttle}
    (labels : List (Event Msg × Number)) {fresh : Bool} {s : State Msg}
    (order : Machine.run Event.order true labels = some fresh)
    (h : Machine.run (step policy transport) (Stream.init signal throttle) labels = some s) :
    HeadersOwn policy transport (Stream.init signal throttle) labels ↔
      (s.committed = true → ownHeaders labels = none → lastHeaders labels = none) := by
  induction labels using List.reverseRecOn generalizing fresh s with
  | nil =>
      cases h
      refine iff_of_true ?_ fun _ _ => rfl
      intro before label after u split
      simp at split
  | append_singleton labels label ih =>
      obtain ⟨before, front, ordered⟩ := Machine.run_concat_inv order
      obtain ⟨s', earlier, moved⟩ := Machine.run_concat_inv h
      have heard := heard_of_run labels front earlier
      rw [headersOwn_concat earlier, ih front earlier]
      cases uncommitted : s'.committed with
      | true =>
          have shown : s.committed = true := (step_shown moved).2 uncommitted
          obtain ⟨own, last⟩ := heard.settled ordered moved shown
          rw [own, last]
          simp [shown]
      | false =>
          rw [reports_iff uncommitted moved]
          constructor
          · rintro ⟨_, now⟩ shown
            obtain ⟨own, last⟩ := heard.settled ordered moved shown
            rw [own, last]
            exact now rfl shown
          · intro now
            refine ⟨fun absurdity => (by cases absurdity), fun _ shown => ?_⟩
            obtain ⟨own, last⟩ := heard.settled ordered moved shown
            rw [own, last] at now
            exact now shown

theorem proceed_attempt {s t : State Msg} {aborted leaving : Bool} {event : Event Msg}
    (moved : proceed transport s aborted leaving event = some t) : t.attempt = s.attempt := by
  cases event with
  | headers | message =>
      simp only [proceed, commit_eq] at moved
      split at moved
      · cases moved
      · cases moved
        rfl
  | abort | cancel =>
      cases moved
      rfl
  | respond | fail | notice | elapsed | others => cases moved

/-- The count of the attempts stays within the bound, and within it with the next one. -/
structure Counted (bound : Number) (s : State Msg) : Prop where
  within : bound.ge (.ofNat s.started) = true
  current : ∀ aborted leaving, s.phase = .running aborted leaving → s.attempt = s.started
  next : ∀ delay status, s.phase = .backingOff delay status →
    s.attempt = s.started + 1 ∧ bound.ge (.ofNat s.attempt) = true

theorem Counted.congr {bound : Number} {s t : State Msg} (counted : Counted bound s)
    (started : t.started = s.started) (attempt : t.attempt = s.attempt)
    (phase : (∃ aborted leaving aborted' leaving', s.phase = .running aborted leaving ∧
      t.phase = .running aborted' leaving') ∨ t.phase = s.phase) : Counted bound t := by
  refine ⟨started ▸ counted.within, ?_, ?_⟩
  · intro aborted leaving running
    rw [started, attempt]
    rcases phase with ⟨_, _, _, _, before, _⟩ | same
    · exact counted.current _ _ before
    · exact counted.current _ _ (same ▸ running)
  · intro delay status waiting
    rw [started, attempt]
    rcases phase with ⟨_, _, _, _, _, after⟩ | same
    · rw [waiting] at after
      cases after
    · exact counted.next _ _ (same ▸ waiting)

theorem Counted.finished {bound : Number} {s t : State Msg} (counted : Counted bound s)
    (started : t.started = s.started) (finished : t.phase = .finished) : Counted bound t := by
  refine ⟨started ▸ counted.within, ?_, ?_⟩
  · intro aborted leaving running
    rw [finished] at running
    cases running
  · intro delay status waiting
    rw [finished] at waiting
    cases waiting

theorem below_of_retried {p : ResolvedPolicy} {throttle : Option Throttle} {status : StatusResult}
    {attempt : Nat} (number : p.maxAttempts ≠ .nan)
    (again : retried (some p) throttle status attempt = true) :
    (Number.ofNat attempt).lt p.maxAttempts = true := by
  simp only [retried, Option.any_some, Bool.and_eq_true] at again
  have repeated := again.1
  unfold repeats at repeated
  split at repeated
  · cases repeated
  · simpa [Number.ge, Number.ofNat, number] using repeated
  · simp only [retryable, Bool.and_eq_true] at repeated
    exact repeated.1

theorem Counted.step {p : ResolvedPolicy} (whole : p.maxAttempts.Whole) {s t : State Msg}
    {label : Event Msg × Number} (counted : Counted p.maxAttempts s)
    (h : Stream.step (some p) transport s label = some t) : Counted p.maxAttempts t := by
  cases step_move h with
  | others throttle random => exact counted.congr rfl rfl (.inr rfl)
  | @ends aborted leaving event status random running ended =>
      obtain ⟨signal, same⟩ := signalled_eq s event
      rw [same]
      rcases onStatus_cases (some p) { s with signal } status random with
        ⟨_, ledger, attempt, ends⟩ | ⟨_, again, _, ledger, delay, backs⟩
      · rw [ends, finish_eq]
        exact counted.finished rfl rfl
      · have current := counted.current aborted leaving running
        have below := below_of_retried whole.ne_nan again
        rw [backs]
        refine ⟨counted.within, ?_, ?_⟩
        · intro aborted leaving running
          cases running
        · intro delay status waiting
          exact ⟨congrArg (· + 1) current, whole.ge_succ below⟩
  | @proceeds aborted leaving event _ random running goes moved =>
      obtain ⟨⟨aborted', leaving', still, _⟩, _, _, started, _⟩ :=
        proceed_frame ((signalled_phase s event).trans running) moved
      obtain ⟨signal, same⟩ := signalled_eq s event
      have attempt := proceed_attempt moved
      rw [same] at started attempt
      exact counted.congr started attempt (.inl ⟨_, _, _, _, running, still⟩)
  | elapses random waiting =>
      obtain ⟨next, within⟩ := counted.next _ _ waiting
      refine ⟨?_, ?_, ?_⟩
      · rw [next] at within
        exact within
      · exact fun _ _ _ => next
      · intro delay status waiting
        cases waiting
  | gives reason random waiting =>
      rw [finish_eq]
      exact counted.finished rfl rfl
  | misses random waiting => exact counted
  | idles random closed => exact counted

theorem counted_of_run {p : RetryPolicy} (number : p.maxAttempts ≠ some .nan)
    {signal : Option AbortReason} {throttle : Option Throttle} {labels : List (Event Msg × Number)}
    {s : State Msg}
    (h : Machine.run (step (some (resolvePolicy p)) transport)
      (Stream.init signal throttle) labels = some s) :
    Counted (resolvePolicy p).maxAttempts s := by
  have given : p.maxAttempts.getD (.ofNat 5) ≠ .nan := by
    cases chosen : p.maxAttempts with
    | none => exact fun absurdity => by cases absurdity
    | some bound => exact fun nan => number (chosen.trans (congrArg some nan))
  obtain ⟨whole, one⟩ := Number.whole_max_floor given
  have first : Counted (resolvePolicy p).maxAttempts (Stream.init signal throttle : State Msg) :=
    ⟨one, fun _ _ _ => rfl, fun _ _ waiting => by cases waiting⟩
  exact Machine.run_invariant (I := Counted (resolvePolicy p).maxAttempts)
    (fun s label t counted moved => counted.step whole moved) first h

theorem run_emitted {s t : State Msg} {labels : List (Event Msg × Number)}
    (h : Machine.run (step policy transport) s labels = some t) : s.emitted <+: t.emitted :=
  Machine.run_invariant (I := fun u => s.emitted <+: u.emitted)
    (fun _ _ _ before moved => before.trans (step_shown moved).1) List.prefix_rfl h

end Steps

/-- The caller is shown one attempt: its messages, its headers at most once, and no
attempt starts after a message. -/
structure OneAttempt (policy : ResolvedPolicy) (transport : Transport) (start : State Msg)
    (labels : List (Event Msg × Number)) (s : State Msg) : Prop where
  single : ∀ attempt message, .data attempt message ∈ s.emitted → attempt = s.started
  final : ∀ before after u attempt message, labels = before ++ after →
    Machine.run (step (some policy) transport) start before = some u →
    .data attempt message ∈ u.emitted → s.started = u.started
  within : policy.maxAttempts.ge (.ofNat s.started) = true
  once : (s.emitted.filter Emission.isMetadata).length ≤ 1
  own : ∀ metadata, .metadata metadata ∈ s.emitted → ownHeaders labels = some metadata

/-- An orderly call with a retry policy shows one attempt exactly when its bound is a
number and no attempt without headers is shown after one with headers. -/
theorem one_attempt_iff (p : RetryPolicy) (transport : Transport) (signal : Option AbortReason)
    (throttle : Option Throttle) (labels : List (Event Msg × Number)) (s : State Msg)
    (h : Machine.run (step (some (resolvePolicy p)) transport) (init signal throttle) labels = some s)
    (orderly : Orderly labels) :
    OneAttempt (resolvePolicy p) transport (init signal throttle) labels s ↔
      p.maxAttempts ≠ some .nan ∧
        HeadersOwn (some (resolvePolicy p)) transport (init signal throttle) labels := by
  obtain ⟨fresh, order⟩ := Option.isSome_iff_exists.mp orderly
  have heard := heard_of_run labels order h
  rw [headersOwn_iff labels order h]
  constructor
  · intro shown
    constructor
    · intro nan
      have within := shown.within
      rw [resolvePolicy, nan] at within
      cases within
    · intro committed silent
      have once := heard.once committed
      rw [← heard.headers]
      cases held : s.headers with
      | none => rfl
      | some metadata =>
          have emitted : .metadata metadata ∈ s.emitted := by
            have inside : .metadata metadata ∈ s.emitted.filter Emission.isMetadata := by
              rw [once, held]
              exact List.mem_singleton_self _
            exact List.mem_of_mem_filter inside
          exact absurd (silent.symm.trans (shown.own metadata emitted)) (by simp)
  · rintro ⟨number, fresher⟩
    refine ⟨heard.data, ?_, (counted_of_run number h).within, ?_, ?_⟩
    · intro before after u attempt message split ran data
      subst split
      obtain ⟨front, ordered⟩ : ∃ front, Machine.run Event.order true before = some front := by
        rw [Machine.run_append] at order
        obtain ⟨front, ordered, _⟩ := Option.bind_eq_some_iff.mp order
        exact ⟨front, ordered⟩
      have rest : Machine.run (step (some (resolvePolicy p)) transport) u after = some s := by
        rw [Machine.run_append, ran, Option.bind_some] at h
        exact h
      have earlier := (heard_of_run before ordered ran).data attempt message data
      have now := heard.data attempt message ((run_emitted rest).subset data)
      rw [← earlier, ← now]
    · cases committed : s.committed with
      | true =>
          rw [heard.once committed]
          cases s.headers <;> simp
      | false => simp [heard.quiet committed]
    · intro metadata emitted
      have committed : s.committed = true := by
        by_contra uncommitted
        rw [heard.quiet (by simpa using uncommitted)] at emitted
        cases emitted
      have last : lastHeaders labels = some metadata := by
        have inside : .metadata metadata ∈ s.emitted.filter Emission.isMetadata :=
          List.mem_filter.mpr ⟨emitted, rfl⟩
        rw [heard.once committed, heard.headers] at inside
        cases found : lastHeaders labels with
        | none => simp [found] at inside
        | some held =>
            rw [found] at inside
            cases List.mem_singleton.mp inside
            rfl
      rcases heard.own with none | same
      · rw [fresher committed none] at last
        cases last
      · exact same.trans last

def unavailableAttempt : StatusResult := ⟨H2ts.Status.unavailable, [], []⟩

/-- An attempt that brings headers and is retried. -/
def retriedWithHeaders : List (Event Nat × Number) :=
  [(.headers [("attempt".toList, [.text "1".toList])], .ofNat 0),
    (.respond unavailableAttempt, .ofNat 0), (.elapsed, .ofNat 0)]

/-- The next one brings its own headers, a message and OK. -/
def answeredAgain : List (Event Nat × Number) :=
  retriedWithHeaders ++ [(.headers [("attempt".toList, [.text "2".toList])], .ofNat 0),
    (.message 7, .ofNat 0), (.respond ⟨H2ts.Status.ok, [], []⟩, .ofNat 0)]

theorem answered_again_shows_one :
    ∃ s, Machine.run (step (some (resolvePolicy ⟨none, none, none, none, none⟩)) .h2ts)
        (init none none : State Nat) answeredAgain = some s ∧
      s.emitted = [.metadata [("attempt".toList, [.text "2".toList])], .data 2 7,
        .status ⟨H2ts.Status.ok, [], []⟩, .end] ∧
      OneAttempt (resolvePolicy ⟨none, none, none, none, none⟩) .h2ts (init none none) answeredAgain s := by
  have ends : ((Machine.run (step (some (resolvePolicy ⟨none, none, none, none, none⟩)) .h2ts)
      (init none none : State Nat) answeredAgain).map State.emitted) =
        some [.metadata [("attempt".toList, [.text "2".toList])], .data 2 7,
          .status ⟨H2ts.Status.ok, [], []⟩, .end] := by
    decide +kernel
  obtain ⟨s, ran, emitted⟩ := Option.map_eq_some_iff.mp ends
  have orderly : Orderly answeredAgain := rfl
  obtain ⟨fresh, order⟩ := Option.isSome_iff_exists.mp orderly
  refine ⟨s, ran, emitted, (one_attempt_iff _ .h2ts none none answeredAgain s ran orderly).mpr
    ⟨fun nan => (by cases nan), (headersOwn_iff answeredAgain order ran).mpr fun _ silent => ?_⟩⟩
  exact absurd silent (by decide +kernel)

/-- The next one ends with UNKNOWN and has no headers. -/
def refusedAgain : List (Event Nat × Number) :=
  retriedWithHeaders ++ [(.respond ⟨H2ts.Status.unknown, [], []⟩, .ofNat 0)]

/-- The headers of the retried attempt are shown with the status of the next, on a socket whose
server answers with nothing but a Trailer. -/
theorem stale_headers_shown :
    Orderly refusedAgain ∧ ownHeaders refusedAgain = none ∧
    (Machine.run (step (some (resolvePolicy ⟨none, none, none, none, none⟩)) .ws)
      (init none none : State Nat) refusedAgain).map State.emitted =
        some [.metadata [("attempt".toList, [.text "1".toList])],
          .status ⟨H2ts.Status.unknown, [], []⟩, .error ⟨H2ts.Status.unknown, [], []⟩] ∧
    ¬ ∀ (p : RetryPolicy) (transport : Transport) (labels : List (Event Nat × Number)) (s : State Nat),
      Machine.run (step (some (resolvePolicy p)) transport) (init none none) labels = some s →
      Orderly labels → OneAttempt (resolvePolicy p) transport (init none none) labels s := by
  have orderly : Orderly refusedAgain := rfl
  have silent : ownHeaders refusedAgain = none := by decide +kernel
  have ends : (Machine.run (step (some (resolvePolicy ⟨none, none, none, none, none⟩)) .ws)
      (init none none : State Nat) refusedAgain).map State.emitted =
        some [.metadata [("attempt".toList, [.text "1".toList])],
          .status ⟨H2ts.Status.unknown, [], []⟩, .error ⟨H2ts.Status.unknown, [], []⟩] := by
    decide +kernel
  refine ⟨orderly, silent, ends, fun all => ?_⟩
  obtain ⟨s, ran, emitted⟩ := Option.map_eq_some_iff.mp ends
  have shown := (all _ _ _ s ran orderly).own [("attempt".toList, [.text "1".toList])]
    (by rw [emitted]; exact List.mem_cons_self)
  rw [silent] at shown
  cases shown

end Stream
end GrpcWebnext.NodeClient
