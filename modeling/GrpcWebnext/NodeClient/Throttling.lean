import GrpcWebnext.Library.TokenBucket
import GrpcWebnext.NodeClient.Calls
import Mathlib.Algebra.Order.BigOperators.Group.List

/-! The calls of one client over its throttle. A call takes its step with the tokens the
others have left, and leaves its own behind. -/
namespace GrpcWebnext.NodeClient
open Js (Number)
open TokenBucket (Op)
variable {Msg : Type}

def credits (ledger : Ledger) : Nat := (ledger.charges.filter fun charge => charge.2 = .credit).length

namespace Unary

/-- The retries that were started. -/
def State.retries (s : State) : Nat := s.attempt - 1

/-- The retries that were started or are waited for. -/
def State.pledged (s : State) : Nat :=
  s.retries + match s.phase with
    | .backingOff _ _ _ => 1
    | _ => 0

def Event.isOthers : Event → Bool
  | .others _ => true
  | _ => false

end Unary

namespace Stream

def State.retries (s : State Msg) : Nat := s.started - 1

def State.pledged (s : State Msg) : Nat :=
  s.retries + match s.phase with
    | .backingOff _ _ => 1
    | _ => 0

def Event.isOthers : Event Msg → Bool
  | .others _ => true
  | _ => false

end Stream

/-- The throttle of a client and its calls so far. -/
structure Pool (Msg : Type) where
  throttle : Throttle
  unary : List Unary.State
  streams : List (Stream.State Msg)

namespace Pool

def init (config : RetryThrottling) : Pool Msg := ⟨.new config, [], []⟩

inductive Label (Msg : Type) where
  | makeUnaryRequest (signal : Option AbortReason)
  | makeServerStreamRequest (signal : Option AbortReason)
  | unary (call : Nat) (event : Unary.Event) (random : Number)
  | stream (call : Nat) (event : Stream.Event Msg) (random : Number)

/-- What the other calls do to the throttle is what they do here. -/
def step (policy : Option ResolvedPolicy) (transport : Stream.Transport) (p : Pool Msg) :
    Label Msg → Option (Pool Msg)
  | .makeUnaryRequest signal => some { p with unary := p.unary ++ [Unary.init signal (some p.throttle)] }
  | .makeServerStreamRequest signal =>
      some { p with streams := p.streams ++ [Stream.init signal (some p.throttle)] }
  | .unary call event random => match p.unary[call]? with
    | none => none
    | some s =>
        if event.isOthers then none
        else (Unary.step policy { s with ledger := { s.ledger with throttle := some p.throttle } }
          (event, random)).map
          fun t => { p with throttle := t.ledger.throttle.getD p.throttle, unary := p.unary.set call t }
  | .stream call event random => match p.streams[call]? with
    | none => none
    | some s =>
        if event.isOthers then none
        else (Stream.step policy transport { s with ledger := { s.ledger with throttle := some p.throttle } }
          (event, random)).map
          fun t => { p with throttle := t.ledger.throttle.getD p.throttle, streams := p.streams.set call t }

def retries (p : Pool Msg) : Nat :=
  (p.unary.map Unary.State.retries).sum + (p.streams.map Stream.State.retries).sum

def credits (p : Pool Msg) : Nat :=
  (p.unary.map fun s => NodeClient.credits s.ledger).sum +
    (p.streams.map fun s => NodeClient.credits s.ledger).sum

def pledged (p : Pool Msg) : Nat :=
  (p.unary.map Unary.State.pledged).sum + (p.streams.map Stream.State.pledged).sum

end Pool

/-- What a step books on the throttle it finds, as an operation of a token bucket. -/
inductive Books (throttle : Throttle) (ledger : Ledger) : List Op → Ledger → Prop where
  | nothing : Books throttle ledger [] { ledger with throttle := some throttle }
  | grant (code : Int) (passes : throttle.allowed = true) :
      Books throttle ledger [.grant] ⟨some throttle.onFailure, ledger.charges ++ [(code, .debit)]⟩
  | failure (code : Int) :
      Books throttle ledger [.failure] ⟨some throttle.onFailure, ledger.charges ++ [(code, .debit)]⟩
  | success (code : Int) :
      Books throttle ledger [.success] ⟨some throttle.onSuccess, ledger.charges ++ [(code, .credit)]⟩

/-- A delay is only given by a throttle that permits it. -/
theorem settle_books (policy : Option ResolvedPolicy) (throttle : Throttle) (ledger : Ledger)
    (status : StatusResult)
    (attempt : Nat) (random : Number) :
    ∃ ops, Books throttle ledger ops
      (settle policy { ledger with throttle := some throttle } status attempt random).2 ∧
      ((settle policy { ledger with throttle := some throttle } status attempt random).1.isSome = true →
        TokenBucket.grants ops = 1) := by
  unfold settle
  split
  · rename_i delay decided
    obtain ⟨p, _, named⟩ := Option.bind_eq_some_iff.mp decided
    have both := nextDelay_isSome p (some throttle) status attempt random
    rw [named, Option.isSome_some] at both
    have passes : throttle.allowed = true := by simpa [permits] using (Bool.and_eq_true_iff.mp both.symm).2
    exact ⟨_, .grant status.code passes, fun _ => rfl⟩
  · split
    · exact ⟨_, .success status.code, fun delayed => absurd delayed Bool.false_ne_true⟩
    · split
      · exact ⟨_, .failure status.code, fun delayed => absurd delayed Bool.false_ne_true⟩
      · exact ⟨_, .nothing, fun delayed => absurd delayed Bool.false_ne_true⟩

/-- What a step books, when each retry that it pledges is granted. -/
def Booked (throttle : Throttle) (before after : Ledger) (pledged now : Nat) : Prop :=
  ∃ ops, Books throttle before ops after ∧ now ≤ pledged + TokenBucket.grants ops

theorem Booked.quiet {throttle : Throttle} {before after : Ledger} {pledged now : Nat}
    (same : after = { before with throttle := some throttle }) (fewer : now ≤ pledged) :
    Booked throttle before after pledged now :=
  ⟨[], same ▸ .nothing, fewer⟩

theorem Booked.mono {throttle : Throttle} {before after : Ledger} {fewer pledged now : Nat}
    (booked : Booked throttle before after fewer now) (le : fewer ≤ pledged) :
    Booked throttle before after pledged now := by
  obtain ⟨ops, books, covered⟩ := booked
  exact ⟨ops, books, covered.trans (Nat.add_le_add_right le _)⟩

namespace Unary
variable {policy : Option ResolvedPolicy} {throttle : Throttle}

/-- The state in which a call finds the throttle of its client. -/
def State.sharing (s : State) (throttle : Throttle) : State :=
  { s with ledger := { s.ledger with throttle := some throttle } }

theorem retries_le_pledged (s : State) : s.retries ≤ s.pledged := Nat.le_add_right _ _

variable (policy throttle) in
theorem conclude_books (s : State) (status : StatusResult) (res : Option UnaryResponse) (random : Number) :
    Booked throttle s.ledger (conclude policy (s.sharing throttle) status res random).ledger s.retries
      (conclude policy (s.sharing throttle) status res random).pledged := by
  obtain ⟨ops, books, granted⟩ := settle_books policy throttle s.ledger status s.attempt random
  refine ⟨ops, ?_⟩
  unfold conclude State.sharing
  dsimp only
  cases decided : settle policy { s.ledger with throttle := some throttle } status s.attempt random with
  | mk delay ledger =>
      rw [decided] at books granted
      cases delay with
      | none => exact ⟨books, Nat.le_add_right _ _⟩
      | some delay =>
          have one : TokenBucket.grants ops = 1 := granted rfl
          dsimp only
          split
          · exact ⟨books, Nat.le_add_right _ _⟩
          · exact ⟨books, Nat.le_of_eq (congrArg (s.retries + ·) one.symm)⟩

theorem step_books {s t : State} {event : Event} {random : Number} (own : event.isOthers = false)
    (h : step policy (s.sharing throttle) (event, random) = some t) :
    Booked throttle s.ledger t.ledger s.pledged t.pledged := by
  have ended : ∀ status res, Booked throttle s.ledger
    (conclude policy (s.sharing throttle) status res random).ledger
      s.pledged (conclude policy (s.sharing throttle) status res random).pledged :=
    fun status res => (conclude_books policy throttle s status res random).mono (retries_le_pledged s)
  cases event with
  | resolve res =>
      simp only [step] at h
      split at h
      · cases h
        exact ended res.status (some res)
      · cases h
  | reject reason =>
      simp only [step] at h
      split at h
      · cases h
        exact ended _ none
      · cases h
  | abort reason =>
      simp only [step] at h
      split at h
      · cases h
        exact .quiet rfl (Nat.le_refl _)
      · cases h
        exact .quiet rfl (retries_le_pledged s)
      · cases h
        exact .quiet rfl (Nat.le_refl _)
  | elapsed =>
      simp only [step] at h
      split at h
      · rename_i delay status res waiting
        cases h
        refine .quiet rfl ?_
        have phase : s.phase = .backingOff delay status res := waiting
        simp only [State.pledged, State.retries, phase, State.sharing]
        omega
      · cases h
  | others throttle => cases own

end Unary

namespace Stream
variable {policy : Option ResolvedPolicy} {transport : Transport} {throttle : Throttle}

def State.sharing (s : State Msg) (throttle : Throttle) : State Msg :=
  { s with ledger := { s.ledger with throttle := some throttle } }

theorem retries_le_pledged (s : State Msg) : s.retries ≤ s.pledged := Nat.le_add_right _ _

theorem commit_kept (s : State Msg) : (commit s).ledger = s.ledger ∧ (commit s).started = s.started := by
  unfold commit
  split
  · exact ⟨rfl, rfl⟩
  · exact ⟨rfl, rfl⟩

theorem finish_kept (s : State Msg) (status : StatusResult) :
    (finish s status).ledger = s.ledger ∧ (finish s status).pledged = s.retries := by
  obtain ⟨ledger, started⟩ := commit_kept s
  refine ⟨ledger, ?_⟩
  change (commit s).started - 1 + 0 = s.started - 1
  rw [started, Nat.add_zero]

variable (policy) in
theorem onStatus_books {s u : State Msg} (status : StatusResult) (random : Number)
    (shares : u.ledger = (s.sharing throttle).ledger) (same : u.started = s.started) :
    Booked throttle s.ledger (onStatus policy u status random).ledger s.retries
      (onStatus policy u status random).pledged := by
  unfold onStatus
  dsimp only
  split
  · obtain ⟨ledger, pledged⟩ := finish_kept { u with ended := u.ended ++ [status] } status
    refine .quiet (ledger.trans shares) ?_
    rw [pledged]
    exact Nat.le_of_eq (congrArg (· - 1) same)
  · obtain ⟨ops, books, granted⟩ := settle_books policy throttle s.ledger status u.attempt random
    refine ⟨ops, ?_⟩
    have found : u.ledger = { s.ledger with throttle := some throttle } := shares
    cases decided : settle policy u.ledger status u.attempt random with
    | mk delay ledger =>
        rw [← found, decided] at books granted
        have fewer : u.started - 1 ≤ s.retries + TokenBucket.grants ops := by
          rw [same]
          exact Nat.le_add_right _ _
        cases delay with
        | none =>
            obtain ⟨kept, pledged⟩ := finish_kept { u with ended := u.ended ++ [status], ledger } status
            exact ⟨kept ▸ books, pledged ▸ fewer⟩
        | some delay =>
            have one : TokenBucket.grants ops = 1 := granted rfl
            dsimp only
            split
            · obtain ⟨kept, pledged⟩ :=
                finish_kept { u with ended := u.ended ++ [status], ledger, attempt := u.attempt + 1 } status
              exact ⟨kept ▸ books, pledged ▸ fewer⟩
            · refine ⟨books, ?_⟩
              change u.started - 1 + 1 ≤ s.retries + TokenBucket.grants ops
              rw [same, one]
              exact Nat.le_refl _

theorem signalled_kept (s : State Msg) (event : Event Msg) :
    (signalled s event).ledger = s.ledger ∧ (signalled s event).started = s.started ∧
      (signalled s event).phase = s.phase := by
  cases event <;> exact ⟨rfl, rfl, rfl⟩

theorem pledged_running {s : State Msg} {aborted leaving : Bool}
    (running : s.phase = .running aborted leaving) :
    s.pledged = s.retries := by
  rw [State.pledged, running]
  exact Nat.add_zero _

theorem proceed_kept {s t : State Msg} {a l aborted leaving : Bool} {event : Event Msg}
    (running : s.phase = .running a l) (h : proceed transport s aborted leaving event = some t) :
    t.ledger = s.ledger ∧ t.pledged = s.retries := by
  cases event with
  | headers metadata =>
      obtain ⟨_, same⟩ := Option.ite_none_left_eq_some.mp h
      cases same
      exact ⟨rfl, pledged_running (s := { s with headers := some metadata }) running⟩
  | message message =>
      obtain ⟨_, same⟩ := Option.ite_none_left_eq_some.mp h
      cases same
      obtain ⟨ledger, started⟩ := commit_kept s
      exact ⟨ledger, congrArg (· - 1) started⟩
  | abort reason | cancel =>
      cases h
      exact ⟨rfl, rfl⟩
  | respond _ | fail _ | notice | elapsed | others _ => cases h

theorem step_books {s t : State Msg} {event : Event Msg} {random : Number} (own : event.isOthers = false)
    (h : step policy transport (s.sharing throttle) (event, random) = some t) :
    Booked throttle s.ledger t.ledger s.pledged t.pledged := by
  cases step_move h with
  | others => cases own
  | ends _ running ended =>
      obtain ⟨ledger, started, _⟩ := signalled_kept (s.sharing throttle) event
      exact (onStatus_books policy (s := s) _ random ledger started).mono (retries_le_pledged s)
  | proceeds _ running goes moved =>
      obtain ⟨ledger, started, phase⟩ := signalled_kept (s.sharing throttle) event
      obtain ⟨same, pledged⟩ := proceed_kept (phase.trans running) moved
      refine .quiet (same.trans ledger) ?_
      rw [pledged, State.retries, started]
      exact retries_le_pledged s
  | elapses _ waiting =>
      refine .quiet rfl ?_
      have phase : s.phase = .backingOff _ _ := waiting
      simp only [State.pledged, State.retries, start, State.sharing, phase]
      omega
  | gives reason _ waiting =>
      obtain ⟨ledger, pledged⟩ := finish_kept (signalled (s.sharing throttle) (.abort reason)) _
      refine .quiet (ledger.trans rfl) ?_
      rw [pledged]
      exact retries_le_pledged s
  | misses _ waiting => exact .quiet rfl (Nat.le_refl _)
  | idles _ closed => exact .quiet rfl (Nat.le_refl _)

end Stream

namespace Throttle

/-- A throttle whose numbers are rational. -/
def rational (maxTokens tokenRatio tokens : ℚ) : Throttle :=
  ⟨⟨.finite maxTokens, .finite tokenRatio⟩, .finite tokens⟩

variable {maxTokens tokenRatio tokens : ℚ}

theorem allowed_rational :
    (rational maxTokens tokenRatio tokens).allowed = true ↔ maxTokens / 2 < tokens := by
  simp [allowed, rational, Number.half, Number.lt]

theorem onFailure_rational :
    (rational maxTokens tokenRatio tokens).onFailure = rational maxTokens tokenRatio (0 ⊔ (tokens - 1)) := by
  simp only [onFailure, rational, Number.ofNat, Number.sub, Number.neg, Number.add, Number.max_finite]
  simp [sub_eq_add_neg]

theorem onSuccess_rational :
    (rational maxTokens tokenRatio tokens).onSuccess =
      rational maxTokens tokenRatio (maxTokens ⊓ (tokens + tokenRatio)) := by
  simp only [onSuccess, rational, Number.add, Number.min_finite]

end Throttle

/-- A call's share of a sum, when its state changes. -/
theorem sum_map_set {α : Type} (f : α → Nat) {l : List α} {i : Nat} {s : α} (t : α) (found : l[i]? = some s) :
    ((l.set i t).map f).sum + f s = (l.map f).sum + f t := by
  induction l generalizing i with
  | nil => cases found
  | cons a l ih =>
      cases i with
      | zero =>
          cases found
          simp only [List.set_cons_zero, List.map_cons, List.sum_cons]
          omega
      | succ i =>
          have rest := ih found
          simp only [List.set_cons_succ, List.map_cons, List.sum_cons]
          omega

/-- What is booked are operations of the bucket, with its balance and its successes. -/
theorem Books.moves {maxTokens tokenRatio tokens : ℚ} {ledger after : Ledger} {ops : List Op}
    (books : Books (.rational maxTokens tokenRatio tokens) ledger ops after) :
    ∃ left, Machine.run (TokenBucket.step maxTokens tokenRatio) tokens ops = some left ∧
      after.throttle = some (.rational maxTokens tokenRatio left) ∧
      credits after = credits ledger + TokenBucket.successes ops := by
  cases books with
  | nothing => exact ⟨tokens, rfl, rfl, rfl⟩
  | grant code passes =>
      refine ⟨0 ⊔ (tokens - 1), ?_, congrArg some Throttle.onFailure_rational, ?_⟩
      · exact Machine.run_cons (if_pos (Throttle.allowed_rational.mp passes))
      · simp [credits, TokenBucket.successes]
  | failure code =>
      refine ⟨0 ⊔ (tokens - 1), rfl, congrArg some Throttle.onFailure_rational, ?_⟩
      simp [credits, TokenBucket.successes]
  | success code =>
      refine ⟨maxTokens ⊓ (tokens + tokenRatio), rfl, congrArg some Throttle.onSuccess_rational, ?_⟩
      simp [credits, TokenBucket.successes]

namespace Pool
variable {policy : Option ResolvedPolicy} {transport : Stream.Transport} {maxTokens tokenRatio : ℚ}

/-- The throttle is a bucket that has been full once. Its grants cover the retries and its
successes are the credits of the calls. -/
def Backed (maxTokens tokenRatio : ℚ) (p : Pool Msg) : Prop :=
  ∃ ops tokens, Machine.run (TokenBucket.step maxTokens tokenRatio) maxTokens ops = some tokens ∧
    p.throttle = .rational maxTokens tokenRatio tokens ∧ p.pledged ≤ TokenBucket.grants ops ∧
    p.credits = TokenBucket.successes ops

theorem retries_le_pledged (p : Pool Msg) : p.retries ≤ p.pledged :=
  Nat.add_le_add (List.sum_le_sum fun s _ => Unary.retries_le_pledged s)
    (List.sum_le_sum fun s _ => Stream.retries_le_pledged s)

theorem Backed.init (maxTokens tokenRatio : ℚ) :
    Backed maxTokens tokenRatio (init ⟨.finite maxTokens, .finite tokenRatio⟩ : Pool Msg) :=
  ⟨[], maxTokens, rfl, rfl, Nat.le_refl _, rfl⟩

/-- One more step of one call. -/
theorem Backed.books {p q : Pool Msg} (inv : Backed maxTokens tokenRatio p) {ledger after : Ledger}
    {ops : List Op}
    (booked : Books p.throttle ledger ops after) (throttle : q.throttle = after.throttle.getD p.throttle)
    (pledged : q.pledged ≤ p.pledged + TokenBucket.grants ops)
    (credited : q.credits + NodeClient.credits ledger = p.credits + NodeClient.credits after) :
    Backed maxTokens tokenRatio q := by
  obtain ⟨before, tokens, ran, found, covered, counted⟩ := inv
  rw [found] at booked
  obtain ⟨left, moved, leaves, credits⟩ := booked.moves
  refine ⟨before ++ ops, left, ?_, ?_, ?_, ?_⟩
  · rw [Machine.run_append, ran]
    exact moved
  · rw [throttle, leaves]
    rfl
  · rw [TokenBucket.grants_append]
    omega
  · rw [TokenBucket.successes_append]
    omega

theorem Backed.step {p q : Pool Msg} {label : Label Msg} (inv : Backed maxTokens tokenRatio p)
    (h : step policy transport p label = some q) : Backed maxTokens tokenRatio q := by
  cases label with
  | makeUnaryRequest signal =>
      cases h
      obtain ⟨ops, tokens, ran, found, covered, counted⟩ := inv
      refine ⟨ops, tokens, ran, found, ?_, ?_⟩
      · simpa [pledged, Unary.init, Unary.State.pledged, Unary.State.retries] using covered
      · simpa [Pool.credits, Unary.init, NodeClient.credits] using counted
  | makeServerStreamRequest signal =>
      cases h
      obtain ⟨ops, tokens, ran, found, covered, counted⟩ := inv
      refine ⟨ops, tokens, ran, found, ?_, ?_⟩
      · simpa [pledged, Stream.init, Stream.start, Stream.State.pledged, Stream.State.retries] using covered
      · simpa [Pool.credits, Stream.init, Stream.start, NodeClient.credits] using counted
  | unary call event random =>
      simp only [Pool.step] at h
      split at h
      · cases h
      · rename_i s found
        obtain ⟨own, h⟩ := Option.ite_none_left_eq_some.mp h
        obtain ⟨t, moved, rfl⟩ := Option.map_eq_some_iff.mp h
        obtain ⟨ops, books, fewer⟩ := Unary.step_books (s := s) (eq_false_of_ne_true own) moved
        refine inv.books books rfl ?_ ?_
        · have share := sum_map_set Unary.State.pledged t found
          simp only [pledged]
          omega
        · have share := sum_map_set (fun s => NodeClient.credits s.ledger) t found
          simp only [Pool.credits]
          omega
  | stream call event random =>
      simp only [Pool.step] at h
      split at h
      · cases h
      · rename_i s found
        obtain ⟨own, h⟩ := Option.ite_none_left_eq_some.mp h
        obtain ⟨t, moved, rfl⟩ := Option.map_eq_some_iff.mp h
        obtain ⟨ops, books, fewer⟩ := Stream.step_books (s := s) (eq_false_of_ne_true own) moved
        refine inv.books books rfl ?_ ?_
        · have share := sum_map_set Stream.State.pledged t found
          simp only [pledged]
          omega
        · have share := sum_map_set (fun s => NodeClient.credits s.ledger) t found
          simp only [Pool.credits]
          omega

/-- However many calls share the throttle and however they end, its balance stays within the
bucket, and retries are paid for by half of the tokens, the successes and one retry more. -/
theorem retries_bounded (policy : Option ResolvedPolicy) (transport : Stream.Transport)
    {maxTokens tokenRatio : ℚ}
    (full : 0 ≤ maxTokens) (earns : 0 ≤ tokenRatio) {labels : List (Label Msg)} {p : Pool Msg}
    (h : Machine.run (step policy transport) (init ⟨.finite maxTokens, .finite tokenRatio⟩) labels = some p) :
    (∃ tokens : ℚ, p.throttle.tokens = .finite tokens ∧ 0 ≤ tokens ∧ tokens ≤ maxTokens) ∧
      (p.retries : ℚ) * min 1 (maxTokens / 2) ≤ maxTokens / 2 + tokenRatio * p.credits +
        min 1 (maxTokens / 2) := by
  have backed : Backed maxTokens tokenRatio p :=
    Machine.run_invariant (fun _ _ _ inv moved => inv.step moved) (.init maxTokens tokenRatio) h
  obtain ⟨ops, tokens, ran, found, covered, counted⟩ := backed
  have paid := TokenBucket.run_paid full earns ran
  refine ⟨⟨tokens, by rw [found]; rfl, paid.low, paid.high⟩, ?_⟩
  have fewer : (p.retries : ℚ) ≤ TokenBucket.grants ops := by
    exact_mod_cast (retries_le_pledged p).trans covered
  rw [counted]
  exact (mul_le_mul_of_nonneg_right fewer (TokenBucket.cost_nonneg full)).trans paid.bounded

/-- Two calls, one of which fails, is retried and succeeds. -/
def outage : List (Label Unit) :=
  [.makeUnaryRequest none, .makeServerStreamRequest none, .unary 0 (.reject []) (.ofNat 0),
    .stream 0 (.respond ⟨H2ts.Status.unavailable, [], []⟩) (.ofNat 0), .unary 0 .elapsed (.ofNat 0),
    .unary 0 (.resolve ⟨[], [], ⟨H2ts.Status.ok, [], []⟩⟩) (.ofNat 0)]

theorem outage_bounded :
    ∃ p, Machine.run (step (some (resolvePolicy ⟨none, none, none, none, none⟩)) .h2ts)
        (init ⟨.finite 3, .finite (1 / 10)⟩) outage = some p ∧ p.retries = 1 ∧ p.credits = 1 ∧
      (∃ tokens : ℚ, p.throttle.tokens = .finite tokens ∧ 0 ≤ tokens ∧ tokens ≤ 3) ∧
      (p.retries : ℚ) * min 1 (3 / 2) ≤ 3 / 2 + 1 / 10 * p.credits + min 1 (3 / 2) := by
  have ends : (Machine.run (step (some (resolvePolicy ⟨none, none, none, none, none⟩)) .h2ts)
      (init ⟨.finite 3, .finite (1 / 10)⟩) outage).map (fun p => (p.retries, p.credits)) = some (1, 1) := by
    decide +kernel
  obtain ⟨p, ran, counted⟩ := Option.map_eq_some_iff.mp ends
  obtain ⟨retried, credited⟩ := Prod.mk.inj counted
  exact ⟨p, ran, retried, credited, retries_bounded _ _ (by norm_num) (by norm_num) ran⟩

end Pool

end GrpcWebnext.NodeClient
