import GrpcWebnext.NodeClient.OkIsFinal
import GrpcWebnext.NodeClient.Outcomes

/-! `makeUnaryRequest`, `makeServerStreamRequest`, `makeClientStreamRequest` and
`makeBidiStreamRequest` of `client.ts` with user code that may throw: the outcomes of a
call, and when there is one. -/
namespace GrpcWebnext.NodeClient.Throwing
open Text (Str)
open Framing (Bytes)
open Js (Number)
open GrpcWebnext.NodeClient.Stream (Event Transport ending Emission)

section Readable
variable {Msg : Type}

/-- `status`, `error` or `end`. -/
def isOutcome : Emission Msg → Bool
  | .status _ => true
  | .error _ => true
  | .end => true
  | _ => false

def last (status : StatusResult) : Emission Msg :=
  if status.code = H2ts.Status.ok then .end else .error status

/-- One `status`, and one `end` or `error` after it. -/
def OneOutcome (emitted : List (Emission Msg)) : Prop :=
  ∃ status, emitted.filter isOutcome = [.status status, last status]

def NoOutcome (emitted : List (Emission Msg)) : Prop := emitted.filter isOutcome = []

theorem isOutcome_last (status : StatusResult) : isOutcome (last status : Emission Msg) = true := by
  unfold last
  split <;> rfl

theorem noOutcome_snoc {emitted : List (Emission Msg)} {shown : Emission Msg}
    (quiet : isOutcome shown = false) :
    NoOutcome (emitted ++ [shown]) ↔ NoOutcome emitted := by
  simp [NoOutcome, List.filter_append, quiet]

/-- The `status` and then `end` or `error`: the listener of either may throw. -/
def tellStatus (user : User) (status : StatusResult) (emitted : List (Emission Msg)) :
    List (Emission Msg) × Bool :=
  if user.status then (emitted ++ [.status status], true)
  else (emitted ++ [.status status, last status], user.last)

theorem filter_status {emitted : List (Emission Msg)} (untold : NoOutcome emitted) (status : StatusResult)
    (rest : List (Emission Msg)) :
    (emitted ++ .status status :: rest).filter isOutcome = .status status :: rest.filter isOutcome := by
  rw [List.filter_append, show emitted.filter isOutcome = [] from untold, List.nil_append]
  exact List.filter_cons_of_pos rfl

theorem tellStatus_spec (user : User) (status : StatusResult) {emitted : List (Emission Msg)}
    (untold : NoOutcome emitted) :
    (OneOutcome (tellStatus user status emitted).1 ↔ user.status = false) ∧
      ((tellStatus user status emitted).2 = false ↔ user.status = false ∧ user.last = false) := by
  unfold tellStatus
  cases threw : user.status with
  | true =>
      refine ⟨iff_of_false ?_ (by simp), by simp⟩
      rintro ⟨other, told⟩
      cases (filter_status untold status []).symm.trans told
  | false =>
      refine ⟨iff_of_true ⟨status, ?_⟩ rfl, by simp⟩
      exact (filter_status untold status [last status]).trans
        (congrArg _ (List.filter_cons_of_pos (isOutcome_last status)))

end Readable

/-- `makeServerStreamRequest`: the attempt, the commit rule, a backoff and what it will
report if it is cut short. -/
structure ServerCall (Msg : Type) where
  attempt : Nat
  committed : Bool
  headers : Option Metadata
  ledger : Ledger
  backoff : Option StatusResult
  emitted : List (Emission Msg)

namespace ServerCall
variable {Msg : Type}

def init (throttle : Option Throttle) : ServerCall Msg := ⟨1, false, none, ⟨throttle, []⟩, none, []⟩

def commit (user : User) (c : ServerCall Msg) : ServerCall Msg × Bool :=
  if c.committed then (c, false)
  else match c.headers with
    | none => ({ c with committed := true }, false)
    | some metadata =>
        ({ c with committed := true, emitted := c.emitted ++ [.metadata metadata] }, user.metadata)

def onMessage (user : User) (message : Msg) (c : ServerCall Msg) : ServerCall Msg × Bool :=
  match commit user c with
  | (c, true) => (c, true)
  | (c, false) =>
      if user.deserialize then (c, true)
      else ({ c with emitted := c.emitted ++ [.data c.attempt message] }, user.data)

def finish (user : User) (status : StatusResult) (c : ServerCall Msg) : ServerCall Msg × Bool :=
  match commit user { c with backoff := none } with
  | (c, true) => (c, true)
  | (c, false) =>
      let (emitted, threw) := tellStatus user status c.emitted
      ({ c with emitted }, threw)

def onStatus (policy : Option ResolvedPolicy) (user : User) (random : Number) (status : StatusResult)
    (c : ServerCall Msg) : ServerCall Msg × Bool :=
  if c.committed then finish user status c
  else match settle policy c.ledger status c.attempt random with
    | (none, ledger) => finish user status { c with ledger }
    | (some _, ledger) => ({ c with ledger, attempt := c.attempt + 1, backoff := some status }, false)

def handlers (policy : Option ResolvedPolicy) : Handlers (ServerCall Msg) Msg where
  onHeaders _ metadata c := ({ c with headers := some metadata }, false)
  onMessage := onMessage
  onStatus := onStatus policy
  waiting c := c.backoff
  restart c := { c with backoff := none }
  giveUp user status c := (finish user status c).1
  others throttle c :=
    { c with ledger := { c.ledger with throttle := c.ledger.throttle.map fun _ => throttle } }

/-- A status is the call's own: a message has been shown, or no retry follows. -/
def Finishes (policy : Option ResolvedPolicy) (status : StatusResult) (c : ServerCall Msg) : Prop :=
  c.committed = true ∨ retried policy c.ledger.throttle status c.attempt = false

/-- The listener of held headers and that of the status return. -/
def Shows (user : User) (c : ServerCall Msg) : Prop :=
  (c.committed = false → c.headers.isSome → user.metadata = false) ∧ user.status = false

theorem commit_spec (user : User) (c : ServerCall Msg) :
    (commit user c).1.committed = true ∧ (commit user c).1.backoff = c.backoff ∧
      (NoOutcome (commit user c).1.emitted ↔ NoOutcome c.emitted) ∧
      ((commit user c).2 = false ↔ (c.committed = false → c.headers.isSome → user.metadata = false)) := by
  unfold commit
  cases committed : c.committed with
  | true => simp [committed]
  | false => cases headers : c.headers with
    | none => simp
    | some metadata =>
        simp [noOutcome_snoc (show isOutcome (.metadata metadata : Emission Msg) = false from rfl)]

/-- What a call that finishes tells its caller. -/
theorem finish_spec (user : User) (status : StatusResult) {c : ServerCall Msg}
    (untold : NoOutcome c.emitted) :
    (finish user status c).1.backoff = none ∧ (OneOutcome (finish user status c).1.emitted ↔ Shows user c) ∧
      ((finish user status c).2 = false ↔ Shows user c ∧ user.last = false) := by
  obtain ⟨_, backoff, silent, threw⟩ := commit_spec user { c with backoff := none }
  have still := silent.mpr untold
  unfold finish Shows
  rw [← threw]
  generalize commit user { c with backoff := none } = committed at backoff still
  obtain ⟨c', threw⟩ := committed
  cases threw with
  | true =>
      refine ⟨backoff, iff_of_false ?_ (by simp), by simp⟩
      rintro ⟨other, told⟩
      cases (show c'.emitted.filter isOutcome = [] from still).symm.trans told
  | false =>
      obtain ⟨settled, returns⟩ := tellStatus_spec user status still
      exact ⟨backoff, settled.trans (by simp), returns.trans (by simp)⟩

theorem finish_committed (user : User) (status : StatusResult) (c : ServerCall Msg) :
    (finish user status c).1.committed = true ∧ (finish user status c).1.backoff = none := by
  obtain ⟨done, backoff, _⟩ := commit_spec user { c with backoff := none }
  unfold finish
  generalize commit user { c with backoff := none } = committed at done backoff
  obtain ⟨c', threw⟩ := committed
  cases threw <;> exact ⟨done, backoff⟩

theorem onStatus_finishes {policy : Option ResolvedPolicy} {status : StatusResult} {c : ServerCall Msg}
    (finishes : Finishes policy status c) (user : User) (random : Number) :
    ∃ ledger, onStatus policy user random status c = finish user status { c with ledger } := by
  unfold onStatus
  split
  · exact ⟨c.ledger, rfl⟩
  · rename_i fresh
    have last := settle_reported (finishes.resolve_left fresh) random
    split
    · rename_i ledger settled
      exact ⟨ledger, rfl⟩
    · rename_i delay ledger settled
      rw [settled] at last
      split at last
      · cases last
      · split at last <;> cases last

theorem onStatus_backs {policy : Option ResolvedPolicy} {status : StatusResult} {c : ServerCall Msg}
    (goesOn : ¬ Finishes policy status c) (user : User) (random : Number) :
    ∃ ledger, onStatus policy user random status c =
      ({ c with ledger, attempt := c.attempt + 1, backoff := some status }, false) := by
  have fresh : ¬ c.committed = true := fun shown => goesOn (.inl shown)
  have again : retried policy c.ledger.throttle status c.attempt = true :=
    Bool.not_eq_false _ ▸ fun last => goesOn (.inr last)
  obtain ⟨delay, settled⟩ := settle_retried again random
  refine ⟨c.ledger.onFailure status.code, ?_⟩
  rw [onStatus, if_neg fresh, settled]

/-- An `onStatus` that throws has finished the call. -/
theorem onStatus_threw {policy : Option ResolvedPolicy} {user : User} {random : Number}
    {status : StatusResult}
    {c : ServerCall Msg} (threw : (onStatus policy user random status c).2 = true) :
    (onStatus policy user random status c).1.committed = true := by
  by_cases finishes : Finishes policy status c
  · obtain ⟨ledger, same⟩ := onStatus_finishes finishes user random
    rw [same]
    exact (finish_committed user status _).1
  · obtain ⟨ledger, same⟩ := onStatus_backs finishes user random
    rw [same] at threw
    cases threw

theorem onMessage_spec (user : User) (message : Msg) (c : ServerCall Msg) :
    (onMessage user message c).1.committed = true ∧
      (NoOutcome (onMessage user message c).1.emitted ↔ NoOutcome c.emitted) := by
  obtain ⟨done, _, silent, _⟩ := commit_spec user c
  unfold onMessage
  generalize commit user c = committed at done silent
  obtain ⟨c', threw⟩ := committed
  cases threw with
  | true => exact ⟨done, silent⟩
  | false =>
      dsimp only
      split
      · exact ⟨done, silent⟩
      · exact ⟨done,
          (noOutcome_snoc (show isOutcome (.data c'.attempt message) = false from rfl)).trans silent⟩

/-- A server stream tells its caller one `status` and one `end` or `error`. -/
def tells (policy : Option ResolvedPolicy) : Tells (handlers policy : Handlers (ServerCall Msg) Msg) where
  finishes := Finishes policy
  shows := Shows
  quiet user := user.last = false
  untold c := NoOutcome c.emitted
  settled c := OneOutcome c.emitted
  onHeaders _ _ _ untold := untold
  onMessage user message c untold := (onMessage_spec user message c).2.mpr untold
  headersThrew _ _ _ threw := by cases threw
  messageThrew user message c _ _ := .inl (onMessage_spec user message c).1
  finishing user random status c untold finishes := by
    obtain ⟨ledger, same⟩ := onStatus_finishes finishes user random
    have finished := finish_spec user status (c := { c with ledger }) untold
    rw [← same] at finished
    exact finished
  backing user random status c untold goesOn := by
    obtain ⟨ledger, same⟩ := onStatus_backs goesOn user random
    have backed : (onStatus policy user random status c).1.backoff = some status ∧
        NoOutcome (onStatus policy user random status c).1.emitted ∧
          (onStatus policy user random status c).2 = false := by
      rw [same]
      exact ⟨rfl, untold, rfl⟩
    exact backed
  repeated user again random status status' c threw := by
    obtain ⟨ledger, same⟩ := onStatus_finishes
      (.inl (onStatus_threw threw) : Finishes policy status' _) again random
    have settled := (finish_committed again status'
      { (onStatus policy user random status c).1 with ledger }).2
    rw [← same] at settled
    exact settled
  givenUp user status c untold _ := by
    obtain ⟨backoff, settled, _⟩ := finish_spec user status untold
    exact ⟨backoff, settled⟩
  restarted _ untold := untold
  unmoved _ _ := ⟨rfl, Iff.rfl, Iff.rfl⟩

end ServerCall

/-- `makeClientStreamRequest`: the last message, and the calls of the callback. -/
structure ClientCall (Msg : Type) where
  last : Option Msg
  answers : List (Except StatusResult (Option Msg))

namespace ClientCall
variable {Msg : Type}

def onMessage (user : User) (message : Msg) (c : ClientCall Msg) : ClientCall Msg × Bool :=
  if user.deserialize then (c, true) else ({ c with last := some message }, false)

def onStatus (user : User) (_ : Number) (status : StatusResult) (c : ClientCall Msg) :
    ClientCall Msg × Bool :=
  let answer := if status.code = H2ts.Status.ok then .ok c.last else .error status
  ({ c with answers := c.answers ++ [answer] }, user.callback)

def handlers : Handlers (ClientCall Msg) Msg where
  onHeaders _ _ c := (c, false)
  onMessage := onMessage
  onStatus := onStatus
  waiting _ := none
  restart c := c
  giveUp _ _ c := c
  others _ c := c

/-- The callback is the outcome, and is called before it can throw. -/
def tells : Tells (handlers : Handlers (ClientCall Msg) Msg) where
  finishes _ _ := True
  shows _ _ := True
  quiet user := user.callback = false
  untold c := c.answers = []
  settled c := c.answers.length = 1
  onHeaders _ _ _ untold := untold
  onMessage user message c untold := by
    have kept : (onMessage user message c).1.answers = c.answers := by
      unfold onMessage
      split <;> rfl
    exact kept.trans untold
  headersThrew _ _ _ threw := by cases threw
  messageThrew _ _ _ _ _ := trivial
  finishing user random status c untold _ := by
    have told : (onStatus user random status c).1.answers.length = 1 := by simp [onStatus, untold]
    exact ⟨rfl, iff_of_true told trivial, Iff.of_eq (true_and _).symm⟩
  backing _ _ _ _ _ goesOn := absurd trivial goesOn
  repeated _ _ _ _ _ _ _ := rfl
  givenUp _ _ _ _ waits := by cases waits
  restarted _ untold := untold
  unmoved _ _ := ⟨rfl, Iff.rfl, Iff.rfl⟩

end ClientCall

-- The call of `streamHandlers` is what it has emitted.
namespace BidiCall
variable {Msg : Type}

def onHeaders (user : User) (metadata : Metadata) (emitted : List (Emission Msg)) :
    List (Emission Msg) × Bool :=
  (emitted ++ [.metadata metadata], user.metadata)

def onMessage (user : User) (message : Msg) (emitted : List (Emission Msg)) : List (Emission Msg) × Bool :=
  if user.deserialize then (emitted, true) else (emitted ++ [.data 1 message], user.data)

def handlers : Handlers (List (Emission Msg)) Msg where
  onHeaders := onHeaders
  onMessage := onMessage
  onStatus user _ := tellStatus user
  waiting _ := none
  restart c := c
  giveUp _ _ c := c
  others _ c := c

def tells : Tells (handlers : Handlers (List (Emission Msg)) Msg) where
  finishes _ _ := True
  shows user _ := user.status = false
  quiet user := user.last = false
  untold := NoOutcome
  settled := OneOutcome
  onHeaders _ metadata _ untold :=
    (noOutcome_snoc (show isOutcome (.metadata metadata) = false from rfl)).mpr untold
  onMessage user message emitted untold := by
    have still : NoOutcome (onMessage user message emitted).1 := by
      unfold onMessage
      split
      · exact untold
      · exact (noOutcome_snoc (show isOutcome (.data 1 message) = false from rfl)).mpr untold
    exact still
  headersThrew _ _ _ _ _ := trivial
  messageThrew _ _ _ _ _ := trivial
  finishing user _ status _ untold _ := ⟨rfl, tellStatus_spec user status untold⟩
  backing _ _ _ _ _ goesOn := absurd trivial goesOn
  repeated _ _ _ _ _ _ _ := rfl
  givenUp _ _ _ _ waits := by cases waits
  restarted _ untold := untold
  unmoved _ _ := ⟨rfl, Iff.rfl, Iff.rfl⟩

end BidiCall

namespace UnaryCall
open GrpcWebnext.NodeClient.Unary (State Event UnaryResponse errorForFailure)
variable {policy : Option ResolvedPolicy}

/-- The lines after the retry loop stop at the first listener that throws, and the callback
waits for its deserializer. -/
def cut (user : User) : List Unary.Emission → List Unary.Emission
  | [] => []
  | .metadata metadata :: rest => .metadata metadata :: if user.metadata then [] else cut user rest
  | .status status :: rest => .status status :: if user.status then [] else cut user rest
  | .value message :: rest => if user.deserialize then [] else .value message :: cut user rest
  | .error status :: rest => .error status :: cut user rest

/-- `makeUnaryRequest` under user code that may throw. -/
def step (policy : Option ResolvedPolicy) (s : State) (label : (Event × Number) × User) : Option State :=
  (Unary.step policy s label.1).map fun t =>
    { t with emitted := s.emitted ++ cut label.2 (t.emitted.drop s.emitted.length) }

/-- An attempt that completes is the last one. -/
def Finishes (policy : Option ResolvedPolicy) (s : State) (status : StatusResult) : Prop :=
  retried policy s.ledger.throttle status s.attempt = false ∨ s.signal ≠ none

/-- The event has the caller told of this status and response. -/
inductive Reports (policy : Option ResolvedPolicy) (s : State) :
    Event → StatusResult → Option UnaryResponse → Prop where
  | resolve {res : UnaryResponse} (attempting : s.phase = .attempting)
      (finishes : Finishes policy s res.status) :
      Reports policy s (.resolve res) res.status (some res)
  | reject {reason : Str} (attempting : s.phase = .attempting)
      (finishes : Finishes policy s (errorForFailure s.signal reason)) :
      Reports policy s (.reject reason) (errorForFailure s.signal reason) none
  | abort {reason : AbortReason} {delay : Number} {status : StatusResult} {res : Option UnaryResponse}
      (waiting : s.phase = .backingOff delay status res) (calm : s.signal = none) :
      Reports policy s (.abort reason) status res

/-- The listeners and the deserializer on the way to the callback return. -/
def Shows (user : User) (status : StatusResult) (res : Option UnaryResponse) : Prop :=
  (res.isSome → user.metadata = false ∧ user.status = false) ∧
    (status.code = H2ts.Status.ok → user.deserialize = false)

def Fine (policy : Option ResolvedPolicy) (s : State) (label : (Event × Number) × User) : Prop :=
  ∀ status res, Reports policy s label.1.1 status res → Shows label.2 status res

def isCallback : Unary.Emission → Bool
  | .error _ => true
  | .value _ => true
  | _ => false

def callbacks (s : State) : Nat := (s.emitted.filter isCallback).length

/-- The callback has been called once if the call is settled, else not at all. -/
structure Answered (s : State) : Prop where
  settled : s.phase = .settled → callbacks s = 1
  untold : s.phase ≠ .settled → callbacks s = 0

/-- All a settled call would emit. -/
def reported (status : StatusResult) (res : Option UnaryResponse) : List Unary.Emission :=
  (res.map fun r => [Unary.Emission.metadata r.headers, .status r.status]).getD [] ++
    [if status.code = H2ts.Status.ok then Unary.Emission.value (res.elim [] (·.message)) else .error status]

theorem report_emitted (s : State) (status : StatusResult) (res : Option UnaryResponse) :
    (Unary.report s status res).emitted = s.emitted ++ reported status res :=
  List.append_assoc _ _ _

theorem conclude_cases (s : State) (status : StatusResult) (res : Option UnaryResponse) (random : Number) :
    (Unary.conclude policy s status res random).phase = .settled ∧
        (Unary.conclude policy s status res random).emitted = s.emitted ++ reported status res ∨
      (Unary.conclude policy s status res random).phase ≠ .settled ∧
        (Unary.conclude policy s status res random).emitted = s.emitted := by
  unfold Unary.conclude
  dsimp only
  split
  · exact .inl ⟨rfl, report_emitted _ status res⟩
  · split
    · exact .inl ⟨rfl, report_emitted _ status res⟩
    · exact .inr ⟨by simp, rfl⟩

/-- A completed attempt settles the call and tells its caller, or begins a backoff. -/
theorem conclude_reports (s : State) (status : StatusResult) (res : Option UnaryResponse) (random : Number) :
    Finishes policy s status ∧ (Unary.conclude policy s status res random).phase = .settled ∧
        (Unary.conclude policy s status res random).emitted = s.emitted ++ reported status res ∨
      ¬ Finishes policy s status ∧ (Unary.conclude policy s status res random).phase ≠ .settled ∧
        (Unary.conclude policy s status res random).emitted = s.emitted := by
  by_cases finishes : Finishes policy s status
  · have settled : (Unary.conclude policy s status res random).phase = .settled :=
      Unary.conclude_settled finishes res random
    exact .inl ⟨finishes, (conclude_cases s status res random).resolve_right fun other => other.1 settled⟩
  · have again : retried policy s.ledger.throttle status s.attempt = true :=
      Bool.not_eq_false _ ▸ fun last => finishes (.inl last)
    have calm : s.signal = none := by
      by_contra aborted
      exact finishes (.inr aborted)
    obtain ⟨delay, waits⟩ := Unary.conclude_backsOff again calm res random
    refine .inr ⟨finishes, (conclude_cases s status res random).resolve_left fun other => ?_⟩
    simp [waits] at other

theorem Reports.unique {s : State} {event : Event} {status status' : StatusResult}
    {res res' : Option UnaryResponse} (reports : Reports policy s event status res)
    (again : Reports policy s event status' res') : status = status' ∧ res = res' := by
  cases reports with
  | resolve attempting finishes => cases again; exact ⟨rfl, rfl⟩
  | reject attempting finishes => cases again; exact ⟨rfl, rfl⟩
  | abort waiting calm =>
      cases again with
      | abort waiting' calm' =>
          cases waiting.symm.trans waiting'
          exact ⟨rfl, rfl⟩

theorem Reports.unsettled {s : State} {event : Event} {status : StatusResult} {res : Option UnaryResponse}
    (reports : Reports policy s event status res) : s.phase ≠ .settled := by
  intro settled
  cases reports with
  | resolve attempting finishes | reject attempting finishes => cases attempting.symm.trans settled
  | abort waiting calm => cases waiting.symm.trans settled

/-- A step tells the caller and settles the call, or tells nothing. -/
theorem step_reports {s t : State} {label : Event × Number} (h : Unary.step policy s label = some t) :
    (∃ status res, Reports policy s label.1 status res ∧ t.phase = .settled ∧
        t.emitted = s.emitted ++ reported status res) ∨
      (∀ status res, ¬ Reports policy s label.1 status res) ∧ (t.phase = .settled ↔ s.phase = .settled) ∧
        t.emitted = s.emitted := by
  obtain ⟨event, random⟩ := label
  cases event with
  | resolve res =>
      cases phase : s.phase <;> simp only [Unary.step, phase, Option.some.injEq, reduceCtorEq] at h
      subst h
      rcases conclude_reports s res.status (some res) random with ⟨finishes, told⟩ | ⟨goesOn, waits, silent⟩
      · exact .inl ⟨_, _, .resolve phase finishes, told⟩
      · refine .inr ⟨fun _ _ reports => ?_, iff_of_false waits (by simp), silent⟩
        cases reports with
        | resolve _ finishes => exact goesOn finishes
  | reject reason =>
      cases phase : s.phase <;> simp only [Unary.step, phase, Option.some.injEq, reduceCtorEq] at h
      subst h
      rcases conclude_reports s (errorForFailure s.signal reason) none random with
        ⟨finishes, told⟩ | ⟨goesOn, waits, silent⟩
      · exact .inl ⟨_, _, .reject phase finishes, told⟩
      · refine .inr ⟨fun _ _ reports => ?_, iff_of_false waits (by simp), silent⟩
        cases reports with
        | reject _ finishes => exact goesOn finishes
  | abort reason =>
      cases phase : s.phase with
      | attempting =>
          refine .inr ⟨fun _ _ reports => ?_, ?_⟩
          · cases reports with
            | abort waiting calm => cases phase.symm.trans waiting
          · cases signal : s.signal <;> simp only [Unary.step, phase, signal, Option.some.injEq] at h <;>
              subst h <;> simp [phase]
      | backingOff delay status res =>
          cases signal : s.signal <;>
            simp only [Unary.step, phase, signal, Option.some.injEq] at h <;> subst h
          · exact .inl ⟨_, _, .abort phase signal, rfl, report_emitted _ status res⟩
          · refine .inr ⟨fun _ _ reports => ?_, by simp [phase], rfl⟩
            cases reports with
            | abort waiting calm => cases signal.symm.trans calm
      | settled =>
          refine .inr ⟨fun _ _ reports => reports.unsettled phase, ?_⟩
          cases signal : s.signal <;> simp only [Unary.step, phase, signal, Option.some.injEq] at h <;>
            subst h <;> simp [phase]
  | elapsed =>
      cases phase : s.phase <;> simp only [Unary.step, phase, Option.some.injEq, reduceCtorEq] at h
      subst h
      exact .inr ⟨fun _ _ reports => (by cases reports), by simp, rfl⟩
  | others throttle =>
      cases h
      exact .inr ⟨fun _ _ reports => (by cases reports), Iff.rfl, rfl⟩

/-- The callback is reached exactly when what stands before it returns. -/
theorem cut_reported (user : User) (status : StatusResult) (res : Option UnaryResponse) :
    ((cut user (reported status res)).filter isCallback).length = 1 ∧ Shows user status res ∨
      ((cut user (reported status res)).filter isCallback).length = 0 ∧ ¬ Shows user status res := by
  obtain ⟨metadata, deserialize, data, listened, last, callback⟩ := user
  unfold Shows reported
  by_cases ok : status.code = H2ts.Status.ok
  · cases res <;> cases metadata <;> cases listened <;> cases deserialize <;>
      simp [cut, ok, isCallback, List.filter_cons]
  · cases res <;> cases metadata <;> cases listened <;> simp [cut, ok, isCallback, List.filter_cons]

theorem callbacks_append {s t : State} {user : User} {more : List Unary.Emission}
    (emitted : t.emitted = s.emitted ++ cut user more) :
    callbacks t = callbacks s + ((cut user more).filter isCallback).length := by
  rw [callbacks, emitted, List.filter_append, List.length_append, callbacks]

/-- What a step under throwing user code emits: nothing, or what the cut leaves of a report. -/
theorem step_inv {s t : State} {label : (Event × Number) × User} (h : step policy s label = some t) :
    (∃ status res, Reports policy s label.1.1 status res ∧ t.phase = .settled ∧
        callbacks t = callbacks s + ((cut label.2 (reported status res)).filter isCallback).length) ∨
      (∀ status res, ¬ Reports policy s label.1.1 status res) ∧ (t.phase = .settled ↔ s.phase = .settled) ∧
        callbacks t = callbacks s := by
  obtain ⟨u, moved, rfl⟩ := Option.map_eq_some_iff.mp h
  rcases step_reports moved with ⟨status, res, reports, settled, emitted⟩ | ⟨silent, phase, emitted⟩
  · refine .inl ⟨status, res, reports, settled, callbacks_append ?_⟩
    simp only [emitted, List.drop_left]
  · refine .inr ⟨silent, phase, ?_⟩
    simp [callbacks, emitted, cut]

theorem answered_step {s t : State} {label : (Event × Number) × User} (answered : Answered s)
    (h : step policy s label = some t) : Answered t ↔ Fine policy s label := by
  rcases step_inv h with ⟨status, res, reports, settled, called⟩ | ⟨silent, phase, called⟩
  · rw [answered.untold reports.unsettled, Nat.zero_add] at called
    have fine : Fine policy s label ↔ Shows label.2 status res := by
      constructor
      · exact fun fine => fine status res reports
      · intro shows' status' res' other
        obtain ⟨rfl, rfl⟩ := reports.unique other
        exact shows'
    rw [fine]
    rcases cut_reported label.2 status res with ⟨once, shown⟩ | ⟨never, hidden⟩
    · exact iff_of_true ⟨fun _ => called.trans once, fun other => absurd settled other⟩ shown
    · refine iff_of_false (fun answered => ?_) hidden
      cases (answered.settled settled).symm.trans (called.trans never)
  · refine iff_of_true ⟨fun settled => ?_, fun other => ?_⟩ fun status res reports =>
      absurd reports (silent status res)
    · exact called.trans (answered.settled (phase.mp settled))
    · exact called.trans (answered.untold fun settled => other (phase.mpr settled))

theorem unanswered_step {s t : State} {label : (Event × Number) × User}
    (started : s.phase ≠ .settled → callbacks s = 0) (unanswered : ¬ Answered s)
    (h : step policy s label = some t) : ¬ Answered t := by
  have settled : s.phase = .settled := by
    by_contra open_
    exact unanswered ⟨fun settled => absurd settled open_, started⟩
  rcases step_inv h with ⟨status, res, reports, _⟩ | ⟨silent, phase, called⟩
  · exact absurd settled reports.unsettled
  · intro answered
    exact unanswered ⟨fun _ => called.symm.trans (answered.settled (phase.mpr settled)), started⟩

/-- Until it settles, a unary call has not called back. -/
theorem untold_step {s t : State} {label : (Event × Number) × User}
    (started : s.phase ≠ .settled → callbacks s = 0) (h : step policy s label = some t) :
    t.phase ≠ .settled → callbacks t = 0 := by
  rcases step_inv h with ⟨status, res, reports, settled, _⟩ | ⟨silent, phase, called⟩
  · exact fun other => absurd settled other
  · exact fun other => called.trans (started fun settled => other (phase.mpr settled))

theorem answered_iff {signal : Option AbortReason} {throttle : Option Throttle}
    {labels : List ((Event × Number) × User)} {s : State}
    (h : Machine.run (step policy) (Unary.init signal throttle) labels = some s) :
    Answered s ↔ Machine.Along (step policy) (Fine policy) (Unary.init signal throttle) labels :=
  Machine.run_iff_along (J := fun s => s.phase ≠ .settled → callbacks s = 0) (P := Answered)
    (fun _ => rfl) ⟨fun settled => (by cases settled), fun _ => rfl⟩
    (fun _ _ _ started moved => untold_step started moved)
    (fun _ _ _ _ answered moved => answered_step answered moved)
    (fun _ _ _ started unanswered moved => unanswered_step started unanswered moved) h

end UnaryCall

/-- A call has exactly one outcome, on every run, exactly when no user code throws on the
way to it. -/
theorem one_outcome_iff (policy : Option RetryPolicy) (transport : Transport) (signal : Option AbortReason)
    (throttle : Option Throttle) (Msg : Type) :
    (∀ labels s, Machine.run (UnaryCall.step (policy.map resolvePolicy))
      (Unary.init signal throttle) labels = some s →
      (UnaryCall.Answered s ↔ Machine.Along (UnaryCall.step (policy.map resolvePolicy))
        (UnaryCall.Fine (policy.map resolvePolicy)) (Unary.init signal throttle) labels)) ∧
    (∀ labels s, Machine.run (step (ServerCall.handlers (policy.map resolvePolicy)) transport)
        (Conn.init (ServerCall.init throttle : ServerCall Msg) signal) labels = some s →
      ((ServerCall.tells (policy.map resolvePolicy)).Answered s ↔
        Machine.Along (step (ServerCall.handlers (policy.map resolvePolicy)) transport)
          ((ServerCall.tells (policy.map resolvePolicy)).Fine transport)
          (Conn.init (ServerCall.init throttle) signal) labels)) ∧
    (∀ labels s, Machine.run (step ClientCall.handlers transport)
        (Conn.init (⟨none, []⟩ : ClientCall Msg) signal) labels = some s →
      (ClientCall.tells.Answered s ↔ Machine.Along (step ClientCall.handlers transport)
        (ClientCall.tells.Fine transport) (Conn.init ⟨none, []⟩ signal) labels)) ∧
    ∀ labels s, Machine.run (step BidiCall.handlers transport)
        (Conn.init ([] : List (Emission Msg)) signal) labels = some s →
      (BidiCall.tells.Answered s ↔ Machine.Along (step BidiCall.handlers transport)
        (BidiCall.tells.Fine transport) (Conn.init [] signal) labels) := by
  refine ⟨?_, ?_, ?_, ?_⟩
  · intro labels s h
    exact UnaryCall.answered_iff h
  · intro labels s h
    refine (ServerCall.tells _).answered_iff ?_ signal h
    exact (rfl : NoOutcome (ServerCall.init throttle : ServerCall Msg).emitted)
  · intro labels s h
    refine ClientCall.tells.answered_iff ?_ signal h
    exact (rfl : (⟨none, []⟩ : ClientCall Msg).answers = [])
  · intro labels s h
    refine BidiCall.tells.answered_iff ?_ signal h
    exact (rfl : NoOutcome ([] : List (Emission Msg)))

def User.calm : User := ⟨false, false, false, false, false, false⟩

def okStatus : StatusResult := ⟨H2ts.Status.ok, [], []⟩

/-- A response with OK under this user code. -/
def respondOk (user : User) : Label Unit := ⟨.respond okStatus, .ofNat 0, user, .calm, []⟩

/-- A client stream over ws whose callback throws has called it once. -/
theorem throwing_callback_is_called :
    ∃ s, Machine.run (step ClientCall.handlers .ws) (Conn.init (⟨none, []⟩ : ClientCall Unit) none)
        [respondOk { User.calm with callback := true }] = some s ∧ ClientCall.tells.Answered s :=
  ⟨_, rfl, ((one_outcome_iff none .ws none none Unit).2.2.1
    [respondOk { User.calm with callback := true }] _ rfl).mpr
    ⟨⟨fun closed => absurd closed Bool.false_ne_true, fun _ _ _ _ => trivial, fun _ loops =>
      by cases loops⟩, trivial⟩⟩

/-- A deserializer that throws leaves a unary call without its callback; a callback that
throws into the h2ts read loop is called again; and a `status` listener that throws leaves
a stream over ws without `end` or `error`. -/
theorem outcomes_missed_and_repeated :
    (∃ s, Machine.run (UnaryCall.step none) (Unary.init none none)
        [((.resolve ⟨[], [], okStatus⟩, .ofNat 0), { User.calm with deserialize := true })] = some s ∧
      s.phase = .settled ∧ UnaryCall.callbacks s = 0) ∧
    (∃ s, Machine.run (step ClientCall.handlers .h2ts) (Conn.init (⟨none, []⟩ : ClientCall Unit) none)
        [respondOk { User.calm with callback := true }] = some s ∧
      s.calls = [.status, .status] ∧ s.call.answers.length = 2) ∧
    ∃ s, Machine.run (step BidiCall.handlers .ws) (Conn.init ([] : List (Emission Unit)) none)
        [respondOk { User.calm with status := true }] = some s ∧
      s.closed = true ∧ s.call = [.status okStatus] :=
  ⟨⟨_, rfl, rfl, rfl⟩, ⟨_, rfl, rfl, rfl⟩, _, rfl, rfl, rfl⟩

end GrpcWebnext.NodeClient.Throwing
