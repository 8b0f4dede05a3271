import GrpcWebnext.H2ts.Status
import GrpcWebnext.Library.Number

/-! `retry.ts`: the policy, the throttle, the server's pushback and the decision taken
on one completed attempt. -/
namespace GrpcWebnext.NodeClient
open Text (Str)
open Framing (Bytes)
open Js (Number)

inductive MetadataValue where
  | text (s : Str)
  | binary (bytes : Bytes)
  deriving DecidableEq

/-- The entries of the `Map` in `Metadata`, keys in lower case. -/
abbrev Metadata := List (Str × List MetadataValue)

def Metadata.get (metadata : Metadata) (key : String) : List MetadataValue :=
  ((metadata.find? fun entry => entry.1 = key.toList).map Prod.snd).getD []

structure StatusResult where
  code : Int
  details : Str
  metadata : Metadata
  deriving DecidableEq

structure RetryPolicy where
  maxAttempts : Option Number
  initialBackoffMs : Option Number
  maxBackoffMs : Option Number
  backoffMultiplier : Option Number
  retryableStatusCodes : Option (List Int)

structure ResolvedPolicy where
  maxAttempts : Number
  initialBackoffMs : Number
  maxBackoffMs : Number
  backoffMultiplier : Number
  retryableStatusCodes : List Int

def resolvePolicy (policy : RetryPolicy) : ResolvedPolicy where
  maxAttempts := .max (.ofNat 1) (.floor (policy.maxAttempts.getD (.ofNat 5)))
  initialBackoffMs := .max (.ofNat 0) (policy.initialBackoffMs.getD (.ofNat 100))
  maxBackoffMs := .max (.ofNat 0) (policy.maxBackoffMs.getD (.ofNat 2000))
  backoffMultiplier := .max (.ofNat 1) (policy.backoffMultiplier.getD (.ofNat 2))
  retryableStatusCodes := policy.retryableStatusCodes.getD [H2ts.Status.unavailable]

structure RetryThrottling where
  maxTokens : Number
  tokenRatio : Number
  deriving DecidableEq

structure Throttle where
  config : RetryThrottling
  tokens : Number
  deriving DecidableEq

namespace Throttle

def new (config : RetryThrottling) : Throttle := ⟨config, config.maxTokens⟩

def allowed (t : Throttle) : Bool := Number.lt (.half t.config.maxTokens) t.tokens

def onFailure (t : Throttle) : Throttle := { t with tokens := .max (.ofNat 0) (.sub t.tokens (.ofNat 1)) }

def onSuccess (t : Throttle) : Throttle :=
  { t with tokens := .min t.config.maxTokens (.add t.tokens t.config.tokenRatio) }

end Throttle

def pushbackHeader : String := "grpc-retry-pushback-ms"

inductive Pushback where
  | none
  | stop
  | delay (ms : Int)
  deriving DecidableEq

/-- `new TextDecoder().decode`: lossy, and a byte order mark in front is dropped. -/
def textDecoder (bytes : Bytes) : Str :=
  Utf8.decodeLossy (if [0xEF, 0xBB, 0xBF].isPrefixOf bytes then bytes.drop 3 else bytes)

def MetadataValue.decode : MetadataValue → Str
  | .text s => s
  | .binary bytes => textDecoder bytes

/-- Negative or unreadable is a refusal. -/
def readPushback (metadata : Metadata) : Pushback :=
  match (metadata.get pushbackHeader).head? with
  | none => .none
  | some raw => match H2ts.parseInt raw.decode with
    | none => .stop
    | some ms => if !H2ts.isFinite ms || ms < 0 then .stop else .delay ms

/-- The jittered delay; `random` is the draw of `Math.random`. -/
def backoffMs (policy : ResolvedPolicy) (attempt : Nat) (random : Number) : Number :=
  let target := policy.initialBackoffMs.mul (policy.backoffMultiplier.pow (attempt - 1))
  random.mul (.min target policy.maxBackoffMs)

def retryable (policy : ResolvedPolicy) (status : StatusResult) (attempt : Nat) : Bool :=
  (Number.ofNat attempt).lt policy.maxAttempts && policy.retryableStatusCodes.contains status.code

/-- The decision on one completed attempt: the delay before the next, or `none` to report. -/
def nextDelay (policy : ResolvedPolicy) (throttle : Option Throttle) (status : StatusResult)
    (attempt : Nat) (random : Number) : Option Number :=
  let vetoed := throttle.any fun t => !t.allowed
  match readPushback status.metadata with
  | .stop => none
  | .delay ms =>
      if (Number.ofNat attempt).ge policy.maxAttempts then none
      else if vetoed then none
      else some (.ofInt ms)
  | .none =>
      if !retryable policy status attempt then none
      else if vetoed then none
      else some (backoffMs policy attempt random)

/-- An attempt may be followed by another as far as the server and the policy go: the
server named a delay and the attempts are not used up, or it said nothing and the
policy lists the status. -/
def repeats (policy : ResolvedPolicy) (status : StatusResult) (attempt : Nat) : Bool :=
  match readPushback status.metadata with
  | .stop => false
  | .delay _ => !(Number.ofNat attempt).ge policy.maxAttempts
  | .none => retryable policy status attempt

/-- The throttle, if there is one, has more than half its tokens. -/
def permits (throttle : Option Throttle) : Bool := throttle.all Throttle.allowed

theorem vetoed_eq (throttle : Option Throttle) :
    (throttle.any fun t => !t.allowed) = !permits throttle := by
  cases throttle <;> simp [permits]

theorem nextDelay_isSome (policy : ResolvedPolicy) (throttle : Option Throttle)
    (status : StatusResult) (attempt : Nat) (random : Number) :
    (nextDelay policy throttle status attempt random).isSome =
      (repeats policy status attempt && permits throttle) := by
  unfold nextDelay repeats
  simp only [vetoed_eq]
  cases readPushback status.metadata with
  | stop => rfl
  | delay ms => cases (Number.ofNat attempt).ge policy.maxAttempts <;> cases permits throttle <;> rfl
  | none => cases retryable policy status attempt <;> cases permits throttle <;> rfl

end GrpcWebnext.NodeClient
