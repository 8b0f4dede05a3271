import GrpcWebnext.Backend

/-! The status in an h2ts response as the TypeScript client reads it. Header and trailer
records hold strings, the HTTP status stands beside them. -/
namespace GrpcWebnext.H2ts
open Text (Str)

abbrev Record := List (Str × Str)

def Record.get (record : Record) (name : String) : Option Str :=
  (record.find? fun entry => entry.1 = name.toList).map Prod.snd

/-- The block holds `grpc-status: 0`. -/
def Record.CarriesOk (record : Record) : Prop := record.get "grpc-status" = some "0".toList

structure H2Response extends Response Str where
  status : Nat

namespace Status

def ok : Int := 0
def cancelled : Int := 1
def unknown : Int := 2
def deadlineExceeded : Int := 4
def permissionDenied : Int := 7
def unimplemented : Int := 12
def internal : Int := 13
def unavailable : Int := 14
def unauthenticated : Int := 16

end Status

/-- The white space `parseInt` skips. -/
def isSpace (c : Char) : Bool :=
  let n := c.toNat
  (9 ≤ n && n ≤ 13) || (0x2000 ≤ n && n ≤ 0x200A) ||
    [0x20, 0xA0, 0x1680, 0x2028, 0x2029, 0x202F, 0x205F, 0x3000, 0xFEFF].contains n

/-- `Number.parseInt(_, 10)`: a sign and the digits behind it, whatever follows them;
`none` is NaN. -/
def parseInt (s : Str) : Option Int :=
  match s.dropWhile isSpace with
  | '-' :: rest => (decimal (rest.takeWhile Char.isDigit)).map fun n => -n
  | '+' :: rest => (decimal (rest.takeWhile Char.isDigit)).map Int.ofNat
  | rest => (decimal (rest.takeWhile Char.isDigit)).map Int.ofNat

/-- `Number.isFinite` of a parsed integer: below this bound it rounds to a double. -/
def isFinite (n : Int) : Bool := n.natAbs < (2 ^ 54 - 1) * (2 ^ 97) ^ 10

theorem isFinite_zero : isFinite 0 = true :=
  decide_eq_true (Nat.mul_pos (by decide) (Nat.pow_pos (by decide)))

def codeOf (raw : Str) : Int :=
  match parseInt raw with
  | some n => if isFinite n then n else Status.unknown
  | none => Status.unknown

def readStatus (decodeGrpcMessage : Str → Str) (record : Record) : Option (Int × Str) :=
  (record.get "grpc-status").map fun raw =>
    (codeOf raw, decodeGrpcMessage ((record.get "grpc-message").getD []))

def httpToStatus (status : Nat) : Int :=
  match status with
  | 400 => Status.internal
  | 401 => Status.unauthenticated
  | 403 => Status.permissionDenied
  | 404 => Status.unimplemented
  | 429 => Status.unavailable
  | 502 => Status.unavailable
  | 503 => Status.unavailable
  | 504 => Status.unavailable
  | _ => Status.unknown

/-- The `grpc-status` that is looked at: that of the trailers, else that of the headers. -/
def received (r : H2Response) : Option Str :=
  (Record.get r.trailers "grpc-status").or (Record.get r.headers "grpc-status")

theorem httpToStatus_ne_ok (status : Nat) : httpToStatus status ≠ 0 := by
  unfold httpToStatus
  split <;> decide

theorem codeOf_eq_ok_iff (raw : Str) : codeOf raw = 0 ↔ parseInt raw = some 0 := by
  unfold codeOf
  cases parsed : parseInt raw with
  | none => exact ⟨fun h => absurd h (by decide), fun absurdity => by cases absurdity⟩
  | some n =>
      dsimp only
      split
      · rw [Option.some.injEq]
      · rename_i infinite
        refine ⟨fun h => absurd h (by decide), fun h => ?_⟩
        cases h
        exact absurd isFinite_zero infinite

theorem received_of_vouched {r : H2Response} (vouched : r.Vouched Record.CarriesOk) :
    received r = some "0".toList := by
  unfold received
  rcases vouched with trailers | ⟨_, none, headers⟩
  · rw [trailers]
    rfl
  · rw [none, headers]
    rfl

end GrpcWebnext.H2ts
