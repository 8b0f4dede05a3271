import GrpcWebnext.Metadata

/-! What a backend answers, before any surface has looked at it. -/
namespace GrpcWebnext
open Framing (Bytes)
open Text (Str)

section
variable {V : Type}

/-- How a response body ends: without trailers, with a trailer block, in a body error,
or because the deadline of the call fires while the next chunk is awaited. -/
inductive Ending (V : Type) where
  | bare
  | trailers (block : List (Str × V))
  | failed (reason : String)
  | expired
  deriving DecidableEq

structure Response (V : Type) where
  headers : List (Str × V)
  chunks : List Bytes
  ending : Ending V
  deriving DecidableEq

/-- What comes of a call: no response, none in time, or one. -/
inductive Call where
  | refused (reason : String)
  | late
  | answered (response : Response Bytes)

def Ending.block : Ending V → List (Str × V)
  | .trailers block => block
  | _ => []

def Ending.whole : Ending V → Bool
  | .bare => true
  | .trailers _ => true
  | _ => false

theorem Ending.whole_iff {e : Ending V} :
    e.whole = true ↔ e = .bare ∨ ∃ block, e = .trailers block := by
  cases e <;> simp [Ending.whole]

namespace Response

def body (r : Response V) : Bytes := r.chunks.flatten

def trailers (r : Response V) : List (Str × V) := r.ending.block

/-- The complete messages of the body. -/
def messages (r : Response V) : List Bytes := (Framing.parse r.body).1.map Prod.snd

/-- The body ended on its own, and not inside a message. -/
def Clean (r : Response V) : Prop := r.ending.whole = true ∧ (Framing.parse r.body).2 = []

/-- An explicit OK: in the trailers, or in the headers of a response that is nothing
but headers. -/
def Vouched (carriesOk : List (Str × V) → Prop) (r : Response V) : Prop :=
  carriesOk r.trailers ∨ (r.body = [] ∧ r.trailers = [] ∧ carriesOk r.headers)

end Response
end

/-- The block holds `grpc-status: 0`. -/
def HeaderMap.CarriesOk (block : HeaderMap) : Prop := block.get "grpc-status" = some (utf8 "0")

theorem Rust.statusCode_of_vouched {r : Response Bytes} (vouched : r.Vouched HeaderMap.CarriesOk) :
    Rust.statusCode r.trailers r.headers = some 0 := by
  have zero : (toStr (utf8 "0")).bind Rust.parseU32 = some 0 := by decide
  rcases vouched with trailers | ⟨_, none, headers⟩
  · unfold Rust.statusCode
    rw [trailers]
    exact zero
  · unfold Rust.statusCode
    rw [none, headers]
    exact zero

theorem Go.statusCode_of_vouched {r : Response Bytes} (vouched : r.Vouched HeaderMap.CarriesOk) :
    Go.statusCode r.trailers r.headers = some 0 := by
  have zero : Go.parseUint32 (utf8 "0") = some 0 := by decide
  rcases vouched with trailers | ⟨_, none, headers⟩
  · unfold Go.statusCode Go.lookup
    rw [trailers]
    exact zero
  · unfold Go.statusCode Go.lookup
    rw [none, headers]
    exact zero

end GrpcWebnext
