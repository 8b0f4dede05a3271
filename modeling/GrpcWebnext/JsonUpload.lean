import GrpcWebnext.Deadline.Forwarded
import GrpcWebnext.FetchRequest
import GrpcWebnext.Routing

/-! The body of a JSON request over Fetch, which both edges buffer before they route it:
`collect_bounded` and `readBounded`, and the answers where it does not come. -/
namespace GrpcWebnext.FetchRequest
open Framing (Bytes)
open Text (Str)

inductive BodyError where
  | tooLarge
  | failed (reason : String)
  deriving DecidableEq, Repr

/-- A native JSON answer that carries a status only. -/
structure StatusAnswer where
  contentType : Str
  code : Nat
  message : String

namespace Rust

/-- The loop of `collect_bounded`, with its buffer. -/
def collect (max : Nat) : Bytes → List BodyItem → Except BodyError Bytes
  | buf, [] => .ok buf
  | buf, .data bytes :: rest =>
      if max < buf.length + bytes.length then .error .tooLarge else collect max (buf ++ bytes) rest
  | buf, .trailers :: rest => collect max buf rest
  | _, .error reason :: _ => .error (.failed reason)

def collectBounded (body : List BodyItem) (max : Nat) : Except BodyError Bytes := collect max [] body

/-- The answers of `collect_bounded`. -/
def refuse : BodyError → StatusAnswer
  | .tooLarge => ⟨Routing.ctJson String.toList, Code.resourceExhausted, "request message exceeds size limit"⟩
  | .failed reason => ⟨Routing.ctJson String.toList, Code.internal, "read body: " ++ reason⟩

end Rust

namespace Go

/-- What is read through an `io.LimitReader`: nothing more once the limit is used up. -/
def limited : Nat → List BodyItem → List BodyItem
  | 0, _ => []
  | _ + 1, [] => []
  | n + 1, .data bytes :: rest => .data (bytes.take (n + 1)) :: limited (n + 1 - bytes.length) rest
  | n + 1, .trailers :: rest => limited (n + 1) rest
  | _ + 1, .error reason :: _ => [.error reason]

/-- `io.ReadAll`. -/
def readAll : List BodyItem → Except String Bytes
  | [] => .ok []
  | .data bytes :: rest => (readAll rest).map (bytes ++ ·)
  | .trailers :: rest => readAll rest
  | .error reason :: _ => .error reason

/-- The limit is an `int64`, and one that is not positive reads nothing. -/
def readBounded (body : List BodyItem) (max : Nat) : Except BodyError Bytes :=
  match readAll (limited (Deadline.Go.wrap (max + 1)).toNat body) with
  | .error reason => .error (.failed reason)
  | .ok bytes => if max < bytes.length then .error .tooLarge else .ok bytes

/-- The answers of `unaryJSON`. -/
def refuse (sdkJson : Bool) : BodyError → StatusAnswer
  | .tooLarge => ⟨if sdkJson then Routing.ctJson String.toList else Routing.plainJson String.toList,
      Code.resourceExhausted, "request message exceeds size limit"⟩
  | .failed reason => ⟨if sdkJson then Routing.ctJson String.toList else Routing.plainJson String.toList,
      Code.internal, "read body: " ++ reason⟩

end Go

/-- The error that ends a body early. -/
def failure : List BodyItem → Option String
  | [] => none
  | .data _ :: rest => failure rest
  | .trailers :: rest => failure rest
  | .error reason :: _ => some reason

/-- What is to become of a body behind the bytes already held. -/
def settled (held : Bytes) (body : List BodyItem) (max : Nat) : Except BodyError Bytes :=
  if max < (held ++ bodyBytes body).length then .error .tooLarge
  else match failure body with
    | some reason => .error (.failed reason)
    | none => .ok (held ++ bodyBytes body)

/-- A body is buffered whole: too large or failed, whichever comes first, or all of its bytes. -/
def bounded (body : List BodyItem) (max : Nat) : Except BodyError Bytes := settled [] body max

theorem Rust.collect_eq {max : Nat} {buf : Bytes} (body : List BodyItem) (fits : buf.length ≤ max) :
    collect max buf body = settled buf body max := by
  induction body generalizing buf with
  | nil =>
      rw [settled, bodyBytes, List.append_nil, if_neg (Nat.not_lt.mpr fits)]
      rfl
  | cons item rest ih =>
      cases item with
      | data bytes =>
          have same : settled buf (.data bytes :: rest) max = settled (buf ++ bytes) rest max := by
            rw [settled, settled, bodyBytes, failure, List.append_assoc]
          rw [collect, same]
          split
          · rename_i large
            rw [settled, if_pos]
            rw [List.length_append, List.length_append]
            exact large.trans_le (Nat.le_add_right _ _)
          · rename_i small
            exact ih (by rw [List.length_append]; exact Nat.not_lt.mp small)
      | trailers => exact ih fits
      | error reason =>
          rw [settled, bodyBytes, List.append_nil, if_neg (Nat.not_lt.mpr fits)]
          rfl

theorem Go.readAll_limited (n : Nat) (body : List BodyItem) :
    readAll (limited n body) = if n ≤ (bodyBytes body).length then .ok ((bodyBytes body).take n)
      else match failure body with
        | some reason => .error reason
        | none => .ok (bodyBytes body) := by
  induction body generalizing n with
  | nil => cases n <;> rfl
  | cons item rest ih =>
      cases n with
      | zero => rfl
      | succ n => cases item with
        | trailers => exact ih (n + 1)
        | error reason => rfl
        | data bytes =>
            rw [limited, readAll, ih, bodyBytes, failure, List.length_append, List.take_append]
            by_cases inside : n + 1 ≤ bytes.length + (bodyBytes rest).length
            · rw [if_pos (by omega), if_pos inside]
              rfl
            · rw [if_neg (by omega), if_neg inside, List.take_of_length_le (by omega)]
              cases failure rest <;> rfl

theorem Go.readBounded_eq (body : List BodyItem) {max : Nat} (room : max < 2 ^ 63 - 1) :
    readBounded body max = bounded body max := by
  have limit : (Deadline.Go.wrap (max + 1)).toNat = max + 1 := by
    rw [Deadline.Go.wrap, Int.bmod_eq_of_le (by omega) (by omega)]
    omega
  rw [readBounded, limit, readAll_limited, bounded, settled, List.nil_append]
  by_cases large : max < (bodyBytes body).length
  · rw [if_pos large, if_pos (Nat.succ_le_of_lt large)]
    dsimp only
    rw [List.length_take, Nat.min_eq_left (Nat.succ_le_of_lt large), if_pos (Nat.lt_succ_self max)]
  · rw [if_neg large, if_neg (mt Nat.lt_of_succ_le large)]
    cases failure body with
    | some reason => rfl
    | none => exact if_neg large

/-- One more than the largest `int` is negative. -/
theorem Go.readBounded_unlimited (body : List BodyItem) : readBounded body (2 ^ 63 - 1) = .ok [] := by
  have limit : (Deadline.Go.wrap ((2 ^ 63 - 1 : Nat) + 1)).toNat = 0 := by decide
  rw [readBounded, limit]
  cases body <;> rfl

/-- Both edges buffer a JSON body alike and answer alike where it does not come, but for two
things. A Go server whose limit is the largest `int` reads every body as empty; and where the
content type is plain JSON, the Rust edge answers with that of the SDK. -/
theorem json_body_bounded (body : List BodyItem) (max : Nat) {configured : Int}
    (range : configured < 2 ^ 63) :
    Rust.collectBounded body max = bounded body max ∧
      (Go.readBounded body (Go.maxMessageBytes configured) = bounded body (Go.maxMessageBytes configured) ↔
        configured < 2 ^ 63 - 1 ∨ bounded body (Go.maxMessageBytes configured) = .ok []) ∧
      ∀ sdkJson e, (Rust.refuse e).code = (Go.refuse sdkJson e).code ∧
        (Rust.refuse e).message = (Go.refuse sdkJson e).message ∧
        ((Rust.refuse e).contentType = (Go.refuse sdkJson e).contentType ↔ sdkJson = true) := by
  refine ⟨Rust.collect_eq body (Nat.zero_le max), ?_, ?_⟩
  · by_cases room : configured < 2 ^ 63 - 1
    · refine iff_of_true (Go.readBounded_eq body ?_) (.inl room)
      unfold Go.maxMessageBytes
      split <;> omega
    · have largest : Go.maxMessageBytes configured = 2 ^ 63 - 1 := by
        rw [Go.maxMessageBytes, if_neg (by omega)]
        omega
      rw [largest, Go.readBounded_unlimited, or_iff_right room]
      exact eq_comm
  · intro sdkJson e
    have other : Routing.ctJson String.toList ≠ Routing.plainJson String.toList := by decide
    cases sdkJson with
    | true => cases e <;> exact ⟨rfl, rfl, iff_of_true rfl rfl⟩
    | false => cases e <;> exact ⟨rfl, rfl, iff_of_false other Bool.false_ne_true⟩

theorem json_body_bounded_unlimited :
    Go.readBounded [.data [123, 125]] (Go.maxMessageBytes (2 ^ 63 - 1)) ≠
      bounded [.data [123, 125]] (Go.maxMessageBytes (2 ^ 63 - 1)) := by
  obtain ⟨_, edge, _⟩ := @json_body_bounded [.data [123, 125]] 0 (2 ^ 63 - 1) (by decide)
  rw [Ne, edge, not_or]
  refine ⟨by decide, ?_⟩
  have whole : bounded [.data [123, 125]] (Go.maxMessageBytes (2 ^ 63 - 1)) = .ok [123, 125] := by
    have room : ¬ Go.maxMessageBytes (2 ^ 63 - 1) < 2 := by decide
    rw [bounded, settled]
    exact (if_neg room).trans rfl
  rw [whole]
  simp

end GrpcWebnext.FetchRequest
